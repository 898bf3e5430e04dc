import CodecMocks.Proofs.TreeGrowth
import CodecMocks.Proofs.WrittenEntries

/-!
# Units in files

Units can be kept in memory or in the files of a directory. Here the second is compared with the
first: a tree mirrors the texts in memory if each of them is in the file for its unit and nothing
else has changed since the directory was made. Writing a unit keeps this up.

* `LeadsTo.openNew_fileOf`, `LeadsTo.read_fileOf`: the file for a unit in a directory that is there.
* `Directory.HasRoom`: units can be written, as far as the tree is concerned.
* `Shelf.ofPlain`: texts in memory that hold no surrogates, and so can be in files.
* `Mirrors.add`: a unit that is written is mirrored.
* `Mirrors.holdsUnits`: what a tree that mirrors the texts holds.
-/

namespace CodecMocks.Files

open CodecMocks CodecMocks.Text

namespace Tree

variable {t : Tree} {place : Place}

/-! ### The file for a unit -/

/-- The place of the file for a unit in a directory. -/
def unitPlace (directory : Place) (name : String) : Place :=
  directory ++ [name ++ fileEnding]

theorem unitPlace_ne_nil (directory : Place) (name : String) : unitPlace directory name ≠ [] :=
  List.append_ne_nil_of_right_ne_nil directory (List.cons_ne_nil _ _)

theorem unitPlace_injective (directory : Place) : Function.Injective (unitPlace directory) := by
  intro name other h
  have hfile : name ++ fileEnding = other ++ fileEnding := by simpa [unitPlace] using h
  have hchars := congrArg String.toList hfile
  rw [String.toList_append, String.toList_append] at hchars
  exact String.toList_inj.mp (List.append_cancel_right hchars)

theorem LeadsTo.path_ne {path : String} (h : t.LeadsTo path place) : path ≠ "" := by
  obtain ⟨start, hstart, -⟩ := leadsTo_iff.mp h
  exact (start_eq_ok_iff.mp hstart).2.1

section

variable {d : Directory} {name : String} (h : t.LeadsTo d.path place) (hname : IsUsable name)
  (hsize : (d.fileOf name).utf8ByteSize ≤ pathLimit)

include h hname hsize

theorem LeadsTo.start_fileOf :
    ∃ start, t.start (d.fileOf name) = .ok (start, components d.path ++ [name ++ fileEnding]) ∧
      t.walk start (components d.path) = .ok place := by
  obtain ⟨start, hstart, hwalk, -⟩ := leadsTo_iff.mp h
  obtain ⟨hnull, hempty, -, hsame⟩ := start_eq_ok_iff.mp hstart
  refine ⟨start, start_eq_ok_iff.mpr ⟨hname.null_notMem_fileOf hempty hnull, ?_, hsize, ?_⟩, hwalk⟩
  · intro hfile
    have hcomponents := components_fileOf hname.noSlash hempty
    rw [hfile] at hcomponents
    exact List.append_ne_nil_of_right_ne_nil _ (List.cons_ne_nil _ _) hcomponents.symm
  · rw [isAbsolute_fileOf hname.noSlash hempty, components_fileOf hname.noSlash hempty]
    rw [Prod.mk.injEq] at hsame ⊢
    exact ⟨hsame.1, rfl⟩

theorem LeadsTo.target_fileOf :
    t.target (d.fileOf name) = .ok (place, some (name ++ fileEnding)) := by
  obtain ⟨start, hstart, hwalk⟩ := h.start_fileOf hname hsize
  exact target_eq_ok hstart hwalk h.2 (append_fileEnding_ne (by decide))
    (append_fileEnding_ne (by decide)) hname.size_le

/-- The file for a unit is opened unless a directory is in its place. -/
theorem LeadsTo.openNew_fileOf (hfree : t.isDirectoryAt (unitPlace place name) = false) :
    t.openNew (d.fileOf name) = .ok (t.set (unitPlace place name) (.file []),
      unitPlace place name) := by
  rw [unitPlace] at hfree
  rw [openNew, h.target_fileOf hname hsize]
  simp [hfree, endsInSlash_fileOf hname.noSlash h.path_ne, unitPlace]

theorem LeadsTo.locate_fileOf (hthere : (t.at? (unitPlace place name)).isSome) :
    t.locate (d.fileOf name) = .ok (unitPlace place name) := by
  obtain ⟨start, hstart, hwalk⟩ := h.start_fileOf hname hsize
  have hcomponents := components_fileOf hname.noSlash h.path_ne
  rw [← hcomponents] at hstart
  refine locate_eq_ok_iff.mpr ⟨start, hstart, ?_, ?_⟩
  · rw [hcomponents]
    refine walk_concat_eq_ok_iff.mpr ⟨place, hwalk, step_eq_ok_iff.mpr ⟨h.2, ?_⟩⟩
    exact .down (append_fileEnding_ne (by decide)) (append_fileEnding_ne (by decide))
      hname.size_le hthere
  · rw [endsInSlash_fileOf hname.noSlash h.path_ne]
    exact fun hends => nomatch hends

/-- No directory is in the place of a file that no directory is at the path of. -/
theorem LeadsTo.isDirectoryAt_unitPlace (hfree : t.holdsDirectory (d.fileOf name) = false) :
    t.isDirectoryAt (unitPlace place name) = false := by
  by_contra hdirectory
  rw [Bool.not_eq_false] at hdirectory
  have hlocate := h.locate_fileOf hname hsize (isSome_of_isDirectoryAt hdirectory)
  simp [holdsDirectory, hlocate, hdirectory] at hfree

end

end Tree

open Files.Tree

/-! ### Texts without surrogates -/

/-- The texts that hold no surrogates, under names that hold none, as they are kept in memory. -/
def Shelf.ofPlain (units : Entries String String) : Shelf :=
  units.map fun unit => (.ofString unit.1, .ofString unit.2)

/-! ### Trees that mirror texts -/

/-- The units can be written into the directory as far as the tree is concerned: their names and
paths are not too long, and the tree can grow to one that has the directory and in which no other
directory is in the place of a unit. -/
structure Directory.HasRoom (d : Directory) (files : Tree) (names : List String) : Prop where
  usable : ∀ name ∈ names, IsUsable name
  size_le : ∀ name ∈ names, (d.fileOf name).utf8ByteSize ≤ pathLimit
  room : ∃ grown, files.GrowsTo grown ∧ grown.holdsDirectory d.path = true ∧
    ∀ name ∈ names, grown.holdsDirectory (d.fileOf name) = false

/-- A unit can be written into the directory at a place of a tree. -/
structure Directory.Fits (d : Directory) (t : Tree) (directory : Place) (name : String) : Prop where
  usable : IsUsable name
  size_le : (d.fileOf name).utf8ByteSize ≤ pathLimit
  free : t.isDirectoryAt (unitPlace directory name) = false

/-- Where there is room, the directory is made, and the units can be written into it. -/
theorem Directory.HasRoom.exists_created {d : Directory} {files : Tree} {names : List String}
    (h : d.HasRoom files names) (hfiles : files.WellFormed) :
    ∃ created directory, files.ensureDirectory d.path = (created, none) ∧
      files.Makes d.path created ∧ created.LeadsTo d.path directory ∧
      ∀ name ∈ names, d.Fits created directory name := by
  obtain ⟨grown, hgrown, hholds, hfree⟩ := h.room
  obtain ⟨created, hcreated, hmakes⟩ := ensureDirectory_makes hfiles hgrown hholds
  obtain ⟨directory, hdirectory⟩ := holdsDirectory_iff.mp hmakes.holds
  have hwithin := (hmakes.least grown hgrown hholds).extends
  refine ⟨created, directory, hcreated, hmakes, hdirectory, fun name hname => ?_⟩
  have hplace := (hdirectory.extends hwithin).isDirectoryAt_unitPlace (h.usable name hname)
    (h.size_le name hname) (hfree name hname)
  refine ⟨h.usable name hname, h.size_le name hname, ?_⟩
  by_contra hunit
  rw [Bool.not_eq_false] at hunit
  rw [hwithin.directory _ hunit] at hplace
  cases hplace

/-- The tree mirrors the texts of the units in the directory at a place of the tree `created`, in
which no directory is in the place of a unit. -/
structure Mirrors (created : Tree) (directory : Place) (units : Entries String String)
    (files : Tree) : Prop where
  working : files.working = created.working
  free : ∀ name ∈ units.keys, created.isDirectoryAt (unitPlace directory name) = false
  text : ∀ name text, units.get? name = some text →
    files.at? (unitPlace directory name) = some (.file (Utf8.encode text))
  other : ∀ place, (∀ name ∈ units.keys, place ≠ unitPlace directory name) →
    files.at? place = created.at? place

variable {created files : Tree} {directory : Place} {units : Entries String String}

theorem mirrors_nil (created : Tree) (directory : Place) :
    Mirrors created directory [] created where
  working := rfl
  free := by simp [Entries.keys]
  text := nofun
  other _ _ := rfl

namespace Mirrors

/-- Directories are what they were: none is in the place of a unit. -/
theorem isDirectoryAt (h : Mirrors created directory units files) (place : Place) :
    files.isDirectoryAt place = created.isDirectoryAt place := by
  by_cases hunit : ∃ name ∈ units.keys, place = unitPlace directory name
  · obtain ⟨name, hname, rfl⟩ := hunit
    obtain ⟨text, htext⟩ := Entries.mem_keys_iff.mp hname
    rw [h.free name hname, Tree.isDirectoryAt, h.text name text htext]
    rfl
  · rw [Tree.isDirectoryAt, h.other place fun name hname heq => hunit ⟨name, hname, heq⟩]
    rfl

theorem extends_created (h : Mirrors created directory units files) : created.Extends files where
  working := h.working
  present place hplace := by
    by_cases hunit : ∃ name ∈ units.keys, place = unitPlace directory name
    · obtain ⟨name, hname, rfl⟩ := hunit
      obtain ⟨text, htext⟩ := Entries.mem_keys_iff.mp hname
      exact Option.isSome_of_eq_some (h.text name text htext)
    · rwa [h.other place fun name hname heq => hunit ⟨name, hname, heq⟩]
  directory place hplace := by rwa [h.isDirectoryAt]

/-- A text that is put into the file for its unit is mirrored. -/
theorem set (h : Mirrors created directory units files) {name : String}
    (hfree : created.isDirectoryAt (unitPlace directory name) = false) (text : String) :
    Mirrors created directory (Entries.put name text units)
      (files.set (unitPlace directory name) (.file (Utf8.encode text))) where
  working := h.working
  free other hother := by
    rcases Entries.mem_keys_put.mp hother with rfl | hother
    · exact hfree
    · exact h.free other hother
  text other content hcontent := by
    by_cases hsame : other = name
    · subst hsame
      rw [Entries.get?_put_self] at hcontent
      rw [at?_set_self (unitPlace_ne_nil _ _), Option.some.inj hcontent]
    · rw [Entries.get?_put_of_ne hsame] at hcontent
      rw [at?_set_of_ne fun heq => hsame (unitPlace_injective directory heq)]
      exact h.text other content hcontent
  other place hplace := by
    rw [at?_set_of_ne (hplace name (Entries.mem_keys_put.mpr (.inl rfl)))]
    exact h.other place fun other hother => hplace other (Entries.mem_keys_put.mpr (.inr hother))

variable {d : Directory}

/-- A unit that is written into the directory is mirrored, as soon as the directory is there. -/
theorem add (h : Mirrors created directory units files) (hd : created.LeadsTo d.path directory)
    {before : Tree} (hready : before.ensureDirectory d.path = (files, none)) {name : String}
    (hfit : d.Fits created directory name) (text : String) :
    ∃ files', d.add before { name := .ofString name, pieces := [.ofString text] } = (files', none) ∧
      Mirrors created directory (Entries.put name text units) files' := by
  have hopen := (hd.extends h.extends_created).openNew_fileOf hfit.usable hfit.size_le
    (by rw [h.isDirectoryAt, hfit.free])
  refine ⟨_, ?_, h.set hfit.free text⟩
  simp [Directory.add, Directory.begin, hready, hopen, OutputUnit.fileText,
    OutputUnit.encodeFault?, encodablePieces]

theorem ensureDirectory (h : Mirrors created directory units files)
    (hd : created.LeadsTo d.path directory) :
    files.ensureDirectory d.path = (files, none) :=
  (hd.extends h.extends_created).ensureDirectory

end Mirrors

end CodecMocks.Files
