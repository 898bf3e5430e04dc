import CodecMocks.Proofs.CommandRuns
import CodecMocks.Proofs.NameCharacters

/-!
# Where files are written

A session that writes into a directory makes directories and writes one file for each module. The
path of that file is put together from the path of the directory and the name of the module, which
comes from a schema name.

* `ensureDirectory_grows`: making a directory changes no file, whether it succeeds or not.
* `Directory.WritesOnly`: nothing is taken away, and the files that are new or different are those
  the paths of units lead to. One unit keeps this up, and so does a session that fails anywhere.
* `Directory.Confines`: those files are in the directory itself.
* `sessions_confined`: they are if no schema name holds a slash. `upward_escapes`: otherwise a file
  outside of the directory may be written.
-/

namespace CodecMocks.Files

open CodecMocks.Text

namespace Tree

variable {t t' t'' : Tree} {place : Place} {path : String}

/-! ### Steps that only make directories -/

theorem makeDirectory_grows {made : Tree} (h : t.makeDirectory path = .ok made) :
    t.GrowsTo made := by
  unfold makeDirectory at h
  split at h
  · cases h
  · cases h
  · next directory name _ =>
    dsimp only at h
    split at h
    · cases h
    · next hnew =>
      cases h
      exact growsTo_set (by simpa using hnew)

theorem makeLast_fst_grows (t : Tree) (path : String) : t.GrowsTo (t.makeLast path).1 := by
  unfold makeLast
  split
  · next made hmade => exact makeDirectory_grows hmade
  · split <;> exact .refl t

/-- Whether it succeeds or not, making directories adds directories and changes nothing else. -/
theorem makeDirectories_fst_grows (t : Tree) (path : List Char) :
    t.GrowsTo (t.makeDirectories path).1 := by
  rw [makeDirectories]
  dsimp only
  split
  · next h =>
    have := length_parentAndName_lt h.2.1
    have hparent := makeDirectories_fst_grows t (parentAndName path).1
    split
    · next first e hfirst =>
      rw [hfirst] at hparent
      split
      · exact hparent
      · split
        · exact hparent
        · exact hparent.trans (makeLast_fst_grows first _)
    · next first hfirst =>
      rw [hfirst] at hparent
      split
      · exact hparent
      · exact hparent.trans (makeLast_fst_grows first _)
  · exact makeLast_fst_grows t _
termination_by path.length

theorem ensureDirectory_grows (t : Tree) (path : String) :
    t.GrowsTo (t.ensureDirectory path).1 :=
  makeDirectories_fst_grows t path.toList

/-- No directory is made without a path. -/
theorem ensureDirectory_empty (t : Tree) :
    t.ensureDirectory "" = (t, some ⟨.notFound, ""⟩) := by
  have hstart : t.start "" = .error .notFound := rfl
  have hlast : t.makeLast "" = (t, some ⟨.notFound, ""⟩) := by
    simp [makeLast, makeDirectory, target, holdsDirectory, locate, hstart, bind, Except.bind]
  rw [ensureDirectory, makeDirectories]
  dsimp only
  rw [dif_neg fun h => h.1 rfl]
  exact hlast

/-! ### The place a path leads to -/

/-- A file takes nothing away where there is no directory. -/
theorem extends_set_file (h : t.isDirectoryAt place = false) (content : List UInt8) :
    t.Extends (t.set place (.file content)) where
  working := rfl
  present other hother := by
    by_cases hsame : other = place
    · have hne : place ≠ [] := by
        rintro rfl
        cases h
      rw [hsame, at?_set_self hne]
      rfl
    · rwa [at?_set_of_ne hsame]
  directory other hother := by
    have hne : other ≠ place := by
      rintro rfl
      rw [h] at hother
      cases hother
    rwa [isDirectoryAt, at?_set_of_ne hne]

/-- What a path with a last name that can be the name of something leads into. -/
theorem exists_of_target {directory : Place} {name : String}
    (h : t.target path = .ok (directory, some name)) :
    ∃ start names, t.start path = .ok (start, components path) ∧
      components path = names ++ [name] ∧ t.walk start names = .ok directory ∧
      t.isDirectoryAt directory = true ∧ name ≠ "." ∧ name ≠ ".." ∧
      name.utf8ByteSize ≤ nameLimit := by
  unfold target at h
  cases hstart : t.start path with
  | error refusal =>
    rw [hstart] at h
    cases h
  | ok s =>
    obtain ⟨start, names⟩ := s
    obtain rfl : names = components path := start_components hstart
    simp only [hstart, bind, Except.bind] at h
    cases hwalk : t.walk start (components path).dropLast with
    | error refusal =>
      rw [hwalk] at h
      cases h
    | ok d =>
      simp only [hwalk] at h
      split at h
      · cases h
      next hd =>
      split at h
      · cases h
      next last hlast =>
      split at h
      · cases h
      next hdots =>
      split at h
      · cases h
      next hsize =>
      cases h
      simp only [Bool.or_eq_true, beq_iff_eq, not_or] at hdots
      exact ⟨start, (components path).dropLast, rfl,
        (List.dropLast_append_getLast? _ hlast).symm, hwalk, by simpa using hd, hdots.1, hdots.2,
        Nat.le_of_not_lt hsize⟩

/-- A path leads to the file that is opened at it. -/
theorem locate_of_openNew {opened : Tree} (h : t.openNew path = .ok (opened, place))
    (content : List UInt8) :
    t.isDirectoryAt place = false ∧
      opened.set place (.file content) = t.set place (.file content) ∧
      (t.set place (.file content)).locate path = .ok place := by
  unfold openNew at h
  split at h
  · cases h
  · cases h
  next directory name htarget =>
  dsimp only at h
  split at h
  · cases h
  next hfree =>
  cases h
  simp only [Bool.or_eq_true, not_or, Bool.not_eq_true] at hfree
  obtain ⟨start, names, hstart, hnames, hwalk, hdirectory, hhere, hup, hsize⟩ :=
    exists_of_target htarget
  have hlarger := extends_set_file hfree.1 content
  have hthere : ((t.set (directory ++ [name]) (.file content)).at?
      (directory ++ [name])).isSome := by
    rw [at?_set_self (by simp)]
    rfl
  refine ⟨hfree.1, set_set .., locate_eq_ok_iff.mpr ⟨start, hstart, ?_, ?_⟩⟩
  · rw [hnames, walk_concat_eq_ok_iff]
    exact ⟨directory, walk_extends hlarger hwalk, step_eq_ok_iff.mpr
      ⟨hlarger.directory _ hdirectory, .down hhere hup hsize hthere⟩⟩
  · rw [hfree.2]
    exact fun hends => nomatch hends

/-- There is a file at the place in the second tree, and it is not the file of the first. -/
def Changed (t t' : Tree) (place : Place) : Prop :=
  ∃ content, t'.at? place = some (.file content) ∧ t.at? place ≠ some (.file content)

theorem GrowsTo.not_changed (h : t.GrowsTo t') (place : Place) : ¬ t.Changed t' place := by
  rintro ⟨content, hnew, hold⟩
  rcases h.adds place _ hnew with hkept | hdirectory
  · exact hold hkept
  · cases hdirectory

end Tree

open Files.Tree

/-! ### Trees that are written to -/

/-- The second tree is the first with units written to a directory: nothing is taken away, and the
files that are new or different are those the paths of the units lead to. -/
structure Directory.WritesOnly (d : Directory) (names : List CodeText) (before after : Tree) :
    Prop where
  larger : before.Extends after
  located : ∀ place, before.Changed after place →
    d.path ≠ "" ∧ ∃ name : String, CodeText.ofString name ∈ names ∧
      after.locate (d.fileOf name) = .ok place

/-- The second tree is the first with units written into a directory: nothing is taken away, and the
files that are new or different are those of units, in the directory itself. -/
structure Directory.Confines (d : Directory) (names : List CodeText) (before after : Tree) :
    Prop where
  larger : before.Extends after
  place : ∀ place, before.Changed after place →
    ∃ directory, after.LeadsTo d.path directory ∧
      ∃ name : String, CodeText.ofString name ∈ names ∧ place = unitPlace directory name

namespace Directory

variable {d : Directory} {names : List CodeText} {before mid after : Tree}

theorem writesOnly_of_growsTo (h : before.GrowsTo after) : d.WritesOnly names before after where
  larger := h.extends
  located place hchanged := absurd hchanged (h.not_changed place)

theorem WritesOnly.trans (h : d.WritesOnly names before mid) (h' : d.WritesOnly names mid after) :
    d.WritesOnly names before after where
  larger := h.larger.trans h'.larger
  located place hchanged := by
    obtain ⟨content, hnew, hold⟩ := hchanged
    by_cases hmid : mid.at? place = some (.file content)
    · obtain ⟨hpath, name, hname, hlocate⟩ := h.located place ⟨content, hmid, hold⟩
      exact ⟨hpath, name, hname, locate_extends h'.larger hlocate⟩
    · exact h'.located place ⟨content, hnew, hmid⟩

/-- A file that is not opened leaves directories only. -/
theorem begin_error_grows {files made : Tree} {name : CodeText} {e : WriteError}
    (h : d.begin files name = (made, .error e)) : files.GrowsTo made := by
  have hgrows := ensureDirectory_grows files d.path
  unfold Directory.begin at h
  split at h
  · next hmade =>
    cases h
    rwa [hmade] at hgrows
  next hmade =>
  rw [hmade] at hgrows
  split at h
  · cases h
    exact hgrows
  · split at h
    · cases h
      exact hgrows
    · cases h

/-- A file that is opened is that of the unit, in a directory that is there. -/
theorem exists_of_begin {files opened : Tree} {name : CodeText} {place : Place}
    (h : d.begin files name = (opened, .ok place)) :
    ∃ (made : Tree) (plain : String), files.ensureDirectory d.path = (made, none) ∧
      name = .ofString plain ∧ made.openNew (d.fileOf plain) = .ok (opened, place) := by
  unfold Directory.begin at h
  split at h
  · cases h
  next made hmade =>
  split at h
  · cases h
  next plain hplain =>
  split at h
  · cases h
  next hopen =>
  cases h
  exact ⟨made, plain, hmade, CodeText.string?_eq_some_iff.mp hplain, hopen⟩

/-- Writing a unit writes its file and no other, whether it succeeds or not. -/
theorem writesOnly_add (files : Tree) {u : OutputUnit} (hu : u.name ∈ names) :
    d.WritesOnly names files (d.add files u).1 := by
  unfold add
  split
  · next hbegin => exact writesOnly_of_growsTo (begin_error_grows hbegin)
  next opened place hbegin =>
  obtain ⟨made, plain, hmade, hplain, hopen⟩ := exists_of_begin hbegin
  have hgrows := ensureDirectory_grows files d.path
  rw [hmade] at hgrows
  have hpath : d.path ≠ "" := by
    intro hempty
    rw [hempty, ensureDirectory_empty] at hmade
    cases hmade
  obtain ⟨hfree, hset, hlocate⟩ := locate_of_openNew hopen (Utf8.encode u.fileText)
  have hwrites : d.WritesOnly names made (made.set place (.file (Utf8.encode u.fileText))) := by
    refine ⟨extends_set_file hfree _, fun other hchanged => ?_⟩
    obtain ⟨content, hnew, hold⟩ := hchanged
    by_cases hsame : other = place
    · rw [hsame]
      exact ⟨hpath, plain, hplain ▸ hu, hlocate⟩
    · rw [at?_set_of_ne hsame] at hnew
      exact absurd hnew hold
  rw [hset]
  exact (writesOnly_of_growsTo hgrows).trans hwrites

/-- The path of the directory starts where the path of a file in it does. -/
theorem start_path_of_start_fileOf {t : Tree} {name : String} {s : Place × List String}
    (hname : '/' ∉ name.toList) (hpath : d.path ≠ "") (h : t.start (d.fileOf name) = .ok s) :
    t.start d.path = .ok (s.1, components d.path) := by
  have hbegins := path_isPrefix_fileOf hname hpath
  have hne : d.path.toList ≠ [] := by simpa using hpath
  have hsame := start_of_isPrefix hbegins hne (by rwa [String.ofList_toList])
  rwa [String.ofList_toList] at hsame

/-- A path of a unit whose name holds no slash leads into the directory itself. -/
theorem exists_unitPlace {t : Tree} {name : String} {place : Place} (hname : '/' ∉ name.toList)
    (hpath : d.path ≠ "") (h : t.locate (d.fileOf name) = .ok place) :
    ∃ directory, t.LeadsTo d.path directory ∧ place = unitPlace directory name := by
  obtain ⟨start, hstart, hwalk, -⟩ := locate_eq_ok_iff.mp h
  rw [components_fileOf hname hpath, walk_concat_eq_ok_iff] at hwalk
  obtain ⟨directory, hdirectory, hstep⟩ := hwalk
  obtain ⟨hplace, hsteps⟩ := step_eq_ok_iff.mp hstep
  have hfirst := start_path_of_start_fileOf hname hpath hstart
  refine ⟨directory, leadsTo_iff.mpr ⟨start, hfirst, hdirectory, hplace⟩, ?_⟩
  generalize hfile : name ++ fileEnding = file at hsteps
  cases hsteps with
  | here => exact absurd hfile (append_fileEnding_ne (by decide))
  | up => exact absurd hfile (append_fileEnding_ne (by decide))
  | down => rw [unitPlace, hfile]

/-- If no name holds a slash, the files are in the directory itself. -/
theorem WritesOnly.confines (h : d.WritesOnly names before after)
    (hnames : ∀ name ∈ names, CodePoint.ofChar '/' ∉ name.toList) :
    d.Confines names before after where
  larger := h.larger
  place place hchanged := by
    obtain ⟨hpath, name, hname, hlocate⟩ := h.located place hchanged
    have hslash : '/' ∉ name.toList := fun hmem => hnames _ hname (List.mem_map_of_mem hmem)
    obtain ⟨directory, hleads, hplace⟩ := exists_unitPlace hslash hpath hlocate
    exact ⟨directory, hleads, name, hname, hplace⟩

end Directory

end CodecMocks.Files

namespace CodecMocks.Text

/-! ### Slashes in names -/

/-- No run of the capital letters leads to a slash. -/
theorem eq_slash_of_mem_capital {c : CodePoint} (h : CodePoint.ofChar '/' ∈ capital c) :
    c = '/' :=
  eq_of_mem_capital (by decide +kernel) (by decide +kernel) h

end CodecMocks.Text

namespace CodecMocks.Naming

open CodecMocks.Text

theorem slash_mem_of_mem_joinWords {starting : Bool} {cs : List CodePoint}
    (h : CodePoint.ofChar '/' ∈ joinWords starting cs) : CodePoint.ofChar '/' ∈ cs := by
  obtain ⟨c, hc, -, rfl | hslash⟩ := exists_of_mem_joinWords h
  · exact hc
  · rwa [eq_slash_of_mem_capital hslash] at hc

/-- A slash in the name of a module is one of the schema name. -/
theorem slash_notMem_mockName {name : CodeText} (h : CodePoint.ofChar '/' ∉ name.toList) :
    CodePoint.ofChar '/' ∉ (mockName (className name)).toList := by
  rw [mockName, CodeText.toList_append, List.mem_append, not_or, className, CodeText.toList_ofList]
  exact ⟨fun hslash => h (slash_mem_of_mem_joinWords hslash), by decide⟩

end CodecMocks.Naming

namespace CodecMocks.Mock

open CodecMocks.Files CodecMocks.Naming CodecMocks.Schema

/-! ### Sessions -/

/-- A destination that writes units into files of a directory and refuses some, which may depend on
the unit and on how many came before. Texts may be changed before they are handed over. -/
def faultyFiles (d : Directory) (texts : Nat → CodeText → CodeText)
    (faults : Nat → MockModule → Option (UnitFault WriteError)) : Destination Tree WriteError where
  deliver n files m :=
    match faults n m with
    | none => d.add files { name := m.name, pieces := [m.text] }
    | some (.opening e) => ((files.ensureDirectory d.path).1, some e)
    | some (.writing pieces e) =>
      let (files, refusal) := d.add files { name := m.name, pieces, breaksOff := true }
      (files, refusal.or (some e))
  prepare n files text := (files, .ok (texts n text, []))

/-- The names of the modules of a catalog. -/
def unitNames (c : Catalog) : List CodeText :=
  (declaredNames c).map fun name => mockName (className name)

theorem name_mem_unitNames {c : Catalog} {s : Stage} {m : MockModule}
    (h : .ok (some m) ∈ modulesOf c s) : m.name ∈ unitNames c := by
  obtain ⟨k, hk, rfl⟩ := exists_class_of_mem_modulesOf h
  have htype : k.typeName ∈ (declaredNames c).map className := by
    rw [← map_typeName_classesOf]
    exact List.mem_map_of_mem (mem_classesOf_all hk)
  obtain ⟨name, hname, heq⟩ := List.mem_map.mp htype
  refine List.mem_map.mpr ⟨name, hname, ?_⟩
  rw [heq]
  rfl

section

variable (d : Directory) {names : List CodeText} (texts : Nat → CodeText → CodeText)
  (faults : Nat → MockModule → Option (UnitFault WriteError))

theorem writesOnly_deliver (n : Nat) (files : Tree) {m : MockModule} (hm : m.name ∈ names) :
    d.WritesOnly names files ((faultyFiles d texts faults).deliver n files m).1 := by
  unfold faultyFiles
  dsimp only
  split
  · exact Directory.writesOnly_add files hm
  · exact Directory.writesOnly_of_growsTo (Tree.ensureDirectory_grows files d.path)
  · exact Directory.writesOnly_add files hm

theorem writesOnly_hand (p : Progress Tree) {m : MockModule} (hm : m.name ∈ names) :
    d.WritesOnly names p.state (p.hand (faultyFiles d texts faults) m).1.state := by
  have hdeliver := writesOnly_deliver d texts faults p.written.length p.state
    (m := { m with text := texts p.written.length m.text }) hm
  unfold Progress.hand
  dsimp only [faultyFiles] at hdeliver ⊢
  split
  · next h => rwa [h] at hdeliver
  · next h => rwa [h] at hdeliver

/-- A session that fails anywhere has written no other files than those of its units. -/
theorem writesOnly_handAll {modules : List (Except ModuleError (Option MockModule))}
    (hmodules : ∀ m, .ok (some m) ∈ modules → m.name ∈ names) (p : Progress Tree) :
    d.WritesOnly names p.state (p.handAll (faultyFiles d texts faults) modules).1.state := by
  have hnothing (p : Progress Tree) : d.WritesOnly names p.state p.state :=
    Directory.writesOnly_of_growsTo (.refl p.state)
  induction modules generalizing p with
  | nil => exact hnothing p
  | cons made rest ih =>
    have hrest : ∀ m, .ok (some m) ∈ rest → m.name ∈ names := fun m hm =>
      hmodules m (List.mem_cons_of_mem made hm)
    match made with
    | .error e => exact hnothing p
    | .ok none => exact ih hrest p
    | .ok (some m) =>
      have hhand := writesOnly_hand d texts faults p (hmodules m List.mem_cons_self)
      rw [Progress.handAll]
      split
      · next h => rwa [h] at hhand
      · next q h =>
        rw [h] at hhand
        exact hhand.trans (ih hrest q)

theorem state_stage {σ ε : Type} (p : Progress σ) (dest : Destination σ ε) (c : Catalog)
    (s : Stage) : (p.stage dest c s).1.state = (p.handAll dest (modulesOf c s)).1.state := by
  unfold Progress.stage
  split
  · next h => rw [h]
  · next h =>
    rw [h]
    split <;> rfl

theorem writesOnly_stage (p : Progress Tree) (c : Catalog) (s : Stage) :
    d.WritesOnly (unitNames c) p.state (p.stage (faultyFiles d texts faults) c s).1.state := by
  rw [state_stage]
  exact writesOnly_handAll d texts faults (fun m hm => name_mem_unitNames hm) p

theorem writesOnly_stages (p : Progress Tree) (c : Catalog) (stages : List Stage) :
    d.WritesOnly (unitNames c) p.state
      (p.stages (faultyFiles d texts faults) c stages).1.state := by
  induction stages generalizing p with
  | nil => exact Directory.writesOnly_of_growsTo (.refl p.state)
  | cons s rest ih =>
    have hstage := writesOnly_stage d texts faults p c s
    rw [Progress.stages]
    split
    · next h => rwa [h] at hstage
    · next q h =>
      rw [h] at hstage
      exact hstage.trans (ih q)

end

end CodecMocks.Mock

namespace CodecMocks.Command

open CodecMocks CodecMocks.Files CodecMocks.Files.Tree CodecMocks.Mock CodecMocks.Naming
open CodecMocks.Schema CodecMocks.Text

theorem fileDestination_eq (w : Surroundings) (d : Directory) :
    fileDestination w d false = faultyFiles d (fun _ text => text) (fun _ _ => none) :=
  rfl

/-- **Where files are written.** If no schema name of a set, a composite or a message holds a slash,
a session that writes into a directory writes files in the directory itself only, whatever stages
it has, whatever the directory is, and wherever it fails. -/
theorem sessions_confined {c : Catalog}
    (hnames : ∀ name ∈ declaredNames c, CodePoint.ofChar '/' ∉ name.toList) (d : Directory) :
    (∀ (texts : Nat → CodeText → CodeText)
        (faults : Nat → MockModule → Option (UnitFault WriteError)) (p : Progress Tree)
        (stages : List Stage), d.Confines (unitNames c) p.state
          (p.stages (faultyFiles d texts faults) c stages).1.state) ∧
    ∀ (w : Surroundings) (files : Tree) (log : List LogLine),
      d.Confines (unitNames c) files (generate w d.path false c files log).1.state := by
  have hunits : ∀ name ∈ unitNames c, CodePoint.ofChar '/' ∉ name.toList := by
    intro unit hunit
    obtain ⟨name, hname, rfl⟩ := List.mem_map.mp hunit
    exact slash_notMem_mockName (hnames name hname)
  constructor
  · intro texts faults p stages
    exact (writesOnly_stages d texts faults p c stages).confines hunits
  · intro w files log
    have hwrites := writesOnly_stage d (fun _ text => text) (fun _ _ => none)
      { state := files, log } c .all
    rw [← fileDestination_eq w] at hwrites
    exact hwrites.confines hunits

/-- The third unit breaks off. -/
def breaksOffThird (n : Nat) (_ : MockModule) : Option (UnitFault WriteError) :=
  if n = 2 then some (.writing ["class"] (.path ⟨.notFound, ""⟩)) else none

/-- What a session leaves whose third unit breaks off. -/
def brokenOff : Tree :=
  (({ state := {} } : Progress Tree).stages
    (faultyFiles ⟨"/out"⟩ (fun _ text => text) breaksOffThird) distinctCatalog [.all]).1.state

theorem distinctCatalog_confined :
    (∀ name ∈ declaredNames distinctCatalog, CodePoint.ofChar '/' ∉ name.toList) ∧
      Directory.Confines ⟨"/out"⟩ (unitNames distinctCatalog) {} brokenOff ∧
      brokenOff.at? ["out", "CarPartMock.py"] = some (.file (Utf8.encode "class")) ∧
      brokenOff.at? ["out", "CarsMock.py"] = none ∧
      Directory.Confines ⟨"/out"⟩ (unitNames distinctCatalog) {}
        (generate atTop "/out" false distinctCatalog {} []).1.state ∧
      ((generate atTop "/out" false distinctCatalog {} []).1.state.at?
        ["out", "CarsMock.py"]).isSome := by
  have hnames : ∀ name ∈ declaredNames distinctCatalog, CodePoint.ofChar '/' ∉ name.toList := by
    decide +kernel
  obtain ⟨hsessions, hgenerate⟩ := sessions_confined hnames ⟨"/out"⟩
  exact ⟨hnames, hsessions _ _ { state := {} } [.all], by decide +kernel, by decide +kernel,
    hgenerate atTop {} [], by decide +kernel⟩

/-- The status of a run that is carried through. -/
def Finish.status? : Finish → Option Nat
  | .returned status => some status
  | _ => none

theorem Finish.status?_eq_some_iff {finish : Finish} {status : Nat} :
    finish.status? = some status ↔ finish = .returned status := by
  cases finish <;> simp [status?]

/-- A catalog that declares a message whose name leads out of a directory. -/
def upwardText : String :=
  "\x7b\"namespace\": \"n\", \"messages\": [[" ++
    "\x7b\"signal\": \"BEGIN_MESSAGE\", \"name\": \"../up\"\x7d, " ++
    "\x7b\"signal\": \"END_MESSAGE\", \"name\": \"../up\"\x7d]]\x7d"

/-- The same as a value. -/
def upwardCatalog : Catalog :=
  .ofParts "n" [] [] [[⟨.beginMessage, "../up", none⟩, ⟨.endMessage, "../up", none⟩]]

/-- A run that is carried through, and still the module of the message is beside the directory, not
in it. -/
theorem upward_escapes :
    let outcome := run atTop (loneFile upwardText) ["-i", "ir.json", "-o", "out"]
    Catalog.ofContent atTop.limits (Utf8.encode upwardText) = .ok upwardCatalog ∧
      outcome.finish = .returned 0 ∧
      outcome.files.LeadsTo "/out" ["out"] ∧
      (loneFile upwardText).Changed outcome.files ["upMock.py"] ∧
      ∀ names, ¬ Directory.Confines ⟨"/out"⟩ names (loneFile upwardText) outcome.files := by
  intro outcome
  obtain ⟨hstatus, hleads, hthere, hplain⟩ : outcome.finish.status? = some 0 ∧
      outcome.files.LeadsTo "/out" ["out"] ∧ (outcome.files.at? ["upMock.py"]).isSome ∧
      outcome.files.at? ["upMock.py"] ≠ some .directory := by
    unfold LeadsTo
    decide +kernel
  have hchanged : (loneFile upwardText).Changed outcome.files ["upMock.py"] := by
    obtain ⟨item, hitem⟩ := Option.isSome_iff_exists.mp hthere
    cases item with
    | directory => exact absurd hitem hplain
    | file content =>
      refine ⟨content, hitem, fun hold => ?_⟩
      cases hold
  refine ⟨ofContent_of_loadsAs (by decide +kernel), Finish.status?_eq_some_iff.mp hstatus, hleads,
    hchanged, ?_⟩
  intro names hconfines
  obtain ⟨directory, hdirectory, name, -, hplace⟩ := hconfines.place _ hchanged
  obtain rfl : ["out"] = directory := by
    have hlocate := hleads.1
    rw [hdirectory.1] at hlocate
    exact (Except.ok.inj hlocate).symm
  have hlength := congrArg List.length hplace
  simp [unitPlace] at hlength

end CodecMocks.Command
