import CodecMocks.Proofs.WrittenPlaces

/-!
# Histories of units

Units are written one after the other, names come again, and any of them may break off with an error
that whoever writes it handles. In memory a unit counts when it is finished; until then there is a
buffer. The file for a unit is emptied when the unit is begun, and what is written goes there at
once, as octets. A piece with a surrogate has none, and a unit breaks off there in a file while it
goes on in memory. So the two differ in what is left of a unit that breaks off, and in nothing else.

* `Shelf.visit`, `Directory.visit`: a unit written piece by piece. `Shelf.visit_eq` and
  `Directory.visit_eq` state what remains of it.
* `visitAll_shelf`: what is kept in memory after any history.
* `Directory.Wrote.visit`, `Directory.Wrote.visitAll`: one unit more in the tree, and a history.
* `Directory.visitAll_hasRoom`: where there is room, every unit is begun.
* `histories_agree`: both after the same history. `surrogatePiece_differs`: a unit that is finished
  in memory only.
-/

namespace CodecMocks.Files

open CodecMocks CodecMocks.Files.Tree CodecMocks.Text

variable {ε : Type}

/-- A unit that is written piece by piece, and the error it breaks off with unless it is
finished. -/
structure Visit (ε : Type) where
  name : String
  pieces : List CodeText
  raised : Option ε := none
deriving DecidableEq, Repr

/-- How writing a unit ends. -/
inductive VisitEnding (ε : Type) where
  | finished
  /-- The error that the unit breaks off with. -/
  | raised (e : ε)
  /-- A piece could not be written. -/
  | unwritten (fault : Utf8.EncodeFault)
  /-- The unit was not begun. -/
  | refused (e : PathError)
deriving DecidableEq, Repr

namespace Visit

/-- The unit, without the error. -/
def unit (v : Visit ε) : OutputUnit where
  name := v.name
  pieces := v.pieces
  breaksOff := v.raised.isSome

/-- What is written of the unit in memory. -/
def text (v : Visit ε) : CodeText :=
  v.unit.text

/-- What is written of the unit in a file: the pieces before the first that has no octets. -/
def fileText (v : Visit ε) : String :=
  v.unit.fileText

/-- All pieces of the unit have octets. -/
def IsPlain (v : Visit ε) : Prop :=
  ∀ piece ∈ v.pieces, ∃ text : String, piece = text

/-- How the unit ends in memory. -/
def ending (v : Visit ε) : VisitEnding ε :=
  match v.raised with
  | none => .finished
  | some e => .raised e

/-- How the unit ends in a file if it is begun. -/
def endingInFile (v : Visit ε) : VisitEnding ε :=
  match v.unit.encodeFault? with
  | none => v.ending
  | some fault => .unwritten fault

/-- The text of the unit under its name. -/
def entry (v : Visit ε) : CodeText × CodeText :=
  (v.name, v.text)

/-- What a file has of the unit, under its name. -/
def fileEntry (v : Visit ε) : String × String :=
  (v.name, v.fileText)

end Visit

/-- Write a unit in memory. The pieces go into a buffer, which is kept if the unit is finished. -/
def Shelf.visit (shelf : Shelf) (v : Visit ε) : Shelf × VisitEnding ε :=
  let buffer := v.pieces.foldl (· ++ ·) ("" : CodeText)
  match v.raised with
  | none => (Entries.put v.name buffer shelf, .finished)
  | some e => (shelf, .raised e)

/-- Write octets after those of a file. -/
def Tree.append (t : Tree) (place : Place) (octets : List UInt8) : Tree :=
  match t.at? place with
  | some (.file content) => t.set place (.file (content ++ octets))
  | _ => t

/-- Write pieces after what a file holds, up to the first that has no octets. -/
def Tree.appendPieces (t : Tree) (place : Place) : List CodeText → Tree × Option Utf8.EncodeFault
  | [] => (t, none)
  | piece :: rest =>
    match piece.string? with
    | none => (t, some (.first piece))
    | some text => (t.append place (Utf8.encode text)).appendPieces place rest

/-- Write a unit into its file. The pieces go there one after the other. -/
def Directory.visit (d : Directory) (files : Tree) (v : Visit ε) : Tree × VisitEnding ε :=
  match files.ensureDirectory d.path with
  | (files, some e) => (files, .refused e)
  | (files, none) =>
    match files.openNew (d.fileOf v.name) with
    | .error e => (files, .refused e)
    | .ok (files, place) =>
      match files.appendPieces place v.pieces with
      | (files, some fault) => (files, .unwritten fault)
      | (files, none) => (files, v.ending)

/-- Write units one after the other, whatever becomes of each. -/
def visitAll {σ : Type} (visit : σ → Visit ε → σ × VisitEnding ε) (s : σ) :
    List (Visit ε) → σ × List (VisitEnding ε)
  | [] => (s, [])
  | v :: rest =>
    let (after, ending) := visit s v
    let (last, endings) := visitAll visit after rest
    (last, ending :: endings)

/-! ### One unit -/

theorem foldl_append_eq_join (text : CodeText) (pieces : List CodeText) :
    pieces.foldl (· ++ ·) text = text ++ CodeText.join pieces := by
  induction pieces generalizing text with
  | nil => rw [List.foldl_nil, CodeText.join_nil, CodeText.append_empty]
  | cons piece rest ih => rw [List.foldl_cons, ih, CodeText.join_cons, CodeText.append_assoc]

theorem Shelf.visit_eq (shelf : Shelf) (v : Visit ε) :
    shelf.visit v = (shelf.add v.unit, v.ending) := by
  have hbuffer : v.pieces.foldl (· ++ ·) ("" : CodeText) = v.unit.text := by
    rw [foldl_append_eq_join, CodeText.empty_append]
    rfl
  rw [Shelf.visit, hbuffer]
  cases hraised : v.raised with
  | none => simp [Shelf.add, Visit.unit, Visit.ending, hraised]
  | some e => simp [Shelf.add, Visit.unit, Visit.ending, hraised]

theorem Tree.append_set {t : Tree} {place : Place} (h : place ≠ []) (content octets : List UInt8) :
    (t.set place (.file content)).append place octets =
      t.set place (.file (content ++ octets)) := by
  simp [append, at?_set_self h]

/-- The pieces that have octets are written, up to the first that has none. -/
theorem Tree.appendPieces_set {t : Tree} {place : Place} (h : place ≠ []) (pieces : List CodeText)
    (text : String) :
    (t.set place (.file (Utf8.encode text))).appendPieces place pieces =
      (t.set place (.file (Utf8.encode (text ++ String.join (encodablePieces pieces).1))),
        (encodablePieces pieces).2) := by
  induction pieces generalizing text with
  | nil =>
    rw [encodablePieces, String.join_nil, String.append_empty]
    rfl
  | cons piece rest ih =>
    cases hpiece : piece.string? with
    | none =>
      simp only [appendPieces, encodablePieces, hpiece]
      rw [String.join_nil, String.append_empty]
    | some plain =>
      simp only [appendPieces, encodablePieces, hpiece]
      rw [append_set h, ← Utf8.encode_append, ih, String.join_cons, String.append_assoc]

/-- A file that is opened is empty. -/
theorem exists_of_openNew {t opened : Tree} {path : String} {place : Place}
    (h : t.openNew path = .ok (opened, place)) :
    ∃ directory name, t.target path = .ok (directory, some name) ∧
      place = directory ++ [name] ∧ opened = t.set place (.file []) := by
  unfold openNew at h
  split at h
  · cases h
  · cases h
  next directory name htarget =>
  dsimp only at h
  split at h
  · cases h
  cases h
  exact ⟨directory, name, htarget, rfl, rfl⟩

/-- The file for a unit whose name holds no slash is opened in the directory itself. -/
theorem exists_of_openNew_fileOf {d : Directory} {t opened : Tree} {name : String} {place : Place}
    (hname : '/' ∉ name.toList) (hpath : d.path ≠ "")
    (h : t.openNew (d.fileOf name) = .ok (opened, place)) :
    ∃ directory, t.LeadsTo d.path directory ∧ place = unitPlace directory name := by
  obtain ⟨directory, last, htarget, rfl, -⟩ := exists_of_openNew h
  obtain ⟨start, names, hstart, hnames, hwalk, hdirectory, -⟩ := exists_of_target htarget
  rw [components_fileOf hname hpath] at hnames
  obtain ⟨hsame, hlast⟩ := List.append_inj' hnames rfl
  subst hsame
  cases hlast
  exact ⟨directory, leadsTo_iff.mpr ⟨start,
    Directory.start_path_of_start_fileOf hname hpath hstart, hwalk, hdirectory⟩, rfl⟩

section

variable {d : Directory} {files ready : Tree} {v : Visit ε}

/-- A unit that is begun is in its file afterwards. -/
theorem Directory.visit_of_opened {opened : Tree} {place : Place}
    (hready : files.ensureDirectory d.path = (ready, none))
    (hopen : ready.openNew (d.fileOf v.name) = .ok (opened, place)) :
    d.visit files v = (ready.set place (.file (Utf8.encode v.fileText)), v.endingInFile) := by
  obtain ⟨directory, last, -, rfl, rfl⟩ := exists_of_openNew hopen
  have hplace : directory ++ [last] ≠ [] :=
    List.append_ne_nil_of_right_ne_nil _ (List.cons_ne_nil _ _)
  have hwritten := appendPieces_set (t := ready) hplace v.pieces ""
  rw [Utf8.encode_empty, String.empty_append] at hwritten
  simp only [visit, hready, hopen, hwritten, Visit.endingInFile, OutputUnit.encodeFault?]
  cases hfault : (encodablePieces v.pieces).2 with
  | none => simp [Visit.unit, hfault, Visit.fileText, OutputUnit.fileText]
  | some fault => simp [Visit.unit, hfault, Visit.fileText, OutputUnit.fileText]

theorem Directory.exists_of_not_refused (h : ∀ e, (d.visit files v).2 ≠ .refused e) :
    ∃ ready opened place, files.ensureDirectory d.path = (ready, none) ∧
      ready.openNew (d.fileOf v.name) = .ok (opened, place) := by
  rcases hready : files.ensureDirectory d.path with ⟨ready, refusal⟩
  cases refusal with
  | some e =>
    simp only [visit, hready] at h
    exact absurd rfl (h e)
  | none =>
    cases hopen : ready.openNew (d.fileOf v.name) with
    | error e =>
      simp only [visit, hready, hopen] at h
      exact absurd rfl (h e)
    | ok r => exact ⟨ready, r.1, r.2, rfl, hopen⟩

/-- What remains of a unit in a tree. -/
theorem Directory.visit_eq (d : Directory) (files : Tree) (v : Visit ε) :
    d.visit files v = ((d.add files v.unit).1,
      match (d.add files v.unit).2 with
      | none => v.ending
      | some (.path e) => .refused e
      | some (.encoding fault) => .unwritten fault) := by
  have hname : v.unit.name.string? = some v.name := CodeText.string?_ofString v.name
  rcases hready : files.ensureDirectory d.path with ⟨ready, refusal⟩
  cases refusal with
  | some e => simp [visit, add, Directory.begin, hready]
  | none =>
    cases hopen : ready.openNew (d.fileOf v.name) with
    | error e => simp [visit, add, Directory.begin, hready, hname, hopen]
    | ok r =>
      obtain ⟨directory, last, -, hplace, hopened⟩ := exists_of_openNew hopen
      rw [visit_of_opened hready hopen]
      simp only [add, Directory.begin, hready, hname, hopen, hopened, set_set,
        Visit.endingInFile]
      cases v.unit.encodeFault? <;> rfl

end

/-! ### Histories -/

/-- What a tree is after units have been written into a directory, with `files` before the first:
the directory has been made, and it mirrors the last text of each unit. -/
inductive Directory.Wrote (d : Directory) (files : Tree) : List (Visit ε) → Tree → Prop
  | nothing : d.Wrote files [] files
  | units {created after : Tree} {directory : Place} {done : List (Visit ε)}
      (grows : files.GrowsTo created) (leads : created.LeadsTo d.path directory)
      (mirrors : Mirrors created directory (Entries.ofList (done.map Visit.fileEntry)) after)
      (located : ∀ v ∈ done, after.locate (d.fileOf v.name) = .ok (unitPlace directory v.name)) :
      d.Wrote files done after

variable {d : Directory} {files t : Tree} {done : List (Visit ε)}

/-- The directory is there as soon as something is to be written. -/
theorem Directory.Wrote.exists_created (h : d.Wrote files done t) {ready : Tree} {directory : Place}
    (hready : t.ensureDirectory d.path = (ready, none))
    (hdirectory : ready.LeadsTo d.path directory) :
    ∃ created, files.GrowsTo created ∧ created.LeadsTo d.path directory ∧
      Mirrors created directory (Entries.ofList (done.map Visit.fileEntry)) ready ∧
      ∀ v ∈ done, ready.locate (d.fileOf v.name) = .ok (unitPlace directory v.name) := by
  cases h with
  | nothing =>
    have hgrows := ensureDirectory_grows files d.path
    rw [hready] at hgrows
    exact ⟨ready, hgrows, hdirectory, mirrors_nil ready directory, nofun⟩
  | @units created _ directory' _ grows leads mirrors located =>
    rw [mirrors.ensureDirectory leads] at hready
    cases hready
    obtain rfl : directory' = directory :=
      (leads.extends mirrors.extends_created).unique hdirectory
    exact ⟨created, grows, leads, mirrors, located⟩

theorem Directory.Wrote.visit (h : d.Wrote files done t) {v : Visit ε}
    (hname : '/' ∉ v.name.toList) (hbegun : ∀ e, (d.visit t v).2 ≠ .refused e) :
    d.Wrote files (done ++ [v]) (d.visit t v).1 ∧ (d.visit t v).2 = v.endingInFile := by
  obtain ⟨ready, opened, place, hready, hopen⟩ := exists_of_not_refused hbegun
  have hpath : d.path ≠ "" := by
    intro hempty
    rw [hempty, ensureDirectory_empty] at hready
    cases hready
  obtain ⟨directory, hdirectory, rfl⟩ := exists_of_openNew_fileOf hname hpath hopen
  obtain ⟨hfree, -, hlocate⟩ := locate_of_openNew hopen (Utf8.encode v.fileText)
  obtain ⟨created, hgrows, hleads, hmirrors, hlocated⟩ := h.exists_created hready hdirectory
  rw [visit_of_opened hready hopen]
  refine ⟨.units hgrows hleads ?_ fun w hw => ?_, rfl⟩
  · have hplace : created.isDirectoryAt (unitPlace directory v.name) = false := by
      rw [← hmirrors.isDirectoryAt]
      exact hfree
    have hset := hmirrors.set hplace v.fileText
    rw [List.map_append, Entries.ofList, List.foldl_append]
    exact hset
  · rcases List.mem_append.mp hw with hw | hw
    · exact locate_extends (extends_set_file hfree _) (hlocated w hw)
    · obtain rfl := List.mem_singleton.mp hw
      exact hlocate

theorem visitAll_cons {σ : Type} (visit : σ → Visit ε → σ × VisitEnding ε) (s : σ) (v : Visit ε)
    (rest : List (Visit ε)) :
    visitAll visit s (v :: rest) =
      ((visitAll visit (visit s v).1 rest).1,
        (visit s v).2 :: (visitAll visit (visit s v).1 rest).2) := rfl

theorem Directory.Wrote.visitAll (h : d.Wrote files done t) {visits : List (Visit ε)}
    (hnames : ∀ v ∈ visits, '/' ∉ v.name.toList)
    (hbegun : ∀ e, .refused e ∉ (Files.visitAll d.visit t visits).2) :
    d.Wrote files (done ++ visits) (Files.visitAll d.visit t visits).1 ∧
      (Files.visitAll d.visit t visits).2 = visits.map Visit.endingInFile := by
  induction visits generalizing done t with
  | nil => exact ⟨by rwa [List.append_nil], rfl⟩
  | cons v rest ih =>
    obtain ⟨hname, hrest⟩ := List.forall_mem_cons.mp hnames
    rw [visitAll_cons] at hbegun ⊢
    obtain ⟨hstep, hending⟩ := h.visit hname fun e he => hbegun e (List.mem_cons.mpr (.inl he.symm))
    obtain ⟨hwrote, hendings⟩ := ih hstep hrest fun e he => hbegun e (List.mem_cons_of_mem _ he)
    rw [List.append_cons]
    exact ⟨hwrote, by rw [hendings, hending, List.map_cons]⟩

/-! ### Histories in memory -/

/-- What is kept in memory after a history: the units that are finished, one after the other. -/
theorem visitAll_shelf (shelf : Shelf) (visits : List (Visit ε)) :
    Files.visitAll Shelf.visit shelf visits =
      ((visits.filter (·.raised.isNone)).foldl
          (fun kept v => Entries.put v.entry.1 v.entry.2 kept) shelf,
        visits.map Visit.ending) := by
  induction visits generalizing shelf with
  | nil => rfl
  | cons v rest ih =>
    rw [visitAll_cons, ih, Shelf.visit_eq]
    cases hraised : v.raised with
    | none => simp [hraised, Shelf.add, Visit.unit, Visit.entry, Visit.text, OutputUnit.text]
    | some e => simp [hraised, Shelf.add, Visit.unit]

theorem visitAll_shelf_nil (visits : List (Visit ε)) :
    (Files.visitAll Shelf.visit [] visits).1 =
      Entries.ofList ((visits.filter (·.raised.isNone)).map Visit.entry) := by
  rw [visitAll_shelf, Entries.ofList, List.foldl_map]

/-! ### Room for every unit -/

theorem Visit.endingInFile_ne_refused (v : Visit ε) (e : PathError) :
    v.endingInFile ≠ .refused e := by
  unfold Visit.endingInFile
  split
  · unfold Visit.ending
    split <;> exact nofun
  · exact nofun

/-- As long as the tree mirrors what was written, every unit that fits is begun. -/
theorem refused_notMem_of_fits {created : Tree} {directory : Place}
    (hdirectory : created.LeadsTo d.path directory) {kept : Entries String String} {ready : Tree}
    (hready : t.ensureDirectory d.path = (ready, none))
    (hmirrors : Mirrors created directory kept ready) {visits : List (Visit ε)}
    (hfits : ∀ v ∈ visits, d.Fits created directory v.name) (e : PathError) :
    .refused e ∉ (Files.visitAll d.visit t visits).2 := by
  induction visits generalizing t kept ready with
  | nil => exact List.not_mem_nil
  | cons v rest ih =>
    obtain ⟨hfit, hrest⟩ := List.forall_mem_cons.mp hfits
    have hfree : ready.isDirectoryAt (unitPlace directory v.name) = false := by
      rw [hmirrors.isDirectoryAt, hfit.free]
    have hopen := (hdirectory.extends hmirrors.extends_created).openNew_fileOf hfit.usable
      hfit.size_le hfree
    have hset := hmirrors.set hfit.free v.fileText
    rw [visitAll_cons, Directory.visit_of_opened hready hopen, List.mem_cons, not_or]
    exact ⟨Ne.symm (v.endingInFile_ne_refused e), ih (hset.ensureDirectory hdirectory) hset hrest⟩

theorem Directory.visitAll_hasRoom (hfiles : files.WellFormed) {visits : List (Visit ε)}
    (hroom : d.HasRoom files (visits.map (·.name))) (e : PathError) :
    .refused e ∉ (Files.visitAll d.visit files visits).2 := by
  obtain ⟨created, directory, hready, -, hdirectory, hfits⟩ := hroom.exists_created hfiles
  exact refused_notMem_of_fits hdirectory hready (mirrors_nil created directory)
    (fun v hv => hfits v.name (List.mem_map_of_mem hv)) e

/-! ### What the directory holds -/

/-- The directory is there if there are units. In the file of each name is what could be written of
the last unit of that name, and the files that are no unit's are what they were. -/
structure Directory.HoldsLast (d : Directory) (files : Tree) (visits : List (Visit ε))
    (after : Tree) : Prop where
  made : visits ≠ [] → after.holdsDirectory d.path = true
  text : ∀ name text, (visits.filter (·.name = name)).getLast?.map Visit.fileText = some text →
    after.read (d.fileOf name) = .ok (Utf8.encode text)
  other : ∀ place content, (∀ v ∈ visits, after.locate (d.fileOf v.name) ≠ .ok place) →
    (after.at? place = some (.file content) ↔ files.at? place = some (.file content))

/-- The files in the directory are those for the texts of units, and those that were there before
under other names. -/
def Directory.HoldsExactly (d : Directory) (files : Tree) (units : Entries String String)
    (after : Tree) : Prop :=
  ∀ directory, after.LeadsTo d.path directory → ∀ file content,
    after.at? (directory ++ [file]) = some (.file content) ↔
      (∃ name text, units.get? name = some text ∧ file = name ++ fileEnding ∧
        content = Utf8.encode text) ∨
      (∀ name ∈ units.keys, file ≠ name ++ fileEnding) ∧
        files.at? (directory ++ [file]) = some (.file content)

theorem GrowsTo.at?_file_iff (h : files.GrowsTo t) (place : Place) (content : List UInt8) :
    t.at? place = some (.file content) ↔ files.at? place = some (.file content) := by
  refine ⟨fun hfile => (h.adds place _ hfile).resolve_right nofun, h.keeps place _⟩

theorem mem_keys_ofList_fileEntry {visits : List (Visit ε)} {name : String} :
    name ∈ (Entries.ofList (visits.map Visit.fileEntry)).keys ↔ ∃ v ∈ visits, v.name = name := by
  rw [(Entries.isLastWins_ofList _).keys, List.mem_eraseDups, List.map_map, List.mem_map]
  rfl

theorem get?_ofList_fileEntry (visits : List (Visit ε)) (name : String) :
    (Entries.ofList (visits.map Visit.fileEntry)).get? name =
      (visits.filter (·.name = name)).getLast?.map Visit.fileText := by
  rw [(Entries.isLastWins_ofList _).get?, List.filter_map, List.getLast?_map, Option.map_map]
  rfl

theorem Directory.Wrote.holdsLast (h : d.Wrote files done t) : d.HoldsLast files done t := by
  cases h with
  | nothing => exact ⟨fun hvisits => absurd rfl hvisits, nofun, fun place content _ => Iff.rfl⟩
  | @units created _ directory _ grows leads mirrors located =>
    refine ⟨fun _ => ?_, fun name text hlast => ?_, fun place content hplace => ?_⟩
    · exact holdsDirectory_iff.mpr ⟨directory, leads.extends mirrors.extends_created⟩
    · rw [← get?_ofList_fileEntry] at hlast
      obtain ⟨v, hv, rfl⟩ := mem_keys_ofList_fileEntry.mp (Entries.mem_keys_iff.mpr ⟨text, hlast⟩)
      rw [Tree.read, located v hv]
      simp only [mirrors.text v.name text hlast]
    · have hother : ∀ name ∈ (Entries.ofList (done.map Visit.fileEntry)).keys,
          place ≠ unitPlace directory name := by
        rintro name hname rfl
        obtain ⟨v, hv, rfl⟩ := mem_keys_ofList_fileEntry.mp hname
        exact hplace v hv (located v hv)
      rw [mirrors.other place hother]
      exact GrowsTo.at?_file_iff grows place content

theorem Directory.Wrote.holdsExactly (h : d.Wrote files done t) :
    d.HoldsExactly files (Entries.ofList (done.map Visit.fileEntry)) t := by
  intro directory hdirectory file content
  cases h with
  | nothing => simp [Entries.ofList, Entries.get?, Entries.keys]
  | @units created _ directory' _ grows leads mirrors located =>
    obtain rfl : directory' = directory :=
      (leads.extends mirrors.extends_created).unique hdirectory
    by_cases hunit : ∃ name ∈ (Entries.ofList (done.map Visit.fileEntry)).keys,
        file = name ++ fileEnding
    · obtain ⟨name, hname, rfl⟩ := hunit
      obtain ⟨text, htext⟩ := Entries.mem_keys_iff.mp hname
      have hfile : t.at? (directory' ++ [name ++ fileEnding]) =
          some (.file (Utf8.encode text)) := mirrors.text name text htext
      rw [hfile]
      constructor
      · intro hcontent
        cases hcontent
        exact .inl ⟨name, text, htext, rfl, rfl⟩
      · rintro (⟨other, otherText, hother, hsame, rfl⟩ | ⟨hnone, -⟩)
        · have hplace : unitPlace directory' name = unitPlace directory' other := by
            rw [unitPlace, hsame, unitPlace]
          rw [← unitPlace_injective directory' hplace, htext] at hother
          cases hother
          rfl
        · exact absurd rfl (hnone name hname)
    · have hother : ∀ name ∈ (Entries.ofList (done.map Visit.fileEntry)).keys,
          file ≠ name ++ fileEnding := fun name hname heq => hunit ⟨name, hname, heq⟩
      have hplace : ∀ name ∈ (Entries.ofList (done.map Visit.fileEntry)).keys,
          directory' ++ [file] ≠ unitPlace directory' name := by
        intro name hname heq
        exact hother name hname (List.singleton_inj.mp (List.append_cancel_left heq))
      rw [mirrors.other _ hplace, GrowsTo.at?_file_iff grows]
      constructor
      · exact fun hfile => .inr ⟨hother, hfile⟩
      · rintro (⟨name, text, htext, hsame, -⟩ | ⟨-, hfile⟩)
        · exact absurd hsame (hother name (Entries.mem_keys_iff.mpr ⟨text, htext⟩))
        · exact hfile

/-! ### Both after the same history -/

/-- Pieces that all have octets are written to the end. -/
theorem exists_of_plain_pieces {pieces : List CodeText}
    (h : ∀ piece ∈ pieces, ∃ text : String, piece = text) :
    ∃ texts, encodablePieces pieces = (texts, none) ∧
      CodeText.join pieces = .ofString (String.join texts) := by
  induction pieces with
  | nil => exact ⟨[], rfl, by rw [String.join_nil, CodeText.join_nil]⟩
  | cons piece rest ih =>
    obtain ⟨⟨text, rfl⟩, hrest⟩ := List.forall_mem_cons.mp h
    obtain ⟨texts, hpieces, hjoin⟩ := ih hrest
    refine ⟨text :: texts, ?_, ?_⟩
    · rw [encodablePieces, CodeText.string?_ofString, hpieces]
    · rw [CodeText.join_cons, hjoin, String.join_cons, CodeText.ofString_append]

theorem Visit.IsPlain.text_eq {v : Visit ε} (h : v.IsPlain) : v.text = .ofString v.fileText := by
  obtain ⟨texts, hpieces, hjoin⟩ := exists_of_plain_pieces h
  have hfile : v.fileText = String.join texts := by
    show String.join (encodablePieces v.pieces).1 = _
    rw [hpieces]
  rw [hfile]
  exact hjoin

/-- **Units in memory and in files.** The names of the units hold no slash. In memory the texts of
the units that are finished are kept, the last of each name, and a unit that breaks off changes
nothing. If every unit is begun, which is so where there is room, each file has the text of the last
unit of its name as far as it was written, and no other file is changed. A unit breaks off in a file
where it does in memory or, before that, at its first piece without octets. So without a unit that
breaks off, the directory holds what is kept in memory. The errors are handed on. -/
theorem histories_agree (d : Directory) (files : Tree) {visits : List (Visit ε)}
    (hnames : ∀ v ∈ visits, '/' ∉ v.name.toList) :
    let kept := visitAll Shelf.visit [] visits
    let written := visitAll d.visit files visits
    (kept.2 = visits.map Visit.ending ∧
        Entries.IsLastWins ((visits.filter (·.raised.isNone)).map Visit.entry) kept.1 ∧
        ∀ (shelf : Shelf) (v : Visit ε), v.raised.isSome → (shelf.visit v).1 = shelf) ∧
      (files.WellFormed → d.HasRoom files (visits.map (·.name)) →
        ∀ e, .refused e ∉ written.2) ∧
      ((∀ e, .refused e ∉ written.2) →
        written.2 = visits.map Visit.endingInFile ∧ d.HoldsLast files visits written.1 ∧
          ((∀ v ∈ visits, v.raised = none ∧ v.IsPlain) →
            ∃ units, kept.1 = Shelf.ofPlain units ∧ d.HoldsExactly files units written.1)) := by
  intro kept written
  refine ⟨⟨?_, ?_, ?_⟩, ?_, ?_⟩
  · exact congrArg Prod.snd (visitAll_shelf [] visits)
  · rw [visitAll_shelf_nil]
    exact Entries.isLastWins_ofList _
  · intro shelf v hraised
    rw [Shelf.visit_eq]
    exact Shelf.add_of_breaksOff hraised
  · exact fun hfiles hroom => Directory.visitAll_hasRoom hfiles hroom
  · intro hbegun
    obtain ⟨hwrote, hendings⟩ := Directory.Wrote.nothing.visitAll hnames hbegun
    refine ⟨hendings, hwrote.holdsLast, fun hfinished => ⟨_, ?_, hwrote.holdsExactly⟩⟩
    have hall : visits.filter (·.raised.isNone) = visits :=
      List.filter_eq_self.mpr fun v hv => Option.isNone_iff_eq_none.mpr (hfinished v hv).1
    have hentries : visits.map Visit.entry = (visits.map Visit.fileEntry).map fun unit =>
        (CodeText.ofString unit.1, CodeText.ofString unit.2) := by
      rw [List.map_map]
      refine List.map_congr_left fun v hv => ?_
      exact congrArg (Prod.mk _) (hfinished v hv).2.text_eq
    rw [visitAll_shelf_nil, hall, List.nil_append, hentries]
    exact Entries.ofList_map (f := CodeText.ofString) (fun _ _ => CodeText.ofString_inj.mp)
      CodeText.ofString _

/-- A unit, the same one again, which breaks off, and another one. -/
def tornVisits : List (Visit String) :=
  [{ name := "CarMock", pieces := ["class ", "CarMock"] },
   { name := "CarMock", pieces := [("class" : CodeText)], raised := some "no more" },
   { name := "VanMock", pieces := [("pass" : CodeText)] }]

theorem tornVisits_kept :
    (∀ v ∈ tornVisits, '/' ∉ v.name.toList) ∧
      (visitAll Shelf.visit [] tornVisits).1.get? (.ofString "CarMock") =
        some (.ofString "class CarMock") ∧
      (visitAll (Directory.visit ⟨"/out"⟩) {} tornVisits).1.read
          (Directory.fileOf ⟨"/out"⟩ "CarMock") = .ok (Utf8.encode "class") := by
  have hnames : ∀ v ∈ tornVisits, '/' ∉ v.name.toList := by decide +kernel
  obtain ⟨⟨-, hkept, -⟩, -, hwritten⟩ := histories_agree ⟨"/out"⟩ {} hnames
  have hendings : (visitAll (Directory.visit ⟨"/out"⟩) {} tornVisits).2 =
      [.finished, .raised "no more", .finished] := by
    decide +kernel
  obtain ⟨-, hholds, -⟩ := hwritten (by simp [hendings])
  refine ⟨hnames, ?_, hholds.text "CarMock" "class" rfl⟩
  rw [hkept.get?]
  rfl

/-- A unit whose second piece is a surrogate. -/
def surrogatePiece : Visit String where
  name := "CarMock"
  pieces := ["class ", CodeText.ofList [.ofNat 0xD800], "CarMock"]

/-- No unit breaks off by itself, and still the directory does not hold what is kept in memory: the
second piece cannot be written into a file. -/
theorem surrogatePiece_differs :
    let kept := visitAll Shelf.visit [] [surrogatePiece]
    let written := visitAll (Directory.visit ⟨"/out"⟩) {} [surrogatePiece]
    '/' ∉ surrogatePiece.name.toList ∧ surrogatePiece.raised = none ∧
      kept = ([(.ofString "CarMock", CodeText.join surrogatePiece.pieces)], [.finished]) ∧
      written.2 = [.unwritten ⟨.ofNat 0xD800, 0, 1⟩] ∧
      written.1.read (Directory.fileOf ⟨"/out"⟩ "CarMock") = .ok (Utf8.encode "class ") ∧
      ∀ units, kept.1 ≠ Shelf.ofPlain units := by
  intro kept written
  have hkept :
    kept = ([(.ofString "CarMock", CodeText.join surrogatePiece.pieces)], [.finished]) := by
    decide +kernel
  refine ⟨by decide, rfl, hkept, by decide +kernel, by decide +kernel, ?_⟩
  intro units hunits
  rw [hkept] at hunits
  have hmem : (("CarMock" : CodeText), CodeText.join surrogatePiece.pieces) ∈
      Shelf.ofPlain units := by
    rw [← hunits]
    exact List.mem_singleton_self _
  obtain ⟨unit, -, hunit⟩ := List.mem_map.mp hmem
  have hplain : (CodeText.join surrogatePiece.pieces).string? = none := by decide +kernel
  rw [← (Prod.mk.inj hunit).2, CodeText.string?_ofString] at hplain
  cases hplain

end CodecMocks.Files
