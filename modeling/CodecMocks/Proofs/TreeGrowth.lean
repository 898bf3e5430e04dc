import CodecMocks.Proofs.PathNames

/-!
# Growth of file trees

A tree grows when directories are added to it and all that is in it stays. Whether the directory at
a path can be made is a question about growth alone: it can if the tree grows to one that holds it.
Then it is made, and no directory is added that some such tree could do without.

* `walk_extends`: names lead to the same place in a larger tree.
* `makeLast_grows`, `makeDirectories_grows`: one directory, and all on the way to one.
* `ensureDirectory_makes`: the result is the least tree with the directory.
-/

namespace CodecMocks.Files

namespace Tree

variable {t t' t'' : Tree} {place other : Place} {item : Item}

/-! ### Items -/

@[simp] theorem at?_nil (t : Tree) : t.at? [] = some .directory := rfl

theorem at?_set_self (h : place ≠ []) : (t.set place item).at? place = some item := by
  simp [at?, set, h]

theorem at?_set_of_ne (h : other ≠ place) : (t.set place item).at? other = t.at? other := by
  simp only [at?, set]
  split
  · rfl
  · exact Entries.get?_put_of_ne h item t.items

theorem isDirectoryAt_iff : t.isDirectoryAt place = true ↔ t.at? place = some .directory := by
  simp [isDirectoryAt]

theorem isSome_of_isDirectoryAt (h : t.isDirectoryAt place = true) : (t.at? place).isSome := by
  rw [isDirectoryAt_iff.mp h]
  rfl

/-- The tree is that of a file system: what is there is in a directory, and paths start from one. -/
structure WellFormed (t : Tree) : Prop where
  working : t.isDirectoryAt t.working = true
  parent : ∀ place, (t.at? place).isSome → t.isDirectoryAt place.dropLast = true

/-! ### Larger trees -/

/-- What is there in the first tree is there in the second, and directories stay directories. -/
structure Extends (t t' : Tree) : Prop where
  working : t'.working = t.working
  present : ∀ place, (t.at? place).isSome → (t'.at? place).isSome
  directory : ∀ place, t.isDirectoryAt place = true → t'.isDirectoryAt place = true

/-- Everything in the first tree stays, and only directories are added. -/
structure GrowsTo (t t' : Tree) : Prop where
  working : t'.working = t.working
  keeps : ∀ place item, t.at? place = some item → t'.at? place = some item
  adds : ∀ place item, t'.at? place = some item → t.at? place = some item ∨ item = .directory

theorem GrowsTo.refl (t : Tree) : t.GrowsTo t :=
  ⟨rfl, fun _ _ h => h, fun _ _ h => .inl h⟩

theorem GrowsTo.trans (h : t.GrowsTo t') (h' : t'.GrowsTo t'') : t.GrowsTo t'' where
  working := h'.working.trans h.working
  keeps place item hitem := h'.keeps place item (h.keeps place item hitem)
  adds place item hitem := (h'.adds place item hitem).elim (h.adds place item) .inr

theorem Extends.trans (h : t.Extends t') (h' : t'.Extends t'') : t.Extends t'' where
  working := h'.working.trans h.working
  present place hplace := h'.present place (h.present place hplace)
  directory place hplace := h'.directory place (h.directory place hplace)

theorem GrowsTo.extends (h : t.GrowsTo t') : t.Extends t' where
  working := h.working
  present place hplace := by
    obtain ⟨item, hitem⟩ := Option.isSome_iff_exists.mp hplace
    exact Option.isSome_iff_exists.mpr ⟨item, h.keeps place item hitem⟩
  directory place hplace :=
    isDirectoryAt_iff.mpr (h.keeps place .directory (isDirectoryAt_iff.mp hplace))

/-- What is there and is a directory in the larger tree was one before. -/
theorem GrowsTo.isDirectoryAt_of_isSome (h : t.GrowsTo t') (hplace : (t.at? place).isSome)
    (hdirectory : t'.isDirectoryAt place = true) : t.isDirectoryAt place = true := by
  obtain ⟨item, hitem⟩ := Option.isSome_iff_exists.mp hplace
  have hkept := h.keeps place item hitem
  rw [isDirectoryAt_iff.mp hdirectory] at hkept
  rw [isDirectoryAt_iff, hitem, ← hkept]

theorem at?_set_directory_self : (t.set place .directory).at? place = some .directory := by
  by_cases h : place = []
  · rw [h, at?_nil]
  · exact at?_set_self h

/-- A tree grows by a directory where nothing is. -/
theorem growsTo_set (h : t.at? place = none) : t.GrowsTo (t.set place .directory) where
  working := rfl
  keeps other item hitem := by
    rw [at?_set_of_ne, hitem]
    rintro rfl
    rw [h] at hitem
    cases hitem
  adds other item hitem := by
    by_cases hother : other = place
    · rw [hother, at?_set_directory_self] at hitem
      exact .inr (Option.some.inj hitem).symm
    · rw [at?_set_of_ne hother] at hitem
      exact .inl hitem

/-- A directory that is made is in every larger tree that has it. -/
theorem GrowsTo.set (h : t.GrowsTo t') (hdirectory : t'.isDirectoryAt place = true) :
    (t.set place .directory).GrowsTo t' where
  working := h.working
  keeps other item hitem := by
    by_cases hother : other = place
    · rw [hother, at?_set_directory_self] at hitem
      rw [hother, ← hitem]
      exact isDirectoryAt_iff.mp hdirectory
    · rw [at?_set_of_ne hother] at hitem
      exact h.keeps other item hitem
  adds other item hitem := by
    by_cases hother : other = place
    · rw [hother, isDirectoryAt_iff.mp hdirectory] at hitem
      exact .inr (Option.some.inj hitem).symm
    · rw [at?_set_of_ne hother]
      exact h.adds other item hitem

/-- A tree that grows by a directory in a directory stays one of a file system. -/
theorem WellFormed.set (h : t.WellFormed) (hnew : t.at? place = none)
    (hparent : t.isDirectoryAt place.dropLast = true) : (t.set place .directory).WellFormed where
  working := (growsTo_set hnew).extends.directory _ h.working
  parent other hother := by
    refine (growsTo_set hnew).extends.directory _ ?_
    by_cases hsame : other = place
    · rw [hsame]
      exact hparent
    · rw [at?_set_of_ne hsame] at hother
      exact h.parent other hother

/-! ### Walking -/

/-- Where a name leads from a directory. -/
inductive Steps (t : Tree) (place : Place) : String → Place → Prop
  | here : Steps t place "." place
  | up : Steps t place ".." place.dropLast
  | down {name : String} (hhere : name ≠ ".") (hup : name ≠ "..")
      (hsize : name.utf8ByteSize ≤ nameLimit) (hthere : (t.at? (place ++ [name])).isSome) :
      Steps t place name (place ++ [name])

theorem step_eq_ok_iff {name : String} {next : Place} :
    t.step place name = .ok next ↔ t.isDirectoryAt place = true ∧ t.Steps place name next := by
  constructor
  · intro h
    unfold step at h
    split at h
    · cases h
    next hplace =>
    refine ⟨by simpa using hplace, ?_⟩
    split at h
    · next hname =>
      cases h
      rw [beq_iff_eq.mp hname]
      exact .here
    next hhere =>
    split at h
    · next hname =>
      cases h
      rw [beq_iff_eq.mp hname]
      exact .up
    next hup =>
    split at h
    · cases h
    next hsize =>
    split at h
    · next hthere =>
      cases h
      exact .down (mt beq_iff_eq.mpr hhere) (mt beq_iff_eq.mpr hup) (Nat.le_of_not_lt hsize) hthere
    · cases h
  · rintro ⟨hplace, hsteps⟩
    cases hsteps with
    | here => simp [step, hplace]
    | up => simp [step, hplace]
    | down hhere hup hsize hthere =>
      simp only [step, hplace, Bool.not_true, Bool.false_eq_true, if_false, beq_iff_eq, hhere, hup,
        Nat.not_lt.mpr hsize, hthere, if_true]

/-- A name leads to the same place in a larger tree. -/
theorem step_extends {name : String} {next : Place} (h : t.Extends t')
    (hstep : t.step place name = .ok next) : t'.step place name = .ok next := by
  obtain ⟨hplace, hsteps⟩ := step_eq_ok_iff.mp hstep
  refine step_eq_ok_iff.mpr ⟨h.directory place hplace, ?_⟩
  cases hsteps with
  | here => exact .here
  | up => exact .up
  | down hhere hup hsize hthere => exact .down hhere hup hsize (h.present _ hthere)

theorem walk_append (t : Tree) (place : Place) (first second : List String) :
    t.walk place (first ++ second) = t.walk place first >>= (t.walk · second) := by
  induction first generalizing place with
  | nil => rfl
  | cons name names ih =>
    rw [List.cons_append, walk, walk]
    cases t.step place name with
    | ok next => exact ih next
    | error refusal => rfl

theorem walk_concat_eq_ok_iff {names : List String} {name : String} {last : Place} :
    t.walk place (names ++ [name]) = .ok last ↔
      ∃ d, t.walk place names = .ok d ∧ t.step d name = .ok last := by
  rw [walk_append]
  cases t.walk place names with
  | error refusal => simp [bind, Except.bind]
  | ok d =>
    simp only [bind, Except.bind, walk, Except.ok.injEq, exists_eq_left']
    cases t.step d name <;> simp

/-- Names lead to the same place in a larger tree. -/
theorem walk_extends {names : List String} {last : Place} (h : t.Extends t')
    (hwalk : t.walk place names = .ok last) : t'.walk place names = .ok last := by
  induction names generalizing place with
  | nil => exact hwalk
  | cons name names ih =>
    rw [walk] at hwalk ⊢
    cases hstep : t.step place name with
    | error refusal =>
      rw [hstep] at hwalk
      cases hwalk
    | ok next =>
      rw [hstep] at hwalk
      rw [step_extends h hstep]
      exact ih hwalk

/-- In the tree of a file system, names lead to what is there. -/
theorem WellFormed.isSome_of_walk {names : List String} {last : Place} (h : t.WellFormed)
    (hplace : t.isDirectoryAt place = true) (hwalk : t.walk place names = .ok last) :
    (t.at? last).isSome := by
  rcases names.eq_nil_or_concat with rfl | ⟨names, name, rfl⟩
  · cases hwalk
    exact isSome_of_isDirectoryAt hplace
  · rw [List.concat_eq_append, walk_concat_eq_ok_iff] at hwalk
    obtain ⟨d, -, hstep⟩ := hwalk
    obtain ⟨hd, hsteps⟩ := step_eq_ok_iff.mp hstep
    have hhere : (t.at? d).isSome := isSome_of_isDirectoryAt hd
    cases hsteps with
    | here => exact hhere
    | up => exact isSome_of_isDirectoryAt (h.parent d hhere)
    | down _ _ _ hthere => exact hthere

/-! ### Paths -/

theorem start_eq_ok_iff {path : String} {s : Place × List String} :
    t.start path = .ok s ↔
      '\x00' ∉ path.toList ∧ path ≠ "" ∧ path.utf8ByteSize ≤ pathLimit ∧
        s = (if isAbsolute path then [] else t.working, components path) := by
  unfold start
  split
  · next hnull => exact iff_of_false nofun fun h => h.1 (by simpa using hnull)
  next hnull =>
  split
  · next hempty => exact iff_of_false nofun fun h => h.2.1 (by simpa using hempty)
  next hempty =>
  split
  · next hsize => exact iff_of_false nofun fun h => absurd h.2.2.1 (Nat.not_le.mpr hsize)
  next hsize =>
  constructor
  · intro h
    cases h
    exact ⟨by simpa using hnull, by simpa using hempty, Nat.le_of_not_lt hsize, rfl⟩
  · rintro ⟨-, -, -, rfl⟩
    rfl

theorem start_components {path : String} {s : Place × List String} (h : t.start path = .ok s) :
    s.2 = components path := by
  obtain ⟨-, -, -, rfl⟩ := start_eq_ok_iff.mp h
  rfl

theorem start_of_working (h : t'.working = t.working) (path : String) :
    t'.start path = t.start path := by
  rw [start, start, h]

/-- Paths start from directories. -/
theorem WellFormed.isDirectoryAt_start (h : t.WellFormed) {path : String}
    {s : Place × List String} (hstart : t.start path = .ok s) :
    t.isDirectoryAt s.1 = true := by
  obtain ⟨-, -, -, rfl⟩ := start_eq_ok_iff.mp hstart
  dsimp only
  split
  · rfl
  · exact h.working

/-- A path leads to what its names lead to; one that ends in a slash leads to directories only. -/
theorem locate_eq_ok_iff {path : String} :
    t.locate path = .ok place ↔
      ∃ start, t.start path = .ok (start, components path) ∧
        t.walk start (components path) = .ok place ∧
        (endsInSlash path = true → t.isDirectoryAt place = true) := by
  unfold locate
  cases hstart : t.start path with
  | error refusal => simp [bind, Except.bind]
  | ok s =>
    obtain ⟨start, names⟩ := s
    obtain rfl : names = components path := start_components hstart
    cases hwalk : t.walk start (components path) with
    | error refusal => simp [bind, Except.bind, hwalk]
    | ok last =>
      simp only [bind, Except.bind, hwalk]
      constructor
      · intro hlast
        split at hlast
        · cases hlast
        · next hslash =>
          cases hlast
          exact ⟨start, rfl, hwalk, by simpa using hslash⟩
      · rintro ⟨start', hsame, hlast, hslash⟩
        cases hsame
        rw [hwalk] at hlast
        cases hlast
        rw [if_neg (by simpa using hslash)]
        rfl

/-- The path leads to the directory at a place. -/
def LeadsTo (t : Tree) (path : String) (place : Place) : Prop :=
  t.locate path = .ok place ∧ t.isDirectoryAt place = true

theorem leadsTo_iff {path : String} :
    t.LeadsTo path place ↔
      ∃ start, t.start path = .ok (start, components path) ∧
        t.walk start (components path) = .ok place ∧ t.isDirectoryAt place = true := by
  rw [LeadsTo, locate_eq_ok_iff]
  constructor
  · rintro ⟨⟨start, hstart, hwalk, -⟩, hplace⟩
    exact ⟨start, hstart, hwalk, hplace⟩
  · rintro ⟨start, hstart, hwalk, hplace⟩
    exact ⟨⟨start, hstart, hwalk, fun _ => hplace⟩, hplace⟩

theorem holdsDirectory_iff {path : String} :
    t.holdsDirectory path = true ↔ ∃ place, t.LeadsTo path place := by
  unfold holdsDirectory LeadsTo
  cases t.locate path <;> simp

/-- A path leads to the same place in a larger tree. -/
theorem locate_extends {path : String} (h : t.Extends t') (hlocate : t.locate path = .ok place) :
    t'.locate path = .ok place := by
  obtain ⟨start, hstart, hwalk, hslash⟩ := locate_eq_ok_iff.mp hlocate
  refine locate_eq_ok_iff.mpr ⟨start, ?_, walk_extends h hwalk, fun hends => ?_⟩
  · rw [start_of_working h.working, hstart]
  · exact h.directory place (hslash hends)

theorem LeadsTo.unique {path : String} (h : t.LeadsTo path place) (h' : t.LeadsTo path other) :
    place = other :=
  Except.ok.inj (h.1.symm.trans h'.1)

theorem LeadsTo.extends {path : String} (h : t.LeadsTo path place) (he : t.Extends t') :
    t'.LeadsTo path place :=
  ⟨locate_extends he h.1, he.directory place h.2⟩

/-- The directory that a path with a last name leads into. -/
theorem target_eq_ok {path : String} {start d : Place} {names : List String} {name : String}
    (hstart : t.start path = .ok (start, names ++ [name])) (hwalk : t.walk start names = .ok d)
    (hd : t.isDirectoryAt d = true) (hhere : name ≠ ".") (hup : name ≠ "..")
    (hsize : name.utf8ByteSize ≤ nameLimit) : t.target path = .ok (d, some name) := by
  unfold target
  simp only [hstart, bind, Except.bind, List.dropLast_concat, hwalk, hd, Bool.not_true,
    Bool.false_eq_true, if_false, List.getLast?_concat, Bool.or_eq_true, beq_iff_eq, hhere, hup,
    or_self, Nat.not_lt.mpr hsize, pure, Except.pure]

/-- Where there is a directory, none can be made. -/
theorem LeadsTo.makeDirectory {path : String} (h : t.LeadsTo path place) :
    t.makeDirectory path = .error ⟨.exists, path⟩ := by
  obtain ⟨start, hstart, hwalk, hplace⟩ := leadsTo_iff.mp h
  rcases (components path).eq_nil_or_concat with hnames | ⟨names, name, hnames⟩
  · rw [hnames] at hstart hwalk
    cases hwalk
    simp [Tree.makeDirectory, target, hstart, walk, hplace, bind, Except.bind, pure, Except.pure]
  rw [hnames, List.concat_eq_append] at hstart hwalk
  obtain ⟨d, hd, hstep⟩ := walk_concat_eq_ok_iff.mp hwalk
  obtain ⟨hdirectory, hsteps⟩ := step_eq_ok_iff.mp hstep
  cases hsteps with
  | here =>
    simp [Tree.makeDirectory, target, hstart, hd, hdirectory, bind, Except.bind, pure, Except.pure]
  | up =>
    simp [Tree.makeDirectory, target, hstart, hd, hdirectory, bind, Except.bind, pure, Except.pure]
  | down hhere hup hsize hthere =>
    simp [Tree.makeDirectory, target_eq_ok hstart hd hdirectory hhere hup hsize, hthere]

theorem LeadsTo.makeLast {path : String} (h : t.LeadsTo path place) :
    t.makeLast path = (t, none) := by
  have hholds : t.holdsDirectory path = true := holdsDirectory_iff.mpr ⟨place, h⟩
  simp [Tree.makeLast, h.makeDirectory, hholds]

/-! ### Making one directory -/

/-- The path starts from the tree, and all names but the last lead to a directory. -/
def ParentReady (t : Tree) (path : String) : Prop :=
  ∃ start d, t.start path = .ok (start, components path) ∧
    t.walk start (components path).dropLast = .ok d ∧ t.isDirectoryAt d = true

/-- A directory is made where nothing is, in a directory that is there. -/
theorem makeLast_new {path : String} {start d : Place} {names : List String} {name : String}
    (hstart : t.start path = .ok (start, components path))
    (hnames : components path = names ++ [name]) (hwalk : t.walk start names = .ok d)
    (hd : t.isDirectoryAt d = true) (hhere : name ≠ ".") (hup : name ≠ "..")
    (hsize : name.utf8ByteSize ≤ nameLimit) (hnew : t.at? (d ++ [name]) = none) :
    t.makeLast path = (t.set (d ++ [name]) .directory, none) ∧
      (t.set (d ++ [name]) .directory).LeadsTo path (d ++ [name]) := by
  have htarget := target_eq_ok (hnames ▸ hstart) hwalk hd hhere hup hsize
  have hlarger := (growsTo_set hnew).extends
  have hmade : (t.set (d ++ [name]) .directory).at? (d ++ [name]) = some .directory :=
    at?_set_directory_self
  constructor
  · simp [makeLast, makeDirectory, htarget, hnew]
  · refine leadsTo_iff.mpr ⟨start, ?_, ?_, isDirectoryAt_iff.mpr hmade⟩
    · rw [start_of_working (working_set t _ _), hstart]
    · rw [hnames, walk_concat_eq_ok_iff]
      exact ⟨d, walk_extends hlarger hwalk, step_eq_ok_iff.mpr ⟨hlarger.directory d hd,
        .down hhere hup hsize (Option.isSome_of_eq_some hmade)⟩⟩

/-- What is made of a tree on the way to a larger one with a directory at a path. -/
structure GrowsWithin (t t' : Tree) (path : String) (made : Tree) : Prop where
  wellFormed : made.WellFormed
  grows : t.GrowsTo made
  within : made.GrowsTo t'
  holds : made.holdsDirectory path = true

/-- In a directory that is there, the directory at a path is made unless it is there. -/
theorem makeLast_grows {path : String} (hw : t.WellFormed) (hgrows : t.GrowsTo t')
    (hholds : t'.holdsDirectory path = true) (hready : t.ParentReady path) :
    ∃ made, t.makeLast path = (made, none) ∧ GrowsWithin t t' path made := by
  -- A directory that is there already leaves the tree as it is.
  have hsame : ∀ place, t.LeadsTo path place →
      ∃ made, t.makeLast path = (made, none) ∧ GrowsWithin t t' path made := fun place h =>
    ⟨t, h.makeLast, hw, .refl t, hgrows, holdsDirectory_iff.mpr ⟨place, h⟩⟩
  obtain ⟨start, d, hstart, hwalk, hd⟩ := hready
  rcases (components path).eq_nil_or_concat with hnames | ⟨names, name, hnames⟩
  · rw [hnames] at hwalk
    exact hsame d (leadsTo_iff.mpr ⟨start, hstart, by rwa [hnames], hd⟩)
  rw [List.concat_eq_append] at hnames
  rw [hnames, List.dropLast_concat] at hwalk
  have hleads : ∀ last, t.Steps d name last → t.isDirectoryAt last = true →
      t.LeadsTo path last := by
    intro last hsteps hlast
    refine leadsTo_iff.mpr ⟨start, hstart, ?_, hlast⟩
    rw [hnames, walk_concat_eq_ok_iff]
    exact ⟨d, hwalk, step_eq_ok_iff.mpr ⟨hd, hsteps⟩⟩
  -- Where the last name leads in the larger tree, from the directory the other names lead to.
  obtain ⟨place, hplace⟩ := holdsDirectory_iff.mp hholds
  obtain ⟨start', hstart', hwalk', hlast⟩ := leadsTo_iff.mp hplace
  rw [start_of_working hgrows.working, hstart] at hstart'
  cases hstart'
  rw [hnames] at hwalk'
  obtain ⟨d', hd', hstep⟩ := walk_concat_eq_ok_iff.mp hwalk'
  rw [walk_extends hgrows.extends hwalk] at hd'
  obtain rfl : d = d' := Except.ok.inj hd'
  cases (step_eq_ok_iff.mp hstep).2 with
  | here => exact hsame _ (hleads _ .here hd)
  | up => exact hsame _ (hleads _ .up (hw.parent d (isSome_of_isDirectoryAt hd)))
  | down hhere hup hsize hthere =>
    cases hold : t.at? (d ++ [name]) with
    | some item =>
      have hsome : (t.at? (d ++ [name])).isSome := Option.isSome_of_eq_some hold
      exact hsame _ (hleads _ (.down hhere hup hsize hsome)
        (hgrows.isDirectoryAt_of_isSome hsome hlast))
    | none =>
      obtain ⟨hmade, hnew⟩ := makeLast_new hstart hnames hwalk hd hhere hup hsize hold
      refine ⟨_, hmade, hw.set hold ?_, growsTo_set hold, hgrows.set hlast, ?_⟩
      · rwa [List.dropLast_concat]
      · exact holdsDirectory_iff.mpr ⟨_, hnew⟩

/-! ### Parents -/

/-- What a path begins with starts where the path starts. -/
theorem start_of_isPrefix {first path : List Char} (hbegins : first <+: path) (hne : first ≠ [])
    {s : Place × List String} (hstart : t.start (String.ofList path) = .ok s) :
    t.start (String.ofList first) = .ok (s.1, components (String.ofList first)) := by
  obtain ⟨hnull, -, hsize, rfl⟩ := start_eq_ok_iff.mp hstart
  refine start_eq_ok_iff.mpr ⟨?_, ?_, ?_, ?_⟩
  · rw [String.toList_ofList] at hnull ⊢
    exact fun hmem => hnull (hbegins.subset hmem)
  · simpa using hne
  · obtain ⟨rest, hrest⟩ := hbegins
    rw [← hrest, String.ofList_append, String.utf8ByteSize_append] at hsize
    exact Nat.le_trans (Nat.le_add_right _ _) hsize
  · rw [isAbsolute_of_isPrefix hbegins hne]

section

variable {path : List Char}

/-- The parent of a path starts where the path starts. -/
theorem start_parentAndName {s : Place × List String} (hparent : (parentAndName path).1 ≠ [])
    (hstart : t.start (String.ofList path) = .ok s) :
    t.start (String.ofList (parentAndName path).1) =
      .ok (s.1, components (String.ofList (parentAndName path).1)) :=
  start_of_isPrefix (parentAndName_fst_isPrefix path) hparent hstart

variable (hname : (parentAndName path).2 ≠ []) (hparent : (parentAndName path).1 ≠ [])

include hname hparent

/-- A directory is in a directory. -/
theorem holdsDirectory_parentAndName (h : t.holdsDirectory (String.ofList path) = true) :
    t.holdsDirectory (String.ofList (parentAndName path).1) = true := by
  obtain ⟨place, hplace⟩ := holdsDirectory_iff.mp h
  obtain ⟨start, hstart, hwalk, -⟩ := leadsTo_iff.mp hplace
  rw [components_of_parentAndName hname, walk_concat_eq_ok_iff] at hwalk
  obtain ⟨d, hd, hstep⟩ := hwalk
  exact holdsDirectory_iff.mpr ⟨d, leadsTo_iff.mpr
    ⟨start, start_parentAndName hparent hstart, hd, (step_eq_ok_iff.mp hstep).1⟩⟩

/-- Where the parent of a path leads, all names of the path but its last lead. -/
theorem LeadsTo.walk_dropLast {start d : Place}
    (h : t.LeadsTo (String.ofList (parentAndName path).1) d)
    (hstart : t.start (String.ofList path) = .ok (start, components (String.ofList path))) :
    t.walk start (components (String.ofList path)).dropLast = .ok d := by
  obtain ⟨start', hfirst, hwalk, hd⟩ := leadsTo_iff.mp h
  rw [start_parentAndName hparent hstart] at hfirst
  cases hfirst
  rw [components_of_parentAndName hname, List.dropLast_concat]
  exact hwalk

theorem LeadsTo.parentReady {start d : Place}
    (h : t.LeadsTo (String.ofList (parentAndName path).1) d)
    (hstart : t.start (String.ofList path) = .ok (start, components (String.ofList path))) :
    t.ParentReady (String.ofList path) :=
  ⟨start, d, hstart, h.walk_dropLast hname hparent hstart, h.2⟩

end

/-- A path whose last name says that it stays where it is leads where its parent leads. -/
theorem LeadsTo.of_here {path : List Char} {start d : Place}
    (h : t.LeadsTo (String.ofList (parentAndName path).1) d)
    (hname : (parentAndName path).2 = ['.']) (hparent : (parentAndName path).1 ≠ [])
    (hstart : t.start (String.ofList path) = .ok (start, components (String.ofList path))) :
    t.LeadsTo (String.ofList path) d := by
  have hne : (parentAndName path).2 ≠ [] := by simp [hname]
  have hwalk := h.walk_dropLast hne hparent hstart
  refine leadsTo_iff.mpr ⟨start, hstart, ?_, h.2⟩
  rw [components_of_parentAndName hne, List.dropLast_concat] at hwalk
  rw [components_of_parentAndName hne, walk_concat_eq_ok_iff, hname]
  exact ⟨d, hwalk, step_eq_ok_iff.mpr ⟨h.2, .here⟩⟩

/-- What is there and is a directory in a larger tree was one before. -/
theorem holdsDirectory_of_holds {path : String} (hw : t.WellFormed) (hgrows : t.GrowsTo t')
    (hholds : t'.holdsDirectory path = true) (h : t.holds path = true) :
    t.holdsDirectory path = true := by
  obtain ⟨place, hplace⟩ := holdsDirectory_iff.mp hholds
  obtain ⟨start, hstart, hwalk, hdirectory⟩ := leadsTo_iff.mp hplace
  rw [start_of_working hgrows.working] at hstart
  obtain ⟨last, hlast⟩ : ∃ last, t.walk start (components path) = .ok last := by
    cases hlast : t.walk start (components path) with
    | ok last => exact ⟨last, rfl⟩
    | error refusal => simp [holds, locate, hstart, hlast, bind, Except.bind] at h
  obtain rfl : place = last := by
    rw [walk_extends hgrows.extends hlast] at hwalk
    exact (Except.ok.inj hwalk).symm
  have hthere := hw.isSome_of_walk (hw.isDirectoryAt_start hstart) hlast
  exact holdsDirectory_iff.mpr ⟨place, leadsTo_iff.mpr
    ⟨start, hstart, hlast, hgrows.isDirectoryAt_of_isSome hthere hdirectory⟩⟩

/-- A path is ready if nothing comes before its last name, or what comes before is there. -/
theorem parentReady_of_holds {path : List Char} (hw : t.WellFormed) (hgrows : t.GrowsTo t')
    (hholds : t'.holdsDirectory (String.ofList path) = true)
    (h : ¬ ((parentAndName path).1 ≠ [] ∧ (parentAndName path).2 ≠ [] ∧
      t.holds (String.ofList (parentAndName path).1) = false)) :
    t.ParentReady (String.ofList path) := by
  obtain ⟨place, hplace⟩ := holdsDirectory_iff.mp hholds
  obtain ⟨start, hstart, -⟩ := leadsTo_iff.mp hplace
  rw [start_of_working hgrows.working] at hstart
  have hfirst : (components (String.ofList path)).dropLast = [] →
      t.ParentReady (String.ofList path) := fun hnil =>
    ⟨start, start, hstart, by rw [hnil, walk], hw.isDirectoryAt_start hstart⟩
  by_cases hname : (parentAndName path).2 = []
  · refine hfirst ?_
    rw [components_eq, String.toList_ofList, namesOf_eq_nil_of_parentAndName hname]
    rfl
  by_cases hparent : (parentAndName path).1 = []
  · refine hfirst ?_
    rw [components_of_parentAndName hname, List.dropLast_concat, hparent]
    rfl
  have hthere : t.holds (String.ofList (parentAndName path).1) = true := by
    simpa [hname, hparent] using h
  obtain ⟨d, hd⟩ := holdsDirectory_iff.mp (holdsDirectory_of_holds hw hgrows
    (holdsDirectory_parentAndName hname hparent hholds) hthere)
  exact hd.parentReady hname hparent hstart

/-! ### Making all directories -/

/-- All directories that are missing on the way to a directory are made, and no other. By
induction along the parents of the path: the larger tree has the directory of each parent too. -/
theorem makeDirectories_grows {path : List Char} (hw : t.WellFormed) (hgrows : t.GrowsTo t')
    (hholds : t'.holdsDirectory (String.ofList path) = true) :
    ∃ made, t.makeDirectories path = (made, none) ∧
      GrowsWithin t t' (String.ofList path) made := by
  rw [makeDirectories]
  dsimp only
  split
  · next h =>
    obtain ⟨hparent, hname, -⟩ := h
    have := length_parentAndName_lt hname
    obtain ⟨first, hfirst, hgrown⟩ :=
      makeDirectories_grows hw hgrows (holdsDirectory_parentAndName hname hparent hholds)
    obtain ⟨d, hd⟩ := holdsDirectory_iff.mp hgrown.holds
    obtain ⟨place, hplace⟩ := holdsDirectory_iff.mp hholds
    obtain ⟨start, hstart, -⟩ := leadsTo_iff.mp hplace
    rw [start_of_working hgrown.within.working] at hstart
    rw [hfirst]
    dsimp only
    split
    · next hhere =>
      have hhere := hd.of_here (beq_iff_eq.mp hhere) hparent hstart
      exact ⟨first, rfl, hgrown.wellFormed, hgrown.grows, hgrown.within,
        holdsDirectory_iff.mpr ⟨d, hhere⟩⟩
    · obtain ⟨made, hmade, hlast⟩ := makeLast_grows hgrown.wellFormed hgrown.within hholds
        (hd.parentReady hname hparent hstart)
      exact ⟨made, hmade, hlast.wellFormed, hgrown.grows.trans hlast.grows, hlast.within,
        hlast.holds⟩
  · next h => exact makeLast_grows hw hgrows hholds (parentReady_of_holds hw hgrows hholds h)
termination_by path.length

/-- Where there is a directory already, the tree stays as it is. -/
theorem LeadsTo.ensureDirectory {path : String} (h : t.LeadsTo path place) :
    t.ensureDirectory path = (t, none) := by
  have hpath : t.LeadsTo (String.ofList path.toList) place := by rwa [String.ofList_toList]
  rw [Tree.ensureDirectory, makeDirectories]
  dsimp only
  rw [dif_neg, hpath.makeLast]
  rintro ⟨hparent, hname, hmissing⟩
  obtain ⟨d, hd⟩ := holdsDirectory_iff.mp
    (holdsDirectory_parentAndName hname hparent (holdsDirectory_iff.mpr ⟨place, hpath⟩))
  simp [holds, hd.1] at hmissing

/-- One tree is another with the directory at a path made: it is the least tree that the other grows
to and that has this directory. -/
structure Makes (t : Tree) (path : String) (made : Tree) : Prop where
  grows : t.GrowsTo made
  holds : made.holdsDirectory path = true
  least : ∀ other, t.GrowsTo other → other.holdsDirectory path = true → made.GrowsTo other

/-- **Which directories are made.** If the tree can grow to one with the directory at a path, then
this directory is made, together with the directories that no such tree can do without. -/
theorem ensureDirectory_makes {path : String} (hw : t.WellFormed) (hgrows : t.GrowsTo t')
    (hholds : t'.holdsDirectory path = true) :
    ∃ made, t.ensureDirectory path = (made, none) ∧ t.Makes path made := by
  have hmakes : ∀ other, t.GrowsTo other → other.holdsDirectory path = true →
      ∃ made, t.ensureDirectory path = (made, none) ∧ GrowsWithin t other path made := by
    intro other hother hdirectory
    have hpath : String.ofList path.toList = path := String.ofList_toList
    have hgrown := makeDirectories_grows hw hother (hpath ▸ hdirectory)
    rwa [hpath] at hgrown
  obtain ⟨made, hmade, hgrown⟩ := hmakes t' hgrows hholds
  refine ⟨made, hmade, hgrown.grows, hgrown.holds, fun other hother hdirectory => ?_⟩
  obtain ⟨same, hsame, hwithin⟩ := hmakes other hother hdirectory
  rw [hmade] at hsame
  cases hsame
  exact hwithin.within

end Tree

end CodecMocks.Files
