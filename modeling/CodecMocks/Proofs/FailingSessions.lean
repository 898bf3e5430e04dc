import CodecMocks.Proofs.Robustness
import CodecMocks.Proofs.WrittenEntries

/-!
# Sessions that fail

The units that a sequence of stages has to hand over are found range by range, whatever happens to
them: each depends on the package and on its own range only. A session hands them over in order and
stops at the first range without tokens and at the first unit that is refused. What it has done by
then is what a session without a fault has done when it is as far.

* `unitsOf`, `filterMap_due_modulesOf`: what a stage has to hand over.
* `course`: the units handed over and why there are no more.
* `HasHandedOver.hand`, `HasHandedOver.hand_refused`: one unit is handed over or refused.
* `keeps_handAll`, `keeps_stages`: sessions take that course.
* `stages_failing`: a failing session is a prefix of the session without the fault.
-/

namespace CodecMocks.Mock

open CodecMocks.Files CodecMocks.Naming CodecMocks.Schema

/-! ### Units -/

/-- The unit of the range of a type, if types of its kind have one. -/
def typeUnit? (package : CodeText) : List Token → Option (Except ModuleError MockModule)
  | [] => some (.error .emptyRange)
  | t :: ts => (typeClass? (t :: ts)).map fun k => .ok (classModule package k)

/-- The unit of the range of a message. -/
def messageUnit (package : CodeText) : List Token → Except ModuleError MockModule
  | [] => .error .emptyRange
  | t :: ts => .ok (classModule package (messageClass t (body (t :: ts))))

/-- The units that a stage has to hand over, in order. -/
def unitsOf (c : Catalog) : Stage → List (Except ModuleError MockModule)
  | .header => [.ok (classModule c.package (headerClass c.header))]
  | .types => c.types.filterMap (typeUnit? c.package)
  | .messages => c.messages.map (messageUnit c.package)
  | .all =>
    .ok (classModule c.package (headerClass c.header)) :: c.types.filterMap (typeUnit? c.package) ++
      c.messages.map (messageUnit c.package)

/-- What has to be handed over of what was made for a range. -/
def due : Except ModuleError (Option MockModule) → Option (Except ModuleError MockModule)
  | .ok none => none
  | .ok (some m) => some (.ok m)
  | .error e => some (.error e)

theorem due_typeModule? (package : CodeText) (tokens : List Token) :
    due (typeModule? package tokens) = typeUnit? package tokens := by
  cases tokens with
  | nil => rfl
  | cons t ts =>
    rw [typeModule?_eq (List.cons_ne_nil t ts), typeUnit?]
    cases typeClass? (t :: ts) with
    | none => rfl
    | some k => rfl

theorem due_messageModule (package : CodeText) (tokens : List Token) :
    due ((messageModule package tokens).map some) = some (messageUnit package tokens) := by
  cases tokens with
  | nil => rfl
  | cons t ts =>
    rw [messageModule_eq]
    rfl

/-- What a stage makes is what it has to hand over. -/
theorem filterMap_due_modulesOf (c : Catalog) (s : Stage) :
    (modulesOf c s).filterMap due = unitsOf c s := by
  have hheader : due ((headerModule c.package c.header).map some) =
      some (.ok (classModule c.package (headerClass c.header))) := by
    rw [headerModule_eq]
    rfl
  have htypes : (typeModules c).filterMap due = c.types.filterMap (typeUnit? c.package) := by
    rw [typeModules, List.filterMap_map]
    exact congrArg (List.filterMap · c.types) (funext (due_typeModule? c.package))
  have hmessages : (messageModules c).filterMap due = c.messages.map (messageUnit c.package) := by
    rw [messageModules, List.filterMap_map, ← List.filterMap_eq_map]
    exact congrArg (List.filterMap · c.messages) (funext (due_messageModule c.package))
  cases s with
  | header => rw [modulesOf, List.filterMap_cons_some hheader, List.filterMap_nil, unitsOf]
  | types => exact htypes
  | messages => exact hmessages
  | all =>
    rw [modulesOf, List.filterMap_append, List.filterMap_cons_some hheader, htypes, hmessages]
    rfl

/-! ### Units that are refused -/

variable {ε : Type}

/-- How a unit is refused: it is not opened, or writing it breaks off after some pieces. -/
inductive UnitFault (ε : Type) where
  | opening (error : ε)
  | writing (pieces : List CodeText) (error : ε)

/-- The error. -/
def UnitFault.error : UnitFault ε → ε
  | .opening e => e
  | .writing _ e => e

/-- Units kept in memory, and the names of all units that were asked to be opened. -/
structure WatchedShelf where
  shelf : Shelf := []
  asked : List CodeText := []

/-- A destination that keeps units in memory and refuses some, which may depend on the unit and on
how many came before. -/
def faultyDestination (faults : Nat → MockModule → Option (UnitFault ε)) :
    Destination WatchedShelf ε where
  deliver n s m :=
    let asked := s.asked ++ [m.name]
    match faults n m with
    | none => ({ shelf := s.shelf.add { name := m.name, pieces := [m.text] }, asked }, none)
    | some (.opening e) => ({ shelf := s.shelf, asked }, some e)
    | some (.writing pieces e) =>
      ({ shelf := s.shelf.add { name := m.name, pieces, breaksOff := true }, asked }, some e)

/-- Why a session stops: nothing is made of a range, or a unit is refused. -/
inductive Stop (ε : Type) where
  | range (error : ModuleError)
  | refused (unit : MockModule) (fault : UnitFault ε)

/-- What a session that stops so reports. -/
def Stop.failure : Stop ε → Failure ε
  | .range e => .module e
  | .refused _ fault => .refused fault.error

/-- The unit that is asked for in vain. -/
def Stop.asked : Stop ε → List CodeText
  | .range _ => []
  | .refused m _ => [m.name]

/-- The course of a session in which `done` has been handed over: all units handed over, and what
stops it. -/
def course (faults : Nat → MockModule → Option (UnitFault ε)) (done : List MockModule) :
    List (Except ModuleError MockModule) → List MockModule × Option (Stop ε)
  | [] => (done, none)
  | .error e :: _ => (done, some (.range e))
  | .ok m :: rest =>
    match faults done.length m with
    | none => course faults (done ++ [m]) rest
    | some fault => (done, some (.refused m fault))

variable {faults : Nat → MockModule → Option (UnitFault ε)}

/-- A course goes on with more units only if nothing has stopped it. -/
theorem course_append (done : List MockModule) (a b : List (Except ModuleError MockModule)) :
    course faults done (a ++ b) =
      match course faults done a with
      | (done, none) => course faults done b
      | (done, some stop) => (done, some stop) := by
  induction a generalizing done with
  | nil => rfl
  | cons unit rest ih =>
    cases unit with
    | error e => rfl
    | ok m =>
      rw [List.cons_append, course, course]
      cases faults done.length m with
      | none => exact ih (done ++ [m])
      | some fault => rfl

/-- Units without a fault are all handed over. -/
theorem course_ok_append {units : List MockModule} {done : List MockModule}
    (hfine : ∀ i (hi : i < units.length), faults (done.length + i) units[i] = none)
    (rest : List (Except ModuleError MockModule)) :
    course faults done (units.map .ok ++ rest) = course faults (done ++ units) rest := by
  induction units generalizing done with
  | nil => rw [List.map_nil, List.nil_append, List.append_nil]
  | cons m units ih =>
    have hfirst : faults done.length m = none := hfine 0 (Nat.succ_pos _)
    have hlater : ∀ i (hi : i < units.length),
        faults ((done ++ [m]).length + i) units[i] = none := by
      intro i hi
      have hone := hfine (i + 1) (Nat.succ_lt_succ hi)
      rw [List.length_append, List.length_singleton, Nat.add_assoc, Nat.add_comm 1 i]
      exact hone
    rw [List.map_cons, List.cons_append, course, hfirst]
    have hrest := ih hlater
    rw [List.append_assoc] at hrest
    exact hrest

/-! ### Sessions -/

/-- Exactly the units `done` have been handed over: they are written, and what is kept is the
dictionary of their names and texts. The units asked for are these, then `vain`. -/
structure HasHandedOver (p : Progress WatchedShelf) (done : List MockModule)
    (vain : List CodeText) :
    Prop where
  written : p.written = done.map (·.name)
  asked : p.state.asked = done.map (·.name) ++ vain
  shelf : Entries.IsLastWins (done.map fun m => (m.name, m.text)) p.state.shelf

/-- A session reports what stops its course, and has handed over the units of the course. -/
structure Keeps (session : Progress WatchedShelf × Option (Failure ε))
    (course : List MockModule × Option (Stop ε)) : Prop where
  failure : session.2 = course.2.map Stop.failure
  handedOver : HasHandedOver session.1 course.1 ((course.2.map Stop.asked).getD [])

section

variable {p : Progress WatchedShelf} {done : List MockModule} (h : HasHandedOver p done [])

include h

theorem HasHandedOver.length_written : p.written.length = done.length := by
  rw [h.written, List.length_map]

/-- A unit without a fault is handed over. -/
theorem HasHandedOver.hand {m : MockModule} (hfine : faults done.length m = none) :
    ∃ p', p.hand (faultyDestination faults) m = (p', none) ∧ HasHandedOver p' (done ++ [m]) [] := by
  let kept : WatchedShelf :=
    { shelf := p.state.shelf.add { name := m.name, pieces := [m.text] }
      asked := p.state.asked ++ [m.name] }
  refine ⟨⟨kept, p.written ++ [m.name], p.log ++ [generatedLine m.name]⟩, ?_, ?_⟩
  · simp [Progress.hand, faultyDestination, h.length_written, hfine, kept]
  constructor
  · simp [h.written]
  · simp [kept, h.asked]
  · rw [List.map_append]
    simpa [kept, OutputUnit.text] using h.shelf.put m.name m.text

/-- A unit with a fault stops the session. It has been asked for, and it is not kept. -/
theorem HasHandedOver.hand_refused {m : MockModule} {fault : UnitFault ε}
    (hfault : faults done.length m = some fault) :
    ∃ p', p.hand (faultyDestination faults) m = (p', some fault.error) ∧
      HasHandedOver p' done [m.name] := by
  refine ⟨⟨{ shelf := p.state.shelf, asked := p.state.asked ++ [m.name] }, p.written, p.log⟩,
    ?_, ?_⟩
  · cases fault with
    | opening e =>
      simp [Progress.hand, faultyDestination, h.length_written, hfault, UnitFault.error]
    | writing pieces e =>
      simp [Progress.hand, faultyDestination, h.length_written, hfault, UnitFault.error]
  constructor
  · exact h.written
  · simp [h.asked]
  · exact h.shelf

end

/-- Handing over what was made for ranges takes the course of the units that are due. -/
theorem keeps_handAll {p : Progress WatchedShelf} {done : List MockModule}
    (h : HasHandedOver p done [])
    (made : List (Except ModuleError (Option MockModule))) :
    Keeps (p.handAll (faultyDestination faults) made)
      (course faults done (made.filterMap due)) := by
  induction made generalizing p done with
  | nil => exact ⟨rfl, h⟩
  | cons unit rest ih =>
    match unit with
    | .error e => exact ⟨rfl, h⟩
    -- A range without a unit is passed over, and no number is used up for it.
    | .ok none => exact ih h
    | .ok (some m) =>
      have hdue : due (.ok (some m)) = some (.ok m) := rfl
      rw [List.filterMap_cons_some hdue, course, Progress.handAll]
      cases hfault : faults done.length m with
      | none =>
        obtain ⟨p', hhand, hdone⟩ := h.hand hfault
        rw [hhand]
        exact ih hdone
      | some fault =>
        obtain ⟨p', hhand, hdone⟩ := h.hand_refused hfault
        rw [hhand]
        exact ⟨rfl, hdone⟩

theorem keeps_stage {p : Progress WatchedShelf} {done : List MockModule}
    (h : HasHandedOver p done []) (c : Catalog) (s : Stage) :
    Keeps (p.stage (faultyDestination faults) c s) (course faults done (unitsOf c s)) := by
  have hall : Keeps (p.handAll (faultyDestination faults) (modulesOf c s))
      (course faults done ((modulesOf c s).filterMap due)) :=
    keeps_handAll h (modulesOf c s)
  rw [filterMap_due_modulesOf] at hall
  rw [Progress.stage]
  generalize p.handAll (faultyDestination faults) (modulesOf c s) = session at hall ⊢
  obtain ⟨q, failure⟩ := session
  -- What is left is the summary of a full session, which is reported only.
  cases failure with
  | some e => exact hall
  | none =>
    by_cases hs : s = .all
    · simp only [if_pos hs]
      exact ⟨hall.failure, hall.handedOver.written, hall.handedOver.asked, hall.handedOver.shelf⟩
    · simp only [if_neg hs]
      exact hall

/-- Stages in order take the course of all their units. -/
theorem keeps_stages {p : Progress WatchedShelf} {done : List MockModule}
    (h : HasHandedOver p done []) (c : Catalog) (ss : List Stage) :
    Keeps (p.stages (faultyDestination faults) c ss)
      (course faults done (ss.flatMap (unitsOf c))) := by
  induction ss generalizing p done with
  | nil => exact ⟨rfl, h⟩
  | cons s rest ih =>
    rw [Progress.stages, List.flatMap_cons, course_append]
    have hstage : Keeps (p.stage (faultyDestination faults) c s)
        (course faults done (unitsOf c s)) :=
      keeps_stage h c s
    generalize p.stage (faultyDestination faults) c s = session at hstage ⊢
    generalize course faults done (unitsOf c s) = stageCourse at hstage ⊢
    obtain ⟨q, failure⟩ := session
    obtain ⟨done', stop⟩ := stageCourse
    have hfailure : failure = stop.map Stop.failure := hstage.failure
    subst hfailure
    cases stop with
    | none => exact ih hstage.handedOver
    | some stop => exact hstage

/-! ### The prefix -/

theorem eq_emptyRange_of_mem_unitsOf {c : Catalog} {s : Stage} {e : ModuleError}
    (h : .error e ∈ unitsOf c s) : e = .emptyRange := by
  have htypes : .error e ∈ c.types.filterMap (typeUnit? c.package) → e = .emptyRange := by
    intro h
    obtain ⟨tokens, -, hunit⟩ := List.mem_filterMap.mp h
    cases tokens with
    | nil =>
      cases hunit
      rfl
    | cons t ts =>
      obtain ⟨k, -, hk⟩ := Option.map_eq_some_iff.mp hunit
      cases hk
  have hmessages : .error e ∈ c.messages.map (messageUnit c.package) → e = .emptyRange := by
    intro h
    obtain ⟨tokens, -, hunit⟩ := List.mem_map.mp h
    cases tokens with
    | nil =>
      cases hunit
      rfl
    | cons t ts => cases hunit
  cases s with
  | header => cases List.mem_singleton.mp h
  | types => exact htypes h
  | messages => exact hmessages h
  | all =>
    rcases List.mem_cons.mp h with h | h
    · cases h
    rcases List.mem_append.mp h with h | h
    · exact htypes h
    · exact hmessages h

/-- **A failing session is a prefix of the session without the fault.** Let `units` be the first
units due in any sequence of stages, none of which has a fault. If the next unit has one, or the
next range is empty, the session reports that very error, `units` have been handed over, and no unit
after the failing one has been asked for. If `units` are all, nothing is reported. -/
theorem stages_failing (c : Catalog) (faults : Nat → MockModule → Option (UnitFault ε))
    (ss : List Stage) (units : List MockModule)
    (hfine : ∀ i (hi : i < units.length), faults i units[i] = none) :
    let due := ss.flatMap (unitsOf c)
    let session := ({ state := {} } : Progress WatchedShelf).stages (faultyDestination faults) c ss
    (∀ m fault rest, due = units.map .ok ++ .ok m :: rest → faults units.length m = some fault →
        session.2 = some (.refused fault.error) ∧ HasHandedOver session.1 units [m.name]) ∧
      (∀ e rest, due = units.map .ok ++ .error e :: rest →
        e = .emptyRange ∧ session.2 = some (.module .emptyRange) ∧
          HasHandedOver session.1 units []) ∧
      (due = units.map .ok → session.2 = none ∧ HasHandedOver session.1 units []) := by
  intro due session
  have hstart : HasHandedOver ({ state := {} } : Progress WatchedShelf) [] [] :=
    ⟨rfl, rfl, Entries.isLastWins_nil⟩
  have hkeeps : Keeps session (course faults [] due) := keeps_stages hstart c ss
  have hfine' : ∀ i (hi : i < units.length),
      faults (([] : List MockModule).length + i) units[i] = none := by
    intro i hi
    rw [List.length_nil, Nat.zero_add]
    exact hfine i hi
  refine ⟨?_, ?_, ?_⟩
  · intro m fault rest hdue hfault
    have hcourse : course faults [] due = (units, some (.refused m fault)) := by
      rw [hdue, course_ok_append hfine', List.nil_append, course, hfault]
    rw [hcourse] at hkeeps
    exact ⟨hkeeps.failure, hkeeps.handedOver⟩
  · intro e rest hdue
    have hcourse : course faults [] due = (units, some (.range e)) := by
      rw [hdue, course_ok_append hfine', List.nil_append, course]
    have he : e = .emptyRange := by
      have hmem : .error e ∈ due := by
        rw [hdue]
        exact List.mem_append_right _ List.mem_cons_self
      obtain ⟨s, -, hs⟩ := List.mem_flatMap.mp hmem
      exact eq_emptyRange_of_mem_unitsOf hs
    subst he
    rw [hcourse] at hkeeps
    exact ⟨rfl, hkeeps.failure, hkeeps.handedOver⟩
  · intro hdue
    have hcourse : course faults [] due = (units, none) := by
      rw [hdue, ← List.append_nil (units.map _), course_ok_append hfine', List.nil_append, course]
    rw [hcourse] at hkeeps
    exact ⟨hkeeps.failure, hkeeps.handedOver⟩

/-- A catalog with an enum, which has no unit, and with a range without tokens after it. -/
def gappedCatalog : Catalog :=
  .ofParts "n" [] [[⟨.beginSet, "flags", none⟩], [⟨.beginEnum, "side", none⟩], []]
    [[⟨.beginMessage, "trade", none⟩]]

/-- The units of the message, of the header and of the set. -/
def gappedUnits : List MockModule :=
  [classModule "n" (messageClass ⟨.beginMessage, "trade", none⟩ []),
   classModule "n" (headerClass emptyHeader),
   classModule "n" (.plain (className "flags") (.ofProperties (choiceProperties [] [])))]

/-- Writing the third unit breaks off. -/
def fullAtThird (n : Nat) (m : MockModule) : Option (UnitFault CodeText) :=
  if n = 2 then some (.writing [m.text] "disk full") else none

theorem gappedCatalog_failing :
    let stages : List Stage := [.messages, .header, .types]
    let sound := ({ state := {} } : Progress WatchedShelf).stages
      (faultyDestination fun _ _ => (none : Option (UnitFault CodeText))) gappedCatalog stages
    let full := ({ state := {} } : Progress WatchedShelf).stages
      (faultyDestination fullAtThird) gappedCatalog stages
    (sound.2 = some (.module .emptyRange) ∧ HasHandedOver sound.1 gappedUnits []) ∧
      full.2 = some (.refused "disk full") ∧
        full.1.written = (["TradeMock", "MessageHeaderMock"] : List CodeText) ∧
        full.1.state.asked =
          (["TradeMock", "MessageHeaderMock", "FlagsMock"] : List CodeText) := by
  intro stages sound full
  have hdue : stages.flatMap (unitsOf gappedCatalog) =
      gappedUnits.map .ok ++ [.error .emptyRange] := rfl
  have hnames : gappedUnits.map (·.name) =
      (["TradeMock", "MessageHeaderMock", "FlagsMock"] : List CodeText) := by
    decide +kernel
  have hfine : ∀ i (hi : i < (gappedUnits.take 2).length),
      fullAtThird i (gappedUnits.take 2)[i] = none := by
    intro i hi
    have hlength : (gappedUnits.take 2).length = 2 := rfl
    exact if_neg (by omega)
  obtain ⟨-, hempty, -⟩ := stages_failing gappedCatalog
    (fun _ _ => (none : Option (UnitFault CodeText))) stages gappedUnits (fun _ _ => rfl)
  obtain ⟨hfault, -, -⟩ :=
    stages_failing gappedCatalog fullAtThird stages (gappedUnits.take 2) hfine
  obtain ⟨-, hstop, hsound⟩ := hempty .emptyRange [] hdue
  obtain ⟨hrefused, hfull⟩ := hfault _ _ _ hdue rfl
  refine ⟨⟨hstop, hsound⟩, hrefused, ?_, ?_⟩
  · rw [hfull.written, List.map_take, hnames]
    rfl
  · have hflags : mockName (className "flags") = "FlagsMock" := by decide +kernel
    rw [hfull.asked, List.map_take, hnames]
    show (["TradeMock", "MessageHeaderMock"] : List CodeText) ++ [mockName (className "flags")] = _
    rw [hflags]
    rfl

end CodecMocks.Mock
