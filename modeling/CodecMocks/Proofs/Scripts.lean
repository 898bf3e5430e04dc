import CodecMocks.Proofs.Emission

/-!
# Modules as lists of edits

Every module is written by a list of edits of an empty draft: its class is opened, what the class
holds is written, and the class is left. The groups of a message are among these edits with their
own classes, each opened and left one at a time, so that every single change is one that a draft may
refuse.

* `applyAll_forestScript`: the edits of a forest do what `Outline.addForest` does, and none of them
  is refused.
* `writes_headerScript`, `writes_typeScript`, `writes_messageScript`: for each kind of range the
  edits are carried out one after the other, all blocks are closed after the last one, and the text
  that is rendered is that of the printed class.
-/

namespace CodecMocks.Mock

open CodecMocks.Naming CodecMocks.Schema

/-- Carry out edits in order, up to the first that is refused. -/
def Draft.applyAll (d : Draft) : List Edit → Except DraftError Draft
  | [] => .ok d
  | edit :: rest =>
    match d.apply edit with
    | .ok (changed, _) => changed.applyAll rest
    | .error e => .error e

/-- The edits for the groups of a forest that are declared in the class at path `parent`, which has
the members `reserved`. -/
def forestScript (parent : CodeText) (reserved : List CodeText) : GroupForest → List Edit
  | .nil => []
  | .group marker fields nested next =>
    let names := GroupNames.of marker.name parent
    [.property (groupProperty reserved names), .openGroup marker.name parent, .fields fields] ++
      (forestScript names.base cursorNames nested ++
        ([.leave] ++ forestScript parent reserved next))

/-- The edits for a class that holds what the edits `inside` write. -/
def classScript (typeName : CodeText) (inside : List Edit) : List Edit :=
  .openClass typeName none :: (inside ++ [.leave])

/-- The edits for the message header. -/
def headerScript (header : List Token) : List Edit :=
  classScript headerTypeName [.composite (body header)]

/-- The edits for a type; none if there is no module for types of its kind. -/
def typeScript : List Token → List Edit
  | [] => []
  | t :: ts =>
    match t.signal with
    | .beginSet => classScript (className t.name) [.choices (body (t :: ts))]
    | .beginComposite => classScript (className t.name) [.composite (body (t :: ts))]
    | _ => []

/-- The edits for a message. -/
def messageScript : List Token → List Edit
  | [] => []
  | t :: ts =>
    let content := body (t :: ts)
    classScript (className t.name)
      (.fields (rootFields content).1 ::
        forestScript (className t.name) [] (GroupForest.read (groups content).1).1)

/-- None of the edits is refused when they are carried out on an empty draft, all blocks are closed
after them, and the text is that of the module. -/
def Writes (package : CodeText) (script : List Edit) (m : MockModule) : Prop :=
  ∃ finished, Draft.applyAll { package } script = .ok finished ∧ finished.render = .ok m.text

namespace Draft

theorem applyAll_append {d middle : Draft} {first : List Edit}
    (h : d.applyAll first = .ok middle) (second : List Edit) :
    d.applyAll (first ++ second) = middle.applyAll second := by
  induction first generalizing d with
  | nil =>
    cases h
    rfl
  | cons edit rest ih =>
    rw [List.cons_append, applyAll]
    rw [applyAll] at h
    cases happly : d.apply edit with
    | error e =>
      rw [happly] at h
      cases h
    | ok changed =>
      rw [happly] at h
      exact ih h

theorem applyAll_leave {d : Draft} (h : d.outline.isRoot = false) :
    d.applyAll [.leave] = .ok { d with outline := d.outline.leave } := by
  rw [applyAll, apply, leave_of_not_isRoot h]
  rfl

end Draft

/-! ### The groups of a forest -/

theorem reserved_addForest (o : Outline) (parent : CodeText) (forest : GroupForest) :
    (o.addForest parent forest).current.reserved = o.current.reserved := by
  rw [Outline.addForest_eq_addMembers, Outline.reserved_addMembers]

/-- **No edit of a forest is refused**, and together they write what the forest adds. -/
theorem applyAll_forestScript (d : Draft) (parent : CodeText) (forest : GroupForest) :
    d.applyAll (forestScript parent d.outline.current.reserved forest) =
      .ok { d with outline := d.outline.addForest parent forest } := by
  induction forest generalizing d parent with
  | nil => rfl
  | group marker fields nested next ihNested ihNext =>
    let names := GroupNames.of marker.name parent
    let held := d.outline.addProperty (groupProperty d.outline.current.reserved names)
    let inside : Draft := { d with outline := (held.openGroup names).addFields fields }
    let filled : Draft := { d with outline := inside.outline.addForest names.base nested }
    let left : Draft := { d with outline := filled.outline.leave }
    have hopen : d.applyAll [.property (groupProperty d.outline.current.reserved names),
        .openGroup marker.name parent, .fields fields] = .ok inside := rfl
    have hfill : inside.applyAll (forestScript names.base cursorNames nested) = .ok filled := by
      have hreserved : inside.outline.current.reserved = cursorNames :=
        Outline.reserved_openGroup_addFields held names fields
      rw [← hreserved]
      exact ihNested inside names.base
    have hleave : filled.applyAll [.leave] = .ok left := by
      apply Draft.applyAll_leave
      have hdepth : filled.outline.depth = d.outline.depth + 1 := by
        simp [filled, inside, held]
      rw [Bool.eq_false_iff, Ne, Outline.isRoot_iff, hdepth]
      exact Nat.succ_ne_zero _
    have hnext : left.applyAll (forestScript parent d.outline.current.reserved next) =
        .ok { d with outline := left.outline.addForest parent next } := by
      have hreserved : left.outline.current.reserved = d.outline.current.reserved :=
        reserved_addForest d.outline parent (.group marker fields nested .nil)
      rw [← hreserved]
      exact ihNext left parent
    show d.applyAll ([.property (groupProperty d.outline.current.reserved names),
        .openGroup marker.name parent, .fields fields] ++
      (forestScript names.base cursorNames nested ++
        ([.leave] ++ forestScript parent d.outline.current.reserved next))) = _
    rw [Draft.applyAll_append hopen, Draft.applyAll_append hfill, Draft.applyAll_append hleave,
      hnext]
    rfl

/-! ### Modules -/

/-- The edits for a class write the module that is made for it, if the edits inside of the class are
carried out. -/
theorem writes_classScript {package typeName : CodeText} {inside : List Edit}
    {fill : Outline → Outline} {m : MockModule} (hmade : moduleOf package typeName fill = .ok m)
    (hinside : Draft.applyAll
        { package, outline := (Outline.root "").openClass typeName typeName } inside =
      .ok { package, outline := fill ((Outline.root "").openClass typeName typeName) }) :
    Writes package (classScript typeName inside) m := by
  obtain ⟨finished, hleave, hrender, -⟩ := moduleOf_eq_ok_iff.mp hmade
  refine ⟨finished, ?_, hrender⟩
  show Draft.applyAll { package, outline := (Outline.root "").openClass typeName typeName }
    (inside ++ [.leave]) = _
  rw [Draft.applyAll_append hinside, Draft.applyAll, Draft.apply, hleave]
  rfl

theorem writes_headerScript (package : CodeText) (header : List Token) :
    Writes package (headerScript header) (classModule package (headerClass header)) :=
  writes_classScript (headerModule_eq package header) rfl

theorem writes_typeScript (package : CodeText) {tokens : List Token} {k : MockClass}
    (h : typeClass? tokens = some k) :
    Writes package (typeScript tokens) (classModule package k) := by
  obtain ⟨t, ts, rfl, ⟨hsignal, rfl⟩ | ⟨hsignal, rfl⟩⟩ := exists_of_typeClass? h
  · simp only [typeScript, hsignal]
    exact writes_classScript (setModule_eq package (className t.name) (body (t :: ts))) rfl
  · simp only [typeScript, hsignal]
    exact writes_classScript (compositeModule_eq package (className t.name) (body (t :: ts))) rfl

theorem writes_messageScript (package : CodeText) {tokens : List Token} {k : MockClass}
    (h : messageClass? tokens = some k) :
    Writes package (messageScript tokens) (classModule package k) := by
  cases tokens with
  | nil => cases h
  | cons t ts =>
    cases h
    refine writes_classScript (messageModule_eq package t ts) ?_
    let opened := (Outline.root "").openClass (className t.name) (className t.name)
    have hreserved : (opened.addFields (rootFields (body (t :: ts))).1).current.reserved = [] :=
      Outline.reserved_addFields opened _
    show Draft.applyAll
      { package, outline := opened.addFields (rootFields (body (t :: ts))).1 } _ = _
    rw [← hreserved]
    exact applyAll_forestScript _ _ _

end CodecMocks.Mock
