import CodecMocks.Mock.Module

/-!
# Class bodies

The content of a mock class as a tree: properties, and the mock classes of groups with bodies of
their own. `ClassBody.members` prints a body by recursion on the tree, relative to the indentation
of its class; no block is open while it prints. `classModule` prints the module of a class.

* `Outline.addMembers_eq_write`: members that are written one after the other are one run of lines
  with a blank line between two of them.
* `Outline.leave_addMembers_openClass`: to open a class, write its members and leave it is to write
  one member, the printed class.
* `moduleOf_eq_classModule`: a module whose class is filled with the members of a body is the
  printed module, and it is always made.
* `MockClass.lines_infix_of_mem_all`: the class of a group is printed inside of the classes around
  it.
-/

namespace CodecMocks.Mock

open CodecMocks.Layout CodecMocks.Naming

/-- The content of a mock class in order. The class of a group has the members of its cursor before
the content of its own body. -/
inductive ClassBody where
  | nil
  | property (p : Property) (next : ClassBody)
  | group (typeName base : CodeText) (inner next : ClassBody)
deriving DecidableEq, Repr

namespace ClassBody

/-- One body after the other. -/
def append : ClassBody → ClassBody → ClassBody
  | .nil, other => other
  | .property p next, other => .property p (next.append other)
  | .group typeName base inner next, other => .group typeName base inner (next.append other)

instance : Append ClassBody := ⟨append⟩

/-- The body that holds properties only. -/
def ofProperties (ps : List Property) : ClassBody :=
  ps.foldr .property .nil

end ClassBody

/-! ### Printing -/

/-- The lines of a block with the given members: a blank line between two of them, and `pass` where
there is none. -/
def blockLines (members : List (List CodeText)) : List CodeText :=
  if members.isEmpty then ["pass"] else [("" : CodeText)].intercalate members

/-- The lines of the mock of a class, whose path is `base`. -/
def classLines (typeName base : CodeText) (members : List (List CodeText)) : List CodeText :=
  classHeading (mockName typeName) [.plain base] :: (blockLines members).map (indented 1)

/-- The members of a class with the given body, each as its lines. -/
def ClassBody.members : ClassBody → List (List CodeText)
  | .nil => []
  | .property p next => p.members ++ next.members
  | .group typeName base inner next =>
    classLines typeName base (cursorMembers (mockName typeName) base ++ inner.members) ::
      next.members

/-- A mock class: the class it mocks with its path, whether it is the class of a group, and its
body. -/
structure MockClass where
  typeName : CodeText
  base : CodeText
  isGroup : Bool
  body : ClassBody
deriving DecidableEq, Repr

/-- A mock class that is no class of a group. Its base class is named by its name alone. -/
def MockClass.plain (typeName : CodeText) (body : ClassBody) : MockClass :=
  { typeName, base := typeName, isGroup := false, body }

/-- All members of a mock class, those of its cursor first. -/
def MockClass.members (k : MockClass) : List (List CodeText) :=
  (if k.isGroup then cursorMembers (mockName k.typeName) k.base else []) ++ k.body.members

/-- The lines of a mock class. -/
def MockClass.lines (k : MockClass) : List CodeText :=
  classLines k.typeName k.base k.members

/-- The classes of groups in a body, at any depth. -/
def ClassBody.classes : ClassBody → List MockClass
  | .nil => []
  | .property _ next => next.classes
  | .group typeName base inner next =>
    { typeName, base, isGroup := true, body := inner } :: (inner.classes ++ next.classes)

/-- The class and the classes of groups in it, at any depth. -/
def MockClass.all (k : MockClass) : List MockClass :=
  k :: k.body.classes

/-- The lines that every module starts with. -/
def preamble (package : CodeText) : List CodeText :=
  ["\"\"\"Generated SBE (Simple Binary Encoding) message codec mock.\"\"\"",
   "",
   "from __future__ import annotations",
   "",
   "from collections.abc import Iterator",
   "from typing import Self",
   "",
   "from " ++ package ++ " import *  # noqa: F403",
   "",
   ""]

/-- The module that holds one mock class. -/
def classModule (package : CodeText) (k : MockClass) : MockModule where
  name := mockName k.typeName
  text := CodeText.intercalate "\n" (preamble package ++ k.lines) ++ "\n"

/-- The lines of a member start with one that is not blank. -/
def IsMember (lines : List CodeText) : Prop :=
  ∃ first rest, lines = first :: rest ∧ first ≠ ""

theorem IsMember.ne_nil {lines : List CodeText} (h : IsMember lines) : lines ≠ [] := by
  obtain ⟨first, rest, rfl, -⟩ := h
  exact List.cons_ne_nil first rest

theorem isMember_functionHeading (name : CodeText) (parameters : List Parameter)
    (returns : CodeText)
    (rest : List CodeText) : IsMember (functionHeading name parameters returns :: rest) := by
  refine ⟨_, _, rfl, ?_⟩
  intro h
  have := congrArg CodeText.length h
  simp [functionHeading] at this

theorem isMember_classLines (typeName base : CodeText) (members : List (List CodeText)) :
    IsMember (classLines typeName base members) := by
  refine ⟨_, _, rfl, ?_⟩
  intro h
  have := congrArg CodeText.length h
  simp [classHeading] at this

theorem Property.isMember_of_mem {p : Property} {m : List CodeText} (h : m ∈ p.members) :
    IsMember m := by
  simp only [Property.members, List.mem_cons, List.not_mem_nil, or_false] at h
  rcases h with rfl | rfl | rfl
  · refine ⟨_, _, rfl, ?_⟩
    intro h
    have := congrArg CodeText.length h
    unfold TypedVariable.text at this
    split at this <;> simp [storageName] at this
  · exact isMember_functionHeading ..
  · exact isMember_functionHeading ..

theorem isMember_of_mem_cursorMembers {mock base : CodeText} {m : List CodeText}
    (h : m ∈ cursorMembers mock base) : IsMember m := by
  simp only [cursorMembers, List.mem_cons, List.not_mem_nil, or_false] at h
  rcases h with rfl | rfl | rfl | rfl | rfl | rfl | rfl <;> exact isMember_functionHeading ..

namespace ClassBody

theorem isMember_of_mem {body : ClassBody} {m : List CodeText} (h : m ∈ body.members) :
    IsMember m := by
  induction body with
  | nil => exact absurd h List.not_mem_nil
  | property p next ih =>
    rcases List.mem_append.mp h with h | h
    · exact Property.isMember_of_mem h
    · exact ih h
  | group typeName base inner next _ ih =>
    rcases List.mem_cons.mp h with rfl | h
    · exact isMember_classLines ..
    · exact ih h

@[simp] theorem members_nil : ClassBody.nil.members = [] := rfl

@[simp] theorem members_append (a b : ClassBody) : (a ++ b).members = a.members ++ b.members := by
  show (a.append b).members = _
  induction a with
  | nil => rfl
  | property p next ih => simp only [append, members, ih, List.append_assoc]
  | group typeName base inner next _ ih => simp only [append, members, ih, List.cons_append]

@[simp] theorem members_ofProperties (ps : List Property) :
    (ofProperties ps).members = ps.flatMap Property.members := by
  induction ps with
  | nil => rfl
  | cons p ps ih =>
    rw [List.flatMap_cons, ← ih]
    rfl

end ClassBody

end CodecMocks.Mock

/-! ### Writing members -/

namespace CodecMocks.Outline

open CodecMocks.Layout CodecMocks.Mock CodecMocks.Naming

/-- The lines by which members continue a block that is empty or has lines already. -/
def continuation (fresh : Bool) (members : List (List CodeText)) : List CodeText :=
  if fresh then [("" : CodeText)].intercalate members else members.flatMap (("" : CodeText) :: ·)

theorem intercalate_blank_cons (m : List CodeText) (ms : List (List CodeText)) :
    [("" : CodeText)].intercalate (m :: ms) = m ++ ms.flatMap (("" : CodeText) :: ·) := by
  induction ms generalizing m with
  | nil => simp [List.intercalate_singleton]
  | cons n ns ih =>
    rw [List.intercalate_cons_cons, ih n, List.flatMap_cons]
    simp

theorem addMember_eq_write (o : Outline) (m : List CodeText) :
    o.addMember m = o.write (o.gap ++ m) :=
  write_write o o.gap m

theorem addMembers_append (o : Outline) (ms ns : List (List CodeText)) :
    o.addMembers (ms ++ ns) = (o.addMembers ms).addMembers ns :=
  List.foldl_append

@[simp] theorem reserved_addMembers (o : Outline) (ms : List (List CodeText)) :
    (o.addMembers ms).current.reserved = o.current.reserved := by
  induction ms generalizing o with
  | nil => rfl
  | cons m ms ih => exact ih (o.addMember m)

/-- Members that are written one after the other are one run of lines. -/
theorem addMembers_eq_write (o : Outline) {ms : List (List CodeText)} (h : ∀ m ∈ ms, m ≠ []) :
    o.addMembers ms = o.write (continuation o.lines.isEmpty ms) := by
  induction ms generalizing o with
  | nil => cases hfresh : o.lines.isEmpty <;> simp [addMembers, continuation]
  | cons m ms ih =>
    have hm : m ≠ [] := h m List.mem_cons_self
    have hlines : (o.addMember m).lines.isEmpty = false := by
      simp [addMember_eq_write, hm]
    have hrest : (o.addMember m).addMembers ms =
        (o.addMember m).write (ms.flatMap (("" : CodeText) :: ·)) := by
      rw [ih _ fun n hn => h n (List.mem_cons_of_mem m hn), hlines]
      rfl
    show (o.addMember m).addMembers ms = _
    rw [hrest, addMember_eq_write, write_write]
    cases hfresh : o.lines.isEmpty with
    | true => simp [gap, hfresh, continuation, intercalate_blank_cons]
    | false => simp [gap, hfresh, continuation]

theorem addProperties_eq_addMembers (o : Outline) (ps : List Property) :
    o.addProperties ps = o.addMembers (ps.flatMap Property.members) := by
  induction ps generalizing o with
  | nil => rfl
  | cons p ps ih =>
    rw [List.flatMap_cons, addMembers_append]
    exact ih (o.addProperty p)

/-! ### Leaving a class -/

/-- The lines that a block of members hands to the block around it: `pass` stands in for them only
where there is no member. -/
theorem body_of_members {o : Outline} {ms : List (List CodeText)} (h : ∀ m ∈ ms, IsMember m)
    (hlines : o.lines = ([("" : CodeText)].intercalate ms).map (indented o.depth)) :
    o.body = (blockLines ms).map (indented o.depth) := by
  cases ms with
  | nil =>
    have hnone : o.lines = [] := hlines
    simp [Outline.body, hnone, blockLines, indented]
  | cons m ms =>
    obtain ⟨first, rest, rfl, hfirst⟩ := h m List.mem_cons_self
    have hsome : o.lines.any (fun line => !line.isEmpty) = true := by
      rw [hlines, intercalate_blank_cons]
      simp [indented_ne_empty o.depth hfirst]
    rw [Outline.body, if_pos hsome, hlines]
    rfl

theorem leave_of_enclosing {inner outer : Outline}
    (h : inner.enclosing = outer.current :: outer.enclosing) :
    inner.leave =
      { outer with current := { outer.current with lines := outer.lines ++ inner.body } } := by
  obtain ⟨current, enclosing⟩ := inner
  subst h
  rfl

/-- To open a class, write its members and leave it is to write one member, the printed class. -/
theorem leave_addMembers_openClass (o : Outline) (typeName base : CodeText) (names : List CodeText)
    {ms : List (List CodeText)} (h : ∀ m ∈ ms, IsMember m) :
    (((o.openClass typeName base).reserve names).addMembers ms).leave =
      o.addMember (classLines typeName base ms) := by
  let inside := ((o.openClass typeName base).reserve names).addMembers ms
  let heading := classHeading (mockName typeName) [.plain base]
  have hwrite : inside = ((o.openClass typeName base).reserve names).write
      (continuation true ms) :=
    addMembers_eq_write _ fun m hm => (h m hm).ne_nil
  have hdepth : inside.depth = o.depth + 1 := by
    simp [hwrite]
  have hbody : inside.body = (blockLines ms).map (indented (o.depth + 1)) := by
    rw [← hdepth]
    exact body_of_members h (by rw [hwrite]; rfl)
  have henclosing : inside.enclosing =
      (o.addMember [heading]).current :: (o.addMember [heading]).enclosing := by
    simp [inside, heading, reserve, openClass, openBlock, enter]
  rw [leave_of_enclosing henclosing, hbody]
  simp [addMember_eq_write, write, Outline.lines, classLines, heading, Function.comp_def]

end CodecMocks.Outline

namespace CodecMocks.Mock

open CodecMocks.Layout CodecMocks.Naming

/-- A module is made exactly if its class can be left and the draft can be rendered then. -/
theorem moduleOf_eq_ok_iff {package typeName : CodeText} {fill : Outline → Outline}
    {m : MockModule} :
    moduleOf package typeName fill = .ok m ↔
      ∃ finished : Draft,
        Draft.leave { package, outline := fill ((Outline.root "").openClass typeName typeName) } =
          .ok finished ∧
        finished.render = .ok m.text ∧ m.name = mockName typeName := by
  dsimp only [moduleOf]
  generalize
    Draft.leave { package, outline := fill ((Outline.root "").openClass typeName typeName) } = left
  cases left with
  | error e =>
    constructor
    · intro h
      cases h
    · rintro ⟨finished, hfinished, -⟩
      cases hfinished
  | ok finished =>
    change (finished.render.mapError ModuleError.draft >>=
      fun text => pure { name := mockName typeName, text }) = .ok m ↔ _
    cases hrender : finished.render with
    | error e =>
      constructor
      · intro h
        cases h
      · rintro ⟨same, hsame, hrendered, -⟩
        cases hsame
        rw [hrender] at hrendered
        cases hrendered
    | ok text =>
      constructor
      · intro h
        cases h
        exact ⟨finished, rfl, hrender, rfl⟩
      · rintro ⟨same, hsame, hrendered, hname⟩
        cases hsame
        rw [hrender] at hrendered
        cases hrendered
        rw [← hname]
        rfl

/-- A module whose class is filled with the members of a body is always made, and it is the printed
module of that body. -/
theorem moduleOf_eq_classModule {package typeName : CodeText} {fill : Outline → Outline}
    {body : ClassBody}
    (h : fill ((Outline.root "").openClass typeName typeName) =
      ((Outline.root "").openClass typeName typeName).addMembers body.members) :
    moduleOf package typeName fill = .ok (classModule package (.plain typeName body)) := by
  have hopen : (((Outline.root "").openClass typeName typeName).addMembers body.members).isRoot =
      false := by
    rw [Outline.isRoot, Outline.enclosing_addMembers]
    rfl
  have hleave : (((Outline.root "").openClass typeName typeName).addMembers body.members).leave =
      (Outline.root "").addMember (classLines typeName typeName body.members) :=
    Outline.leave_addMembers_openClass _ _ _ [] fun _ hm => ClassBody.isMember_of_mem hm
  have hlines : ((Outline.root "").addMember (classLines typeName typeName body.members)).lines =
      classLines typeName typeName body.members := by
    rw [Outline.addMember_eq_write, Outline.lines_write]
    exact map_indented_zero _
  rw [moduleOf_eq_ok_iff, h]
  refine ⟨_, Draft.leave_of_not_isRoot hopen, ?_, rfl⟩
  rw [Draft.render_of_isRoot (by rw [hleave]; rfl), hleave]
  simp only [Draft.lines, hlines]
  rfl

/-! ### Where a class is printed -/

theorem infix_flatMap_blank {ms : List (List CodeText)} {m : List CodeText} (h : m ∈ ms) :
    m <:+: ms.flatMap (("" : CodeText) :: ·) := by
  obtain ⟨before, after, rfl⟩ := List.append_of_mem h
  refine ⟨before.flatMap (("" : CodeText) :: ·) ++ [("" : CodeText)],
    after.flatMap (("" : CodeText) :: ·), ?_⟩
  simp

theorem infix_blockLines {ms : List (List CodeText)} {m : List CodeText} (h : m ∈ ms) :
    m <:+: blockLines ms := by
  cases ms with
  | nil => cases h
  | cons first rest =>
    show m <:+: [("" : CodeText)].intercalate (first :: rest)
    rw [Outline.intercalate_blank_cons]
    rcases List.mem_cons.mp h with rfl | h
    · exact (List.prefix_append _ _).isInfix
    · exact (infix_flatMap_blank h).trans (List.suffix_append _ _).isInfix

/-- A member of a class is printed in the class, indented once. -/
theorem MockClass.infix_lines (k : MockClass) {m : List CodeText} (h : m ∈ k.members) :
    m.map (indented 1) <:+: k.lines :=
  ((infix_blockLines h).map (indented 1)).trans (List.suffix_cons _ _).isInfix

theorem ClassBody.exists_member_of_mem_classes {body : ClassBody} {declared : MockClass}
    (h : declared ∈ body.classes) :
    ∃ m ∈ body.members, ∃ depth, declared.lines.map (indented depth) <:+: m := by
  induction body with
  | nil => cases h
  | property p next ih =>
    obtain ⟨m, hm, hlines⟩ := ih h
    exact ⟨m, List.mem_append_right _ hm, hlines⟩
  | group typeName base inner next ihInner ihNext =>
    let group : MockClass := { typeName, base, isGroup := true, body := inner }
    rcases List.mem_cons.mp h with rfl | h
    · refine ⟨group.lines, List.mem_cons_self, 0, [], [], ?_⟩
      rw [map_indented_zero, List.nil_append, List.append_nil]
    rcases List.mem_append.mp h with h | h
    · obtain ⟨m, hm, depth, hlines⟩ := ihInner h
      refine ⟨group.lines, List.mem_cons_self, 1 + depth, ?_⟩
      have hnested : (declared.lines.map (indented depth)).map (indented 1) <:+: group.lines :=
        (hlines.map (indented 1)).trans (group.infix_lines (List.mem_append_right _ hm))
      simpa only [List.map_map, Function.comp_def, indented_indented] using hnested
    · obtain ⟨m, hm, hlines⟩ := ihNext h
      exact ⟨m, List.mem_cons_of_mem _ hm, hlines⟩

/-- Every class of a group is printed in the class around it, at some indentation. -/
theorem MockClass.lines_infix_of_mem_all (k : MockClass) {declared : MockClass}
    (h : declared ∈ k.all) : ∃ depth, declared.lines.map (indented depth) <:+: k.lines := by
  rcases List.mem_cons.mp h with rfl | h
  · refine ⟨0, [], [], ?_⟩
    rw [map_indented_zero, List.nil_append, List.append_nil]
  · obtain ⟨m, hm, depth, hlines⟩ := ClassBody.exists_member_of_mem_classes h
    refine ⟨1 + depth, ?_⟩
    have hnested : (declared.lines.map (indented depth)).map (indented 1) <:+: k.lines :=
      (hlines.map (indented 1)).trans (k.infix_lines (List.mem_append_right _ hm))
    simpa only [List.map_map, Function.comp_def, indented_indented] using hnested

end CodecMocks.Mock
