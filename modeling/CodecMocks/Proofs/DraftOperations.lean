import CodecMocks.Proofs.PrintedText

/-!
# Operations on a draft

A draft is changed and rendered in any order, also where a change is refused and the next one is
tried. Whatever came before, an operation does one of four things to the outline: it opens a block,
finishes the current one, writes on in it, or leaves everything as it is.

* `BlockOpened`, `BlockLeft`, `BlockExtended`: what is added, and to which of the blocks. What the
  opened block holds and what the finished one adds is written out.
* `blockExtended_addMembers`: members, and so properties and whole groups, are added to the current
  block alone.
* `consistent`: what each operation does to any draft, and when it is refused.
* `depth_perform`: how the depth changes with an operation.
* `performAll_consistent`: both after any operations on an empty draft, so that the depth is always
  the number of blocks opened less the number of blocks left.
-/

namespace CodecMocks

open CodecMocks.Mock

/-- A block is opened. Its heading is added to the block that was written to, after a blank line if
that has lines already. -/
structure BlockOpened (heading : CodeText) (opened : Block) (before after : Outline) : Prop where
  current : after.current = opened
  enclosing : after.enclosing =
    { before.current with
      lines := before.lines ++ (if before.lines = [] then [] else [("" : CodeText)]) ++
        [movedIn before.depth heading] } :: before.enclosing

/-- The current block is finished. Its lines are added to the block around it, or `pass` at its
depth if all of them are empty. -/
structure BlockLeft (before after : Outline) : Prop where
  returns : ∃ parent, before.enclosing = parent :: after.enclosing ∧
    after.current = { parent with
      lines := parent.lines ++
        if ∀ line ∈ before.lines, line = "" then [margin before.depth ++ "pass"]
        else before.lines }

/-- The current block is written on. -/
structure BlockExtended (before after : Outline) : Prop where
  name : after.current.name = before.current.name
  lines : before.lines <+: after.lines
  enclosing : after.enclosing = before.enclosing

namespace Outline

theorem map_indented_gap (o : Outline) (depth : Nat) :
    o.gap.map (indented depth) = if o.lines = [] then [] else [("" : CodeText)] := by
  simp only [gap, List.isEmpty_iff]
  split <;> rfl

theorem blockOpened_openBlock (o : Outline) (name heading : CodeText) :
    BlockOpened heading { name } o (o.openBlock name heading) where
  current := rfl
  enclosing := by
    show (o.addMember [heading]).current :: o.enclosing = _
    rw [addMember_eq_write, write, List.map_append, map_indented_gap, ← List.append_assoc,
      indented_eq_movedIn]
    rfl

theorem blockOpened_openClass (o : Outline) (typeName base : CodeText) :
    BlockOpened ("class " ++ typeName ++ "Mock(" ++ base ++ "):") { name := typeName ++ "Mock" } o
      (o.openClass typeName base) := by
  rw [← classHeading_mockName]
  exact o.blockOpened_openBlock _ _

theorem blockExtended_addMember (o : Outline) (lines : List CodeText) :
    BlockExtended o (o.addMember lines) where
  name := rfl
  lines := (List.prefix_append _ _).trans (List.prefix_append _ _)
  enclosing := rfl

theorem blockExtended_addMembers (o : Outline) (members : List (List CodeText)) :
    BlockExtended o (o.addMembers members) := by
  induction members generalizing o with
  | nil => exact ⟨rfl, List.prefix_refl _, rfl⟩
  | cons m ms ih =>
    have hfirst := o.blockExtended_addMember m
    have hrest := ih (o.addMember m)
    exact ⟨hrest.name.trans hfirst.name, hfirst.lines.trans hrest.lines,
      hrest.enclosing.trans hfirst.enclosing⟩

theorem blockExtended_addProperties (o : Outline) (ps : List Mock.Property) :
    BlockExtended o (o.addProperties ps) := by
  rw [addProperties_eq_addMembers]
  exact o.blockExtended_addMembers _

/-- What the current block adds to the block around it. -/
theorem body_eq (o : Outline) :
    o.body = if ∀ line ∈ o.lines, line = "" then [margin o.depth ++ "pass"] else o.lines := by
  rw [body, indentation_eq_margin]
  by_cases hblank : ∀ line ∈ o.lines, line = ""
  · have hnone : o.lines.any (fun line => !line.isEmpty) = false := by
      simpa using hblank
    rw [if_pos hblank, hnone, if_neg Bool.false_ne_true]
  · have hsome : o.lines.any (fun line => !line.isEmpty) = true := by
      simpa using hblank
    rw [if_neg hblank, if_pos hsome]

theorem blockLeft_leave {o : Outline} (h : 0 < o.depth) : BlockLeft o o.leave := by
  obtain ⟨parent, rest, henclosing⟩ := List.exists_cons_of_length_pos h
  have hleave : o.leave =
      { current := { parent with lines := parent.lines ++ o.body }, enclosing := rest } := by
    let outer : Outline := { current := parent, enclosing := rest }
    exact @leave_of_enclosing o outer henclosing
  rw [hleave, body_eq]
  exact ⟨parent, henclosing, rfl⟩

end Outline

end CodecMocks

namespace CodecMocks.Mock

open CodecMocks.Layout CodecMocks.Naming CodecMocks.Schema

/-! ### Operations -/

/-- What is done to a draft: it is changed, or rendered. -/
inductive Operation where
  | edit (e : Edit)
  | render
deriving DecidableEq, Repr

/-- What an operation responds if it is not refused. -/
inductive Response where
  | answer (a : Answer)
  | text (s : CodeText)
deriving DecidableEq, Repr

/-- Groups are not read from a position that is counted from the end of their range. -/
def Operation.InRange : Operation → Prop
  | .edit (.groups _ index _) => 0 ≤ index
  | _ => True

/-- The draft after an operation, and the response. The draft stays as it is if the operation is
refused. -/
def Draft.perform (d : Draft) : Operation → Draft × Except DraftError Response
  | .edit e =>
    match d.apply e with
    | .ok (changed, a) => (changed, .ok (.answer a))
    | .error error => (d, .error error)
  | .render => (d, d.render.map .text)

/-- The draft after operations one after the other, and their responses. -/
def Draft.performAll (d : Draft) : List Operation → Draft × List (Except DraftError Response)
  | [] => (d, [])
  | operation :: rest =>
    let (after, response) := d.perform operation
    let (last, responses) := after.performAll rest
    (last, response :: responses)

/-- The edit opens a block. -/
def Edit.opens : Edit → Bool
  | .openBlock .. | .openClass .. | .openGroup .. => true
  | _ => false

/-- The heading and the block that an edit opens at a depth. Only the class of a group has lines
from the start, those of its cursor, and members whose names properties must not take. -/
inductive Opens (depth : Nat) : Edit → CodeText → Block → Prop where
  | block (name heading : CodeText) : Opens depth (.openBlock name heading) heading { name }
  | mockClass (typeName : CodeText) (base : Option CodeText) :
    Opens depth (.openClass typeName base)
      ("class " ++ typeName ++ "Mock(" ++ basePath typeName base ++ "):")
      { name := typeName ++ "Mock" }
  | groupClass (group parent : CodeText) :
    Opens depth (.openGroup group parent)
      ("class " ++ className group ++ "Mock(" ++ (parent ++ "." ++ className group) ++ "):")
      { name := className group ++ "Mock"
        lines := ([("" : CodeText)].intercalate
          (printedCursor (className group ++ "Mock") (parent ++ "." ++ className group))).map
            (movedIn depth)
        reserved := cursorMethods }

/-- The operation opens a block. -/
def Operation.opens : Operation → Bool
  | .edit e => e.opens
  | .render => false

/-- The operation left a block. -/
def leftBlock : Operation × Except DraftError Response → Bool
  | (.edit .leave, .ok _) => true
  | _ => false

/-- What each operation does to a draft. It is refused only where the outermost block would be left
or an open block rendered. -/
structure Consistent (d : Draft) : Prop where
  opened : ∀ e, e.opens = true → ∃ outline a heading block,
    d.perform (.edit e) = ({ d with outline }, .ok (.answer a)) ∧
      Opens (d.outline.depth + 1) e heading block ∧ BlockOpened heading block d.outline outline
  left : 0 < d.outline.depth → ∃ outline,
    d.perform (.edit .leave) = ({ d with outline }, .ok (.answer .nothing)) ∧
      BlockLeft d.outline outline
  leaveRefused : d.outline.depth = 0 → d.perform (.edit .leave) = (d, .error .leavesRoot)
  rendered : d.outline.depth = 0 →
    d.perform .render = (d, .ok (.text (CodeText.intercalate "\n" d.lines ++ "\n")))
  renderRefused : 0 < d.outline.depth → d.perform .render = (d, .error .blockOpen)
  extended : ∀ e, e.opens = false → e ≠ .leave → (Operation.edit e).InRange → ∃ outline a,
    d.perform (.edit e) = ({ d with outline }, .ok (.answer a)) ∧
      BlockExtended d.outline outline

/-- The class of a group is opened with its cursor in it. -/
theorem blockOpened_openGroup (o : Outline) (group parent : CodeText) :
    ∃ heading block, Opens (o.depth + 1) (.openGroup group parent) heading block ∧
      BlockOpened heading block o (o.openGroup (GroupNames.of group parent)) := by
  refine ⟨_, _, .groupClass group parent, ?_⟩
  have hopened := o.blockOpened_openClass (className group) (parent ++ "." ++ className group)
  have hcursor : o.openGroup (GroupNames.of group parent) =
      ((o.openClass (className group) (parent ++ "." ++ className group)).reserve
        cursorNames).write (Outline.continuation true
          (printedCursor (className group ++ "Mock") (parent ++ "." ++ className group))) := by
    rw [← cursorMembers_eq_printedCursor]
    exact Outline.addMembers_eq_write _ fun _ hm => (isMember_of_mem_cursorMembers hm).ne_nil
  rw [hcursor]
  refine ⟨?_, hopened.enclosing⟩
  rw [← indented_eq_movedIn]
  rfl

/-- Groups that are not read from before their range are added to the current block. -/
theorem exists_addGroupsAt (o : Outline) (parent : CodeText) (tokens : List Token) {index : Int}
    (h : 0 ≤ index) :
    ∃ outline stop, o.addGroupsAt parent tokens index = .ok (outline, stop) ∧
      BlockExtended o outline := by
  rw [Outline.addGroupsAt]
  by_cases hend : (tokens.length : Int) ≤ index
  · rw [if_pos hend]
    exact ⟨o, index, rfl, rfl, List.prefix_refl _, rfl⟩
  · rw [if_neg hend, window_of_nonneg h]
    refine ⟨o.addForest parent (GroupForest.read (tokens.drop index.toNat)).1, _, rfl, ?_⟩
    rw [Outline.addForest_eq_addMembers]
    exact o.blockExtended_addMembers _

theorem consistent (d : Draft) : Consistent d where
  opened := by
    intro e h
    cases e with
    | openBlock name heading =>
      exact ⟨_, _, _, _, rfl, .block name heading, d.outline.blockOpened_openBlock name heading⟩
    | openClass typeName base =>
      exact ⟨_, _, _, _, rfl, .mockClass typeName base, d.outline.blockOpened_openClass typeName _⟩
    | openGroup group parent =>
      obtain ⟨heading, block, hopens, hopened⟩ := blockOpened_openGroup d.outline group parent
      exact ⟨_, _, heading, block, rfl, hopens, hopened⟩
    | _ => cases h
  left := by
    intro hdepth
    have hnot : d.outline.isRoot = false := by
      rw [Bool.eq_false_iff, Ne, Outline.isRoot_iff]
      omega
    refine ⟨d.outline.leave, ?_, Outline.blockLeft_leave hdepth⟩
    rw [Draft.perform, Draft.apply, Draft.leave_of_not_isRoot hnot]
    rfl
  leaveRefused := by
    intro hdepth
    rw [Draft.perform, Draft.apply, Draft.leave, if_pos (Outline.isRoot_iff.mpr hdepth)]
    rfl
  rendered := by
    intro hdepth
    rw [Draft.perform, Draft.render_of_isRoot (Outline.isRoot_iff.mpr hdepth)]
    rfl
  renderRefused := by
    intro hdepth
    have hnot : ¬d.outline.isRoot = true := by
      rw [Outline.isRoot_iff]
      omega
    rw [Draft.perform, Draft.render, if_neg hnot]
    rfl
  extended := by
    intro e hopens hleave hrange
    cases e with
    | leave => exact absurd rfl hleave
    | reserve names => exact ⟨_, _, rfl, rfl, List.prefix_refl _, rfl⟩
    | property p => exact ⟨_, _, rfl, d.outline.blockExtended_addMembers _⟩
    | primitive => exact ⟨_, _, rfl, d.outline.blockExtended_addProperties _⟩
    | fields => exact ⟨_, _, rfl, d.outline.blockExtended_addProperties _⟩
    | composite => exact ⟨_, _, rfl, d.outline.blockExtended_addProperties _⟩
    | choices => exact ⟨_, _, rfl, d.outline.blockExtended_addProperties _⟩
    | groups tokens index parent =>
      obtain ⟨outline, stop, hgroups, hextended⟩ :=
        exists_addGroupsAt d.outline parent tokens hrange
      refine ⟨outline, .position stop, ?_, hextended⟩
      simp only [Draft.perform, Draft.apply, hgroups]
    | _ => cases hopens

/-! ### The depth -/

/-- An operation changes the outline only. One that opens a block adds one to the depth, one that
leaves a block takes one off. -/
theorem depth_perform (d : Draft) {operation : Operation} (h : operation.InRange) :
    ∃ outline, (d.perform operation).1 = { d with outline } ∧
      outline.depth + (if leftBlock (operation, (d.perform operation).2) then 1 else 0) =
        d.outline.depth + if operation.opens then 1 else 0 := by
  have hd := consistent d
  cases operation with
  | render => exact ⟨d.outline, rfl, rfl⟩
  | edit e =>
    cases hopens : e.opens with
    | true =>
      obtain ⟨outline, a, heading, block, hperform, -, hopened⟩ := hd.opened e hopens
      have hleft : leftBlock (.edit e, (d.perform (.edit e)).2) = false := by
        cases e <;> first | rfl | cases hopens
      refine ⟨outline, congrArg Prod.fst hperform, ?_⟩
      simp [hleft, Operation.opens, hopens, Outline.depth, hopened.enclosing]
    | false =>
      by_cases hleave : e = .leave
      · subst hleave
        rcases Nat.eq_zero_or_pos d.outline.depth with hroot | hdepth
        · rw [hd.leaveRefused hroot]
          exact ⟨d.outline, rfl, rfl⟩
        · obtain ⟨outline, hperform, ⟨parent, henclosing, -⟩⟩ := hd.left hdepth
          refine ⟨outline, congrArg Prod.fst hperform, ?_⟩
          rw [hperform]
          simp [leftBlock, Operation.opens, Edit.opens, Outline.depth, henclosing]
      · obtain ⟨outline, a, hperform, hextended⟩ := hd.extended e hopens hleave h
        have hleft : leftBlock (.edit e, (d.perform (.edit e)).2) = false := by
          cases e <;> first | rfl | exact absurd rfl hleave
        refine ⟨outline, congrArg Prod.fst hperform, ?_⟩
        simp [hleft, Operation.opens, hopens, Outline.depth, hextended.enclosing]

theorem performAll_cons (d : Draft) (operation : Operation) (rest : List Operation) :
    d.performAll (operation :: rest) =
      (((d.perform operation).1.performAll rest).1,
        (d.perform operation).2 :: ((d.perform operation).1.performAll rest).2) := rfl

/-- Each operation responds once, and the depth follows the blocks that are opened and left. -/
theorem depth_performAll (d : Draft) {operations : List Operation}
    (h : ∀ operation ∈ operations, operation.InRange) :
    (d.performAll operations).2.length = operations.length ∧
      (d.performAll operations).1.package = d.package ∧
      (d.performAll operations).1.outline.depth +
          (operations.zip (d.performAll operations).2).countP leftBlock =
        d.outline.depth + operations.countP Operation.opens := by
  induction operations generalizing d with
  | nil => exact ⟨rfl, rfl, rfl⟩
  | cons operation rest ih =>
    obtain ⟨hoperation, hrest⟩ := List.forall_mem_cons.mp h
    obtain ⟨outline, hafter, hstep⟩ := depth_perform d hoperation
    obtain ⟨hlength, hpackage, hdepth⟩ := ih { d with outline } hrest
    rw [performAll_cons, hafter]
    refine ⟨congrArg Nat.succ hlength, hpackage, ?_⟩
    rw [List.zip_cons_cons, List.countP_cons, List.countP_cons]
    dsimp only at hdepth ⊢
    omega

/-- **Blocks are kept in order whatever is done.** After any operations on an empty draft, with
refused ones among them, the depth is the number of blocks opened less the number of blocks left,
and each operation does to the draft what it should. -/
theorem performAll_consistent (package : CodeText) {operations : List Operation}
    (h : ∀ operation ∈ operations, operation.InRange) :
    let ran := Draft.performAll { package } operations
    ran.2.length = operations.length ∧ ran.1.package = package ∧
      ran.1.outline.depth + (operations.zip ran.2).countP leftBlock =
        operations.countP Operation.opens ∧
      Consistent ran.1 := by
  intro ran
  obtain ⟨hlength, hpackage, hdepth⟩ := depth_performAll { package } h
  refine ⟨hlength, hpackage, ?_, consistent _⟩
  rw [hdepth]
  exact Nat.zero_add _

/-- Operations of which three are refused: a block is left and a draft rendered too early, and a
block is left once too often. -/
def strayOperations : List Operation :=
  [.edit .leave, .edit (.openClass "Car" none), .render, .edit (.openGroup "doors" "Car"),
   .edit (.groups [⟨.endField, "x", none⟩, ⟨.beginGroup, "locks", none⟩] 0 "Car.Doors"),
   .edit .leave, .edit .leave, .edit .leave, .render]

theorem strayOperations_consistent :
    (∀ operation ∈ strayOperations, operation.InRange) ∧
      (Draft.performAll { package := "n" } strayOperations).1.outline.depth = 0 ∧
      Consistent (Draft.performAll { package := "n" } strayOperations).1 := by
  have hrange : ∀ operation ∈ strayOperations, operation.InRange := by
    simp [strayOperations, Operation.InRange]
  obtain ⟨-, -, hdepth, hconsistent⟩ := performAll_consistent "n" hrange
  have hopened : strayOperations.countP Operation.opens = 2 := rfl
  have hleft : (strayOperations.zip
      (Draft.performAll { package := "n" } strayOperations).2).countP leftBlock = 2 := by
    decide +kernel
  rw [hleft, hopened] at hdepth
  exact ⟨hrange, Nat.add_right_cancel hdepth, hconsistent⟩

end CodecMocks.Mock
