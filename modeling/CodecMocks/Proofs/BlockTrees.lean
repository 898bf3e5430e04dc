import CodecMocks.Layout.Outline

/-!
# Outlines of trees of blocks

What an outline is used for is to write a tree: blocks that hold lines and other blocks. The tree is
walked in order. A block is entered, its lines are written in as many portions as one likes, and it
is finished once. Lines are indented when they are written and are moved outwards when their block
is finished. A body of nothing but empty lines is dropped then, and `pass` is moved instead. The
outcome is the tree printed by recursion.

* `BlockTree.render`: the printer, with the depth as a parameter and without any open block.
* `Walks`: the ways to walk a tree.
* `any_render`: a body has no line but empty ones only if it has no block in it.
* `performAll_of_walks`: a walk adds the printed tree to the current block and leaves all blocks
  around it as they are.
* `walks_rendered`: the outermost block after a walk, and what happens when it is finished itself.
-/

namespace CodecMocks

/-- The content of a block in order: lines, and blocks with a content of their own. -/
inductive BlockTree where
  | nil
  | line (text : CodeText) (next : BlockTree)
  | block (name : CodeText) (content next : BlockTree)
deriving DecidableEq, Repr

/-- Four spaces for each level of depth. -/
def margin (depth : Nat) : CodeText :=
  CodeText.ofList (List.replicate (4 * depth) ' ')

namespace BlockTree

/-- Lines before other content. -/
def withLines (lines : List CodeText) (next : BlockTree) : BlockTree :=
  lines.foldr .line next

/-- There is no block in the content, and all its lines are empty. -/
def isBlank : BlockTree → Bool
  | .nil => true
  | .line text next => text == "" && next.isBlank
  | .block .. => false

/-- The lines of the content at a depth. A line that is not empty stands behind the margin; a block
is printed one level deeper, as `pass` if it is blank. -/
def render (depth : Nat) : BlockTree → List CodeText
  | .nil => []
  | .line text next =>
    (if text = "" then ("" : CodeText) else margin depth ++ text) :: next.render depth
  | .block _ content next =>
    (if content.isBlank then [margin (depth + 1) ++ "pass"] else content.render (depth + 1)) ++
      next.render depth

end BlockTree

/-! ### Walks -/

/-- A step of a walk. -/
inductive WalkStep where
  /-- Enter a new block inside of the current one. -/
  | push (name : CodeText)
  /-- Write a portion of lines. -/
  | add (lines : List CodeText)
  /-- Add the current block to the one around it and go on there. -/
  | close
deriving DecidableEq, Repr

/-- Take a step. -/
def Outline.perform (o : Outline) : WalkStep → Except Outline.NoOuterBlock Outline
  | .push name => .ok (o.enter name)
  | .add lines => .ok (o.write lines)
  | .close => o.deposit?.map Outline.ascend

/-- Take steps in order, up to the first that is refused. -/
def Outline.performAll (o : Outline) (steps : List WalkStep) :
    Except Outline.NoOuterBlock Outline :=
  steps.foldlM Outline.perform o

/-- The steps walk through a tree: its lines are written in order in portions of any size, each of
its blocks is entered, walked through and closed once. -/
inductive Walks : List WalkStep → BlockTree → Prop where
  | done : Walks [] .nil
  | add {steps : List WalkStep} {next : BlockTree} (lines : List CodeText)
      (hnext : Walks steps next) : Walks (.add lines :: steps) (next.withLines lines)
  | block {inner steps : List WalkStep} {content next : BlockTree} (name : CodeText)
      (hcontent : Walks inner content) (hnext : Walks steps next) :
      Walks (.push name :: (inner ++ .close :: steps)) (.block name content next)

/-- Every tree can be walked through. -/
theorem exists_walks (tree : BlockTree) : ∃ steps, Walks steps tree := by
  induction tree with
  | nil => exact ⟨[], .done⟩
  | line text next ih =>
    obtain ⟨steps, hnext⟩ := ih
    exact ⟨_, .add [text] hnext⟩
  | block name content next ihContent ihNext =>
    obtain ⟨inner, hcontent⟩ := ihContent
    obtain ⟨steps, hnext⟩ := ihNext
    exact ⟨_, .block name hcontent hnext⟩

/-! ### Printed lines -/

theorem indentation_eq_margin (depth : Nat) : indentation depth = margin depth := by
  rw [← CodeText.toList_inj, toList_indentation, margin, CodeText.toList_ofList]

theorem indented_eq_margin (depth : Nat) (text : CodeText) :
    indented depth text = if text = "" then ("" : CodeText) else margin depth ++ text := by
  split
  · next h =>
    rw [h]
    rfl
  · next h => rw [indented_of_ne_empty depth h, indentation_eq_margin]

namespace BlockTree

theorem render_withLines (depth : Nat) (lines : List CodeText) (next : BlockTree) :
    (next.withLines lines).render depth = lines.map (indented depth) ++ next.render depth := by
  induction lines with
  | nil => rfl
  | cons line lines ih =>
    show (if line = "" then ("" : CodeText) else margin depth ++ line) ::
      (next.withLines lines).render depth = _
    rw [ih, ← indented_eq_margin]
    rfl

/-- A printed block has a line that is not empty, so a body that holds one is not blank. -/
theorem any_render (depth : Nat) (tree : BlockTree) :
    (tree.render depth).any (fun line => !line.isEmpty) = !tree.isBlank := by
  induction tree generalizing depth with
  | nil => rfl
  | line text next ih =>
    rw [render, List.any_cons, ih, isBlank]
    by_cases htext : text = ""
    · rw [if_pos htext, htext]
      rfl
    · rw [if_neg htext, beq_false_of_ne htext, Bool.false_and]
      simp [htext]
  | block name content next ihContent _ =>
    have hblock : (if content.isBlank then [margin (depth + 1) ++ "pass"]
        else content.render (depth + 1)).any (fun line => !line.isEmpty) = true := by
      split
      · simp
      · next hcontent => rw [ihContent, Bool.eq_false_iff.mpr hcontent, Bool.not_false]
    rw [render, List.any_append, hblock, Bool.true_or]
    rfl

end BlockTree

/-! ### What a walk writes -/

namespace Outline

/-- The outline with lines added to its current block as they are. -/
def extend (o : Outline) (lines : List CodeText) : Outline :=
  { o with current := { o.current with lines := o.lines ++ lines } }

theorem extend_nil (o : Outline) : o.extend [] = o := by
  simp [extend, Outline.lines]

theorem extend_extend (o : Outline) (first second : List CodeText) :
    (o.extend first).extend second = o.extend (first ++ second) := by
  simp [extend, Outline.lines]

/-- A block in which a tree has been written is closed as the printed block. -/
theorem perform_close_enter (o : Outline) (name : CodeText) (content : BlockTree) :
    ((o.enter name).extend (content.render (o.depth + 1))).perform .close =
      .ok (o.extend ((BlockTree.block name content .nil).render o.depth)) := by
  have hbody : ((o.enter name).extend (content.render (o.depth + 1))).body =
      (BlockTree.block name content .nil).render o.depth := by
    have hany := content.any_render (o.depth + 1)
    rw [BlockTree.render, BlockTree.render, List.append_nil, Outline.body]
    show (if (content.render (o.depth + 1)).any (fun line => !line.isEmpty) = true then
      content.render (o.depth + 1) else [indentation (o.depth + 1) ++ "pass"]) = _
    rw [hany, indentation_eq_margin]
    cases content.isBlank <;> rfl
  rw [← hbody]
  rfl

/-- **A walk writes the printed tree.** Whatever block it starts in, it ends there, no step of it is
refused, and the blocks around are left as they are. -/
theorem performAll_of_walks {steps : List WalkStep} {tree : BlockTree} (h : Walks steps tree)
    (o : Outline) : o.performAll steps = .ok (o.extend (tree.render o.depth)) := by
  induction h generalizing o with
  | done => rw [BlockTree.render, extend_nil]; rfl
  | @add steps next lines _ ih =>
    show (o.write lines).performAll steps = _
    rw [ih, BlockTree.render_withLines, ← extend_extend]
    rfl
  | @block inner steps content next name _ _ ihContent ihNext =>
    have hinner : (o.enter name).performAll inner =
        .ok ((o.enter name).extend (content.render (o.depth + 1))) := ihContent (o.enter name)
    have hblock : (BlockTree.block name content next).render o.depth =
        (BlockTree.block name content .nil).render o.depth ++ next.render o.depth := by
      rw [BlockTree.render, BlockTree.render, BlockTree.render, List.append_nil]
    calc o.performAll (.push name :: (inner ++ .close :: steps))
      _ = (o.enter name).performAll (inner ++ .close :: steps) := rfl
      _ = (o.enter name).performAll inner >>= fun filled =>
            filled.performAll (.close :: steps) := List.foldlM_append
      _ = ((o.enter name).extend (content.render (o.depth + 1))).perform .close >>= fun closed =>
            closed.performAll steps := by
          rw [hinner]
          rfl
      _ = (o.extend ((BlockTree.block name content .nil).render o.depth)).performAll steps := by
          rw [perform_close_enter]
          rfl
      _ = .ok (o.extend ((BlockTree.block name content next).render o.depth)) := by
          rw [ihNext, hblock, ← extend_extend]
          rfl

end Outline

/-- **An outline prints the tree that is walked through.** Every tree can be walked through. A walk,
whatever the portions are in which it writes the lines, leaves the outermost block with the printed
tree; in any other block it adds the printed tree to the lines there. The outermost block cannot be
closed, and nothing changes when this is tried. -/
theorem walks_rendered :
    (∀ tree, ∃ steps, Walks steps tree) ∧
    (∀ steps tree, Walks steps tree →
      (∀ name, (Outline.root name).performAll steps =
        .ok { current := { name, lines := tree.render 0 } }) ∧
      ∀ o : Outline, o.performAll steps = .ok { o with current :=
        { o.current with lines := o.lines ++ tree.render o.depth } }) ∧
    ∀ o : Outline, o.isRoot = true →
      o.perform .close = .error ⟨o.current.name⟩ ∧ o.deposit = o ∧ o.ascend = o := by
  refine ⟨exists_walks, ?_, ?_⟩
  · intro steps tree h
    exact ⟨fun name => Outline.performAll_of_walks h (Outline.root name),
      Outline.performAll_of_walks h⟩
  · rintro ⟨current, enclosing⟩ hroot
    obtain rfl : enclosing = [] := List.isEmpty_iff.mp hroot
    exact ⟨rfl, rfl, rfl⟩

/-- A tree with empty lines in all places: a block that is blank, and one that holds another. -/
def spacedTree : BlockTree :=
  .line "a" (.line "" (.block "B"
    (.line "" (.block "C" (.line "" (.line "  c" .nil)) .nil))
    (.block "D" (.line "" (.line "" .nil)) (.line "e" .nil))))

/-- A walk through it that writes lines one by one, together and in a portion without lines. -/
def spacedWalk : List WalkStep :=
  [.add ["a", ""], .push "B", .add [("" : CodeText)], .push "C", .add [("" : CodeText)], .add [],
    .add ["  c"], .close,
    .close, .push "D", .add ["", ""], .close, .add ["e"]]

theorem spacedTree_rendered :
    Walks spacedWalk spacedTree ∧
      ∃ filled, (Outline.root "r").performAll spacedWalk = .ok filled ∧
        filled.lines = (["a", "", "", "", "          c", "    pass", "e"] : List CodeText) ∧
        filled.isRoot = true ∧ filled.perform .close = .error ⟨"r"⟩ ∧
        filled.deposit = filled := by
  have hwalks : Walks spacedWalk spacedTree :=
    .add ["a", ""] (.block "B"
      (.add [("" : CodeText)]
        (.block "C" (.add [("" : CodeText)] (.add [] (.add ["  c"] .done))) .done))
      (.block "D" (.add ["", ""] .done) (.add ["e"] .done)))
  have hlines : spacedTree.render 0 =
      (["a", "", "", "", "          c", "    pass", "e"] : List CodeText) := by
    decide +kernel
  let filled : Outline := { current := { name := "r", lines := spacedTree.render 0 } }
  obtain ⟨hrefused, hstays, -⟩ := walks_rendered.2.2 filled rfl
  exact ⟨hwalks, filled, (walks_rendered.2.1 _ _ hwalks).1 "r", hlines, rfl, hrefused, hstays⟩

end CodecMocks
