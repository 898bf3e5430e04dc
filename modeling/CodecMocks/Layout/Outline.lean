import CodecMocks.Text.CodeText

/-!
# Outlines

Source text is written into nested blocks. An outline holds the block that is written to and the
blocks around it, each with the lines it has so far; the lines of a block are indented to its depth
when they are written, so that a finished block is added to the block around it as it is.
-/

namespace CodecMocks

/-- A block of lines. `reserved` holds the member names that properties of the block must not
take. -/
structure Block where
  name : CodeText
  lines : List CodeText := []
  reserved : List CodeText := []
deriving DecidableEq, Repr

/-- The block that is written to and the blocks around it, the innermost first. -/
structure Outline where
  current : Block
  enclosing : List Block := []
deriving DecidableEq, Repr

/-- The outline that a text starts with: one empty block. -/
def Outline.root (name : CodeText) : Outline :=
  { current := { name } }

/-- The indentation of a line at a depth. -/
def indentation (depth : Nat) : CodeText :=
  .ofList (List.replicate (4 * depth) ' ')

/-- A line at a depth; an empty line stays empty. -/
def indented (depth : Nat) (line : CodeText) : CodeText :=
  if line.isEmpty then "" else indentation depth ++ line

theorem toList_indentation (depth : Nat) :
    (indentation depth).toList = List.replicate (4 * depth) (.ofChar ' ') :=
  rfl

@[simp] theorem indented_empty (depth : Nat) : indented depth "" = "" := rfl

@[simp] theorem indented_zero (line : CodeText) : indented 0 line = line := by
  unfold indented
  split
  · next h => exact (CodeText.isEmpty_iff.mp h).symm
  · exact CodeText.empty_append line

@[simp] theorem map_indented_zero (lines : List CodeText) : lines.map (indented 0) = lines :=
  List.map_id'' indented_zero lines

theorem indented_of_ne_empty (depth : Nat) {line : CodeText} (h : line ≠ "") :
    indented depth line = indentation depth ++ line := by
  simp [indented, h]

theorem indented_ne_empty (depth : Nat) {line : CodeText} (h : line ≠ "") :
    indented depth line ≠ "" := by
  rw [indented_of_ne_empty depth h]
  simp [h]

/-- Indentation adds up. -/
@[simp] theorem indented_indented (outer inner : Nat) (line : CodeText) :
    indented outer (indented inner line) = indented (outer + inner) line := by
  by_cases h : line = ""
  · subst h
    rfl
  · rw [indented_of_ne_empty outer (indented_ne_empty inner h), indented_of_ne_empty inner h,
      indented_of_ne_empty _ h, ← CodeText.toList_inj]
    simp [toList_indentation, ← List.append_assoc, Nat.mul_add]

namespace Outline

/-- How many blocks are around the current one. -/
def depth (o : Outline) : Nat :=
  o.enclosing.length

/-- The current block is the outermost one. -/
def isRoot (o : Outline) : Bool :=
  o.enclosing.isEmpty

/-- The lines of the current block. -/
def lines (o : Outline) : List CodeText :=
  o.current.lines

/-- The names of the blocks from the outermost to the current one. -/
def trace (o : Outline) : List CodeText :=
  (o.current :: o.enclosing).reverse.map Block.name

/-- Write lines into the current block. -/
def write (o : Outline) (lines : List CodeText) : Outline :=
  { o with current :=
      { o.current with lines := o.current.lines ++ lines.map (indented o.depth) } }

/-- Start a block inside the current one and continue there. -/
def enter (o : Outline) (name : CodeText) : Outline :=
  { current := { name }, enclosing := o.current :: o.enclosing }

/-- Set the member names that properties of the current block must not take. -/
def reserve (o : Outline) (names : List CodeText) : Outline :=
  { o with current := { o.current with reserved := names } }

/-- What the current block adds to the block around it: its lines, or `pass` if they are all
empty. -/
def body (o : Outline) : List CodeText :=
  if o.lines.any (fun line => !line.isEmpty) then o.lines else [indentation o.depth ++ "pass"]

/-- Continue in the block around the current one; the outermost block is not left. -/
def ascend (o : Outline) : Outline :=
  match o.enclosing with
  | [] => o
  | outer :: rest => { current := outer, enclosing := rest }

/-- Add what the current block holds to the block around it, without leaving it. -/
def deposit (o : Outline) : Outline :=
  match o.enclosing with
  | [] => o
  | outer :: rest =>
    { o with enclosing := { outer with lines := outer.lines ++ o.body } :: rest }

/-- Finish the current block and continue in the block around it. -/
def leave (o : Outline) : Outline :=
  o.deposit.ascend

/-- Why a block cannot be added to the one around it: it is the outermost block of this name. -/
structure NoOuterBlock where
  name : CodeText
deriving DecidableEq, Repr

/-- The wording. -/
def NoOuterBlock.message (e : NoOuterBlock) : CodeText :=
  "The scope '" ++ e.name ++ "' has no parent to return to."

/-- Add what the current block holds to the block around it, if there is one. -/
def deposit? (o : Outline) : Except NoOuterBlock Outline :=
  if o.isRoot then .error ⟨o.current.name⟩ else .ok o.deposit

@[simp] theorem depth_root (name : CodeText) : (root name).depth = 0 := rfl

@[simp] theorem depth_write (o : Outline) (lines : List CodeText) :
    (o.write lines).depth = o.depth := rfl

@[simp] theorem depth_enter (o : Outline) (name : CodeText) :
    (o.enter name).depth = o.depth + 1 := rfl

@[simp] theorem depth_reserve (o : Outline) (names : List CodeText) :
    (o.reserve names).depth = o.depth := rfl

@[simp] theorem depth_leave (o : Outline) : o.leave.depth = o.depth - 1 := by
  obtain ⟨current, enclosing⟩ := o
  cases enclosing <;> simp [leave, deposit, ascend, depth]

@[simp] theorem write_nil (o : Outline) : o.write [] = o := by
  simp [write]

@[simp] theorem write_write (o : Outline) (first second : List CodeText) :
    (o.write first).write second = o.write (first ++ second) := by
  simp [write, depth]

@[simp] theorem lines_write (o : Outline) (lines : List CodeText) :
    (o.write lines).lines = o.lines ++ lines.map (indented o.depth) := rfl

theorem isRoot_iff {o : Outline} : o.isRoot = true ↔ o.depth = 0 := by
  simp [isRoot, depth, List.isEmpty_iff]

end Outline

end CodecMocks
