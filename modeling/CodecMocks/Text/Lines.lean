/-!
# Line ends and places in a text

`unifyLineEnds` gives every line end the form of a single line feed. A `Position` says where a
character of a text stands; characters count from zero, lines and columns from one.
-/

namespace CodecMocks.Text

/-- A carriage return, with or without a line feed after it, reads as a line feed. -/
def unifyLineEnds : List Char → List Char
  | [] => []
  | '\r' :: '\n' :: cs => '\n' :: unifyLineEnds cs
  | c :: cs => (if c == '\r' then '\n' else c) :: unifyLineEnds cs

/-- Where a character stands. -/
structure Position where
  line : Nat
  column : Nat
  index : Nat
deriving DecidableEq, Repr

/-- The place that follows the text `before`. -/
def Position.after (before : List Char) : Position where
  line := before.count '\n' + 1
  column := (before.reverse.takeWhile (· != '\n')).length + 1
  index := before.length

/-- The wording of a place. -/
def Position.text (p : Position) : String :=
  "line " ++ toString p.line ++ " column " ++ toString p.column ++
    " (char " ++ toString p.index ++ ")"

/-- A text without carriage returns is left alone. -/
theorem unifyLineEnds_of_not_mem {cs : List Char} (h : '\r' ∉ cs) : unifyLineEnds cs = cs := by
  fun_induction unifyLineEnds cs with
  | case1 => rfl
  | case2 cs ih => simp at h
  | case3 c cs _ ih =>
    have hc : c ≠ '\r' := fun hc => h (by simp [hc])
    simp [hc, ih (fun hm => h (List.mem_cons_of_mem _ hm))]

end CodecMocks.Text
