import CodecMocks.Schema.Token

/-!
# Scanning token ranges

A range is read from a position on; what is left is the range from the first token that is not part
of the result. `rootFields` reads the fields before any group or variable-length data, `groups`
everything before the variable-length data of the range itself, `closing?` finds the end of a block.
-/

namespace CodecMocks.Schema

/-- The tokens strictly between the first and the last. -/
def body (tokens : List Token) : List Token :=
  tokens.tail.dropLast

/-- The token ends the root fields. -/
def Token.endsFields (t : Token) : Bool :=
  t.is .beginGroup || t.is .endGroup || t.is .beginVarData

/-- The root fields and the tokens from the first that is not one of them. -/
def rootFields (tokens : List Token) : List Token × List Token :=
  (tokens.takeWhile (!·.endsFields), tokens.dropWhile (!·.endsFields))

/-- By how much a token changes the number of open groups. -/
def Token.groupStep (t : Token) : Int :=
  if t.is .beginGroup then 1 else if t.is .endGroup then -1 else 0

/-- The tokens before the first variable-length data outside of any group, and the tokens from
there on. `depth` is the number of groups opened less the number of groups closed. -/
def groupsFrom (depth : Int) : List Token → List Token × List Token
  | [] => ([], [])
  | t :: ts =>
    if t.is .beginVarData && depth == 0 then ([], t :: ts)
    else
      let (taken, rest) := groupsFrom (depth + t.groupStep) ts
      (t :: taken, rest)

/-- The tokens before the variable-length data of a range, and the tokens from there on. -/
def groups (tokens : List Token) : List Token × List Token :=
  groupsFrom 0 tokens

/-- The number of tokens before the one that brings the count of open blocks back to zero, where
only blocks from `opening` to `closing` are counted and `depth` of them are open. -/
def closing? (opening closing : Signal) (depth : Int) : List Token → Option Nat
  | [] => none
  | t :: ts =>
    if t.is opening then (closing? opening closing (depth + 1) ts).map (· + 1)
    else if t.is closing then
      if depth - 1 = 0 then some 0 else (closing? opening closing (depth - 1) ts).map (· + 1)
    else (closing? opening closing depth ts).map (· + 1)

/-- The tokens after the block that the range starts with; none if the block is not closed. -/
def afterBlock (opening closing : Signal) (tokens : List Token) : List Token :=
  match closing? opening closing 0 tokens with
  | some n => tokens.drop (n + 1)
  | none => []

/-! ### Positions

A position counts from the start of a range, a negative one from its end; reading from a negative
position goes on at the start of the range after its last token. -/

/-- The least position there can be: a position is a signed number of 64 bits. -/
def leastPosition : Int := -9223372036854775808

/-- Why nothing is read at a position. -/
inductive OutOfRange where
  /-- It is before the start of the range. -/
  | beforeStart
  /-- It is below the least position. -/
  | noPosition
deriving DecidableEq, Repr

/-- The wording. -/
def OutOfRange.message : OutOfRange → String
  | .beforeStart => "list index out of range"
  | .noPosition => "cannot fit 'int' into an index-sized integer"

/-- The tokens that are read from a position on. -/
def window (tokens : List Token) (index : Int) : Except OutOfRange (List Token) :=
  if 0 ≤ index then .ok (tokens.drop index.toNat)
  else if -(tokens.length : Int) ≤ index then
    .ok (tokens.drop (tokens.length + index).toNat ++ tokens)
  else .error (if index < leastPosition then .noPosition else .beforeStart)

/-- The position of the first token of `rest`, which ends where the range ends. -/
def position (tokens rest : List Token) : Int :=
  tokens.length - rest.length

/-- The root fields from a position on and the position after them. -/
def rootFieldsAt (tokens : List Token) (index : Int) : Except OutOfRange (List Token × Int) := do
  let (fields, rest) := rootFields (← window tokens index)
  return (fields, position tokens rest)

/-- The tokens before the variable-length data from a position on and the position after them. -/
def groupsAt (tokens : List Token) (index : Int) : Except OutOfRange (List Token × Int) := do
  let (taken, rest) := groups (← window tokens index)
  return (taken, position tokens rest)

/-- The position of the end of the block that starts at a position, or the length of the range. -/
def closingAt (opening closing : Signal) (tokens : List Token) (index : Int) :
    Except OutOfRange Int := do
  match closing? opening closing 0 (← window tokens index) with
  | some n => return index + n
  | none => return tokens.length

/-! ### What is read and what is left -/

@[simp] theorem body_enclosed (opening closing : Token) (content : List Token) :
    body (opening :: (content ++ [closing])) = content := by
  rw [body, List.tail_cons, List.dropLast_concat]

theorem rootFields_append (tokens : List Token) :
    (rootFields tokens).1 ++ (rootFields tokens).2 = tokens := by
  simp [rootFields]

theorem length_rootFields_le (tokens : List Token) :
    (rootFields tokens).2.length ≤ tokens.length := by
  have := congrArg List.length (rootFields_append tokens)
  simp only [List.length_append] at this
  omega

theorem groupsFrom_append (depth : Int) (tokens : List Token) :
    (groupsFrom depth tokens).1 ++ (groupsFrom depth tokens).2 = tokens := by
  induction tokens generalizing depth with
  | nil => rfl
  | cons t ts ih =>
    rw [groupsFrom]
    split
    · rfl
    · simp [ih]

theorem length_groups_le (tokens : List Token) : (groups tokens).2.length ≤ tokens.length := by
  have := congrArg List.length (groupsFrom_append 0 tokens)
  simp only [List.length_append] at this
  rw [groups]
  omega

/-- From a position that is not negative on, the rest of the range is read. -/
theorem window_of_nonneg {tokens : List Token} {i : Int} (h : 0 ≤ i) :
    window tokens i = .ok (tokens.drop i.toNat) :=
  if_pos h

theorem window_natCast (tokens : List Token) (i : Nat) : window tokens i = .ok (tokens.drop i) :=
  window_of_nonneg (Int.natCast_nonneg i)

/-- The end of a block is in the range. -/
theorem lt_length_of_closing? {opening closing : Signal} {depth : Int} {tokens : List Token}
    {n : Nat} (h : closing? opening closing depth tokens = some n) : n < tokens.length := by
  induction tokens generalizing depth n with
  | nil => cases h
  | cons t ts ih =>
    have hlater {depth : Int} (h : (closing? opening closing depth ts).map (· + 1) = some n) :
        n < (t :: ts).length := by
      obtain ⟨m, hm, rfl⟩ := Option.map_eq_some_iff.mp h
      exact Nat.succ_lt_succ (ih hm)
    rw [closing?] at h
    split at h
    · exact hlater h
    · split at h
      · split at h
        · cases h
          exact Nat.succ_pos _
        · exact hlater h
      · exact hlater h

theorem length_afterBlock_lt (opening closing : Signal) (t : Token) (ts : List Token) :
    (afterBlock opening closing (t :: ts)).length < (t :: ts).length := by
  unfold afterBlock
  split
  · simp only [List.length_drop, List.length_cons]
    omega
  · simp

end CodecMocks.Schema
