import CodecMocks.Schema.Scan

/-!
# Group forests

The repeating groups of one nesting level, with their fields and the groups inside them.
`GroupForest.read` finds them in any stream of tokens, whether its markers match or not: what is
missing at the end of a stream counts as present, and what is no field and belongs to no group is
passed over.
-/

namespace CodecMocks.Schema

/-- Groups side by side, the first one apart: its begin marker, its root fields, the groups nested
in it, and the groups that follow. -/
inductive GroupForest where
  | nil
  | group (marker : Token) (fields : List Token) (nested next : GroupForest)
deriving DecidableEq, Repr

namespace GroupForest

/-- The stream begins a group. -/
def opens : List Token → Bool
  | t :: _ => t.is .beginGroup
  | [] => false

/-- The tokens after the first end marker of a group; none if there is no such marker. -/
def afterTrailer (tokens : List Token) : List Token :=
  (tokens.dropWhile (!·.is .endGroup)).drop 1

theorem length_afterTrailer_le (tokens : List Token) :
    (afterTrailer tokens).length ≤ tokens.length := by
  have : (tokens.dropWhile (!·.is .endGroup)).length ≤ tokens.length :=
    (List.dropWhile_suffix _).length_le
  simp only [afterTrailer, List.length_drop]
  omega

/-- A forest and the tokens left, which are no more than `n`. -/
abbrev Bounded (n : Nat) := { r : GroupForest × List Token // r.2.length ≤ n }

/-- The forest that a stream starts with. The tokens left start with the end marker of the group
around the forest, if there is one. -/
def readBounded : (tokens : List Token) → Bounded tokens.length
  | [] => ⟨(.nil, []), Nat.le_refl _⟩
  | t :: ts =>
    if t.is .endGroup then ⟨(.nil, t :: ts), Nat.le_refl _⟩
    else if t.is .beginGroup then
      have hroot := length_rootFields_le ts
      let nested : Bounded (rootFields ts).2.length :=
        if opens (rootFields ts).2 then readBounded (rootFields ts).2
        else ⟨(.nil, (rootFields ts).2), Nat.le_refl _⟩
      have hnested := nested.2
      have hafter := length_afterTrailer_le nested.1.2
      let next := readBounded (afterTrailer nested.1.2)
      ⟨(.group t (rootFields ts).1 nested.1.1 next.1.1, next.1.2),
        Nat.le_succ_of_le (Nat.le_trans next.2 (Nat.le_trans hafter
          (Nat.le_trans hnested hroot)))⟩
    else
      let r := readBounded ts
      ⟨r.1, Nat.le_succ_of_le r.2⟩
termination_by tokens => tokens.length
decreasing_by
  · exact Nat.lt_succ_of_le hroot
  · exact Nat.lt_succ_of_le (Nat.le_trans hafter (Nat.le_trans hnested hroot))
  · exact Nat.lt_succ_self _

/-- The forest that a stream starts with, and the tokens left. -/
def read (tokens : List Token) : GroupForest × List Token :=
  (readBounded tokens).1

theorem val_readBounded (tokens : List Token) : (readBounded tokens).1 = read tokens := rfl

/-- The groups nested in a group whose root fields are followed by `rest`, and the tokens left.
Groups that do not follow the root fields at once are not looked for. -/
def readNested (rest : List Token) : GroupForest × List Token :=
  if opens rest then read rest else (.nil, rest)

theorem length_read_le (tokens : List Token) : (read tokens).2.length ≤ tokens.length :=
  (readBounded tokens).2

@[simp] theorem read_nil : read [] = (.nil, []) := by
  rw [read, readBounded]

theorem length_readNested_le (rest : List Token) : (readNested rest).2.length ≤ rest.length := by
  unfold readNested
  split
  · exact length_read_le rest
  · exact Nat.le_refl _

theorem read_endGroup {t : Token} (h : t.is .endGroup = true) (ts : List Token) :
    read (t :: ts) = (.nil, t :: ts) := by
  rw [read, readBounded]
  simp [h]

theorem read_beginGroup {t : Token} (h : t.is .beginGroup = true) (ts : List Token) :
    read (t :: ts) =
      let nested := readNested (rootFields ts).2
      let next := read (afterTrailer nested.2)
      (.group t (rootFields ts).1 nested.1 next.1, next.2) := by
  have hend : t.is .endGroup = false := by
    rw [Token.is_iff] at h
    simp [Token.is, h]
  rw [read, readBounded]
  simp only [h, hend, if_true, Bool.false_eq_true, if_false, val_readBounded]
  by_cases hopen : opens (rootFields ts).2 = true
  · simp only [readNested, hopen, if_true, val_readBounded]
  · simp only [readNested, hopen, if_false, Bool.false_eq_true]

theorem read_other {t : Token} (hend : t.is .endGroup = false) (hbegin : t.is .beginGroup = false)
    (ts : List Token) : read (t :: ts) = read ts := by
  rw [read, readBounded]
  simp [hend, hbegin, read]

/-- Reading gets past the begin marker of a group. -/
theorem length_read_lt_of_opens {tokens : List Token} (h : opens tokens = true) :
    (read tokens).2.length < tokens.length := by
  cases tokens with
  | nil => cases h
  | cons t ts =>
    rw [read_beginGroup h]
    have hfields := length_rootFields_le ts
    have hnested := length_readNested_le (rootFields ts).2
    have hafter := length_afterTrailer_le (readNested (rootFields ts).2).2
    have hnext := length_read_le (afterTrailer (readNested (rootFields ts).2).2)
    simp only [List.length_cons]
    omega

/-- Induction along what is read: of a stream that begins with a group, the part after the root
fields of the group, where the nested groups are looked for, and the part after the group. -/
theorem read_induction {motive : List Token → Prop} (nil : motive [])
    (endGroup : ∀ t ts, t.is .endGroup = true → motive (t :: ts))
    (other : ∀ t ts, t.is .endGroup = false → t.is .beginGroup = false → motive ts →
      motive (t :: ts))
    (beginGroup : ∀ t ts, t.is .beginGroup = true → motive (rootFields ts).2 →
      motive (afterTrailer (readNested (rootFields ts).2).2) → motive (t :: ts))
    (tokens : List Token) : motive tokens := by
  match tokens with
  | [] => exact nil
  | t :: ts =>
    have ih (shorter : List Token) (hlength : shorter.length ≤ ts.length) : motive shorter :=
      read_induction nil endGroup other beginGroup shorter
    cases hend : t.is .endGroup with
    | true => exact endGroup t ts hend
    | false =>
      cases hbegin : t.is .beginGroup with
      | false => exact other t ts hend hbegin (ih ts (Nat.le_refl _))
      | true =>
        have hfields := length_rootFields_le ts
        have hnested := length_readNested_le (rootFields ts).2
        have hafter := length_afterTrailer_le (readNested (rootFields ts).2).2
        exact beginGroup t ts hbegin (ih _ hfields)
          (ih _ (Nat.le_trans hafter (Nat.le_trans hnested hfields)))
termination_by tokens.length
decreasing_by exact Nat.lt_succ_of_le hlength

end GroupForest

end CodecMocks.Schema
