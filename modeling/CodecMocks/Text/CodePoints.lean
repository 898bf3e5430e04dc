import CodecMocks.Text.CodeText

/-!
# Sets and maps of code points

The tables of a character property list closed ranges of code points; the tables of a case mapping
list runs of evenly spaced characters that all move by one distance.
-/

namespace CodecMocks.Text

/-- A set of code points, as closed ranges. -/
abbrev CodeRanges := List (Nat × Nat)

/-- `c` lies in one of the ranges. -/
def CodeRanges.holds (ranges : CodeRanges) (c : CodePoint) : Bool :=
  ranges.any fun r => r.1 ≤ c.toNat && c.toNat ≤ r.2

/-- The characters `first`, `first + stride`, … up to `last`, each of which maps to the character
`shift` further on. -/
structure CaseRun where
  first : Nat
  last : Nat
  stride : Nat
  shift : Int
deriving DecidableEq, Repr

/-- `n` is one of the characters of the run. -/
def CaseRun.covers (run : CaseRun) (n : Nat) : Bool :=
  run.first ≤ n && n ≤ run.last && (n - run.first) % run.stride == 0

/-- The character that the first run covering `c` maps it to; `c` itself if none does. -/
def moveBy (runs : List CaseRun) (c : CodePoint) : CodePoint :=
  match runs.find? (·.covers c.toNat) with
  | some run => CodePoint.ofNat (Int.toNat (c.toNat + run.shift))
  | none => c

/-- A character that no run covers keeps its place. -/
theorem moveBy_of_not_covered {runs : List CaseRun} {c : CodePoint}
    (h : ∀ run ∈ runs, run.covers c.toNat = false) : moveBy runs c = c := by
  have hnone : runs.find? (·.covers c.toNat) = none := by
    simpa [List.find?_eq_none] using h
  simp [moveBy, hnone]

end CodecMocks.Text
