import CodecMocks.Text.CaseTable

/-!
# Sets of code points as numbers

The tables of a case mapping list thousands of characters, too many to compare with each other. A
set of code points is compared as one number instead, in which the bits of its code points are set:
two sets have nothing in common if no bit is set in both numbers.

* `marks`, `CodeRanges.marks`, `CaseRun.marks`, `CaseRun.imageMarks`: the numbers of a list of code
  points, of closed ranges, of the characters of a run and of what these are mapped to.
* `moveBy_cases`: a case mapping leaves a character in place or leads to one that is marked.
* `isSound_smallRuns`, `isSound_capitalRuns`: what the runs of the two tables have in common.
-/

namespace CodecMocks.Text

/-! ### Numbers of sets -/

/-- The union of the sets of some items. -/
def marksOf {α : Type} (marks : α → Nat) (items : List α) : Nat :=
  items.foldr (fun item rest => marks item ||| rest) 0

theorem testBit_marksOf {α : Type} (marks : α → Nat) (items : List α) (n : Nat) :
    (marksOf marks items).testBit n = items.any fun item => (marks item).testBit n := by
  induction items with
  | nil => exact Nat.zero_testBit n
  | cons item items ih =>
    rw [List.any_cons, ← ih]
    exact Nat.testBit_or ..

/-- The number of a list of code points. -/
def marks (points : List Nat) : Nat :=
  marksOf (1 <<< ·) points

theorem testBit_marks {points : List Nat} {n : Nat} :
    (marks points).testBit n = true ↔ n ∈ points := by
  simp only [marks, testBit_marksOf, List.any_eq_true, Nat.one_shiftLeft, Nat.testBit_two_pow,
    decide_eq_true_eq, exists_eq_right]

/-- Sets without a common bit have no common member. -/
theorem testBit_eq_false_of_apart {a b n : Nat} (h : a &&& b = 0) (ha : a.testBit n = true) :
    b.testBit n = false := by
  have hboth := Nat.testBit_and a b n
  rwa [h, Nat.zero_testBit, ha, Bool.true_and, eq_comm] at hboth

/-- A set that adds nothing to another is contained in it. -/
theorem testBit_of_within {a b n : Nat} (h : a ||| b = b) (ha : a.testBit n = true) :
    b.testBit n = true := by
  rw [← h, Nat.testBit_or, ha, Bool.true_or]

/-! ### Ranges -/

/-- The number of a set of closed ranges. -/
def CodeRanges.marks (ranges : CodeRanges) : Nat :=
  marksOf (fun r => (1 <<< (r.2 + 1 - r.1) - 1) <<< r.1) ranges

theorem CodeRanges.testBit_marks (ranges : CodeRanges) (c : CodePoint) :
    (CodeRanges.marks ranges).testBit c.toNat = ranges.holds c := by
  have hrange (r : Nat × Nat) :
      ((1 <<< (r.2 + 1 - r.1) - 1) <<< r.1).testBit c.toNat =
        (decide (r.1 ≤ c.toNat) && decide (c.toNat ≤ r.2)) := by
    rw [Nat.testBit_shiftLeft, Nat.one_shiftLeft, Nat.testBit_two_pow_sub_one, Bool.eq_iff_iff]
    simp only [Bool.and_eq_true, decide_eq_true_eq]
    omega
  rw [CodeRanges.marks, testBit_marksOf, CodeRanges.holds]
  simp only [hrange]

/-! ### Runs -/

/-- `count` bits from the place 0 on, `stride` apart. -/
def spaced (stride : Nat) : Nat → Nat
  | 0 => 0
  | count + 1 => spaced stride count <<< stride + 1

theorem testBit_spaced {stride : Nat} (h : 0 < stride) (count n : Nat) :
    (spaced stride count).testBit n = true ↔ n % stride = 0 ∧ n / stride < count := by
  induction count generalizing n with
  | zero => simp [spaced]
  | succ count ih =>
    have hone : 1 < 2 ^ stride := Nat.one_lt_two_pow (Nat.ne_of_gt h)
    rw [spaced, Nat.shiftLeft_eq, Nat.mul_comm, Nat.testBit_two_pow_mul_add _ hone]
    split
    · next hn =>
      rw [Nat.mod_eq_of_lt hn, Nat.div_eq_of_lt hn, Nat.testBit_one_eq_true_iff_self_eq_zero]
      exact ⟨fun hzero => ⟨hzero, Nat.succ_pos count⟩, And.left⟩
    · next hn =>
      rw [ih, Nat.mod_eq_sub_mod (Nat.le_of_not_lt hn), Nat.div_eq_sub_div h (Nat.le_of_not_lt hn),
        Nat.add_lt_add_iff_right]

/-- How many characters a run covers. -/
def CaseRun.size (run : CaseRun) : Nat :=
  (run.last - run.first) / run.stride + 1

/-- The number of the characters of a run. -/
def CaseRun.marks (run : CaseRun) : Nat :=
  spaced run.stride run.size <<< run.first

/-- The number of what the characters of a run are mapped to. -/
def CaseRun.imageMarks (run : CaseRun) : Nat :=
  spaced run.stride run.size <<< Int.toNat (run.first + run.shift)

/-- The run goes on from one character to the next, and leads to characters. -/
structure CaseRun.IsSound (run : CaseRun) : Prop where
  stride : 0 < run.stride
  order : run.first ≤ run.last
  start : 0 ≤ (run.first : Int) + run.shift
  chars : (run.last : Int) + run.shift < 0xD800 ∨
    0xE000 ≤ (run.first : Int) + run.shift ∧ (run.last : Int) + run.shift < 0x110000

instance (run : CaseRun) : Decidable run.IsSound :=
  decidable_of_iff (0 < run.stride ∧ run.first ≤ run.last ∧ 0 ≤ (run.first : Int) + run.shift ∧
      ((run.last : Int) + run.shift < 0xD800 ∨
        0xE000 ≤ (run.first : Int) + run.shift ∧ (run.last : Int) + run.shift < 0x110000))
    ⟨fun h => ⟨h.1, h.2.1, h.2.2.1, h.2.2.2⟩, fun h => ⟨h.stride, h.order, h.start, h.chars⟩⟩

theorem CaseRun.covers_iff {run : CaseRun} {n : Nat} :
    run.covers n = true ↔
      (run.first ≤ n ∧ n ≤ run.last) ∧ (n - run.first) % run.stride = 0 := by
  simp only [CaseRun.covers, Bool.and_eq_true, decide_eq_true_eq, beq_iff_eq]

namespace CaseRun.IsSound

variable {run : CaseRun}

/-- The places of the characters of a run, from its first one on. -/
theorem testBit_size (h : run.IsSound) (i : Nat) :
    (spaced run.stride run.size).testBit i = run.covers (run.first + i) := by
  rw [Bool.eq_iff_iff, testBit_spaced h.stride, CaseRun.covers_iff, Nat.add_sub_cancel_left,
    CaseRun.size, Nat.lt_succ_iff, Nat.le_div_iff_mul_le h.stride, and_comm]
  refine and_congr_left fun hmod => ?_
  have horder := h.order
  rw [Nat.div_mul_cancel (Nat.dvd_of_mod_eq_zero hmod)]
  omega

theorem testBit_marks (h : run.IsSound) (n : Nat) : run.marks.testBit n = run.covers n := by
  rw [CaseRun.marks, Nat.testBit_shiftLeft, h.testBit_size, Bool.eq_iff_iff, Bool.and_eq_true,
    decide_eq_true_iff]
  constructor
  · rintro ⟨hfirst, hcovers⟩
    rwa [Nat.add_sub_cancel' hfirst] at hcovers
  · intro hcovers
    have hfirst := (CaseRun.covers_iff.mp hcovers).1.1
    exact ⟨hfirst, by rwa [Nat.add_sub_cancel' hfirst]⟩

theorem testBit_imageMarks (h : run.IsSound) {n m : Nat} (hn : run.covers n = true)
    (hm : (m : Int) = n + run.shift) : run.imageMarks.testBit m = true := by
  have hbounds := CaseRun.covers_iff.mp hn
  have hstart := h.start
  have hplace : run.first + (m - Int.toNat (run.first + run.shift)) = n := by omega
  rw [CaseRun.imageMarks, Nat.testBit_shiftLeft, h.testBit_size, hplace, hn, Bool.and_true,
    decide_eq_true_iff]
  omega

end CaseRun.IsSound

/-! ### Case mappings -/

/-- A property of the characters of ASCII is checked one by one. -/
theorem forall_ascii {P : CodePoint → Prop} (htable : ∀ n : Fin 128, P (CodePoint.ofNat n))
    (c : CodePoint) (h : c.toNat < 128) : P c := by
  have hchar := htable ⟨c.toNat, h⟩
  rwa [CodePoint.ofNat_toNat] at hchar

/-- The numbers of what a case mapping moves and of where it leads. -/
def sourceMarks (runs : List CaseRun) : Nat :=
  marksOf CaseRun.marks runs

def imageMarks (runs : List CaseRun) : Nat :=
  marksOf CaseRun.imageMarks runs

theorem testBit_sourceMarks {runs : List CaseRun} (hruns : ∀ run ∈ runs, run.IsSound) (n : Nat) :
    (sourceMarks runs).testBit n = runs.any (·.covers n) := by
  rw [sourceMarks, testBit_marksOf, Bool.eq_iff_iff, List.any_eq_true, List.any_eq_true]
  exact exists_congr fun run => and_congr_right fun hrun => by rw [(hruns run hrun).testBit_marks]

theorem toNat_ofNat_of_isValidChar {n : Nat} (h : n.isValidChar) :
    (CodePoint.ofNat n).toNat = n := by
  have hbound : n < 0x110000 := by
    rcases h with h | h
    · omega
    · exact h.2
  rw [CodePoint.ofNat, dif_pos hbound]

/-- A character that is not moved stays; one that is moved leads to a character that is marked. -/
theorem moveBy_cases {runs : List CaseRun} (hruns : ∀ run ∈ runs, run.IsSound) (c : CodePoint) :
    ((sourceMarks runs).testBit c.toNat = false ∧ moveBy runs c = c) ∨
      ((sourceMarks runs).testBit c.toNat = true ∧
        (imageMarks runs).testBit (moveBy runs c).toNat = true) := by
  rw [testBit_sourceMarks hruns]
  cases hrun : runs.find? (·.covers c.toNat) with
  | none =>
    refine .inl ⟨?_, by rw [moveBy, hrun]⟩
    rw [List.any_eq_false]
    exact List.find?_eq_none.mp hrun
  | some run =>
    have hmem := List.mem_of_find?_eq_some hrun
    have hcovers := List.find?_some hrun
    have hsound := hruns run hmem
    have hbounds := CaseRun.covers_iff.mp hcovers
    have hstart := hsound.start
    have hchars := hsound.chars
    have hpoint : (moveBy runs c).toNat = Int.toNat (c.toNat + run.shift) := by
      rw [moveBy, hrun]
      apply toNat_ofNat_of_isValidChar
      unfold Nat.isValidChar
      omega
    refine .inr ⟨List.any_eq_true.mpr ⟨run, hmem, hcovers⟩, ?_⟩
    rw [imageMarks, testBit_marksOf, List.any_eq_true]
    refine ⟨run, hmem, hsound.testBit_imageMarks hcovers ?_⟩
    rw [hpoint]
    omega

theorem moveBy_of_not_marked {runs : List CaseRun} (hruns : ∀ run ∈ runs, run.IsSound)
    {c : CodePoint} (h : (sourceMarks runs).testBit c.toNat = false) : moveBy runs c = c := by
  apply moveBy_of_not_covered
  rw [testBit_sourceMarks hruns, List.any_eq_false] at h
  exact fun run hrun => Bool.eq_false_iff.mpr (h run hrun)

/-- A case mapping that leads out of a set leads no character into it. -/
theorem testBit_moveBy_eq_false {runs : List CaseRun} (hruns : ∀ run ∈ runs, run.IsSound)
    {set : Nat} (hout : imageMarks runs &&& set = 0) {c : CodePoint}
    (hc : (sourceMarks runs).testBit c.toNat = false → set.testBit c.toNat = false) :
    set.testBit (moveBy runs c).toNat = false := by
  rcases moveBy_cases hruns c with ⟨hstays, hsame⟩ | ⟨-, himage⟩
  · rw [hsame]
    exact hc hstays
  · exact testBit_eq_false_of_apart hout himage

/-- A character that a case mapping does not lead to is what it makes of itself only. -/
theorem eq_of_moveBy {runs : List CaseRun} (hruns : ∀ run ∈ runs, run.IsSound) {c d : CodePoint}
    (hd : (imageMarks runs).testBit d.toNat = false) (h : moveBy runs c = d) : c = d := by
  rcases moveBy_cases hruns c with ⟨-, hsame⟩ | ⟨-, himage⟩
  · rw [← h, hsame]
  · rw [h, hd] at himage
    cases himage

theorem isSound_smallRuns : ∀ run ∈ smallRuns, run.IsSound := by decide +kernel

theorem isSound_capitalRuns : ∀ run ∈ capitalRuns, run.IsSound := by decide +kernel

end CodecMocks.Text
