import CodecMocks.Proofs.PropertyNames
import Mathlib.Data.List.DropRight
import Mathlib.Data.List.SplitBy

/-!
# Where the words of a property name start

Two passes over a schema name look for words without a separator between them, and a third joins the
words. They go over runs of characters, and the second reads what the first one wrote. Here they are
compared with a rule that looks at a character of the schema name and its two neighbours only.

* `StartsWord`, `markWords`: the rule, and the name with an underscore before each word it finds.
* `splitAcronyms_cons`, `splitCamel_insertWhere`: each pass finds its share of the words, and the
  second is not misled by the underscores of the first.
* `splitCamel_splitAcronyms`: together they mark the words that the rule tells.
* `joinRuns`, `collapse_eq_joinRuns`: the words are joined by one underscore for each maximal run of
  separators.
-/

namespace CodecMocks.Text

theorem isLower_iff {c : CodePoint} : c.isLower = true ↔ 97 ≤ c.toNat ∧ c.toNat ≤ 122 := by
  rw [CodePoint.isLower, Bool.and_eq_true, decide_eq_true_iff, decide_eq_true_iff]

theorem isDigit_iff {c : CodePoint} : c.isDigit = true ↔ 48 ≤ c.toNat ∧ c.toNat ≤ 57 := by
  rw [CodePoint.isDigit, Bool.and_eq_true, decide_eq_true_iff, decide_eq_true_iff]

theorem isLower_eq_false_of_isUpper {c : CodePoint} (h : c.isUpper = true) : c.isLower = false := by
  rw [isUpper_iff] at h
  rw [Bool.eq_false_iff, Ne, isLower_iff]
  omega

theorem isUpper_eq_false_of_isLower {c : CodePoint} (h : c.isLower = true) : c.isUpper = false := by
  rw [isLower_iff] at h
  rw [Bool.eq_false_iff, Ne, isUpper_iff]
  omega

end CodecMocks.Text

namespace CodecMocks.Naming

open CodecMocks.Text

/-! ### The rule -/

/-- A word starts at a position of a name without a separator before it: a capital stands there,
after a small letter or digit, or after a capital and before a small letter. -/
def StartsWord (cs : List CodePoint) (i : Nat) : Prop :=
  0 < i ∧ (∃ c ∈ cs[i]?, c.isUpper = true) ∧
    ((∃ a ∈ cs[i - 1]?, endsWord a = true) ∨
      (∃ a ∈ cs[i - 1]?, a.isUpper = true) ∧ ∃ d ∈ cs[i + 1]?, d.isLower = true)

instance (cs : List CodePoint) (i : Nat) : Decidable (StartsWord cs i) :=
  inferInstanceAs (Decidable (0 < i ∧ _ ∧ _))

/-- The name with an underscore before each position where a word starts. -/
def markWords (cs : List CodePoint) : List CodePoint :=
  (cs.mapIdx fun i c => if StartsWord cs i then [.ofChar '_', c] else [c]).flatten

/-- Both characters are separators, or none is. -/
def sameKind (a b : CodePoint) : Bool :=
  isSeparator a == isSeparator b

/-- The name with one underscore for each maximal run of separators. -/
def joinRuns (cs : List CodePoint) : List CodePoint :=
  (cs.splitBy sameKind).flatMap fun run => if run.all isSeparator then [.ofChar '_'] else run

/-! ### Words between neighbours -/

/-- The text with an underscore before each character that `starts` a word between its neighbours.
`a` is the character before the text. -/
def insertWhere (starts : CodePoint → CodePoint → Option CodePoint → Bool) (a : CodePoint) :
    List CodePoint → List CodePoint
  | [] => []
  | c :: cs => (if starts a c cs.head? then [.ofChar '_', c] else [c]) ++ insertWhere starts c cs

/-- `c` is a capital between a capital and a small letter. -/
def isLastCapital (a c : CodePoint) (next : Option CodePoint) : Bool :=
  c.isUpper && a.isUpper && next.any CodePoint.isLower

/-- A word starts at `c` between its neighbours. -/
def startsBetween (a c : CodePoint) (next : Option CodePoint) : Bool :=
  c.isUpper && (endsWord a || a.isUpper && next.any CodePoint.isLower)

/-- The first pass, after a character that is no capital and after a run of capitals: what is left
open is whether a word starts at the last capital of the run. -/
theorem splitAcronymsAfter_eq (cs : List CodePoint) :
    (∀ a : CodePoint, a.isUpper = false →
      splitAcronymsAfter [] cs = insertWhere isLastCapital a cs) ∧
    ∀ (last : CodePoint) (before : List CodePoint), last.isUpper = true →
      splitAcronymsAfter (last :: before) cs =
        before.reverse ++
          (if before ≠ [] ∧ cs.head?.any CodePoint.isLower then [.ofChar '_', last] else [last]) ++
            insertWhere isLastCapital last cs := by
  induction cs with
  | nil => simp [splitAcronymsAfter, insertWhere]
  | cons c cs ih =>
    obtain ⟨ihOther, ihRun⟩ := ih
    by_cases hc : c.isUpper = true
    · have hlower := isLower_eq_false_of_isUpper hc
      refine ⟨fun a ha => ?_, fun last before hlast => ?_⟩
      · simp [splitAcronymsAfter, hc, ihRun c [] hc, insertWhere, isLastCapital, ha]
      · simp [splitAcronymsAfter, hc, ihRun c _ hc, insertWhere, isLastCapital, hlast, hlower]
    · rw [Bool.not_eq_true] at hc
      refine ⟨fun a ha => ?_, fun last before hlast => ?_⟩
      · simp [splitAcronymsAfter, hc, ihOther c hc, insertWhere, isLastCapital, acronymBreak]
      · cases before with
        | nil =>
          simp [splitAcronymsAfter, hc, ihOther c hc, insertWhere, isLastCapital, acronymBreak]
        | cons b bs =>
          cases hlower : c.isLower <;>
            simp [splitAcronymsAfter, hc, hlower, ihOther c hc, insertWhere, isLastCapital,
              acronymBreak]

theorem splitAcronyms_cons (c : CodePoint) (cs : List CodePoint) :
    splitAcronyms (c :: cs) = c :: insertWhere isLastCapital c cs := by
  have hupper : CodePoint.isUpper '_' = false := rfl
  rw [splitAcronyms, (splitAcronymsAfter_eq (c :: cs)).1 '_' hupper, insertWhere]
  simp [isLastCapital, hupper]

theorem splitCamel_cons_cons (a c : CodePoint) (cs : List CodePoint) :
    splitCamel (a :: c :: cs) =
      (if endsWord a && c.isUpper then [a, .ofChar '_'] else [a]) ++ splitCamel (c :: cs) := by
  rw [splitCamel]
  split <;> rfl

/-- No word starts at an underscore or right after one. -/
theorem splitCamel_underscore (a c : CodePoint) (cs : List CodePoint) :
    splitCamel (a :: .ofChar '_' :: c :: cs) = a :: .ofChar '_' :: splitCamel (c :: cs) := by
  have hends : endsWord '_' = false := by decide
  have hupper : CodePoint.isUpper '_' = false := rfl
  simp [splitCamel_cons_cons, hends, hupper]

/-- The second pass finds the words after small letters and digits, and is not misled by the
underscores of the first pass. -/
theorem splitCamel_insertWhere (a : CodePoint) (cs : List CodePoint) :
    splitCamel (a :: insertWhere isLastCapital a cs) = a :: insertWhere startsBetween a cs := by
  induction cs generalizing a with
  | nil => rfl
  | cons c cs ih =>
    rw [insertWhere, insertWhere]
    cases hlast : isLastCapital a c cs.head? with
    | true =>
      have hstarts : startsBetween a c cs.head? = true := by
        simp only [isLastCapital, Bool.and_eq_true] at hlast
        simp [startsBetween, hlast.1.1, hlast.1.2, hlast.2]
      rw [hstarts]
      exact (splitCamel_underscore a c _).trans (congrArg (a :: CodePoint.ofChar '_' :: ·) (ih c))
    | false =>
      have hstarts : startsBetween a c cs.head? = (endsWord a && c.isUpper) := by
        unfold isLastCapital at hlast
        unfold startsBetween
        revert hlast
        cases c.isUpper <;> cases a.isUpper <;> cases cs.head?.any CodePoint.isLower <;> simp
      have hpass : splitCamel (a :: c :: insertWhere isLastCapital c cs) =
          (if endsWord a && c.isUpper then [a, .ofChar '_'] else [a]) ++
            c :: insertWhere startsBetween c cs := by
        rw [splitCamel_cons_cons, ih]
      rw [hstarts]
      refine hpass.trans ?_
      cases endsWord a && c.isUpper <;> rfl

/-- The two passes find the words that a character and its neighbours tell. -/
theorem splitCamel_splitAcronyms_cons (c : CodePoint) (cs : List CodePoint) :
    splitCamel (splitAcronyms (c :: cs)) = c :: insertWhere startsBetween c cs := by
  rw [splitAcronyms_cons, splitCamel_insertWhere]

/-! ### Words at positions -/

/-- The neighbours of a position are the characters before and after it. -/
theorem startsWord_append_iff {before : List CodePoint} {a c : CodePoint} (cs : List CodePoint)
    (ha : before.getLast? = some a) :
    StartsWord (before ++ c :: cs) before.length ↔ startsBetween a c cs.head? = true := by
  obtain ⟨front, rfl⟩ := List.getLast?_eq_some_iff.mp ha
  have hafter : (front ++ [a] ++ c :: cs)[(front ++ [a]).length + 1]? = cs.head? := by
    rw [List.getElem?_append_right (by omega), List.head?_eq_getElem?]
    simp
  have hat : (front ++ [a] ++ c :: cs)[(front ++ [a]).length]? = some c := by simp
  have hbefore : (front ++ [a] ++ c :: cs)[(front ++ [a]).length - 1]? = some a := by simp
  rw [StartsWord, hafter, hat, hbefore]
  simp [startsBetween, Option.any_eq_true]

/-- The rest of a name is marked as its neighbours tell. -/
theorem flatten_mapIdx_append {before : List CodePoint} {a : CodePoint} (cs : List CodePoint)
    (ha : before.getLast? = some a) :
    (cs.mapIdx fun i c =>
        if StartsWord (before ++ cs) (before.length + i) then [.ofChar '_', c] else [c]).flatten =
      insertWhere startsBetween a cs := by
  induction cs generalizing before a with
  | nil => rfl
  | cons c cs ih =>
    have hlength (i : Nat) : before.length + (i + 1) = (before ++ [c]).length + i := by
      simp only [List.length_append, List.length_singleton]
      omega
    have hlast : (before ++ [c]).getLast? = some c := List.getLast?_concat
    have hrest := ih hlast
    rw [List.append_assoc, List.singleton_append] at hrest
    simp only [List.mapIdx_cons, List.flatten_cons, hlength, hrest, Nat.add_zero, insertWhere,
      startsWord_append_iff cs ha]

/-- **The two passes mark the words of a name.** -/
theorem splitCamel_splitAcronyms (cs : List CodePoint) :
    splitCamel (splitAcronyms cs) = markWords cs := by
  cases cs with
  | nil => rfl
  | cons c cs =>
    have hfirst : ¬ StartsWord (c :: cs) 0 := fun h => Nat.lt_irrefl 0 h.1
    have hlast : [c].getLast? = some c := rfl
    have hrest := flatten_mapIdx_append cs hlast
    rw [splitCamel_splitAcronyms_cons, markWords, List.mapIdx_cons, List.flatten_cons,
      if_neg hfirst, ← hrest]
    simp only [List.singleton_append, List.length_singleton, Nat.add_comm 1]

/-! ### Runs of separators -/

/-- Separators are written once. -/
theorem collapse_true_append {run : List CodePoint} (h : ∀ c ∈ run, isSeparator c = true)
    (rest : List CodePoint) : collapse true (run ++ rest) = collapse true rest := by
  induction run with
  | nil => rfl
  | cons c cs ih =>
    rw [List.cons_append, collapse, if_pos (h c List.mem_cons_self), if_pos rfl]
    exact ih fun d hd => h d (List.mem_cons_of_mem c hd)

/-- Other characters are kept. -/
theorem collapse_false_append {run : List CodePoint} (h : ∀ c ∈ run, isSeparator c = false)
    (rest : List CodePoint) : collapse false (run ++ rest) = run ++ collapse false rest := by
  induction run with
  | nil => rfl
  | cons c cs ih =>
    rw [List.cons_append, collapse, h c List.mem_cons_self, if_neg Bool.false_ne_true,
      ih fun d hd => h d (List.mem_cons_of_mem c hd), List.cons_append]

/-- A run of separators before a text that does not start with one. -/
theorem collapse_true_eq_false {cs : List CodePoint}
    (h : ∀ c ∈ cs.head?, isSeparator c = false) : collapse true cs = collapse false cs := by
  cases cs with
  | nil => rfl
  | cons c cs =>
    rw [collapse, collapse, h c rfl, if_neg Bool.false_ne_true, if_neg Bool.false_ne_true]

theorem isSeparator_of_isChain {c : CodePoint} {cs : List CodePoint}
    (h : (c :: cs).IsChain fun a b => sameKind a b) :
    ∀ d ∈ c :: cs, isSeparator d = isSeparator c := by
  induction cs generalizing c with
  | nil => simp
  | cons b bs ih =>
    rw [List.isChain_cons_cons, sameKind, beq_iff_eq] at h
    intro d hd
    rcases List.mem_cons.mp hd with rfl | hd
    · rfl
    · exact (ih h.2 d hd).trans h.1.symm

/-- The first character of the runs after a run of separators is none. -/
theorem isSeparator_head_flatten {run : List CodePoint} {runs : List (List CodePoint)}
    (hnext : (run :: runs).IsChain fun a b =>
      ∃ ha hb, sameKind (a.getLast ha) (b.head hb) = false)
    (hrun : ∀ c ∈ run, isSeparator c = true) :
    ∀ c ∈ runs.flatten.head?, isSeparator c = false := by
  cases runs with
  | nil => simp
  | cons next runs =>
    obtain ⟨hne, hne', hdiffers⟩ := (List.isChain_cons_cons.mp hnext).1
    rw [sameKind, hrun _ (List.getLast_mem hne), beq_eq_false_iff_ne, ne_comm, Ne, Bool.not_eq_true]
      at hdiffers
    intro c hc
    rw [List.flatten_cons, List.head?_append, List.head?_eq_some_head hne'] at hc
    rwa [← Option.some.inj hc]

/-- Joining goes run by run, if the characters of a run are of one kind and the run after it starts
with one of the other kind. -/
theorem collapse_flatten {runs : List (List CodePoint)} (hne : [] ∉ runs)
    (hruns : ∀ run ∈ runs, run.IsChain fun a b => sameKind a b)
    (hnext : runs.IsChain fun a b =>
      ∃ ha hb, sameKind (a.getLast ha) (b.head hb) = false) :
    collapse false runs.flatten =
      runs.flatMap fun run => if run.all isSeparator then [.ofChar '_'] else run := by
  induction runs with
  | nil => rfl
  | cons run runs ih =>
    have hrest := ih (fun h => hne (List.mem_cons_of_mem run h))
      (fun r hr => hruns r (List.mem_cons_of_mem run hr)) hnext.tail
    cases run with
    | nil => exact absurd List.mem_cons_self hne
    | cons c cs =>
      have hkind := isSeparator_of_isChain (hruns _ List.mem_cons_self)
      rw [List.flatten_cons, List.flatMap_cons, ← hrest]
      cases hc : isSeparator c with
      | true =>
        have hall : ∀ d ∈ c :: cs, isSeparator d = true := fun d hd => (hkind d hd).trans hc
        have htail : ∀ d ∈ cs, isSeparator d = true := fun d hd =>
          hall d (List.mem_cons_of_mem c hd)
        rw [if_pos (List.all_eq_true.mpr hall), List.cons_append, collapse, if_pos hc,
          if_neg Bool.false_ne_true, collapse_true_append htail,
          collapse_true_eq_false (isSeparator_head_flatten hnext hall), List.singleton_append]
      | false =>
        have hnone : ∀ d ∈ c :: cs, isSeparator d = false := fun d hd => (hkind d hd).trans hc
        have hall : (c :: cs).all isSeparator = false := by
          rw [List.all_cons, hc, Bool.false_and]
        rw [hall, if_neg Bool.false_ne_true, collapse_false_append hnone]

/-- **The words are joined run by run.** -/
theorem collapse_eq_joinRuns (cs : List CodePoint) : collapse false cs = joinRuns cs := by
  have hflatten := collapse_flatten (List.nil_notMem_splitBy sameKind cs)
    (fun _ => List.isChain_of_mem_splitBy) (List.isChain_getLast_head_splitBy sameKind cs)
  rwa [List.flatten_splitBy] at hflatten

end CodecMocks.Naming
