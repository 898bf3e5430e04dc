import CodecMocks.Proofs.NameCharacters
import Mathlib.Data.List.Chain

/-!
# Texts in small letters

Making a text small is done once: what comes out stays as it is when it is made small again. This
rests on the table of small letters, no entry of which leads to a character that an entry covers.
Underscores are neither made nor lost, and stay where they are.

* `leadsOut_smallRuns`: what is checked of the table.
* `IsSmall`, `isSmall_of_mem_smallText`, `smallText_of_isSmall`: small texts and why they stay.
* `isChain_apart_smallAfter`, `getLast_smallAfter`: where underscores are in a small text.
* `smallText_of_isAscii`: a text of ASCII is made small letter by letter.
-/

namespace CodecMocks.Text

/-! ### The table of small letters -/

/-- The table leads to no character that it covers. -/
theorem leadsOut_smallRuns : imageMarks smallRuns &&& sourceMarks smallRuns = 0 := by
  decide +kernel

theorem small_dotted : small 'İ' = [.ofChar 'i', .ofChar '\u0307'] := rfl

theorem small_of_ne_dotted {c : CodePoint} (h : c ≠ 'İ') : small c = [moveBy smallRuns c] := by
  rw [small, if_neg fun heq => h (beq_iff_eq.mp heq)]

theorem small_of_not_marked {c : CodePoint} (h : (sourceMarks smallRuns).testBit c.toNat = false)
    (hdotted : c ≠ 'İ') : small c = [c] := by
  rw [small_of_ne_dotted hdotted, moveBy_of_not_marked isSound_smallRuns h]

/-! ### Small texts -/

/-- The character is its own small form, at any place of a text. -/
def IsSmall (c : CodePoint) : Prop :=
  c ≠ 'Σ' ∧ small c = [c]

instance (c : CodePoint) : Decidable (IsSmall c) :=
  inferInstanceAs (Decidable (c ≠ 'Σ' ∧ small c = [c]))

theorem isSmall_of_mem_small {c d : CodePoint} (h : d ∈ small c) : IsSmall d := by
  unfold small at h
  split at h
  · rcases List.mem_cons.mp h with rfl | h
    · decide +kernel
    · rw [List.mem_singleton.mp h]
      decide +kernel
  · next hdotted =>
    have hsource : (sourceMarks smallRuns).testBit (moveBy smallRuns c).toNat = false :=
      testBit_moveBy_eq_false isSound_smallRuns leadsOut_smallRuns id
    rw [← List.mem_singleton.mp h] at hsource
    have hsigma : d ≠ 'Σ' := by
      rintro rfl
      exact absurd hsource (by decide +kernel)
    have hnotDotted : d ≠ 'İ' := by
      rintro rfl
      have himage : (imageMarks smallRuns).testBit 'İ'.toNat = false := by decide +kernel
      exact hdotted (beq_iff_eq.mpr
        (eq_of_moveBy isSound_smallRuns himage (List.mem_singleton.mp h).symm))
    exact ⟨hsigma, small_of_not_marked hsource hnotDotted⟩

theorem isSmall_of_mem_smallText {cs : List CodePoint} : ∀ d ∈ smallText cs, IsSmall d := by
  refine forall_mem_smallAfter (by decide +kernel) (by decide +kernel) ?_
  intro c _ d hd
  exact isSmall_of_mem_small hd

/-- A text without a capital sigma is made small character by character. -/
theorem smallAfter_eq_flatMap {before cs : List CodePoint} (h : CodePoint.ofChar 'Σ' ∉ cs) :
    smallAfter before cs = cs.flatMap small := by
  induction cs generalizing before with
  | nil => rfl
  | cons c cs ih =>
    rw [List.mem_cons, not_or] at h
    rw [smallAfter, if_neg (fun heq => h.1 (beq_iff_eq.mp heq).symm), ih h.2, List.flatMap_cons]

/-- A small text stays as it is. -/
theorem smallText_of_isSmall {cs : List CodePoint} (h : ∀ c ∈ cs, IsSmall c) :
    smallText cs = cs := by
  have hsigma : CodePoint.ofChar 'Σ' ∉ cs := fun hmem => (h _ hmem).1 rfl
  rw [smallText, smallAfter_eq_flatMap hsigma, List.flatMap_congr fun c hc => (h c hc).2,
    List.flatMap_singleton']

/-! ### Underscores -/

/-- Not both characters are underscores. -/
def Apart (a b : CodePoint) : Prop :=
  a = '_' → b ≠ '_'

theorem underscore_mem_small {c : CodePoint} (h : CodePoint.ofChar '_' ∈ small c) :
    c = '_' ∧ small c = [.ofChar '_'] := by
  obtain rfl := eq_of_mem_small (by decide) h
  exact ⟨rfl, by decide +kernel⟩

/-- What a character becomes; only an underscore becomes one, and nothing else with it. -/
theorem exists_smallAfter_cons (before : List CodePoint) (c : CodePoint) (cs : List CodePoint) :
    ∃ piece, smallAfter before (c :: cs) = piece ++ smallAfter (c :: before) cs ∧ piece ≠ [] ∧
      (CodePoint.ofChar '_' ∈ piece → c = '_' ∧ piece = [.ofChar '_']) := by
  refine ⟨_, rfl, ?_⟩
  split
  · refine ⟨List.cons_ne_nil _ _, ?_⟩
    split
    · exact fun h => absurd h (by decide)
    · exact fun h => absurd h (by decide)
  · refine ⟨?_, underscore_mem_small⟩
    unfold small
    split
    · exact List.cons_ne_nil _ _
    · exact List.cons_ne_nil _ _

theorem isChain_apart_append {piece rest : List CodePoint} (hpiece : CodePoint.ofChar '_' ∉ piece)
    (hrest : rest.IsChain Apart) : (piece ++ rest).IsChain Apart := by
  induction piece with
  | nil => exact hrest
  | cons c cs ih =>
    rw [List.mem_cons, not_or] at hpiece
    exact List.isChain_cons.mpr ⟨fun _ _ hc => absurd hc.symm hpiece.1, ih hpiece.2⟩

/-- Underscores do not come together when a text is made small. -/
theorem isChain_apart_smallAfter {before cs : List CodePoint} (h : cs.IsChain Apart) :
    (smallAfter before cs).IsChain Apart := by
  induction cs generalizing before with
  | nil => exact .nil
  | cons c cs ih =>
    obtain ⟨hnext, hrest⟩ := List.isChain_cons.mp h
    obtain ⟨piece, hsplit, -, hunderscore⟩ := exists_smallAfter_cons before c cs
    rw [hsplit]
    by_cases hmem : CodePoint.ofChar '_' ∈ piece
    · obtain ⟨rfl, rfl⟩ := hunderscore hmem
      refine List.isChain_cons.mpr ⟨?_, ih hrest⟩
      rintro d hd - rfl
      exact hnext '_' (head_smallAfter hd) rfl rfl
    · exact isChain_apart_append hmem (ih hrest)

/-- A text in small letters ends in an underscore only if the text itself does. -/
theorem getLast_smallAfter {before cs : List CodePoint}
    (h : (smallAfter before cs).getLast? = some (.ofChar '_')) :
    cs.getLast? = some (.ofChar '_') := by
  induction cs generalizing before with
  | nil => cases h
  | cons c cs ih =>
    obtain ⟨piece, hsplit, -, hunderscore⟩ := exists_smallAfter_cons before c cs
    rw [hsplit, List.getLast?_append] at h
    cases cs with
    | nil =>
      rw [(hunderscore (List.mem_of_getLast? h)).1]
      rfl
    | cons d ds =>
      obtain ⟨next, hnext, hne, -⟩ := exists_smallAfter_cons (c :: before) d ds
      have hlast : (smallAfter (c :: before) (d :: ds)).getLast? = some (.ofChar '_') := by
        cases htail : (smallAfter (c :: before) (d :: ds)).getLast? with
        | none =>
          rw [List.getLast?_eq_none_iff, hnext] at htail
          exact absurd (List.append_eq_nil_iff.mp htail).1 hne
        | some e =>
          rw [htail] at h
          exact h
      rw [List.getLast?_cons_cons]
      exact ih hlast

/-! ### ASCII -/

theorem isAlpha_of_isUpper {c : CodePoint} (h : c.isUpper = true) : c.isAlpha = true :=
  Bool.or_eq_true_iff.mpr (.inl h)

theorem isAlphanum_of_isAlpha {c : CodePoint} (h : c.isAlpha = true) : c.isAlphanum = true :=
  Bool.or_eq_true_iff.mpr (.inl h)

/-- A character of ASCII becomes its small form there, and stays a letter or a digit if it is
one. -/
theorem small_of_isAscii {c : CodePoint} (h : c.toNat < 128) :
    small c = [c.toLower] ∧ (c.isAlpha = true → c.toLower.isAlpha = true) ∧
      (c.isAlphanum = true → c.toLower.isAlphanum = true) := by
  have htable : ∀ c : CodePoint, c.toNat < 128 →
      (c.isUpper = true ∧ small c = [c.toLower] ∨
        (sourceMarks smallRuns).testBit c.toNat = false ∧ c.toLower = c) ∧
      (c.isAlpha = true → c.toLower.isAlpha = true) ∧
      (c.isAlphanum = true → c.toLower.isAlphanum = true) := forall_ascii (by decide +kernel)
  have hchar := htable c h
  refine ⟨?_, hchar.2⟩
  rcases hchar.1 with ⟨-, hsmall⟩ | ⟨hstays, hlower⟩
  · exact hsmall
  · rw [hlower]
    refine small_of_not_marked hstays ?_
    rintro rfl
    exact absurd h (by decide)

theorem smallText_of_isAscii {cs : List CodePoint} (h : ∀ c ∈ cs, c.toNat < 128) :
    smallText cs = cs.map CodePoint.toLower := by
  have hsigma : CodePoint.ofChar 'Σ' ∉ cs := fun hmem => absurd (h _ hmem) (by decide)
  rw [smallText, smallAfter_eq_flatMap hsigma,
    List.flatMap_congr fun c hc => (small_of_isAscii (h c hc)).1, ← List.map_eq_flatMap]

end CodecMocks.Text
