import CodecMocks.Proofs.CodeMarks
import CodecMocks.Proofs.PropertyNames

/-!
# Names without blanks

A schema name may hold any characters, line ends among them. The names that are made from it hold no
blank: blanks separate words, and neither the small nor the capital form of a character is one.

* `isBlank_moveBy`: case mappings do not lead to blanks.
* `unbroken_className`, `unbroken_propertyName`: the two kinds of names.
-/

namespace CodecMocks.Text

/-- The text has no blank character. -/
def Unbroken (text : CodeText) : Prop :=
  ∀ c ∈ text.toList, isBlank c = false

instance (text : CodeText) : Decidable (Unbroken text) :=
  decidable_of_iff (text.toList.all (!isBlank ·) = true) (by simp [Unbroken])

theorem Unbroken.append {a b : CodeText} (ha : Unbroken a) (hb : Unbroken b) :
    Unbroken (a ++ b) := by
  intro c hc
  rcases List.mem_append.mp ((CodeText.toList_append _ _) ▸ hc) with hc | hc
  · exact ha c hc
  · exact hb c hc

/-! ### Case mappings -/

/-- The code points of the blanks. -/
def blankPoints : List Nat :=
  [0x9, 0xA, 0xB, 0xC, 0xD, 0x1C, 0x1D, 0x1E, 0x1F, 0x20, 0x85, 0xA0, 0x1680, 0x2000, 0x2001,
   0x2002, 0x2003, 0x2004, 0x2005, 0x2006, 0x2007, 0x2008, 0x2009, 0x200A, 0x2028, 0x2029, 0x202F,
   0x205F, 0x3000]

theorem mem_blankPoints_of_isBlank {c : CodePoint} (h : isBlank c = true) :
    c.toNat ∈ blankPoints := by
  simp only [isBlank, Bool.or_eq_true, Bool.and_eq_true, decide_eq_true_eq, beq_iff_eq] at h
  simp only [blankPoints, List.mem_cons, List.not_mem_nil, or_false]
  omega

/-- A character that neither a run nor an expansion leads to is in the capital form of itself
only. -/
theorem eq_of_mem_capital {c d : CodePoint}
    (himage : (imageMarks capitalRuns).testBit d.toNat = false)
    (hexpansions : ∀ entry ∈ capitalExpansions, d ∉ entry.2.map CodePoint.ofNat)
    (h : d ∈ capital c) : c = d := by
  unfold capital at h
  split at h
  · next entry hentry => exact absurd h (hexpansions entry (List.mem_of_find?_eq_some hentry))
  · exact eq_of_moveBy isSound_capitalRuns himage (List.mem_singleton.mp h).symm

/-- A case mapping that does not lead to blanks makes none. -/
theorem isBlank_moveBy {runs : List CaseRun} (hruns : ∀ run ∈ runs, run.IsSound)
    (havoids : marks blankPoints &&& imageMarks runs = 0) {c : CodePoint} (hc : isBlank c = false) :
    isBlank (moveBy runs c) = false := by
  rw [Bool.eq_false_iff]
  intro hblank
  have hpoint := testBit_marks.mpr (mem_blankPoints_of_isBlank hblank)
  have hsame : c = moveBy runs c :=
    eq_of_moveBy hruns (testBit_eq_false_of_apart havoids hpoint) rfl
  rw [← hsame, hc] at hblank
  cases hblank

theorem isBlank_of_mem_small {c d : CodePoint} (hc : isBlank c = false) (h : d ∈ small c) :
    isBlank d = false := by
  unfold small at h
  split at h
  · rcases List.mem_cons.mp h with rfl | h
    · decide
    · rw [List.mem_singleton.mp h]
      decide
  · rw [List.mem_singleton.mp h]
    exact isBlank_moveBy isSound_smallRuns (by decide +kernel) hc

theorem isBlank_of_mem_capital {c d : CodePoint} (hc : isBlank c = false) (h : d ∈ capital c) :
    isBlank d = false := by
  have hexpansions : ∀ entry ∈ capitalExpansions, ∀ point ∈ entry.2,
      isBlank (CodePoint.ofNat point) = false := by decide +kernel
  unfold capital at h
  split at h
  · next entry hentry =>
    obtain ⟨point, hpoint, rfl⟩ := List.mem_map.mp h
    exact hexpansions entry (List.mem_of_find?_eq_some hentry) point hpoint
  · rw [List.mem_singleton.mp h]
    exact isBlank_moveBy isSound_capitalRuns (by decide +kernel) hc

end CodecMocks.Text

namespace CodecMocks.Naming

open CodecMocks.Text

/-! ### Names -/

theorem isBlank_of_not_isSeparator {c : CodePoint} (h : ¬ isSeparator c = true) :
    isBlank c = false := by
  simp only [isSeparator, Bool.or_eq_true, not_or, Bool.not_eq_true] at h
  exact h.2

theorem isBlank_of_mem_joinWords {starting : Bool} {cs : List CodePoint} {d : CodePoint}
    (h : d ∈ joinWords starting cs) : isBlank d = false := by
  obtain ⟨c, -, hc, hd⟩ := exists_of_mem_joinWords h
  have hblank := isBlank_of_not_isSeparator (Bool.eq_false_iff.mp hc)
  rcases hd with rfl | hd
  · exact hblank
  · exact isBlank_of_mem_capital hblank hd

theorem unbroken_className (name : CodeText) : Unbroken (className name) := by
  intro c hc
  rw [className, CodeText.toList_ofList] at hc
  exact isBlank_of_mem_joinWords hc

theorem unbroken_mockName {typeName : CodeText} (h : Unbroken typeName) :
    Unbroken (mockName typeName) :=
  h.append (by decide)

/-- Of the separators only underscores are left when runs of them are joined. -/
theorem mem_collapse {inRun : Bool} {cs : List CodePoint} {d : CodePoint}
    (h : d ∈ collapse inRun cs) :
    d = '_' ∨ d ∈ cs ∧ isSeparator d = false := by
  induction cs generalizing inRun with
  | nil => cases h
  | cons c cs ih =>
    have hrest {inRun : Bool} (h : d ∈ collapse inRun cs) :
        d = '_' ∨ d ∈ c :: cs ∧ isSeparator d = false :=
      (ih h).imp_right fun ⟨hmem, hd⟩ => ⟨List.mem_cons_of_mem c hmem, hd⟩
    rw [collapse] at h
    split at h
    · split at h
      · exact hrest h
      · exact (List.mem_cons.mp h).elim .inl hrest
    · next hc =>
      rcases List.mem_cons.mp h with rfl | h
      · exact .inr ⟨List.mem_cons_self, Bool.eq_false_iff.mpr hc⟩
      · exact hrest h

theorem isBlank_of_mem_collapse {inRun : Bool} {cs : List CodePoint} {d : CodePoint}
    (h : d ∈ collapse inRun cs) : isBlank d = false := by
  rcases mem_collapse h with rfl | ⟨-, hd⟩
  · decide
  · exact isBlank_of_not_isSeparator (Bool.eq_false_iff.mp hd)

theorem mem_of_mem_trimUnderscores {cs : List CodePoint} {d : CodePoint}
    (h : d ∈ trimUnderscores cs) :
    d ∈ cs := by
  have hfront := (List.dropWhile_suffix (· == CodePoint.ofChar '_')).mem (List.mem_reverse.mp h)
  exact (List.dropWhile_suffix (· == CodePoint.ofChar '_')).mem (List.mem_reverse.mp hfront)

theorem isBlank_of_mem_snakeCase {cs : List CodePoint} {d : CodePoint} (h : d ∈ snakeCase cs) :
    isBlank d = false := by
  refine forall_mem_smallAfter (P := (isBlank · = false)) (by decide) (by decide) ?_ d h
  intro c hc e he
  exact isBlank_of_mem_small (isBlank_of_mem_collapse (mem_of_mem_trimUnderscores hc)) he

theorem unbroken_avoidTaken {name : CodeText} (h : Unbroken name) (reserved : List CodeText) :
    Unbroken (avoidTaken name reserved) := by
  unfold avoidTaken
  split
  · exact h.append (by decide)
  · exact h

theorem unbroken_propertyName (name : CodeText) (reserved : List CodeText) :
    Unbroken (propertyName name reserved) := by
  apply unbroken_avoidTaken
  intro c hc
  rw [CodeText.toList_ofList] at hc
  exact isBlank_of_mem_snakeCase hc

end CodecMocks.Naming
