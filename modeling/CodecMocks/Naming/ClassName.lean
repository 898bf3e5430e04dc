import CodecMocks.Text.Blank
import CodecMocks.Text.Case

/-!
# Class names

The words of a schema name are separated by underscores, hyphens and blanks. A class name joins the
words, each with its first character in its capital form.
-/

namespace CodecMocks.Naming

open CodecMocks.Text

/-- `c` separates words. -/
def isSeparator (c : CodePoint) : Bool :=
  c == '_' || c == '-' || isBlank c

/-- The words of a name joined; `starting` says that a new word may start at once. -/
def joinWords (starting : Bool) : List CodePoint → List CodePoint
  | [] => []
  | c :: cs =>
    if isSeparator c then joinWords true cs
    else (if starting then capital c else [c]) ++ joinWords false cs

/-- The class name of a schema name, e.g. `BoosterType` for `booster_type`. -/
def className (name : CodeText) : CodeText :=
  CodeText.ofList (joinWords true name.toList)

/-- The name of the mock of a class. -/
def mockName (className : CodeText) : CodeText :=
  className ++ "Mock"

@[simp] theorem joinWords_nil (starting : Bool) : joinWords starting [] = [] := rfl

/-- A separator ends a word and leaves no trace of its own. -/
@[simp] theorem joinWords_separator {starting : Bool} {c : CodePoint} {cs : List CodePoint}
    (h : isSeparator c = true) : joinWords starting (c :: cs) = joinWords true cs := by
  simp [joinWords, h]

/-- Two parts with a separator between them are joined on their own. -/
theorem joinWords_append_separator (starting : Bool) (before after : List CodePoint) {c : CodePoint}
    (h : isSeparator c = true) :
    joinWords starting (before ++ c :: after) =
      joinWords starting before ++ joinWords true after := by
  induction before generalizing starting with
  | nil => simp [h]
  | cons b bs ih =>
    by_cases hb : isSeparator b = true
    · simp [hb, ih]
    · simp [joinWords, hb, ih]

/-- Each character of the joined words is one of the name, or of the capital form of one. -/
theorem exists_of_mem_joinWords {starting : Bool} {cs : List CodePoint} {d : CodePoint}
    (h : d ∈ joinWords starting cs) :
    ∃ c ∈ cs, isSeparator c = false ∧ (d = c ∨ d ∈ capital c) := by
  induction cs generalizing starting with
  | nil => cases h
  | cons c cs ih =>
    have hrest {starting : Bool} (h : d ∈ joinWords starting cs) :
        ∃ b ∈ c :: cs, isSeparator b = false ∧ (d = b ∨ d ∈ capital b) := by
      obtain ⟨b, hb, hmade⟩ := ih h
      exact ⟨b, List.mem_cons_of_mem c hb, hmade⟩
    by_cases hc : isSeparator c = true
    · rw [joinWords_separator hc] at h
      exact hrest h
    · rw [joinWords, if_neg hc] at h
      rcases List.mem_append.mp h with h | h
      · refine ⟨c, List.mem_cons_self, Bool.eq_false_iff.mpr hc, ?_⟩
        split at h
        · exact .inr h
        · exact .inl (List.mem_singleton.mp h)
      · exact hrest h

end CodecMocks.Naming
