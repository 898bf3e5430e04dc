import CodecMocks.Text.CodeText

/-!
# Names that are taken

A name is taken if it is a keyword of Python or a member that the enclosing class already has. A
taken name gets an underscore at its end.
-/

namespace CodecMocks.Naming

/-- The keywords of Python. -/
def keywords : List CodeText :=
  (["False", "None", "True", "and", "as", "assert", "async", "await", "break", "class", "continue",
   "def", "del", "elif", "else", "except", "finally", "for", "from", "global", "if", "import",
   "in", "is", "lambda", "nonlocal", "not", "or", "pass", "raise", "return", "try", "while",
   "with", "yield"] : List String).map .ofString

/-- `name` cannot be used as it is. -/
def isTaken (name : CodeText) (reserved : List CodeText) : Bool :=
  keywords.contains name || reserved.contains name

/-- The name itself, or with an underscore at its end if it is taken. -/
def avoidTaken (name : CodeText) (reserved : List CodeText) : CodeText :=
  if isTaken name reserved then name ++ "_" else name

theorem isTaken_iff {name : CodeText} {reserved : List CodeText} :
    isTaken name reserved = true ↔ name ∈ keywords ∨ name ∈ reserved := by
  rw [isTaken, Bool.or_eq_true, List.contains_iff_mem, List.contains_iff_mem]

theorem avoidTaken_of_not_taken {name : CodeText} {reserved : List CodeText}
    (h : isTaken name reserved = false) : avoidTaken name reserved = name := by
  simp [avoidTaken, h]

/-- No keyword ends in an underscore. -/
theorem append_underscore_not_mem_keywords (name : CodeText) : name ++ "_" ∉ keywords := by
  have hlast : ∀ k ∈ keywords, k.toList.getLast? ≠ some (.ofChar '_') := by decide +kernel
  intro hmem
  exact hlast _ hmem (by simp [CodeText.toList_ofString])

theorem avoidTaken_eq_append_iff {name : CodeText} {reserved : List CodeText} :
    avoidTaken name reserved = name ++ "_" ↔ name ∈ keywords ∨ name ∈ reserved := by
  have hne : name ≠ name ++ "_" := by
    intro h
    have hlength := congrArg CodeText.length h
    rw [CodeText.length_append] at hlength
    exact absurd hlength (Nat.ne_of_lt (Nat.lt_succ_self _))
  rw [avoidTaken, ← isTaken_iff]
  split
  · next htaken => exact iff_of_true rfl htaken
  · next htaken => exact iff_of_false hne htaken

theorem avoidTaken_not_mem_keywords (name : CodeText) (reserved : List CodeText) :
    avoidTaken name reserved ∉ keywords := by
  rw [avoidTaken]
  split
  · exact append_underscore_not_mem_keywords name
  · next htaken => exact fun hmem => htaken (isTaken_iff.mpr (.inl hmem))

end CodecMocks.Naming
