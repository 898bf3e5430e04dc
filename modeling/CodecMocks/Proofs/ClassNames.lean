import CodecMocks.Proofs.SmallLetters

/-!
# The words of class names

A class name is made word by word. Separators only tell words apart: how many there are, and whether
some stand before the first word or after the last, makes no difference. A class name has no
separator, so it is a single word, and it starts with a capital form, so it stays as it is when a
class name is made from it. The capital form of one character may be several characters; the first
of them is its own capital form.

* `isCapital_of_head_capital`: what the tables of capital letters lead to is left in place by them.
* `joinWords_eq_flatMap`: words are joined by splitting at the separators.
* `isSeparator_of_mem_joinWords`, `head_joinWords`: what a joined name is made of and starts with.
* `className_joins_words`: all of this of every class name.
-/

namespace CodecMocks.Text

/-! ### The tables of capital letters -/

/-- The character is its own capital form. -/
def IsCapital (c : CodePoint) : Prop :=
  capital c = [c]

instance (c : CodePoint) : Decidable (IsCapital c) :=
  inferInstanceAs (Decidable (capital c = [c]))

/-- The characters that the tables of capital letters cover. -/
def capitalSources : Nat :=
  marks (capitalExpansions.map (·.1)) ||| sourceMarks capitalRuns

theorem isCapital_of_not_marked {c : CodePoint} (h : capitalSources.testBit c.toNat = false) :
    IsCapital c := by
  rw [capitalSources, Nat.testBit_or, Bool.or_eq_false_iff] at h
  have hexpansion : capitalExpansions.find? (·.1 == c.toNat) = none := by
    rw [List.find?_eq_none]
    intro entry hentry hsame
    have hmem : c.toNat ∈ capitalExpansions.map (·.1) :=
      beq_iff_eq.mp hsame ▸ List.mem_map_of_mem hentry
    rw [testBit_marks.mpr hmem] at h
    cases h.1
  rw [IsCapital, capital, hexpansion]
  dsimp only
  rw [moveBy_of_not_marked isSound_capitalRuns h.2]

/-- The runs lead to no character that has a capital form of its own. -/
theorem leadsOut_capitalRuns : imageMarks capitalRuns &&& capitalSources = 0 := by
  decide +kernel

theorem capital_ne_nil (c : CodePoint) : capital c ≠ [] := by
  have hexpansions : ∀ entry ∈ capitalExpansions, entry.2.map CodePoint.ofNat ≠ [] := by decide
  unfold capital
  split
  · next entry hentry => exact hexpansions entry (List.mem_of_find?_eq_some hentry)
  · exact List.cons_ne_nil _ _

/-- **The first character of a capital form is its own capital form.** -/
theorem isCapital_of_head_capital {c d : CodePoint} (h : (capital c).head? = some d) :
    IsCapital d := by
  have hexpansions : ∀ entry ∈ capitalExpansions, ∀ point ∈ entry.2.head?,
      capitalSources.testBit (CodePoint.ofNat point).toNat = false := by decide +kernel
  apply isCapital_of_not_marked
  unfold capital at h
  split at h
  · next entry hentry =>
    rw [List.head?_map, Option.map_eq_some_iff] at h
    obtain ⟨point, hpoint, rfl⟩ := h
    exact hexpansions entry (List.mem_of_find?_eq_some hentry) point hpoint
  · next hentry =>
    obtain rfl := Option.some.inj h
    apply testBit_moveBy_eq_false isSound_capitalRuns leadsOut_capitalRuns
    intro hstays
    rw [capitalSources, Nat.testBit_or, hstays, Bool.or_false, Bool.eq_false_iff]
    intro hmarked
    obtain ⟨entry, hmem, hsame⟩ := List.mem_map.mp (testBit_marks.mp hmarked)
    exact List.find?_eq_none.mp hentry entry hmem (beq_iff_eq.mpr hsame)

end CodecMocks.Text

namespace CodecMocks.Naming

open CodecMocks.Text

/-! ### Words -/

/-- The text has separators only. -/
def AreSeparators (text : CodeText) : Prop :=
  ∀ c ∈ text.toList, isSeparator c = true

instance (text : CodeText) : Decidable (AreSeparators text) :=
  decidable_of_iff (text.toList.all isSeparator = true) List.all_eq_true

/-- The words are joined by splitting at the separators. A part of the name that goes on with a word
keeps the rest of this word as it is. -/
theorem exists_joinWords_eq (cs : List CodePoint) :
    ∃ first rest, cs.splitOnP isSeparator = first :: rest ∧
      ∀ starting, joinWords starting cs =
        (if starting then capitalizeFirst first else first) ++ rest.flatMap capitalizeFirst := by
  induction cs with
  | nil => exact ⟨[], [], rfl, fun starting => by cases starting <;> rfl⟩
  | cons c cs ih =>
    obtain ⟨first, rest, hsplit, hjoin⟩ := ih
    rw [List.splitOnP_cons_eq_if_modifyHead, hsplit]
    by_cases hc : isSeparator c = true
    · rw [if_pos hc]
      refine ⟨[], first :: rest, rfl, ?_⟩
      intro starting
      rw [joinWords_separator hc, hjoin true, if_pos rfl, List.flatMap_cons]
      cases starting <;> rfl
    · rw [if_neg hc]
      refine ⟨c :: first, rest, rfl, ?_⟩
      intro starting
      rw [joinWords, if_neg hc, hjoin false, if_neg Bool.false_ne_true, ← List.append_assoc]
      cases starting <;> rfl

/-- The words of a name are what lies between the separators. -/
theorem joinWords_eq_flatMap (cs : List CodePoint) :
    joinWords true cs = (cs.splitOnP isSeparator).flatMap capitalizeFirst := by
  obtain ⟨first, rest, hsplit, hjoin⟩ := exists_joinWords_eq cs
  rw [hjoin true, if_pos rfl, hsplit, List.flatMap_cons]

/-- Separators before a part make no difference, but that its first word starts at once. -/
theorem joinWords_separators_append {run : List CodePoint} (h : ∀ c ∈ run, isSeparator c = true)
    (cs : List CodePoint) : joinWords true (run ++ cs) = joinWords true cs := by
  induction run with
  | nil => rfl
  | cons c run ih =>
    rw [List.cons_append, joinWords_separator (h c List.mem_cons_self),
      ih fun d hd => h d (List.mem_cons_of_mem c hd)]

/-- Two parts with separators between them are joined on their own. -/
theorem joinWords_append_separators {run : List CodePoint} (hne : run ≠ [])
    (h : ∀ c ∈ run, isSeparator c = true) (before after : List CodePoint) :
    joinWords true (before ++ run ++ after) = joinWords true before ++ joinWords true after := by
  cases run with
  | nil => exact absurd rfl hne
  | cons c run =>
    rw [List.append_assoc, List.cons_append,
      joinWords_append_separator true before _ (h c List.mem_cons_self),
      joinWords_separators_append fun d hd => h d (List.mem_cons_of_mem c hd)]

theorem isSeparator_of_mem_capital {c d : CodePoint} (hc : isSeparator c = false)
    (h : d ∈ capital c) :
    isSeparator d = false := by
  have hblank := isBlank_of_mem_capital (isBlank_of_not_isSeparator (Bool.eq_false_iff.mp hc)) h
  rw [Bool.eq_false_iff]
  intro hd
  simp only [isSeparator, hblank, Bool.or_false, Bool.or_eq_true, beq_iff_eq] at hd
  rcases hd with rfl | rfl
  · rw [eq_of_mem_capital (by decide +kernel) (by decide +kernel) h] at hc
    cases hc
  · rw [eq_of_mem_capital (by decide +kernel) (by decide +kernel) h] at hc
    cases hc

theorem isSeparator_of_mem_joinWords {starting : Bool} {cs : List CodePoint} {d : CodePoint}
    (h : d ∈ joinWords starting cs) : isSeparator d = false := by
  obtain ⟨c, -, hc, rfl | hd⟩ := exists_of_mem_joinWords h
  · exact hc
  · exact isSeparator_of_mem_capital hc hd

/-- A joined name starts with the capital form of the first character that is no separator. -/
theorem head_joinWords (cs : List CodePoint) :
    (joinWords true cs).head? = (cs.dropWhile isSeparator).head?.bind (capital · |>.head?) := by
  induction cs with
  | nil => rfl
  | cons c cs ih =>
    by_cases hc : isSeparator c = true
    · rw [joinWords_separator hc, ih, List.dropWhile_cons_of_pos hc]
    · rw [joinWords, if_neg hc, if_pos rfl, List.dropWhile_cons_of_neg hc,
        List.head?_append_of_ne_nil _ (capital_ne_nil c)]
      rfl

/-- A name without separators is one word. -/
theorem joinWords_of_noSeparator {cs : List CodePoint} (h : ∀ c ∈ cs, isSeparator c = false) :
    joinWords true cs = capitalizeFirst cs := by
  rw [joinWords_eq_flatMap, List.splitOnP_eq_singleton h, List.flatMap_singleton]

theorem capitalizeFirst_of_isCapital {cs : List CodePoint} (h : ∀ c ∈ cs.head?, IsCapital c) :
    capitalizeFirst cs = cs := by
  cases cs with
  | nil => rfl
  | cons c cs =>
    have hc : capital c = [c] := h c rfl
    rw [capitalizeFirst, hc]
    rfl

theorem joinWords_joinWords (cs : List CodePoint) :
    joinWords true (joinWords true cs) = joinWords true cs := by
  rw [joinWords_of_noSeparator fun _ => isSeparator_of_mem_joinWords]
  apply capitalizeFirst_of_isCapital
  intro d hd
  rw [head_joinWords] at hd
  obtain ⟨c, -, hfirst⟩ := Option.bind_eq_some_iff.mp hd
  exact isCapital_of_head_capital hfirst

/-! ### Class names -/

theorem className_append_separators {run : CodeText} (hne : run ≠ "") (h : AreSeparators run)
    (before after : CodeText) :
    className (before ++ run ++ after) = className before ++ className after := by
  have hchars : run.toList ≠ [] := fun hnil => hne (CodeText.toList_eq_nil_iff.mp hnil)
  rw [className, className, className, CodeText.toList_append, CodeText.toList_append,
    joinWords_append_separators hchars h, CodeText.ofList_append]

theorem className_separators_append {front : CodeText} (h : AreSeparators front) (name : CodeText) :
    className (front ++ name) = className name := by
  rw [className, className, CodeText.toList_append, joinWords_separators_append h]

theorem className_append_separators_end {back : CodeText} (h : AreSeparators back)
    (name : CodeText) :
    className (name ++ back) = className name := by
  by_cases hne : back = ""
  · rw [hne, CodeText.append_empty]
  · have hparts := className_append_separators hne h name ""
    rwa [CodeText.append_empty, show className "" = "" from rfl, CodeText.append_empty] at hparts

/-- **Class names are made of words.** A class name is the words of the schema name, which lie
between its separators, each with its first character in its capital form. So two parts with
separators between them make their class names one after the other, and it makes no difference how
many separators stand there or at the ends. The class name has no separator, and is its own class
name. -/
theorem className_joins_words (name : CodeText) :
    (className name).toList = (name.toList.splitOnP isSeparator).flatMap capitalizeFirst ∧
    (∀ c ∈ (className name).toList, isSeparator c = false) ∧
    className (className name) = className name ∧
    (∀ front back : CodeText, AreSeparators front → AreSeparators back →
      className (front ++ name ++ back) = className name) ∧
    ∀ run after : CodeText, run ≠ "" → AreSeparators run →
      className (name ++ run ++ after) = className name ++ className after ∧
        ∀ other : CodeText, other ≠ "" → AreSeparators other →
          className (name ++ other ++ after) = className (name ++ run ++ after) := by
  have hchars : (className name).toList = joinWords true name.toList := CodeText.toList_ofList _
  refine ⟨?_, ?_, ?_, ?_, ?_⟩
  · rw [hchars, joinWords_eq_flatMap]
  · rw [hchars]
    exact fun _ => isSeparator_of_mem_joinWords
  · rw [className, hchars, joinWords_joinWords]
    rfl
  · intro front back hfront hback
    rw [className_append_separators_end hback, className_separators_append hfront]
  · intro run after hne hrun
    refine ⟨className_append_separators hne hrun name after, ?_⟩
    intro other hne' hother
    rw [className_append_separators hne' hother, className_append_separators hne hrun]

/-- The capital forms of the first characters are several characters, and the separators are of
three kinds. -/
theorem fishSizes_className :
    AreSeparators "_-\t" ∧ AreSeparators "\u00a0" ∧
      className ("ﬁsh" ++ "_-\t" ++ "ŉ ßizes") = "FIshʼNSSizes" ∧
      className ("ﬁsh" ++ "\u00a0" ++ "ŉ ßizes") = className ("ﬁsh" ++ "_-\t" ++ "ŉ ßizes") ∧
      className ("\u00a0" ++ "ŉ ßizes" ++ "_-\t") = className "ŉ ßizes" ∧
      className (className ("ﬁsh" ++ "_-\t" ++ "ŉ ßizes")) = "FIshʼNSSizes" := by
  have hrun : AreSeparators "_-\t" := by decide
  have hother : AreSeparators "\u00a0" := by decide
  have hname : className ("ﬁsh" ++ "_-\t" ++ "ŉ ßizes") = "FIshʼNSSizes" := by decide +kernel
  refine ⟨hrun, hother, hname, ?_, ?_, ?_⟩
  · exact ((className_joins_words "ﬁsh").2.2.2.2 "_-\t" "ŉ ßizes" (by decide) hrun).2
      "\u00a0" (by decide) hother
  · exact (className_joins_words "ŉ ßizes").2.2.2.1 "\u00a0" "_-\t" hother hrun
  · rw [(className_joins_words _).2.2.1, hname]

end CodecMocks.Naming
