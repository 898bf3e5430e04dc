import CodecMocks.Lists
import CodecMocks.Proofs.ClassNames
import CodecMocks.Proofs.LeadingAcronyms

/-!
# Names that can be declared

The names that a schema language allows are identifiers themselves: a letter or an underscore, then
letters, digits and underscores, all of ASCII. What is made of them need not be one. Underscores are
taken away from the front, so that a digit may come first or nothing may be left; and the first
letter of a class name is made capital, so that the name may become a constant of Python, which no
underscore at the end makes way for.

* `IsName`: an identifier that is no keyword.
* `isName_propertyName_iff`: a property can be declared exactly if its schema name starts with a
  letter, underscores aside.
* `isName_className_iff`: a class can be declared exactly if, besides, the schema name spells no
  constant.
-/

namespace CodecMocks.Naming

open CodecMocks.Text

/-! ### Names -/

/-- The name can be declared: it is an identifier of ASCII and no keyword. -/
structure IsName (name : CodeText) : Prop where
  identifier : IsIdentifier name
  free : name ∉ keywords

instance (name : CodeText) : Decidable (IsIdentifier name) :=
  decidable_of_iff
    (name.toList.head?.any (fun c => c.isAlpha || c == CodePoint.ofChar '_') = true ∧
      name.toList.all (fun c => c.isAlphanum || c == CodePoint.ofChar '_') = true) <| by
    simp only [Option.any_eq_true, List.all_eq_true, Bool.or_eq_true, beq_iff_eq]
    exact ⟨fun h => ⟨h.1, h.2⟩, fun h => ⟨h.start, h.chars⟩⟩

instance (name : CodeText) : Decidable (IsName name) :=
  decidable_of_iff (IsIdentifier name ∧ name ∉ keywords)
    ⟨fun h => ⟨h.1, h.2⟩, fun h => ⟨h.identifier, h.free⟩⟩

/-- The first character that is no underscore is a letter. -/
def StartsWithLetter (name : CodeText) : Prop :=
  ∃ c, (name.toList.dropWhile (· == CodePoint.ofChar '_')).head? = some c ∧ c.isAlpha = true

instance (name : CodeText) : Decidable (StartsWithLetter name) :=
  decidable_of_iff
    ((name.toList.dropWhile (· == CodePoint.ofChar '_')).head?.any CodePoint.isAlpha = true)
    (Option.any_eq_true _ _)

/-- The constants of Python, with either case of the first letter. -/
def constantSpellings : List CodeText :=
  ["False", "None", "True", "false", "none", "true"]

/-- Without the underscores at its ends the name spells a constant. -/
def SpellsConstant (name : CodeText) : Prop :=
  CodeText.ofList (trimUnderscores name.toList) ∈ constantSpellings

instance (name : CodeText) : Decidable (SpellsConstant name) :=
  inferInstanceAs (Decidable (_ ∈ constantSpellings))

/-- What makes way for taken names can be declared if it is an identifier. -/
theorem IsIdentifier.isName_avoidTaken {name : CodeText} (h : IsIdentifier name)
    (reserved : List CodeText) : IsName (avoidTaken name reserved) where
  identifier := by
    unfold avoidTaken
    split
    · exact h.append_underscore
    · exact h
  free := avoidTaken_not_mem_keywords name reserved

/-! ### Characters of identifiers -/

section

variable {c : CodePoint}

/-- A digit has no case. -/
theorem digit_stays (h : c.isDigit = true) :
    isSeparator c = false ∧ small c = [c] ∧ capital c = [c] ∧
      c.isAlpha = false ∧ c.isLower = false ∧ c ≠ '_' := by
  have htable : ∀ c : CodePoint, c.toNat < 128 → c.isDigit = true →
      (isSeparator c = false ∧ c.isAlpha = false ∧ c.isLower = false ∧ c ≠ '_') ∧
        c.toLower = c ∧ capitalSources.testBit c.toNat = false := forall_ascii (by decide +kernel)
  have hlt : c.toNat < 128 := by
    rw [isDigit_iff] at h
    omega
  obtain ⟨⟨hseparator, hletter, hlower, hne⟩, hsame, hcapital⟩ := htable c hlt h
  have hsmall := (small_of_isAscii hlt).1
  rw [hsame] at hsmall
  exact ⟨hseparator, hsmall, isCapital_of_not_marked hcapital, hletter, hlower, hne⟩

/-- A letter becomes a capital, from which it differs in nothing but its case. -/
theorem capital_of_isAlpha (h : c.isAlpha = true) :
    ∃ d, capital c = [d] ∧ d.isUpper = true ∧ (c = d ∨ c = d.toLower) := by
  have htable : ∀ c : CodePoint, c.toNat < 128 → c.isAlpha = true →
      (capitalSources.testBit c.toNat = false ∧ c.isUpper = true) ∨
        (capital c = [c.toUpper] ∧ c.toUpper.isUpper = true ∧ c = c.toUpper.toLower) :=
    forall_ascii (by decide +kernel)
  have hlt := lt_of_isAlphanum_or (.inl (isAlphanum_of_isAlpha h))
  rcases htable c hlt h with ⟨hstays, hupper⟩ | hmoved
  · exact ⟨c, isCapital_of_not_marked hstays, hupper, .inl rfl⟩
  · exact ⟨c.toUpper, hmoved.1, hmoved.2.1, .inr hmoved.2.2⟩

theorem isAlpha_or_isDigit (h : c.isAlphanum = true) : c.isAlpha = true ∨ c.isDigit = true :=
  Bool.or_eq_true_iff.mp h

/-- The capital form of a letter is a letter, that of a digit is none. -/
theorem capital_of_isAlphanum (h : c.isAlphanum = true) :
    ∃ d, capital c = [d] ∧ d.isAlphanum = true ∧ d.isLower = false ∧
      (d.isAlpha = true ∨ d = '_' ↔ c.isAlpha = true) ∧ (c = d ∨ c = d.toLower) := by
  rcases isAlpha_or_isDigit h with hc | hc
  · obtain ⟨d, hcapital, hupper, hcase⟩ := capital_of_isAlpha hc
    have halpha := isAlpha_of_isUpper hupper
    exact ⟨d, hcapital, isAlphanum_of_isAlpha halpha, isLower_eq_false_of_isUpper hupper,
      iff_of_true (.inl halpha) hc, hcase⟩
  · obtain ⟨-, -, hcapital, hletter, hlower, hne⟩ := digit_stays hc
    refine ⟨c, hcapital, h, hlower, ?_, .inl rfl⟩
    rw [hletter]
    exact iff_of_false (not_or.mpr ⟨Bool.false_ne_true, hne⟩) Bool.false_ne_true

/-- In an identifier only underscores separate words. -/
theorem isSeparator_of_isAlphanum (h : c.isAlphanum = true) : isSeparator c = false :=
  (isAlpha_or_isDigit h).elim isSeparator_of_isAlpha fun hc => (digit_stays hc).1

theorem isSeparator_eq_of_isAlphanum_or (h : c.isAlphanum = true ∨ c = '_') :
    isSeparator c = (c == '_') := by
  rcases h with h | rfl
  · have hseparator := isSeparator_of_isAlphanum h
    rw [hseparator, beq_false_of_ne (ne_underscore_of_not_isSeparator hseparator)]
  · decide

end

theorem dropWhile_isSeparator {cs : List CodePoint} (h : ∀ c ∈ cs, c.isAlphanum = true ∨ c = '_') :
    cs.dropWhile isSeparator = cs.dropWhile (· == CodePoint.ofChar '_') := by
  induction cs with
  | nil => rfl
  | cons c cs ih =>
    rw [List.dropWhile_cons, List.dropWhile_cons,
      isSeparator_eq_of_isAlphanum_or (h c List.mem_cons_self),
      ih fun d hd => h d (List.mem_cons_of_mem c hd)]

/-- What is left of an identifier without the underscores in front starts with a letter or a
digit. -/
theorem IsIdentifier.head_dropWhile {name : CodeText} (h : IsIdentifier name) {c : CodePoint}
    (hc : (name.toList.dropWhile (· == CodePoint.ofChar '_')).head? = some c) :
    c.isAlphanum = true := by
  have hmem := (List.dropWhile_suffix (· == CodePoint.ofChar '_')).mem (List.mem_of_mem_head? hc)
  rcases h.chars c hmem with halphanum | rfl
  · exact halphanum
  · have hhead := List.head?_dropWhile_not (· == CodePoint.ofChar '_') name.toList
    rw [hc] at hhead
    cases hhead

/-! ### Properties -/

theorem trimUnderscores_underscore_cons (cs : List CodePoint) :
    trimUnderscores ('_' :: cs) = trimUnderscores cs := rfl

/-- An underscore at the start of a run is trimmed anyway. -/
theorem trimUnderscores_collapse_true (cs : List CodePoint) :
    trimUnderscores (collapse true cs) = trimUnderscores (collapse false cs) := by
  cases cs with
  | nil => rfl
  | cons c cs =>
    rw [collapse, collapse]
    split
    · rw [if_pos rfl, if_neg Bool.false_ne_true, trimUnderscores_underscore_cons]
    · rfl

/-- An underscore in front makes no difference to the words of a name. -/
theorem snakeCase_underscore_cons (cs : List CodePoint) : snakeCase ('_' :: cs) = snakeCase cs := by
  cases cs with
  | nil => rfl
  | cons c cs =>
    have hstarts : startsBetween '_' c cs.head? = false := Bool.and_false _
    rw [snakeCase, snakeCase, splitCamel_splitAcronyms_cons, splitCamel_splitAcronyms_cons,
      insertWhere, hstarts, if_neg Bool.false_ne_true, List.singleton_append, collapse,
      if_pos (by decide), if_neg Bool.false_ne_true, trimUnderscores_underscore_cons,
      trimUnderscores_collapse_true]

theorem snakeCase_dropWhile (cs : List CodePoint) :
    snakeCase (cs.dropWhile (· == CodePoint.ofChar '_')) = snakeCase cs := by
  induction cs with
  | nil => rfl
  | cons c cs ih =>
    by_cases hc : c = '_'
    · rw [hc, snakeCase_underscore_cons, ← ih]
      rfl
    · rw [List.dropWhile_cons, beq_false_of_ne hc]
      rfl

theorem head_avoidTaken {name : CodeText} {c : CodePoint} (h : name.toList.head? = some c)
    (reserved : List CodeText) : (avoidTaken name reserved).toList.head? = some c := by
  unfold avoidTaken
  split
  · rw [CodeText.toList_append, List.head?_append, h]
    rfl
  · exact h

/-- **When a property can be declared.** -/
theorem isName_propertyName_iff {name : CodeText} {reserved : List CodeText} (h : IsIdentifier name)
    (hreserved : Reservable reserved) :
    IsName (propertyName name reserved) ↔ StartsWithLetter name := by
  rw [propertyName, ← snakeCase_dropWhile]
  constructor
  · intro hname
    obtain ⟨d, hd, hletter⟩ := hname.identifier.start
    cases hbare : name.toList.dropWhile (· == CodePoint.ofChar '_') with
    | nil =>
      have hfree : isTaken "" reserved = false := by
        rw [Bool.eq_false_iff, Ne, isTaken_iff, not_or]
        exact ⟨by decide, fun hmem => (hreserved "" hmem).1 rfl⟩
      rw [hbare, show CodeText.ofList (snakeCase []) = "" from rfl, avoidTaken_of_not_taken hfree]
        at hd
      cases hd
    | cons c cs =>
      have halphanum : c.isAlphanum = true := h.head_dropWhile (by rw [hbare]; rfl)
      refine ⟨c, by rw [hbare]; rfl, ?_⟩
      rcases isAlpha_or_isDigit halphanum with hc | hc
      · exact hc
      · -- The words start with this digit as well.
        obtain ⟨hseparator, hsmall, -, hother, -, hne⟩ := digit_stays hc
        have hhead : (CodeText.ofList (snakeCase (c :: cs))).toList.head? = some c := by
          rw [CodeText.toList_ofList, snakeCase_cons hseparator, hsmall]
          rfl
        rw [hbare, head_avoidTaken hhead, Option.some.injEq] at hd
        rw [← hd, hother] at hletter
        exact absurd hletter (not_or.mpr ⟨Bool.false_ne_true, hne⟩)
  · rintro ⟨c, hc, hletter⟩
    have hplain :
      IsPlainName (CodeText.ofList (name.toList.dropWhile (· == CodePoint.ofChar '_'))) := by
      constructor
      · rw [CodeText.toList_ofList]
        exact ⟨c, hc, hletter⟩
      · rw [CodeText.toList_ofList]
        exact fun d hd => h.chars d ((List.dropWhile_suffix _).mem hd)
    have hwords := hplain.ofList_snakeCase.isIdentifier
    rw [CodeText.toList_ofList] at hwords
    exact hwords.isName_avoidTaken reserved

/-! ### Classes -/

theorem isIdentifier_className_iff {name : CodeText} (h : IsIdentifier name) :
    IsIdentifier (className name) ↔ StartsWithLetter name := by
  have hchars : (className name).toList = joinWords true name.toList := CodeText.toList_ofList _
  have hhead := head_joinWords name.toList
  rw [dropWhile_isSeparator h.chars, ← hchars] at hhead
  constructor
  · rintro ⟨⟨d, hd, hletter⟩, -⟩
    rw [hhead, Option.bind_eq_some_iff] at hd
    obtain ⟨c, hc, hfirst⟩ := hd
    obtain ⟨e, hcapital, -, -, hiff, -⟩ := capital_of_isAlphanum (h.head_dropWhile hc)
    rw [hcapital] at hfirst
    obtain rfl : e = d := Option.some.inj hfirst
    exact ⟨c, hc, hiff.mp hletter⟩
  · rintro ⟨c, hc, hletter⟩
    obtain ⟨d, hcapital, -, -, hiff, -⟩ := capital_of_isAlphanum (h.head_dropWhile hc)
    constructor
    · refine ⟨d, ?_, hiff.mpr hletter⟩
      rw [hhead, hc, Option.bind_some, hcapital]
      rfl
    · intro e he
      rw [hchars] at he
      obtain ⟨b, hb, hseparator, hmade⟩ := exists_of_mem_joinWords he
      have halphanum : b.isAlphanum = true :=
        (h.chars b hb).resolve_right (ne_underscore_of_not_isSeparator hseparator)
      rcases hmade with rfl | hmade
      · exact .inl halphanum
      · obtain ⟨f, hf, hf', -⟩ := capital_of_isAlphanum halphanum
        rw [hf, List.mem_singleton] at hmade
        exact .inl (hmade ▸ hf')

/-- The underscores at the ends of a text. -/
theorem exists_eq_append_trimUnderscores (cs : List CodePoint) :
    ∃ front back : List CodePoint, (∀ c ∈ front, c = '_') ∧ (∀ c ∈ back, c = '_') ∧
      cs = front ++ trimUnderscores cs ++ back := by
  refine ⟨cs.takeWhile (· == CodePoint.ofChar '_'),
    (cs.dropWhile (· == CodePoint.ofChar '_')).rtakeWhile (· == CodePoint.ofChar '_'), ?_, ?_, ?_⟩
  · intro c hc
    have hunderscore := List.mem_takeWhile_imp hc
    exact beq_iff_eq.mp hunderscore
  · intro c hc
    have hunderscore := List.mem_rtakeWhile_imp hc
    exact beq_iff_eq.mp hunderscore
  · rw [List.append_assoc, trimUnderscores, List.rtakeWhile, ← List.reverse_append,
      List.takeWhile_append_dropWhile, List.reverse_reverse, List.takeWhile_append_dropWhile]

theorem className_trimUnderscores (name : CodeText) :
    className (CodeText.ofList (trimUnderscores name.toList)) = className name := by
  obtain ⟨front, back, hfront, hback, hname⟩ := exists_eq_append_trimUnderscores name.toList
  have hseparators {run : List CodePoint} (hrun : ∀ c ∈ run, c = '_') :
      AreSeparators (CodeText.ofList run) := by
    rw [AreSeparators, CodeText.toList_ofList]
    intro c hc
    rw [hrun c hc]
    decide
  have hparts : name = CodeText.ofList front ++ CodeText.ofList (trimUnderscores name.toList) ++
      CodeText.ofList back := by
    rw [← CodeText.ofList_append, ← CodeText.ofList_append, ← hname, CodeText.ofList_toList]
  conv_rhs => rw [hparts]
  rw [className_append_separators_end (hseparators hback),
    className_separators_append (hseparators hfront)]

/-- A word that starts has no small letter first, so small letters only come of no word. -/
theorem eq_underscore_of_isLower_joinWords {cs : List CodePoint}
    (hchars : ∀ c ∈ cs, c.isAlphanum = true ∨ c = '_')
    (h : ∀ d ∈ joinWords true cs, d.isLower = true) : ∀ c ∈ cs, c = '_' := by
  induction cs with
  | nil => exact fun _ hc => nomatch hc
  | cons c cs ih =>
    have hrest := List.forall_mem_cons.mp hchars
    rcases hrest.1 with halphanum | rfl
    · obtain ⟨d, hcapital, -, hlower, -⟩ := capital_of_isAlphanum halphanum
      rw [joinWords, isSeparator_of_isAlphanum halphanum, if_neg Bool.false_ne_true, if_pos rfl,
        hcapital] at h
      rw [h d List.mem_cons_self] at hlower
      cases hlower
    · rw [joinWords_separator (by decide)] at h
      exact List.forall_mem_cons.mpr ⟨rfl, ih hrest.2 h⟩

/-- The rest of a word that comes to nothing but small letters has no separators. -/
theorem joinWords_of_isLower {cs : List CodePoint}
    (hchars : ∀ c ∈ cs, c.isAlphanum = true ∨ c = '_')
    (hlast : cs.getLast? ≠ some (.ofChar '_')) (h : ∀ d ∈ joinWords false cs, d.isLower = true) :
    joinWords false cs = cs := by
  induction cs with
  | nil => rfl
  | cons c cs ih =>
    have hrest := List.forall_mem_cons.mp hchars
    rcases hrest.1 with halphanum | rfl
    · rw [joinWords, isSeparator_of_isAlphanum halphanum, if_neg Bool.false_ne_true,
        if_neg Bool.false_ne_true] at h ⊢
      rw [ih hrest.2 (getLast_ne_of_cons hlast) fun d hd => h d (List.mem_append_right _ hd)]
      rfl
    · rw [joinWords_separator (by decide)] at h
      have hall : ∀ c ∈ CodePoint.ofChar '_' :: cs, c = '_' :=
        List.forall_mem_cons.mpr ⟨rfl, eq_underscore_of_isLower_joinWords hrest.2 h⟩
      have hend := List.getLast?_eq_some_getLast (List.cons_ne_nil (CodePoint.ofChar '_') cs)
      rw [hall _ (List.getLast_mem _)] at hend
      exact absurd hend hlast

/-- The keywords that start with a capital. -/
theorem keywords_of_capital {first : CodePoint} {rest : List CodePoint}
    (h : CodeText.ofList (first :: rest) ∈ keywords) (hfirst : first.isLower = false) :
    (∀ c ∈ rest, c.isLower = true) ∧ CodeText.ofList (first :: rest) ∈ constantSpellings ∧
      CodeText.ofList (first.toLower :: rest) ∈ constantSpellings := by
  have htable : ∀ word ∈ keywords, word.toList.head?.all (fun a => a.isLower ||
      (word.toList.tail.all CodePoint.isLower &&
        constantSpellings.contains (CodeText.ofList (a :: word.toList.tail)) &&
        constantSpellings.contains (CodeText.ofList (a.toLower :: word.toList.tail)))) = true := by
    decide +kernel
  have hword := htable _ h
  rw [CodeText.toList_ofList] at hword
  simpa [hfirst, and_assoc] using hword

/-- Class names are keywords if the schema name spells a constant. -/
theorem className_mem_keywords_iff {name : CodeText} (h : IsIdentifier name) :
    className name ∈ keywords ↔ SpellsConstant name := by
  rw [← className_trimUnderscores, SpellsConstant]
  have hchars : ∀ c ∈ trimUnderscores name.toList, c.isAlphanum = true ∨ c = '_' :=
    fun c hc => h.chars c (mem_of_mem_trimUnderscores hc)
  have hhead := head_trimUnderscores name.toList
  have hlast := getLast_trimUnderscores name.toList
  constructor
  · intro hkeyword
    generalize trimUnderscores name.toList = cs at *
    rw [className, CodeText.toList_ofList] at hkeyword
    cases cs with
    | nil => exact absurd hkeyword (by decide)
    | cons c cs =>
      have hrest := List.forall_mem_cons.mp hchars
      have halphanum : c.isAlphanum = true := by
        refine hrest.1.resolve_right ?_
        rintro rfl
        exact hhead rfl
      obtain ⟨d, hcapital, -, hlower, -, hcase⟩ := capital_of_isAlphanum halphanum
      rw [joinWords, isSeparator_of_isAlphanum halphanum, if_neg Bool.false_ne_true, if_pos rfl,
        hcapital] at hkeyword
      have hword := keywords_of_capital hkeyword hlower
      rw [joinWords_of_isLower hrest.2 (getLast_ne_of_cons hlast) hword.1] at hword
      rcases hcase with rfl | rfl
      · exact hword.2.1
      · exact hword.2.2
  · have hconstants : ∀ word ∈ constantSpellings, className word ∈ keywords := by decide +kernel
    exact hconstants _

/-- **When a class can be declared.** -/
theorem isName_className_iff {name : CodeText} (h : IsIdentifier name) :
    IsName (className name) ↔ StartsWithLetter name ∧ ¬ SpellsConstant name := by
  rw [← isIdentifier_className_iff h, ← className_mem_keywords_iff h]
  exact ⟨fun hname => ⟨hname.1, hname.2⟩, fun hname => ⟨hname.1, hname.2⟩⟩

end CodecMocks.Naming
