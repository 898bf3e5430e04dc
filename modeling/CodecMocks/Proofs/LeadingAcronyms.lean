import CodecMocks.Proofs.PatternPasses
import CodecMocks.Proofs.SnakeCase

/-!
# Fields and groups of one name

The property of a field and the property of a group are named in two ways. A group's name has its
first character made small before its words are looked for. A capital that was one of a run of
capitals is no longer one of them then, and the capital after it starts a word. Nothing else comes
of it.

* `smallAfter_congr`, `reachesLetter_small`: a capital sigma further on is made small in the same
  way, whether a character comes before it or the small form of that character.
* `endsWord_last_small`: which characters end a word when they have been made small.
* `snakeCase_cons`, `snakeCase_decapitalizeFirst`: a name by its first character and the words after
  it.
* `StartsAcronym`, `groupProperty_name_eq_iff`: the schema names of which the two make different
  names, and how these differ.
-/

namespace CodecMocks.Text

/-! ### What comes before a capital sigma -/

theorem reachesLetter_cons (c : CodePoint) (cs : List CodePoint) :
    reachesLetter (c :: cs) =
      if caseIgnorable.holds c then reachesLetter cs else casedLetters.holds c := by
  rw [reachesLetter, List.dropWhile_cons]
  cases caseIgnorable.holds c <;> rfl

/-- No letter of the table is skipped. -/
theorem caseIgnorable_eq_false {c : CodePoint} (h : casedLetters.holds c = true) :
    caseIgnorable.holds c = false := by
  have hapart : CodeRanges.marks casedLetters &&& CodeRanges.marks caseIgnorable = 0 := by
    decide +kernel
  rw [← CodeRanges.testBit_marks] at h ⊢
  exact testBit_eq_false_of_apart hapart h

theorem reachesLetter_of_letter {c : CodePoint} (h : casedLetters.holds c = true)
    (cs : List CodePoint) :
    reachesLetter (c :: cs) = true := by
  rw [reachesLetter_cons, caseIgnorable_eq_false h, if_neg Bool.false_ne_true, h]

/-- Of the text before it, a text in small letters shows only whether a letter is reached there. -/
theorem smallAfter_congr {before other : List CodePoint}
    (h : reachesLetter before = reachesLetter other) (cs : List CodePoint) :
    smallAfter before cs = smallAfter other cs := by
  induction cs generalizing before other with
  | nil => rfl
  | cons c cs ih =>
    have hnext : reachesLetter (c :: before) = reachesLetter (c :: other) := by
      rw [reachesLetter_cons, reachesLetter_cons, h]
    rw [smallAfter, smallAfter, ih hnext, isFinalSigma, isFinalSigma, h]

/-! ### Letters of the table -/

/-- The table of small letters leads from letters to letters. -/
theorem letters_smallRuns :
    (sourceMarks smallRuns ||| imageMarks smallRuns) ||| CodeRanges.marks casedLetters =
      CodeRanges.marks casedLetters := by
  decide +kernel

theorem holds_of_testBit {c : CodePoint}
    (h : (sourceMarks smallRuns).testBit c.toNat = true ∨
      (imageMarks smallRuns).testBit c.toNat = true) : casedLetters.holds c = true := by
  rw [← CodeRanges.testBit_marks]
  apply testBit_of_within letters_smallRuns
  rw [Nat.testBit_or, Bool.or_eq_true]
  exact h

/-- A letter is reached at a character if one is reached at its small form. -/
theorem reachesLetter_small (c : CodePoint) :
    reachesLetter [c] = reachesLetter (small c).reverse := by
  unfold small
  split
  · next hdotted =>
    rw [beq_iff_eq.mp hdotted]
    decide +kernel
  · rcases moveBy_cases isSound_smallRuns c with ⟨-, hsame⟩ | ⟨hsource, himage⟩
    · rw [hsame]
      rfl
    · rw [reachesLetter_of_letter (holds_of_testBit (.inl hsource))]
      exact (reachesLetter_of_letter (holds_of_testBit (.inr himage)) []).symm

/-! ### First characters -/

theorem smallAfter_cons_of_ne {c : CodePoint} (hc : c ≠ 'Σ') (before cs : List CodePoint) :
    smallAfter before (c :: cs) = small c ++ smallAfter (c :: before) cs := by
  rw [smallAfter, if_neg fun hsigma => hc (beq_iff_eq.mp hsigma)]

/-- The first character of a text is made small as if it stood alone. -/
theorem smallText_cons (c : CodePoint) (cs : List CodePoint) :
    smallText (c :: cs) = small c ++ smallAfter [c] cs := by
  by_cases hc : c = 'Σ'
  · have hsmall : small 'Σ' = [.ofChar 'σ'] := rfl
    rw [hc, hsmall]
    rfl
  · exact smallAfter_cons_of_ne hc [] cs

end CodecMocks.Text

namespace CodecMocks.Naming

open CodecMocks.Text

/-! ### Ends of words -/

/-- The sign of the kelvin, which is no letter of ASCII but has one for its small form. -/
def kelvinSign : CodePoint := '\u212a'

theorem small_kelvinSign : small kelvinSign = [.ofChar 'k'] := rfl

/-- Besides the capitals of ASCII, one character has a small form that ends a word. -/
theorem endsWord_of_small {c d : CodePoint} (h : small c = [d]) :
    endsWord d = (endsWord c || c.isUpper || c == kelvinSign) := by
  rw [Bool.eq_iff_iff, Bool.or_eq_true, Bool.or_eq_true, beq_iff_eq]
  constructor
  · intro hd
    have hruns : ∀ run ∈ smallRuns, 128 ≤ (run.first : Int) + run.shift ∨
        run = ⟨65, 90, 1, 32⟩ ∨ run = ⟨8490, 8490, 1, -8383⟩ := by decide +kernel
    have hpoint : 0 < d.toNat ∧ d.toNat < 128 := by
      rw [endsWord, Bool.or_eq_true, isLower_iff, isDigit_iff] at hd
      omega
    unfold small at h
    split at h
    · cases h
    · obtain rfl := List.singleton_inj.mp h
      revert hd hpoint
      unfold moveBy
      split
      · next run hrun =>
        intro _ hpoint
        have hcovers := List.find?_some hrun
        simp only [CaseRun.covers, Bool.and_eq_true, decide_eq_true_eq] at hcovers
        have hmoved := toNat_ofNat_or (Int.toNat (c.toNat + run.shift))
        rcases hruns run (List.mem_of_find?_eq_some hrun) with hbeyond | rfl | rfl
        · omega
        · exact .inl (.inr (isUpper_iff.mpr hcovers.1))
        · right
          rw [← CodePoint.toNat_inj]
          exact Nat.le_antisymm hcovers.1.2 hcovers.1.1
      · exact fun hd _ => .inl (.inl hd)
  · have htable : ∀ c : CodePoint, c.toNat < 128 → endsWord c = true ∨ c.isUpper = true →
        endsWord c.toLower = true := forall_ascii (by decide)
    rintro (hc | rfl)
    · have hlt : c.toNat < 128 := by
        rw [endsWord, Bool.or_eq_true, isLower_iff, isDigit_iff, isUpper_iff] at hc
        omega
      rw [(small_of_isAscii hlt).1, List.singleton_inj] at h
      rw [← h]
      exact htable c hlt hc
    · rw [small_kelvinSign, List.singleton_inj] at h
      rw [← h]
      decide

/-- Of two characters that end words or not, the last one of a small form. -/
theorem endsWord_last_small {c d : CodePoint} (h : (small c).getLast? = some d) :
    endsWord d = (endsWord c || c.isUpper || c == kelvinSign) := by
  by_cases hdotted : c = 'İ'
  · subst hdotted
    rw [small_dotted] at h
    rw [← Option.some.inj h]
    decide
  · have hsmall := small_of_ne_dotted hdotted
    rw [hsmall] at h
    apply endsWord_of_small
    rw [hsmall, ← Option.some.inj h]
    rfl

theorem isUpper_last_small {c d : CodePoint} (h : (small c).getLast? = some d) :
    d.isUpper = false :=
  isUpper_of_mem_small (List.mem_of_getLast? h)

/-! ### Names by their first character -/

/-- A separator stays as it is. -/
theorem small_of_isSeparator {c : CodePoint} (h : isSeparator c = true) : small c = [c] := by
  have htable : ∀ point ∈ '_'.toNat :: '-'.toNat :: blankPoints,
      (sourceMarks smallRuns).testBit point = false := by decide +kernel
  have hmem : c.toNat ∈ '_'.toNat :: '-'.toNat :: blankPoints := by
    rcases isSeparator_iff.mp h with rfl | rfl | hblank
    · exact List.mem_cons_self
    · exact List.mem_cons_of_mem _ List.mem_cons_self
    · exact List.mem_cons_of_mem _ (List.mem_cons_of_mem _ (mem_blankPoints_of_isBlank hblank))
  refine small_of_not_marked (htable _ hmem) ?_
  rintro rfl
  exact absurd h (by decide)

theorem isSeparator_of_mem_small {c d : CodePoint} (hc : isSeparator c = false) (h : d ∈ small c) :
    isSeparator d = false := by
  have hblank := isBlank_of_mem_small (isBlank_of_not_isSeparator (Bool.eq_false_iff.mp hc)) h
  rw [Bool.eq_false_iff]
  intro hd
  simp only [isSeparator, hblank, Bool.or_false, Bool.or_eq_true, beq_iff_eq] at hd
  rcases hd with rfl | rfl
  · rw [eq_of_mem_small (by decide) h] at hc
    cases hc
  · rw [eq_of_mem_small (by decide) h] at hc
    cases hc

theorem isSeparator_eq_false_of_isUpper {c : CodePoint} (h : c.isUpper = true) :
    isSeparator c = false :=
  isSeparator_of_isAlpha (isAlpha_of_isUpper h)

/-- Only what follows the last character that is kept is dropped from the end of a text. -/
theorem rdropWhile_append_cons {p : CodePoint → Bool} {c : CodePoint} (hc : p c = false)
    (front back : List CodePoint) :
    (front ++ c :: back).rdropWhile p = front ++ c :: back.rdropWhile p := by
  induction back using List.reverseRecOn with
  | nil => exact List.rdropWhile_concat_neg p front c (Bool.eq_false_iff.mp hc)
  | append_singleton back d ih =>
    have hconcat : front ++ c :: (back ++ [d]) = front ++ c :: back ++ [d] := by simp
    rw [hconcat]
    by_cases hd : p d = true
    · rw [List.rdropWhile_concat_pos _ _ _ hd, List.rdropWhile_concat_pos _ _ _ hd, ih]
    · rw [List.rdropWhile_concat_neg _ _ _ hd, List.rdropWhile_concat_neg _ _ _ hd, ← hconcat]

theorem trimUnderscores_cons {c : CodePoint} (hc : c ≠ '_') (cs : List CodePoint) :
    trimUnderscores (c :: cs) = c :: cs.rdropWhile (· == CodePoint.ofChar '_') := by
  have hhead : (c :: cs).head? ≠ some (.ofChar '_') := fun h => hc (Option.some.inj h)
  rw [trimUnderscores, dropWhile_underscore hhead]
  exact rdropWhile_append_cons (p := (· == CodePoint.ofChar '_')) (beq_false_of_ne hc) [] cs

/-- The words of a name after its first character `a`, before they are made small. -/
def wordsAfter (a : CodePoint) (cs : List CodePoint) : List CodePoint :=
  (collapse false (insertWhere startsBetween a cs)).rdropWhile (· == CodePoint.ofChar '_')

theorem ne_underscore_of_not_isSeparator {c : CodePoint} (hc : isSeparator c = false) :
    c ≠ '_' := by
  rintro rfl
  cases hc

/-- A name that does not start with a separator. -/
theorem snakeCase_cons {c : CodePoint} (hc : isSeparator c = false) (cs : List CodePoint) :
    snakeCase (c :: cs) = small c ++ smallAfter [c] (wordsAfter c cs) := by
  rw [snakeCase, splitCamel_splitAcronyms_cons, collapse, hc, if_neg Bool.false_ne_true,
    trimUnderscores_cons (ne_underscore_of_not_isSeparator hc), smallText_cons]
  rfl

theorem wordsAfter_cons {c : CodePoint} (hc : isSeparator c = false) (a : CodePoint)
    (cs : List CodePoint) :
    wordsAfter a (c :: cs) =
      (if startsBetween a c cs.head? then [.ofChar '_', c] else [c]) ++ wordsAfter c cs := by
  have hkept : (c == '_') = false := beq_false_of_ne (ne_underscore_of_not_isSeparator hc)
  have hunderscore : isSeparator '_' = true := by decide
  rw [wordsAfter, insertWhere]
  split
  · rw [List.cons_append, List.singleton_append, collapse, hunderscore, if_pos rfl,
      if_neg Bool.false_ne_true, collapse, hc, if_neg Bool.false_ne_true]
    exact rdropWhile_append_cons (p := (· == CodePoint.ofChar '_')) hkept ['_'] _
  · rw [List.singleton_append, collapse, hc, if_neg Bool.false_ne_true]
    exact rdropWhile_append_cons (p := (· == CodePoint.ofChar '_')) hkept [] _

/-- What comes after a name's first character depends on this character in one place only. -/
theorem wordsAfter_congr {a b : CodePoint} {cs : List CodePoint}
    (h : ∀ c ∈ cs.head?, startsBetween a c cs.tail.head? = startsBetween b c cs.tail.head?) :
    wordsAfter a cs = wordsAfter b cs := by
  cases cs with
  | nil => rfl
  | cons c cs =>
    have hsame : startsBetween a c cs.head? = startsBetween b c cs.head? := h c rfl
    rw [wordsAfter, wordsAfter, insertWhere, insertWhere, hsame]

/-- A name whose first character is made small before its words are looked for. -/
theorem snakeCase_decapitalizeFirst {c : CodePoint} (hc : isSeparator c = false)
    (cs : List CodePoint) :
    ∃ d, (small c).getLast? = some d ∧
      snakeCase (decapitalizeFirst (c :: cs)) = small c ++ smallAfter [c] (wordsAfter d cs) := by
  by_cases hdotted : c = 'İ'
  · have hsmall : small c = [.ofChar 'i', .ofChar '\u0307'] := by rw [hdotted, small_dotted]
    have hstays : ∀ d ∈ [CodePoint.ofChar 'i', .ofChar '\u0307'], small d = [d] := by
      rw [← hsmall]
      exact fun d hd => (isSmall_of_mem_small hd).2
    have hletter : small 'i' = [.ofChar 'i'] := hstays 'i' List.mem_cons_self
    have hdot : small '\u0307' = [.ofChar '\u0307'] :=
      hstays '\u0307' (List.mem_cons_of_mem _ List.mem_cons_self)
    have hstarts : startsBetween 'i' '\u0307' cs.head? = false := rfl
    have hseen := reachesLetter_small c
    rw [hsmall] at hseen
    refine ⟨'\u0307', by rw [hsmall]; rfl, ?_⟩
    rw [decapitalizeFirst, hsmall, smallAfter_congr hseen]
    rw [List.cons_append, List.singleton_append, snakeCase_cons (by decide),
      wordsAfter_cons (by decide), hstarts, if_neg Bool.false_ne_true, List.singleton_append,
      smallAfter_cons_of_ne (by decide), hletter, hdot]
    rfl
  · have hsmall := small_of_ne_dotted hdotted
    have hmem : moveBy smallRuns c ∈ small c := by
      rw [hsmall]
      exact List.mem_singleton_self _
    have hseen := reachesLetter_small c
    rw [hsmall] at hseen
    refine ⟨moveBy smallRuns c, by rw [hsmall]; rfl, ?_⟩
    rw [decapitalizeFirst, hsmall, List.singleton_append,
      snakeCase_cons (isSeparator_of_mem_small hc hmem), (isSmall_of_mem_small hmem).2,
      smallAfter_congr hseen]
    rfl

/-! ### Leading acronyms -/

/-- The name starts with two capitals that no small letter follows, or with a kelvin sign and a
capital. -/
def StartsAcronym : List CodePoint → Prop
  | first :: second :: rest =>
    second.isUpper = true ∧
      (first.isUpper = true ∧ (∀ c ∈ rest.head?, c.isLower = false) ∨ first = kelvinSign)
  | _ => False

section

variable {c d second : CodePoint} {cs rest : List CodePoint}

theorem startsBetween_last_small (hd : (small c).getLast? = some d) (next : Option CodePoint) :
    startsBetween d second next =
      (second.isUpper && (endsWord c || c.isUpper || c == kelvinSign)) := by
  rw [startsBetween, isUpper_last_small hd, endsWord_last_small hd, Bool.false_and, Bool.or_false]

/-- In other names the same words are found after the first character. -/
theorem wordsAfter_last_small (hd : (small c).getLast? = some d)
    (h : ¬ StartsAcronym (c :: cs)) : wordsAfter d cs = wordsAfter c cs := by
  apply wordsAfter_congr
  intro second hsecond
  obtain ⟨rest, rfl⟩ := List.head?_eq_some_iff.mp hsecond
  rw [startsBetween_last_small hd, startsBetween, List.tail_cons]
  cases hupper : second.isUpper with
  | false => rfl
  | true =>
    rw [StartsAcronym, not_and, not_or] at h
    obtain ⟨hcapitals, hkelvin⟩ := h hupper
    rw [beq_false_of_ne hkelvin]
    cases hc : c.isUpper with
    | false => simp
    | true =>
      obtain ⟨e, he, hlower⟩ : ∃ e ∈ rest.head?, e.isLower = true := by
        simpa [hc] using hcapitals
      simp [Option.mem_def.mp he, hlower]

/-- After the first capital of an acronym a word starts only if it has been made small. -/
theorem wordsAfter_of_startsAcronym (hd : (small c).getLast? = some d)
    (h : StartsAcronym (c :: second :: rest)) :
    wordsAfter c (second :: rest) = second :: wordsAfter second rest ∧
      wordsAfter d (second :: rest) = .ofChar '_' :: second :: wordsAfter second rest := by
  obtain ⟨hupper, hfirst⟩ := h
  have hseparator := isSeparator_eq_false_of_isUpper hupper
  have hstays : startsBetween c second rest.head? = false := by
    rcases hfirst with ⟨hc, hnext⟩ | rfl
    · have hnone : rest.head?.any CodePoint.isLower = false := by
        rw [Bool.eq_false_iff, Ne, Option.any_eq_true]
        rintro ⟨e, he, hlower⟩
        rw [hnext e he] at hlower
        cases hlower
      rw [startsBetween, endsWord_eq_false_of_isUpper hc, hnone, Bool.and_false, Bool.or_false,
        Bool.and_false]
    · rw [startsBetween, show endsWord kelvinSign = false from rfl,
        show kelvinSign.isUpper = false from rfl, Bool.false_and, Bool.or_false, Bool.and_false]
  have hstarts : startsBetween d second rest.head? = true := by
    rw [startsBetween_last_small hd, hupper]
    rcases hfirst with ⟨hc, -⟩ | rfl
    · rw [hc, Bool.or_true]
      rfl
    · rw [beq_self_eq_true, Bool.or_true]
      rfl
  rw [wordsAfter_cons hseparator, wordsAfter_cons hseparator, hstays, hstarts]
  exact ⟨rfl, rfl⟩

/-- The first character of an acronym has a small letter of ASCII for its small form. -/
theorem small_of_isUpper_or (h : c.isUpper = true ∨ c = kelvinSign) :
    ∃ letter, small c = [letter] ∧ letter.isLower = true := by
  rcases h with hc | rfl
  · have htable : ∀ c : CodePoint, c.toNat < 128 → c.isUpper = true → c.toLower.isLower = true :=
      forall_ascii (by decide)
    have hlt : c.toNat < 128 := by
      rw [isUpper_iff] at hc
      omega
    exact ⟨c.toLower, (small_of_isAscii hlt).1, htable c hlt hc⟩
  · exact ⟨'k', small_kelvinSign, by decide⟩

end

theorem snakeCase_decapitalizeFirst_eq {cs : List CodePoint} (h : ¬ StartsAcronym cs) :
    snakeCase (decapitalizeFirst cs) = snakeCase cs := by
  cases cs with
  | nil => rfl
  | cons c cs =>
    cases hc : isSeparator c with
    | true =>
      rw [decapitalizeFirst, small_of_isSeparator hc, List.singleton_append]
    | false =>
      obtain ⟨d, hd, hsnake⟩ := snakeCase_decapitalizeFirst hc cs
      rw [hsnake, snakeCase_cons hc, wordsAfter_last_small hd h]

/-- A capital of ASCII is a letter of the table, and no sigma. -/
theorem holds_of_isUpper {c : CodePoint} (h : c.isUpper = true) :
    casedLetters.holds c = true ∧ c ≠ 'Σ' := by
  rw [isUpper_iff] at h
  have hcovers : (⟨65, 90, 1, 32⟩ : CaseRun).covers c.toNat = true := by
    simp [CaseRun.covers, h, Nat.mod_one]
  refine ⟨holds_of_testBit (.inl ?_), ?_⟩
  · rw [testBit_sourceMarks isSound_smallRuns]
    exact List.any_eq_true.mpr ⟨_, List.mem_cons_self, hcovers⟩
  · rintro rfl
    exact absurd h (by decide)

/-- The words of an acronym: an underscore more, after the first letter. -/
theorem snakeCase_of_startsAcronym {cs : List CodePoint} (h : StartsAcronym cs) :
    ∃ letter rest, letter.isLower = true ∧ snakeCase cs = letter :: rest ∧
      snakeCase (decapitalizeFirst cs) = letter :: .ofChar '_' :: rest := by
  match cs, h with
  | c :: second :: rest, h =>
    have hfirst : c.isUpper = true ∨ c = kelvinSign := h.2.imp_left (·.1)
    have hc : isSeparator c = false := by
      rcases hfirst with hc | rfl
      · exact isSeparator_eq_false_of_isUpper hc
      · decide
    obtain ⟨letter, hsmall, hlower⟩ := small_of_isUpper_or hfirst
    obtain ⟨d, hd, hsnake⟩ := snakeCase_decapitalizeFirst hc (second :: rest)
    obtain ⟨hfield, hgroup⟩ := wordsAfter_of_startsAcronym hd h
    obtain ⟨hletter, hsigma⟩ := holds_of_isUpper h.1
    -- What stands before the second capital is not seen from behind it.
    have hseen : reachesLetter [second, .ofChar '_', c] = reachesLetter [second, c] := by
      rw [reachesLetter_of_letter hletter, reachesLetter_of_letter hletter]
    have hne : CodePoint.ofChar '_' ≠ .ofChar 'Σ' := by decide
    have hunderscore : small '_' = [.ofChar '_'] := small_of_isSeparator (by decide)
    refine ⟨letter, small second ++ smallAfter [second, c] (wordsAfter second rest), hlower, ?_, ?_⟩
    · rw [snakeCase_cons hc, hfield, smallAfter_cons_of_ne hsigma, hsmall]
      rfl
    · rw [hsnake, hgroup, smallAfter_cons_of_ne hne, smallAfter_cons_of_ne hsigma,
        hunderscore, hsmall, smallAfter_congr hseen]
      rfl

/-! ### Taken names -/

/-- Making way for keywords first makes no difference to names that can be reserved. -/
theorem avoidTaken_avoidTaken {reserved : List CodeText} (hreserved : Reservable reserved)
    (name : CodeText) : avoidTaken (avoidTaken name []) reserved = avoidTaken name reserved := by
  by_cases hkeyword : name ∈ keywords
  · have hmarked : name ++ ("_" : CodeText) ∉ reserved := by
      intro hmem
      apply (hreserved _ hmem).2
      rw [CodeText.toList_append]
      exact List.getLast?_concat
    have hfree : isTaken (name ++ "_") reserved = false := by
      rw [Bool.eq_false_iff, Ne, isTaken_iff, not_or]
      exact ⟨append_underscore_not_mem_keywords name, hmarked⟩
    rw [avoidTaken_eq_append_iff.mpr (.inl hkeyword), avoidTaken_of_not_taken hfree,
      avoidTaken_eq_append_iff.mpr (.inl hkeyword)]
  · have hfree : isTaken name [] = false := by
      rw [Bool.eq_false_iff, Ne, isTaken_iff, not_or]
      exact ⟨hkeyword, List.not_mem_nil⟩
    rw [avoidTaken_of_not_taken hfree]

/-- Names in snake case stay apart when they make way for taken ones. -/
theorem IsSnakeCase.avoidTaken_inj {s t : CodeText} {reserved : List CodeText} (hs : IsSnakeCase s)
    (ht : IsSnakeCase t) (h : avoidTaken s reserved = avoidTaken t reserved) : s = t := by
  rw [← hs.ofList_snakeCase_avoidTaken reserved, h, ht.ofList_snakeCase_avoidTaken reserved]

end CodecMocks.Naming

namespace CodecMocks.Mock

open CodecMocks.Naming CodecMocks.Text

/-! ### The names of groups and fields -/

theorem name_groupProperty {reserved : List CodeText} (hreserved : Reservable reserved)
    (name parent : CodeText) :
    (groupProperty reserved (GroupNames.of name parent)).name =
      avoidTaken (CodeText.ofList (snakeCase (decapitalizeFirst name.toList))) reserved := by
  rw [groupProperty, GroupNames.of]
  dsimp only
  rw [propertyName, CodeText.toList_ofList, avoidTaken_avoidTaken hreserved]

/-- **When a group and a field of one name are named alike.** In a class whose own members can be
reserved, the property of a group and the property of a field have the same name exactly if their
schema name does not start with an acronym. If it does, the group's name has one more underscore,
right after its first letter; the names make way for taken ones afterwards. -/
theorem groupProperty_name_eq_iff {reserved : List CodeText} (hreserved : Reservable reserved)
    (name parent : CodeText) :
    let group := (groupProperty reserved (GroupNames.of name parent)).name
    let field := propertyName name reserved
    (group = field ↔ ¬ StartsAcronym name.toList) ∧
      (StartsAcronym name.toList → ∃ letter rest, letter.isLower = true ∧
        field = avoidTaken (CodeText.ofList (letter :: rest)) reserved ∧
        group = avoidTaken (CodeText.ofList (letter :: .ofChar '_' :: rest)) reserved) := by
  intro group field
  have hgroup : group = _ := name_groupProperty hreserved name parent
  have hfield : field = avoidTaken (CodeText.ofList (snakeCase name.toList)) reserved := rfl
  rw [hgroup, hfield]
  refine ⟨⟨?_, ?_⟩, ?_⟩
  · intro hsame hacronym
    obtain ⟨letter, rest, -, hplain, hmarked⟩ := snakeCase_of_startsAcronym hacronym
    have hnames := (isSnakeCase_snakeCase _).avoidTaken_inj (isSnakeCase_snakeCase _) hsame
    rw [hplain, hmarked] at hnames
    exact absurd (congrArg CodeText.length hnames) (Nat.succ_ne_self _)
  · intro hother
    rw [snakeCase_decapitalizeFirst_eq hother]
  · intro hacronym
    obtain ⟨letter, rest, hlower, hplain, hmarked⟩ := snakeCase_of_startsAcronym hacronym
    exact ⟨letter, rest, hlower, by rw [hplain], by rw [hmarked]⟩

/-- The words of the field are a keyword, those of the group are none. -/
theorem acronymIF_named :
    Reservable cursorNames ∧ StartsAcronym ("IF" : CodeText).toList ∧
      propertyName "IF" cursorNames = "if_" ∧
      (groupProperty cursorNames (GroupNames.of "IF" "Msg")).name = "i_f" ∧
      (groupProperty cursorNames (GroupNames.of "IF" "Msg")).name ≠
        propertyName "IF" cursorNames := by
  have hacronym : StartsAcronym ("IF" : CodeText).toList := by
    show StartsAcronym [CodePoint.ofChar 'I', .ofChar 'F']
    exact ⟨by decide, .inl ⟨by decide, fun _ h => nomatch h⟩⟩
  refine ⟨reservable_cursorNames, hacronym, by decide +kernel, by decide +kernel, ?_⟩
  intro hsame
  exact (groupProperty_name_eq_iff reservable_cursorNames "IF" "Msg").1.mp hsame hacronym

end CodecMocks.Mock
