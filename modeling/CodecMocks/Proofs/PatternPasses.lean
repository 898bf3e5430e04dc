import CodecMocks.Proofs.WordBoundaries

/-!
# The passes as replacements of patterns

Each pass over a name replaces a pattern: where it matches, the match is written in another form and
reading goes on after it; the leftmost match counts. The run of capitals in front of a match is as
long as it can be, and is given back a capital at a time if what follows it does not match.

* `replaceAll`: replacing a pattern from left to right.
* `replaceAll_acronymPattern`, `replaceAll_camelPattern`, `replaceAll_separatorPattern`: the three
  passes. A match takes characters that a further match would need, and no word is missed by that.
* `propertyName_eq_of_words`: replacing the patterns one after the other is marking the words of the
  name and joining them.
-/

namespace CodecMocks.Naming

open CodecMocks.Text

/-- What a pattern says of a text: if it matches at the start, what is written for the match, and
how many characters it takes after the first. -/
abbrev Pattern := List CodePoint → Option (List CodePoint × Nat)

/-- Every match of a pattern replaced, from left to right. -/
def replaceAll (pattern : Pattern) : List CodePoint → List CodePoint
  | [] => []
  | c :: cs =>
    match pattern (c :: cs) with
    | some (written, taken) => written ++ replaceAll pattern (cs.drop taken)
    | none => c :: replaceAll pattern cs
termination_by cs => cs.length
decreasing_by
  · simp only [List.length_drop, List.length_cons]
    omega
  · exact Nat.lt_succ_self _

/-- Capitals, then a capital before a small letter, which starts a word. The longest run of capitals
is tried first. -/
def acronymPattern : Pattern := fun cs =>
  (List.range' 1 (cs.takeWhile CodePoint.isUpper).length).reverse.findSome? fun n =>
    match cs.drop n with
    | last :: d :: _ =>
      if last.isUpper && d.isLower then some (cs.take n ++ [.ofChar '_', last, d], n + 1) else none
    | _ => none

/-- A capital after a small letter or digit starts a word. -/
def camelPattern : Pattern
  | a :: c :: _ => if endsWord a && c.isUpper then some ([a, .ofChar '_', c], 1) else none
  | _ => none

/-- The separators that a text starts with are one underscore. -/
def separatorPattern : Pattern := fun cs =>
  match cs.takeWhile isSeparator with
  | [] => none
  | run => some ([.ofChar '_'], run.length - 1)

section

variable {pattern : Pattern} {c : CodePoint} {cs : List CodePoint}

theorem replaceAll_of_match {written : List CodePoint} {taken : Nat}
    (h : pattern (c :: cs) = some (written, taken)) :
    replaceAll pattern (c :: cs) = written ++ replaceAll pattern (cs.drop taken) := by
  rw [replaceAll, h]

theorem replaceAll_of_none (h : pattern (c :: cs) = none) :
    replaceAll pattern (c :: cs) = c :: replaceAll pattern cs := by
  rw [replaceAll, h]

end

/-! ### Acronyms -/

theorem isUpper_of_mem_take {cs : List CodePoint} {n : Nat}
    (hn : n ≤ (cs.takeWhile CodePoint.isUpper).length) : ∀ a ∈ cs.take n, a.isUpper = true := by
  obtain ⟨rest, hrest⟩ := List.takeWhile_prefix (l := cs) CodePoint.isUpper
  have htake : cs.take n = (cs.takeWhile CodePoint.isUpper).take n := by
    rw [← List.take_append_of_le_length hn, hrest]
  intro a ha
  rw [htake] at ha
  exact List.mem_takeWhile_imp (List.mem_of_mem_take ha)

/-- A match is a run of capitals, a capital and a small letter; reading goes on after them. -/
theorem exists_of_acronymPattern {c : CodePoint} {cs written : List CodePoint} {taken : Nat}
    (h : acronymPattern (c :: cs) = some (written, taken)) :
    ∃ (run : List CodePoint) (last d : CodePoint) (rest : List CodePoint),
      cs = run ++ last :: d :: rest ∧ cs.drop taken = rest ∧
        written = c :: run ++ [.ofChar '_', last, d] ∧ (∀ a ∈ c :: run, a.isUpper = true) ∧
          last.isUpper = true ∧ d.isLower = true := by
  obtain ⟨n, hn, hmatch⟩ := List.exists_of_findSome?_eq_some h
  rw [List.mem_reverse, List.mem_range'_1] at hn
  obtain ⟨m, rfl⟩ := Nat.exists_eq_add_of_le' hn.1
  rw [List.drop_succ_cons, List.take_succ_cons] at hmatch
  split at hmatch
  · next last d rest hdrop =>
    split at hmatch
    · next hletters =>
      rw [Bool.and_eq_true] at hletters
      cases hmatch
      refine ⟨cs.take m, last, d, rest, ?_, ?_, rfl, ?_, hletters.1, hletters.2⟩
      · rw [← hdrop, List.take_append_drop]
      · rw [Nat.add_assoc, ← List.drop_drop, hdrop]
        rfl
      · rw [← List.take_succ_cons]
        exact isUpper_of_mem_take (by omega)
    · cases hmatch
  · cases hmatch

/-- Where there is no match, no word starts at the second character. -/
theorem isLastCapital_of_acronymPattern {a c : CodePoint} {cs : List CodePoint}
    (h : acronymPattern (a :: c :: cs) = none) : isLastCapital a c cs.head? = false := by
  rw [Bool.eq_false_iff]
  intro hlast
  simp only [isLastCapital, Bool.and_eq_true, Option.any_eq_true] at hlast
  obtain ⟨⟨hc, ha⟩, d, hd, hlower⟩ := hlast
  obtain ⟨rest, rfl⟩ := List.head?_eq_some_iff.mp hd
  have hone :
    1 ∈ (List.range' 1 ((a :: c :: d :: rest).takeWhile CodePoint.isUpper).length).reverse := by
    rw [List.mem_reverse, List.mem_range'_1, List.takeWhile_cons_of_pos ha]
    simp
  have hnone := List.findSome?_eq_none_iff.mp h 1 hone
  simp [hc, hlower] at hnone

/-- In a match a word starts at the last capital only. -/
theorem insertWhere_acronym {run : List CodePoint} {last d : CodePoint} (rest : List CodePoint)
    (hrun : ∀ a ∈ run, a.isUpper = true) (hlast : last.isUpper = true) (hd : d.isLower = true)
    {a : CodePoint} (ha : a.isUpper = true) :
    insertWhere isLastCapital a (run ++ last :: d :: rest) =
      run ++ .ofChar '_' :: last :: d :: insertWhere isLastCapital d rest := by
  have hupper := isUpper_eq_false_of_isLower hd
  induction run generalizing a with
  | nil => simp [insertWhere, isLastCapital, ha, hlast, hd, hupper]
  | cons b bs ih =>
    have hb := hrun b List.mem_cons_self
    have hnext : (bs ++ last :: d :: rest).head?.any CodePoint.isLower = false := by
      cases bs with
      | nil => exact isLower_eq_false_of_isUpper hlast
      | cons e es =>
        exact isLower_eq_false_of_isUpper (hrun e (List.mem_cons_of_mem b List.mem_cons_self))
    have hmark : isLastCapital a b (bs ++ last :: d :: rest).head? = false := by
      rw [isLastCapital, hnext, Bool.and_false]
    rw [List.cons_append, insertWhere, hmark,
      ih (fun e he => hrun e (List.mem_cons_of_mem b he)) hb]
    rfl

/-- No word starts after a character that is no capital. -/
theorem insertWhere_isLastCapital_of_not_isUpper {d : CodePoint} (hd : d.isUpper = false)
    (e : CodePoint) (rest : List CodePoint) :
    insertWhere isLastCapital d (e :: rest) = e :: insertWhere isLastCapital e rest := by
  simp [insertWhere, isLastCapital, hd]

/-- After a match reading goes on as if nothing had been read. -/
theorem replaceAll_acronymPattern_cons (c : CodePoint) (cs : List CodePoint) :
    replaceAll acronymPattern (c :: cs) = c :: insertWhere isLastCapital c cs := by
  induction hn : cs.length using Nat.strong_induction_on generalizing c cs with
  | _ n ih =>
    cases hmatch : acronymPattern (c :: cs) with
    | some found =>
      obtain ⟨written, taken⟩ := found
      obtain ⟨run, last, d, rest, rfl, hdrop, rfl, hrun, hlast, hd⟩ :=
        exists_of_acronymPattern hmatch
      have hrest : replaceAll acronymPattern rest = insertWhere isLastCapital d rest := by
        cases rest with
        | nil => simp [replaceAll, insertWhere]
        | cons e rest =>
          have hlength : rest.length < n := by
            rw [← hn]
            simp only [List.length_append, List.length_cons]
            omega
          rw [ih _ hlength e rest rfl,
            insertWhere_isLastCapital_of_not_isUpper (isUpper_eq_false_of_isLower hd)]
      rw [replaceAll_of_match hmatch, hdrop, hrest,
        insertWhere_acronym rest (fun a ha => hrun a (List.mem_cons_of_mem c ha)) hlast hd
          (hrun c List.mem_cons_self)]
      simp
    | none =>
      rw [replaceAll_of_none hmatch]
      cases cs with
      | nil => simp [replaceAll, insertWhere]
      | cons e rest =>
        have hlength : rest.length < n := by
          rw [← hn]
          exact Nat.lt_succ_self _
        rw [ih _ hlength e rest rfl, insertWhere, isLastCapital_of_acronymPattern hmatch]
        rfl

/-- **The first pass.** -/
theorem replaceAll_acronymPattern (cs : List CodePoint) :
    replaceAll acronymPattern cs = splitAcronyms cs := by
  cases cs with
  | nil => simp [replaceAll, splitAcronyms, splitAcronymsAfter]
  | cons c cs => rw [replaceAll_acronymPattern_cons, splitAcronyms_cons]

/-! ### Words after small letters and digits -/

theorem endsWord_eq_false_of_isUpper {c : CodePoint} (h : c.isUpper = true) :
    endsWord c = false := by
  rw [isUpper_iff] at h
  rw [endsWord, Bool.or_eq_false_iff, Bool.eq_false_iff, Bool.eq_false_iff, Ne, Ne, isLower_iff,
    isDigit_iff]
  omega

theorem splitCamel_cons_of_not_endsWord {c : CodePoint} (h : endsWord c = false)
    (cs : List CodePoint) :
    splitCamel (c :: cs) = c :: splitCamel cs := by
  cases cs with
  | nil => rfl
  | cons d ds =>
    rw [splitCamel_cons_cons, h]
    rfl

/-- **The second pass.** The capital of a match is no small letter or digit, so that no match could
start with it. -/
theorem replaceAll_camelPattern (cs : List CodePoint) :
    replaceAll camelPattern cs = splitCamel cs := by
  induction hn : cs.length using Nat.strong_induction_on generalizing cs with
  | _ n ih =>
    match cs with
    | [] => simp [replaceAll, splitCamel]
    | [a] => simp [replaceAll, camelPattern, splitCamel]
    | a :: c :: rest =>
      rw [List.length_cons, List.length_cons] at hn
      cases hmatch : endsWord a && c.isUpper with
      | true =>
        have hupper : c.isUpper = true := (Bool.and_eq_true_iff.mp hmatch).2
        have hfound : camelPattern (a :: c :: rest) = some ([a, .ofChar '_', c], 1) := if_pos hmatch
        rw [replaceAll_of_match hfound, splitCamel_cons_cons, hmatch,
          splitCamel_cons_of_not_endsWord (endsWord_eq_false_of_isUpper hupper), List.drop_one,
          List.tail_cons, ih _ (by omega) rest rfl]
        rfl
      | false =>
        have hnone : camelPattern (a :: c :: rest) = none :=
          if_neg (Bool.eq_false_iff.mp hmatch)
        rw [replaceAll_of_none hnone, splitCamel_cons_cons, hmatch,
          ih _ (by omega) (c :: rest) (List.length_cons)]
        rfl

/-! ### Separators -/

theorem isSeparator_head_dropWhile (cs : List CodePoint) :
    ∀ c ∈ (cs.dropWhile isSeparator).head?, isSeparator c = false := by
  intro c hc
  have hhead := List.head?_dropWhile_not isSeparator cs
  rw [hc] at hhead
  exact hhead

/-- **The third pass.** -/
theorem replaceAll_separatorPattern (cs : List CodePoint) :
    replaceAll separatorPattern cs = collapse false cs := by
  induction hn : cs.length using Nat.strong_induction_on generalizing cs with
  | _ n ih =>
    cases cs with
    | nil => rw [replaceAll, collapse]
    | cons c cs =>
      rw [List.length_cons] at hn
      cases hc : isSeparator c with
      | true =>
        have hfound : separatorPattern (c :: cs) =
            some ([.ofChar '_'], (cs.takeWhile isSeparator).length) := by
          rw [separatorPattern, List.takeWhile_cons_of_pos hc]
          rfl
        have hsplit : cs.takeWhile isSeparator ++ cs.dropWhile isSeparator = cs :=
          List.takeWhile_append_dropWhile
        have hlength : (cs.dropWhile isSeparator).length < n := by
          have hle := (List.dropWhile_suffix (l := cs) isSeparator).length_le
          omega
        have hdrop : cs.drop (cs.takeWhile isSeparator).length = cs.dropWhile isSeparator :=
          calc cs.drop (cs.takeWhile isSeparator).length
            _ = (cs.takeWhile isSeparator ++ cs.dropWhile isSeparator).drop
                  (cs.takeWhile isSeparator).length := by rw [hsplit]
            _ = cs.dropWhile isSeparator := List.drop_left
        have hjoined : collapse true cs = collapse false (cs.dropWhile isSeparator) :=
          calc collapse true cs
            _ = collapse true (cs.takeWhile isSeparator ++ cs.dropWhile isSeparator) := by
                  rw [hsplit]
            _ = collapse true (cs.dropWhile isSeparator) :=
                  collapse_true_append (fun _ hd => List.mem_takeWhile_imp hd) _
            _ = collapse false (cs.dropWhile isSeparator) :=
                  collapse_true_eq_false (isSeparator_head_dropWhile cs)
        rw [replaceAll_of_match hfound, collapse, if_pos hc, if_neg Bool.false_ne_true, hjoined,
          hdrop, ih _ hlength _ rfl]
        rfl
      | false =>
        have hnone : separatorPattern (c :: cs) = none := by
          rw [separatorPattern, List.takeWhile_cons_of_neg (Bool.eq_false_iff.mp hc)]
        rw [replaceAll_of_none hnone, collapse, hc, if_neg Bool.false_ne_true,
          ih _ (by omega) cs rfl]

/-! ### Names -/

/-- The property name made by replacing patterns: the words split at both kinds of boundaries, the
separators joined, the underscores at the ends taken away, the letters made small. -/
def nameByPatterns (name : CodeText) (reserved : List CodeText) : CodeText :=
  let split := replaceAll camelPattern (replaceAll acronymPattern name.toList)
  let joined := replaceAll separatorPattern split
  avoidTaken (CodeText.ofList (smallText (trimUnderscores joined))) reserved

/-- The property name made by the rule for words: an underscore before each position where a word
starts, one underscore for each maximal run of separators, none at the ends, small letters, and an
underscore at the end of a name that is a keyword or reserved. -/
def nameByWords (name : CodeText) (reserved : List CodeText) : CodeText :=
  let joined := joinRuns (markWords name.toList)
  let trimmed :=
    (joined.dropWhile (· == CodePoint.ofChar '_')).rdropWhile (· == CodePoint.ofChar '_')
  let plain := CodeText.ofList (smallText trimmed)
  if plain ∈ keywords ∨ plain ∈ reserved then plain ++ "_" else plain

/-- **Replacing the patterns is marking the words.** The name of a property is made by replacing
three patterns one after the other, and it is the name that the rule for words gives, which looks at
each character of the schema name and its neighbours. -/
theorem propertyName_eq_of_words (name : CodeText) (reserved : List CodeText) :
    propertyName name reserved = nameByPatterns name reserved ∧
      propertyName name reserved = nameByWords name reserved := by
  constructor
  · rw [nameByPatterns, replaceAll_acronymPattern, replaceAll_camelPattern,
      replaceAll_separatorPattern]
    rfl
  · rw [propertyName, snakeCase, splitCamel_splitAcronyms, collapse_eq_joinRuns]
    simp only [avoidTaken, isTaken_iff]
    rfl

end CodecMocks.Naming
