import CodecMocks.Number.Numeral
import Mathlib.Data.List.TakeWhile

/-!
# Which texts are numerals

A numeral is described apart from its reader: blanks, a sign or none, digits with single underscores
between them, and blanks again. `readNumeral` goes through a text once and reads exactly the
numerals.

* `DigitRun`, `Denotes`: the texts and the integers that they denote.
* `digitRun_append`, `digitRun_cases`: what is read as digits, and what it was.
* `readNumeral_eq_ok_iff`: the reader reads what is denoted, and nothing else.
-/

namespace CodecMocks.Number

open CodecMocks.Text

/-- Digits with single underscores between them, and the values of the digits. -/
inductive DigitRun : List Char → List Nat → Prop where
  | last {c : Char} {d : Nat} (hd : asciiDigit? c = some d) : DigitRun [c] [d]
  | next {c : Char} {cs : List Char} {d : Nat} {ds : List Nat} (hd : asciiDigit? c = some d)
      (rest : DigitRun cs ds) : DigitRun (c :: cs) (d :: ds)
  | linked {c : Char} {cs : List Char} {d : Nat} {ds : List Nat} (hd : asciiDigit? c = some d)
      (rest : DigitRun cs ds) : DigitRun (c :: '_' :: cs) (d :: ds)

/-- The text denotes the integer `n`: blanks, a sign or none, at most `digitLimit` digits, blanks.
Digits and blanks of other scripts count as those of ASCII. -/
def Denotes (text : CodeText) (n : Int) : Prop :=
  ∃ (before sign run after : List Char) (digits : List Nat),
    toAsciiForm text = before ++ (sign ++ (run ++ after)) ∧
    (∀ c ∈ before, isAsciiBlank c = true) ∧ (∀ c ∈ after, isAsciiBlank c = true) ∧
    DigitRun run digits ∧ digits.length ≤ digitLimit ∧
    ((sign = [] ∨ sign = ['+']) ∧ n = ofDigits digits ∨ sign = ['-'] ∧ n = -ofDigits digits)

/-! ### Digits -/

theorem isDigit_of_asciiDigit? {c : Char} {d : Nat} (h : asciiDigit? c = some d) :
    c.isDigit = true := by
  unfold asciiDigit? at h
  split at h
  · assumption
  · cases h

theorem not_isAsciiBlank_of_isDigit {c : Char} (h : c.isDigit = true) : isAsciiBlank c = false := by
  rw [Bool.eq_false_iff]
  intro hblank
  simp [Char.isDigit, UInt32.le_iff_toNat_le] at h
  simp [isAsciiBlank] at hblank
  omega

theorem asciiDigit?_of_isAsciiBlank {c : Char} (h : isAsciiBlank c = true) :
    asciiDigit? c = none := by
  rw [asciiDigit?, if_neg]
  intro hdigit
  rw [not_isAsciiBlank_of_isDigit hdigit] at h
  cases h

/-- The run starts with a digit. -/
theorem DigitRun.exists_cons {run : List Char} {digits : List Nat} (h : DigitRun run digits) :
    ∃ c cs d ds, run = c :: cs ∧ digits = d :: ds ∧ c.isDigit = true := by
  cases h with
  | last hd => exact ⟨_, _, _, _, rfl, rfl, isDigit_of_asciiDigit? hd⟩
  | next hd _ => exact ⟨_, _, _, _, rfl, rfl, isDigit_of_asciiDigit? hd⟩
  | linked hd _ => exact ⟨_, _, _, _, rfl, rfl, isDigit_of_asciiDigit? hd⟩

theorem digitRun_digit {linked : Bool} {c : Char} {d : Nat} (hd : asciiDigit? c = some d)
    (cs : List Char) :
    digitRun linked (c :: cs) = (digitRun false cs).map fun (ds, rest) => (d :: ds, rest) := by
  rw [digitRun, hd]

/-- Blanks end a run of digits. -/
theorem digitRun_blanks {after : List Char} (h : ∀ c ∈ after, isAsciiBlank c = true) :
    digitRun false after = some ([], after) := by
  cases after with
  | nil => rfl
  | cons c cs =>
    have hblank := h c List.mem_cons_self
    have hne : (c == '_') = false := by
      refine beq_false_of_ne ?_
      rintro rfl
      cases hblank
    rw [digitRun, asciiDigit?_of_isAsciiBlank hblank]
    simp [hne]

/-- A run of digits is read up to the blanks after it. -/
theorem digitRun_append {run after : List Char} {digits : List Nat} (h : DigitRun run digits)
    (hafter : ∀ c ∈ after, isAsciiBlank c = true) (linked : Bool) :
    digitRun linked (run ++ after) = some (digits, after) := by
  induction h generalizing linked with
  | last hd =>
    rw [List.singleton_append, digitRun_digit hd, digitRun_blanks hafter]
    rfl
  | next hd _ ih =>
    rw [List.cons_append, digitRun_digit hd, ih false]
    rfl
  | linked hd _ ih =>
    have hlink (cs : List Char) : digitRun false ('_' :: cs) = digitRun true cs := by
      simp [digitRun, asciiDigit?]
    rw [List.cons_append, List.cons_append, digitRun_digit hd, hlink, ih true]
    rfl

/-- What has been read: a run of digits, also after an underscore, or nothing. -/
theorem digitRun_cases {linked : Bool} {cs rest : List Char} {digits : List Nat}
    (h : digitRun linked cs = some (digits, rest)) :
    (∃ run, cs = run ++ rest ∧ DigitRun run digits) ∨
      linked = false ∧ (digits = [] ∧ cs = rest ∨
        ∃ run, cs = '_' :: (run ++ rest) ∧ DigitRun run digits) := by
  induction cs generalizing linked digits with
  | nil =>
    cases linked with
    | true => cases h
    | false =>
      cases h
      exact .inr ⟨rfl, .inl ⟨rfl, rfl⟩⟩
  | cons c cs ih =>
    cases hd : asciiDigit? c with
    | some d =>
      rw [digitRun_digit hd, Option.map_eq_some_iff] at h
      obtain ⟨⟨ds, rest'⟩, hread, heq⟩ := h
      cases heq
      left
      rcases ih hread with ⟨run, rfl, hrun⟩ | ⟨-, ⟨rfl, rfl⟩ | ⟨run, rfl, hrun⟩⟩
      · exact ⟨c :: run, rfl, .next hd hrun⟩
      · exact ⟨[c], rfl, .last hd⟩
      · exact ⟨c :: '_' :: run, rfl, .linked hd hrun⟩
    | none =>
      rw [digitRun, hd] at h
      cases linked with
      | true => simp at h
      | false =>
        right
        refine ⟨rfl, ?_⟩
        by_cases hc : c = '_'
        · rw [hc] at h ⊢
          have hread : digitRun true cs = some (digits, rest) := h
          rcases ih hread with ⟨run, rfl, hrun⟩ | ⟨hfalse, -⟩
          · exact .inr ⟨run, rfl, hrun⟩
          · cases hfalse
        · left
          simpa [hc] using h

/-! ### Numerals -/

/-- The sign that a text starts with. -/
theorem exists_signOf (cs : List Char) :
    ∃ sign body, cs = sign ++ body ∧
      ((sign = [] ∨ sign = ['+']) ∧ signOf cs = (false, body) ∨
        sign = ['-'] ∧ signOf cs = (true, body)) := by
  unfold signOf
  split
  · exact ⟨['-'], _, rfl, .inr ⟨rfl, rfl⟩⟩
  · exact ⟨['+'], _, rfl, .inl ⟨.inr rfl, rfl⟩⟩
  · exact ⟨[], _, rfl, .inl ⟨.inl rfl, rfl⟩⟩

theorem signOf_digit {c : Char} (h : c.isDigit = true) (cs : List Char) :
    signOf (c :: cs) = (false, c :: cs) := by
  unfold signOf
  split
  · next heq =>
    cases heq
    cases h
  · next heq =>
    cases heq
    cases h
  · rfl

/-- All that the reader looks at. -/
theorem readNumeral_eq_ok_iff_exists {text : CodeText} {n : Int} :
    readNumeral text = .ok n ↔
      ∃ negative body digits rest,
        signOf ((toAsciiForm text).dropWhile isAsciiBlank) = (negative, body) ∧
        body.head? ≠ some '_' ∧ digitRun false body = some (digits, rest) ∧
        digits.length ≤ digitLimit ∧ digits ≠ [] ∧ (∀ c ∈ rest, isAsciiBlank c = true) ∧
        n = if negative then -(ofDigits digits : Int) else ofDigits digits := by
  rw [readNumeral]
  cases hsign : signOf ((toAsciiForm text).dropWhile isAsciiBlank) with
  | mk negative body =>
    dsimp only
    constructor
    · intro h
      split at h
      · cases h
      · next hhead =>
        split at h
        · cases h
        · next digits rest hread =>
          split at h
          · cases h
          · next hlimit =>
            split at h
            · cases h
            · next hrest =>
              rw [Bool.or_eq_true, not_or, Bool.not_eq_true, List.isEmpty_eq_false_iff,
                Bool.not_eq_true, Bool.not_eq_false', List.all_eq_true] at hrest
              exact ⟨negative, body, digits, rest, rfl, fun heq => hhead (beq_iff_eq.mpr heq),
                hread, Nat.le_of_not_lt hlimit, hrest.1, hrest.2, (Except.ok.inj h).symm⟩
    · rintro ⟨_, _, digits, rest, heq, hhead, hread, hlimit, hne, hrest, rfl⟩
      cases heq
      have hblank : (digits.isEmpty || !rest.all isAsciiBlank) = false := by
        rw [Bool.or_eq_false_iff, List.isEmpty_eq_false_iff, Bool.not_eq_false', List.all_eq_true]
        exact ⟨hne, hrest⟩
      rw [if_neg (fun heq => hhead (beq_iff_eq.mp heq)), hread]
      dsimp only
      rw [if_neg (Nat.not_lt_of_le hlimit), hblank, if_neg Bool.false_ne_true]

theorem denotes_of_readNumeral {text : CodeText} {n : Int} (h : readNumeral text = .ok n) :
    Denotes text n := by
  obtain ⟨negative, body, digits, after, hread, hhead, hdigits, hlimit, hne, hafter, rfl⟩ :=
    readNumeral_eq_ok_iff_exists.mp h
  obtain ⟨run, rfl, hrun⟩ : ∃ run, body = run ++ after ∧ DigitRun run digits := by
    rcases digitRun_cases hdigits with hrun | ⟨-, ⟨hnil, -⟩ | ⟨run, rfl, -⟩⟩
    · exact hrun
    · exact absurd hnil hne
    · exact absurd rfl hhead
  obtain ⟨sign, signed, hsplit, hsign⟩ := exists_signOf ((toAsciiForm text).dropWhile isAsciiBlank)
  have hform : toAsciiForm text =
      (toAsciiForm text).takeWhile isAsciiBlank ++ (sign ++ signed) := by
    rw [← hsplit, List.takeWhile_append_dropWhile]
  rw [hread] at hsign
  rcases hsign with ⟨hplus, heq⟩ | ⟨hminus, heq⟩
  · cases heq
    exact ⟨_, sign, run, after, digits, hform, fun _ => List.mem_takeWhile_imp, hafter, hrun,
      hlimit, .inl ⟨hplus, rfl⟩⟩
  · cases heq
    exact ⟨_, sign, run, after, digits, hform, fun _ => List.mem_takeWhile_imp, hafter, hrun,
      hlimit, .inr ⟨hminus, rfl⟩⟩

theorem readNumeral_of_denotes {text : CodeText} {n : Int} (h : Denotes text n) :
    readNumeral text = .ok n := by
  obtain ⟨before, sign, run, after, digits, hform, hbefore, hafter, hrun, hlimit, hsign⟩ := h
  obtain ⟨c, cs, d, ds, rfl, rfl, hc⟩ := hrun.exists_cons
  have hdigits := digitRun_append hrun hafter false
  have hhead : (c :: cs ++ after).head? ≠ some '_' := by
    intro heq
    rw [Option.some.inj heq] at hc
    cases hc
  -- The blanks before the sign or the first digit are all that is skipped.
  have hskip {b : Char} {bs : List Char} (hb : isAsciiBlank b = false)
      (heq : sign ++ (c :: cs ++ after) = b :: bs) :
      (toAsciiForm text).dropWhile isAsciiBlank = b :: bs := by
    rw [hform, heq, List.dropWhile_append_of_pos hbefore,
      List.dropWhile_cons_of_neg (Bool.not_eq_true _ ▸ hb)]
  refine readNumeral_eq_ok_iff_exists.mpr ?_
  rcases hsign with ⟨rfl | rfl, rfl⟩ | ⟨rfl, rfl⟩
  · refine ⟨false, _, _, _, ?_, hhead, hdigits, hlimit, List.cons_ne_nil _ _, hafter, rfl⟩
    rw [hskip (not_isAsciiBlank_of_isDigit hc) rfl]
    exact signOf_digit hc _
  · refine ⟨false, _, _, _, ?_, hhead, hdigits, hlimit, List.cons_ne_nil _ _, hafter, rfl⟩
    rw [hskip (by decide) rfl]
    rfl
  · refine ⟨true, _, _, _, ?_, hhead, hdigits, hlimit, List.cons_ne_nil _ _, hafter, rfl⟩
    rw [hskip (by decide) rfl]
    rfl

/-- **Reading numerals.** A text is read as an integer exactly if it denotes the integer. -/
theorem readNumeral_eq_ok_iff {text : CodeText} {n : Int} :
    readNumeral text = .ok n ↔ Denotes text n :=
  ⟨denotes_of_readNumeral, readNumeral_of_denotes⟩

end CodecMocks.Number
