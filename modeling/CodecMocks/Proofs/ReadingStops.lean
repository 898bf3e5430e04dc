import CodecMocks.Json.Reader
import Mathlib.Data.List.Basic

/-!
# Why reading stops

The reader of JSON stops at defects, at integers that are too long, and at containers that are
nested too deep. It does the last two with reason: such an integer has more digits than an integer
may have, and such a text has more opening brackets than containers may be nested.

* `Accounts`: what a reader says of the text that it was given. `accounts_readValue_and`: the
  readers of values, of members and of items say so.
* `digitLimit_lt_of_parse`, `lt_openings_of_parse`: what is refused is too long or too deep.
* `parse_replicate_digit`, `parse_replicate_bracket`: long integers and deep lists are refused.
-/

namespace CodecMocks.Json

open CodecMocks.Number CodecMocks.Text

/-- The character opens a list or an object. -/
def isOpening (c : Char) : Bool :=
  c == '[' || c == '{'

/-- The number of opening brackets in a text. -/
def openings (cs : List Char) : Nat :=
  cs.countP isOpening

section

variable {α β : Type}

/-- A reader of a text leaves a part of it unread, an integer that it refuses has too many digits,
and if it refuses a container, then the text has more than `depth` opening brackets. -/
def Accounts (depth : Nat) (cs : List Char) : Except Stop (α × List Char) → Prop
  | .ok (_, rest) => rest.Sublist cs
  | .error (.tooManyDigits digits) => digitLimit < digits
  | .error (.tooDeep _) => depth < openings cs
  | .error (.defect _ _) => True

variable {depth : Nat} {cs rest : List Char} {x : Except Stop (α × List Char)}

@[simp] theorem accounts_ok_iff {a : α} : Accounts depth cs (.ok (a, rest)) ↔ rest.Sublist cs :=
  Iff.rfl

@[simp] theorem accounts_defect (kind : Defect) :
    Accounts (α := α) depth cs (.error (.defect kind rest)) :=
  trivial

theorem Accounts.bind {f : α × List Char → Except Stop (β × List Char)} (hx : Accounts depth cs x)
    (hf : ∀ a rest, rest.Sublist cs → Accounts depth cs (f (a, rest))) :
    Accounts depth cs (x >>= f) := by
  cases x with
  | error stop => cases stop <;> exact hx
  | ok r => exact hf r.1 r.2 hx

/-- A reader that is given a part of the text. -/
theorem Accounts.mono (h : Accounts depth rest x) (hrest : rest.Sublist cs) :
    Accounts depth cs x := by
  cases x with
  | error stop =>
    cases stop with
    | tooDeep container => exact Nat.lt_of_lt_of_le h (hrest.countP_le)
    | _ => exact h
  | ok r => exact List.Sublist.trans h hrest

/-- A reader that is given a part of what follows an opening bracket. -/
theorem Accounts.opened {c : Char} (h : Accounts depth rest x) (hc : isOpening c = true)
    (hrest : rest.Sublist cs) : Accounts (depth + 1) (c :: cs) x := by
  cases x with
  | error stop =>
    cases stop with
    | tooDeep container =>
      show depth + 1 < openings (c :: cs)
      rw [openings, List.countP_cons_of_pos hc]
      exact Nat.succ_lt_succ (Nat.lt_of_lt_of_le h hrest.countP_le)
    | _ => exact h
  | ok r => exact (List.Sublist.trans h hrest).cons c

end

theorem skipSpace_sublist (cs : List Char) : (skipSpace cs).Sublist cs :=
  List.dropWhile_sublist _

/-- What is found after blanks, and what follows it. -/
theorem sublist_of_skipSpace {cs rest : List Char} {c : Char} (h : skipSpace cs = c :: rest) :
    (c :: rest).Sublist cs ∧ rest.Sublist cs := by
  have hcons : (c :: rest).Sublist cs := h ▸ skipSpace_sublist cs
  exact ⟨hcons, (List.sublist_cons_self c rest).trans hcons⟩

/-! ### Strings -/

theorem hexQuad?_sublist {cs rest : List Char} {n : Nat} (h : hexQuad? cs = some (n, rest)) :
    rest.Sublist cs := by
  unfold hexQuad? at h
  split at h
  · next a b c d tail =>
    simp only [bind, Option.bind_eq_some_iff] at h
    obtain ⟨_, -, _, -, _, -, _, -, h⟩ := h
    cases h
    exact ((((List.Sublist.refl _).cons d).cons c).cons b).cons a
  · cases h

variable {depth : Nat}

theorem accounts_readLowHalf (high : Nat) (cs : List Char) :
    Accounts depth cs (readLowHalf high cs) := by
  fun_cases readLowHalf high cs with
  | case3 _ _ low rest hquad _ => exact ((hexQuad?_sublist hquad).cons _).cons _
  | _ => simp

theorem accounts_readCodeEscape (cs : List Char) : Accounts depth cs (readCodeEscape cs) := by
  fun_cases readCodeEscape cs with
  | case3 _ code rest hquad _ =>
    exact (accounts_readLowHalf code rest).mono (hexQuad?_sublist hquad)
  | case4 _ code rest hquad _ => exact hexQuad?_sublist hquad
  | _ => simp

theorem accounts_readString (opening : List Char) (fuel : Nat) (cs : List Char) :
    Accounts depth cs (readString opening fuel cs) := by
  fun_induction readString opening fuel cs with
  | case3 fuel cs => exact List.sublist_cons_self _ _
  | case5 fuel cs ih =>
    refine Accounts.mono ?_ (((List.Sublist.refl cs).cons 'u').cons '\\')
    exact (accounts_readCodeEscape cs).bind fun a rest hrest =>
      ((ih rest).mono hrest).bind fun _ _ => id
  | case7 fuel e cs c _ _ ih =>
    exact Accounts.mono (ih.bind fun _ _ => id) (((List.Sublist.refl cs).cons e).cons '\\')
  | case9 fuel c cs _ _ _ _ _ ih =>
    exact Accounts.mono (ih.bind fun _ _ => id) ((List.Sublist.refl cs).cons c)
  | _ => simp

/-! ### Numbers and words -/

theorem digitSpan_sublist (cs : List Char) : (digitSpan cs).2.Sublist cs :=
  List.dropWhile_sublist _

theorem minusSpan_sublist (cs : List Char) : (minusSpan cs).2.Sublist cs := by
  fun_cases minusSpan cs with
  | case1 cs => exact List.sublist_cons_self _ _
  | case2 => exact List.Sublist.refl _

theorem wholeSpan_sublist (cs : List Char) : (wholeSpan cs).2.Sublist cs := by
  fun_cases wholeSpan cs with
  | case1 cs => exact List.sublist_cons_self _ _
  | case2 => exact digitSpan_sublist cs

theorem fractionSpan_sublist (cs : List Char) : (fractionSpan cs).2.Sublist cs := by
  fun_cases fractionSpan cs with
  | case2 cs => exact (digitSpan_sublist cs).cons '.'
  | _ => exact List.Sublist.refl _

theorem signOf_sublist (cs : List Char) : (signOf cs).2.Sublist cs := by
  fun_cases signOf cs with
  | case3 => exact List.Sublist.refl _
  | _ => exact List.sublist_cons_self _ _

theorem exponentSpan_sublist (cs : List Char) : (exponentSpan cs).2.Sublist cs := by
  fun_cases exponentSpan cs with
  | case2 e cs _ negative body hsign digits rest hdigits =>
    have hbody : body.Sublist cs := by simpa [hsign] using signOf_sublist cs
    have hrest : rest.Sublist body := by simpa [hdigits] using digitSpan_sublist body
    exact (hrest.trans hbody).cons e
  | _ => exact List.Sublist.refl _

theorem accounts_readNumber (cs : List Char) : Accounts depth cs (readNumber cs) := by
  have hrest {negative : Bool} {body rest afterWhole afterFraction whole fraction : List Char}
      {exponent : Option Int} (hbody : minusSpan cs = (negative, body))
      (hwhole : wholeSpan body = (whole, afterWhole))
      (hfraction : fractionSpan afterWhole = (fraction, afterFraction))
      (hexponent : exponentSpan afterFraction = (exponent, rest)) : rest.Sublist cs := by
    have hbody : body.Sublist cs := by simpa [hbody] using minusSpan_sublist cs
    have hwhole : afterWhole.Sublist body := by simpa [hwhole] using wholeSpan_sublist body
    have hfraction : afterFraction.Sublist afterWhole := by
      simpa [hfraction] using fractionSpan_sublist afterWhole
    have hexponent : rest.Sublist afterFraction := by
      simpa [hexponent] using exponentSpan_sublist afterFraction
    exact ((hexponent.trans hfraction).trans hwhole).trans hbody
  fun_cases readNumber cs with
  | case1 => exact accounts_defect _
  | case2 => assumption
  | case3 _ _ hbody _ _ hwhole _ _ _ hfraction _ _ hexponent =>
    exact hrest hbody hwhole hfraction hexponent
  | case4 _ _ hbody _ _ hwhole _ _ _ hfraction _ _ hexponent =>
    exact hrest hbody hwhole hfraction hexponent

theorem accounts_readScalar (cs : List Char) : Accounts depth cs (readScalar cs) := by
  unfold readScalar
  cases hfound : readWord? cs with
  | none => exact accounts_readNumber cs
  | some found =>
    obtain ⟨word, -, rfl⟩ := Option.map_eq_some_iff.mp hfound
    exact List.drop_sublist _ _

/-! ### Values -/

section

variable {fuel : Nat}

/-- A value, if the items and the members in it are accounted for. -/
theorem accounts_readValue_succ
    (hmembers : ∀ depth cs, Accounts depth cs (readMembers fuel depth cs))
    (hitems : ∀ depth cs, Accounts depth cs (readItems fuel depth cs)) (depth : Nat)
    (cs : List Char) : Accounts depth cs (readValue (fuel + 1) depth cs) := by
  unfold readValue
  dsimp only
  split
  · next rest =>
    exact Accounts.mono ((accounts_readString _ _ rest).bind fun _ _ => id)
      (List.sublist_cons_self _ rest)
  · next rest =>
    split
    · exact List.countP_pos_iff.mpr ⟨'{', List.mem_cons_self, rfl⟩
    · split
      · next hspace => exact (sublist_of_skipSpace hspace).2.cons _
      · exact Accounts.opened ((hmembers _ _).bind fun _ _ => id) rfl (skipSpace_sublist rest)
  · next rest =>
    split
    · exact List.countP_pos_iff.mpr ⟨'[', List.mem_cons_self, rfl⟩
    · split
      · next hspace => exact (sublist_of_skipSpace hspace).2.cons _
      · exact Accounts.opened ((hitems _ _).bind fun _ _ => id) rfl (skipSpace_sublist rest)
  · exact accounts_readScalar _

/-- The members of an object, if the value of the first and the members after it are accounted
for. -/
theorem accounts_readMembers_succ
    (hvalue : ∀ depth cs, Accounts depth cs (readValue fuel depth cs))
    (hmembers : ∀ depth cs, Accounts depth cs (readMembers fuel depth cs)) (depth : Nat)
    (cs : List Char) : Accounts depth cs (readMembers (fuel + 1) depth cs) := by
  unfold readMembers
  dsimp only
  split
  · next rest =>
    refine Accounts.mono ?_ (List.sublist_cons_self '"' rest)
    refine (accounts_readString _ _ rest).bind fun name rest hname => ?_
    dsimp only
    split
    · next value hspace =>
      refine Accounts.mono ?_ ((sublist_of_skipSpace hspace).2.trans hname)
      refine ((hvalue _ _).mono (skipSpace_sublist value)).bind fun found rest hrest => ?_
      dsimp only
      split
      · next hclose => exact (sublist_of_skipSpace hclose).2.trans hrest
      · next more hcomma =>
        refine Accounts.mono ((hmembers _ _).bind fun _ _ => id) ?_
        exact ((skipSpace_sublist more).trans (sublist_of_skipSpace hcomma).2).trans hrest
      · exact accounts_defect _
    · exact accounts_defect _
  · exact accounts_defect _

/-- The items of a list, if the first and the items after it are accounted for. -/
theorem accounts_readItems_succ
    (hvalue : ∀ depth cs, Accounts depth cs (readValue fuel depth cs))
    (hitems : ∀ depth cs, Accounts depth cs (readItems fuel depth cs)) (depth : Nat)
    (cs : List Char) : Accounts depth cs (readItems (fuel + 1) depth cs) := by
  rw [readItems]
  refine (hvalue _ _).bind fun value rest hrest => ?_
  dsimp only
  split
  · next hclose => exact (sublist_of_skipSpace hclose).2.trans hrest
  · next more hcomma =>
    refine Accounts.mono ((hitems _ _).bind fun _ _ => id) ?_
    exact ((skipSpace_sublist more).trans (sublist_of_skipSpace hcomma).2).trans hrest
  · exact accounts_defect _

end

/-- The three readers that call each other, by induction on the fuel that they share. -/
theorem accounts_readValue_and (fuel : Nat) :
    (∀ depth cs, Accounts depth cs (readValue fuel depth cs)) ∧
      (∀ depth cs, Accounts depth cs (readMembers fuel depth cs)) ∧
      ∀ depth cs, Accounts depth cs (readItems fuel depth cs) := by
  induction fuel with
  | zero =>
    refine ⟨fun depth cs => ?_, fun depth cs => ?_, fun depth cs => ?_⟩
    · simp [readValue]
    · simp [readMembers]
    · simp [readItems]
  | succ fuel ih =>
    obtain ⟨hvalue, hmembers, hitems⟩ := ih
    exact ⟨accounts_readValue_succ hmembers hitems, accounts_readMembers_succ hvalue hmembers,
      accounts_readItems_succ hvalue hitems⟩

/-! ### Texts -/

theorem accounts_readText {depth : Nat} {cs : List Char} {stop : Stop}
    (h : readText depth cs = .error stop) :
    Accounts (α := Json) depth cs (.error stop) := by
  unfold readText at h
  split at h
  · cases h
    trivial
  · split at h
    · next hvalue =>
      cases h
      have hread := (accounts_readValue_and (2 * cs.length + 2)).1 depth (skipSpace cs)
      rw [hvalue] at hread
      exact hread.mono (skipSpace_sublist cs)
    · split at h
      · cases h
      · cases h
        trivial

/-- An integer that is refused is too long. -/
theorem digitLimit_lt_of_parse {depth digits : Nat} {cs : List Char}
    (h : parse depth cs = .error (.tooManyDigits digits)) : digitLimit < digits := by
  unfold parse at h
  split at h
  · cases h
  · cases h
  · next hstop =>
    cases h
    exact accounts_readText hstop
  · cases h

/-- A text in which a container is refused has more opening brackets than containers may be nested.
-/
theorem lt_openings_of_parse {depth : Nat} {cs : List Char} {container : Container}
    (h : parse depth cs = .error (.tooDeep container)) : depth < openings cs := by
  unfold parse at h
  split at h
  · cases h
  · cases h
  · cases h
  · next hstop => exact accounts_readText hstop

/-! ### Texts that are refused -/

theorem readValue_bracket_bracket (fuel depth : Nat) (cs : List Char) :
    readValue (fuel + 1) (depth + 1) ('[' :: '[' :: cs) =
      readItems fuel depth ('[' :: cs) >>= fun r => .ok (.list r.1, r.2) := by
  rw [readValue]
  rfl

/-- Two steps of fuel for each level, down to the last one that there is. -/
theorem readValue_replicate_bracket {depth fuel count : Nat} (hfuel : 2 * depth < fuel)
    (hcount : depth < count) :
    readValue fuel depth (List.replicate count '[') = .error (.tooDeep .array) := by
  induction depth generalizing fuel count with
  | zero =>
    obtain ⟨fuel, rfl⟩ := Nat.exists_eq_add_one.mpr hfuel
    obtain ⟨count, rfl⟩ := Nat.exists_eq_add_one.mpr hcount
    rw [List.replicate_succ, readValue]
  | succ depth ih =>
    obtain ⟨fuel, rfl⟩ : ∃ rest, fuel = rest + 2 := ⟨fuel - 2, by omega⟩
    obtain ⟨count, rfl⟩ : ∃ rest, count = rest + 2 := ⟨count - 2, by omega⟩
    have hinner : readValue fuel depth (List.replicate (count + 1) '[') =
        .error (.tooDeep .array) :=
      ih (by omega) (by omega)
    rw [List.replicate_succ, List.replicate_succ, readValue_bracket_bracket,
      ← List.replicate_succ, readItems, hinner]
    rfl

/-- A text that starts with neither a byte order mark nor a blank is read from its start. -/
theorem readText_of_error {depth : Nat} {c : Char} {cs : List Char} {stop : Stop}
    (hmark : c ≠ '\uFEFF') (hspace : isSpace c = false)
    (h : readValue (2 * (c :: cs).length + 2) depth (c :: cs) = .error stop) :
    readText depth (c :: cs) = .error stop := by
  have hskip : skipSpace (c :: cs) = c :: cs := List.dropWhile_cons_of_neg (by simp [hspace])
  unfold readText
  split
  · next heq => exact absurd (List.cons.inj heq).1 hmark
  · rw [hskip, h]

/-- Lists that are nested too deep are refused before their ends are looked for. -/
theorem parse_replicate_bracket {depth count : Nat} (h : depth < count) :
    parse depth (List.replicate count '[') = .error (.tooDeep .array) := by
  have hread : readText depth (List.replicate count '[') = .error (.tooDeep .array) := by
    obtain ⟨rest, rfl⟩ := Nat.exists_eq_add_of_lt h
    refine readText_of_error (by decide) rfl ?_
    rw [List.length_cons, List.length_replicate, ← List.replicate_succ]
    exact readValue_replicate_bracket (by omega) h
  rw [parse, hread]

theorem readNumber_replicate_digit {count : Nat} (h : digitLimit < count) :
    readNumber (List.replicate count '1') = .error (.tooManyDigits count) := by
  have hall : digitSpan (List.replicate count '1') = (List.replicate count '1', []) := by
    rw [digitSpan, List.takeWhile_replicate, List.dropWhile_replicate]
    rfl
  obtain ⟨rest, rfl⟩ := Nat.exists_eq_add_of_lt h
  have hwhole : wholeSpan ('1' :: List.replicate (digitLimit + rest) '1') =
      ('1' :: List.replicate (digitLimit + rest) '1', []) :=
    hall
  simp [List.replicate_succ, readNumber, minusSpan, hwhole, fractionSpan, exponentSpan, h]

/-- An integer that is too long is refused. -/
theorem parse_replicate_digit {depth count : Nat} (h : digitLimit < count) :
    parse depth (List.replicate count '1') = .error (.tooManyDigits count) := by
  have hnumber := readNumber_replicate_digit h
  have hread : readText depth (List.replicate count '1') = .error (.tooManyDigits count) := by
    obtain ⟨rest, rfl⟩ := Nat.exists_eq_add_of_lt h
    have hword : readWord? ('1' :: List.replicate (digitLimit + rest) '1') = none := rfl
    refine readText_of_error (by decide) rfl ?_
    rw [readValue, readScalar, hword]
    · exact hnumber
    all_goals exact nofun
  rw [parse, hread]

end CodecMocks.Json
