import CodecMocks.Json.Reader
import CodecMocks.Json.Spelling
import CodecMocks.Proofs.DocumentParts
import Mathlib.Data.List.Induction

/-!
# Values that can be spelled

A value is put into words level by level, and an integer only if it has few enough digits. Which
values that leaves is described apart from their spelling. A value that has been read from a text is
always one of them: the reader refuses longer integers, and it bounds the containers around a value.

* `Spellable`: the values that can be spelled. `exists_literal_iff`: no others can.
* `Spellable.lookup`, `Spellable.item`: parts have one level less.
* `spellable_of_parse`: what is read can be spelled.
-/

namespace CodecMocks.Json

open CodecMocks.Number

/-- The value has no more than `depth` levels, and its integers have no more than `digitLimit`
digits. -/
inductive Spellable : Nat → Json → Prop where
  | null {depth : Nat} : Spellable (depth + 1) .null
  | bool {depth : Nat} (b : Bool) : Spellable (depth + 1) (.bool b)
  | integer {depth : Nat} {n : Int} (h : n.natAbs < Nat.pow 10 digitLimit) :
      Spellable (depth + 1) (.integer n)
  | number {depth : Nat} (x : Binary64) : Spellable (depth + 1) (.number x)
  | text {depth : Nat} (s : CodeText) : Spellable (depth + 1) (.text s)
  | list {depth : Nat} {items : List Json} (h : ∀ item ∈ items, Spellable depth item) :
      Spellable (depth + 1) (.list items)
  | object {depth : Nat} {members : List (CodeText × Json)}
      (h : ∀ member ∈ members, Spellable depth member.2) : Spellable (depth + 1) (.object members)

/-! ### Literals -/

section

variable {depth : Nat} (ih : ∀ value, (∃ s, literal depth value = .ok s) ↔ Spellable depth value)

include ih

theorem exists_itemLiterals_iff (items : List Json) :
    (∃ ss, itemLiterals depth items = .ok ss) ↔ ∀ item ∈ items, Spellable depth item := by
  induction items with
  | nil => simp [itemLiterals]
  | cons item rest ihRest =>
    rw [List.forall_mem_cons, ← ih, ← ihRest, itemLiterals]
    cases item.literal depth <;> cases itemLiterals depth rest <;>
      simp [bind, Except.bind, pure, Except.pure]

theorem exists_memberLiterals_iff (members : List (CodeText × Json)) :
    (∃ ss, memberLiterals depth members = .ok ss) ↔
      ∀ member ∈ members, Spellable depth member.2 := by
  induction members with
  | nil => simp [memberLiterals]
  | cons member rest ihRest =>
    obtain ⟨name, value⟩ := member
    rw [List.forall_mem_cons, ← ih, ← ihRest, memberLiterals]
    cases value.literal depth <;> cases memberLiterals depth rest <;>
      simp [bind, Except.bind, pure, Except.pure]

end

/-- A value has a literal exactly if it can be spelled: by induction on the levels, and for a list
and an object on what they hold. -/
theorem exists_literal_iff (depth : Nat) (value : Json) :
    (∃ s, value.literal depth = .ok s) ↔ Spellable depth value := by
  induction depth generalizing value with
  | zero =>
    rw [literal]
    exact iff_of_false nofun nofun
  | succ depth ih =>
    cases value with
    | null => exact iff_of_true ⟨_, rfl⟩ .null
    | bool b => cases b <;> exact iff_of_true ⟨_, rfl⟩ (.bool _)
    | integer n =>
      rw [literal, integerLiteral]
      split
      · next h => exact iff_of_true ⟨_, rfl⟩ (.integer h)
      · next h => exact iff_of_false nofun fun hspellable => by cases hspellable; contradiction
    | number x => exact iff_of_true ⟨_, rfl⟩ (.number x)
    | text s => exact iff_of_true ⟨_, rfl⟩ (.text s)
    | list items =>
      have hlist : (∃ s, (list items).literal (depth + 1) = .ok s) ↔
          ∃ ss, itemLiterals depth items = .ok ss := by
        rw [literal]
        cases itemLiterals depth items <;> simp [bind, Except.bind, pure, Except.pure]
      rw [hlist, exists_itemLiterals_iff ih]
      exact ⟨.list, fun h => by cases h; assumption⟩
    | object members =>
      have hobject : (∃ s, (object members).literal (depth + 1) = .ok s) ↔
          ∃ ss, memberLiterals depth members = .ok ss := by
        rw [literal]
        cases memberLiterals depth members <;> simp [bind, Except.bind, pure, Except.pure]
      rw [hobject, exists_memberLiterals_iff ih]
      exact ⟨.object, fun h => by cases h; assumption⟩

/-! ### Parts -/

namespace Spellable

variable {depth : Nat} {value : Json}

theorem succ (h : Spellable depth value) : Spellable (depth + 1) value := by
  induction h with
  | null => exact .null
  | bool b => exact .bool b
  | integer h => exact .integer h
  | number x => exact .number x
  | text s => exact .text s
  | list _ ih => exact .list ih
  | object _ ih => exact .object ih

/-- More levels do no harm. -/
theorem mono (h : Spellable depth value) {deeper : Nat} (hle : depth ≤ deeper) :
    Spellable deeper value := by
  induction hle with
  | refl => exact h
  | step _ ih => exact ih.succ

/-- The member of an object has one level less. -/
theorem lookup {members : List (CodeText × Json)} (h : Spellable depth (.object members))
    {name : String} (hvalue : Json.lookup name members = some value) :
    Spellable (depth - 1) value := by
  cases h with
  | object h => exact h _ (Entries.mem_of_get?_eq_some hvalue)

/-- What a value is made of has one level less, unless it is a text. -/
theorem item (h : Spellable depth value) {items : List Json} (hitems : value.items? = some items)
    {item : Json} (hitem : item ∈ items) :
    Spellable (depth - 1) item ∨ ∃ s, item = .text s := by
  cases h with
  | list h =>
    cases hitems
    exact .inl (h item hitem)
  | object =>
    cases hitems
    obtain ⟨member, -, rfl⟩ := List.mem_map.mp hitem
    exact .inr ⟨member.1, rfl⟩
  | text s =>
    cases hitems
    obtain ⟨p, -, rfl⟩ := List.mem_map.mp hitem
    exact .inr ⟨_, rfl⟩
  | _ => cases hitems

end Spellable

/-! ### What is read from a text -/

theorem asciiDigit?_lt_ten {c : Char} {d : Nat} (h : asciiDigit? c = some d) : d < 10 := by
  unfold asciiDigit? at h
  split at h
  · next hdigit =>
    cases h
    have hle : c.toNat ≤ 57 := (Char.isDigit_iff_toNat.mp hdigit).2
    have hzero : '0'.toNat = 48 := rfl
    omega
  · cases h

theorem ofDigits_lt {digits : List Nat} (h : ∀ d ∈ digits, d < 10) :
    ofDigits digits < Nat.pow 10 digits.length := by
  induction digits using List.reverseRecOn with
  | nil => decide
  | append_singleton digits d ih =>
    have hrest := ih fun e he => h e (List.mem_append_left _ he)
    have hlast := h d (List.mem_append_right _ (List.mem_singleton_self d))
    have hsplit : ofDigits (digits ++ [d]) = 10 * ofDigits digits + d := by
      simp [ofDigits, List.foldl_append]
    rw [hsplit, List.length_append, List.length_singleton]
    show _ < Nat.pow 10 digits.length * 10
    omega

theorem natOfDigits_lt {cs : List Char} {count : Nat} (h : cs.length ≤ count) :
    natOfDigits cs < Nat.pow 10 count := by
  refine Nat.lt_of_lt_of_le (ofDigits_lt fun d hd => ?_)
    (Nat.pow_le_pow_right (by decide) (Nat.le_trans (List.length_filterMap_le _ cs) h))
  obtain ⟨c, -, hc⟩ := List.mem_filterMap.mp hd
  exact asciiDigit?_lt_ten hc

section

variable {α β : Type}

/-- What is read, if anything, has the property. -/
def Yields (P : α → Prop) (result : Except Stop (α × List Char)) : Prop :=
  ∀ a rest, result = .ok (a, rest) → P a

variable {P : α → Prop} {Q : β → Prop}

theorem yields_ok {a : α} (h : P a) (rest : List Char) : Yields P (.ok (a, rest)) := by
  intro a' rest' heq
  cases heq
  exact h

@[simp] theorem yields_error (stop : Stop) : Yields P (.error stop) := by
  intro a rest h
  cases h

theorem Yields.bind {x : Except Stop (α × List Char)}
    {f : α × List Char → Except Stop (β × List Char)} (hx : Yields P x)
    (hf : ∀ a rest, P a → Yields Q (f (a, rest))) : Yields Q (x >>= f) := by
  cases x with
  | error stop => exact yields_error stop
  | ok r => exact hf r.1 r.2 (hx r.1 r.2 rfl)

theorem yields_bind {x : Except Stop (α × List Char)}
    {f : α × List Char → Except Stop (β × List Char)} (hf : ∀ a rest, Yields Q (f (a, rest))) :
    Yields Q (x >>= f) :=
  Yields.bind (P := fun _ => True) (fun _ _ _ => trivial) fun a rest _ => hf a rest

end

theorem spellable_readNumber (depth : Nat) (cs : List Char) :
    Yields (Spellable (depth + 1)) (readNumber cs) := by
  fun_cases readNumber cs with
  | case3 negative body _ whole _ _ _ _ _ _ _ _ _ _ hdigits n =>
    have hlt : natOfDigits whole < Nat.pow 10 digitLimit :=
      natOfDigits_lt (Nat.le_of_not_lt hdigits)
    refine yields_ok (.integer ?_) _
    cases negative
    · exact hlt
    · show (-(natOfDigits whole : Int)).natAbs < _
      rwa [Int.natAbs_neg]
  | case4 => exact yields_ok (.number _) _
  | _ => exact yields_error _

theorem spellable_readScalar (depth : Nat) (cs : List Char) :
    Yields (Spellable (depth + 1)) (readScalar cs) := by
  unfold readScalar
  cases hfound : readWord? cs with
  | none => exact spellable_readNumber depth cs
  | some found =>
    obtain ⟨word, hword, rfl⟩ := Option.map_eq_some_iff.mp hfound
    have hwords : ∀ word ∈ words, Spellable (depth + 1) word.2 := by
      simp only [words, List.forall_mem_cons, List.not_mem_nil, false_imp_iff, implies_true,
        and_true]
      exact ⟨.null, .bool _, .bool _, .number _, .number _, .number _⟩
    exact yields_ok (hwords word (List.mem_of_find?_eq_some hword)) _

/-- The values of all members can be spelled. -/
def SpellableMembers (depth : Nat) (members : List (CodeText × Json)) : Prop :=
  ∀ member ∈ members, Spellable depth member.2

/-- All items can be spelled. -/
def SpellableItems (depth : Nat) (items : List Json) : Prop :=
  ∀ item ∈ items, Spellable depth item

section

variable {fuel : Nat}

/-- A value, if the members and the items in it can be spelled. -/
theorem spellable_readValue_succ
    (hmembers : ∀ depth cs, Yields (SpellableMembers (depth + 1)) (readMembers fuel depth cs))
    (hitems : ∀ depth cs, Yields (SpellableItems (depth + 1)) (readItems fuel depth cs))
    (depth : Nat) (cs : List Char) :
    Yields (Spellable (depth + 1)) (readValue (fuel + 1) depth cs) := by
  unfold readValue
  dsimp only
  split
  · exact yields_bind fun s rest => yields_ok (.text _) rest
  · split
    · exact yields_error _
    · split
      · exact yields_ok (.object (by simp)) _
      · refine (hmembers _ _).bind fun members rest h => yields_ok (.object ?_) rest
        exact fun member hmember => h member (Entries.mem_of_mem_ofList hmember)
  · split
    · exact yields_error _
    · split
      · exact yields_ok (.list (by simp)) _
      · exact (hitems _ _).bind fun items rest h => yields_ok (.list h) rest
  · exact spellable_readScalar _ _

/-- The members of an object, if the value of the first and the members after it can be spelled. -/
theorem spellable_readMembers_succ
    (hvalue : ∀ depth cs, Yields (Spellable (depth + 1)) (readValue fuel depth cs))
    (hmembers : ∀ depth cs, Yields (SpellableMembers (depth + 1)) (readMembers fuel depth cs))
    (depth : Nat) (cs : List Char) :
    Yields (SpellableMembers (depth + 1)) (readMembers (fuel + 1) depth cs) := by
  unfold readMembers
  dsimp only
  split
  · refine yields_bind fun name rest => ?_
    dsimp only
    split
    · refine (hvalue _ _).bind fun value rest h => ?_
      dsimp only
      split
      · exact yields_ok (fun member hmember => List.mem_singleton.mp hmember ▸ h) _
      · refine (hmembers _ _).bind fun members rest hrest => yields_ok ?_ rest
        exact List.forall_mem_cons.mpr ⟨h, hrest⟩
      · exact yields_error _
    · exact yields_error _
  · exact yields_error _

/-- The items of a list, if the first and the items after it can be spelled. -/
theorem spellable_readItems_succ
    (hvalue : ∀ depth cs, Yields (Spellable (depth + 1)) (readValue fuel depth cs))
    (hitems : ∀ depth cs, Yields (SpellableItems (depth + 1)) (readItems fuel depth cs))
    (depth : Nat) (cs : List Char) :
    Yields (SpellableItems (depth + 1)) (readItems (fuel + 1) depth cs) := by
  rw [readItems]
  refine (hvalue _ _).bind fun value rest h => ?_
  dsimp only
  split
  · exact yields_ok (List.forall_mem_singleton.mpr h) _
  · exact (hitems _ _).bind fun items rest hrest =>
      yields_ok (List.forall_mem_cons.mpr ⟨h, hrest⟩) rest
  · exact yields_error _

end

/-- The three readers that call each other, by induction on the fuel that they share. -/
theorem spellable_readValue_and (fuel : Nat) :
    (∀ depth cs, Yields (Spellable (depth + 1)) (readValue fuel depth cs)) ∧
      (∀ depth cs, Yields (SpellableMembers (depth + 1)) (readMembers fuel depth cs)) ∧
      ∀ depth cs, Yields (SpellableItems (depth + 1)) (readItems fuel depth cs) := by
  induction fuel with
  | zero =>
    refine ⟨fun depth cs => ?_, fun depth cs => ?_, fun depth cs => ?_⟩
    · simp [readValue]
    · simp [readMembers]
    · simp [readItems]
  | succ fuel ih =>
    obtain ⟨hvalue, hmembers, hitems⟩ := ih
    exact ⟨spellable_readValue_succ hmembers hitems, spellable_readMembers_succ hvalue hmembers,
      spellable_readItems_succ hvalue hitems⟩

/-- A value that is read has one level more at most than containers may be nested. -/
theorem spellable_of_parse {depth : Nat} {cs : List Char} {value : Json}
    (h : parse depth cs = .ok value) : Spellable (depth + 1) value := by
  have hread : readText depth cs = .ok value := by
    unfold parse at h
    split at h
    · cases h
      assumption
    · cases h
    · cases h
    · cases h
  unfold readText at hread
  split at hread
  · cases hread
  · split at hread
    · cases hread
    · next found rest hvalue =>
      split at hread
      · cases hread
        exact (spellable_readValue_and _).1 _ _ value rest hvalue
      · cases hread

end CodecMocks.Json
