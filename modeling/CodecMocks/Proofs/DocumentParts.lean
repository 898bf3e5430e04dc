import CodecMocks.Schema.Document
import Mathlib.Data.List.Forall2

/-!
# Reading the parts of a document

A reader of documents reads one part after the other and stops at the first that is faulty. The
readers of an encoding and of a token are opened here into their parts once, so that what is read
and what is refused follows from the parts.

* `bind_eq_ok_iff`, `mapM_eq_ok_iff`: when all parts are read.
* `encodingOf_object`, `encodingOf_eq_ok_iff`: an encoding is its primitive type, its presence, its
  array length and its constant, in this order.
* `tokenOf_eq`, `tokenOf_eq_ok_iff`: a token is its name, its signal and its encoding.
* `partsOfCatalog_eq`: a catalog is its package, its header, its types and its messages.
-/

namespace CodecMocks.Json

@[simp] theorem lookup_nil (name : String) : lookup name [] = none := rfl

@[simp] theorem lookup_cons_ofString (name other : String) (value : Json)
    (members : List (CodeText × Json)) :
    lookup name ((.ofString other, value) :: members) =
      if other = name then some value else lookup name members := by
  simp [lookup, Entries.get?, CodeText.ofString_inj]

end CodecMocks.Json

namespace CodecMocks.Schema

open CodecMocks CodecMocks.Text

/-! ### One part after the other -/

section

variable {α β ε : Type}

theorem bind_eq_ok_iff {x : Except ε α} {f : α → Except ε β} {b : β} :
    (x >>= f) = .ok b ↔ ∃ a, x = .ok a ∧ f a = .ok b := by
  cases x with
  | error e => simp [bind, Except.bind]
  | ok a => simp [bind, Except.bind]

theorem mapM_cons_eq (f : α → Except ε β) (a : α) (as : List α) :
    (a :: as).mapM f = (f a >>= fun b => as.mapM f >>= fun bs => .ok (b :: bs)) :=
  List.mapM_cons

/-- All parts of a list are read, each on its own. -/
theorem mapM_eq_ok_iff {f : α → Except ε β} {as : List α} {bs : List β} :
    as.mapM f = .ok bs ↔ List.Forall₂ (fun a b => f a = .ok b) as bs := by
  induction as generalizing bs with
  | nil =>
    rw [List.forall₂_nil_left_iff]
    exact ⟨fun h => (Except.ok.inj h).symm, fun h => h ▸ rfl⟩
  | cons a as ih =>
    rw [mapM_cons_eq, bind_eq_ok_iff, List.forall₂_cons_left_iff]
    constructor
    · rintro ⟨b, hb, hrest⟩
      obtain ⟨bs', hbs, hcons⟩ := bind_eq_ok_iff.mp hrest
      exact ⟨b, bs', hb, ih.mp hbs, (Except.ok.inj hcons).symm⟩
    · rintro ⟨b, bs', hb, hbs, rfl⟩
      exact ⟨b, hb, bind_eq_ok_iff.mpr ⟨bs', ih.mpr hbs, rfl⟩⟩

/-- What is written part by part is read back part by part. -/
theorem mapM_map_eq_ok {write : α → β} {read : β → Except ε α}
    (h : ∀ a, read (write a) = .ok a) (as : List α) : (as.map write).mapM read = .ok as := by
  rw [mapM_eq_ok_iff, List.forall₂_map_left_iff, List.forall₂_same]
  intro a _
  exact h a

end

/-! ### Encodings -/

/-- The members of an object. -/
abbrev Members := List (CodeText × Json)

section

variable (depth : Nat) (members : Members)

/-- The primitive type among the members of an encoding. -/
def primitivePart : Except DocumentError Primitive :=
  memberOf "primitive_type" (.object members) >>= primitiveOf depth

/-- The presence among the members of an encoding. -/
def presencePart : Except DocumentError Presence :=
  match Json.lookup "presence" members with
  | some value => presenceOf depth value
  | none => .ok .required

/-- The array length among the members of an encoding. -/
def lengthPart : Except DocumentError Int :=
  match Json.lookup "array_length" members with
  | some value => (lengthOf value).mapError .length
  | none => .ok 1

/-- The constant among the members of an encoding. -/
def constantPart : Except DocumentError (Option CodeText) :=
  constantOf depth (Json.lookup "const_value" members)

theorem encodingOf_object :
    encodingOf depth (.object members) =
      primitivePart depth members >>= fun primitive =>
        presencePart depth members >>= fun presence =>
          lengthPart members >>= fun arrayLength =>
            constantPart depth members >>= fun constValue =>
              .ok { primitive, presence, arrayLength, constValue } := by
  simp only [encodingOf, primitivePart, presencePart, lengthPart, constantPart, bind_assoc]
  cases Json.lookup "presence" members <;> cases Json.lookup "array_length" members <;> rfl

end

theorem encodingOf_eq_ok_iff {depth : Nat} {members : Members} {e : Encoding} :
    encodingOf depth (.object members) = .ok e ↔
      primitivePart depth members = .ok e.primitive ∧
        presencePart depth members = .ok e.presence ∧ lengthPart members = .ok e.arrayLength ∧
        constantPart depth members = .ok e.constValue := by
  rw [encodingOf_object]
  constructor
  · intro h
    obtain ⟨primitive, hprimitive, h⟩ := bind_eq_ok_iff.mp h
    obtain ⟨presence, hpresence, h⟩ := bind_eq_ok_iff.mp h
    obtain ⟨arrayLength, hlength, h⟩ := bind_eq_ok_iff.mp h
    obtain ⟨constValue, hconstant, h⟩ := bind_eq_ok_iff.mp h
    cases h
    exact ⟨hprimitive, hpresence, hlength, hconstant⟩
  · rintro ⟨hprimitive, hpresence, hlength, hconstant⟩
    rw [hprimitive, hpresence, hlength, hconstant]
    rfl

/-! ### Tokens -/

/-- The name of the token that a value describes. -/
def namePart (value : Json) : Except DocumentError CodeText :=
  memberOf "name" value >>= fun
    | .text name => .ok name
    | other => .error (.nameNotText other.kindName)

section

variable (depth : Nat) (value : Json)

/-- The signal of the token that a value describes. -/
def signalPart : Except DocumentError Signal :=
  memberOf "signal" value >>= signalOf depth

/-- The encoding of the token that a value describes, if it has one. -/
def encodingPart : Except DocumentError (Option Encoding) :=
  match value.member? "encoding" with
  | none | some .null => .ok none
  | some e => (encodingOf depth e).map some

theorem tokenOf_eq :
    tokenOf depth value =
      namePart value >>= fun name =>
        signalPart depth value >>= fun signal =>
          encodingPart depth value >>= fun encoding => .ok { signal, name, encoding } := by
  simp only [tokenOf, namePart, signalPart, encodingPart, bind_assoc]
  cases memberOf "name" value with
  | error e => rfl
  | ok named =>
    cases named with
    | text name =>
      cases value.member? "encoding" with
      | none => rfl
      | some e => cases e <;> rfl
    | _ => rfl

end

theorem tokenOf_eq_ok_iff {depth : Nat} {value : Json} {t : Token} :
    tokenOf depth value = .ok t ↔
      namePart value = .ok t.name ∧ signalPart depth value = .ok t.signal ∧
        encodingPart depth value = .ok t.encoding := by
  rw [tokenOf_eq]
  constructor
  · intro h
    obtain ⟨name, hname, h⟩ := bind_eq_ok_iff.mp h
    obtain ⟨signal, hsignal, h⟩ := bind_eq_ok_iff.mp h
    obtain ⟨encoding, hencoding, h⟩ := bind_eq_ok_iff.mp h
    cases h
    exact ⟨hname, hsignal, hencoding⟩
  · rintro ⟨hname, hsignal, hencoding⟩
    rw [hname, hsignal, hencoding]
    rfl

/-! ### Catalogs -/

theorem partsOfCatalog_eq (depth : Nat) (document : Json) :
    partsOfCatalog depth document =
      memberOf "namespace" document >>= fun package =>
        tokensOf depth (memberOrEmpty "header" document) >>= fun header =>
          rangesOf depth (memberOrEmpty "types" document) >>= fun types =>
            rangesOf depth (memberOrEmpty "messages" document) >>= fun messages =>
              .ok (package, header, types, messages) :=
  rfl

end CodecMocks.Schema
