import CodecMocks.Lists
import CodecMocks.Proofs.Numerals
import CodecMocks.Proofs.PrunedDocuments
import CodecMocks.Proofs.SpelledValues
import CodecMocks.Schema.Load

/-!
# The grammar of documents

Which documents are catalogs is described member by member, apart from their reader: what has to be
there, what may be absent, and what stands for what. A value that has to be a list is walked, so an
object stands for the list of its names and a text for the list of its characters.

* `StandsFor`: the integers that values stand for.
* `IsEncoding`, `IsToken`, `IsCatalog`: the grammar.
* `DescribesEncoding`, `DescribesToken`, `DescribesCatalog`: what documents say, with the defaults
  of absent members.
* `ofDocument_eq_ok_iff`: a document is read as what it describes.
* `exists_describesCatalog_iff`: the documents that describe something are those of the grammar.
* `isCatalog_of_spellable`: in a document that was read from a text, any constant will do.
* `ofDocument_grammar`: exactly the documents of the grammar are read, as what they describe, and
  members beyond the grammar do not count. `listConstant_grammar`: one that was read from a text.
-/

namespace CodecMocks.Schema

open CodecMocks CodecMocks.Number CodecMocks.Text

/-! ### What is asked of a value -/

/-- What is asked of the value under a name: `absent` if there is none, `present` of it
otherwise. -/
def OfMember (name : String) (members : Members) (absent : Prop) (present : Json → Prop) : Prop :=
  match Json.lookup name members with
  | none => absent
  | some value => present value

/-- The value is an object with such members. -/
def IsObject (members : Members → Prop) (value : Json) : Prop :=
  ∃ given, value = .object given ∧ members given

/-- The value can be walked, and all that it is made of is so. -/
def EachItem (item : Json → Prop) (value : Json) : Prop :=
  ∃ items, value.items? = some items ∧ ∀ value ∈ items, item value

/-- The value can be walked, and what it is made of describes the `results` one by one. -/
def Lists {α : Type} (item : Json → α → Prop) (value : Json) (results : List α) : Prop :=
  ∃ items, value.items? = some items ∧ List.Forall₂ item items results

/-- The value stands for the integer: it is the integer, one or zero for a truth value, a number
that is the integer but for its fraction, or a text that denotes it. -/
def StandsFor : Json → Int → Prop
  | .integer m, n => n = m
  | .bool b, n => n = if b then 1 else 0
  | .number x, n => x.truncate? = some n
  | .text s, n => Denotes s n
  | _, _ => False

/-! ### The grammar -/

/-- The members of an encoding. A constant is absent or `null`, or such that `constant` holds of it.
-/
structure IsEncoding (constant : Json → Prop) (members : Members) : Prop where
  primitive : ∃ p : Primitive, Json.lookup "primitive_type" members = some (.ofString p.name)
  presence : OfMember "presence" members True fun value =>
    ∃ p : Presence, value = .ofString p.name
  arrayLength : OfMember "array_length" members True fun value => ∃ n, StandsFor value n
  constValue : OfMember "const_value" members True fun value => value = .null ∨ constant value

/-- The members of a token. -/
structure IsToken (constant : Json → Prop) (members : Members) : Prop where
  name : ∃ text, Json.lookup "name" members = some (.text text)
  signal : ∃ s : Signal, Json.lookup "signal" members = some (.ofString s.name)
  encoding : OfMember "encoding" members True fun value =>
    value = .null ∨ IsObject (IsEncoding constant) value

/-- The members of a catalog. -/
structure IsCatalog (constant : Json → Prop) (members : Members) : Prop where
  package : ∃ text, Json.lookup "namespace" members = some (.text text) ∧ text ≠ ""
  header : OfMember "header" members True (EachItem (IsObject (IsToken constant)))
  types : OfMember "types" members True (EachItem (EachItem (IsObject (IsToken constant))))
  messages : OfMember "messages" members True (EachItem (EachItem (IsObject (IsToken constant))))

/-! ### What is described -/

/-- What is kept of a constant: nothing of `null`, a text as it is, and of any other value its
literal. -/
def KeptAs (depth : Nat) : Json → Option CodeText → Prop
  | .null, kept => kept = none
  | .text s, kept => kept = some s
  | value, kept => ∃ literal, value.literal depth = .ok literal ∧ kept = some (.ofString literal)

/-- The members describe an encoding. A presence is required and a length is one if absent. -/
structure DescribesEncoding (depth : Nat) (members : Members) (e : Encoding) : Prop where
  primitive : Json.lookup "primitive_type" members = some (.ofString e.primitive.name)
  presence : OfMember "presence" members (e.presence = .required)
    (· = .ofString e.presence.name)
  arrayLength : OfMember "array_length" members (e.arrayLength = 1) (StandsFor · e.arrayLength)
  constValue : OfMember "const_value" members (e.constValue = none) (KeptAs depth · e.constValue)

/-- The members describe a token. The name is kept as it is. -/
structure DescribesToken (depth : Nat) (members : Members) (t : Token) : Prop where
  name : Json.lookup "name" members = some (.text t.name)
  signal : Json.lookup "signal" members = some (.ofString t.signal.name)
  encoding : OfMember "encoding" members (t.encoding = none) fun value =>
    value = .null ∧ t.encoding = none ∨
      ∃ e, IsObject (DescribesEncoding depth · e) value ∧ t.encoding = some e

/-- The items of a value describe tokens. -/
def DescribesRange (depth : Nat) : Json → List Token → Prop :=
  Lists fun value t => IsObject (DescribesToken depth · t) value

/-- The members describe a catalog. Token ranges are lists that are empty if absent, and an empty
header is the default one. -/
structure DescribesCatalog (depth : Nat) (members : Members) (c : Catalog) : Prop where
  package : Json.lookup "namespace" members = some (.text c.package) ∧ c.package ≠ ""
  header : ∃ header, OfMember "header" members (header = []) (DescribesRange depth · header) ∧
    c.header = if header = [] then emptyHeader else header
  types : OfMember "types" members (c.types = []) (Lists (DescribesRange depth) · c.types)
  messages : OfMember "messages" members (c.messages = [])
    (Lists (DescribesRange depth) · c.messages)

/-! ### Values -/

variable {depth : Nat}

theorem shown_ne_ok {α : Type} {value : Json} {error : String → DocumentError}
    {fault : Json.SpellFault → DocumentError} {a : α} : shown depth value error fault ≠ .ok a := by
  unfold shown
  split <;> exact nofun

/-- A value of a fixed set is read from its name, and from nothing else. -/
theorem find?_name_eq_some_iff {α : Type} {all : List α} {name : α → String} {a : α}
    (ha : all.find? (fun x => CodeText.ofString (name x) == name a) = some a) {text : CodeText} :
    all.find? (fun x => CodeText.ofString (name x) == text) = some a ↔
      Json.text text = .ofString (name a) := by
  constructor
  · intro h
    have hname : (CodeText.ofString (name a) == text) = true :=
      List.find?_some (p := fun x => CodeText.ofString (name x) == text) h
    rw [Json.ofString, beq_iff_eq.mp hname]
  · intro h
    rw [Json.text.inj h]
    exact ha

theorem signalOf_eq_ok_iff {value : Json} {s : Signal} :
    signalOf depth value = .ok s ↔ value = .ofString s.name := by
  cases value with
  | text text =>
    have hread : signalOf depth (.text text) = .ok s ↔ Signal.ofName? text = some s := by
      cases hname : Signal.ofName? text <;> simp [signalOf, hname, shown_ne_ok]
    exact hread.trans (find?_name_eq_some_iff (Signal.ofName?_name s))
  | _ => simp [signalOf, Json.ofString, shown_ne_ok]

theorem primitiveOf_eq_ok_iff {value : Json} {p : Primitive} :
    primitiveOf depth value = .ok p ↔ value = .ofString p.name := by
  cases value with
  | text text =>
    have hread : primitiveOf depth (.text text) = .ok p ↔ Primitive.ofName? text = some p := by
      cases hname : Primitive.ofName? text <;> simp [primitiveOf, hname, shown_ne_ok]
    exact hread.trans (find?_name_eq_some_iff (Primitive.ofName?_name p))
  | _ => simp [primitiveOf, Json.ofString, shown_ne_ok]

theorem presenceOf_eq_ok_iff {value : Json} {p : Presence} :
    presenceOf depth value = .ok p ↔ value = .ofString p.name := by
  cases value with
  | text text =>
    have hread : presenceOf depth (.text text) = .ok p ↔ Presence.ofName? text = some p := by
      cases hname : Presence.ofName? text <;> simp [presenceOf, hname, shown_ne_ok]
    exact hread.trans (find?_name_eq_some_iff (Presence.ofName?_name p))
  | _ => simp [presenceOf, Json.ofString, shown_ne_ok]

/-- A constant that is displayed by its literal is kept as that. -/
theorem constantOf_eq_literal {value : Json} (hnull : value ≠ .null)
    (hdisplay : value.display depth = (value.literal depth).map .ofString) :
    constantOf depth (some value) =
      ((value.literal depth).map fun literal => some (CodeText.ofString literal)).mapError
        .unspelled := by
  have hconstant : constantOf depth (some value) =
      ((value.display depth).map some).mapError .unspelled := by
    unfold constantOf
    split
    · next h => cases h
    · next h => exact absurd (Option.some.inj h) hnull
    · next h =>
      cases h
      split <;> next hshown => rw [hshown]; rfl
  rw [hconstant, hdisplay]
  cases value.literal depth <;> rfl

/-- What is kept of a value that is not absent. -/
theorem constantOf_some_eq_ok_iff {value : Json} {kept : Option CodeText} :
    constantOf depth (some value) = .ok kept ↔ KeptAs depth value kept := by
  have hliteral {value : Json} (hnull : value ≠ .null)
      (hdisplay : value.display depth = (value.literal depth).map .ofString) :
      constantOf depth (some value) = .ok kept ↔
        ∃ literal, value.literal depth = .ok literal ∧ kept = some (.ofString literal) := by
    rw [constantOf_eq_literal hnull hdisplay]
    cases value.literal depth <;> simp [Except.map, Except.mapError, eq_comm]
  cases value with
  | null => exact ⟨fun h => (Except.ok.inj h).symm, fun h => congrArg _ (Eq.symm h)⟩
  | text s => exact ⟨fun h => (Except.ok.inj h).symm, fun h => congrArg _ (Eq.symm h)⟩
  | _ => exact hliteral (by simp) rfl

theorem lengthOf_eq_ok_iff {value : Json} {n : Int} :
    lengthOf value = .ok n ↔ StandsFor value n := by
  cases value with
  | number x =>
    cases x <;> simp [lengthOf, StandsFor, Binary64.truncate?]
  | text text =>
    rw [StandsFor, ← readNumeral_eq_ok_iff, lengthOf]
    cases readNumeral text with
    | ok m => simp
    | error fault => cases fault <;> simp
  | _ => simp [lengthOf, StandsFor, eq_comm]

/-! ### Members -/

section

variable {α : Type} {name : String} {members : Members}

/-- Something is described by a member or by its absence exactly if the member describes something
when it is there. -/
theorem exists_ofMember_iff {absent : α} {present : Json → α → Prop} {asked : Json → Prop}
    (h : ∀ value, (∃ a, present value a) ↔ asked value) :
    (∃ a, OfMember name members (a = absent) (present · a)) ↔
      OfMember name members True asked := by
  unfold OfMember
  cases Json.lookup name members with
  | none => exact iff_of_true ⟨absent, rfl⟩ trivial
  | some value => exact h value

theorem memberOf_object_eq_ok_iff {value : Json} :
    memberOf name (.object members) = .ok value ↔ Json.lookup name members = some value := by
  rw [memberOf]
  cases Json.lookup name members <;> simp

end

/-- A value describes some list exactly if each of its items describes something. -/
theorem exists_lists_iff {α : Type} {item : Json → α → Prop} {value : Json} :
    (∃ results, Lists item value results) ↔ EachItem (fun value => ∃ a, item value a) value := by
  simp only [Lists, EachItem, ← exists_forall₂_iff]
  exact ⟨fun ⟨results, items, hitems, h⟩ => ⟨items, hitems, results, h⟩,
    fun ⟨items, hitems, results, h⟩ => ⟨results, items, hitems, h⟩⟩

theorem eachItem_congr {item item' : Json → Prop} (h : ∀ value, item value ↔ item' value)
    {value : Json} : EachItem item value ↔ EachItem item' value := by
  simp only [EachItem, h]

theorem exists_isObject_iff {α : Type} {given : Members → α → Prop} {value : Json} :
    (∃ a, IsObject (given · a) value) ↔ IsObject (fun members => ∃ a, given members a) value :=
  ⟨fun ⟨a, members, hvalue, h⟩ => ⟨members, hvalue, a, h⟩,
    fun ⟨members, hvalue, a, h⟩ => ⟨a, members, hvalue, h⟩⟩

/-- The items of a value are read one by one. -/
theorem partsOf_mapM_eq_ok_iff {α : Type} {read : Json → Except DocumentError α}
    {item : Json → α → Prop} (h : ∀ value a, read value = .ok a ↔ item value a) {value : Json}
    {results : List α} :
    (partsOf value >>= fun items => items.mapM read) = .ok results ↔
      Lists item value results := by
  simp only [bind_eq_ok_iff, mapM_eq_ok_iff, h, Lists, partsOf]
  cases value.items? <;> simp

/-! ### What is read -/

section

variable {members : Members}

theorem isObject_object_iff {given : Members → Prop} :
    IsObject given (.object members) ↔ given members := by
  simp [IsObject]

theorem primitivePart_eq_ok_iff {p : Primitive} :
    primitivePart depth members = .ok p ↔
      Json.lookup "primitive_type" members = some (.ofString p.name) := by
  simp only [primitivePart, bind_eq_ok_iff, memberOf_object_eq_ok_iff, primitiveOf_eq_ok_iff,
    exists_eq_right]

theorem presencePart_eq_ok_iff {p : Presence} :
    presencePart depth members = .ok p ↔
      OfMember "presence" members (p = .required) (· = .ofString p.name) := by
  unfold presencePart OfMember
  cases Json.lookup "presence" members with
  | none => simp [eq_comm]
  | some value => exact presenceOf_eq_ok_iff

theorem lengthPart_eq_ok_iff {n : Int} :
    lengthPart members = .ok n ↔ OfMember "array_length" members (n = 1) (StandsFor · n) := by
  unfold lengthPart OfMember
  cases Json.lookup "array_length" members with
  | none => simp [eq_comm]
  | some value =>
    dsimp only
    rw [← lengthOf_eq_ok_iff]
    cases lengthOf value <;> simp [Except.mapError]

theorem constantPart_eq_ok_iff {kept : Option CodeText} :
    constantPart depth members = .ok kept ↔
      OfMember "const_value" members (kept = none) (KeptAs depth · kept) := by
  unfold constantPart OfMember
  cases Json.lookup "const_value" members with
  | none => simp [constantOf, eq_comm]
  | some value => exact constantOf_some_eq_ok_iff

theorem describesEncoding_iff {e : Encoding} :
    encodingOf depth (.object members) = .ok e ↔ DescribesEncoding depth members e := by
  rw [encodingOf_eq_ok_iff, primitivePart_eq_ok_iff, presencePart_eq_ok_iff, lengthPart_eq_ok_iff,
    constantPart_eq_ok_iff]
  exact ⟨fun ⟨hprimitive, hpresence, hlength, hconstant⟩ =>
      ⟨hprimitive, hpresence, hlength, hconstant⟩,
    fun h => ⟨h.primitive, h.presence, h.arrayLength, h.constValue⟩⟩

theorem encodingOf_eq_ok_iff_isObject {value : Json} {e : Encoding} :
    encodingOf depth value = .ok e ↔ IsObject (DescribesEncoding depth · e) value := by
  cases value with
  | object members => rw [isObject_object_iff, describesEncoding_iff]
  | _ => simp [encodingOf, IsObject]

theorem namePart_eq_ok_iff {name : CodeText} :
    namePart (.object members) = .ok name ↔ Json.lookup "name" members = some (.text name) := by
  simp only [namePart, bind_eq_ok_iff, memberOf_object_eq_ok_iff]
  constructor
  · rintro ⟨value, hvalue, hread⟩
    cases value with
    | text text => rwa [← Except.ok.inj hread]
    | _ => cases hread
  · intro h
    exact ⟨_, h, rfl⟩

theorem signalPart_eq_ok_iff {signal : Signal} :
    signalPart depth (.object members) = .ok signal ↔
      Json.lookup "signal" members = some (.ofString signal.name) := by
  simp only [signalPart, bind_eq_ok_iff, memberOf_object_eq_ok_iff, signalOf_eq_ok_iff,
    exists_eq_right]

theorem encodingPart_eq_ok_iff {encoding : Option Encoding} :
    encodingPart depth (.object members) = .ok encoding ↔
      OfMember "encoding" members (encoding = none) fun value =>
        value = .null ∧ encoding = none ∨
          ∃ e, IsObject (DescribesEncoding depth · e) value ∧ encoding = some e := by
  unfold encodingPart OfMember
  rw [Json.member?_object]
  cases Json.lookup "encoding" members with
  | none => simp [eq_comm]
  | some value =>
    have hmap (value : Json) : (encodingOf depth value).map some = .ok encoding ↔
        ∃ e, encodingOf depth value = .ok e ∧ encoding = some e := by
      cases encodingOf depth value <;> simp [Except.map, eq_comm]
    simp only [← encodingOf_eq_ok_iff_isObject]
    cases value with
    | null => simp [encodingOf, eq_comm]
    | _ => simp [hmap]

theorem tokenOf_eq_ok_iff_isObject {value : Json} {t : Token} :
    tokenOf depth value = .ok t ↔ IsObject (DescribesToken depth · t) value := by
  cases value with
  | object members =>
    rw [isObject_object_iff, tokenOf_eq_ok_iff, namePart_eq_ok_iff, signalPart_eq_ok_iff,
      encodingPart_eq_ok_iff]
    exact ⟨fun ⟨hname, hsignal, hencoding⟩ => ⟨hname, hsignal, hencoding⟩,
      fun h => ⟨h.name, h.signal, h.encoding⟩⟩
  | _ => simp [tokenOf, memberOf, IsObject, bind, Except.bind]

theorem tokensOf_eq_ok_iff {value : Json} {tokens : List Token} :
    tokensOf depth value = .ok tokens ↔ DescribesRange depth value tokens :=
  partsOf_mapM_eq_ok_iff fun _ _ => tokenOf_eq_ok_iff_isObject

theorem rangesOf_eq_ok_iff {value : Json} {ranges : List (List Token)} :
    rangesOf depth value = .ok ranges ↔ Lists (DescribesRange depth) value ranges :=
  partsOf_mapM_eq_ok_iff fun _ _ => tokensOf_eq_ok_iff

/-- A part of a catalog that is absent is empty. -/
theorem ofMember_iff_memberOrEmpty {α : Type} {name : String} {item : Json → α → Prop}
    {results : List α} :
    OfMember name members (results = []) (Lists item · results) ↔
      Lists item (memberOrEmpty name (.object members)) results := by
  rw [memberOrEmpty, Json.member?_object, OfMember]
  cases Json.lookup name members with
  | none => simp [Lists]
  | some value => rfl

theorem partsOfCatalog_eq_ok_iff {package : Json} {header : List Token}
    {types messages : List (List Token)} :
    partsOfCatalog depth (.object members) = .ok (package, header, types, messages) ↔
      Json.lookup "namespace" members = some package ∧
        OfMember "header" members (header = []) (DescribesRange depth · header) ∧
        OfMember "types" members (types = []) (Lists (DescribesRange depth) · types) ∧
        OfMember "messages" members (messages = [])
          (Lists (DescribesRange depth) · messages) := by
  simp only [partsOfCatalog_eq, bind_eq_ok_iff, memberOf_object_eq_ok_iff, tokensOf_eq_ok_iff,
    rangesOf_eq_ok_iff, ofMember_iff_memberOrEmpty, DescribesRange, Except.ok.injEq,
    Prod.mk.injEq]
  constructor
  · rintro ⟨_, hpackage, _, hheader, _, htypes, _, hmessages, rfl, rfl, rfl, rfl⟩
    exact ⟨hpackage, hheader, htypes, hmessages⟩
  · rintro ⟨hpackage, hheader, htypes, hmessages⟩
    exact ⟨_, hpackage, _, hheader, _, htypes, _, hmessages, rfl, rfl, rfl, rfl⟩

theorem headerOr_eq (declared : List Token) :
    headerOr declared = if declared = [] then emptyHeader else declared := by
  cases declared <;> simp [headerOr]

/-- **What is read.** A document is read as the catalog that it describes. -/
theorem ofDocument_eq_ok_iff {c : Catalog} :
    Catalog.ofDocument depth (.object members) = .ok c ↔ DescribesCatalog depth members c := by
  constructor
  · intro h
    unfold Catalog.ofDocument at h
    split at h
    · cases h
    · next package header types messages hparts =>
      obtain ⟨hpackage, hheader, htypes, hmessages⟩ := partsOfCatalog_eq_ok_iff.mp hparts
      split at h
      · cases h
      · next hempty =>
        cases h
        exact ⟨⟨hpackage, fun hnil => hempty (CodeText.isEmpty_iff.mpr hnil)⟩,
          ⟨header, hheader, headerOr_eq header⟩, htypes, hmessages⟩
    · cases h
  · intro h
    obtain ⟨hpackage, hne⟩ := h.package
    obtain ⟨header, hheader, hdeclared⟩ := h.header
    have hparts := partsOfCatalog_eq_ok_iff.mpr ⟨hpackage, hheader, h.types, h.messages⟩
    have hempty : ¬ c.package.isEmpty = true := fun hnil => hne (CodeText.isEmpty_iff.mp hnil)
    have hparts' : Catalog.ofParts c.package header c.types c.messages = c := by
      simp only [Catalog.ofParts, headerOr_eq, ← hdeclared]
    rw [Catalog.ofDocument, hparts]
    dsimp only
    rw [if_neg hempty, hparts']

/-! ### What the grammar describes -/

/-- The constants of which something is kept: texts, and values that can be spelled. -/
def IsConstant (depth : Nat) (value : Json) : Prop :=
  (∃ s, value = .text s) ∨ value.Spellable depth

theorem exists_keptAs_iff (value : Json) :
    (∃ kept, KeptAs depth value kept) ↔ value = .null ∨ IsConstant depth value := by
  have hliteral : (∃ kept : Option CodeText, ∃ literal, value.literal depth = .ok literal ∧
      kept = some (.ofString literal)) ↔ value.Spellable depth := by
    rw [← Json.exists_literal_iff, exists_comm]
    simp
  cases value with
  | null => exact iff_of_true ⟨none, rfl⟩ (.inl rfl)
  | text s => exact iff_of_true ⟨some s, rfl⟩ (.inr (.inl ⟨s, rfl⟩))
  | _ => exact hliteral.trans (by simp [IsConstant])

theorem exists_describesEncoding_iff :
    (∃ e, DescribesEncoding depth members e) ↔ IsEncoding (IsConstant depth) members := by
  constructor
  · rintro ⟨e, h⟩
    exact ⟨⟨_, h.primitive⟩, (exists_ofMember_iff fun _ => Iff.rfl).mp ⟨_, h.presence⟩,
      (exists_ofMember_iff fun _ => Iff.rfl).mp ⟨_, h.arrayLength⟩,
      (exists_ofMember_iff exists_keptAs_iff).mp ⟨_, h.constValue⟩⟩
  · intro h
    obtain ⟨primitive, hprimitive⟩ := h.primitive
    obtain ⟨presence, hpresence⟩ := (exists_ofMember_iff fun _ => Iff.rfl).mpr h.presence
    obtain ⟨arrayLength, hlength⟩ := (exists_ofMember_iff fun _ => Iff.rfl).mpr h.arrayLength
    obtain ⟨constValue, hconstant⟩ := (exists_ofMember_iff exists_keptAs_iff).mpr h.constValue
    exact ⟨{ primitive, presence, arrayLength, constValue }, hprimitive, hpresence, hlength,
      hconstant⟩

theorem exists_describesToken_iff :
    (∃ t, DescribesToken depth members t) ↔ IsToken (IsConstant depth) members := by
  have hencoding (value : Json) :
      (∃ encoding, value = .null ∧ encoding = none ∨
        ∃ e, IsObject (DescribesEncoding depth · e) value ∧ encoding = some e) ↔
        value = .null ∨ IsObject (IsEncoding (IsConstant depth)) value := by
    simp only [exists_or, exists_and_left, exists_eq, and_true, exists_comm (α := Option Encoding),
      exists_isObject_iff, exists_describesEncoding_iff]
  constructor
  · rintro ⟨t, h⟩
    exact ⟨⟨_, h.name⟩, ⟨_, h.signal⟩, (exists_ofMember_iff hencoding).mp ⟨_, h.encoding⟩⟩
  · intro h
    obtain ⟨name, hname⟩ := h.name
    obtain ⟨signal, hsignal⟩ := h.signal
    obtain ⟨encoding, hread⟩ := (exists_ofMember_iff hencoding).mpr h.encoding
    exact ⟨{ signal, name, encoding }, hname, hsignal, hread⟩

theorem exists_describesRange_iff (value : Json) :
    (∃ tokens, DescribesRange depth value tokens) ↔
      EachItem (IsObject (IsToken (IsConstant depth))) value := by
  rw [DescribesRange, exists_lists_iff]
  refine eachItem_congr fun value => ?_
  rw [exists_isObject_iff]
  simp only [exists_describesToken_iff]

theorem exists_describesRanges_iff (value : Json) :
    (∃ ranges, Lists (DescribesRange depth) value ranges) ↔
      EachItem (EachItem (IsObject (IsToken (IsConstant depth)))) value := by
  rw [exists_lists_iff]
  exact eachItem_congr exists_describesRange_iff

theorem exists_describesCatalog_iff :
    (∃ c, DescribesCatalog depth members c) ↔ IsCatalog (IsConstant depth) members := by
  constructor
  · rintro ⟨c, h⟩
    obtain ⟨header, hheader, -⟩ := h.header
    exact ⟨⟨_, h.package⟩,
      (exists_ofMember_iff exists_describesRange_iff).mp ⟨header, hheader⟩,
      (exists_ofMember_iff exists_describesRanges_iff).mp ⟨_, h.types⟩,
      (exists_ofMember_iff exists_describesRanges_iff).mp ⟨_, h.messages⟩⟩
  · intro h
    obtain ⟨package, hpackage⟩ := h.package
    obtain ⟨header, hheader⟩ := (exists_ofMember_iff exists_describesRange_iff).mpr h.header
    obtain ⟨types, htypes⟩ := (exists_ofMember_iff exists_describesRanges_iff).mpr h.types
    obtain ⟨messages, hmessages⟩ := (exists_ofMember_iff exists_describesRanges_iff).mpr h.messages
    exact ⟨Catalog.ofParts package header types messages, hpackage,
      ⟨header, hheader, headerOr_eq header⟩, htypes, hmessages⟩

/-! ### Constants of a document that was read from a text -/

/-- A member of an object that has `depth + 1` levels may be asked less of, as long as that is
enough for values of `depth` levels. -/
theorem OfMember.congr_of_spellable {name : String} {absent : Prop} {asked asked' : Json → Prop}
    (hmembers : (Json.object members).Spellable (depth + 1))
    (h : ∀ value : Json, value.Spellable depth → (asked value ↔ asked' value)) :
    OfMember name members absent asked ↔ OfMember name members absent asked' := by
  unfold OfMember
  cases hlookup : Json.lookup name members with
  | none => exact Iff.rfl
  | some value => exact h value (hmembers.lookup hlookup)

/-- The items of a value that has `depth + 1` levels are texts or have `depth` levels. -/
theorem eachItem_congr_of_spellable {value : Json} (hvalue : value.Spellable (depth + 1))
    {asked asked' : Json → Prop} (htext : ∀ s, asked (.text s) ↔ asked' (.text s))
    (h : ∀ item : Json, item.Spellable depth → (asked item ↔ asked' item)) :
    EachItem asked value ↔ EachItem asked' value := by
  unfold EachItem
  refine exists_congr fun items => and_congr_right fun hitems => forall₂_congr fun item hitem => ?_
  obtain hspellable | ⟨s, rfl⟩ := hvalue.item hitems hitem
  · exact h item hspellable
  · exact htext s

theorem isObject_congr_of_spellable {value : Json} (hvalue : value.Spellable depth)
    {asked asked' : Members → Prop}
    (h : ∀ members : Members, (Json.object members).Spellable depth →
      (asked members ↔ asked' members)) :
    IsObject asked value ↔ IsObject asked' value :=
  exists_congr fun members => and_congr_right fun hobject => h members (hobject ▸ hvalue)

theorem isEncoding_of_spellable (h : (Json.object members).Spellable (depth + 1)) :
    IsEncoding (IsConstant depth) members ↔ IsEncoding (fun _ => True) members := by
  have hconstant : OfMember "const_value" members True (fun value =>
      value = .null ∨ IsConstant depth value) ↔
      OfMember "const_value" members True (fun value => value = .null ∨ True) :=
    OfMember.congr_of_spellable h fun value hvalue =>
      iff_of_true (.inr (.inr hvalue)) (.inr trivial)
  exact ⟨fun h => ⟨h.primitive, h.presence, h.arrayLength, hconstant.mp h.constValue⟩,
    fun h => ⟨h.primitive, h.presence, h.arrayLength, hconstant.mpr h.constValue⟩⟩

theorem isToken_of_spellable (h : (Json.object members).Spellable (depth + 2)) :
    IsToken (IsConstant depth) members ↔ IsToken (fun _ => True) members := by
  have hencoding : OfMember "encoding" members True (fun value =>
      value = .null ∨ IsObject (IsEncoding (IsConstant depth)) value) ↔
      OfMember "encoding" members True (fun value =>
        value = .null ∨ IsObject (IsEncoding fun _ => True) value) :=
    OfMember.congr_of_spellable h fun value hvalue =>
      or_congr_right (isObject_congr_of_spellable hvalue fun _ => isEncoding_of_spellable)
  exact ⟨fun h => ⟨h.name, h.signal, hencoding.mp h.encoding⟩,
    fun h => ⟨h.name, h.signal, hencoding.mpr h.encoding⟩⟩

theorem isRange_of_spellable {value : Json} (h : value.Spellable (depth + 3)) :
    EachItem (IsObject (IsToken (IsConstant depth))) value ↔
      EachItem (IsObject (IsToken fun _ => True)) value :=
  eachItem_congr_of_spellable h (fun s => by simp [IsObject]) fun _ hitem =>
    isObject_congr_of_spellable hitem fun _ => isToken_of_spellable

theorem isRanges_of_spellable {value : Json} (h : value.Spellable (depth + 3)) :
    EachItem (EachItem (IsObject (IsToken (IsConstant depth)))) value ↔
      EachItem (EachItem (IsObject (IsToken fun _ => True))) value :=
  eachItem_congr_of_spellable h
    (fun s => isRange_of_spellable (Json.Spellable.text s))
    fun _ hitem => isRange_of_spellable hitem.succ

/-- In a document that has three levels more than can be spelled, any constant can be. -/
theorem isCatalog_of_spellable (h : (Json.object members).Spellable (depth + 4)) :
    IsCatalog (IsConstant depth) members ↔ IsCatalog (fun _ => True) members := by
  have hheader : OfMember "header" members True
      (EachItem (IsObject (IsToken (IsConstant depth)))) ↔
      OfMember "header" members True (EachItem (IsObject (IsToken fun _ => True))) :=
    OfMember.congr_of_spellable h fun _ => isRange_of_spellable
  have hranges (name : String) : OfMember name members True
      (EachItem (EachItem (IsObject (IsToken (IsConstant depth))))) ↔
      OfMember name members True (EachItem (EachItem (IsObject (IsToken fun _ => True)))) :=
    OfMember.congr_of_spellable h fun _ => isRanges_of_spellable
  exact ⟨fun h => ⟨h.package, hheader.mp h.header, (hranges _).mp h.types,
      (hranges _).mp h.messages⟩,
    fun h => ⟨h.package, hheader.mpr h.header, (hranges _).mpr h.types,
      (hranges _).mpr h.messages⟩⟩

end

/-! ### The documents of catalogs -/

/-- **The documents of catalogs.** A document is read exactly if it is in the grammar, as the
catalog that it describes. Members beyond the grammar do not count, whether the document is read or
not. A constant has to be one that can be spelled, and any constant of a document that was read from
a text can be. -/
theorem ofDocument_grammar (members : Members) :
    (∀ depth, (∃ c, Catalog.ofDocument depth (.object members) = .ok c) ↔
      IsCatalog (IsConstant depth) members) ∧
    (∀ depth c, Catalog.ofDocument depth (.object members) = .ok c ↔
      DescribesCatalog depth members c) ∧
    (∀ depth, Catalog.ofDocument depth (prunedDocument (.object members)) =
      Catalog.ofDocument depth (.object members)) ∧
    ∀ (limits : Limits) chars, Json.parse limits.reading chars = .ok (.object members) →
      ((∃ c, Catalog.ofDocument limits.spelling (.object members) = .ok c) ↔
        IsCatalog (fun _ => True) members) := by
  have haccepted (depth : Nat) : (∃ c, Catalog.ofDocument depth (.object members) = .ok c) ↔
      IsCatalog (IsConstant depth) members := by
    simp only [ofDocument_eq_ok_iff, exists_describesCatalog_iff]
  refine ⟨haccepted, fun _ _ => ofDocument_eq_ok_iff, fun _ => ofDocument_prunedDocument _ _, ?_⟩
  intro limits chars hparse
  have hspellable : (Json.object members).Spellable (limits.spelling + 4) :=
    (Json.spellable_of_parse hparse).mono (Nat.succ_le_succ limits.reading_le)
  rw [haccepted, isCatalog_of_spellable hspellable]

/-- A text and an object that are empty stand for empty lists. -/
example :
    Catalog.ofDocument 1 (.record [("namespace", .ofString "baseline"), ("header", .ofString ""),
      ("types", .record []), ("origin", .null)]) =
      .ok (Catalog.ofParts "baseline" [] [] []) := rfl

/-- The text holds an object, which is read as the catalog. -/
def readsAs (c : Catalog) (text : String) : Bool :=
  match Json.parse 8 text.toList with
  | .ok (.object members) =>
    match Catalog.ofDocument 8 (.object members) with
    | .ok found => found == c
    | .error _ => false
  | _ => false

theorem exists_of_readsAs {c : Catalog} {text : String} (h : readsAs c text = true) :
    ∃ members, Json.parse 8 text.toList = .ok (.object members) ∧
      Catalog.ofDocument 8 (.object members) = .ok c := by
  unfold readsAs at h
  split at h
  · next members hparse =>
    split at h
    · next found hfound => exact ⟨members, hparse, beq_iff_eq.mp h ▸ hfound⟩
    · cases h
  · cases h

/-- A header in which the constant of a token is a list. -/
def listConstantText : String :=
  "\x7b\"namespace\": \"n\", \"header\": [\x7b\"name\": \"x\", \"signal\": \"ENCODING\", " ++
    "\"encoding\": \x7b\"primitive_type\": \"char\", \"const_value\": [1, [2]]\x7d\x7d]\x7d"

/-- The same as a value. -/
def listConstantCatalog : Catalog :=
  .ofParts "n" [⟨.encoding, "x", some { primitive := .char, constValue := some "[1, [2]]" }⟩] [] []

theorem listConstant_grammar :
    ∃ members, Json.parse 8 listConstantText.toList = .ok (.object members) ∧
      IsCatalog (fun _ => True) members ∧ DescribesCatalog 8 members listConstantCatalog := by
  obtain ⟨members, hparse, hread⟩ : ∃ members,
      Json.parse 8 listConstantText.toList = .ok (.object members) ∧
        Catalog.ofDocument 8 (.object members) = .ok listConstantCatalog :=
    exists_of_readsAs (by decide +kernel)
  obtain ⟨-, hdescribed, -, hparsed⟩ := ofDocument_grammar members
  exact ⟨members, hparse, (hparsed ⟨8, 8, by decide⟩ _ hparse).mp ⟨_, hread⟩,
    (hdescribed 8 _).mp hread⟩

end CodecMocks.Schema
