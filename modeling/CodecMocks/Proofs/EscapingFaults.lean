import CodecMocks.Command.Program
import CodecMocks.Proofs.DocumentGrammar
import CodecMocks.Proofs.ReadingStops

/-!
# Faults that escape

Reading a catalog can fail in many ways, and nearly all of them are reported as faults of the file.
Of a document two escape as its own: an encoding that is no object, and an infinite array length.
Two more come from spelling the value that is at fault, when it is nested too deep or, as a signal,
cannot be spelled. Of a text two escape before there is a document: an integer with too many digits,
and containers that are nested too deep. They stop the program when they are the first fault that is
reached.

* `Escapes`, `escapes_bind_iff`, `escapes_mapM_iff`: a fault escapes from a reader exactly if the
  parts before it are read and it escapes from its own part.
* `escapes_encodingOf_iff`, `escapes_tokenOf_iff`, `ofDocument_reported_iff`: where faults escape.
* `reported_iff_not_escaping`: all other faults are reported, and a run answers them by its status.
* `numberTypes_reported`, `escaping_stopped`: a fault that is reported, and four that are not.
-/

namespace CodecMocks.Schema

open CodecMocks CodecMocks.Number CodecMocks.Text

/-! ### Escaping from parts -/

section

variable {α β : Type}

/-- The result is an error that is not reported. -/
def Escapes (result : Except DocumentError α) : Prop :=
  ∃ e, result = .error e ∧ e.isReported = false

@[simp] theorem not_escapes_ok (a : α) : ¬ Escapes (.ok a) := by
  rintro ⟨e, h, -⟩
  cases h

@[simp] theorem escapes_error_iff {e : DocumentError} :
    Escapes (.error e : Except DocumentError α) ↔ e.isReported = false := by
  constructor
  · rintro ⟨e', h, he⟩
    cases h
    exact he
  · intro he
    exact ⟨e, rfl, he⟩

theorem escapes_bind_iff {x : Except DocumentError α} {f : α → Except DocumentError β} :
    Escapes (x >>= f) ↔ Escapes x ∨ ∃ a, x = .ok a ∧ Escapes (f a) := by
  cases x with
  | error e =>
    constructor
    · intro h
      exact .inl (escapes_error_iff.mpr (escapes_error_iff.mp h))
    · rintro (h | ⟨a, ha, -⟩)
      · exact escapes_error_iff.mpr (escapes_error_iff.mp h)
      · cases ha
  | ok a =>
    constructor
    · intro h
      exact .inr ⟨a, rfl, h⟩
    · rintro (h | ⟨a', ha, h⟩)
      · exact absurd h (not_escapes_ok a)
      · cases ha
        exact h

/-- A part from which nothing escapes only has to be read. -/
theorem escapes_bind_of_not {x : Except DocumentError α} {f : α → Except DocumentError β}
    (h : ¬ Escapes x) : Escapes (x >>= f) ↔ ∃ a, x = .ok a ∧ Escapes (f a) := by
  rw [escapes_bind_iff]
  exact or_iff_right h

/-- What is done with a part that is read changes nothing. -/
theorem escapes_bind_ok_iff {x : Except DocumentError α} {make : α → β} :
    Escapes (x >>= fun a => .ok (make a)) ↔ Escapes x := by
  rw [escapes_bind_iff]
  exact or_iff_left fun ⟨a, _, h⟩ => not_escapes_ok (make a) h

/-- Some item has the property, and all items before it are read. -/
def Reaches (read : α → Except DocumentError β) (P : α → Prop) (items : List α) : Prop :=
  ∃ before item after, items = before ++ item :: after ∧
    (∀ a ∈ before, ∃ b, read a = .ok b) ∧ P item

theorem not_reaches_nil (read : α → Except DocumentError β) (P : α → Prop) :
    ¬ Reaches read P [] := by
  rintro ⟨before, item, after, h, -⟩
  exact List.append_ne_nil_of_right_ne_nil before (List.cons_ne_nil item after) h.symm

theorem reaches_cons_iff {read : α → Except DocumentError β} {P : α → Prop} {a : α} {as : List α} :
    Reaches read P (a :: as) ↔ P a ∨ (∃ b, read a = .ok b) ∧ Reaches read P as := by
  constructor
  · rintro ⟨before, item, after, h, hbefore, hitem⟩
    cases before with
    | nil =>
      cases h
      exact .inl hitem
    | cons first before =>
      cases h
      exact .inr ⟨hbefore _ List.mem_cons_self, before, item, after, rfl,
        fun b hb => hbefore b (List.mem_cons_of_mem _ hb), hitem⟩
  · rintro (hitem | ⟨ha, before, item, after, rfl, hbefore, hitem⟩)
    · exact ⟨[], a, as, rfl, by simp, hitem⟩
    · refine ⟨a :: before, item, after, rfl, ?_, hitem⟩
      intro b hb
      rcases List.mem_cons.mp hb with rfl | hb
      · exact ha
      · exact hbefore b hb

/-- A fault escapes from a list if it escapes from an item and all items before it are read. -/
theorem escapes_mapM_iff {read : α → Except DocumentError β} {P : α → Prop}
    (hread : ∀ a, Escapes (read a) ↔ P a) (items : List α) :
    Escapes (items.mapM read) ↔ Reaches read P items := by
  induction items with
  | nil => exact iff_of_false (not_escapes_ok []) (not_reaches_nil read P)
  | cons a as ih =>
    rw [mapM_cons_eq, escapes_bind_iff, reaches_cons_iff, hread, ← ih]
    simp only [escapes_bind_ok_iff, exists_and_right]

end

/-! ### Parts of a document -/

theorem not_escapes_memberOf (name : String) (value : Json) : ¬ Escapes (memberOf name value) := by
  fun_cases memberOf name value <;> simp [DocumentError.isReported]

theorem memberOf_eq_ok_iff {name : String} {value found : Json} :
    memberOf name value = .ok found ↔ value.member? name = some found := by
  cases value with
  | object members => exact memberOf_object_eq_ok_iff
  | _ => simp [memberOf, Json.member?]

theorem escapes_map_iff {α β : Type} {x : Except DocumentError α} {f : α → β} :
    Escapes (x.map f) ↔ Escapes x := by
  cases x <;> simp [Except.map]

section

variable {depth : Nat}

/-- What is reported when it is shown escapes only by what is wrong with showing it. -/
theorem escapes_shown_iff {α : Type} {value : Json} {error : String → DocumentError}
    {fault : Json.SpellFault → DocumentError} (h : ∀ literal, (error literal).isReported = true) :
    Escapes (shown (α := α) depth value error fault) ↔
      ∃ f, value.literal depth = .error f ∧ (fault f).isReported = false := by
  unfold shown
  cases value.literal depth with
  | ok literal => simp [h literal]
  | error f => simp

theorem unspelled_escapes_iff {f : Json.SpellFault} :
    (DocumentError.unspelled f).isReported = false ↔ f = .tooDeep := by
  cases f <;> simp [DocumentError.isReported]

/-- The value is not allowed, and it is nested too deep to be shown. -/
def TooDeepFor (depth : Nat) (allowed : Json → Prop) (value : Json) : Prop :=
  ¬ allowed value ∧ value.literal depth = .error .tooDeep

theorem escapes_primitiveOf_iff (value : Json) :
    Escapes (primitiveOf depth value) ↔
      TooDeepFor depth (fun value => ∃ p : Primitive, value = .ofString p.name) value := by
  by_cases h : ∃ p : Primitive, value = .ofString p.name
  · obtain ⟨p, hp⟩ := h
    rw [primitiveOf_eq_ok_iff.mpr hp]
    exact iff_of_false (not_escapes_ok p) fun hdeep => hdeep.1 ⟨p, hp⟩
  · have hshown : primitiveOf depth value = shown depth value .unknownPrimitive .unspelled := by
      fun_cases primitiveOf depth value with
      | case1 s p hname =>
        have hread : primitiveOf depth (.text s) = .ok p := by rw [primitiveOf, hname]
        exact absurd ⟨p, primitiveOf_eq_ok_iff.mp hread⟩ h
      | _ => rfl
    rw [hshown, escapes_shown_iff fun _ => rfl]
    simp [TooDeepFor, unspelled_escapes_iff, h]

theorem escapes_presenceOf_iff (value : Json) :
    Escapes (presenceOf depth value) ↔
      TooDeepFor depth (fun value => ∃ p : Presence, value = .ofString p.name) value := by
  by_cases h : ∃ p : Presence, value = .ofString p.name
  · obtain ⟨p, hp⟩ := h
    rw [presenceOf_eq_ok_iff.mpr hp]
    exact iff_of_false (not_escapes_ok p) fun hdeep => hdeep.1 ⟨p, hp⟩
  · have hshown : presenceOf depth value = shown depth value .unknownPresence .unspelled := by
      fun_cases presenceOf depth value with
      | case1 s p hname =>
        have hread : presenceOf depth (.text s) = .ok p := by rw [presenceOf, hname]
        exact absurd ⟨p, presenceOf_eq_ok_iff.mp hread⟩ h
      | _ => rfl
    rw [hshown, escapes_shown_iff fun _ => rfl]
    simp [TooDeepFor, unspelled_escapes_iff, h]

/-- The value is the name of no signal and can be looked up, and it cannot be spelled. -/
structure UnspelledSignal (depth : Nat) (value : Json) : Prop where
  unknown : ∀ s : Signal, value ≠ .ofString s.name
  notList : ∀ items, value ≠ .list items
  notObject : ∀ members, value ≠ .object members
  fault : ∃ f, value.literal depth = .error f

theorem escapes_signalOf_iff (value : Json) :
    Escapes (signalOf depth value) ↔ UnspelledSignal depth value := by
  by_cases h : ∃ s : Signal, value = .ofString s.name
  · obtain ⟨s, hs⟩ := h
    rw [signalOf_eq_ok_iff.mpr hs]
    exact iff_of_false (not_escapes_ok s) fun hfault => hfault.unknown s hs
  · have hunknown : ∀ s : Signal, value ≠ .ofString s.name := fun s hs => h ⟨s, hs⟩
    have hshown : Escapes (shown (α := Signal) depth value .unknownSignal .signalUnspelled) ↔
        ∃ f, value.literal depth = .error f := by
      rw [escapes_shown_iff fun _ => rfl]
      simp [DocumentError.isReported]
    fun_cases signalOf depth value with
    | case1 s signal hname =>
      have hread : signalOf depth (.text s) = .ok signal := by rw [signalOf, hname]
      exact absurd ⟨signal, signalOf_eq_ok_iff.mp hread⟩ h
    | case2 =>
      rw [hshown]
      exact ⟨fun hfault => ⟨hunknown, by simp, by simp, hfault⟩, fun hfault => hfault.fault⟩
    | case3 items => exact iff_of_false (by simp [DocumentError.isReported]) fun hfault =>
        hfault.notList items rfl
    | case4 members => exact iff_of_false (by simp [DocumentError.isReported]) fun hfault =>
        hfault.notObject members rfl
    | case5 _ _ hlist hobject =>
      rw [hshown]
      exact ⟨fun hfault => ⟨hunknown, hlist, hobject, hfault⟩, fun hfault => hfault.fault⟩

/-- The values that need no spelling to be kept as a constant. -/
def KeptAsIs (value : Json) : Prop :=
  value = .null ∨ ∃ s, value = .text s

theorem escapes_constantOf_iff (value : Json) :
    Escapes (constantOf depth (some value)) ↔ TooDeepFor depth KeptAsIs value := by
  have hliteral {value : Json} (hnull : value ≠ .null)
      (hdisplay : value.display depth = (value.literal depth).map .ofString) :
      Escapes (constantOf depth (some value)) ↔ value.literal depth = .error .tooDeep := by
    rw [constantOf_eq_literal hnull hdisplay]
    cases value.literal depth <;> simp [Except.map, Except.mapError, unspelled_escapes_iff]
  cases value with
  | null => exact iff_of_false (not_escapes_ok none) fun h => h.1 (.inl rfl)
  | text s => exact iff_of_false (not_escapes_ok (some s)) fun h => h.1 (.inr ⟨s, rfl⟩)
  | _ => exact (hliteral (by simp) rfl).trans (by simp [TooDeepFor, KeptAsIs])

/-- Of all values that are no array length only the infinite numbers escape. -/
theorem escapes_lengthOf_iff (value : Json) :
    Escapes ((lengthOf value).mapError .length) ↔
      ∃ negative, value = .number (.infinite negative) := by
  fun_cases lengthOf value <;> simp_all [Except.mapError, DocumentError.isReported]

/-! ### Parts of an encoding -/

theorem escapes_primitivePart_iff (members : Members) :
    Escapes (primitivePart depth members) ↔
      ∃ value, Json.lookup "primitive_type" members = some value ∧
        TooDeepFor depth (fun value => ∃ p : Primitive, value = .ofString p.name) value := by
  rw [primitivePart, escapes_bind_of_not (not_escapes_memberOf _ _)]
  simp only [memberOf_object_eq_ok_iff, escapes_primitiveOf_iff]

theorem escapes_presencePart_iff (members : Members) :
    Escapes (presencePart depth members) ↔
      ∃ value, Json.lookup "presence" members = some value ∧
        TooDeepFor depth (fun value => ∃ p : Presence, value = .ofString p.name) value := by
  unfold presencePart
  cases Json.lookup "presence" members with
  | none => simp
  | some value => simp [escapes_presenceOf_iff]

theorem escapes_lengthPart_iff (members : Members) :
    Escapes (lengthPart members) ↔
      ∃ negative, Json.lookup "array_length" members = some (.number (.infinite negative)) := by
  unfold lengthPart
  cases Json.lookup "array_length" members with
  | none => simp
  | some value => simp [escapes_lengthOf_iff]

theorem escapes_constantPart_iff (members : Members) :
    Escapes (constantPart depth members) ↔
      ∃ value, Json.lookup "const_value" members = some value ∧
        TooDeepFor depth KeptAsIs value := by
  unfold constantPart
  cases Json.lookup "const_value" members with
  | none => simp [constantOf]
  | some value => simp [escapes_constantOf_iff]

/-- The encoding is no object; or its members are in order up to one that stops the program: an
infinite length, or else a value that is at fault, or is a constant, and is nested too deep. -/
def EscapingEncoding (depth : Nat) : Json → Prop
  | .object members =>
    (∃ value, Json.lookup "primitive_type" members = some value ∧
      TooDeepFor depth (fun value => ∃ p : Primitive, value = .ofString p.name) value) ∨
    (∃ primitive, primitivePart depth members = .ok primitive) ∧
      ((∃ value, Json.lookup "presence" members = some value ∧
        TooDeepFor depth (fun value => ∃ p : Presence, value = .ofString p.name) value) ∨
      (∃ presence, presencePart depth members = .ok presence) ∧
        ((∃ negative, Json.lookup "array_length" members = some (.number (.infinite negative))) ∨
        (∃ length, lengthPart members = .ok length) ∧
          ∃ value, Json.lookup "const_value" members = some value ∧
            TooDeepFor depth KeptAsIs value))
  | _ => True

theorem escapes_encodingOf_iff (value : Json) :
    Escapes (encodingOf depth value) ↔ EscapingEncoding depth value := by
  cases value with
  | object members =>
    rw [encodingOf_object]
    simp only [escapes_bind_iff, not_escapes_ok, and_false, exists_false, or_false,
      escapes_primitivePart_iff, escapes_presencePart_iff, escapes_lengthPart_iff,
      escapes_constantPart_iff, EscapingEncoding, exists_and_right]
  | _ => exact iff_of_true ⟨_, rfl, rfl⟩ trivial

/-! ### Tokens and ranges of tokens -/

/-- The name of the token is in order; its signal cannot be spelled, or that is in order as well and
reading the encoding stops the program. -/
def EscapingToken (depth : Nat) (value : Json) : Prop :=
  (∃ name, namePart value = .ok name) ∧
    ((∃ signal, value.member? "signal" = some signal ∧ UnspelledSignal depth signal) ∨
      (∃ signal, signalPart depth value = .ok signal) ∧
        ∃ encoding, value.member? "encoding" = some encoding ∧ encoding ≠ .null ∧
          EscapingEncoding depth encoding)

theorem not_escapes_namePart (value : Json) : ¬ Escapes (namePart value) := by
  rw [namePart, escapes_bind_of_not (not_escapes_memberOf _ _)]
  rintro ⟨named, -, h⟩
  cases named with
  | text name => exact not_escapes_ok _ h
  | _ => cases escapes_error_iff.mp h

theorem escapes_signalPart_iff (value : Json) :
    Escapes (signalPart depth value) ↔
      ∃ signal, value.member? "signal" = some signal ∧ UnspelledSignal depth signal := by
  rw [signalPart, escapes_bind_of_not (not_escapes_memberOf _ _)]
  simp only [memberOf_eq_ok_iff, escapes_signalOf_iff]

theorem escapes_encodingPart_iff (value : Json) :
    Escapes (encodingPart depth value) ↔
      ∃ encoding, value.member? "encoding" = some encoding ∧ encoding ≠ .null ∧
        EscapingEncoding depth encoding := by
  unfold encodingPart
  cases value.member? "encoding" with
  | none => simp
  | some encoding =>
    cases encoding with
    | null => simp
    | _ => simp [escapes_map_iff, escapes_encodingOf_iff]

theorem escapes_tokenOf_iff (value : Json) :
    Escapes (tokenOf depth value) ↔ EscapingToken depth value := by
  rw [tokenOf_eq, escapes_bind_of_not (not_escapes_namePart value)]
  simp only [escapes_bind_iff, not_escapes_ok, and_false, exists_false, or_false,
    escapes_signalPart_iff, escapes_encodingPart_iff, EscapingToken, exists_and_right]

/-- A value is walked, and a part that has the property is reached. -/
def ReachesPart {α : Type} (read : Json → Except DocumentError α) (P : Json → Prop) (value : Json) :
    Prop :=
  ∃ items, value.items? = some items ∧ Reaches read P items

theorem escapes_parts_iff {α : Type} {read : Json → Except DocumentError α} {P : Json → Prop}
    (hread : ∀ value, Escapes (read value) ↔ P value) (value : Json) :
    Escapes (partsOf value >>= fun items => items.mapM read) ↔ ReachesPart read P value := by
  unfold partsOf ReachesPart
  cases value.items? with
  | none => simp [escapes_bind_iff, DocumentError.isReported]
  | some items => simp [escapes_bind_iff, escapes_mapM_iff hread]

/-- The value is a list of tokens up to one that stops the program. -/
def EscapingTokens (depth : Nat) : Json → Prop :=
  ReachesPart (tokenOf depth) (EscapingToken depth)

/-- The value is a list of token ranges up to one that stops the program. -/
def EscapingRanges (depth : Nat) : Json → Prop :=
  ReachesPart (tokensOf depth) (EscapingTokens depth)

theorem escapes_tokensOf_iff (value : Json) :
    Escapes (tokensOf depth value) ↔ EscapingTokens depth value :=
  escapes_parts_iff escapes_tokenOf_iff value

theorem escapes_rangesOf_iff (value : Json) :
    Escapes (rangesOf depth value) ↔ EscapingRanges depth value :=
  escapes_parts_iff escapes_tokensOf_iff value

/-- There is a package, and the first fault of the header, the types and the messages, in this
order, stops the program. -/
def EscapingDocument (depth : Nat) (document : Json) : Prop :=
  (∃ package, memberOf "namespace" document = .ok package) ∧
    (EscapingTokens depth (memberOrEmpty "header" document) ∨
      (∃ header, tokensOf depth (memberOrEmpty "header" document) = .ok header) ∧
        (EscapingRanges depth (memberOrEmpty "types" document) ∨
          (∃ types, rangesOf depth (memberOrEmpty "types" document) = .ok types) ∧
            EscapingRanges depth (memberOrEmpty "messages" document)))

theorem escapes_partsOfCatalog_iff (document : Json) :
    Escapes (partsOfCatalog depth document) ↔ EscapingDocument depth document := by
  rw [partsOfCatalog_eq, escapes_bind_of_not (not_escapes_memberOf _ _)]
  simp only [escapes_bind_iff, not_escapes_ok, and_false, exists_false, or_false,
    escapes_tokensOf_iff, escapes_rangesOf_iff, EscapingDocument, exists_and_right]

/-- A document is a catalog, or is reported as none, exactly if no fault escapes from it. -/
theorem ofDocument_reported_iff (depth : Nat) (document : Json) :
    ((∃ c, Catalog.ofDocument depth document = .ok c) ∨
        ∃ e, Catalog.ofDocument depth document = .error e ∧ e.isReported = true) ↔
      ¬ EscapingDocument depth document := by
  rw [← escapes_partsOfCatalog_iff, Catalog.ofDocument]
  cases partsOfCatalog depth document with
  | error e => simp [CatalogError.isReported]
  | ok parts =>
    obtain ⟨package, header, types, messages⟩ := parts
    refine iff_of_true ?_ (not_escapes_ok _)
    cases package with
    | text package =>
      cases hempty : package.isEmpty with
      | true => exact .inr ⟨.noPackage, if_pos hempty, rfl⟩
      | false => exact .inl ⟨_, if_neg (Bool.eq_false_iff.mp hempty)⟩
    | _ => exact .inr ⟨.noPackage, rfl, rfl⟩

end

/-! ### Content of files -/

/-- The content is a text; reading it as JSON is stopped by an integer with too many digits or by
containers that are nested too deep, or it is an object in which a fault that escapes is reached. -/
def EscapingContent (limits : Limits) (content : List UInt8) : Prop :=
  ∃ chars, Utf8.decode content = .ok chars ∧
    ((∃ digits, digitLimit < digits ∧
        Json.parse limits.reading (unifyLineEnds chars) = .error (.tooManyDigits digits)) ∨
      (∃ container, limits.reading < Json.openings (unifyLineEnds chars) ∧
        Json.parse limits.reading (unifyLineEnds chars) = .error (.tooDeep container)) ∨
      ∃ members, Json.parse limits.reading (unifyLineEnds chars) = .ok (.object members) ∧
        EscapingDocument limits.spelling (.object members))

theorem ofContent_reported_iff (limits : Limits) (content : List UInt8) :
    ((∃ c, Catalog.ofContent limits content = .ok c) ∨
        ∃ e, Catalog.ofContent limits content = .error e ∧ e.isReported = true) ↔
      ¬ EscapingContent limits content := by
  unfold Catalog.ofContent EscapingContent
  cases Utf8.decode content with
  | error fault => simp [LoadError.isReported]
  | ok chars =>
    cases hparse : Json.parse limits.reading (unifyLineEnds chars) with
    | error error =>
      cases error with
      | defect kind position => simp [hparse, LoadError.isReported]
      | tooManyDigits digits =>
        simp [hparse, LoadError.isReported, Json.digitLimit_lt_of_parse hparse]
      | tooDeep container =>
        simp [hparse, LoadError.isReported, Json.lt_openings_of_parse hparse]
    | ok value =>
      cases value with
      | object members =>
        have hdocument := ofDocument_reported_iff limits.spelling (.object members)
        cases hread : Catalog.ofDocument limits.spelling (.object members) with
        | error e =>
          rw [hread] at hdocument
          simpa [hparse, hread, Except.mapError, LoadError.isReported] using hdocument
        | ok c =>
          rw [hread] at hdocument
          simpa [hparse, hread, Except.mapError, LoadError.isReported] using hdocument
      | _ => simp [hparse, LoadError.isReported]

/-- A text of ASCII characters on one line is read from its characters. -/
theorem ofContent_of_ascii {limits : Limits} {cs : List Char} (hascii : ∀ c ∈ cs, c.toNat ≤ 0x7F)
    (hline : '\r' ∉ cs) {error : Json.ReadError}
    (h : Json.parse limits.reading cs = .error error) :
    Catalog.ofContent limits (Utf8.encode (String.ofList cs)) = .error (.json error) := by
  rw [Catalog.ofContent, Utf8.decode_encode_of_ascii hascii]
  dsimp only
  rw [unifyLineEnds_of_not_mem hline, h]

end CodecMocks.Schema

/-! ### Runs -/

namespace CodecMocks.Command

open CodecMocks CodecMocks.Files CodecMocks.Number CodecMocks.Schema CodecMocks.Text
open CodecMocks.Tools

/-- What a run does when its file holds no catalog. -/
theorem run_of_load_error {w : Surroundings} {files : Tree} {arguments : List String}
    {i : Invocation} {content : List UInt8} {e : LoadError}
    (hargs : readArguments arguments = .ok (.generate i))
    (hread : files.read (join w.root i.ir) = .ok content)
    (hload : Catalog.ofContent w.limits content = .error e) :
    (run w files arguments).files = files ∧
      ((run w files arguments).finish = .returned 1 ↔ e.isReported = true) := by
  unfold run Invocation.run
  simp only [hargs, hread, hload]
  cases hreported : e.isReported <;> simp

/-- **When a fault of a file is reported.** A document, and the content of a file, is read as a
catalog or refused with a report exactly if no fault that escapes is reached in it. A run for a file
without a catalog changes no file, and it ends with status 1 exactly in that case. -/
theorem reported_iff_not_escaping {w : Surroundings} {files : Tree} {arguments : List String}
    {i : Invocation} {content : List UInt8}
    (hargs : readArguments arguments = .ok (.generate i))
    (hread : files.read (join w.root i.ir) = .ok content) :
    (∀ depth document,
        ((∃ c, Catalog.ofDocument depth document = .ok c) ∨
            ∃ e, Catalog.ofDocument depth document = .error e ∧ e.isReported = true) ↔
          ¬ EscapingDocument depth document) ∧
      (((∃ c, Catalog.ofContent w.limits content = .ok c) ∨
            ∃ e, Catalog.ofContent w.limits content = .error e ∧ e.isReported = true) ↔
          ¬ EscapingContent w.limits content) ∧
      ((∀ c, Catalog.ofContent w.limits content ≠ .ok c) →
        (run w files arguments).files = files ∧
          ((run w files arguments).finish = .returned 1 ↔
            ¬ EscapingContent w.limits content)) := by
  refine ⟨ofDocument_reported_iff, ofContent_reported_iff w.limits content, ?_⟩
  intro hnone
  have hcontent := ofContent_reported_iff w.limits content
  cases hload : Catalog.ofContent w.limits content with
  | ok c => exact absurd hload (hnone c)
  | error e =>
    obtain ⟨hfiles, hfinish⟩ := run_of_load_error hargs hread hload
    refine ⟨hfiles, hfinish.trans ?_⟩
    rw [← hcontent, hload]
    simp

/-! ### Files with a fault -/

/-- A tree with one file. -/
def loneFile (text : String) : Tree :=
  { items := [(["ir.json"], .file (Utf8.encode text))] }

/-- A run at the top of the tree, without a formatter. -/
def atTop : Surroundings where
  root := "/"
  formatter _ := ⟨"/mock.py", .missing⟩
  limits := usualLimits

/-- Loading the text ends in an error, and the program answers it if `reported`. -/
def failsToLoad (reported : Bool) (text : String) : Bool :=
  match Catalog.ofContent atTop.limits (Utf8.encode text) with
  | .error e => e.isReported == reported
  | .ok _ => false

theorem exists_of_failsToLoad {reported : Bool} {text : String}
    (h : failsToLoad reported text = true) :
    ∃ e, Catalog.ofContent atTop.limits (Utf8.encode text) = .error e ∧
      e.isReported = reported := by
  unfold failsToLoad at h
  split at h
  · next e he => exact ⟨e, he, beq_iff_eq.mp h⟩
  · cases h

/-- What is in the tree is read. -/
theorem read_loneFile (text : String) :
    (loneFile text).read (join atTop.root "ir.json") = .ok (Utf8.encode text) := by
  have hstart : (loneFile text).start (join atTop.root "ir.json") = .ok ([], ["ir.json"]) := rfl
  have hlocate : (loneFile text).locate (join atTop.root "ir.json") = .ok ["ir.json"] := by
    rw [Tree.locate, hstart]
    rfl
  rw [Tree.read, hlocate]
  rfl

/-- The types are a number. -/
def numberTypes : String :=
  "\x7b\"namespace\": \"n\", \"types\": 3\x7d"

theorem numberTypes_reported :
    readArguments ["-i", "ir.json"] = .ok (.generate { ir := "ir.json" }) ∧
      (loneFile numberTypes).read (join atTop.root "ir.json") = .ok (Utf8.encode numberTypes) ∧
      (run atTop (loneFile numberTypes) ["-i", "ir.json"]).files = loneFile numberTypes ∧
      (run atTop (loneFile numberTypes) ["-i", "ir.json"]).finish = .returned 1 := by
  have hargs : readArguments ["-i", "ir.json"] = .ok (.generate { ir := "ir.json" }) := by
    decide +kernel
  have hread := read_loneFile numberTypes
  obtain ⟨e, hload, he⟩ : ∃ e, Catalog.ofContent atTop.limits (Utf8.encode numberTypes) =
      .error e ∧ e.isReported = true :=
    exists_of_failsToLoad (by decide +kernel)
  obtain ⟨-, hcontent, hrun⟩ := reported_iff_not_escaping hargs hread
  obtain ⟨hfiles, hfinish⟩ := hrun fun c hc => by rw [hload] at hc; cases hc
  exact ⟨hargs, hread, hfiles, hfinish.mpr (hcontent.mp (.inr ⟨e, hload, he⟩))⟩

/-- An encoding that is a list. -/
def listEncoding : String :=
  "\x7b\"namespace\": \"n\", \"header\": [\x7b\"name\": \"x\", \"signal\": \"ENCODING\", " ++
    "\"encoding\": []\x7d]\x7d"

/-- A length beyond all numbers. -/
def infiniteLength : String :=
  "\x7b\"namespace\": \"n\", \"header\": [\x7b\"name\": \"x\", \"signal\": \"ENCODING\", " ++
    "\"encoding\": \x7b\"primitive_type\": \"char\", \"array_length\": 1e400\x7d\x7d]\x7d"

/-- An integer with one digit more than is allowed. -/
def longInteger : String :=
  String.ofList (List.replicate 4301 '1')

/-- Lists that are nested too deep. -/
def deepLists : String :=
  String.ofList (List.replicate 20000 '[')

/-- The text is no catalog, and that is not reported: the program is stopped. -/
def StopsProgram (text : String) : Prop :=
  (¬ ∃ c, Catalog.ofContent atTop.limits (Utf8.encode text) = .ok c) ∧
    (¬ ∃ e, Catalog.ofContent atTop.limits (Utf8.encode text) = .error e ∧
      e.isReported = true) ∧
    (run atTop (loneFile text) ["-i", "ir.json"]).finish ≠ .returned 1

theorem stopsProgram_of_error {text : String} {e : LoadError}
    (hload : Catalog.ofContent atTop.limits (Utf8.encode text) = .error e)
    (he : e.isReported = false) : StopsProgram text := by
  have hargs : readArguments ["-i", "ir.json"] = .ok (.generate { ir := "ir.json" }) := by
    decide +kernel
  have hfinish := (run_of_load_error (w := atTop) hargs (read_loneFile text) hload).2
  refine ⟨?_, ?_, ?_⟩
  · simp [hload]
  · simp [hload, he]
  · simp [hfinish, he]

theorem stopsProgram_of_failsToLoad {text : String} (h : failsToLoad false text = true) :
    StopsProgram text := by
  obtain ⟨e, hload, he⟩ := exists_of_failsToLoad h
  exact stopsProgram_of_error hload he

/-- A character repeated on one line is read from its characters. -/
theorem ofContent_replicate {limits : Limits} {count : Nat} {c : Char} (hascii : c.toNat ≤ 0x7F)
    (hline : '\r' ≠ c) {error : Json.ReadError}
    (h : Json.parse limits.reading (List.replicate count c) = .error error) :
    Catalog.ofContent limits (Utf8.encode (String.ofList (List.replicate count c))) =
      .error (.json error) :=
  ofContent_of_ascii (fun _ hd => List.eq_of_mem_replicate hd ▸ hascii)
    (fun hmem => hline (List.eq_of_mem_replicate hmem)) h

theorem escaping_stopped :
    StopsProgram listEncoding ∧ StopsProgram infiniteLength ∧ StopsProgram longInteger ∧
      StopsProgram deepLists := by
  refine ⟨stopsProgram_of_failsToLoad (by decide +kernel),
    stopsProgram_of_failsToLoad (by decide +kernel), ?_, ?_⟩
  · exact stopsProgram_of_error (ofContent_replicate (by decide) (by decide)
      (Json.parse_replicate_digit (by decide))) rfl
  · exact stopsProgram_of_error (ofContent_replicate (by decide) (by decide)
      (Json.parse_replicate_bracket (by decide))) rfl

end CodecMocks.Command
