import CodecMocks.Lists
import CodecMocks.Proofs.MessageText
import CodecMocks.Proofs.Robustness
import CodecMocks.Proofs.TypeBlocks

/-!
# Members without a property

Constant values and values that take no space have no property. Leaving such members out of the
tokens, any of them, in any class and at any depth of groups, changes nothing of the modules that
are made: not a name, not a line, not a blank between members.

* `Thins part void`: tokens with some of their void parts left out.
* `fieldProperties_of_thins`, `compositeProperties_of_thins`: the properties stay.
* `exists_forests_of_thinsGroups`: so does what a stream of groups adds to a class.
* `modulesOf_of_thins`: the modules of a thinned catalog.
-/

namespace CodecMocks.Schema

/-! ### Void parts -/

/-- A primitive value that is not stored: it is constant, has no encoding, or is an empty array. -/
def Token.IsVoid (t : Token) : Prop :=
  t.isConstant = true ∨ t.encoding = none ∨ t.arrayLength ≤ 0

instance (t : Token) : Decidable t.IsVoid :=
  inferInstanceAs (Decidable (t.isConstant = true ∨ t.encoding = none ∨ t.arrayLength ≤ 0))

/-- The token begins or ends a field, a group or variable-length data. -/
def Token.marksMember (t : Token) : Bool :=
  t.is .beginField || t.is .endField || t.isGroupMarker || t.is .beginVarData || t.is .endVarData

/-- `tokens` are those of a field: its begin marker `field`, then a primitive value or a value of a
named type, which starts with `value`, then its end marker. -/
inductive IsFieldBlock (field value : Token) : (tokens : List Token) → Prop where
  | primitive {closing : Token} (hfield : field.is .beginField = true)
      (hvalue : value.is .encoding = true) (hclosing : closing.is .endField = true) :
      IsFieldBlock field value [field, value, closing]
  | named {last closing : Token} {inner : List Token} (hfield : field.is .beginField = true)
      (hvalue : IsTypeBlock value inner last) (hinner : ∀ t ∈ inner, t.marksMember = false)
      (hclosing : closing.is .endField = true) :
      IsFieldBlock field value (field :: value :: (inner ++ [last, closing]))

/-- What root fields are made of: the tokens of fields, and other tokens between them. -/
inductive IsFieldPart : List Token → Prop where
  | token {t : Token} (h : t.is .beginField = false) : IsFieldPart [t]
  | block {field value : Token} {tokens : List Token} (h : IsFieldBlock field value tokens) :
      IsFieldPart tokens

/-- A field without a property. -/
inductive IsVoidField : List Token → Prop where
  | block {field value : Token} {tokens : List Token} (h : IsFieldBlock field value tokens)
      (hvoid : field.isConstant = true ∨ value.isConstant = true ∨
        value.is .encoding = true ∧ value.IsVoid) : IsVoidField tokens

/-- What a composite is made of: the blocks of named types, and single tokens. -/
inductive IsMemberPart : List Token → Prop where
  | token {t : Token} (h : t.signal.typeEnd? = none) : IsMemberPart [t]
  | block {first last : Token} {inner : List Token} (h : IsTypeBlock first inner last) :
      IsMemberPart (first :: (inner ++ [last]))

/-- A member of a composite without a property. -/
inductive IsVoidMember : List Token → Prop where
  | primitive {t : Token} (ht : t.is .encoding = true) (hvoid : t.IsVoid) : IsVoidMember [t]
  | block {first last : Token} {inner : List Token} (h : IsTypeBlock first inner last)
      (hconstant : first.isConstant = true) : IsVoidMember (first :: (inner ++ [last]))

/-! ### Leaving parts out -/

/-- The second list is the first without some of its void parts. Nothing is required of what follows
the last part that is left out. -/
inductive Thins (part void : List Token → Prop) : List Token → List Token → Prop where
  | same (tokens : List Token) : Thins part void tokens tokens
  | keep {tokens rest rest' : List Token} (hpart : part tokens)
      (hrest : Thins part void rest rest') : Thins part void (tokens ++ rest) (tokens ++ rest')
  | drop {tokens rest rest' : List Token} (hvoid : void tokens)
      (hrest : Thins part void rest rest') : Thins part void (tokens ++ rest) rest'

/-- Root fields without some of the fields that have no property. -/
abbrev ThinsFields : List Token → List Token → Prop :=
  Thins IsFieldPart IsVoidField

/-- The members of a composite without some of those that have no property. -/
abbrev ThinsMembers : List Token → List Token → Prop :=
  Thins IsMemberPart IsVoidMember

section

variable {part void : List Token → Prop} {tokens tokens' : List Token}

theorem Thins.sublist (h : Thins part void tokens tokens') : tokens'.Sublist tokens := by
  induction h with
  | same tokens => exact List.Sublist.refl tokens
  | keep _ _ ih => exact (List.Sublist.refl _).append ih
  | drop _ _ ih => exact ih.trans (List.sublist_append_right _ _)

theorem Thins.of_void (h : void tokens) : Thins part void tokens [] := by
  have hdrop : Thins part void (tokens ++ []) [] := .drop h (.same [])
  rwa [List.append_nil] at hdrop

/-- A result stays if it depends on parts one after the other and void parts add nothing to it. -/
theorem Thins.result_eq {α : Type} {result : List Token → α} (h : Thins part void tokens tokens')
    (hkeep : ∀ kept rest rest', part kept → result rest' = result rest →
      result (kept ++ rest') = result (kept ++ rest))
    (hdrop : ∀ dropped rest, void dropped → result (dropped ++ rest) = result rest) :
    result tokens' = result tokens := by
  induction h with
  | same tokens => rfl
  | keep hpart _ ih => exact hkeep _ _ _ hpart ih
  | drop hvoid _ ih => exact ih.trans (hdrop _ _ hvoid).symm

end

theorem ThinsFields.areFields {fields fields' : List Token} (h : ThinsFields fields fields')
    (hfields : AreFields fields) : AreFields fields' :=
  fun t ht => hfields t (h.sublist.subset ht)

/-- A stream of groups without some of the fields, at any depth, that have no property. -/
inductive ThinsGroups : List Token → List Token → Prop where
  | nil : ThinsGroups [] []
  | group {marker closing : Token} {fields fields' inner inner' data rest rest' : List Token}
      (hmarker : marker.is .beginGroup = true) (hfields : AreFields fields)
      (hthin : ThinsFields fields fields') (hinner : ThinsGroups inner inner')
      (hdata : StartsData data) (hplain : Markerless data)
      (hclosing : closing.is .endGroup = true) (hrest : ThinsGroups rest rest') :
      ThinsGroups (marker :: fields ++ inner ++ data ++ closing :: rest)
        (marker :: fields' ++ inner' ++ data ++ closing :: rest')

/-- The range of a composite without some of its members that have no property. -/
inductive ThinsComposite : List Token → List Token → Prop where
  | same (tokens : List Token) : ThinsComposite tokens tokens
  | members {opening closing : Token} {content content' : List Token}
      (h : ThinsMembers content content') :
      ThinsComposite (opening :: (content ++ [closing])) (opening :: (content' ++ [closing]))

/-- The range of a type, from which only members of composites are left out. -/
inductive ThinsType : List Token → List Token → Prop where
  | same (tokens : List Token) : ThinsType tokens tokens
  | composite {tokens tokens' : List Token}
      (hopening : ∃ t ∈ tokens.head?, t.is .beginComposite = true)
      (h : ThinsComposite tokens tokens') : ThinsType tokens tokens'

/-- The range of a message without some of the fields, at any depth of groups, that have no
property. -/
inductive ThinsMessage : List Token → List Token → Prop where
  | same (tokens : List Token) : ThinsMessage tokens tokens
  | fields {opening closing : Token} {fields fields' stream stream' data : List Token}
      (hfields : AreFields fields) (hthin : ThinsFields fields fields')
      (hgroups : ThinsGroups stream stream') (hdata : StartsData data) :
      ThinsMessage (opening :: (fields ++ stream ++ data ++ [closing]))
        (opening :: (fields' ++ stream' ++ data ++ [closing]))

/-- A catalog without some members that have no property. -/
structure Catalog.Thins (c c' : Catalog) : Prop where
  package : c'.package = c.package
  header : ThinsComposite c.header c'.header
  types : List.Forall₂ ThinsType c.types c'.types
  messages : List.Forall₂ ThinsMessage c.messages c'.messages

end CodecMocks.Schema

namespace CodecMocks.Mock

open CodecMocks.Files CodecMocks.Naming CodecMocks.Schema

/-! ### Properties -/

/-- A primitive value has no property exactly if it is void. -/
theorem primitiveProperty?_eq_none_iff {name : CodeText} {t : Token} :
    primitiveProperty? name t = none ↔ t.IsVoid := by
  unfold primitiveProperty? Token.IsVoid Token.arrayLength
  cases hencoding : t.encoding with
  | none => simp
  | some e =>
    by_cases hconstant : t.isConstant = true
    · simp [hconstant]
    by_cases hone : e.arrayLength = 1
    · simp [hconstant, hone]
    by_cases hmany : e.arrayLength > 1
    · have hpositive : ¬e.arrayLength ≤ 0 := by omega
      simp [hconstant, hone, hmany, hpositive]
    · have hempty : e.arrayLength ≤ 0 := by omega
      simp [hconstant, hone, hmany, hempty]

/-- A field has no property exactly if it or its value is constant, or its value is void. -/
theorem fieldProperty?_eq_none_iff {field value : Token} {tokens : List Token}
    (h : IsFieldBlock field value tokens) {reserved : List CodeText} :
    fieldProperty? reserved field value = none ↔
      field.isConstant = true ∨ value.isConstant = true ∨
        value.is .encoding = true ∧ value.IsVoid := by
  unfold fieldProperty?
  by_cases hfield : field.isConstant = true
  · simp [hfield]
  cases h with
  | primitive _ hvalue _ =>
    simp only [hfield, hvalue, Bool.false_eq_true, if_false, if_true, false_or, true_and,
      primitiveProperty?_eq_none_iff]
    constructor
    · exact Or.inr
    · rintro (hconstant | hvoid)
      · exact .inl hconstant
      · exact hvoid
  | named _ hvalue _ _ =>
    have hencoding : value.is .encoding = false := hvalue.first_is_eq_false rfl
    simp [hfield, hencoding, hvalue.kind]

theorem fieldProperties_cons {t : Token} (h : t.is .beginField = false) (reserved : List CodeText)
    (rest : List Token) : fieldProperties reserved (t :: rest) = fieldProperties reserved rest := by
  cases rest with
  | nil => rfl
  | cons next rest =>
    rw [fieldProperties, h]
    rfl

theorem fieldProperties_append {tokens : List Token} (h : ∀ t ∈ tokens, t.is .beginField = false)
    (reserved : List CodeText) (rest : List Token) :
    fieldProperties reserved (tokens ++ rest) = fieldProperties reserved rest := by
  induction tokens with
  | nil => rfl
  | cons t ts ih =>
    rw [List.cons_append, fieldProperties_cons (h t List.mem_cons_self)]
    exact ih fun t ht => h t (List.mem_cons_of_mem _ ht)

/-- A field has one property at most; the token after its begin marker, which says what its type is,
and what follows up to the end of the field begin no other field. -/
theorem fieldProperties_field_append {field value : Token} {after : List Token}
    (hfield : field.is .beginField = true)
    (hafter : ∀ t ∈ value :: after, t.is .beginField = false) (reserved : List CodeText)
    (rest : List Token) :
    fieldProperties reserved (field :: value :: after ++ rest) =
      (fieldProperty? reserved field value).toList ++ fieldProperties reserved rest := by
  -- The value is read twice: with its field, and as a token that begins no field.
  have hrest := fieldProperties_append hafter reserved rest
  rw [List.cons_append] at hrest
  rw [List.cons_append, List.cons_append, fieldProperties, if_pos hfield, hrest]

theorem fieldProperties_block_append {field value : Token} {tokens : List Token}
    (h : IsFieldBlock field value tokens) (reserved : List CodeText) (rest : List Token) :
    fieldProperties reserved (tokens ++ rest) =
      (fieldProperty? reserved field value).toList ++ fieldProperties reserved rest := by
  cases h with
  | primitive hfield hvalue hclosing =>
    apply fieldProperties_field_append hfield
    intro t ht
    rcases List.mem_cons.mp ht with rfl | ht
    · exact Token.is_eq_false_of_is hvalue (by decide)
    · rw [List.mem_singleton.mp ht]
      exact Token.is_eq_false_of_is hclosing (by decide)
  | @named last closing inner hfield hvalue hinner hclosing =>
    apply fieldProperties_field_append hfield
    intro t ht
    rcases List.mem_cons.mp ht with rfl | ht
    · exact hvalue.first_is_eq_false rfl
    rcases List.mem_append.mp ht with ht | ht
    · have hplain := hinner t ht
      simp only [Token.marksMember, Bool.or_eq_false_iff] at hplain
      exact hplain.1.1.1.1
    rcases List.mem_cons.mp ht with rfl | ht
    · exact hvalue.last_is_beginField
    · rw [List.mem_singleton.mp ht]
      exact Token.is_eq_false_of_is hclosing (by decide)

/-- Fields without a property can be left out. -/
theorem fieldProperties_of_thins {fields fields' : List Token} (h : ThinsFields fields fields')
    (reserved : List CodeText) :
    fieldProperties reserved fields' = fieldProperties reserved fields := by
  apply h.result_eq
  · intro kept rest rest' hpart hrest
    cases hpart with
    | token ht =>
      rw [List.singleton_append, List.singleton_append, fieldProperties_cons ht,
        fieldProperties_cons ht, hrest]
    | block hblock =>
      rw [fieldProperties_block_append hblock, fieldProperties_block_append hblock, hrest]
  · intro dropped rest hfield
    cases hfield with
    | block hblock hvoid =>
      rw [fieldProperties_block_append hblock, (fieldProperty?_eq_none_iff hblock).mpr hvoid]
      rfl

/-- Members of a composite without a property can be left out. -/
theorem compositeProperties_of_thins {content content' : List Token}
    (h : ThinsMembers content content') (reserved : List CodeText) :
    compositeProperties reserved content' = compositeProperties reserved content := by
  apply h.result_eq
  · intro kept rest rest' hpart hrest
    cases hpart with
    | token ht =>
      rw [List.singleton_append, List.singleton_append, compositeProperties_cons ht,
        compositeProperties_cons ht, hrest]
    | block hblock =>
      rw [compositeProperties_block_append hblock, compositeProperties_block_append hblock, hrest]
  · intro dropped rest hmember
    cases hmember with
    | @primitive t ht hvoid =>
      have hkind : t.signal.typeEnd? = none := by
        rw [Token.is_iff.mp ht]
        rfl
      rw [List.singleton_append, compositeProperties_cons hkind, if_pos ht,
        primitiveProperty?_eq_none_iff.mpr hvoid]
      rfl
    | block hblock hconstant =>
      rw [compositeProperties_block_append hblock, if_pos hconstant]
      rfl

/-! ### Classes -/

/-- A thinned stream of groups spells a forest like the stream itself, and both forests add the same
to any class. -/
theorem exists_forests_of_thinsGroups {stream stream' : List Token}
    (h : ThinsGroups stream stream') :
    ∃ forest forest', Spells forest stream ∧ Spells forest' stream' ∧
      ∀ parent reserved,
        forestBody parent reserved forest' = forestBody parent reserved forest := by
  induction h with
  | nil => exact ⟨.nil, .nil, .nil, .nil, fun _ _ => rfl⟩
  | @group marker closing fields fields' inner inner' data rest rest' hmarker hfields hthin _ hdata
      hplain hclosing _ ihInner ihRest =>
    obtain ⟨nested, nested', hnested, hnested', hsameNested⟩ := ihInner
    obtain ⟨next, next', hnext, hnext', hsameNext⟩ := ihRest
    refine ⟨.group marker fields nested next, .group marker fields' nested' next',
      .group hmarker hfields hnested hdata hplain hclosing hnext,
      .group hmarker (hthin.areFields hfields) hnested' hdata hplain hclosing hnext', ?_⟩
    intro parent reserved
    rw [forestBody, forestBody, fieldProperties_of_thins hthin, hsameNested, hsameNext]

theorem compositeProperties_body_of_thins {tokens tokens' : List Token}
    (h : ThinsComposite tokens tokens') (reserved : List CodeText) :
    compositeProperties reserved (body tokens') = compositeProperties reserved (body tokens) := by
  cases h with
  | same => rfl
  | members h => rw [body_enclosed, body_enclosed, compositeProperties_of_thins h]

theorem headerModule_of_thins {header header' : List Token}
    (h : ThinsComposite header header') (package : CodeText) :
    headerModule package header' = headerModule package header := by
  rw [headerModule_eq, headerModule_eq, headerClass, headerClass,
    compositeProperties_body_of_thins h]

theorem typeModule?_of_thins {tokens tokens' : List Token} (h : ThinsType tokens tokens')
    (package : CodeText) : typeModule? package tokens' = typeModule? package tokens := by
  cases h with
  | same => rfl
  | composite hopening h =>
    have hproperties := compositeProperties_body_of_thins h []
    cases h with
    | same => rfl
    | @members opening closing content content' h =>
      obtain ⟨t, ht, hbegin⟩ := hopening
      cases ht
      have hsignal := Token.is_iff.mp hbegin
      rw [typeModule?_eq (List.cons_ne_nil _ _), typeModule?_eq (List.cons_ne_nil _ _)]
      simp only [typeClass?, hsignal, hproperties]

theorem messageModule_of_thins {tokens tokens' : List Token} (h : ThinsMessage tokens tokens')
    (package : CodeText) : messageModule package tokens' = messageModule package tokens := by
  cases h with
  | same => rfl
  | @fields opening closing fields fields' stream stream' data hfields hthin hgroups hdata =>
    obtain ⟨forest, forest', hspells, hspells', hforest⟩ := exists_forests_of_thinsGroups hgroups
    obtain ⟨hroot, hread⟩ := read_groups_of_spells hfields hspells hdata
    obtain ⟨hroot', hread'⟩ := read_groups_of_spells (hthin.areFields hfields) hspells' hdata
    have hbody : messageBody (className opening.name) fields' forest' =
        messageBody (className opening.name) fields forest := by
      rw [messageBody, messageBody, fieldProperties_of_thins hthin, hforest]
    rw [messageModule_eq, messageModule_eq, body_enclosed, body_enclosed, messageClass,
      messageClass, hroot, hroot', hread, hread', hbody]

/-! ### Catalogs -/

/-- **Members without a property leave no trace.** A catalog from whose composites and messages some
members without a property are left out has the modules of the whole catalog, for each stage, and
every session takes the same course with both. When no range of types or messages is empty, all the
modules are made. -/
theorem modulesOf_of_thins {c c' : Catalog} (h : c.Thins c') :
    (∀ s, modulesOf c' s = modulesOf c s) ∧
      (∀ {σ ε : Type} (d : Destination σ ε) (p : Progress σ) (s : Stage),
        p.stage d c' s = p.stage d c s) ∧
      ((∀ tokens ∈ c.types, tokens ≠ []) → (∀ tokens ∈ c.messages, tokens ≠ []) →
        (({ state := [] } : Progress Shelf).stage memoryDestination c .all).2 = none) := by
  have hheader := headerModule_of_thins h.header c.package
  have htypes : typeModules c' = typeModules c := by
    rw [typeModules, typeModules, h.package]
    exact map_eq_map_of_forall₂ h.types fun _ _ ht => typeModule?_of_thins ht c.package
  have hmessages : messageModules c' = messageModules c := by
    rw [messageModules, messageModules, h.package]
    refine map_eq_map_of_forall₂ h.messages ?_
    intro tokens tokens' hm
    rw [messageModule_of_thins hm]
  have hmodules : ∀ s, modulesOf c' s = modulesOf c s := by
    intro s
    cases s with
    | header => simp only [modulesOf, h.package, hheader]
    | types => exact htypes
    | messages => exact hmessages
    | all => simp only [modulesOf, h.package, hheader, htypes, hmessages]
  refine ⟨hmodules, ?_, ?_⟩
  · intro σ ε d p s
    have hsummary : ∀ count, summaryLine count c' = summaryLine count c := by
      intro count
      rw [summaryLine, summaryLine, h.package]
    simp only [Progress.stage, hmodules, hsummary]
  · intro htypes hmessages
    obtain ⟨made, hmade, -⟩ := modulesOf_all htypes hmessages
    rw [Progress.stage, hmade, handAll_memory]
    rfl

/-! ### A sample catalog -/

/-- A value that is the same in all messages. -/
def fixedValue : Encoding := { primitive := .uint8, presence := .constant }

/-- A constant type in a composite, with a type in it. -/
def unitBlock : List Token :=
  [⟨.beginComposite, "unit", some fixedValue⟩, ⟨.beginComposite, "scale", none⟩,
   ⟨.endComposite, "scale", none⟩, ⟨.endComposite, "unit", none⟩]

/-- A constant field of a named type. -/
def venueField : List Token :=
  [⟨.beginField, "venue", some fixedValue⟩, ⟨.beginSet, "flags", none⟩, ⟨.choice, "open", none⟩,
   ⟨.endSet, "flags", none⟩, ⟨.endField, "venue", none⟩]

/-- A field that takes no space. -/
def spareField : List Token :=
  [⟨.beginField, "spare", none⟩,
   ⟨.encoding, "bytes", some { primitive := .char, arrayLength := 0 }⟩,
   ⟨.endField, "spare", none⟩]

def priceField : List Token :=
  [⟨.beginField, "price", none⟩, ⟨.encoding, "int64", some { primitive := .int64 }⟩,
   ⟨.endField, "price", none⟩]

/-- A header, a composite and a message with the given members, fields and fields of a group. -/
def sampleCatalog (version unit venue legFields : List Token) : Catalog where
  package := "n"
  header := ⟨.beginComposite, "header", none⟩ :: (version ++ [⟨.endComposite, "header", none⟩])
  types := [⟨.beginComposite, "pair", none⟩ :: (unit ++ [⟨.endComposite, "pair", none⟩])]
  messages :=
    [⟨.beginMessage, "trade", none⟩ :: (venue ++
      (⟨.beginGroup, "legs", none⟩ :: legFields ++ [] ++ [] ++ [⟨.endGroup, "legs", none⟩]) ++ [] ++
      [⟨.endMessage, "trade", none⟩])]
  header_ne_nil := List.cons_ne_nil _ _

def paddedCatalog : Catalog :=
  sampleCatalog [⟨.encoding, "version", some fixedValue⟩] unitBlock venueField
    (priceField ++ spareField)

def bareCatalog : Catalog :=
  sampleCatalog [] [] [] priceField

theorem isVoidMember_unitBlock : IsVoidMember unitBlock := by
  have hscale : Balanced .beginComposite .endComposite
      [⟨.beginComposite, "scale", none⟩, ⟨.endComposite, "scale", none⟩] :=
    @Balanced.block _ _ _ _ [] [] rfl .nil rfl .nil
  have hunit : IsTypeBlock ⟨.beginComposite, "unit", some fixedValue⟩
      [⟨.beginComposite, "scale", none⟩, ⟨.endComposite, "scale", none⟩]
      ⟨.endComposite, "unit", none⟩ :=
    ⟨rfl, hscale⟩
  exact .block hunit rfl

theorem isVoidField_venueField : IsVoidField venueField := by
  have hflags : IsTypeBlock ⟨.beginSet, "flags", none⟩ [⟨.choice, "open", none⟩]
      ⟨.endSet, "flags", none⟩ :=
    ⟨rfl, .other rfl rfl .nil⟩
  have hvenue : IsFieldBlock ⟨.beginField, "venue", some fixedValue⟩ ⟨.beginSet, "flags", none⟩
      venueField := by
    refine .named rfl hflags ?_ rfl
    intro t ht
    rw [List.mem_singleton.mp ht]
    rfl
  exact .block hvenue (.inl rfl)

theorem isVoidField_spareField : IsVoidField spareField := by
  have hspare : IsFieldBlock ⟨.beginField, "spare", none⟩
      ⟨.encoding, "bytes", some { primitive := .char, arrayLength := 0 }⟩ spareField :=
    .primitive rfl rfl rfl
  have hempty : Token.IsVoid ⟨.encoding, "bytes", some { primitive := .char, arrayLength := 0 }⟩ :=
    .inr (.inr (Int.le_refl 0))
  exact .block hspare (.inr (.inr ⟨rfl, hempty⟩))

theorem thins_paddedCatalog : paddedCatalog.Thins bareCatalog := by
  have hversion : ThinsMembers [⟨.encoding, "version", some fixedValue⟩] [] :=
    .of_void (.primitive rfl (.inl rfl))
  have hunit : ThinsMembers unitBlock [] := .of_void isVoidMember_unitBlock
  have hvenue : ThinsFields venueField [] := .of_void isVoidField_venueField
  have hprice : IsFieldBlock ⟨.beginField, "price", none⟩
      ⟨.encoding, "int64", some { primitive := .int64 }⟩ priceField :=
    .primitive rfl rfl rfl
  have hleg : ThinsFields (priceField ++ spareField) (priceField ++ []) :=
    .keep (.block hprice) (.of_void isVoidField_spareField)
  have hlegs : ThinsGroups
      (⟨.beginGroup, "legs", none⟩ :: (priceField ++ spareField) ++ [] ++ [] ++
        [⟨.endGroup, "legs", none⟩])
      (⟨.beginGroup, "legs", none⟩ :: priceField ++ [] ++ [] ++ [⟨.endGroup, "legs", none⟩]) :=
    .group rfl (by decide) hleg .nil (by decide) (by decide) rfl .nil
  constructor
  · rfl
  · exact .members hversion
  · exact .cons (.composite ⟨_, rfl, rfl⟩ (.members hunit)) .nil
  · exact .cons (.fields (by decide) hvenue hlegs (by decide)) .nil

theorem paddedCatalog_modulesOf :
    (paddedCatalog.Thins bareCatalog ∧ (∀ tokens ∈ paddedCatalog.types, tokens ≠ []) ∧
        ∀ tokens ∈ paddedCatalog.messages, tokens ≠ []) ∧
      paddedCatalog ≠ bareCatalog ∧
      modulesOf bareCatalog .all = modulesOf paddedCatalog .all ∧
      (({ state := [] } : Progress Shelf).stage memoryDestination paddedCatalog .all).2 = none := by
  have htypes : ∀ tokens ∈ paddedCatalog.types, tokens ≠ [] := by decide
  have hmessages : ∀ tokens ∈ paddedCatalog.messages, tokens ≠ [] := by decide
  obtain ⟨hmodules, -, hmade⟩ := modulesOf_of_thins thins_paddedCatalog
  exact ⟨⟨thins_paddedCatalog, htypes, hmessages⟩, by decide, hmodules .all,
    hmade htypes hmessages⟩

end CodecMocks.Mock
