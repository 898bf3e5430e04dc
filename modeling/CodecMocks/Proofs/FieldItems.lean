import CodecMocks.Proofs.CompositeMembers
import CodecMocks.Proofs.Suppression

/-!
# The fields among root field tokens

Root fields are read from a flat list with a look at one token ahead, and no block is passed over.
The tokens that a named type is made of, and those that stand between fields, are still never taken
for a field: only the token after the begin marker of a field says what its type is.

* `FieldItem`: a field with a primitive value, a field with a value of a named type, or tokens that
  begin no field, such as the dimensions of a group. What is in a named type need not be balanced.
* `storedField?`, `itemProperties`: the fields that are stored, each with its type hint.
* `FieldItem.seen`: the tokens of an item that are looked at.
* `fieldProperties_item_append`: an item adds its own property, and reading goes on after it.
* `addFields_items`: writing root fields is writing the printed properties of the stored fields in
  order, and it depends on the seen tokens only.
-/

namespace CodecMocks.Schema

/-- None of the tokens begins a field. -/
def BeginsNoField (tokens : List Token) : Prop :=
  ∀ t ∈ tokens, t.is .beginField = false

instance (tokens : List Token) : Decidable (BeginsNoField tokens) :=
  inferInstanceAs (Decidable (∀ t ∈ tokens, t.is .beginField = false))

/-- What root fields are made of. `rest` is what follows the begin marker of a named type up to the
end of the field, the end marker of the type among it. -/
inductive FieldItem where
  | primitive (field value closing : Token) (isField : field.is .beginField = true)
      (isValue : value.is .encoding = true) (isEnd : closing.is .endField = true)
  | named (field first : Token) (rest : List Token) (closing : Token)
      (isField : field.is .beginField = true) (isNamed : first.signal.typeEnd?.isSome = true)
      (plain : BeginsNoField rest) (isEnd : closing.is .endField = true)
  | filler (tokens : List Token) (plain : BeginsNoField tokens)

namespace FieldItem

/-- The tokens of an item. -/
def tokens : FieldItem → List Token
  | .primitive field value closing _ _ _ => [field, value, closing]
  | .named field first rest closing _ _ _ _ => field :: first :: (rest ++ [closing])
  | .filler tokens _ => tokens

/-- The tokens of an item that are looked at: the begin marker of a field and the token after it. -/
def seen : FieldItem → List Token
  | .primitive field value _ _ _ _ => [field, value]
  | .named field first _ _ _ _ _ _ => [field, first]
  | .filler _ _ => []

end FieldItem

/-- The begin marker of a named type is none of the other signals. -/
theorem Token.is_eq_false_of_isNamed {t : Token} (h : t.signal.typeEnd?.isSome = true)
    {s : Signal} (hs : s.typeEnd? = none) : t.is s = false := by
  apply Token.is_eq_false_of_ne
  rintro rfl
  rw [hs] at h
  cases h

end CodecMocks.Schema

namespace CodecMocks.Mock

open CodecMocks.Naming CodecMocks.Schema

/-- The schema name and the type hint of the field that an item declares, if the field is stored. -/
def storedField? : FieldItem → Option (CodeText × CodeText)
  | .primitive field value _ _ _ _ =>
    if field.isConstant then none else (value.encoding.bind hintOfValue?).map (field.name, ·)
  | .named field first _ _ _ _ _ _ =>
    if field.isConstant || first.isConstant then none
    else some (field.name, className first.name)
  | .filler _ _ => none

/-- The properties of the stored fields in a class that has the members `reserved`. -/
def itemProperties (reserved : List CodeText) (items : List FieldItem) : List Property :=
  (items.filterMap storedField?).map fun stored =>
    { name := propertyName stored.1 reserved, hint := stored.2 }

theorem fieldProperties_pair {field : Token} (isField : field.is .beginField = true)
    (value : Token) (reserved : List CodeText) :
    fieldProperties reserved [field, value] = (fieldProperty? reserved field value).toList := by
  rw [fieldProperties, if_pos isField]
  exact List.append_nil _

/-- Reading an item is reading what of it is seen; then reading goes on after the item. -/
theorem fieldProperties_item_append (reserved : List CodeText) (item : FieldItem)
    (rest : List Token) :
    fieldProperties reserved (item.tokens ++ rest) =
      fieldProperties reserved item.seen ++ fieldProperties reserved rest := by
  cases item with
  | primitive field value closing isField isValue isEnd =>
    have hafter : BeginsNoField [value, closing] := by
      intro t ht
      rcases List.mem_cons.mp ht with rfl | ht
      · exact Token.is_eq_false_of_is isValue (by decide)
      · rw [List.mem_singleton.mp ht]
        exact Token.is_eq_false_of_is isEnd (by decide)
    rw [FieldItem.tokens, FieldItem.seen, fieldProperties_pair isField]
    exact fieldProperties_field_append isField hafter reserved rest
  | named field first inner closing isField isNamed plain isEnd =>
    have hafter : BeginsNoField (first :: (inner ++ [closing])) := by
      intro t ht
      rcases List.mem_cons.mp ht with rfl | ht
      · exact Token.is_eq_false_of_isNamed isNamed rfl
      rcases List.mem_append.mp ht with ht | ht
      · exact plain t ht
      · rw [List.mem_singleton.mp ht]
        exact Token.is_eq_false_of_is isEnd (by decide)
    rw [FieldItem.tokens, FieldItem.seen, fieldProperties_pair isField]
    exact fieldProperties_field_append isField hafter reserved rest
  | filler tokens plain => exact fieldProperties_append plain reserved rest

/-- Root fields are read item by item. -/
theorem fieldProperties_items (reserved : List CodeText) (items : List FieldItem) :
    fieldProperties reserved (items.flatMap FieldItem.tokens) =
      (items.map FieldItem.seen).flatMap (fieldProperties reserved) := by
  induction items with
  | nil => rfl
  | cons item items ih =>
    rw [List.flatMap_cons, fieldProperties_item_append, ih, List.map_cons, List.flatMap_cons]

/-- What is seen of an item tells the property of its field. -/
theorem fieldProperties_seen (reserved : List CodeText) (item : FieldItem) :
    fieldProperties reserved item.seen = itemProperties reserved [item] := by
  cases item with
  | primitive field value closing isField isValue isEnd =>
    rw [FieldItem.seen, fieldProperties_pair isField, fieldProperty?, if_pos isValue,
      primitiveProperty?_eq_map]
    cases hconstant : field.isConstant with
    | true => simp [itemProperties, storedField?, hconstant]
    | false =>
      cases hhint : value.encoding.bind hintOfValue? <;>
        simp [itemProperties, storedField?, hconstant, hhint]
  | named field first inner closing isField isNamed plain isEnd =>
    have hvalue : first.is .encoding = false := Token.is_eq_false_of_isNamed isNamed rfl
    rw [FieldItem.seen, fieldProperties_pair isField, fieldProperty?]
    cases hfield : field.isConstant <;> cases hfirst : first.isConstant <;>
      simp [itemProperties, storedField?, namedProperty, hvalue, isNamed, hfield, hfirst]
  | filler tokens plain => rfl

theorem itemProperties_eq_flatMap (reserved : List CodeText) (items : List FieldItem) :
    itemProperties reserved items = items.flatMap fun item => itemProperties reserved [item] := by
  induction items with
  | nil => rfl
  | cons item items ih =>
    rw [List.flatMap_cons, ← ih]
    simp only [itemProperties, ← List.map_append, ← List.filterMap_append, List.singleton_append]

theorem members_of_mem_itemProperties {reserved : List CodeText} {items : List FieldItem}
    {p : Property} (h : p ∈ itemProperties reserved items) :
    p.members = printedProperty p.name p.hint := by
  obtain ⟨stored, -, rfl⟩ := List.mem_map.mp h
  exact members_eq_printedProperty _ stored.2

/-- **Root fields are written exactly, and what is not seen is opaque.** Each field that is stored
adds its storage, accessor and mutator, in order and with a blank line between two of them, whatever
names are reserved in the class, and nothing else is added. Items of which the same tokens are seen
add the same: what a named type is made of and what stands between fields has no influence. -/
theorem addFields_items (items : List FieldItem) (o : Outline) :
    (o.addFields (items.flatMap FieldItem.tokens) =
      o.continued (printedProperties (itemProperties o.current.reserved items))) ∧
    ∀ others : List FieldItem, others.map FieldItem.seen = items.map FieldItem.seen →
      o.addFields (others.flatMap FieldItem.tokens) =
        o.addFields (items.flatMap FieldItem.tokens) := by
  refine ⟨?_, ?_⟩
  · have hproperties : fieldProperties o.current.reserved (items.flatMap FieldItem.tokens) =
        itemProperties o.current.reserved items := by
      rw [fieldProperties_items, List.flatMap_map, itemProperties_eq_flatMap]
      exact List.flatMap_congr fun item _ => fieldProperties_seen _ item
    rw [Outline.addFields, hproperties]
    exact o.addProperties_eq_continued fun _ => members_of_mem_itemProperties
  · intro others hseen
    rw [Outline.addFields, Outline.addFields, fieldProperties_items, fieldProperties_items, hseen]

/-- Fields of all kinds, stored or not, after the dimensions of a group. -/
def fuelItems : List FieldItem :=
  [.filler [⟨.beginComposite, "dimensions", none⟩,
      ⟨.encoding, "blockLength", some { primitive := .uint16 }⟩,
      ⟨.endComposite, "dimensions", none⟩] (by decide),
   .primitive ⟨.beginField, "count", none⟩ ⟨.encoding, "uint8", some { primitive := .uint8 }⟩
      ⟨.endField, "count", none⟩ rfl rfl rfl,
   .named ⟨.beginField, "kind", none⟩ ⟨.beginEnum, "fuel_kind", none⟩
      [⟨.encoding, "char", some { primitive := .char }⟩, ⟨.validValue, "Gas", none⟩,
       ⟨.endEnum, "fuel_kind", none⟩]
      ⟨.endField, "kind", none⟩ rfl rfl (by decide) rfl,
   .named ⟨.beginField, "unit", some { primitive := .char, presence := .constant }⟩
      ⟨.beginEnum, "unit", none⟩ [⟨.endEnum, "unit", none⟩] ⟨.endField, "unit", none⟩
      rfl rfl (by decide) rfl,
   .primitive ⟨.beginField, "spare", none⟩
      ⟨.encoding, "char", some { primitive := .char, arrayLength := 0 }⟩
      ⟨.endField, "spare", none⟩ rfl rfl rfl,
   .primitive ⟨.beginField, "speeds", none⟩
      ⟨.encoding, "float", some { primitive := .float, arrayLength := 3 }⟩
      ⟨.endField, "speeds", none⟩ rfl rfl rfl]

/-- The same fields without the dimensions, and with other tokens in the named types. -/
def hollowItems : List FieldItem :=
  [.filler [] (by decide),
   .primitive ⟨.beginField, "count", none⟩ ⟨.encoding, "uint8", some { primitive := .uint8 }⟩
      ⟨.endField, "", none⟩ rfl rfl rfl,
   .named ⟨.beginField, "kind", none⟩ ⟨.beginEnum, "fuel_kind", none⟩ []
      ⟨.endField, "", none⟩ rfl rfl (by decide) rfl,
   .named ⟨.beginField, "unit", some { primitive := .char, presence := .constant }⟩
      ⟨.beginEnum, "unit", none⟩ [⟨.endField, "x", none⟩, ⟨.encoding, "x", none⟩]
      ⟨.endField, "", none⟩ rfl rfl (by decide) rfl,
   .primitive ⟨.beginField, "spare", none⟩
      ⟨.encoding, "char", some { primitive := .char, arrayLength := 0 }⟩
      ⟨.endField, "", none⟩ rfl rfl rfl,
   .primitive ⟨.beginField, "speeds", none⟩
      ⟨.encoding, "float", some { primitive := .float, arrayLength := 3 }⟩
      ⟨.endField, "", none⟩ rfl rfl rfl]

theorem fuelItems_written :
    let o := (Outline.root "").reserve cursorNames
    let written := o.continued (printedProperty "count_" "int" ++
      printedProperty "kind" "FuelKind" ++ printedProperty "speeds" "list[float]")
    hollowItems.map FieldItem.seen = fuelItems.map FieldItem.seen ∧
      o.addFields (fuelItems.flatMap FieldItem.tokens) = written ∧
      o.addFields (hollowItems.flatMap FieldItem.tokens) = written := by
  intro o written
  have hseen : hollowItems.map FieldItem.seen = fuelItems.map FieldItem.seen := rfl
  have hproperties : itemProperties cursorNames fuelItems =
      [{ name := "count_", hint := "int" }, { name := "kind", hint := "FuelKind" },
       { name := "speeds", hint := "list[float]" }] := by
    decide +kernel
  obtain ⟨hwritten, hignored⟩ := addFields_items fuelItems o
  have hfuel : o.addFields (fuelItems.flatMap FieldItem.tokens) = written := by
    rw [hwritten]
    exact congrArg (fun ps => o.continued (printedProperties ps)) hproperties
  exact ⟨hseen, hfuel, (hignored hollowItems hseen).trans hfuel⟩

end CodecMocks.Mock
