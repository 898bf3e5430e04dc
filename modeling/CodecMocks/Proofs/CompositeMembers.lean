import CodecMocks.Proofs.PrintedText
import CodecMocks.Proofs.TypeBlocks

/-!
# The members of a composite

What a composite is made of is read as a list of members: single values, and blocks of named types
with further blocks of any kind inside. The end of a block is found by counting the markers of its
own kind only, and still the blocks that are in it, of whatever kinds and however deep, belong to
it.

* `Nested`: blocks of the three kinds, one inside of the other or side by side.
* `Nested.balanced`: the markers of each kind by itself are balanced, which is what the count needs.
* `Member`, `Member.property?`: a member and its property, without a look at what is in a block.
* `addComposite_members`: writing the members of a composite is writing the printed properties in
  order, and the modules of the header and of composites hold these and nothing else.
-/

namespace CodecMocks.Schema

/-- The signal is the end marker of a composite, an enum or a set. -/
def Signal.isTypeEnd : Signal → Bool
  | .endComposite | .endEnum | .endSet => true
  | _ => false

/-- The token begins or ends a composite, an enum or a set. -/
def Token.marksType (t : Token) : Bool :=
  t.signal.typeEnd?.isSome || t.signal.isTypeEnd

/-- Composites, enums and sets that are properly nested, to any depth and of mixed kinds. Tokens
that mark none of them may stand anywhere. -/
inductive Nested : List Token → Prop where
  | nil : Nested []
  | plain {t : Token} {rest : List Token} (ht : t.marksType = false) (hrest : Nested rest) :
      Nested (t :: rest)
  | block {first last : Token} {inner rest : List Token}
      (hkind : first.signal.typeEnd? = some last.signal) (hinner : Nested inner)
      (hrest : Nested rest) : Nested (first :: (inner ++ last :: rest))

theorem Balanced.append {opening closing : Signal} {a b : List Token}
    (ha : Balanced opening closing a) (hb : Balanced opening closing b) :
    Balanced opening closing (a ++ b) := by
  induction ha with
  | nil => exact hb
  | other hopening hclosing _ ih => exact .other hopening hclosing ih
  | @block first last inner rest hfirst hinner hlast _ _ ih =>
    rw [List.cons_append, List.append_assoc, List.cons_append]
    exact .block hfirst hinner hlast ih

/-- A begin marker is the end marker of no kind. -/
theorem Signal.isTypeEnd_of_typeEnd? {opening closing : Signal}
    (h : opening.typeEnd? = some closing) :
    closing.isTypeEnd = true ∧ opening.isTypeEnd = false := by
  cases opening <;> cases h <;> exact ⟨rfl, rfl⟩

/-- Each kind has an end marker of its own. -/
theorem Signal.typeEnd?_inj {s s' closing : Signal} (h : s.typeEnd? = some closing)
    (h' : s'.typeEnd? = some closing) : s = s' := by
  cases s <;> cases h <;> cases s' <;> first | rfl | cases h'

theorem Token.is_eq_false_of_ne {t : Token} {s : Signal} (h : t.signal ≠ s) : t.is s = false :=
  Bool.eq_false_iff.mpr fun his => h (Token.is_iff.mp his)

/-- **Properly nested blocks are balanced for each kind by itself.** -/
theorem Nested.balanced {opening closing : Signal} (hkind : opening.typeEnd? = some closing)
    {tokens : List Token} (h : Nested tokens) : Balanced opening closing tokens := by
  have hclosing := Signal.isTypeEnd_of_typeEnd? hkind
  induction h with
  | nil => exact .nil
  | @plain t rest ht _ ih =>
    simp only [Token.marksType, Bool.or_eq_false_iff] at ht
    have hopening : t.signal ≠ opening := by
      rintro rfl
      rw [hkind] at ht
      cases ht.1
    have hends : t.signal ≠ closing := by
      rintro rfl
      rw [hclosing.1] at ht
      cases ht.2
    exact .other (Token.is_eq_false_of_ne hopening) (Token.is_eq_false_of_ne hends) ih
  | @block first last inner rest hblock _ _ ihInner ihRest =>
    have hends := Signal.isTypeEnd_of_typeEnd? hblock
    by_cases hsame : first.signal = opening
    · have hlast : last.signal = closing := by
        rw [hsame, hkind] at hblock
        exact (Option.some.inj hblock).symm
      exact .block (Token.is_iff.mpr hsame) ihInner (Token.is_iff.mpr hlast) ihRest
    -- A block of another kind: neither of its markers is one of those counted.
    · have hfirst : first.signal ≠ closing := by
        rintro rfl
        rw [hclosing.1] at hends
        cases hends.2
      have hlastOpening : last.signal ≠ opening := by
        rintro rfl
        rw [hclosing.2] at hends
        cases hends.1
      have hlastClosing : last.signal ≠ closing := by
        rintro rfl
        exact hsame (Signal.typeEnd?_inj hblock hkind)
      have hlast : Balanced opening closing (last :: rest) :=
        .other (Token.is_eq_false_of_ne hlastOpening) (Token.is_eq_false_of_ne hlastClosing) ihRest
      exact .other (Token.is_eq_false_of_ne hsame) (Token.is_eq_false_of_ne hfirst)
        (ihInner.append hlast)

/-- A member of a composite: a single value, or the block of a composite, an enum or a set with
anything inside that is properly nested. -/
inductive Member where
  | value (token : Token) (isValue : token.is .encoding = true)
  | block (first : Token) (inner : List Token) (last : Token)
      (kind : first.signal.typeEnd? = some last.signal) (nested : Nested inner)

/-- The tokens of a member. -/
def Member.tokens : Member → List Token
  | .value token _ => [token]
  | .block first inner last _ _ => first :: (inner ++ [last])

/-- The token that a member starts with. -/
def Member.first : Member → Token
  | .value token _ => token
  | .block first _ _ _ _ => first

end CodecMocks.Schema

namespace CodecMocks.Mock

open CodecMocks.Naming CodecMocks.Schema

/-- The type hint of a value with the given encoding, if it is stored. -/
def hintOfValue? (e : Encoding) : Option CodeText :=
  if e.presence = .constant ∨ e.arrayLength < 1 then none
  else some (if e.arrayLength = 1 then e.primitive.scalarHint else e.primitive.arrayHint)

/-- The type hint of a member, if it is stored. -/
def hintOfMember? : Member → Option CodeText
  | .value token _ => token.encoding.bind hintOfValue?
  | .block first _ _ _ _ => if first.isConstant then none else some (className first.name)

/-- The property of a member in a class that has the members `reserved`. -/
def memberProperty? (reserved : List CodeText) (m : Member) : Option Property :=
  (hintOfMember? m).map fun hint => { name := propertyName m.first.name reserved, hint }

/-- The properties of members in a class that has the members `reserved`. -/
def memberProperties (reserved : List CodeText) (members : List Member) : List Property :=
  members.filterMap (memberProperty? reserved)

theorem primitiveProperty?_eq_map (name : CodeText) (t : Token) :
    primitiveProperty? name t =
      (t.encoding.bind hintOfValue?).map fun hint => { name, hint } := by
  obtain ⟨signal, tokenName, encoding⟩ := t
  cases encoding with
  | none => rfl
  | some e =>
    simp only [primitiveProperty?, Token.isConstant, Option.bind_some, hintOfValue?, beq_iff_eq]
    by_cases hconstant : e.presence = .constant
    · simp [hconstant]
    by_cases hone : e.arrayLength = 1
    · simp [hconstant, hone]
    by_cases hmany : 1 < e.arrayLength
    · have hless : ¬ e.arrayLength < 1 := by omega
      simp [hconstant, hone, hmany, hless]
    · have hless : e.arrayLength < 1 := by omega
      simp [hconstant, hone, hmany, hless]

/-- A member adds its own property, and reading goes on with the member after it. -/
theorem compositeProperties_member_append (reserved : List CodeText) (m : Member)
    (rest : List Token) :
    compositeProperties reserved (m.tokens ++ rest) =
      (memberProperty? reserved m).toList ++ compositeProperties reserved rest := by
  cases m with
  | value token isValue =>
    have hkind : token.signal.typeEnd? = none := by
      rw [Token.is_iff.mp isValue]
      rfl
    rw [Member.tokens, List.singleton_append, compositeProperties_cons hkind, if_pos isValue,
      primitiveProperty?_eq_map]
    rfl
  | block first inner last kind nested =>
    have hblock : IsTypeBlock first inner last := ⟨kind, nested.balanced kind⟩
    rw [Member.tokens, compositeProperties_block_append hblock, memberProperty?, hintOfMember?]
    cases first.isConstant <;> rfl

/-- The properties of a composite are those of its members. -/
theorem compositeProperties_members (reserved : List CodeText) (members : List Member) :
    compositeProperties reserved (members.flatMap Member.tokens) =
      memberProperties reserved members := by
  induction members with
  | nil => rw [List.flatMap_nil, compositeProperties, memberProperties, List.filterMap_nil]
  | cons m ms ih =>
    rw [List.flatMap_cons, compositeProperties_member_append, ih, memberProperties,
      memberProperties, List.filterMap_cons]
    cases memberProperty? reserved m <;> rfl

theorem members_of_mem_memberProperties {reserved : List CodeText} {members : List Member}
    {p : Property} (h : p ∈ memberProperties reserved members) :
    p.members = printedProperty p.name p.hint := by
  obtain ⟨m, -, hm⟩ := List.mem_filterMap.mp h
  obtain ⟨hint, -, rfl⟩ := Option.map_eq_some_iff.mp hm
  exact members_eq_printedProperty _ hint

/-- The module of a class that holds the properties of members. -/
theorem classModule_memberProperties (package typeName : CodeText) (members : List Member) :
    classModule package (.plain typeName (.ofProperties (memberProperties [] members))) =
      printedModule package typeName (printedProperties (memberProperties [] members)) := by
  rw [classModule_eq_printedModule,
    members_eq_printedProperties fun _ => members_of_mem_memberProperties]

/-- **The members of a composite are written in order, and nothing else is.** Each member that is
stored adds its storage, accessor and mutator, with a blank line between two of them, to any class,
and what is inside of a block adds nothing. So the modules of the message header and of composites
hold one class with the properties of the members. -/
theorem addComposite_members (members : List Member) :
    (∀ o : Outline, o.addComposite (members.flatMap Member.tokens) =
      o.continued (printedProperties (memberProperties o.current.reserved members))) ∧
    (∀ package opening closing,
      headerModule package (opening :: (members.flatMap Member.tokens ++ [closing])) =
        .ok (printedModule package "MessageHeader"
          (printedProperties (memberProperties [] members)))) ∧
    (∀ package name encoding closing,
      typeModule? package
          (⟨.beginComposite, name, encoding⟩ :: (members.flatMap Member.tokens ++ [closing])) =
        .ok (some (printedModule package (className name)
          (printedProperties (memberProperties [] members))))) := by
  refine ⟨?_, ?_, ?_⟩
  · intro o
    rw [Outline.addComposite, compositeProperties_members]
    exact o.addProperties_eq_continued fun _ => members_of_mem_memberProperties
  · intro package opening closing
    rw [headerModule_eq, headerClass, body_enclosed, compositeProperties_members,
      classModule_memberProperties]
    rfl
  · intro package name encoding closing
    rw [typeModule?_eq (List.cons_ne_nil _ _)]
    simp only [typeClass?, Option.map_some, body_enclosed, compositeProperties_members,
      classModule_memberProperties]

/-- What is in the block of a composite: a value, an enum, and a composite with a set in it. -/
def feeContent : List Token :=
  ⟨.encoding, "mantissa", some { primitive := .int64 }⟩ ::
    ⟨.beginEnum, "side", none⟩ :: ([⟨.validValue, "buy", none⟩] ++ ⟨.endEnum, "side", none⟩ ::
    ⟨.beginComposite, "rate", none⟩ :: (
      ⟨.beginSet, "flags", none⟩ :: ([⟨.choice, "net", none⟩] ++ ⟨.endSet, "flags", none⟩ :: []) ++
      ⟨.endComposite, "rate", none⟩ :: []))

theorem nested_feeContent : Nested feeContent := by
  have hside : Nested [⟨.validValue, "buy", none⟩] := .plain rfl .nil
  have hflags : Nested (⟨.beginSet, "flags", none⟩ ::
      ([⟨.choice, "net", none⟩] ++ ⟨.endSet, "flags", none⟩ :: [])) :=
    .block rfl (.plain rfl .nil) .nil
  exact .plain rfl (.block rfl hside (.block rfl hflags .nil))

/-- Values of all kinds, stored or not, and a block that is stored. -/
def sampleMembers : List Member :=
  [.value ⟨.encoding, "size", some { primitive := .uint16 }⟩ rfl,
   .value ⟨.encoding, "version", some { primitive := .uint8, presence := .constant }⟩ rfl,
   .block ⟨.beginComposite, "fee", none⟩ feeContent ⟨.endComposite, "fee", none⟩ rfl
     nested_feeContent,
   .value ⟨.encoding, "spare", some { primitive := .char, arrayLength := 0 }⟩ rfl,
   .value ⟨.encoding, "import", some { primitive := .int8, arrayLength := 4 }⟩ rfl]

theorem headerModule_sampleMembers :
    headerModule "n" (⟨.beginComposite, "header", none⟩ ::
        (sampleMembers.flatMap Member.tokens ++ [⟨.endComposite, "header", none⟩])) =
      .ok (printedModule "n" "MessageHeader" (printedProperty "size" "int" ++
        printedProperty "fee" "Fee" ++ printedProperty "import_" "list[int]")) := by
  have hproperties : memberProperties [] sampleMembers =
      [{ name := "size", hint := "int" }, { name := "fee", hint := "Fee" },
       { name := "import_", hint := "list[int]" }] := by
    decide +kernel
  rw [(addComposite_members sampleMembers).2.1, hproperties]
  rfl

end CodecMocks.Mock
