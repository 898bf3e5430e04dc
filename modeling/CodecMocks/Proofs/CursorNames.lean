import CodecMocks.Proofs.BoundNames
import CodecMocks.Proofs.Scripts

/-!
# The cursor of a group

The mock of a group walks over its items with seven members of its own and two attributes. What the
fields and the nested groups of the group add to the class gets in the way of none of them, whatever
the schema calls them, as long as names are compared as they are written. The language compares them
by a normal form. How it reads a name is the parameter `read` here, and the cursor is safe wherever
the names of a class are read as they are written; a field in full-width letters takes the place of
a member of the cursor.

* `keepsOff_of_isPropertyName`: a property whose name has the right shape keeps off the cursor.
* `exists_group_of_mem_classes`: the class of a group, at any depth, holds the properties of its
  fields and what the groups nested in it add.
* `cursorKept_of_mem_modulesOf`: the cursor of every group class of every module.
* `fullWidth_overrides`: a cursor that is lost.
-/

namespace CodecMocks.Mock

open CodecMocks.Naming CodecMocks.Schema

/-- The attributes that hold the state of a cursor in the class `mock`, as the cursor writes them
and as they are kept: a name with two underscores in front is kept under the name of its class. -/
def stateNames (mock : CodeText) : List CodeText :=
  ["__items", "__index", "_" ++ mock ++ "__items", "_" ++ mock ++ "__index"]

/-- The names that belong to the cursor of the class `mock`: its members and its state. -/
def ownNames (mock : CodeText) : List CodeText :=
  cursorBound ++ stateNames mock

/-- The three names that a property of the class `mock` binds are none of the cursor's, and the name
of its storage has one underscore in front, when the language reads a name as `read` says. -/
structure KeepsOff (read : CodeText → CodeText) (mock p : CodeText) : Prop where
  storage : ∀ own ∈ ownNames mock, read (storageName p) ≠ read own
  accessor : ∀ own ∈ ownNames mock, read p ≠ read own
  mutator : ∀ own ∈ ownNames mock, read (mutatorName p) ≠ read own
  oneUnderscore :
    ∃ rest, (read (storageName p)).toList = .ofChar '_' :: rest ∧ rest.head? ≠ some (.ofChar '_')

/-- Nothing that is declared in the class of a group gets in the way of its cursor, when the
language reads a name as `read` says. -/
structure CursorKept (read : CodeText → CodeText) (k : MockClass) : Prop where
  once : ∀ name ∈ cursorBound, (k.boundNames.map read).count (read name) = 1
  properties : ∀ p ∈ k.body.propertyNames, KeepsOff read (mockName k.typeName) p
  classes : ∀ typeName ∈ k.body.groupNames, ∀ own ∈ ownNames (mockName k.typeName),
    read (mockName typeName) ≠ read own

/-- The language reads these names as they are written. -/
def ReadAsWritten (read : CodeText → CodeText) (names : List CodeText) : Prop :=
  ∀ name ∈ names, read name = name

/-! ### Names apart -/

theorem head_of_mem_stateNames {mock name : CodeText} (h : name ∈ stateNames mock) :
    name.toList.head? = some (.ofChar '_') := by
  simp only [stateNames, List.mem_cons, List.not_mem_nil, or_false] at h
  rcases h with rfl | rfl | rfl | rfl
  · rfl
  · rfl
  · rw [CodeText.append_assoc, CodeText.toList_append]
    rfl
  · rw [CodeText.append_assoc, CodeText.toList_append]
    rfl

/-- Behind its first underscore an attribute of the cursor has another one, or it has the name of
the class. -/
theorem tail_of_mem_stateNames {typeName name : CodeText}
    (h : name ∈ stateNames (mockName typeName)) :
    name.toList.tail.head? = some (.ofChar '_') ∨ CodePoint.ofChar 'M' ∈ name.toList.tail := by
  have hkept (suffix : CodeText) :
      CodePoint.ofChar 'M' ∈ ("_" ++ mockName typeName ++ suffix).toList.tail := by
    rw [CodeText.append_assoc, CodeText.toList_append, CodeText.toList_append]
    show CodePoint.ofChar 'M' ∈ (mockName typeName).toList ++ suffix.toList
    exact List.mem_append_left _ (capital_mem_mockName typeName)
  simp only [stateNames, List.mem_cons, List.not_mem_nil, or_false] at h
  rcases h with rfl | rfl | rfl | rfl
  · exact .inl rfl
  · exact .inl rfl
  · exact .inr (hkept "__items")
  · exact .inr (hkept "__index")

theorem getLast_of_mem_stateNames {mock name : CodeText} (h : name ∈ stateNames mock) :
    name.toList.getLast? ≠ some (.ofChar 'k') := by
  simp only [stateNames, List.mem_cons, List.not_mem_nil, or_false] at h
  rcases h with rfl | rfl | rfl | rfl
  · decide
  · decide
  · rw [CodeText.toList_append, List.getLast?_append_of_ne_nil _ (by decide)]
    decide
  · rw [CodeText.toList_append, List.getLast?_append_of_ne_nil _ (by decide)]
    decide

theorem mockName_not_mem_stateNames (typeName mock : CodeText) :
    mockName typeName ∉ stateNames mock := by
  intro h
  apply getLast_of_mem_stateNames h
  rw [mockName, CodeText.toList_append, List.getLast?_append_of_ne_nil _ (by decide)]
  rfl

/-- A property keeps off the cursor of its class if its name is made for such a class and names are
compared as they are written. -/
theorem keepsOff_of_isPropertyName {p : CodeText} (h : IsPropertyName cursorNames p)
    (typeName : CodeText) : KeepsOff id (mockName typeName) p := by
  obtain ⟨hstorage, haccessor, hmutator⟩ := not_mem_cursorBound h
  constructor
  · intro own hmem heq
    obtain rfl : storageName p = own := heq
    rcases List.mem_append.mp hmem with hcursor | hstate
    · exact hstorage hcursor
    · have htail := tail_of_mem_stateNames hstate
      rw [toList_storageName] at htail
      rcases htail with hunderscore | hcapital
      · exact h.noUnderscore hunderscore
      · exact h.capital_not_mem hcapital
  · intro own hmem heq
    obtain rfl : p = own := heq
    rcases List.mem_append.mp hmem with hcursor | hstate
    · exact haccessor hcursor
    · exact h.noUnderscore (head_of_mem_stateNames hstate)
  · intro own hmem heq
    obtain rfl : mutatorName p = own := heq
    rcases List.mem_append.mp hmem with hcursor | hstate
    · exact hmutator hcursor
    · have hhead := head_of_mem_stateNames hstate
      rw [toList_mutatorName] at hhead
      exact absurd (Option.some.inj hhead) (by decide)
  · exact ⟨p.toList, toList_storageName p, h.noUnderscore⟩

/-- What keeps off the cursor as it is written keeps off it wherever it is read as it is written. -/
theorem KeepsOff.of_readAsWritten {read : CodeText → CodeText} {mock p : CodeText}
    (h : KeepsOff id mock p)
    (hread : ReadAsWritten read ([storageName p, p, mutatorName p] ++ ownNames mock)) :
    KeepsOff read mock p := by
  obtain ⟨hnames, hown⟩ := List.forall_mem_append.mp hread
  have hstorage := hnames (storageName p) List.mem_cons_self
  have haccessor := hnames p (List.mem_cons_of_mem _ List.mem_cons_self)
  have hmutator := hnames (mutatorName p) (List.mem_cons_of_mem _ (List.mem_cons_of_mem _
    List.mem_cons_self))
  constructor
  · intro own hmem
    rw [hstorage, hown own hmem]
    exact h.storage own hmem
  · intro own hmem
    rw [haccessor, hown own hmem]
    exact h.accessor own hmem
  · intro own hmem
    rw [hmutator, hown own hmem]
    exact h.mutator own hmem
  · rw [hstorage]
    exact h.oneUnderscore

/-! ### The classes of groups -/

theorem ClassBody.mem_boundNames_of_mem_propertyNames {body : ClassBody} {p : CodeText}
    (h : p ∈ body.propertyNames) :
    ∀ name ∈ [storageName p, p, mutatorName p], name ∈ body.boundNames := by
  simp only [List.forall_mem_cons, body.boundNames_perm.mem_iff, List.mem_append]
  exact ⟨.inl (List.mem_map_of_mem h), .inr (.inl h), .inr (.inr (.inl (List.mem_map_of_mem h))),
    List.forall_mem_nil _⟩

theorem ClassBody.mockName_mem_boundNames {body : ClassBody} {typeName : CodeText}
    (h : typeName ∈ body.groupNames) : mockName typeName ∈ body.boundNames := by
  simp only [body.boundNames_perm.mem_iff, List.mem_append]
  exact .inr (.inr (.inr (List.mem_map_of_mem h)))

/-- A class of a group with names of the right shape keeps its cursor. -/
theorem cursorKept_of_wellNamed {k : MockClass} (hgroup : k.isGroup = true)
    (h : k.body.WellNamed cursorNames) : CursorKept id k := by
  constructor
  · intro name hname
    have hbody : name ∉ k.body.boundNames := by
      intro hbound
      exact ne_of_mem_cursorBound h name hname name hbound rfl
    have hcursor : cursorBound.count name = 1 :=
      List.count_eq_one_of_mem (by decide) hname
    show (k.boundNames.map id).count name = 1
    rw [List.map_id, MockClass.boundNames, hgroup, if_pos rfl, List.count_append, hcursor,
      List.count_eq_zero_of_not_mem hbody]
  · intro p hp
    exact keepsOff_of_isPropertyName (h.propertyNames p hp) k.typeName
  · intro typeName _ own hmem heq
    obtain rfl : mockName typeName = own := heq
    rcases List.mem_append.mp hmem with hcursor | hstate
    · exact mockName_not_mem_cursorBound typeName hcursor
    · exact mockName_not_mem_stateNames typeName _ hstate

/-- A cursor that is kept as its class is written is kept wherever the names of the class are read
as they are written. -/
theorem CursorKept.of_readAsWritten {read : CodeText → CodeText} {k : MockClass}
    (h : CursorKept id k)
    (hread : ReadAsWritten read (k.boundNames ++ ownNames (mockName k.typeName))) :
    CursorKept read k := by
  obtain ⟨hbound, hown⟩ := List.forall_mem_append.mp hread
  have hbody : ReadAsWritten read k.body.boundNames :=
    fun name hname => hbound name (List.mem_append_right _ hname)
  constructor
  · intro name hname
    have hsame : k.boundNames.map read = k.boundNames.map id := List.map_congr_left hbound
    rw [hsame, hown name (List.mem_append_left _ hname)]
    exact h.once name hname
  · intro p hp
    refine (h.properties p hp).of_readAsWritten (List.forall_mem_append.mpr ⟨?_, hown⟩)
    exact fun name hname => hbody name (ClassBody.mem_boundNames_of_mem_propertyNames hp name hname)
  · intro typeName htype own hmem
    rw [hbody _ (ClassBody.mockName_mem_boundNames htype), hown own hmem]
    exact h.classes typeName htype own hmem

/-- The body of the class of a group whose class has the path `base`: the properties of its fields,
then what the groups nested in it add. -/
def groupBody (base : CodeText) (fields : List Token) (nested : GroupForest) : ClassBody :=
  .ofProperties (fieldProperties cursorNames fields) ++ forestBody base cursorNames nested

theorem ClassBody.classes_append (a b : ClassBody) :
    (a ++ b).classes = a.classes ++ b.classes := by
  show (a.append b).classes = _
  induction a with
  | nil => rfl
  | property p next ih => exact ih
  | group typeName base inner next _ ih =>
    simp only [append, classes, ih, List.append_assoc, List.cons_append]

theorem ClassBody.classes_ofProperties (ps : List Property) : (ofProperties ps).classes = [] := by
  induction ps with
  | nil => rfl
  | cons p ps ih => exact ih

/-- The classes in the body that a forest adds are those of its groups, at any depth. -/
theorem exists_group_of_mem_classes {parent : CodeText} {reserved : List CodeText}
    {forest : GroupForest} {k : MockClass} (h : k ∈ (forestBody parent reserved forest).classes) :
    k.isGroup = true ∧ ∃ fields nested, k.body = groupBody k.base fields nested := by
  induction forest generalizing parent reserved with
  | nil => cases h
  | group marker fields nested next ihNested ihNext =>
    rcases List.mem_cons.mp h with rfl | h
    · exact ⟨rfl, fields, nested, rfl⟩
    rcases List.mem_append.mp h with h | h
    · rw [ClassBody.classes_append, ClassBody.classes_ofProperties, List.nil_append] at h
      exact ihNested h
    · exact ihNext h

/-- Every class of a group of a catalog is made from the fields and the groups of that group. -/
theorem exists_group_of_mem_all {c : Catalog} {s : Stage} {k declared : MockClass}
    (hk : k ∈ classesOf c s) (h : declared ∈ k.all) (hgroup : declared.isGroup = true) :
    ∃ fields nested, declared.body = groupBody declared.base fields nested := by
  rcases List.mem_cons.mp h with rfl | h
  · cases isEmitted_of_mem_classesOf hk <;> cases hgroup
  · cases isEmitted_of_mem_classesOf hk with
    | composite name tokens =>
      change declared ∈ (ClassBody.ofProperties _).classes at h
      rw [ClassBody.classes_ofProperties] at h
      cases h
    | set name tokens =>
      change declared ∈ (ClassBody.ofProperties _).classes at h
      rw [ClassBody.classes_ofProperties] at h
      cases h
    | message name fields forest =>
      change declared ∈ (ClassBody.ofProperties _ ++ forestBody _ _ _).classes at h
      rw [ClassBody.classes_append, ClassBody.classes_ofProperties, List.nil_append] at h
      exact (exists_group_of_mem_classes h).2

/-! ### Cursors -/

/-- In the class of a group the names of the cursor stay reserved, whatever fields and nested groups
have been written there. -/
theorem reserved_openGroup_addForest (o : Outline) (names : GroupNames) (fields : List Token)
    (parent : CodeText) (nested : GroupForest) :
    (((o.openGroup names).addFields fields).addForest parent nested).current.reserved =
      cursorNames := by
  rw [reserved_addForest, Outline.reserved_openGroup_addFields]

/-- **The cursor of a group is not overridden by names that are read as they are written.** In every
class of a group of every module that is made, each name of the cursor is bound once, and what
fields and nested groups bind keeps off the cursor and its state, if the language reads these names
as they are written. The same goes for whatever name a field or a nested group may have that is
added to the class of a group later, when other groups have been written there. -/
theorem cursorKept_of_mem_modulesOf (read : CodeText → CodeText) :
    (∀ c s m, .ok (some m) ∈ modulesOf c s →
      ∃ k ∈ classesOf c s, m = classModule c.package k ∧
        ∀ declared ∈ k.all, declared.isGroup = true →
          (∃ depth, declared.lines.map (indented depth) <:+: k.lines) ∧
          List.Forall₂ Binds declared.members declared.boundNames ∧
          (∃ fields nested, declared.body = groupBody declared.base fields nested) ∧
          (ReadAsWritten read (declared.boundNames ++ ownNames (mockName declared.typeName)) →
            CursorKept read declared)) ∧
    (∀ (o : Outline) (group parent : CodeText) (fields : List Token) (nested : GroupForest),
      let names := GroupNames.of group parent
      let inside := ((o.openGroup names).addFields fields).addForest names.base nested
      let keepsOff (p : CodeText) : Prop :=
        ReadAsWritten read ([storageName p, p, mutatorName p] ++ ownNames names.mock) →
          KeepsOff read names.mock p
      (∀ name, keepsOff (propertyName name inside.current.reserved)) ∧
        ∀ name, keepsOff
          (groupProperty inside.current.reserved (GroupNames.of name names.base)).name) := by
  constructor
  · intro c s m hmade
    obtain ⟨k, hk, hmodule⟩ := exists_class_of_mem_modulesOf hmade
    have hnamed := wellNamed_of_mem_classesOf hk
    refine ⟨k, hk, hmodule, ?_⟩
    intro declared hdeclared hgroup
    have hreserved : declared.reserved = cursorNames := by
      rw [MockClass.reserved, hgroup, if_pos rfl]
    have hbody : declared.body.WellNamed cursorNames := by
      rw [← hreserved]
      rcases List.mem_cons.mp hdeclared with rfl | hinside
      · exact hnamed
      · exact hnamed.classes declared hinside
    refine ⟨k.lines_infix_of_mem_all hdeclared, declared.forall₂_binds,
      exists_group_of_mem_all hk hdeclared hgroup, ?_⟩
    exact (cursorKept_of_wellNamed hgroup hbody).of_readAsWritten
  · intro o group parent fields nested names inside keepsOff
    have hreserved : inside.current.reserved = cursorNames :=
      reserved_openGroup_addForest o names fields names.base nested
    have hkeeps {p : CodeText} (h : IsPropertyName cursorNames p) : keepsOff p :=
      (keepsOff_of_isPropertyName h names.className).of_readAsWritten
    rw [hreserved]
    constructor
    · intro name
      exact hkeeps (isPropertyName_propertyName name reservable_cursorNames)
    · intro name
      exact hkeeps (isPropertyName_groupProperty reservable_cursorNames name names.base)

/-! ### Full-width letters -/

/-- The character of ASCII that a full-width form stands for: the forms U+FF01 to U+FF5E follow the
order of the characters from `!` to `~`. -/
def narrow (p : CodePoint) : CodePoint :=
  if 0xFF01 ≤ p.toNat ∧ p.toNat ≤ 0xFF5E then .ofNat (p.toNat - 0xFEE0) else p

/-- A name as the language reads it when it holds nothing but ASCII and full-width forms. -/
def narrowed (name : CodeText) : CodeText :=
  .ofList (name.toList.map narrow)

/-- What stands in the class of a group that holds fields with these names. -/
def groupContent (group : CodeText) (fieldNames : List CodeText) (nested : List Token) :
    List Token :=
  ⟨.beginGroup, group, none⟩ ::
    (fieldNames.flatMap fun name =>
      [⟨.beginField, name, none⟩, ⟨.encoding, "uint8", some { primitive := .uint8 }⟩,
       ⟨.endField, name, none⟩]) ++ nested ++ [⟨.endGroup, group, none⟩]

/-- A catalog with a message of this content. -/
def messageCatalog (content : List Token) : Catalog :=
  .ofParts "n" [] [] [⟨.beginMessage, "Msg", none⟩ :: (content ++ [⟨.endMessage, "Msg", none⟩])]

theorem messageCatalog_made (content : List Token) :
    let k := messageClass ⟨.beginMessage, "Msg", none⟩ content
    .ok (some (classModule "n" k)) ∈ modulesOf (messageCatalog content) .messages ∧
      classesOf (messageCatalog content) .messages = [k] := by
  have hbody := body_enclosed ⟨.beginMessage, "Msg", none⟩ ⟨.endMessage, "Msg", none⟩ content
  constructor
  · have hmade := messageModule_mem_modulesOf (c := messageCatalog content)
      (List.mem_singleton_self _)
    rwa [hbody] at hmade
  · show [messageClass _ (body (_ :: (content ++ [_])))] = [_]
    rw [hbody]

/-- The content of a message with a group whose fields and nested groups are named after the cursor
and its state. -/
def rivalContent : List Token :=
  groupContent "rivals" ["__next", "has-Next"]
    [⟨.beginGroup, "__items", none⟩, ⟨.endGroup, "__items", none⟩,
     ⟨.beginGroup, "Remove", none⟩, ⟨.endGroup, "Remove", none⟩]

theorem rivalCatalog_cursorKept :
    let k := messageClass ⟨.beginMessage, "Msg", none⟩ rivalContent
    .ok (some (classModule "n" k)) ∈ modulesOf (messageCatalog rivalContent) .messages ∧
      classesOf (messageCatalog rivalContent) .messages = [k] ∧
      ∃ declared ∈ k.all, declared.isGroup = true ∧
        declared.body.propertyNames =
          (["next_", "has_next_", "items", "remove_"] : List CodeText) ∧
        ReadAsWritten narrowed
          (declared.boundNames ++ ownNames (mockName declared.typeName)) ∧
        CursorKept narrowed declared := by
  intro k
  obtain ⟨hmade, hclasses⟩ := messageCatalog_made rivalContent
  refine ⟨hmade, hclasses, ?_⟩
  obtain ⟨same, hsame, -, hkept⟩ := (cursorKept_of_mem_modulesOf narrowed).1 _ _ _ hmade
  rw [hclasses] at hsame
  obtain rfl := List.mem_singleton.mp hsame
  obtain ⟨declared, hdeclared, hgroup, hnames, hread⟩ : ∃ declared ∈ k.all,
      declared.isGroup = true ∧
        declared.body.propertyNames =
          (["next_", "has_next_", "items", "remove_"] : List CodeText) ∧
        ∀ name ∈ declared.boundNames ++ ownNames (mockName declared.typeName),
          narrowed name = name := by
    decide +kernel
  exact ⟨declared, hdeclared, hgroup, hnames, hread,
    (hkept declared hdeclared hgroup).2.2.2 hread⟩

/-- The content of a message with a group that has the fields `next` and `_items`, the letters of
the one and the underscore of the other in full width. -/
def fullWidthContent : List Token :=
  groupContent "legs" ["ｎｅｘｔ", "＿items"] []

/-- **A cursor that is lost.** The class of the group binds `next` twice as the language reads its
names, and the other field is stored under the name of the items of the cursor. -/
theorem fullWidth_overrides :
    let k := messageClass ⟨.beginMessage, "Msg", none⟩ fullWidthContent
    .ok (some (classModule "n" k)) ∈ modulesOf (messageCatalog fullWidthContent) .messages ∧
      ∃ declared ∈ k.all, declared.isGroup = true ∧
        declared.body.propertyNames = (["ｎｅｘｔ", "＿items"] : List CodeText) ∧
        (declared.boundNames.map narrowed).count ("next" : CodeText) = 2 ∧
        narrowed (storageName "＿items") = ("__items" : CodeText) ∧
        ¬ CursorKept narrowed declared := by
  intro k
  refine ⟨(messageCatalog_made fullWidthContent).1, ?_⟩
  obtain ⟨declared, hdeclared, hgroup, hnames, htwice⟩ : ∃ declared ∈ k.all,
      declared.isGroup = true ∧
        declared.body.propertyNames = (["ｎｅｘｔ", "＿items"] : List CodeText) ∧
        (declared.boundNames.map narrowed).count ("next" : CodeText) = 2 := by
    decide +kernel
  refine ⟨declared, hdeclared, hgroup, hnames, htwice, by decide +kernel, ?_⟩
  intro hkept
  have honce : (declared.boundNames.map narrowed).count ("next" : CodeText) = 1 :=
    hkept.once "next" (by decide)
  omega

end CodecMocks.Mock
