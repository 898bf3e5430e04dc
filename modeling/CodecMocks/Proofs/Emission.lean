import CodecMocks.Proofs.ClassBody

/-!
# What is emitted for a token range

Each kind of range has a class that is found without writing anything: `headerClass`, `typeClass?`
and `messageClass`, the last with `forestBody` for its groups. Writing the range is writing the
members of that class, and the module of the range is the printed class.

* `Outline.addForest_eq_addMembers`: the groups of a forest, with all classes opened and left in
  between, are the members of `forestBody`.
* `headerModule_eq`, `typeModule?_eq`, `messageModule_eq`: modules are printed classes. None of them
  fails on a range that is not empty, whatever its tokens are.
* `exists_class_of_mem_modulesOf`: every module made for a catalog is the printed module of one of
  its classes.
-/

namespace CodecMocks.Mock

open CodecMocks.Naming CodecMocks.Schema

/-- The body that a forest adds to the class at path `parent`, which has the members `reserved`: a
property and a class for each group. The class of a group holds the properties of its fields, then
what the groups nested in it add to it. -/
def forestBody (parent : CodeText) (reserved : List CodeText) : GroupForest → ClassBody
  | .nil => .nil
  | .group marker fields nested next =>
    let names := GroupNames.of marker.name parent
    .property (groupProperty reserved names)
      (.group names.className names.base
        (.ofProperties (fieldProperties cursorNames fields) ++
          forestBody names.base cursorNames nested)
        (forestBody parent reserved next))

/-- The body of the mock of a message with the given root fields and groups. -/
def messageBody (typeName : CodeText) (fields : List Token) (forest : GroupForest) : ClassBody :=
  .ofProperties (fieldProperties [] fields) ++ forestBody typeName [] forest

end CodecMocks.Mock

namespace CodecMocks.Outline

open CodecMocks.Mock CodecMocks.Naming CodecMocks.Schema

theorem reserved_addFields (o : Outline) (tokens : List Token) :
    (o.addFields tokens).current.reserved = o.current.reserved := by
  rw [addFields, addProperties_eq_addMembers, reserved_addMembers]

/-- Fields in the class of a group must not take the names of its cursor. -/
theorem reserved_openGroup_addFields (o : Outline) (names : GroupNames) (fields : List Token) :
    ((o.openGroup names).addFields fields).current.reserved = cursorNames := by
  rw [reserved_addFields]
  exact reserved_addMembers _ _

/-- What is written inside the class of a group is one run of members: its cursor, its fields, and
what the groups nested in it add. -/
theorem openGroup_addFields_addMembers (o : Outline) (group parent : CodeText) (fields : List Token)
    (nested : ClassBody) :
    ((o.openGroup (GroupNames.of group parent)).addFields fields).addMembers nested.members =
      ((o.openClass (className group) (GroupNames.of group parent).base).reserve
        cursorNames).addMembers
        (cursorMembers (mockName (className group)) (GroupNames.of group parent).base ++
          (ClassBody.ofProperties (fieldProperties cursorNames fields) ++ nested).members) := by
  have hreserved : (o.openGroup (GroupNames.of group parent)).current.reserved = cursorNames :=
    reserved_addMembers _ _
  rw [addFields, hreserved, addProperties_eq_addMembers, addMembers_append,
    ClassBody.members_append, ClassBody.members_ofProperties, addMembers_append]
  rfl

/-- Writing the groups of a forest is writing the members of the body that the forest adds. -/
theorem addForest_eq_addMembers (o : Outline) (parent : CodeText) (forest : GroupForest) :
    o.addForest parent forest =
      o.addMembers (forestBody parent o.current.reserved forest).members := by
  induction forest generalizing o parent with
  | nil => rfl
  | group marker fields nested next ihNested ihNext =>
    let names := GroupNames.of marker.name parent
    let held := o.addProperty (groupProperty o.current.reserved names)
    let inner := ClassBody.ofProperties (fieldProperties cursorNames fields) ++
      forestBody names.base cursorNames nested
    have hreserved : ((held.openGroup names).addFields fields).current.reserved = cursorNames :=
      reserved_openGroup_addFields held names fields
    have hclass : (((held.openGroup names).addFields fields).addForest names.base nested).leave =
        held.addMember (classLines names.className names.base
          (cursorMembers names.mock names.base ++ inner.members)) := by
      rw [ihNested, hreserved, openGroup_addFields_addMembers]
      apply leave_addMembers_openClass
      intro m hm
      rcases List.mem_append.mp hm with hm | hm
      · exact isMember_of_mem_cursorMembers hm
      · exact ClassBody.isMember_of_mem hm
    have hheld : held.current.reserved = o.current.reserved := reserved_addMembers _ _
    calc o.addForest parent (.group marker fields nested next)
      _ = (held.addMember (classLines names.className names.base
            (cursorMembers names.mock names.base ++ inner.members))).addForest parent next := by
          rw [← hclass]
          rfl
      _ = o.addMembers (forestBody parent o.current.reserved
            (.group marker fields nested next)).members := by
          rw [ihNext, reserved_addMember, hheld]
          exact (addMembers_append o (groupProperty o.current.reserved names).members
            (classLines names.className names.base
              (cursorMembers names.mock names.base ++ inner.members) ::
              (forestBody parent o.current.reserved next).members)).symm

end CodecMocks.Outline

namespace CodecMocks.Mock

open CodecMocks.Schema CodecMocks.Naming

/-! ### The classes of a catalog -/

/-- The mock class of the message header. -/
def headerClass (header : List Token) : MockClass :=
  .plain headerTypeName (.ofProperties (compositeProperties [] (body header)))

/-- The mock class of a type: sets and composites have one. -/
def typeClass? : List Token → Option MockClass
  | [] => none
  | t :: ts =>
    match t.signal with
    | .beginSet =>
      some (.plain (className t.name) (.ofProperties (choiceProperties [] (body (t :: ts)))))
    | .beginComposite =>
      some (.plain (className t.name) (.ofProperties (compositeProperties [] (body (t :: ts)))))
    | _ => none

/-- The mock class of a message that begins with the token `t`. -/
def messageClass (t : Token) (content : List Token) : MockClass :=
  .plain (className t.name)
    (messageBody (className t.name) (rootFields content).1 (GroupForest.read (groups content).1).1)

/-- The mock class of a message range, which is not empty. -/
def messageClass? : List Token → Option MockClass
  | [] => none
  | t :: ts => some (messageClass t (body (t :: ts)))

/-- The mock classes that a stage makes modules for, in order. -/
def classesOf (c : Catalog) : Stage → List MockClass
  | .header => [headerClass c.header]
  | .types => c.types.filterMap typeClass?
  | .messages => c.messages.filterMap messageClass?
  | .all =>
    headerClass c.header :: c.types.filterMap typeClass? ++ c.messages.filterMap messageClass?

/-- The mock classes that any catalog may have: those of composites, to which the message header
counts, of sets and of messages. -/
inductive IsEmitted : MockClass → Prop where
  | composite (name : CodeText) (tokens : List Token) :
      IsEmitted (.plain (className name) (.ofProperties (compositeProperties [] tokens)))
  | set (name : CodeText) (tokens : List Token) :
      IsEmitted (.plain (className name) (.ofProperties (choiceProperties [] tokens)))
  | message (name : CodeText) (fields : List Token) (forest : GroupForest) :
      IsEmitted (.plain (className name) (messageBody (className name) fields forest))

theorem isEmitted_headerClass (header : List Token) : IsEmitted (headerClass header) := by
  have hname : headerTypeName = className headerTypeName := by decide +kernel
  rw [headerClass, hname]
  exact .composite headerTypeName (body header)

/-- The types that have a class. -/
theorem exists_of_typeClass? {tokens : List Token} {k : MockClass}
    (h : typeClass? tokens = some k) :
    ∃ t ts, tokens = t :: ts ∧
      (t.signal = .beginSet ∧
          k = .plain (className t.name) (.ofProperties (choiceProperties [] (body tokens))) ∨
        t.signal = .beginComposite ∧
          k = .plain (className t.name)
            (.ofProperties (compositeProperties [] (body tokens)))) := by
  cases tokens with
  | nil => cases h
  | cons t ts =>
    refine ⟨t, ts, rfl, ?_⟩
    cases hsignal : t.signal with
    | beginSet =>
      simp only [typeClass?, hsignal] at h
      exact .inl ⟨rfl, (Option.some.inj h).symm⟩
    | beginComposite =>
      simp only [typeClass?, hsignal] at h
      exact .inr ⟨rfl, (Option.some.inj h).symm⟩
    | _ => simp [typeClass?, hsignal] at h

theorem isEmitted_of_typeClass? {tokens : List Token} {k : MockClass}
    (h : typeClass? tokens = some k) : IsEmitted k := by
  obtain ⟨t, ts, -, ⟨-, rfl⟩ | ⟨-, rfl⟩⟩ := exists_of_typeClass? h
  · exact .set t.name (body tokens)
  · exact .composite t.name (body tokens)

theorem isEmitted_of_messageClass? {tokens : List Token} {k : MockClass}
    (h : messageClass? tokens = some k) : IsEmitted k := by
  cases tokens with
  | nil => cases h
  | cons t ts =>
    rw [← Option.some.inj h]
    exact .message t.name _ _

theorem mem_classesOf_all {c : Catalog} {s : Stage} {k : MockClass} (h : k ∈ classesOf c s) :
    k ∈ classesOf c .all := by
  cases s with
  | header =>
    rw [List.mem_singleton.mp h]
    exact List.mem_cons_self
  | types => exact List.mem_cons_of_mem _ (List.mem_append_left _ h)
  | messages => exact List.mem_cons_of_mem _ (List.mem_append_right _ h)
  | all => exact h

/-- Every class is that of the header, of a type or of a message. -/
theorem exists_of_mem_classesOf {c : Catalog} {s : Stage} {k : MockClass} (h : k ∈ classesOf c s) :
    k = headerClass c.header ∨ (∃ tokens ∈ c.types, typeClass? tokens = some k) ∨
      ∃ tokens ∈ c.messages, messageClass? tokens = some k := by
  rcases List.mem_cons.mp (mem_classesOf_all h) with hheader | h
  · exact .inl hheader
  · rcases List.mem_append.mp h with h | h
    · exact .inr (.inl (List.mem_filterMap.mp h))
    · exact .inr (.inr (List.mem_filterMap.mp h))

/-- Whatever the tokens of a catalog are, its classes are of the three kinds. -/
theorem isEmitted_of_mem_classesOf {c : Catalog} {s : Stage} {k : MockClass}
    (h : k ∈ classesOf c s) : IsEmitted k := by
  rcases exists_of_mem_classesOf h with rfl | ⟨tokens, -, hclass⟩ | ⟨tokens, -, hclass⟩
  · exact isEmitted_headerClass c.header
  · exact isEmitted_of_typeClass? hclass
  · exact isEmitted_of_messageClass? hclass

/-- A module whose class holds properties only. -/
theorem moduleOf_properties {package typeName : CodeText} {fill : Outline → Outline}
    {ps : List Property}
    (h : fill ((Outline.root "").openClass typeName typeName) =
      ((Outline.root "").openClass typeName typeName).addProperties ps) :
    moduleOf package typeName fill =
      .ok (classModule package (.plain typeName (.ofProperties ps))) := by
  apply moduleOf_eq_classModule
  rw [h, Outline.addProperties_eq_addMembers, ClassBody.members_ofProperties]

theorem setModule_eq (package typeName : CodeText) (tokens : List Token) :
    moduleOf package typeName (·.addChoices tokens) =
      .ok (classModule package (.plain typeName (.ofProperties (choiceProperties [] tokens)))) :=
  moduleOf_properties rfl

theorem compositeModule_eq (package typeName : CodeText) (tokens : List Token) :
    moduleOf package typeName (·.addComposite tokens) =
      .ok (classModule package (.plain typeName (.ofProperties (compositeProperties [] tokens)))) :=
  moduleOf_properties rfl

theorem headerModule_eq (package : CodeText) (header : List Token) :
    headerModule package header = .ok (classModule package (headerClass header)) :=
  compositeModule_eq package headerTypeName (body header)

theorem typeModule?_eq {package : CodeText} {tokens : List Token} (h : tokens ≠ []) :
    typeModule? package tokens = .ok ((typeClass? tokens).map (classModule package)) := by
  cases tokens with
  | nil => exact absurd rfl h
  | cons t ts =>
    cases hsignal : t.signal <;>
      simp [typeModule?, typeClass?, hsignal, setModule_eq, compositeModule_eq, Except.map]

/-- The members of a message are its root fields, then its groups. -/
theorem fillMessage_eq {o : Outline} (h : o.current.reserved = []) (typeName : CodeText)
    (tokens : List Token) :
    fillMessage typeName tokens o =
      o.addMembers (messageBody typeName (rootFields tokens).1
        (GroupForest.read (groups tokens).1).1).members := by
  have hfields : o.addFields (rootFields tokens).1 =
      o.addMembers ((fieldProperties [] (rootFields tokens).1).flatMap Property.members) := by
    rw [Outline.addFields, h, Outline.addProperties_eq_addMembers]
  rw [messageBody, ClassBody.members_append, ClassBody.members_ofProperties,
    Outline.addMembers_append, ← hfields]
  show (o.addFields (rootFields tokens).1).addForest typeName
    (GroupForest.read (groups tokens).1).1 = _
  rw [Outline.addForest_eq_addMembers, hfields, Outline.reserved_addMembers, h]

theorem messageModule_eq (package : CodeText) (t : Token) (ts : List Token) :
    messageModule package (t :: ts) =
      .ok (classModule package (messageClass t (body (t :: ts)))) :=
  moduleOf_eq_classModule (fillMessage_eq rfl _ _)

/-- The module of a message of a catalog is made. -/
theorem messageModule_mem_modulesOf {c : Catalog} {t : Token} {ts : List Token}
    (h : t :: ts ∈ c.messages) :
    .ok (some (classModule c.package (messageClass t (body (t :: ts))))) ∈
      modulesOf c .messages := by
  refine List.mem_map.mpr ⟨t :: ts, h, ?_⟩
  rw [messageModule_eq]
  rfl

/-- Every module that is made is the printed module of one of the catalog's classes. -/
theorem exists_class_of_mem_modulesOf {c : Catalog} {s : Stage} {m : MockModule}
    (h : .ok (some m) ∈ modulesOf c s) : ∃ k ∈ classesOf c s, m = classModule c.package k := by
  have htypes : .ok (some m) ∈ typeModules c →
      ∃ k ∈ c.types.filterMap typeClass?, m = classModule c.package k := by
    intro h
    obtain ⟨tokens, hmem, hmade⟩ := List.mem_map.mp h
    cases tokens with
    | nil => cases hmade
    | cons t ts =>
      rw [typeModule?_eq (List.cons_ne_nil t ts)] at hmade
      obtain ⟨k, hk, hm⟩ := Option.map_eq_some_iff.mp (Except.ok.inj hmade)
      exact ⟨k, List.mem_filterMap.mpr ⟨_, hmem, hk⟩, hm.symm⟩
  have hmessages : .ok (some m) ∈ messageModules c →
      ∃ k ∈ c.messages.filterMap messageClass?, m = classModule c.package k := by
    intro h
    obtain ⟨tokens, hmem, hmade⟩ := List.mem_map.mp h
    cases tokens with
    | nil => cases hmade
    | cons t ts =>
      rw [messageModule_eq] at hmade
      cases hmade
      exact ⟨_, List.mem_filterMap.mpr ⟨_, hmem, rfl⟩, rfl⟩
  have hheader : .ok (some m) = (headerModule c.package c.header).map some →
      m = classModule c.package (headerClass c.header) := by
    intro h
    rw [headerModule_eq] at h
    cases h
    rfl
  cases s with
  | header => exact ⟨_, List.mem_singleton_self _, hheader (List.mem_singleton.mp h)⟩
  | types => exact htypes h
  | messages => exact hmessages h
  | all =>
    rcases List.mem_cons.mp h with h | h
    · exact ⟨_, List.mem_cons_self, hheader h⟩
    rcases List.mem_append.mp h with h | h
    · obtain ⟨k, hk, hm⟩ := htypes h
      exact ⟨k, List.mem_cons_of_mem _ (List.mem_append_left _ hk), hm⟩
    · obtain ⟨k, hk, hm⟩ := hmessages h
      exact ⟨k, List.mem_cons_of_mem _ (List.mem_append_right _ hk), hm⟩

end CodecMocks.Mock
