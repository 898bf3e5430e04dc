import CodecMocks.Proofs.Emission
import CodecMocks.Proofs.PropertyNames
import Mathlib.Data.List.Forall2
import Mathlib.Data.List.Nodup

/-!
# The names bound in a class

Every member of a class binds one name: a property has three members, a group has its class, and the
class of a group has the seven members of its cursor. Two names meet in one way only: a property may
be named like the mutator of another. Names are compared as they are written, not by the normal form
(NFKC) in which the language compares identifiers.

* `MockClass.forall₂_binds`: the members of a class and the names that they bind.
* `ClassBody.boundNames_perm`: the bound names by what they are bound to.
* `MockClass.boundNames_nodup_iff`: when the names bound in a class are distinct.
* `boundNames_nodup_iff_of_mem_modulesOf`: the same for every class of every module.
-/

namespace CodecMocks.Mock

open CodecMocks.Layout CodecMocks.Naming CodecMocks.Schema

/-! ### Bound names -/

/-- A member binds a name: it declares a variable, a function or a class of this name. -/
inductive Binds : List CodeText → CodeText → Prop where
  | variable (v : TypedVariable) (rest : List CodeText) : Binds (v.text :: rest) v.name
  | function (name : CodeText) (parameters : List Parameter) (returns : CodeText)
      (rest : List CodeText) : Binds (functionHeading name parameters returns :: rest) name
  | nestedClass (name : CodeText) (bases : List Parameter) (rest : List CodeText) :
      Binds (classHeading name bases :: rest) name

/-- The names that the cursor of a group binds. -/
def cursorBound : List CodeText :=
  ["__init__", "count", "has_next", "next", "remove", "__iter__", "__next__"]

namespace ClassBody

/-- The names that a body binds in order. -/
def boundNames : ClassBody → List CodeText
  | .nil => []
  | .property p next => [storageName p.name, p.name, mutatorName p.name] ++ next.boundNames
  | .group typeName _ _ next => mockName typeName :: next.boundNames

/-- The names of the properties of a body. -/
def propertyNames : ClassBody → List CodeText
  | .nil => []
  | .property p next => p.name :: next.propertyNames
  | .group _ _ _ next => next.propertyNames

/-- The names of the classes that the groups of a body mock. -/
def groupNames : ClassBody → List CodeText
  | .nil => []
  | .property _ next => next.groupNames
  | .group typeName _ _ next => typeName :: next.groupNames

end ClassBody

namespace MockClass

/-- The names bound in a class, those of its cursor first, as they are written: two that differ here
may have one normal form (NFKC), and the language then reads them as the same name. -/
def boundNames (k : MockClass) : List CodeText :=
  (if k.isGroup then cursorBound else []) ++ k.body.boundNames

/-- The names that properties of the class must not take. -/
def reserved (k : MockClass) : List CodeText :=
  if k.isGroup then cursorNames else []

end MockClass

theorem Property.forall₂_binds (p : Property) :
    List.Forall₂ Binds p.members [storageName p.name, p.name, mutatorName p.name] :=
  .cons (.variable { name := storageName p.name, hint := p.storedHint, initial := p.initial } [])
    (.cons (.function ..) (.cons (.function ..) .nil))

theorem forall₂_binds_cursorMembers (mock base : CodeText) :
    List.Forall₂ Binds (cursorMembers mock base) cursorBound := by
  unfold cursorMembers cursorBound
  exact .cons (.function ..) (.cons (.function ..) (.cons (.function ..) (.cons (.function ..)
    (.cons (.function ..) (.cons (.function ..) (.cons (.function ..) .nil))))))

theorem ClassBody.forall₂_binds (body : ClassBody) :
    List.Forall₂ Binds body.members body.boundNames := by
  induction body with
  | nil => exact .nil
  | property p next ih => exact List.rel_append p.forall₂_binds ih
  | group typeName base inner next _ ih => exact .cons (.nestedClass ..) ih

/-- Each member of a class binds the name at its place. -/
theorem MockClass.forall₂_binds (k : MockClass) :
    List.Forall₂ Binds k.members k.boundNames := by
  unfold MockClass.members MockClass.boundNames
  cases k.isGroup with
  | true => exact List.rel_append (forall₂_binds_cursorMembers _ _) k.body.forall₂_binds
  | false => exact k.body.forall₂_binds

/-! ### Classes with names of the right shape -/

/-- Properties have names that can be used where they are declared, also in the classes of
groups. -/
def ClassBody.WellNamed (reserved : List CodeText) : ClassBody → Prop
  | .nil => True
  | .property p next => IsPropertyName reserved p.name ∧ next.WellNamed reserved
  | .group _ _ inner next => inner.WellNamed cursorNames ∧ next.WellNamed reserved

namespace ClassBody

theorem WellNamed.append {reserved : List CodeText} {a b : ClassBody} (ha : a.WellNamed reserved)
    (hb : b.WellNamed reserved) : (a ++ b).WellNamed reserved := by
  show (a.append b).WellNamed reserved
  induction a with
  | nil => exact hb
  | property p next ih => exact ⟨ha.1, ih ha.2⟩
  | group typeName base inner next _ ih => exact ⟨ha.1, ih ha.2⟩

theorem wellNamed_ofProperties {reserved : List CodeText} {ps : List Property}
    (h : ∀ p ∈ ps, IsPropertyName reserved p.name) : (ofProperties ps).WellNamed reserved := by
  induction ps with
  | nil => trivial
  | cons p ps ih =>
    exact ⟨h p List.mem_cons_self, ih fun q hq => h q (List.mem_cons_of_mem p hq)⟩

theorem wellNamed_forestBody {reserved : List CodeText} (hreserved : Reservable reserved)
    (parent : CodeText) (forest : GroupForest) :
    (forestBody parent reserved forest).WellNamed reserved := by
  induction forest generalizing reserved parent with
  | nil => trivial
  | group marker fields nested next ihNested ihNext =>
    refine ⟨isPropertyName_groupProperty hreserved marker.name parent, ?_, ?_⟩
    · apply WellNamed.append
      · exact wellNamed_ofProperties fun p hp =>
          (isMade_of_mem_fieldProperties hp).isPropertyName reservable_cursorNames
      · exact ihNested reservable_cursorNames _
    · exact ihNext hreserved parent

theorem WellNamed.propertyNames {reserved : List CodeText} {body : ClassBody}
    (h : body.WellNamed reserved) : ∀ p ∈ body.propertyNames, IsPropertyName reserved p := by
  induction body with
  | nil => exact fun _ hp => (List.not_mem_nil hp).elim
  | property q next ih =>
    intro p hp
    rcases List.mem_cons.mp hp with rfl | hp
    · exact h.1
    · exact ih h.2 p hp
  | group typeName base inner next _ ih => exact ih h.2

theorem WellNamed.classes {reserved : List CodeText} {body : ClassBody}
    (h : body.WellNamed reserved) : ∀ k ∈ body.classes, k.body.WellNamed k.reserved := by
  induction body generalizing reserved with
  | nil => exact fun _ hk => (List.not_mem_nil hk).elim
  | property p next ih => exact ih h.2
  | group typeName base inner next ihInner ihNext =>
    intro k hk
    rcases List.mem_cons.mp hk with rfl | hk
    · exact h.1
    · rcases List.mem_append.mp hk with hk | hk
      · exact ihInner h.1 k hk
      · exact ihNext h.2 k hk

end ClassBody

/-- The classes of a catalog, whatever its tokens are. -/
theorem wellNamed_of_mem_classesOf {c : Catalog} {s : Stage} {k : MockClass}
    (h : k ∈ classesOf c s) : k.body.WellNamed k.reserved := by
  cases isEmitted_of_mem_classesOf h with
  | composite name tokens =>
    apply ClassBody.wellNamed_ofProperties
    intro p hp
    exact (isMade_of_mem_compositeProperties hp).isPropertyName reservable_nil
  | set name tokens =>
    apply ClassBody.wellNamed_ofProperties
    intro p hp
    exact (isMade_of_mem_choiceProperties hp).isPropertyName reservable_nil
  | message name fields forest =>
    apply ClassBody.WellNamed.append
    · apply ClassBody.wellNamed_ofProperties
      intro p hp
      exact (isMade_of_mem_fieldProperties hp).isPropertyName reservable_nil
    · exact ClassBody.wellNamed_forestBody reservable_nil (className name) forest

/-! ### Where names meet -/

/-- No name that a cursor binds is one of the three that a property of its class binds. -/
theorem not_mem_cursorBound {p : CodeText} (h : IsPropertyName cursorNames p) :
    storageName p ∉ cursorBound ∧ p ∉ cursorBound ∧ mutatorName p ∉ cursorBound := by
  refine ⟨?_, ?_, ?_⟩
  · intro hmem
    have hunderscores : ∀ n ∈ cursorBound,
        n.toList.head? ≠ some (.ofChar '_') ∨ n.toList.tail.head? = some (.ofChar '_') := by decide
    rcases hunderscores _ hmem with hhead | htail
    · rw [toList_storageName] at hhead
      exact hhead rfl
    · rw [toList_storageName] at htail
      exact h.noUnderscore htail
  · intro hmem
    have hpublic :
      ∀ n ∈ cursorBound, n ∈ cursorNames ∨ n.toList.head? = some (.ofChar '_') := by decide
    rcases hpublic p hmem with hreserved | hhead
    · exact h.free hreserved
    · exact h.noUnderscore hhead
  · intro hmem
    have hstart : ∀ n ∈ cursorBound, n.toList.head? ≠ some (.ofChar 's') := by decide
    apply hstart _ hmem
    rw [toList_mutatorName]
    rfl

theorem mockName_not_mem_cursorBound (typeName : CodeText) : mockName typeName ∉ cursorBound := by
  intro hmem
  have hsmall : ∀ n ∈ cursorBound, CodePoint.ofChar 'M' ∉ n.toList := by decide
  exact hsmall _ hmem (capital_mem_mockName typeName)

/-- The names that a body binds, sorted by what they are bound to. -/
theorem ClassBody.boundNames_perm (body : ClassBody) :
    body.boundNames.Perm
      (body.propertyNames.map storageName ++
        (body.propertyNames ++
          (body.propertyNames.map mutatorName ++ body.groupNames.map mockName))) := by
  induction body with
  | nil => exact .nil
  | property p next ih =>
    let storages := next.propertyNames.map storageName
    let mutators := next.propertyNames.map mutatorName
    let mocks := next.groupNames.map mockName
    have hmutator : (mutatorName p.name :: next.boundNames).Perm
        (storages ++ (next.propertyNames ++ (mutatorName p.name :: mutators ++ mocks))) := by
      rw [← List.append_assoc]
      refine .trans ?_ List.perm_middle.symm
      rw [List.append_assoc]
      exact ih.cons _
    have haccessor : (p.name :: mutatorName p.name :: next.boundNames).Perm
        (storages ++ (p.name :: next.propertyNames ++ (mutatorName p.name :: mutators ++ mocks))) :=
      .trans (hmutator.cons _) List.perm_middle.symm
    exact haccessor.cons _
  | group typeName base inner next _ ih =>
    show (mockName typeName :: next.boundNames).Perm (_ ++ (_ ++ (_ ++ mockName typeName :: _)))
    rw [← List.append_assoc, ← List.append_assoc]
    refine .trans (ih.cons _) ?_
    rw [← List.append_assoc, ← List.append_assoc]
    exact List.perm_middle.symm

/-- The names that a body binds are distinct if those of its properties and classes are and no
property is named like the mutator of another. -/
theorem ClassBody.boundNames_nodup_iff {reserved : List CodeText} {body : ClassBody}
    (h : body.WellNamed reserved) :
    body.boundNames.Nodup ↔
      body.propertyNames.Nodup ∧ body.groupNames.Nodup ∧
        ∀ p ∈ body.propertyNames, mutatorName p ∉ body.propertyNames := by
  have hnames := h.propertyNames
  have hmutators : ∀ a ∈ body.propertyNames.map mutatorName, ∀ b ∈ body.groupNames.map mockName,
      a ≠ b := by
    intro a ha b hb
    obtain ⟨p, hp, rfl⟩ := List.mem_map.mp ha
    obtain ⟨typeName, -, rfl⟩ := List.mem_map.mp hb
    exact (hnames p hp).mutatorName_ne_mockName typeName
  have hstorages : ∀ a ∈ body.propertyNames.map storageName, ∀ b ∈ body.propertyNames ++
      (body.propertyNames.map mutatorName ++ body.groupNames.map mockName), a ≠ b := by
    intro a ha b hb
    obtain ⟨p, hp, rfl⟩ := List.mem_map.mp ha
    rcases List.mem_append.mp hb with hb | hb
    · exact ((hnames b hb).ne_storageName p).symm
    rcases List.mem_append.mp hb with hb | hb
    · obtain ⟨q, -, rfl⟩ := List.mem_map.mp hb
      exact storageName_ne_mutatorName p q
    · obtain ⟨typeName, -, rfl⟩ := List.mem_map.mp hb
      exact (hnames p hp).storageName_ne_mockName typeName
  rw [body.boundNames_perm.nodup_iff, List.nodup_append, List.nodup_append, List.nodup_append,
    List.nodup_map_iff storageName_injective, List.nodup_map_iff mutatorName_injective,
    List.nodup_map_iff mockName_injective]
  constructor
  · rintro ⟨hproperties, ⟨-, ⟨-, hgroups, -⟩, haccessors⟩, -⟩
    refine ⟨hproperties, hgroups, ?_⟩
    intro p hp hmutator
    exact haccessors _ hmutator _
      (List.mem_append_left _ (List.mem_map_of_mem hp)) rfl
  · rintro ⟨hproperties, hgroups, hfree⟩
    refine ⟨hproperties, ⟨hproperties, ⟨hproperties, hgroups, hmutators⟩, ?_⟩, hstorages⟩
    intro p hp b hb
    rcases List.mem_append.mp hb with hb | hb
    · obtain ⟨q, hq, rfl⟩ := List.mem_map.mp hb
      rintro rfl
      exact hfree q hq hp
    · obtain ⟨typeName, -, rfl⟩ := List.mem_map.mp hb
      exact (hnames p hp).ne_mockName typeName

/-- The cursor of a group gets in the way of none of the other names. -/
theorem ne_of_mem_cursorBound {body : ClassBody} (h : body.WellNamed cursorNames) :
    ∀ a ∈ cursorBound, ∀ b ∈ body.boundNames, a ≠ b := by
  have hnames := h.propertyNames
  rintro a ha b hb rfl
  rw [body.boundNames_perm.mem_iff] at hb
  rcases List.mem_append.mp hb with hb | hb
  · obtain ⟨p, hp, rfl⟩ := List.mem_map.mp hb
    exact (not_mem_cursorBound (hnames p hp)).1 ha
  rcases List.mem_append.mp hb with hb | hb
  · exact (not_mem_cursorBound (hnames a hb)).2.1 ha
  rcases List.mem_append.mp hb with hb | hb
  · obtain ⟨p, hp, rfl⟩ := List.mem_map.mp hb
    exact (not_mem_cursorBound (hnames p hp)).2.2 ha
  · obtain ⟨typeName, -, rfl⟩ := List.mem_map.mp hb
    exact mockName_not_mem_cursorBound typeName ha

theorem MockClass.boundNames_nodup_iff {k : MockClass} (h : k.body.WellNamed k.reserved) :
    k.boundNames.Nodup ↔
      k.body.propertyNames.Nodup ∧ k.body.groupNames.Nodup ∧
        ∀ p ∈ k.body.propertyNames, mutatorName p ∉ k.body.propertyNames := by
  have hcursor : k.boundNames.Nodup ↔ k.body.boundNames.Nodup := by
    unfold MockClass.boundNames
    cases hgroup : k.isGroup with
    | false => exact Iff.rfl
    | true =>
      rw [MockClass.reserved, hgroup] at h
      rw [if_pos rfl, List.nodup_append]
      constructor
      · rintro ⟨-, hbody, -⟩
        exact hbody
      · intro hbody
        exact ⟨by decide, hbody, ne_of_mem_cursorBound h⟩
  exact hcursor.trans (ClassBody.boundNames_nodup_iff h)

/-- **When the members of a class replace each other.** In every class of every module that is made,
if the names of its properties are distinct and so are those of the classes of its groups, the names
bound in the class are distinct exactly when no property is named like the mutator of another. -/
theorem boundNames_nodup_iff_of_mem_modulesOf {c : Catalog} {s : Stage} {m : MockModule}
    (h : .ok (some m) ∈ modulesOf c s) :
    ∃ k ∈ classesOf c s, m = classModule c.package k ∧
      ∀ declared ∈ k.all,
        (∃ depth, declared.lines.map (indented depth) <:+: k.lines) ∧
        List.Forall₂ Binds declared.members declared.boundNames ∧
        (declared.boundNames.Nodup ↔
          declared.body.propertyNames.Nodup ∧ declared.body.groupNames.Nodup ∧
            ∀ p ∈ declared.body.propertyNames, mutatorName p ∉ declared.body.propertyNames) := by
  obtain ⟨k, hk, hmodule⟩ := exists_class_of_mem_modulesOf h
  have hnamed := wellNamed_of_mem_classesOf hk
  refine ⟨k, hk, hmodule, ?_⟩
  intro declared hdeclared
  refine ⟨k.lines_infix_of_mem_all hdeclared, declared.forall₂_binds, ?_⟩
  rcases List.mem_cons.mp hdeclared with rfl | hinside
  · exact MockClass.boundNames_nodup_iff hnamed
  · exact MockClass.boundNames_nodup_iff (hnamed.classes declared hinside)

/-- The fields of a message of which one is named like the mutator of the other. -/
def setterFields : List Token :=
  [⟨.beginField, "x", none⟩, ⟨.encoding, "uint8", some { primitive := .uint8 }⟩,
   ⟨.endField, "x", none⟩,
   ⟨.beginField, "set_x", none⟩, ⟨.encoding, "uint8", some { primitive := .uint8 }⟩,
   ⟨.endField, "set_x", none⟩]

/-- A catalog with this message only. -/
def setterCatalog : Catalog :=
  .ofParts "n" [] [] [⟨.beginMessage, "Msg", none⟩ :: setterFields ++ [⟨.endMessage, "Msg", none⟩]]

theorem setterModule_mem :
    .ok (some (classModule "n" (messageClass ⟨.beginMessage, "Msg", none⟩ setterFields))) ∈
      modulesOf setterCatalog .messages := by
  rw [← body_enclosed ⟨.beginMessage, "Msg", none⟩ ⟨.endMessage, "Msg", none⟩ setterFields]
  exact messageModule_mem_modulesOf (c := setterCatalog) (List.mem_singleton_self _)

/-- Two members of one class replace each other although all properties have different names. -/
theorem setter_replaced :
    let k := messageClass ⟨.beginMessage, "Msg", none⟩ setterFields
    .ok (some (classModule "n" k)) ∈ modulesOf setterCatalog .messages ∧
      k.body.propertyNames = (["x", "set_x"] : List CodeText) ∧ k.body.groupNames = [] ∧
      k.boundNames =
        (["_x", "x", "set_x", "_set_x", "set_x", "set_set_x"] : List CodeText) ∧
      ¬ k.boundNames.Nodup := by
  intro k
  have hnames : k.boundNames =
        (["_x", "x", "set_x", "_set_x", "set_x", "set_set_x"] : List CodeText) := by
    decide +kernel
  refine ⟨setterModule_mem, by decide +kernel, by decide +kernel, hnames, ?_⟩
  rw [hnames]
  decide

theorem setterCatalog_nodup_iff :
    .ok (some (classModule "n" (messageClass ⟨.beginMessage, "Msg", none⟩ setterFields))) ∈
        modulesOf setterCatalog .messages ∧
      ∃ k ∈ classesOf setterCatalog .messages,
        k.boundNames.Nodup ↔
          k.body.propertyNames.Nodup ∧ k.body.groupNames.Nodup ∧
            ∀ p ∈ k.body.propertyNames, mutatorName p ∉ k.body.propertyNames := by
  refine ⟨setterModule_mem, ?_⟩
  obtain ⟨k, hk, -, hdeclared⟩ := boundNames_nodup_iff_of_mem_modulesOf setterModule_mem
  exact ⟨k, hk, (hdeclared k List.mem_cons_self).2.2⟩

end CodecMocks.Mock
