import CodecMocks.Proofs.GroupLocality
import CodecMocks.Proofs.ValidNames

/-!
# The declarations of mock classes

Functions, classes and variables are declared by lines that are put together from names. Such a line
is a declaration of Python if all its names can be declared and its type hints and base classes are
paths of such names.

* `IsPath`, `IsHint`, `IsParameter`, `IsDeclaration`: the grammar of these lines.
* `GroupForest.forall_read`: what holds of the tokens of a range holds of the forest read from it.
* `ClassBody.HasNames`: all names in a body can be declared, at any depth.
* `declarations_valid`: which schema names can be declared, and that nothing but declarations is
  made of these.
-/

namespace CodecMocks.Naming

open CodecMocks.Text

/-! ### Names made from names -/

/-- No keyword has an underscore or the first letter of `Mock`. -/
theorem not_mem_of_mem_keywords : ∀ word ∈ keywords,
    CodePoint.ofChar '_' ∉ word.toList ∧ CodePoint.ofChar 'M' ∉ word.toList := by
  decide +kernel

theorem IsIdentifier.isName_storageName {name : CodeText} (h : IsIdentifier name) :
    IsName (storageName name) where
  identifier := by
    constructor
    · exact ⟨'_', by rw [toList_storageName]; rfl, .inr rfl⟩
    · rw [toList_storageName]
      exact List.forall_mem_cons.mpr ⟨.inr rfl, h.chars⟩
  free hmem := by
    apply (not_mem_of_mem_keywords _ hmem).1
    rw [toList_storageName]
    exact List.mem_cons_self

theorem IsIdentifier.isName_mutatorName {name : CodeText} (h : IsIdentifier name) :
    IsName (mutatorName name) where
  identifier := by
    rw [mutatorName]
    exact IsIdentifier.append (by decide) h.chars
  free hmem := by
    apply (not_mem_of_mem_keywords _ hmem).1
    rw [mutatorName, CodeText.toList_append]
    exact List.mem_append_left _ (by decide)

theorem IsIdentifier.isName_mockName {name : CodeText} (h : IsIdentifier name) :
    IsName (mockName name) where
  identifier := by
    have hmock : IsIdentifier "Mock" := by decide
    exact h.append hmock.chars
  free hmem := (not_mem_of_mem_keywords _ hmem).2 (capital_mem_mockName name)

/-- The schema name makes a property that can be declared. -/
structure NamesProperty (name : CodeText) : Prop where
  identifier : IsIdentifier name
  letter : StartsWithLetter name

/-- The schema name makes a property and a class that can be declared. -/
structure NamesClass (name : CodeText) : Prop extends NamesProperty name where
  noConstant : ¬ SpellsConstant name

instance (name : CodeText) : Decidable (NamesProperty name) :=
  decidable_of_iff (IsIdentifier name ∧ StartsWithLetter name)
    ⟨fun h => ⟨h.1, h.2⟩, fun h => ⟨h.identifier, h.letter⟩⟩

instance (name : CodeText) : Decidable (NamesClass name) :=
  decidable_of_iff (NamesProperty name ∧ ¬ SpellsConstant name)
    ⟨fun h => ⟨h.1, h.2⟩, fun h => ⟨h.toNamesProperty, h.noConstant⟩⟩

theorem NamesProperty.isName_propertyName {name : CodeText} (h : NamesProperty name)
    {reserved : List CodeText} (hreserved : Reservable reserved) :
    IsName (propertyName name reserved) :=
  (isName_propertyName_iff h.identifier hreserved).mpr h.letter

theorem NamesClass.isName_className {name : CodeText} (h : NamesClass name) :
    IsName (className name) :=
  (isName_className_iff h.identifier).mpr ⟨h.letter, h.noConstant⟩

/-- A name still makes a property when its first character has been made small. -/
theorem NamesProperty.decapitalizeFirst {name : CodeText} (h : NamesProperty name) :
    NamesProperty (CodeText.ofList (decapitalizeFirst name.toList)) := by
  obtain ⟨first, hfirst, hstart⟩ := h.identifier.start
  obtain ⟨rest, hname⟩ := List.head?_eq_some_iff.mp hfirst
  have hchars : ∀ c ∈ rest, c.isAlphanum = true ∨ c = '_' := by
    intro c hc
    exact h.identifier.chars c (hname ▸ List.mem_cons_of_mem first hc)
  rw [hname]
  rcases hstart with halpha | rfl
  · have hlt : first.toNat < 128 := lt_of_isAlphanum_or (h.identifier.chars first (by simp [hname]))
    obtain ⟨hsmall, hletter, halphanum⟩ := small_of_isAscii hlt
    have hfirst' := isAlphanum_of_isAlpha halpha
    have hbare :
      (first.toLower :: rest).dropWhile (· == CodePoint.ofChar '_') = first.toLower :: rest := by
      apply dropWhile_underscore
      intro hunderscore
      have hlower := hletter halpha
      rw [Option.some.inj hunderscore] at hlower
      cases hlower
    rw [Text.decapitalizeFirst, hsmall, List.singleton_append]
    refine ⟨⟨?_, ?_⟩, ?_⟩
    · rw [CodeText.toList_ofList]
      exact ⟨first.toLower, rfl, .inl (hletter halpha)⟩
    · rw [CodeText.toList_ofList]
      exact List.forall_mem_cons.mpr ⟨.inl (halphanum hfirst'), hchars⟩
    · rw [StartsWithLetter, CodeText.toList_ofList, hbare]
      exact ⟨first.toLower, rfl, hletter halpha⟩
  · rw [Text.decapitalizeFirst, small_of_isSeparator (by decide), List.singleton_append, ← hname,
      CodeText.ofList_toList]
    exact h

end CodecMocks.Naming

namespace CodecMocks.Layout

open CodecMocks.Naming

/-! ### Grammar -/

/-- Names with dots between them. -/
inductive IsPath : CodeText → Prop where
  | name {name : CodeText} (hname : IsName name) : IsPath name
  | member {path name : CodeText} (hpath : IsPath path) (hname : IsName name) :
      IsPath (path ++ "." ++ name)

/-- A type hint: a class, a class with an argument, no value, or one of two. -/
inductive IsHint : CodeText → Prop where
  | path {path : CodeText} (hpath : IsPath path) : IsHint path
  | none : IsHint "None"
  | applied {path argument : CodeText} (hpath : IsPath path) (hargument : IsHint argument) :
      IsHint (path ++ "[" ++ argument ++ "]")
  | union {left right : CodeText} (hleft : IsHint left) (hright : IsHint right) :
      IsHint (left ++ " | " ++ right)

/-- A parameter, with or without a type hint; a parameter that takes all arguments has one. -/
inductive IsParameter : CodeText → Prop where
  | name {name : CodeText} (hname : IsName name) : IsParameter name
  | typed {name hint : CodeText} (hname : IsName name) (hhint : IsHint hint) :
      IsParameter (name ++ ": " ++ hint)
  | rest {name hint : CodeText} (hname : IsName name) (hhint : IsHint hint) :
      IsParameter ("*" ++ name ++ ": " ++ hint)

/-- The initial values of variables. -/
def initialValues : List CodeText := ["None", "False"]

/-- The first line of a declaration. -/
inductive IsDeclaration : CodeText → Prop where
  | variable {name hint initial : CodeText} (hname : IsName name) (hhint : IsHint hint)
      (hinitial : initial ∈ initialValues) :
      IsDeclaration (name ++ ": " ++ hint ++ " = " ++ initial)
  | function {name returns : CodeText} {parameters : List CodeText} (hname : IsName name)
      (hparameters : ∀ p ∈ parameters, IsParameter p) (hreturns : IsHint returns) :
      IsDeclaration
        ("def " ++ name ++ "(" ++ CodeText.intercalate ", " parameters ++ ") -> " ++ returns ++ ":")
  | nestedClass {name base : CodeText} (hname : IsName name) (hbase : IsPath base) :
      IsDeclaration ("class " ++ name ++ "(" ++ base ++ "):")

/-- The lines of a member start with a declaration. -/
def Declares (member : List CodeText) : Prop :=
  ∃ first rest, member = first :: rest ∧ IsDeclaration first

theorem declares_function {name returns : CodeText} {parameters : List Parameter}
    (hname : IsName name) (hparameters : ∀ p ∈ parameters, IsParameter p.text)
    (hreturns : IsHint returns) (rest : List CodeText) :
    Declares (functionHeading name parameters returns :: rest) := by
  refine ⟨_, rest, rfl, .function hname ?_ hreturns⟩
  intro text htext
  obtain ⟨p, hp, rfl⟩ := List.mem_map.mp htext
  exact hparameters p (List.mem_filter.mp hp).1

theorem IsPath.ne_empty {path : CodeText} (h : IsPath path) : path ≠ "" := by
  cases h with
  | name hname =>
    rintro rfl
    exact absurd hname (by decide)
  | member hpath hname => simp

theorem isDeclaration_classHeading {name base : CodeText} (hname : IsName name)
    (hbase : IsPath base) : IsDeclaration (classHeading name [.plain base]) := by
  have hpresent : (Parameter.plain base).isPresent = true := by
    simp [Parameter.isPresent, hbase.ne_empty]
  have hjoined : joinParameters [.plain base] = base := by
    rw [joinParameters, List.filter_cons_of_pos hpresent]
    exact CodeText.intercalate_singleton ", " base
  rw [classHeading, hjoined]
  exact .nestedClass hname hbase

theorem isDeclaration_text {v : TypedVariable} (hname : IsName v.name) (hhint : IsHint v.hint)
    (hinitial : v.initial ∈ initialValues) : IsDeclaration v.text := by
  have hpresent : ∀ initial ∈ initialValues, initial.isEmpty = false := by decide
  rw [TypedVariable.text, hpresent _ hinitial]
  exact .variable hname hhint hinitial

end CodecMocks.Layout

namespace CodecMocks.Schema.GroupForest

/-! ### The tokens of a forest -/

/-- A property of all begin markers and of all fields of a forest. -/
def Forall (marker field : Token → Prop) : GroupForest → Prop
  | .nil => True
  | .group t fields nested next =>
    marker t ∧ (∀ f ∈ fields, field f) ∧ nested.Forall marker field ∧ next.Forall marker field

theorem mem_of_mem_rootFields {tokens : List Token} {t : Token} (h : t ∈ (rootFields tokens).1) :
    t ∈ tokens :=
  (List.takeWhile_prefix _).mem h

/-- What holds of the tokens of a range holds of those of the forest read from it. -/
theorem forall_read {marker field : Token → Prop} (tokens : List Token)
    (hmarker : ∀ t ∈ tokens, t.is .beginGroup = true → marker t) (hfield : ∀ t ∈ tokens, field t) :
    (read tokens).1.Forall marker field := by
  induction tokens using read_induction with
  | nil =>
    rw [read_nil]
    trivial
  | endGroup t ts hend =>
    rw [read_endGroup hend]
    trivial
  | other t ts hend hbegin ih =>
    rw [read_other hend hbegin]
    exact ih (List.forall_mem_cons.mp hmarker).2 (List.forall_mem_cons.mp hfield).2
  | beginGroup t ts hbegin ihNested ihNext =>
    obtain ⟨hfirst, hmarker⟩ := List.forall_mem_cons.mp hmarker
    obtain ⟨-, hfield⟩ := List.forall_mem_cons.mp hfield
    have hfields : (rootFields ts).2 <:+ ts := List.dropWhile_suffix _
    have hafter : afterTrailer (readNested (rootFields ts).2).2 <:+ ts :=
      (afterTrailer_suffix _).trans ((readNested_suffix _).trans hfields)
    rw [read_beginGroup hbegin]
    refine ⟨hfirst hbegin, fun u hu => hfield u (mem_of_mem_rootFields hu), ?_, ?_⟩
    · dsimp only [readNested]
      split
      · exact ihNested (fun u hu => hmarker u (hfields.mem hu)) fun u hu =>
          hfield u (hfields.mem hu)
      · trivial
    · exact ihNext (fun u hu => hmarker u (hafter.mem hu)) fun u hu => hfield u (hafter.mem hu)

end CodecMocks.Schema.GroupForest

namespace CodecMocks.Mock

open CodecMocks.Layout CodecMocks.Naming CodecMocks.Schema

/-! ### Members -/

/-- The members of the property are declarations. -/
structure Property.IsDeclarable (p : Property) : Prop where
  name : IsName p.name
  hint : IsHint p.hint
  initial : p.initial ∈ initialValues

theorem isHint_of_mem_primitiveHints {hint : CodeText} (h : hint ∈ primitiveHints) :
    IsHint hint := by
  have hclass {name : CodeText} (hname : IsName name) : IsHint name := .path (.name hname)
  have hlist (name : CodeText) (hname : IsName name) : IsHint ("list" ++ "[" ++ name ++ "]") :=
    .applied (.name (by decide)) (hclass hname)
  simp only [primitiveHints, List.mem_cons, List.not_mem_nil, or_false] at h
  rcases h with rfl | rfl | rfl | rfl | rfl
  · exact hclass (by decide)
  · exact hclass (by decide)
  · exact hclass (by decide)
  · exact hlist "int" (by decide)
  · exact hlist "float" (by decide)

theorem isParameter_self : IsParameter selfParameter.text :=
  .name (show IsName "self" by decide)

theorem Property.IsDeclarable.declares {p : Property} (h : p.IsDeclarable) {m : List CodeText}
    (hm : m ∈ p.members) : Declares m := by
  have hstored : IsHint p.storedHint := by
    unfold Property.storedHint
    split
    · have hunion := IsHint.union h.hint .none
      rwa [CodeText.append_assoc] at hunion
    · exact h.hint
  simp only [Property.members, List.mem_cons, List.not_mem_nil, or_false] at hm
  rcases hm with rfl | rfl | rfl
  · exact ⟨_, [], rfl, isDeclaration_text h.name.identifier.isName_storageName hstored h.initial⟩
  · exact declares_function h.name (List.forall_mem_singleton.mpr isParameter_self) hstored _
  · refine declares_function h.name.identifier.isName_mutatorName ?_ (.path (.name (by decide))) _
    refine List.forall_mem_cons.mpr ⟨isParameter_self, List.forall_mem_singleton.mpr ?_⟩
    exact .typed (show IsName "value" by decide) h.hint

theorem declares_of_mem_cursorMembers {mock base : CodeText} (hbase : IsPath base)
    {m : List CodeText} (hm : m ∈ cursorMembers mock base) : Declares m := by
  have hself : ∀ p ∈ [selfParameter], IsParameter p.text :=
    List.forall_mem_singleton.mpr isParameter_self
  have hitems : IsParameter ("*items: " ++ base) :=
    .rest (show IsName "items" by decide) (.path hbase)
  have hiterator : IsHint ("Iterator[" ++ base ++ "]") :=
    .applied (.name (show IsName "Iterator" by decide)) (.path hbase)
  have hclass {name : CodeText} (hname : IsName name) : IsHint name := .path (.name hname)
  simp only [cursorMembers, List.mem_cons, List.not_mem_nil, or_false] at hm
  rcases hm with rfl | rfl | rfl | rfl | rfl | rfl | rfl
  · refine declares_function (by decide) ?_ .none _
    exact List.forall_mem_cons.mpr ⟨isParameter_self, List.forall_mem_singleton.mpr hitems⟩
  · exact declares_function (by decide) hself (hclass (by decide)) _
  · exact declares_function (by decide) hself (hclass (by decide)) _
  · exact declares_function (by decide) hself (.path hbase) _
  · exact declares_function (by decide) hself .none _
  · exact declares_function (by decide) hself hiterator _
  · exact declares_function (by decide) hself (.path hbase) _

/-! ### Bodies -/

/-- All names in a body can be declared, those in the classes of groups too. -/
def ClassBody.HasNames : ClassBody → Prop
  | .nil => True
  | .property p next => p.IsDeclarable ∧ next.HasNames
  | .group typeName base inner next =>
    (IsName typeName ∧ IsPath base) ∧ inner.HasNames ∧ next.HasNames

/-- The class is declared under a name, its base class is a path of names, and all its members are
declarations. -/
structure MockClass.IsDeclarable (k : MockClass) : Prop where
  base : IsPath k.base
  heading : IsDeclaration (classHeading (mockName k.typeName) [.plain k.base])
  members : ∀ m ∈ k.members, Declares m

namespace ClassBody

theorem HasNames.append {a b : ClassBody} (ha : a.HasNames) (hb : b.HasNames) :
    (a ++ b).HasNames := by
  show (a.append b).HasNames
  induction a with
  | nil => exact hb
  | property p next ih => exact ⟨ha.1, ih ha.2⟩
  | group typeName base inner next _ ih => exact ⟨ha.1, ha.2.1, ih ha.2.2⟩

theorem hasNames_ofProperties {ps : List Property} (h : ∀ p ∈ ps, p.IsDeclarable) :
    (ofProperties ps).HasNames := by
  induction ps with
  | nil => trivial
  | cons p ps ih =>
    exact ⟨h p List.mem_cons_self, ih fun q hq => h q (List.mem_cons_of_mem p hq)⟩

theorem HasNames.declares {body : ClassBody} (h : body.HasNames) {m : List CodeText}
    (hm : m ∈ body.members) : Declares m := by
  induction body with
  | nil => cases hm
  | property p next ih =>
    rcases List.mem_append.mp hm with hm | hm
    · exact h.1.declares hm
    · exact ih h.2 hm
  | group typeName base inner next _ ih =>
    obtain ⟨⟨htype, hbase⟩, -, hnext⟩ := h
    rcases List.mem_cons.mp hm with rfl | hm
    · exact ⟨_, _, rfl, isDeclaration_classHeading htype.identifier.isName_mockName hbase⟩
    · exact ih hnext hm

/-- Every class of a group in a body with names is declared by names. -/
theorem HasNames.classes {body : ClassBody} (h : body.HasNames) :
    ∀ k ∈ body.classes, k.IsDeclarable := by
  induction body with
  | nil => exact fun _ hk => nomatch hk
  | property p next ih => exact ih h.2
  | group typeName base inner next ihInner ihNext =>
    obtain ⟨⟨htype, hbase⟩, hinner, hnext⟩ := h
    intro k hk
    rcases List.mem_cons.mp hk with rfl | hk
    · refine ⟨hbase, isDeclaration_classHeading htype.identifier.isName_mockName hbase, ?_⟩
      intro m hm
      rcases List.mem_append.mp hm with hm | hm
      · exact declares_of_mem_cursorMembers hbase hm
      · exact hinner.declares hm
    · rcases List.mem_append.mp hk with hk | hk
      · exact ihInner hinner k hk
      · exact ihNext hnext k hk

end ClassBody

theorem isDeclarable_plain {typeName : CodeText} {body : ClassBody} (htype : IsName typeName)
    (hbody : body.HasNames) : ∀ k ∈ (MockClass.plain typeName body).all, k.IsDeclarable := by
  refine List.forall_mem_cons.mpr ⟨⟨.name htype, ?_, ?_⟩, hbody.classes⟩
  · exact isDeclaration_classHeading htype.identifier.isName_mockName (.name htype)
  · exact fun m hm => hbody.declares hm

/-! ### Token ranges -/

/-- A property without an initial value of its own. -/
theorem isDeclarable_typed {name hint : CodeText} (hname : IsName name) (hhint : IsHint hint) :
    Property.IsDeclarable { name, hint } where
  name := hname
  hint := hhint
  initial := List.mem_cons_self

theorem isDeclarable_flag {name : CodeText} (hname : IsName name) :
    Property.IsDeclarable { name, hint := "bool", initial := "False", optional := false } where
  name := hname
  hint := .path (.name (show IsName "bool" by decide))
  initial := List.mem_cons_of_mem _ List.mem_cons_self

theorem IsMade.isDeclarable {members types : CodeText → Prop} {reserved : List CodeText}
    {p : Property} (h : IsMade members types reserved p) (hreserved : Reservable reserved)
    (hmembers : ∀ name, members name → NamesProperty name)
    (htypes : ∀ name, types name → NamesClass name) : p.IsDeclarable := by
  cases h with
  | primitive name hname t h =>
    have hhint := isHint_of_mem_primitiveHints (hint_mem_primitiveHints h)
    obtain ⟨hint, rfl⟩ := exists_hint_of_primitiveProperty? h
    exact isDeclarable_typed ((hmembers name hname).isName_propertyName hreserved) hhint
  | named name typeName hname htype =>
    exact isDeclarable_typed ((hmembers name hname).isName_propertyName hreserved)
      (.path (.name (htypes typeName htype).isName_className))
  | choice name hname =>
    exact isDeclarable_flag ((hmembers name hname).isName_propertyName hreserved)

theorem isDeclarable_groupProperty (reserved : List CodeText) {name parent : CodeText}
    (hname : NamesClass name) (hparent : IsPath parent) :
    (groupProperty reserved (GroupNames.of name parent)).IsDeclarable := by
  have hproperty := hname.decapitalizeFirst.isName_propertyName reservable_nil
  unfold groupProperty GroupNames.of
  dsimp only
  exact isDeclarable_typed (hproperty.identifier.isName_avoidTaken reserved)
    (.path (.member hparent hname.isName_className))

/-- The token may stand among the fields of a message: what it declares has a name. -/
structure NamesField (t : Token) : Prop where
  field : t.is .beginField = true → NamesProperty t.name
  type : namesType t = true → NamesClass t.name

theorem isDeclarable_of_mem_fieldProperties {reserved : List CodeText}
    (hreserved : Reservable reserved) {fields : List Token} (hfields : ∀ t ∈ fields, NamesField t)
    {p : Property} (hp : p ∈ fieldProperties reserved fields) : p.IsDeclarable := by
  refine (isMade_of_mem_fieldProperties hp).isDeclarable hreserved ?_ ?_
  · rintro name ⟨t, ht, hkind, rfl⟩
    exact (hfields t ht).field hkind
  · rintro name ⟨t, ht, hkind, rfl⟩
    exact (hfields t ht).type hkind

theorem hasNames_forestBody {reserved : List CodeText} {parent : CodeText} (hparent : IsPath parent)
    {forest : GroupForest}
    (h : forest.Forall (NamesClass ·.name) NamesField) :
    (forestBody parent reserved forest).HasNames := by
  induction forest generalizing parent reserved with
  | nil => trivial
  | group marker fields nested next ihNested ihNext =>
    obtain ⟨hmarker, hfields, hnested, hnext⟩ := h
    have hbase : IsPath (parent ++ "." ++ className marker.name) :=
      .member hparent hmarker.isName_className
    refine ⟨isDeclarable_groupProperty reserved hmarker hparent,
      ⟨hmarker.isName_className, hbase⟩, .append ?_ ?_, ihNext hparent hnext⟩
    · exact ClassBody.hasNames_ofProperties fun p hp =>
        isDeclarable_of_mem_fieldProperties reservable_cursorNames hfields hp
    · exact ihNested hbase hnested

/-! ### Catalogs -/

/-- Whatever a catalog declares has a schema name of which a name can be made. -/
structure HasValidNames (c : Catalog) : Prop where
  members : ∀ tokens ∈ c.header :: c.types, ∀ t ∈ tokens,
    t.is .encoding = true ∨ t.is .choice = true → NamesProperty t.name
  fields : ∀ tokens ∈ c.messages, ∀ t ∈ tokens, t.is .beginField = true → NamesProperty t.name
  types : ∀ tokens ∈ c.header :: c.types ++ c.messages, ∀ t ∈ tokens,
    namesType t = true ∨ t.is .beginGroup = true → NamesClass t.name
  messages : ∀ tokens ∈ c.messages, ∀ t ∈ tokens.head?, NamesClass t.name

instance (c : Catalog) : Decidable (HasValidNames c) :=
  decidable_of_iff
    ((∀ tokens ∈ c.header :: c.types, ∀ t ∈ tokens,
        t.is .encoding = true ∨ t.is .choice = true → NamesProperty t.name) ∧
      (∀ tokens ∈ c.messages, ∀ t ∈ tokens, t.is .beginField = true → NamesProperty t.name) ∧
      (∀ tokens ∈ c.header :: c.types ++ c.messages, ∀ t ∈ tokens,
        namesType t = true ∨ t.is .beginGroup = true → NamesClass t.name) ∧
      ∀ tokens ∈ c.messages, ∀ t ∈ tokens.head?, NamesClass t.name)
    ⟨fun h => ⟨h.1, h.2.1, h.2.2.1, h.2.2.2⟩,
      fun h => ⟨h.members, h.fields, h.types, h.messages⟩⟩

theorem mem_of_mem_body {tokens : List Token} {t : Token} (h : t ∈ Schema.body tokens) :
    t ∈ tokens :=
  List.mem_of_mem_tail ((List.dropLast_sublist _).subset h)

theorem mem_of_mem_groups {tokens : List Token} {t : Token} (h : t ∈ (groups tokens).1) :
    t ∈ tokens := by
  rw [← groupsFrom_append 0 tokens]
  exact List.mem_append_left _ h

namespace HasValidNames

variable {c : Catalog}

/-- The properties of a composite or of the header. -/
theorem composite (h : HasValidNames c) {tokens : List Token}
    (htokens : tokens ∈ c.header :: c.types) :
    (ClassBody.ofProperties (compositeProperties [] (Schema.body tokens))).HasNames := by
  have htypes : ∀ t ∈ Schema.body tokens, namesType t = true → NamesClass t.name :=
    fun t ht hkind =>
      h.types tokens (List.mem_append_left _ htokens) t (mem_of_mem_body ht) (.inl hkind)
  apply ClassBody.hasNames_ofProperties
  intro p hp
  refine (isMade_of_mem_compositeProperties hp).isDeclarable reservable_nil ?_ ?_
  · rintro name ⟨t, ht, hkind, rfl⟩
    rcases Bool.or_eq_true_iff.mp hkind with hkind | hkind
    · exact h.members tokens htokens t (mem_of_mem_body ht) (.inl hkind)
    · exact (htypes t ht hkind).toNamesProperty
  · rintro name ⟨t, ht, hkind, rfl⟩
    exact htypes t ht hkind

/-- The flags of a set. -/
theorem set (h : HasValidNames c) {tokens : List Token} (htokens : tokens ∈ c.types) :
    (ClassBody.ofProperties (choiceProperties [] (Schema.body tokens))).HasNames := by
  apply ClassBody.hasNames_ofProperties
  intro p hp
  obtain ⟨t, ht, rfl⟩ := List.mem_map.mp hp
  obtain ⟨hmem, hchoice⟩ := List.mem_filter.mp ht
  have hname := h.members tokens (List.mem_cons_of_mem _ htokens) t (mem_of_mem_body hmem)
    (.inr hchoice)
  exact isDeclarable_flag (hname.isName_propertyName reservable_nil)

/-- The root fields and the groups of a message. -/
theorem message (h : HasValidNames c) {tokens : List Token} (htokens : tokens ∈ c.messages)
    {typeName : CodeText} (htype : IsName typeName) :
    (messageBody typeName (rootFields (Schema.body tokens)).1
      (GroupForest.read (groups (Schema.body tokens)).1).1).HasNames := by
  have hall : tokens ∈ c.header :: c.types ++ c.messages := List.mem_append_right _ htokens
  have hfield : ∀ t ∈ Schema.body tokens, NamesField t := fun t ht =>
    { field := h.fields tokens htokens t (mem_of_mem_body ht)
      type := fun hkind => h.types tokens hall t (mem_of_mem_body ht) (.inl hkind) }
  refine .append ?_ (hasNames_forestBody (.name htype) (GroupForest.forall_read _ ?_ ?_))
  · apply ClassBody.hasNames_ofProperties
    intro p hp
    exact isDeclarable_of_mem_fieldProperties reservable_nil
      (fun t ht => hfield t (GroupForest.mem_of_mem_rootFields ht)) hp
  · intro t ht hkind
    exact h.types tokens hall t (mem_of_mem_body (mem_of_mem_groups ht)) (.inr hkind)
  · exact fun t ht => hfield t (mem_of_mem_groups ht)

/-- Every class of the catalog and every class of a group in one is declared by names. -/
theorem isDeclarable (h : HasValidNames c) {s : Stage} {k : MockClass} (hk : k ∈ classesOf c s) :
    ∀ declared ∈ k.all, declared.IsDeclarable := by
  rcases exists_of_mem_classesOf hk with rfl | ⟨tokens, htokens, hclass⟩ | ⟨tokens, htokens, hclass⟩
  · exact isDeclarable_plain (by decide) (h.composite List.mem_cons_self)
  · have hmem : tokens ∈ c.header :: c.types := List.mem_cons_of_mem _ htokens
    obtain ⟨t, ts, rfl, hkind⟩ := exists_of_typeClass? hclass
    have hname (hnames : namesType t = true) : IsName (className t.name) :=
      (h.types _ (List.mem_append_left _ hmem) t List.mem_cons_self (.inl hnames)).isName_className
    rcases hkind with ⟨hsignal, rfl⟩ | ⟨hsignal, rfl⟩
    · exact isDeclarable_plain (hname (by rw [namesType, hsignal]; rfl)) (h.set htokens)
    · exact isDeclarable_plain (hname (by rw [namesType, hsignal]; rfl)) (h.composite hmem)
  · cases tokens with
    | nil => cases hclass
    | cons t ts =>
      have hname := (h.messages _ htokens t rfl).isName_className
      rw [← Option.some.inj hclass]
      exact isDeclarable_plain hname (h.message htokens hname)

end HasValidNames

/-- **Which schema names can be declared.** The name of a property made from an identifier can be
declared exactly if the identifier starts with a letter, underscores aside, and the name of a class
exactly if the identifier, besides, spells no constant. In all modules of a catalog that declares
such names only, at any depth, classes are declared under names and with paths of names for their
base classes, and their members are declarations. -/
theorem declarations_valid {name : CodeText} (hname : IsIdentifier name) (c : Catalog) :
    (∀ reserved, Reservable reserved →
      (IsName (propertyName name reserved) ↔ StartsWithLetter name)) ∧
    (IsName (className name) ↔ StartsWithLetter name ∧ ¬ SpellsConstant name) ∧
    (HasValidNames c → ∀ s m, .ok (some m) ∈ modulesOf c s →
      ∃ k ∈ classesOf c s, m = classModule c.package k ∧
        ∀ declared ∈ k.all, declared.IsDeclarable ∧
          ∃ depth, declared.lines.map (indented depth) <:+: k.lines) := by
  refine ⟨fun reserved hreserved => isName_propertyName_iff hname hreserved,
    isName_className_iff hname, ?_⟩
  intro hc s m hmade
  obtain ⟨k, hk, rfl⟩ := exists_class_of_mem_modulesOf hmade
  exact ⟨k, hk, rfl, fun declared hdeclared =>
    ⟨hc.isDeclarable hk declared hdeclared, k.lines_infix_of_mem_all hdeclared⟩⟩

/-- A message with a group, after its begin marker. -/
def garageContent : List Token :=
  [⟨.beginField, "Class", none⟩, ⟨.beginSet, "_extras", none⟩,
    ⟨.beginGroup, "None_of_these", none⟩, ⟨.beginField, "_next", none⟩,
    ⟨.encoding, "", some { primitive := .char, arrayLength := 4 }⟩, ⟨.endGroup, "", none⟩,
    ⟨.endMessage, "", none⟩]

/-- A catalog whose names are keywords, members of cursors or constants in part. -/
def garageCatalog : Catalog where
  package := "n"
  header := [⟨.beginComposite, "messageHeader", none⟩,
    ⟨.encoding, "block_length", some { primitive := .uint16 }⟩, ⟨.endComposite, "", none⟩]
  types := [[⟨.beginSet, "_extras", none⟩, ⟨.choice, "__import", none⟩, ⟨.endSet, "", none⟩]]
  messages := [⟨.beginMessage, "garage_", none⟩ :: garageContent]
  header_ne_nil := List.cons_ne_nil _ _

theorem garageCatalog_declared :
    (IsIdentifier "_2nd" ∧ Reservable cursorNames ∧ ¬ IsName (propertyName "_2nd" cursorNames)) ∧
      HasValidNames garageCatalog ∧
      ∃ m k, .ok (some m) ∈ modulesOf garageCatalog .messages ∧
        m = classModule "n" k ∧ ∀ declared ∈ k.all, declared.IsDeclarable := by
  have hidentifier : IsIdentifier "_2nd" := by decide
  have hletter : ¬ StartsWithLetter "_2nd" := by decide
  have hcatalog : HasValidNames garageCatalog := by decide +kernel
  obtain ⟨hproperty, -, hmodules⟩ := declarations_valid hidentifier garageCatalog
  refine ⟨⟨hidentifier, reservable_cursorNames, ?_⟩, hcatalog, ?_⟩
  · exact fun hname => hletter ((hproperty _ reservable_cursorNames).mp hname)
  · let opening : Token := ⟨.beginMessage, "garage_", none⟩
    have hmade : .ok (some (classModule "n"
        (messageClass opening (Schema.body (opening :: garageContent))))) ∈
          modulesOf garageCatalog .messages := by
      refine List.mem_map.mpr ⟨opening :: garageContent, List.mem_cons_self, ?_⟩
      rw [messageModule_eq]
      rfl
    obtain ⟨k, -, hmodule, hdeclared⟩ := hmodules hcatalog _ _ hmade
    exact ⟨_, k, hmade, hmodule, fun declared hk => (hdeclared declared hk).1⟩

/-- Three identifiers of which no class can be made, and of two of them no property. -/
theorem identifiers_unusable :
    (IsIdentifier "_1" ∧ propertyName "_1" [] = "1" ∧ className "_1" = "1") ∧
      (IsIdentifier "_" ∧ propertyName "_" [] = "" ∧ className "_" = "") ∧
      (IsIdentifier "none" ∧ className "none" = "None" ∧ ("None" : CodeText) ∈ keywords) ∧
      ¬ ∀ name, IsIdentifier name → IsName (propertyName name []) ∧ IsName (className name) := by
  have hidentifier : IsIdentifier "none" := by decide
  have hclass : className "none" = "None" := by decide +kernel
  refine ⟨by decide +kernel, by decide +kernel, ⟨hidentifier, hclass, by decide⟩, ?_⟩
  intro hall
  have hname := (hall "none" hidentifier).2
  rw [hclass] at hname
  exact hname.free (by decide)

end CodecMocks.Mock
