import CodecMocks.Mock.Group

/-!
# The shape of property names

Whatever a schema name is, the property name made from it has no capital letter of ASCII, does not
start with an underscore, and is none of the names that are reserved where it is used.

* `isUpper_of_mem_smallText`, `head_smallAfter`: what small letters are and where an underscore
  among them comes from.
* `isPropertyName_propertyName`, `isPropertyName_avoidTaken`: the two ways in which names of
  properties are made.
* `IsMade`, `IsMade.isPropertyName`: the ways in which the properties of token ranges are made. All
  of them give such names.
-/

namespace CodecMocks.Text

/-! ### Small letters -/

theorem isUpper_iff {c : CodePoint} : c.isUpper = true ↔ 65 ≤ c.toNat ∧ c.toNat ≤ 90 := by
  rw [CodePoint.isUpper, Bool.and_eq_true, decide_eq_true_iff, decide_eq_true_iff]

theorem toNat_ofNat_or (n : Nat) :
    (CodePoint.ofNat n).toNat = n ∨ (CodePoint.ofNat n).toNat = 0 := by
  unfold CodePoint.ofNat
  by_cases hvalid : n < 0x110000
  · rw [dif_pos hvalid]
    exact .inl rfl
  · rw [dif_neg hvalid]
    exact .inr rfl

/-- No entry of the table leads to a character before the small letters of ASCII. -/
theorem le_shift_smallRuns : ∀ run ∈ smallRuns, 97 ≤ (run.first : Int) + run.shift := by
  decide +kernel

/-- A capital letter moves past the ASCII capitals and the underscore when it is made small. -/
theorem moveBy_smallRuns_cases (c : CodePoint) :
    (moveBy smallRuns c = c ∧ c.isUpper = false) ∨ 97 ≤ (moveBy smallRuns c).toNat ∨
      (moveBy smallRuns c).toNat = 0 := by
  have hascii : (⟨65, 90, 1, 32⟩ : CaseRun) ∈ smallRuns := List.mem_cons_self
  unfold moveBy
  cases hrun : smallRuns.find? (·.covers c.toNat) with
  | some run =>
    right
    have hmem := List.mem_of_find?_eq_some hrun
    have hcovers := List.find?_some hrun
    simp only [CaseRun.covers, Bool.and_eq_true, decide_eq_true_eq] at hcovers
    have hbound := le_shift_smallRuns run hmem
    rcases toNat_ofNat_or (Int.toNat (c.toNat + run.shift)) with h | h
    · left
      simp only [h]
      omega
    · exact .inr h
  | none =>
    left
    refine ⟨rfl, ?_⟩
    rw [Bool.eq_false_iff, Ne, isUpper_iff]
    intro hupper
    have hcovers := List.find?_eq_none.mp hrun _ hascii
    simp [CaseRun.covers, hupper, Nat.mod_one] at hcovers

theorem isUpper_moveBy_smallRuns (c : CodePoint) : (moveBy smallRuns c).isUpper = false := by
  rcases moveBy_smallRuns_cases c with ⟨hsame, hupper⟩ | h | h
  · rw [hsame, hupper]
  · rw [Bool.eq_false_iff, Ne, isUpper_iff]
    omega
  · rw [Bool.eq_false_iff, Ne, isUpper_iff]
    omega

/-- No other character moves to one before the small letters of ASCII. -/
theorem eq_of_moveBy_smallRuns {c d : CodePoint} (hd : 0 < d.toNat ∧ d.toNat < 97)
    (h : moveBy smallRuns c = d) : c = d := by
  rcases moveBy_smallRuns_cases c with ⟨hsame, -⟩ | hmoved | hmoved
  · exact hsame.symm.trans h
  · rw [h] at hmoved
    omega
  · rw [h] at hmoved
    omega

theorem isUpper_of_mem_small {c d : CodePoint} (h : d ∈ small c) : d.isUpper = false := by
  unfold small at h
  split at h
  · rcases List.mem_cons.mp h with rfl | h
    · decide
    · rw [List.mem_singleton.mp h]
      decide
  · rw [List.mem_singleton.mp h]
    exact isUpper_moveBy_smallRuns c

/-- A character before the small letters of ASCII is the small form of itself only. -/
theorem eq_of_mem_small {c d : CodePoint} (hd : 0 < d.toNat ∧ d.toNat < 97) (h : d ∈ small c) :
    c = d := by
  unfold small at h
  split at h
  · rcases List.mem_cons.mp h with rfl | h
    · exact absurd hd (by decide)
    · rw [List.mem_singleton.mp h] at hd
      exact absurd hd (by decide)
  · exact eq_of_moveBy_smallRuns hd (List.mem_singleton.mp h).symm

theorem head_small {c : CodePoint} {rest : List CodePoint}
    (h : (small c ++ rest).head? = some (.ofChar '_')) :
    c = '_' := by
  unfold small at h
  split at h
  · exact absurd (Option.some.inj h) (by decide)
  · exact eq_of_moveBy_smallRuns (by decide) (Option.some.inj h)

/-- A property of characters that both forms of the small sigma have holds of a text in small
letters if it holds of the small form of each character. -/
theorem forall_mem_smallAfter {P : CodePoint → Prop} (hsigma : P 'σ') (hfinal : P 'ς')
    {before cs : List CodePoint} (h : ∀ c ∈ cs, ∀ d ∈ small c, P d) :
    ∀ d ∈ smallAfter before cs, P d := by
  induction cs generalizing before with
  | nil => exact fun _ hd => (List.not_mem_nil hd).elim
  | cons c cs ih =>
    intro d hd
    rcases List.mem_append.mp hd with hd | hd
    · split at hd
      · split at hd
        · rwa [List.mem_singleton.mp hd]
        · rwa [List.mem_singleton.mp hd]
      · exact h c List.mem_cons_self d hd
    · exact ih (fun b hb => h b (List.mem_cons_of_mem c hb)) d hd

theorem isUpper_of_mem_smallText {cs : List CodePoint} {d : CodePoint} (h : d ∈ smallText cs) :
    d.isUpper = false := by
  refine forall_mem_smallAfter (P := (·.isUpper = false)) (by decide) (by decide) ?_ d h
  intro c _ e he
  exact isUpper_of_mem_small he

/-- A text in small letters starts with an underscore only if the text itself does. -/
theorem head_smallAfter {before cs : List CodePoint}
    (h : (smallAfter before cs).head? = some (.ofChar '_')) :
    cs.head? = some (.ofChar '_') := by
  cases cs with
  | nil => cases h
  | cons c cs =>
    unfold smallAfter at h
    split at h
    · split at h
      · exact absurd (Option.some.inj h) (by decide)
      · exact absurd (Option.some.inj h) (by decide)
    · rw [head_small h]
      rfl

end CodecMocks.Text

namespace CodecMocks.Naming

open CodecMocks.Text

/-! ### Names -/

/-- The name of a property in a class that has the members `reserved`. -/
structure IsPropertyName (reserved : List CodeText) (name : CodeText) : Prop where
  noCapital : ∀ c ∈ name.toList, c.isUpper = false
  noUnderscore : name.toList.head? ≠ some (.ofChar '_')
  free : name ∉ reserved

/-- The names can be reserved: an underscore at the end of a name makes it none of them. -/
def Reservable (reserved : List CodeText) : Prop :=
  ∀ name ∈ reserved, name ≠ "" ∧ name.toList.getLast? ≠ some (.ofChar '_')

instance (reserved : List CodeText) : Decidable (Reservable reserved) :=
  inferInstanceAs
    (Decidable (∀ name ∈ reserved, name ≠ "" ∧ name.toList.getLast? ≠ some (.ofChar '_')))

theorem head_trimUnderscores (cs : List CodePoint) :
    (trimUnderscores cs).head? ≠ some (.ofChar '_') := by
  intro h
  have hprefix : trimUnderscores cs <+: cs.dropWhile (· == CodePoint.ofChar '_') := by
    have hsuffix :=
      List.dropWhile_suffix (l := (cs.dropWhile (· == CodePoint.ofChar '_')).reverse)
        (· == CodePoint.ofChar '_')
    have hreversed := List.reverse_prefix.mpr hsuffix
    rwa [List.reverse_reverse] at hreversed
  have hhead := List.head?_dropWhile_not (· == CodePoint.ofChar '_') cs
  obtain ⟨rest, hrest⟩ := hprefix
  cases htrim : trimUnderscores cs with
  | nil =>
    rw [htrim] at h
    cases h
  | cons c tail =>
    rw [htrim] at h hrest
    rw [← hrest, Option.some.inj h] at hhead
    cases hhead

theorem isPropertyName_snakeCase (cs : List CodePoint) :
    IsPropertyName [] (CodeText.ofList (snakeCase cs)) where
  noCapital c hc := by
    rw [CodeText.toList_ofList] at hc
    exact isUpper_of_mem_smallText hc
  noUnderscore h := by
    rw [CodeText.toList_ofList] at h
    exact head_trimUnderscores _ (head_smallAfter h)
  free := List.not_mem_nil

/-- A name that is taken makes way for one that is not. -/
theorem isPropertyName_avoidTaken {name : CodeText} {reserved : List CodeText}
    (h : IsPropertyName [] name) (hreserved : Reservable reserved) :
    IsPropertyName reserved (avoidTaken name reserved) := by
  have hkeywords : ("" : CodeText) ∉ keywords := by decide
  unfold avoidTaken
  cases htaken : isTaken name reserved with
  | false =>
    have hfree : name ∉ reserved := by
      intro hmem
      simp [isTaken, hmem] at htaken
    exact ⟨h.noCapital, h.noUnderscore, hfree⟩
  | true =>
    refine ⟨?_, ?_, ?_⟩
    · intro c hc
      rw [if_pos rfl, CodeText.toList_append] at hc
      rcases List.mem_append.mp hc with hc | hc
      · exact h.noCapital c hc
      · rw [List.mem_singleton.mp hc]
        decide
    · intro hhead
      rw [if_pos rfl, CodeText.toList_append] at hhead
      cases hname : name.toList with
      | nil =>
        rw [CodeText.toList_eq_nil_iff.mp hname] at htaken
        rcases isTaken_iff.mp htaken with hmem | hmem
        · exact hkeywords hmem
        · exact (hreserved "" hmem).1 rfl
      | cons c cs =>
        rw [hname] at hhead
        apply h.noUnderscore
        rw [hname]
        exact hhead
    · intro hmem
      apply (hreserved _ hmem).2
      simp [CodeText.toList_ofString]

theorem isPropertyName_propertyName (name : CodeText) {reserved : List CodeText}
    (hreserved : Reservable reserved) :
    IsPropertyName reserved (propertyName name reserved) :=
  isPropertyName_avoidTaken (isPropertyName_snakeCase name.toList) hreserved

/-! ### Names made from a property name -/

/-- A capital letter that is in the name of every class of a group and in no name of a property. -/
theorem capital_mem_mockName (typeName : CodeText) :
    CodePoint.ofChar 'M' ∈ (mockName typeName).toList := by
  rw [mockName, CodeText.toList_append]
  exact List.mem_append_right _ (by decide)

theorem storageName_injective : Function.Injective storageName :=
  fun _ _ h => (CodeText.append_right_inj "_").mp h

theorem mutatorName_injective : Function.Injective mutatorName :=
  fun _ _ h => (CodeText.append_right_inj "set_").mp h

theorem mockName_injective : Function.Injective mockName :=
  fun _ _ h => (CodeText.append_left_inj "Mock").mp h

theorem toList_storageName (p : CodeText) : (storageName p).toList = .ofChar '_' :: p.toList := by
  rw [storageName, CodeText.toList_append]
  rfl

theorem toList_mutatorName (p : CodeText) :
    (mutatorName p).toList = ['s', 'e', 't', '_'].map .ofChar ++ p.toList := by
  rw [mutatorName, CodeText.toList_append]
  rfl

theorem storageName_ne_mutatorName (p q : CodeText) : storageName p ≠ mutatorName q := by
  intro h
  have hchars := congrArg CodeText.toList h
  rw [toList_storageName, toList_mutatorName] at hchars
  exact absurd (List.cons.inj hchars).1 (by decide)

namespace IsPropertyName

variable {reserved : List CodeText} {p : CodeText}

theorem ne_storageName (h : IsPropertyName reserved p) (q : CodeText) : p ≠ storageName q := by
  rintro rfl
  apply h.noUnderscore
  rw [toList_storageName]
  rfl

theorem capital_not_mem (h : IsPropertyName reserved p) : CodePoint.ofChar 'M' ∉ p.toList := by
  intro hmem
  have hupper := h.noCapital (.ofChar 'M') hmem
  exact absurd hupper (by decide)

theorem ne_mockName (h : IsPropertyName reserved p) (typeName : CodeText) :
    p ≠ mockName typeName := by
  rintro rfl
  exact h.capital_not_mem (capital_mem_mockName typeName)

theorem storageName_ne_mockName (h : IsPropertyName reserved p) (typeName : CodeText) :
    storageName p ≠ mockName typeName := by
  intro heq
  have hmem := capital_mem_mockName typeName
  rw [← heq, toList_storageName] at hmem
  rcases List.mem_cons.mp hmem with hunderscore | hmem
  · exact absurd hunderscore (by decide)
  · exact h.capital_not_mem hmem

theorem mutatorName_ne_mockName (h : IsPropertyName reserved p) (typeName : CodeText) :
    mutatorName p ≠ mockName typeName := by
  intro heq
  have hmem := capital_mem_mockName typeName
  rw [← heq, mutatorName, CodeText.toList_append] at hmem
  rcases List.mem_append.mp hmem with hset | hmem
  · exact absurd hset (by decide)
  · exact h.capital_not_mem hmem

end IsPropertyName

end CodecMocks.Naming

namespace CodecMocks.Mock

open CodecMocks.Naming CodecMocks.Schema

/-! ### The properties of token ranges -/

@[simp] theorem name_namedProperty (name typeName : CodeText) :
    (namedProperty name typeName).name = name := rfl

theorem reservable_nil : Reservable [] := by decide

theorem reservable_cursorNames : Reservable cursorNames := by decide

/-- Primitive values differ in the name and the type hint of their properties only. -/
theorem exists_hint_of_primitiveProperty? {name : CodeText} {t : Token} {p : Property}
    (h : primitiveProperty? name t = some p) : ∃ hint, p = { name, hint } := by
  unfold primitiveProperty? at h
  split at h
  · cases h
  · split at h
    · cases h
    · split at h
      · exact ⟨_, (Option.some.inj h).symm⟩
      · split at h
        · exact ⟨_, (Option.some.inj h).symm⟩
        · cases h

theorem name_of_primitiveProperty? {name : CodeText} {t : Token} {p : Property}
    (h : primitiveProperty? name t = some p) : p.name = name := by
  obtain ⟨hint, rfl⟩ := exists_hint_of_primitiveProperty? h
  rfl

/-- A token of the range that is of some kind has this name. -/
def NamedIn (tokens : List Token) (kind : Token → Bool) (name : CodeText) : Prop :=
  ∃ t ∈ tokens, kind t = true ∧ t.name = name

/-- The token begins a value of a named type. -/
def namesType (t : Token) : Bool :=
  t.signal.typeEnd?.isSome

/-- The token stands for a member of a composite. -/
def namesMember (t : Token) : Bool :=
  t.is .encoding || namesType t

theorem NamedIn.mono {tokens others : List Token} {kind : Token → Bool} {name : CodeText}
    (h : NamedIn tokens kind name) (hsub : tokens ⊆ others) : NamedIn others kind name := by
  obtain ⟨t, ht, hkind⟩ := h
  exact ⟨t, hsub ht, hkind⟩

/-- The properties that are made from tokens in a class that has the members `reserved`, where
`members` holds of the names of properties and `types` of the names of their types. -/
inductive IsMade (members types : CodeText → Prop) (reserved : List CodeText) :
    Property → Prop where
  | primitive {p : Property} (name : CodeText) (hname : members name) (t : Token)
      (h : primitiveProperty? (propertyName name reserved) t = some p) :
      IsMade members types reserved p
  | named (name typeName : CodeText) (hname : members name) (htype : types typeName) :
      IsMade members types reserved (namedProperty (propertyName name reserved) typeName)
  | choice (name : CodeText) (hname : members name) :
      IsMade members types reserved
        { name := propertyName name reserved, hint := "bool", initial := "False"
          optional := false }

theorem IsMade.imp {members types members' types' : CodeText → Prop} {reserved : List CodeText}
    {p : Property} (h : IsMade members types reserved p)
    (hmembers : ∀ name, members name → members' name) (htypes : ∀ name, types name → types' name) :
    IsMade members' types' reserved p := by
  cases h with
  | primitive name hname t h => exact .primitive name (hmembers name hname) t h
  | named name typeName hname htype =>
    exact .named name typeName (hmembers name hname) (htypes typeName htype)
  | choice name hname => exact .choice name (hmembers name hname)

/-- The properties that the tokens of a range declare. -/
abbrev IsMadeFrom (tokens : List Token) (kind : Token → Bool) (reserved : List CodeText) :
    Property → Prop :=
  IsMade (NamedIn tokens kind) (NamedIn tokens namesType) reserved

theorem IsMadeFrom.mono {tokens others : List Token} {kind : Token → Bool}
    {reserved : List CodeText}
    {p : Property} (h : IsMadeFrom tokens kind reserved p) (hsub : tokens ⊆ others) :
    IsMadeFrom others kind reserved p :=
  h.imp (fun _ hname => hname.mono hsub) fun _ htype => htype.mono hsub

theorem isMade_of_fieldProperty? {reserved : List CodeText} {field value : Token} {p : Property}
    (hfield : field.is .beginField = true) (h : fieldProperty? reserved field value = some p) :
    IsMadeFrom [field, value] (·.is .beginField) reserved p := by
  have hname : NamedIn [field, value] (·.is .beginField) field.name :=
    ⟨field, List.mem_cons_self, hfield, rfl⟩
  simp only [fieldProperty?] at h
  split at h
  · cases h
  · split at h
    · exact .primitive field.name hname value h
    · split at h
      · next htype =>
        rw [← Option.some.inj h]
        refine .named field.name value.name hname ⟨value, ?_, (Bool.and_eq_true_iff.mp htype).1,
          rfl⟩
        exact List.mem_cons_of_mem field List.mem_cons_self
      · cases h

theorem isMade_of_mem_fieldProperties {reserved : List CodeText} {tokens : List Token}
    {p : Property} (h : p ∈ fieldProperties reserved tokens) :
    IsMadeFrom tokens (·.is .beginField) reserved p := by
  fun_induction fieldProperties reserved tokens with
  | case1 field value rest ih =>
    rcases List.mem_append.mp h with h | h
    · split at h
      · next hfield =>
        refine (isMade_of_fieldProperty? hfield (Option.mem_toList.mp h)).mono ?_
        exact List.cons_subset_cons field (List.cons_subset_cons value (List.nil_subset rest))
      · cases h
    · exact (ih h).mono (List.subset_cons_self field _)
  | case2 => cases h

theorem afterBlock_suffix (first last : Signal) (tokens : List Token) :
    afterBlock first last tokens <:+ tokens := by
  unfold afterBlock
  split
  · exact List.drop_suffix _ tokens
  · exact List.nil_suffix

theorem isMade_of_mem_compositeProperties {reserved : List CodeText} {tokens : List Token}
    {p : Property} (h : p ∈ compositeProperties reserved tokens) :
    IsMadeFrom tokens namesMember reserved p := by
  fun_induction compositeProperties reserved tokens with
  | case1 => cases h
  | case2 t ts name closing htype ih =>
    have hnames : namesType t = true := by rw [namesType, htype, Option.isSome_some]
    rcases List.mem_append.mp h with h | h
    · split at h
      · cases h
      · rw [List.mem_singleton.mp h]
        refine .named t.name t.name ⟨t, List.mem_cons_self, ?_, rfl⟩
          ⟨t, List.mem_cons_self, hnames, rfl⟩
        rw [namesMember, hnames, Bool.or_true]
    · exact (ih h).mono (afterBlock_suffix t.signal closing (t :: ts)).subset
  | case3 t ts name htype ih =>
    rcases List.mem_append.mp h with h | h
    · split at h
      · next hencoding =>
        refine .primitive t.name ⟨t, List.mem_cons_self, ?_, rfl⟩ t (Option.mem_toList.mp h)
        rw [namesMember, hencoding, Bool.true_or]
      · cases h
    · exact (ih h).mono (List.subset_cons_self t ts)

theorem isMade_of_mem_choiceProperties {reserved : List CodeText} {tokens : List Token}
    {p : Property} (h : p ∈ choiceProperties reserved tokens) :
    IsMadeFrom tokens (·.is .choice) reserved p := by
  obtain ⟨t, ht, hp⟩ := List.mem_map.mp h
  obtain ⟨hmem, hchoice⟩ := List.mem_filter.mp ht
  rw [← hp]
  exact .choice t.name ⟨t, hmem, hchoice, rfl⟩

theorem IsMade.isPropertyName {members types : CodeText → Prop} {reserved : List CodeText}
    (hreserved : Reservable reserved) {p : Property} (h : IsMade members types reserved p) :
    IsPropertyName reserved p.name := by
  cases h with
  | primitive name _ t h =>
    rw [name_of_primitiveProperty? h]
    exact isPropertyName_propertyName name hreserved
  | named name typeName =>
    rw [name_namedProperty]
    exact isPropertyName_propertyName name hreserved
  | choice name =>
    -- The name is projected out before it is matched, or it would be computed.
    dsimp only
    exact isPropertyName_propertyName name hreserved

theorem isPropertyName_groupProperty {reserved : List CodeText} (hreserved : Reservable reserved)
    (group parent : CodeText) :
    IsPropertyName reserved (groupProperty reserved (GroupNames.of group parent)).name := by
  unfold groupProperty GroupNames.of
  dsimp only
  exact isPropertyName_avoidTaken (isPropertyName_propertyName _ reservable_nil) hreserved

end CodecMocks.Mock
