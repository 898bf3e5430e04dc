import CodecMocks.Lists
import CodecMocks.Proofs.LineLayout
import CodecMocks.Proofs.NameCharacters
import CodecMocks.Proofs.Robustness

/-!
# The layout of module texts

Every line of a mock class is written from fixed words and from names without blanks, so that no
schema name can break a line or indent it.

* `suite_of_mem_cursorMembers`, `Property.suite_of_mem`, `suite_of_mem_forestBody`: the members of
  classes are in the grammar of lines.
* `linesOf_classModule`: a text splits into the lines that it is printed from.
* `isModuleText_of_generated`: the layout of all texts of a catalog.
-/

namespace CodecMocks.Layout

open CodecMocks.Text

/-! ### Statements from parts -/

theorem onOneLine_of_unbroken {text : CodeText} (h : Unbroken text) : OnOneLine text := by
  rw [onOneLine_iff]
  intro c hc
  constructor
  · rintro rfl
    exact absurd (h _ hc) (by decide)
  · rintro rfl
    exact absurd (h _ hc) (by decide)

@[simp] theorem onOneLine_append {a b : CodeText} :
    OnOneLine (a ++ b) ↔ OnOneLine a ∧ OnOneLine b := by
  constructor
  · rintro ⟨hfeed, hreturn⟩
    rw [CodeText.toList_append, List.mem_append, not_or] at hfeed hreturn
    exact ⟨⟨hfeed.1, hreturn.1⟩, hfeed.2, hreturn.2⟩
  · rintro ⟨ha, hb⟩
    exact ha.append hb

theorem endsSolid_of_unbroken {text : CodeText} (h : Unbroken text) (hne : text ≠ "") :
    endsSolid text = true := by
  unfold endsSolid
  cases hlast : text.toList.getLast? with
  | none =>
    rw [List.getLast?_eq_none_iff, CodeText.toList_eq_nil_iff] at hlast
    exact absurd hlast hne
  | some c =>
    have hblank := h c (List.mem_of_getLast? hlast)
    simp [hblank]

instance (text : CodeText) : Decidable (IsStatement text) :=
  decidable_of_iff (beginsSolid text = true ∧ endsSolid text = true ∧ OnOneLine text)
    ⟨fun h => ⟨h.1, h.2.1, h.2.2⟩, fun h => ⟨h.begins, h.ends, h.onOneLine⟩⟩

/-- The text begins with a character that begins no heading word, and is not indented. -/
def beginsPlain (text : CodeText) : Bool :=
  text.toList.head?.any (· ∉ ['c', 'd', 'i', ' '].map CodePoint.ofChar)

theorem opensBlock_append_of_beginsPlain {first : CodeText} (h : beginsPlain first = true)
    (rest : CodeText) : opensBlock (first ++ rest) = false := by
  unfold beginsPlain at h
  cases hchars : first.toList with
  | nil =>
    rw [hchars] at h
    cases h
  | cons c cs =>
    rw [hchars] at h
    simp only [List.head?_cons, Option.any_some, List.map_cons, List.map_nil, List.mem_cons,
      List.not_mem_nil, or_false, not_or,
      Bool.decide_and, Bool.and_eq_true, decide_eq_true_eq] at h
    obtain ⟨hc, hd, hi, hspace⟩ := h
    simp [opensBlock, headingWords, startsWith, CodeText.toList_ofString, hchars, hspace,
      List.isPrefixOf, Ne.symm hc, Ne.symm hd, Ne.symm hi]

/-- A fixed text that lines which open no block can start with. -/
def IsPlainStart (first : CodeText) : Prop :=
  beginsSolid first = true ∧ OnOneLine first ∧ beginsPlain first = true

instance (first : CodeText) : Decidable (IsPlainStart first) :=
  inferInstanceAs (Decidable
    (beginsSolid first = true ∧ OnOneLine first ∧ beginsPlain first = true))

theorem startsWith_append {word : CodeText} (h : word ∈ headingWords) (rest : CodeText) :
    startsWith word (word ++ rest) = true := by
  simp only [headingWords, List.mem_cons, List.not_mem_nil, or_false] at h
  rcases h with rfl | rfl | rfl <;> simp [startsWith, CodeText.toList_ofString]

theorem opensBlock_append {word : CodeText} (h : word ∈ headingWords) (rest : CodeText) :
    opensBlock (word ++ rest) = true :=
  List.any_eq_true.mpr ⟨word, h, startsWith_append h rest⟩

theorem isStatement_append {a b : CodeText} (hbegins : beginsSolid a = true) (ha : OnOneLine a)
    (hends : endsSolid b = true) (hb : OnOneLine b) : IsStatement (a ++ b) where
  begins := beginsSolid_append hbegins b
  ends := endsSolid_append a hends
  onOneLine := ha.append hb

/-- A line that goes on with any text is a statement if that text ends like one. -/
theorem suite_line_append {first rest : CodeText} (hfirst : IsPlainStart first)
    (hends : endsSolid rest = true) (hrest : OnOneLine rest) : Suite [first ++ rest] := by
  obtain ⟨hbegins, hline, hplain⟩ := hfirst
  exact .line (isStatement_append hbegins hline hends hrest)
    (opensBlock_append_of_beginsPlain hplain rest)

/-- Statements that open no block, at least one. -/
def ArePlain (lines : List CodeText) : Prop :=
  lines ≠ [] ∧ ∀ line ∈ lines, IsStatement line ∧ opensBlock line = false

instance (lines : List CodeText) : Decidable (ArePlain lines) :=
  inferInstanceAs (Decidable
    (lines ≠ [] ∧ ∀ line ∈ lines, IsStatement line ∧ opensBlock line = false))

theorem suite_of_plain {lines : List CodeText} (h : ArePlain lines) : Suite lines := by
  obtain ⟨hne, hlines⟩ := h
  induction lines with
  | nil => exact absurd rfl hne
  | cons line rest ih =>
    obtain ⟨hline, hplain⟩ := hlines line List.mem_cons_self
    cases rest with
    | nil => exact .line hline hplain
    | cons next rest =>
      refine .next (.line hline hplain) (ih (List.cons_ne_nil next rest) ?_)
      intro other hother
      exact hlines other (List.mem_cons_of_mem line hother)

/-! ### Headings -/

theorem onOneLine_joinParameters {parameters : List Parameter}
    (h : ∀ p ∈ parameters, OnOneLine p.text) : OnOneLine (joinParameters parameters) := by
  have hcomma : OnOneLine ", " := by decide
  rw [onOneLine_iff]
  intro c hc
  rw [joinParameters, CodeText.toList_intercalate] at hc
  rcases mem_intercalate hc with hsep | ⟨part, hpart, hc⟩
  · exact onOneLine_iff.mp hcomma c hsep
  · obtain ⟨text, htext, rfl⟩ := List.mem_map.mp hpart
    obtain ⟨p, hp, rfl⟩ := List.mem_map.mp htext
    exact onOneLine_iff.mp (h p (List.mem_filter.mp hp).1) c hc

/-- The lines of a function are in the grammar if those of its body are. -/
theorem suite_function {name returns : CodeText} {parameters : List Parameter}
    {inner : List CodeText}
    (hname : OnOneLine name) (hparameters : ∀ p ∈ parameters, OnOneLine p.text)
    (hreturns : OnOneLine returns) (hinner : Suite inner) :
    Suite (functionHeading name parameters returns :: inner.map (indented 1)) := by
  have hjoined := onOneLine_joinParameters hparameters
  refine .block ?_ ?_ hinner
  · refine isStatement_append (b := ":") ?_ ?_ (by decide) (by decide)
    · simp only [CodeText.append_assoc]
      exact beginsSolid_append (by decide) _
    · simp only [onOneLine_append, hname, hjoined, hreturns, and_true]
      decide
  · simp only [functionHeading, CodeText.append_assoc]
    exact opensBlock_append (by decide) _

theorem isStatement_classHeading {name : CodeText} {bases : List Parameter} (hname : OnOneLine name)
    (hbases : ∀ p ∈ bases, OnOneLine p.text) (hsome : bases ≠ []) :
    IsStatement (classHeading name bases) ∧
      startsWith "class " (classHeading name bases) = true := by
  have hjoined := onOneLine_joinParameters hbases
  have hempty : bases.isEmpty = false := by simpa using hsome
  rw [classHeading, hempty]
  constructor
  · refine isStatement_append (b := "):") ?_ ?_ (by decide) (by decide)
    · simp only [CodeText.append_assoc]
      exact beginsSolid_append (by decide) _
    · simp only [onOneLine_append, hname, hjoined, and_true]
      decide
  · simp only [CodeText.append_assoc]
    exact startsWith_append (by decide) _

/-- A line with its indentation written out. -/
theorem indented_one_append {first : CodeText} (h : first ≠ "") (rest : CodeText) :
    indented 1 (first ++ rest) = "    " ++ first ++ rest := by
  have hne : first ++ rest ≠ "" := by simp [h]
  rw [indented_of_ne_empty 1 hne, CodeText.append_assoc]
  rfl

end CodecMocks.Layout

namespace CodecMocks.Mock

open CodecMocks.Files CodecMocks.Layout CodecMocks.Naming CodecMocks.Schema CodecMocks.Text

/-! ### Members -/

/-- The texts that a property is written from hold no blanks. -/
structure Property.IsUnbroken (p : Property) : Prop where
  name : Unbroken p.name
  hint : Unbroken p.hint
  initial : Unbroken p.initial ∧ p.initial ≠ ""

theorem onOneLine_selfParameter : OnOneLine selfParameter.text := by decide

theorem Property.IsUnbroken.storage {p : Property} (h : p.IsUnbroken) :
    Unbroken (storageName p.name) :=
  .append (by decide) h.name

theorem Property.IsUnbroken.onOneLine_storedHint {p : Property} (h : p.IsUnbroken) :
    OnOneLine p.storedHint := by
  unfold Property.storedHint
  split
  · exact (onOneLine_of_unbroken h.hint).append (by decide)
  · exact onOneLine_of_unbroken h.hint

theorem storageName_ne_empty (p : CodeText) : storageName p ≠ "" := by
  intro h
  have hchars := congrArg CodeText.toList h
  rw [toList_storageName] at hchars
  cases hchars

theorem Property.suite_storage {p : Property} (h : p.IsUnbroken) : Suite p.storage := by
  have hinitial : p.initial.isEmpty = false := by
    rw [Bool.eq_false_iff, Ne, CodeText.isEmpty_iff]
    exact h.initial.2
  have htext : TypedVariable.text
      { name := storageName p.name, hint := p.storedHint, initial := p.initial } =
      "_" ++ (p.name ++ (": " ++ p.storedHint ++ " = ") ++ p.initial) := by
    simp [TypedVariable.text, hinitial, storageName, CodeText.append_assoc]
  rw [Property.storage, htext]
  refine suite_line_append (by decide) ?_ ?_
  · exact endsSolid_append _ (endsSolid_of_unbroken h.initial.1 h.initial.2)
  · simp only [onOneLine_append, onOneLine_of_unbroken h.name, h.onOneLine_storedHint,
      onOneLine_of_unbroken h.initial.1, and_true, true_and]
    decide

theorem Property.suite_accessor {p : Property} (h : p.IsUnbroken) : Suite p.accessor := by
  have hbody : Suite ["return self." ++ storageName p.name] := by
    refine suite_line_append (by decide) ?_ ?_
    · exact endsSolid_of_unbroken h.storage (storageName_ne_empty p.name)
    · exact onOneLine_of_unbroken h.storage
  have hindented : indented 1 ("return self." ++ storageName p.name) =
      "    return self." ++ storageName p.name :=
    indented_one_append (by decide) _
  have hself : ∀ q ∈ [selfParameter], OnOneLine q.text := by
    intro q hq
    rw [List.mem_singleton.mp hq]
    exact onOneLine_selfParameter
  have hfunction :=
    suite_function (onOneLine_of_unbroken h.name) hself h.onOneLine_storedHint hbody
  rwa [List.map_singleton, hindented] at hfunction

theorem Property.suite_mutator {p : Property} (h : p.IsUnbroken) : Suite p.mutator := by
  have hstorage := onOneLine_of_unbroken h.storage
  have hset : Suite ["self." ++ (storageName p.name ++ " = " ++ valueName)] := by
    refine suite_line_append (by decide) ?_ ?_
    · exact endsSolid_append _ (by decide)
    · simp only [onOneLine_append, hstorage, true_and]
      decide
  have hreturn : Suite ["return self"] := suite_of_plain (by decide)
  have hbody := hset.next hreturn
  have hname : OnOneLine (mutatorName p.name) :=
    OnOneLine.append (by decide) (onOneLine_of_unbroken h.name)
  have hvalue : OnOneLine (Parameter.typed { name := valueName, hint := p.hint }).text := by
    show OnOneLine (valueName ++ ": " ++ p.hint)
    simp only [onOneLine_append, onOneLine_of_unbroken h.hint, and_true]
    decide
  have hparameters : ∀ q ∈ [selfParameter, .typed { name := valueName, hint := p.hint }],
      OnOneLine q.text := by
    intro q hq
    rcases List.mem_cons.mp hq with rfl | hq
    · exact onOneLine_selfParameter
    · rw [List.mem_singleton.mp hq]
      exact hvalue
  have hself : OnOneLine "Self" := by decide
  have hfunction := suite_function hname hparameters hself hbody
  have hindented : indented 1 ("self." ++ (storageName p.name ++ " = " ++ valueName)) =
      "    self." ++ storageName p.name ++ " = " ++ valueName := by
    rw [indented_one_append (by decide), ← CodeText.append_assoc, ← CodeText.append_assoc]
    rfl
  rw [List.map_append, List.map_singleton, hindented] at hfunction
  exact hfunction

theorem Property.suite_of_mem {p : Property} (h : p.IsUnbroken) {m : List CodeText}
    (hm : m ∈ p.members) : Suite m := by
  simp only [Property.members, List.mem_cons, List.not_mem_nil, or_false] at hm
  rcases hm with rfl | rfl | rfl
  · exact suite_storage h
  · exact suite_accessor h
  · exact suite_mutator h

/-- The members of a cursor. All but its method to step on have a body of plain statements. -/
theorem suite_of_mem_cursorMembers {mock base : CodeText} (hmock : Unbroken mock)
    (hbase : Unbroken base) {m : List CodeText} (hm : m ∈ cursorMembers mock base) : Suite m := by
  have hbaseLine := onOneLine_of_unbroken hbase
  have hself : ∀ p ∈ [selfParameter], OnOneLine p.text := by decide
  simp only [cursorMembers, List.mem_cons, List.not_mem_nil, or_false] at hm
  rcases hm with rfl | rfl | rfl | rfl | rfl | rfl | rfl
  · have hitems : ∀ p ∈ [selfParameter, .plain ("*items: " ++ base)], OnOneLine p.text := by
      intro p hp
      rcases List.mem_cons.mp hp with rfl | hp
      · exact onOneLine_selfParameter
      · rw [List.mem_singleton.mp hp]
        exact OnOneLine.append (by decide) hbaseLine
    have hbody : Suite ["self.__items = items", "self.__index = 0"] :=
      suite_of_plain (by decide)
    exact suite_function (by decide) hitems (by decide) hbody
  · have hbody : Suite ["return len(self.__items)"] := suite_of_plain (by decide)
    exact suite_function (by decide) hself (by decide) hbody
  · have hbody : Suite ["return self.__index < len(self.__items)"] := suite_of_plain (by decide)
    exact suite_function (by decide) hself (by decide) hbody
  · have hraise : Suite ["raise StopIteration"] := suite_of_plain (by decide)
    have hguard : Suite ["if not self.has_next():", "    raise StopIteration"] :=
      .block (by decide) (by decide) hraise
    have hstep : Suite ["item = self.__items[self.__index]", "self.__index += 1", "return item"] :=
      suite_of_plain (by decide)
    exact suite_function (by decide) hself hbaseLine (hguard.next hstep)
  · have hraise : Suite ["raise TypeError(\"" ++ (mock ++ " fixtures cannot be removed\")")] := by
      refine suite_line_append (by decide) ?_ ?_
      · exact endsSolid_append _ (by decide)
      · exact (onOneLine_of_unbroken hmock).append (by decide)
    have hname : OnOneLine "remove" := by decide
    have hnone : OnOneLine "None" := by decide
    have hfunction := suite_function hname hself hnone hraise
    rw [List.map_singleton, indented_one_append (by decide), ← CodeText.append_assoc] at hfunction
    exact hfunction
  · have hbody : Suite ["return self"] := suite_of_plain (by decide)
    refine suite_function (by decide) hself ?_ hbody
    simp only [onOneLine_append, hbaseLine, and_true]
    decide
  · have hbody : Suite ["return self.next()"] := suite_of_plain (by decide)
    exact suite_function (by decide) hself hbaseLine hbody

/-! ### Classes -/

theorem suite_blockLines {ms : List (List CodeText)} (h : ∀ m ∈ ms, Suite m) :
    Suite (blockLines ms) := by
  cases ms with
  | nil =>
    show Suite ["pass"]
    exact suite_of_plain (by decide)
  | cons m rest =>
    show Suite ([("" : CodeText)].intercalate (m :: rest))
    induction rest generalizing m with
    | nil =>
      rw [List.intercalate_singleton]
      exact h m List.mem_cons_self
    | cons next rest ih =>
      rw [List.intercalate_cons_cons, List.append_assoc]
      refine .apart (h m List.mem_cons_self) (ih next ?_)
      intro n hn
      exact h n (List.mem_cons_of_mem m hn)

theorem isStatement_heading {typeName base : CodeText} (htype : Unbroken typeName)
    (hbase : Unbroken base) :
    IsStatement (classHeading (mockName typeName) [.plain base]) ∧
      startsWith "class " (classHeading (mockName typeName) [.plain base]) = true := by
  refine isStatement_classHeading (onOneLine_of_unbroken (unbroken_mockName htype)) ?_
    (List.cons_ne_nil _ _)
  intro p hp
  rw [List.mem_singleton.mp hp]
  exact onOneLine_of_unbroken hbase

theorem suite_classLines {typeName base : CodeText} (htype : Unbroken typeName)
    (hbase : Unbroken base) {ms : List (List CodeText)} (h : ∀ m ∈ ms, Suite m) :
    Suite (classLines typeName base ms) := by
  obtain ⟨hheading, hclass⟩ := isStatement_heading htype hbase
  refine .block hheading ?_ (suite_blockLines h)
  simp [opensBlock, headingWords, hclass]

/-! ### The properties of token ranges -/

theorem isUnbroken_of_primitiveProperty? {name : CodeText} (hname : Unbroken name) {t : Token}
    {p : Property} (h : primitiveProperty? name t = some p) : p.IsUnbroken := by
  have hhints : ∀ hint ∈ primitiveHints, Unbroken hint := by decide
  have hhint := hhints p.hint (hint_mem_primitiveHints h)
  have hnone : p.initial = "None" := by
    obtain ⟨hint, rfl⟩ := exists_hint_of_primitiveProperty? h
    rfl
  constructor
  · rw [name_of_primitiveProperty? h]
    exact hname
  · exact hhint
  · rw [hnone]
    decide

/-- A property without an initial value of its own. -/
theorem isUnbroken_typed {name hint : CodeText} (hname : Unbroken name) (hhint : Unbroken hint) :
    Property.IsUnbroken { name, hint } where
  name := hname
  hint := hhint
  initial := by
    show Unbroken "None" ∧ ("None" : CodeText) ≠ ""
    decide

theorem isUnbroken_flag {name : CodeText} (hname : Unbroken name) :
    Property.IsUnbroken { name, hint := "bool", initial := "False", optional := false } where
  name := hname
  hint := by
    show Unbroken "bool"
    decide
  initial := by
    show Unbroken "False" ∧ ("False" : CodeText) ≠ ""
    decide

theorem IsMade.isUnbroken {members types : CodeText → Prop} {reserved : List CodeText}
    {p : Property} (h : IsMade members types reserved p) : p.IsUnbroken := by
  cases h with
  | primitive name _ t h =>
    exact isUnbroken_of_primitiveProperty? (unbroken_propertyName name reserved) h
  | named name typeName =>
    exact isUnbroken_typed (unbroken_propertyName name reserved) (unbroken_className typeName)
  | choice name => exact isUnbroken_flag (unbroken_propertyName name reserved)

theorem suite_of_mem_ofProperties {members types : CodeText → Prop} {reserved : List CodeText}
    {ps : List Property} (hps : ∀ p ∈ ps, IsMade members types reserved p) {m : List CodeText}
    (hm : m ∈ (ClassBody.ofProperties ps).members) : Suite m := by
  rw [ClassBody.members_ofProperties] at hm
  obtain ⟨p, hp, hm⟩ := List.mem_flatMap.mp hm
  exact Property.suite_of_mem (hps p hp).isUnbroken hm

theorem isUnbroken_groupProperty (reserved : List CodeText) (group : CodeText) {parent : CodeText}
    (hparent : Unbroken parent) :
    (groupProperty reserved (GroupNames.of group parent)).IsUnbroken := by
  have hbase : Unbroken (parent ++ "." ++ className group) :=
    (hparent.append (by decide)).append (unbroken_className group)
  unfold groupProperty GroupNames.of
  dsimp only
  exact isUnbroken_typed (unbroken_avoidTaken (unbroken_propertyName _ []) reserved) hbase

/-- What a forest adds to a class is in the grammar of lines. -/
theorem suite_of_mem_forestBody {parent : CodeText} (hparent : Unbroken parent)
    {reserved : List CodeText} {forest : GroupForest} {m : List CodeText}
    (hm : m ∈ (forestBody parent reserved forest).members) : Suite m := by
  induction forest generalizing parent reserved m with
  | nil => cases hm
  | group marker fields nested next ihNested ihNext =>
    have hname : Unbroken (className marker.name) := unbroken_className marker.name
    have hbase : Unbroken (parent ++ "." ++ className marker.name) :=
      (hparent.append (by decide)).append hname
    rcases List.mem_append.mp hm with hm | hm
    · exact Property.suite_of_mem (isUnbroken_groupProperty reserved marker.name hparent) hm
    rcases List.mem_cons.mp hm with rfl | hm
    · refine suite_classLines hname hbase ?_
      intro inner hinner
      rcases List.mem_append.mp hinner with hinner | hinner
      · exact suite_of_mem_cursorMembers (unbroken_mockName hname) hbase hinner
      rw [ClassBody.members_append] at hinner
      rcases List.mem_append.mp hinner with hinner | hinner
      · exact suite_of_mem_ofProperties (fun _ hp => isMade_of_mem_fieldProperties hp) hinner
      · exact ihNested hbase hinner
    · exact ihNext hparent hm

/-- Every class that a catalog may have is laid out as its kind and its names allow. -/
theorem IsEmitted.suite_of_mem {k : MockClass} (h : IsEmitted k) {m : List CodeText}
    (hm : m ∈ k.members) : Suite m := by
  cases h with
  | composite name tokens =>
    exact suite_of_mem_ofProperties (fun _ hp => isMade_of_mem_compositeProperties hp) hm
  | set name tokens =>
    exact suite_of_mem_ofProperties (fun _ hp => isMade_of_mem_choiceProperties hp) hm
  | message name fields forest =>
    change m ∈ (ClassBody.ofProperties _ ++ forestBody _ _ _).members at hm
    rw [ClassBody.members_append] at hm
    rcases List.mem_append.mp hm with hm | hm
    · exact suite_of_mem_ofProperties (fun _ hp => isMade_of_mem_fieldProperties hp) hm
    · exact suite_of_mem_forestBody (unbroken_className name) hm

/-! ### Texts -/

/-- The lines of a text; what follows the last line end counts as a line. -/
def linesOf (text : CodeText) : List CodeText :=
  (text.toList.splitOn (.ofChar '\n')).map CodeText.ofList

/-- The lines of the text of a module after the ten that every module starts with. The text ends
with a line end, which starts no line of its own. -/
def contentLines (text : CodeText) : List CodeText :=
  ((linesOf text).drop 10).dropLast

/-- The text of a module: the lines that every module of the package starts with, then the lines of
a class. It ends with one line end and holds no carriage return. -/
structure IsModuleText (package text : CodeText) : Prop where
  start : (linesOf text).take 10 = preamble package
  laidOut : IsLaidOut (contentLines text)
  lineEnd : ∃ before last, text.toList = before ++ [last, .ofChar '\n'] ∧ last ≠ .ofChar '\n'
  noReturn : CodePoint.ofChar '\r' ∉ text.toList

/-- Every line of a module ends with a line end, the last one too. -/
theorem toList_text_classModule (package : CodeText) (k : MockClass) :
    (classModule package k).text.toList =
      [CodePoint.ofChar '\n'].intercalate
        ((preamble package ++ k.lines ++ [("" : CodeText)]).map CodeText.toList) := by
  have hlines : (preamble package ++ k.lines ++ [("" : CodeText)]).map CodeText.toList =
      (preamble package ++ k.lines).map CodeText.toList ++ [[]] := by
    rw [List.map_append, List.map_singleton, CodeText.toList_empty]
  show (CodeText.intercalate "\n" (preamble package ++ k.lines) ++ "\n").toList = _
  rw [CodeText.toList_append, CodeText.toList_intercalate, hlines,
    intercalate_append _ (by simp [preamble]) (List.cons_ne_nil _ _), List.intercalate_singleton,
    List.append_nil]
  rfl

theorem onOneLine_of_mem_preamble {package : CodeText} (hpackage : OnOneLine package) :
    ∀ line ∈ preamble package, OnOneLine line := by
  have himport : OnOneLine ("from " ++ package ++ " import *  # noqa: F403") := by
    simp only [onOneLine_append, hpackage, and_true]
    decide
  simp only [preamble, List.forall_mem_cons, himport, true_and]
  decide

section

variable {package : CodeText} {k : MockClass} (hpackage : OnOneLine package)
  (hlines : ∀ line ∈ k.lines, OnOneLine line)

include hpackage hlines

theorem onOneLine_of_mem_module :
    ∀ line ∈ preamble package ++ k.lines ++ [("" : CodeText)], OnOneLine line := by
  intro line hline
  rcases List.mem_append.mp hline with hline | hline
  · rcases List.mem_append.mp hline with hline | hline
    · exact onOneLine_of_mem_preamble hpackage line hline
    · exact hlines line hline
  · rw [List.mem_singleton.mp hline]
    decide

/-- A text that is printed from lines without line ends splits into these lines. -/
theorem linesOf_classModule :
    linesOf (classModule package k).text = preamble package ++ k.lines ++ [("" : CodeText)] := by
  have hsplit : (classModule package k).text.toList.splitOn (CodePoint.ofChar '\n') =
      (preamble package ++ k.lines ++ [("" : CodeText)]).map CodeText.toList := by
    rw [toList_text_classModule]
    refine List.splitOn_intercalate (CodePoint.ofChar '\n') ?_ (by simp [preamble])
    intro part hpart
    obtain ⟨line, hline, rfl⟩ := List.mem_map.mp hpart
    exact (onOneLine_of_mem_module hpackage hlines line hline).1
  rw [linesOf, hsplit, List.map_map]
  exact List.map_id'' CodeText.ofList_toList _

theorem contentLines_classModule : contentLines (classModule package k).text = k.lines := by
  rw [contentLines, linesOf_classModule hpackage hlines, List.append_assoc]
  exact List.dropLast_concat

theorem return_not_mem_text : CodePoint.ofChar '\r' ∉ (classModule package k).text.toList := by
  intro hmem
  rw [toList_text_classModule] at hmem
  rcases mem_intercalate hmem with hend | ⟨part, hpart, hmem⟩
  · exact absurd hend (by decide)
  · obtain ⟨line, hline, rfl⟩ := List.mem_map.mp hpart
    exact (onOneLine_of_mem_module hpackage hlines line hline).2 hmem

end

/-- A text ends with one line end if its last line does not end in a blank. -/
theorem lineEnd_classModule {package : CodeText} {k : MockClass} {last : CodeText}
    (hlast : last ∈ k.lines.getLast?) (hne : last ≠ "")
    (hend : ∀ c ∈ last.toList.getLast?, isBlank c = false) :
    ∃ before c, (classModule package k).text.toList = before ++ [c, .ofChar '\n'] ∧
      c ≠ .ofChar '\n' := by
  obtain ⟨lines, hlines⟩ := List.getLast?_eq_some_iff.mp hlast
  obtain ⟨chars, c, hchars⟩ : ∃ chars c, last.toList = chars ++ [c] := by
    have hnil : last.toList ≠ [] := by simpa using hne
    exact ⟨_, _, (List.dropLast_append_getLast hnil).symm⟩
  have hc : isBlank c = false := hend c (by rw [hchars, List.getLast?_concat]; rfl)
  refine ⟨[CodePoint.ofChar '\n'].intercalate ((preamble package ++ lines).map CodeText.toList) ++
    [.ofChar '\n'] ++ chars, c, ?_, ?_⟩
  · have hparts : (preamble package ++ k.lines ++ [("" : CodeText)]).map CodeText.toList =
        (preamble package ++ lines).map CodeText.toList ++ [chars ++ [c]] ++ [[]] := by
      rw [hlines, ← hchars]
      simp
    rw [toList_text_classModule, hparts, intercalate_append _ (by simp) (List.cons_ne_nil _ _),
      intercalate_append _ (by simp [preamble]) (List.cons_ne_nil _ _)]
    simp
  · rintro rfl
    exact absurd hc (by decide)

/-! ### The layout of all texts -/

theorem IsEmitted.unbroken {k : MockClass} (h : IsEmitted k) :
    Unbroken k.typeName ∧ k.base = k.typeName := by
  cases h with
  | composite name tokens => exact ⟨unbroken_className name, rfl⟩
  | set name tokens => exact ⟨unbroken_className name, rfl⟩
  | message name fields forest => exact ⟨unbroken_className name, rfl⟩

/-- The module of a class of any catalog is laid out. -/
theorem IsEmitted.isModuleText {k : MockClass} (h : IsEmitted k) {package : CodeText}
    (hpackage : OnOneLine package) : IsModuleText package (classModule package k).text := by
  obtain ⟨htype, hbase⟩ := h.unbroken
  obtain ⟨hheading, hclass⟩ := isStatement_heading htype (hbase ▸ htype)
  have hmembers : ∀ m ∈ k.members, Suite m := fun _ hm => h.suite_of_mem hm
  have hrun : IsRun k.lines := (suite_classLines htype (hbase ▸ htype) hmembers).isRun
  constructor
  · rw [linesOf_classModule hpackage hrun.onOneLine, List.append_assoc]
    rfl
  · rw [contentLines_classModule hpackage hrun.onOneLine]
    exact isLaidOut_of_suite hheading hclass (suite_blockLines hmembers)
  · obtain ⟨last, hlast⟩ : ∃ last, last ∈ k.lines.getLast? :=
      ⟨_, List.getLast?_eq_getLast_of_ne_nil hrun.ne_nil⟩
    exact lineEnd_classModule hlast (hrun.last last hlast).1
      (hrun.ends last (List.mem_of_getLast? hlast))
  · exact return_not_mem_text hpackage hrun.onOneLine

/-- A class without members holds `pass` and nothing else. -/
theorem IsEmitted.contentLines_of_members_nil {k : MockClass} (h : IsEmitted k) {package : CodeText}
    (hpackage : OnOneLine package) (hnone : k.members = []) :
    contentLines (classModule package k).text =
      [classHeading (mockName k.typeName) [.plain k.typeName], "    pass"] := by
  obtain ⟨htype, hbase⟩ := h.unbroken
  have hrun : IsRun k.lines := by
    refine (suite_classLines htype (hbase ▸ htype) ?_).isRun
    rw [hnone]
    exact fun _ hm => (List.not_mem_nil hm).elim
  rw [contentLines_classModule hpackage hrun.onOneLine, MockClass.lines, hnone, hbase]
  rfl

/-- What is kept after modules have been handed over are their names and texts. -/
theorem mem_state_afterAll {p : Progress Shelf} {modules : List MockModule}
    {unit : CodeText × CodeText} (h : unit ∈ (p.afterAll modules).state) :
    unit ∈ p.state ∨ ∃ m ∈ modules, unit = (m.name, m.text) := by
  induction modules generalizing p with
  | nil => exact .inl h
  | cons m rest ih =>
    rcases ih (p := p.afterAll [m]) h with hkept | ⟨other, hother, hunit⟩
    · rcases Entries.mem_of_mem_put hkept with hunit | hkept
      · exact .inr ⟨m, List.mem_cons_self, hunit⟩
      · exact .inl hkept
    · exact .inr ⟨other, List.mem_cons_of_mem m hother, hunit⟩

/-- **All texts have one layout.** Whatever the tokens and the names of a catalog are, if its
package is named on one line and no range of types or messages is empty, its modules are made, and
all their texts are laid out. A class without members holds `pass`. -/
theorem isModuleText_of_generated (c : Catalog) (hpackage : OnOneLine c.package)
    (htypes : ∀ tokens ∈ c.types, tokens ≠ []) (hmessages : ∀ tokens ∈ c.messages, tokens ≠ []) :
    let session := ({ state := [] } : Progress Shelf).stage memoryDestination c .all
    (session.2 = none ∧ ∀ unit ∈ session.1.state, IsModuleText c.package unit.2) ∧
      (∀ s m, .ok (some m) ∈ modulesOf c s → IsModuleText c.package m.text) ∧
      ∀ s, ∀ k ∈ classesOf c s, k.members = [] →
        contentLines (classModule c.package k).text =
          [classHeading (mockName k.typeName) [.plain k.typeName], "    pass"] := by
  intro session
  refine ⟨?_, ?_, ?_⟩
  · obtain ⟨made, hmade, hmodules⟩ := modulesOf_all htypes hmessages
    have hsession : session.2 = none ∧
        session.1.state = (Progress.afterAll { state := [] } (made.filterMap id)).state := by
      simp only [session, Progress.stage, hmade, handAll_memory, if_true, and_self]
    refine ⟨hsession.1, ?_⟩
    intro unit hunit
    rw [hsession.2, hmodules] at hunit
    rcases mem_state_afterAll hunit with hnone | ⟨m, hm, rfl⟩
    · cases hnone
    · obtain ⟨k, hk, rfl⟩ := List.mem_map.mp hm
      exact (isEmitted_of_mem_classesOf hk).isModuleText hpackage
  · intro s m hmade
    obtain ⟨k, hk, rfl⟩ := exists_class_of_mem_modulesOf hmade
    exact (isEmitted_of_mem_classesOf hk).isModuleText hpackage
  · intro s k hk hnone
    exact (isEmitted_of_mem_classesOf hk).contentLines_of_members_nil hpackage hnone

/-- A catalog with line ends and other blanks in its names and with a group that is not ended. -/
def brokenCatalog : Catalog where
  package := "n"
  header := [⟨.beginComposite, "header", none⟩, ⟨.endComposite, "header", none⟩]
  types := [[⟨.beginSet, "fl\r\nags", none⟩]]
  messages :=
    [[⟨.beginMessage, "\n tr\u2028ade", none⟩, ⟨.beginField, "pri\n\nce ", none⟩,
      ⟨.encoding, "", some { primitive := .uint8 }⟩, ⟨.beginGroup, "le\tgs", none⟩,
      ⟨.beginField, "class\r", none⟩, ⟨.beginEnum, " side\n", none⟩, ⟨.endMessage, "", none⟩]]
  header_ne_nil := List.cons_ne_nil _ _

theorem brokenCatalog_laidOut :
    (OnOneLine brokenCatalog.package ∧ (∀ tokens ∈ brokenCatalog.types, tokens ≠ []) ∧
        ∀ tokens ∈ brokenCatalog.messages, tokens ≠ []) ∧
      let session := ({ state := [] } : Progress Shelf).stage memoryDestination brokenCatalog .all
      (session.2 = none ∧ ∀ unit ∈ session.1.state, IsModuleText "n" unit.2) ∧
        ∃ m, .ok (some m) ∈ modulesOf brokenCatalog .types ∧
          contentLines m.text = (["class FlAgsMock(FlAgs):", "    pass"] : List CodeText) := by
  have hpackage : OnOneLine brokenCatalog.package := by decide
  have htypes : ∀ tokens ∈ brokenCatalog.types, tokens ≠ [] := by decide
  have hmessages : ∀ tokens ∈ brokenCatalog.messages, tokens ≠ [] := by decide
  obtain ⟨hkept, -, hpass⟩ := isModuleText_of_generated brokenCatalog hpackage htypes hmessages
  refine ⟨⟨hpackage, htypes, hmessages⟩, hkept, ?_⟩
  let flags : List Token := [⟨.beginSet, "fl\r\nags", none⟩]
  let k : MockClass :=
    .plain (className "fl\r\nags") (.ofProperties (choiceProperties [] (body flags)))
  have hclass : typeClass? flags = some k := rfl
  refine ⟨classModule brokenCatalog.package k, ?_, ?_⟩
  · refine List.mem_map.mpr ⟨flags, List.mem_cons_self, ?_⟩
    rw [typeModule?_eq (List.cons_ne_nil _ _), hclass]
    rfl
  · have hk : k ∈ classesOf brokenCatalog .types :=
      List.mem_filterMap.mpr ⟨flags, List.mem_cons_self, hclass⟩
    have hname : className "fl\r\nags" = "FlAgs" := by decide +kernel
    rw [hpass .types k hk rfl]
    show [classHeading (mockName (className "fl\r\nags")) [.plain (className "fl\r\nags")],
      "    pass"] = (["class FlAgsMock(FlAgs):", "    pass"] : List CodeText)
    rw [hname]
    rfl

end CodecMocks.Mock
