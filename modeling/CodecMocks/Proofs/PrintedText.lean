import CodecMocks.Proofs.BlockTrees
import CodecMocks.Proofs.Emission
import CodecMocks.Proofs.PropertyNames
import Mathlib.Data.List.Basic

/-!
# Printed text

The lines of properties, cursors, classes and modules as they stand in a module, each written out.
Nothing here is taken from what writes them: neither the headings nor the declarations nor the
members. Only the names in them are made as elsewhere.

* `printedProperty`, `printedCursor`: the members of a property that may be absent, and of a cursor.
* `printedClass`, `printedGroups`, `printedModule`: text that holds other text, moved to the right.
* `members_eq_printedProperty`, `cursorMembers_eq_printedCursor`, `classLines_eq_printedClass`,
  `classModule_eq_printedModule`: what is written is the printed text, part by part.
* `members_forestBody`: the same of a forest, by recursion.
* `Outline.continued`, `Outline.addProperties_eq_continued`: properties that are written into any
  outline.
-/

namespace CodecMocks.Mock

open CodecMocks.Naming CodecMocks.Schema CodecMocks.Text

/-! ### Members -/

/-- The members of a property that may be absent: its storage, its accessor and its mutator. -/
def printedProperty (name hint : CodeText) : List (List CodeText) :=
  [["_" ++ name ++ ": " ++ hint ++ " | None = None"],
   ["def " ++ name ++ "(self) -> " ++ hint ++ " | None:",
    "    return self._" ++ name],
   ["def set_" ++ name ++ "(self, value: " ++ hint ++ ") -> Self:",
    "    self._" ++ name ++ " = value",
    "    return self"]]

/-- The members of properties that may be absent. -/
def printedProperties (ps : List Property) : List (List CodeText) :=
  ps.flatMap fun p => printedProperty p.name p.hint

/-- The members of a cursor over items of the class at path `base`, in the class `mock`. -/
def printedCursor (mock base : CodeText) : List (List CodeText) :=
  [["def __init__(self, *items: " ++ base ++ ") -> None:",
    "    self.__items = items",
    "    self.__index = 0"],
   ["def count(self) -> int:",
    "    return len(self.__items)"],
   ["def has_next(self) -> bool:",
    "    return self.__index < len(self.__items)"],
   ["def next(self) -> " ++ base ++ ":",
    "    if not self.has_next():",
    "        raise StopIteration",
    "    item = self.__items[self.__index]",
    "    self.__index += 1",
    "    return item"],
   ["def remove(self) -> None:",
    "    raise TypeError(\"" ++ mock ++ " fixtures cannot be removed\")"],
   ["def __iter__(self) -> Iterator[" ++ base ++ "]:",
    "    return self"],
   ["def __next__(self) -> " ++ base ++ ":",
    "    return self.next()"]]

/-- The methods of a cursor that a property might be named like. -/
def cursorMethods : List CodeText := ["count", "has_next", "next", "remove"]

/-! ### Classes and modules -/

/-- A line at a depth; an empty line stays empty. -/
def movedIn (depth : Nat) (line : CodeText) : CodeText :=
  if line = "" then "" else margin depth ++ line

/-- The mock of a class with the given members: a blank line stands between two of them, and `pass`
where there is none. -/
def printedClass (typeName base : CodeText) (members : List (List CodeText)) : List CodeText :=
  ("class " ++ typeName ++ "Mock(" ++ base ++ "):") ::
    (if members = [] then [("pass" : CodeText)] else [("" : CodeText)].intercalate members).map
      (movedIn 1)

/-- The members that a forest adds to the class at a path, which has the members `taken`: for each
group its property, and its class with a cursor, the properties of its fields and what the groups in
it add. -/
def printedGroups (path : CodeText) (taken : List CodeText) : GroupForest → List (List CodeText)
  | .nil => []
  | .group marker fields nested next =>
    let typeName := className marker.name
    let base := path ++ "." ++ typeName
    let property := propertyName (CodeText.ofList (decapitalizeFirst marker.name.toList)) []
    printedProperty (avoidTaken property taken) base ++
      printedClass typeName base
        (printedCursor (typeName ++ "Mock") base ++
          printedProperties (fieldProperties cursorMethods fields) ++
          printedGroups base cursorMethods nested) ::
      printedGroups path taken next

/-- The module that holds the mock of one class. Each line ends in a line feed. -/
def printedModule (package typeName : CodeText) (members : List (List CodeText)) : MockModule where
  name := typeName ++ "Mock"
  text := CodeText.join
    ((preamble package ++ printedClass typeName typeName members).map (· ++ "\n"))

/-- The module of a message: the properties of its root fields, then its groups. -/
def printedMessage (package name : CodeText) (fields : List Token) (forest : GroupForest) :
    MockModule :=
  printedModule package (className name)
    (printedProperties (fieldProperties [] fields) ++ printedGroups (className name) [] forest)

/-! ### What is written -/

theorem indented_eq_movedIn (depth : Nat) : indented depth = movedIn depth :=
  funext fun line => indented_eq_margin depth line

/-- The parameters of a method without others. -/
theorem joinParameters_self : Layout.joinParameters [selfParameter] = "self" := by
  decide +kernel

/-- The parameters of a method with one other. -/
theorem joinParameters_self_cons {p : Layout.Parameter} (h : p.isPresent = true) :
    Layout.joinParameters [selfParameter, p] = "self, " ++ p.text := by
  have hself : selfParameter.isPresent = true := rfl
  rw [Layout.joinParameters, List.filter_cons_of_pos hself, List.filter_cons_of_pos h,
    List.filter_nil, List.map_cons, List.map_cons, List.map_nil, CodeText.intercalate_cons_cons,
    CodeText.intercalate_singleton]
  rfl

/-- The heading of a method without other parameters. -/
theorem functionHeading_self (name returns : CodeText) :
    Layout.functionHeading name [selfParameter] returns =
      "def " ++ name ++ "(self) -> " ++ returns ++ ":" := by
  rw [Layout.functionHeading, joinParameters_self]
  simp only [CodeText.append_assoc]
  rfl

/-- The heading of a method with one other parameter. -/
theorem functionHeading_self_cons (name returns : CodeText) {p : Layout.Parameter}
    (h : p.isPresent = true) :
    Layout.functionHeading name [selfParameter, p] returns =
      "def " ++ name ++ "(self, " ++ p.text ++ ") -> " ++ returns ++ ":" := by
  rw [Layout.functionHeading, joinParameters_self_cons h]
  simp only [CodeText.append_assoc]
  rfl

theorem members_eq_printedProperty (name hint : CodeText) :
    ({ name, hint } : Property).members = printedProperty name hint := by
  have hstorage : ({ name, hint } : Property).storage =
      ["_" ++ name ++ ": " ++ hint ++ " | None = None"] := by
    refine congrArg (fun line => [line]) ?_
    show "_" ++ name ++ ": " ++ (hint ++ " | None") ++ " = " ++ "None" = _
    simp only [CodeText.append_assoc]
    rfl
  have haccessor : ({ name, hint } : Property).accessor =
      ["def " ++ name ++ "(self) -> " ++ hint ++ " | None:", "    return self._" ++ name] := by
    rw [Property.accessor, functionHeading_self]
    show ["def " ++ name ++ "(self) -> " ++ (hint ++ " | None") ++ ":",
      "    return self." ++ ("_" ++ name)] = _
    simp only [CodeText.append_assoc]
    rfl
  have hmutator : ({ name, hint } : Property).mutator =
      ["def set_" ++ name ++ "(self, value: " ++ hint ++ ") -> Self:",
       "    self._" ++ name ++ " = value", "    return self"] := by
    rw [Property.mutator, functionHeading_self_cons _ _ rfl]
    show ["def " ++ ("set_" ++ name) ++ "(self, " ++ ("value" ++ ": " ++ hint) ++ ") -> " ++
      "Self" ++ ":", "    self." ++ ("_" ++ name) ++ " = " ++ "value", "    return self"] = _
    simp only [CodeText.append_assoc]
    rfl
  rw [Property.members, hstorage, haccessor, hmutator]
  rfl

theorem cursorMembers_eq_printedCursor (mock base : CodeText) :
    cursorMembers mock base = printedCursor mock base := by
  have hitems : (Layout.Parameter.plain ("*items: " ++ base)).isPresent = true := by
    simp [Layout.Parameter.isPresent]
  rw [cursorMembers, functionHeading_self_cons _ _ hitems]
  simp only [functionHeading_self, Layout.Parameter.text, CodeText.append_assoc]
  rfl

theorem classHeading_mockName (typeName base : CodeText) :
    Layout.classHeading (mockName typeName) [.plain base] =
      "class " ++ typeName ++ "Mock(" ++ base ++ "):" := by
  have hbase : Layout.joinParameters [.plain base] = base := by
    by_cases hempty : base = ""
    · rw [hempty]
      decide +kernel
    · have hpresent : (Layout.Parameter.plain base).isPresent = true := by
        simp [Layout.Parameter.isPresent, hempty]
      rw [Layout.joinParameters, List.filter_cons_of_pos hpresent]
      exact CodeText.intercalate_singleton ", " base
  rw [Layout.classHeading, hbase]
  show "class " ++ (typeName ++ "Mock") ++ "(" ++ base ++ "):" = _
  simp only [CodeText.append_assoc]
  rfl

theorem classLines_eq_printedClass (typeName base : CodeText) (members : List (List CodeText)) :
    classLines typeName base members = printedClass typeName base members := by
  rw [classLines, printedClass, classHeading_mockName, blockLines, indented_eq_movedIn]
  simp only [List.isEmpty_iff]

theorem intercalate_append_eq_join (ending line : CodeText) (lines : List CodeText) :
    CodeText.intercalate ending (line :: lines) ++ ending =
      CodeText.join ((line :: lines).map (· ++ ending)) := by
  induction lines generalizing line with
  | nil => simp
  | cons next rest ih =>
    rw [CodeText.intercalate_cons_cons, CodeText.append_assoc, ih]
    rfl

theorem classModule_eq_printedModule (package typeName : CodeText) (body : ClassBody) :
    classModule package (.plain typeName body) = printedModule package typeName body.members := by
  rw [classModule, printedModule, ← classLines_eq_printedClass]
  refine congrArg (MockModule.mk (typeName ++ "Mock")) ?_
  exact intercalate_append_eq_join "\n" _ _

theorem exists_hint_of_fieldProperty? {taken : List CodeText} {field value : Token} {p : Property}
    (h : fieldProperty? taken field value = some p) :
    ∃ hint, p = { name := propertyName field.name taken, hint } := by
  simp only [fieldProperty?] at h
  split at h
  · cases h
  · split at h
    · exact exists_hint_of_primitiveProperty? h
    · split at h
      · exact ⟨_, (Option.some.inj h).symm⟩
      · cases h

theorem members_of_mem_fieldProperties {taken : List CodeText} {fields : List Token} {p : Property}
    (h : p ∈ fieldProperties taken fields) : p.members = printedProperty p.name p.hint := by
  fun_induction fieldProperties taken fields with
  | case1 field value rest ih =>
    rcases List.mem_append.mp h with h | h
    · split at h
      · obtain ⟨hint, rfl⟩ := exists_hint_of_fieldProperty? (Option.mem_toList.mp h)
        exact members_eq_printedProperty _ hint
      · cases h
    · exact ih h
  | case2 => cases h

theorem members_eq_printedProperties {ps : List Property}
    (h : ∀ p ∈ ps, p.members = printedProperty p.name p.hint) :
    (ClassBody.ofProperties ps).members = printedProperties ps := by
  rw [ClassBody.members_ofProperties, printedProperties]
  exact List.flatMap_congr h

theorem members_fieldProperties (taken : List CodeText) (fields : List Token) :
    (ClassBody.ofProperties (fieldProperties taken fields)).members =
      printedProperties (fieldProperties taken fields) :=
  members_eq_printedProperties fun _ => members_of_mem_fieldProperties

/-- The members of the body that a forest adds are the printed groups. -/
theorem members_forestBody (path : CodeText) (taken : List CodeText) (forest : GroupForest) :
    (forestBody path taken forest).members = printedGroups path taken forest := by
  induction forest generalizing path taken with
  | nil => rfl
  | group marker fields nested next ihNested ihNext =>
    let base := path ++ "." ++ className marker.name
    have hclass : classLines (className marker.name) base
        (cursorMembers (mockName (className marker.name)) base ++
          (ClassBody.ofProperties (fieldProperties cursorNames fields) ++
            forestBody base cursorNames nested).members) =
        printedClass (className marker.name) base
          (printedCursor (className marker.name ++ "Mock") base ++
            printedProperties (fieldProperties cursorMethods fields) ++
            printedGroups base cursorMethods nested) := by
      rw [classLines_eq_printedClass, ClassBody.members_append, members_fieldProperties, ihNested,
        cursorMembers_eq_printedCursor, List.append_assoc]
      rfl
    rw [printedGroups, ← ihNext, ← hclass, ← members_eq_printedProperty]
    rfl

end CodecMocks.Mock

namespace CodecMocks.Outline

open CodecMocks.Mock

/-- The outline with printed members after the lines of its current block. A blank line comes before
each of them, but not before the first if the block has no lines. -/
def continued (o : Outline) (members : List (List CodeText)) : Outline :=
  o.extend ((if o.lines = [] then [("" : CodeText)].intercalate members
    else members.flatMap (("" : CodeText) :: ·)).map (movedIn o.depth))

/-- Properties that may be absent are written as they are printed. -/
theorem addProperties_eq_continued (o : Outline) {ps : List Property}
    (h : ∀ p ∈ ps, p.members = printedProperty p.name p.hint) :
    o.addProperties ps = o.continued (printedProperties ps) := by
  have hmembers : ps.flatMap Property.members = printedProperties ps := List.flatMap_congr h
  have hne : ∀ m ∈ ps.flatMap Property.members, m ≠ [] := by
    intro m hm
    obtain ⟨p, -, hp⟩ := List.mem_flatMap.mp hm
    exact (Property.isMember_of_mem hp).ne_nil
  rw [addProperties_eq_addMembers, addMembers_eq_write o hne, hmembers, continuation]
  simp only [List.isEmpty_iff]
  rw [continued, ← indented_eq_movedIn]
  rfl

end CodecMocks.Outline
