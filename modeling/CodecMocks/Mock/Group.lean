import CodecMocks.Mock.Members
import CodecMocks.Naming.GroupNames
import CodecMocks.Schema.GroupForest

/-!
# Mocks of repeating groups

A group is mocked by a nested class that walks over a fixed list of items. The class has the members
of a cursor over that list, whose names its properties must not take, then the properties of its
fields and the groups nested in it.
-/

namespace CodecMocks.Mock

open CodecMocks.Layout CodecMocks.Naming

/-- The public members of a cursor. -/
def cursorNames : List CodeText :=
  ["count", "has_next", "next", "remove"]

/-- The members of a cursor over items of the class at path `base`, in the class `mock`. The size of
the list does not depend on where the cursor is, and items cannot be removed. -/
def cursorMembers (mock base : CodeText) : List (List CodeText) :=
  [[functionHeading "__init__" [selfParameter, .plain ("*items: " ++ base)],
    "    self.__items = items",
    "    self.__index = 0"],
   [functionHeading "count" [selfParameter] "int",
    "    return len(self.__items)"],
   [functionHeading "has_next" [selfParameter] "bool",
    "    return self.__index < len(self.__items)"],
   [functionHeading "next" [selfParameter] base,
    "    if not self.has_next():",
    "        raise StopIteration",
    "    item = self.__items[self.__index]",
    "    self.__index += 1",
    "    return item"],
   [functionHeading "remove" [selfParameter],
    "    raise TypeError(\"" ++ mock ++ " fixtures cannot be removed\")"],
   [functionHeading "__iter__" [selfParameter] ("Iterator[" ++ base ++ "]"),
    "    return self"],
   [functionHeading "__next__" [selfParameter] base,
    "    return self.next()"]]

/-- The property that holds a group in a class that has the members `reserved`. -/
def groupProperty (reserved : List CodeText) (names : GroupNames) : Property :=
  { name := avoidTaken names.property reserved, hint := names.base }

end CodecMocks.Mock

namespace CodecMocks.Outline

open CodecMocks.Mock CodecMocks.Naming CodecMocks.Schema

/-- Open the mock class of a group and write its cursor. -/
def openGroup (o : Outline) (names : GroupNames) : Outline :=
  ((o.openClass names.className names.base).reserve cursorNames).addMembers
    (cursorMembers names.mock names.base)

/-- Write a property and a nested mock class for every group of a forest that is declared in the
class at path `parent`. -/
def addForest (o : Outline) (parent : CodeText) : GroupForest → Outline
  | .nil => o
  | .group marker fields nested next =>
    let names := GroupNames.of marker.name parent
    let held := o.addProperty (groupProperty o.current.reserved names)
    let inside := (held.openGroup names).addFields fields
    ((inside.addForest names.base nested).leave).addForest parent next

/-- Write the groups that a stream of tokens starts with; the tokens left start with the end of the
group around them, if there is one. -/
def addGroups (o : Outline) (parent : CodeText) (tokens : List Token) : Outline × List Token :=
  let (forest, rest) := GroupForest.read tokens
  (o.addForest parent forest, rest)

/-- Write the groups from a position on, and the position of the first token left. A position behind
the range is returned as it is. -/
def addGroupsAt (o : Outline) (parent : CodeText) (tokens : List Token) (index : Int) :
    Except OutOfRange (Outline × Int) :=
  if (tokens.length : Int) ≤ index then .ok (o, index)
  else do
    let (o, rest) := o.addGroups parent (← window tokens index)
    return (o, position tokens rest)

@[simp] theorem depth_openGroup (o : Outline) (names : GroupNames) :
    (o.openGroup names).depth = o.depth + 1 := by
  simp [openGroup, depth]
  rfl

@[simp] theorem depth_addFields (o : Outline) (tokens : List Token) :
    (o.addFields tokens).depth = o.depth := by
  simp [addFields]

/-- Every class that a forest opens is closed again. -/
@[simp] theorem depth_addForest (o : Outline) (parent : CodeText) (forest : GroupForest) :
    (o.addForest parent forest).depth = o.depth := by
  induction forest generalizing o parent with
  | nil => rfl
  | group marker fields nested next ihNested ihNext =>
    simp [addForest, ihNested, ihNext]

end CodecMocks.Outline
