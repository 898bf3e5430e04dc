import CodecMocks.Naming.PropertyName

/-!
# The names of a repeating group

A group is a nested class of the class that declares it, so its base class is named by the whole
path of enclosing classes.
-/

namespace CodecMocks.Naming

open CodecMocks.Text

/-- The names that the mock of a group needs. -/
structure GroupNames where
  /-- The name in the schema. -/
  group : CodeText
  className : CodeText
  /-- The path of the class that is mocked. -/
  base : CodeText
  mock : CodeText
  /-- The property that holds the group in its parent. -/
  property : CodeText
deriving DecidableEq, Repr

/-- The names of a group that is declared in the class at path `parent`. The property name is taken
from the schema name with its first character in its small form. -/
def GroupNames.of (group parent : CodeText) : GroupNames :=
  let name := Naming.className group
  { group
    className := name
    base := parent ++ "." ++ name
    mock := mockName name
    property := propertyName (CodeText.ofList (decapitalizeFirst group.toList)) [] }

end CodecMocks.Naming
