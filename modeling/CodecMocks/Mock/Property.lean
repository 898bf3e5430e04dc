import CodecMocks.Layout.Declaration
import CodecMocks.Layout.Outline
import CodecMocks.Naming.PropertyName

/-!
# Members of a mock class

The members of a class are separated by blank lines. A property has three of them: its private
storage, its accessor and its fluent setter.
-/

namespace CodecMocks

open CodecMocks.Layout CodecMocks.Naming

namespace Outline

/-- The block has lines already, so that a blank line comes before the next member. -/
def gap (o : Outline) : List CodeText :=
  if o.lines.isEmpty then [] else [("" : CodeText)]

/-- Write the lines of a member, apart from the member before it. -/
def addMember (o : Outline) (lines : List CodeText) : Outline :=
  (o.write o.gap).write lines

/-- Write several members. -/
def addMembers (o : Outline) (members : List (List CodeText)) : Outline :=
  members.foldl addMember o

/-- Write the heading of a block as a member and continue in the block. -/
def openBlock (o : Outline) (name heading : CodeText) : Outline :=
  (o.addMember [heading]).enter name

/-- Open the mock class of the class `typeName`, whose path is `base`. -/
def openClass (o : Outline) (typeName base : CodeText) : Outline :=
  o.openBlock (mockName typeName) (classHeading (mockName typeName) [.plain base])

end Outline

namespace Mock

/-- A property of a mock class. -/
structure Property where
  name : CodeText
  hint : CodeText
  initial : CodeText := "None"
  /-- The stored value may be absent. -/
  optional : Bool := true
deriving DecidableEq, Repr

/-- The name of the parameter of a setter. -/
def valueName : CodeText := "value"

/-- The parameter that every method has. -/
def selfParameter : Parameter := .plain "self"

/-- The type hint of the stored value. -/
def Property.storedHint (p : Property) : CodeText :=
  if p.optional then p.hint ++ " | None" else p.hint

/-- The declaration of the private attribute. -/
def Property.storage (p : Property) : List CodeText :=
  [{ name := storageName p.name, hint := p.storedHint, initial := p.initial : TypedVariable }.text]

/-- The method that returns the stored value. -/
def Property.accessor (p : Property) : List CodeText :=
  [functionHeading p.name [selfParameter] p.storedHint,
   "    return self." ++ storageName p.name]

/-- The method that stores a value and returns the mock. -/
def Property.mutator (p : Property) : List CodeText :=
  [functionHeading (mutatorName p.name)
      [selfParameter, .typed { name := valueName, hint := p.hint }] "Self",
   "    self." ++ storageName p.name ++ " = " ++ valueName,
   "    return self"]

/-- The three members of a property. -/
def Property.members (p : Property) : List (List CodeText) :=
  [p.storage, p.accessor, p.mutator]

end Mock

namespace Outline

/-- Write the members of a property. -/
def addProperty (o : Outline) (p : Mock.Property) : Outline :=
  o.addMembers p.members

/-- Write the members of several properties. -/
def addProperties (o : Outline) (ps : List Mock.Property) : Outline :=
  ps.foldl addProperty o

@[simp] theorem depth_addMember (o : Outline) (lines : List CodeText) :
    (o.addMember lines).depth = o.depth := rfl

@[simp] theorem enclosing_addMember (o : Outline) (lines : List CodeText) :
    (o.addMember lines).enclosing = o.enclosing := rfl

@[simp] theorem reserved_addMember (o : Outline) (lines : List CodeText) :
    (o.addMember lines).current.reserved = o.current.reserved := rfl

@[simp] theorem enclosing_addMembers (o : Outline) (members : List (List CodeText)) :
    (o.addMembers members).enclosing = o.enclosing := by
  induction members generalizing o with
  | nil => rfl
  | cons m ms ih => exact ih (o.addMember m)

@[simp] theorem enclosing_addProperty (o : Outline) (p : Mock.Property) :
    (o.addProperty p).enclosing = o.enclosing :=
  enclosing_addMembers o _

@[simp] theorem enclosing_addProperties (o : Outline) (ps : List Mock.Property) :
    (o.addProperties ps).enclosing = o.enclosing := by
  induction ps generalizing o with
  | nil => rfl
  | cons p ps ih => exact (ih (o.addProperty p)).trans (enclosing_addProperty o p)

@[simp] theorem depth_addProperty (o : Outline) (p : Mock.Property) :
    (o.addProperty p).depth = o.depth := by
  simp [depth]

@[simp] theorem depth_addProperties (o : Outline) (ps : List Mock.Property) :
    (o.addProperties ps).depth = o.depth := by
  simp [depth]

@[simp] theorem depth_openClass (o : Outline) (typeName base : CodeText) :
    (o.openClass typeName base).depth = o.depth + 1 := rfl

end Outline

end CodecMocks
