import CodecMocks.Mock.Property
import CodecMocks.Schema.Scan

/-!
# The properties that tokens declare

A field, a member of a composite and a choice of a set each declare one property, unless the value
is constant or takes no space. A value of a named type is declared by the begin marker of that type;
what the type is made of is passed over.
-/

namespace CodecMocks.Mock

open CodecMocks.Naming CodecMocks.Schema

/-- The property of a primitive value: a single value, or an array of more than one. Constant values
and empty arrays have none. -/
def primitiveProperty? (name : CodeText) (t : Token) : Option Property :=
  match t.encoding with
  | none => none
  | some e =>
    if t.isConstant then none
    else if e.arrayLength = 1 then some { name, hint := e.primitive.scalarHint }
    else if e.arrayLength > 1 then some { name, hint := e.primitive.arrayHint }
    else none

/-- The property of a value of a named type. -/
def namedProperty (name typeName : CodeText) : Property :=
  { name, hint := className typeName }

/-- The property of a field that is followed by the token `value`. -/
def fieldProperty? (reserved : List CodeText) (field value : Token) : Option Property :=
  let name := propertyName field.name reserved
  if field.isConstant then none
  else if value.is .encoding then primitiveProperty? name value
  else if value.signal.typeEnd?.isSome && !value.isConstant then
    some (namedProperty name value.name)
  else none

/-- The properties of the fields among root field tokens. -/
def fieldProperties (reserved : List CodeText) : List Token → List Property
  | field :: value :: rest =>
    (if field.is .beginField then (fieldProperty? reserved field value).toList else []) ++
      fieldProperties reserved (value :: rest)
  | _ => []

/-- The properties of the members of a composite. The members of a nested type are passed over. -/
def compositeProperties (reserved : List CodeText) : List Token → List Property
  | [] => []
  | t :: ts =>
    let name := propertyName t.name reserved
    match t.signal.typeEnd? with
    | some closing =>
      (if t.isConstant then [] else [namedProperty name t.name]) ++
        compositeProperties reserved (afterBlock t.signal closing (t :: ts))
    | none =>
      (if t.is .encoding then (primitiveProperty? name t).toList else []) ++
        compositeProperties reserved ts
termination_by tokens => tokens.length
decreasing_by
  · exact length_afterBlock_lt _ _ _ _
  · exact Nat.lt_succ_self _

/-- The flags of the choices of a set. -/
def choiceProperties (reserved : List CodeText) (tokens : List Token) : List Property :=
  (tokens.filter (·.is .choice)).map fun t =>
    { name := propertyName t.name reserved, hint := "bool", initial := "False", optional := false }

end CodecMocks.Mock

namespace CodecMocks.Outline

open CodecMocks.Mock CodecMocks.Schema

/-- Write the property of a primitive value, if it has one. -/
def addPrimitive (o : Outline) (name : CodeText) (t : Token) : Outline :=
  o.addProperties (primitiveProperty? name t).toList

/-- Write the properties of root fields. -/
def addFields (o : Outline) (tokens : List Token) : Outline :=
  o.addProperties (fieldProperties o.current.reserved tokens)

/-- Write the properties of the members of a composite. -/
def addComposite (o : Outline) (tokens : List Token) : Outline :=
  o.addProperties (compositeProperties o.current.reserved tokens)

/-- Write the flags of a set. -/
def addChoices (o : Outline) (tokens : List Token) : Outline :=
  o.addProperties (choiceProperties o.current.reserved tokens)

end CodecMocks.Outline
