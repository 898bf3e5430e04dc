import CodecMocks.Text.CodeText

/-!
# Tokens of a schema

A schema is a flat stream of tokens in which messages, groups, composites, enums and sets are
enclosed by a begin and an end marker. A token may carry the encoding of a primitive value.
-/

namespace CodecMocks.Schema

/-- The role of a token in the stream. -/
inductive Signal where
  | beginMessage
  | endMessage
  | beginComposite
  | endComposite
  | beginField
  | endField
  | beginGroup
  | endGroup
  | beginEnum
  | validValue
  | endEnum
  | beginSet
  | choice
  | endSet
  | beginVarData
  | endVarData
  | encoding
deriving DecidableEq, Repr

/-- Every signal. -/
def Signal.all : List Signal :=
  [.beginMessage, .endMessage, .beginComposite, .endComposite, .beginField, .endField,
   .beginGroup, .endGroup, .beginEnum, .validValue, .endEnum, .beginSet, .choice, .endSet,
   .beginVarData, .endVarData, .encoding]

/-- The name of a signal in a document. -/
def Signal.name : Signal → String
  | .beginMessage => "BEGIN_MESSAGE"
  | .endMessage => "END_MESSAGE"
  | .beginComposite => "BEGIN_COMPOSITE"
  | .endComposite => "END_COMPOSITE"
  | .beginField => "BEGIN_FIELD"
  | .endField => "END_FIELD"
  | .beginGroup => "BEGIN_GROUP"
  | .endGroup => "END_GROUP"
  | .beginEnum => "BEGIN_ENUM"
  | .validValue => "VALID_VALUE"
  | .endEnum => "END_ENUM"
  | .beginSet => "BEGIN_SET"
  | .choice => "CHOICE"
  | .endSet => "END_SET"
  | .beginVarData => "BEGIN_VAR_DATA"
  | .endVarData => "END_VAR_DATA"
  | .encoding => "ENCODING"

/-- The signal with a name. -/
def Signal.ofName? (name : CodeText) : Option Signal :=
  Signal.all.find? (CodeText.ofString ·.name == name)

@[simp] theorem Signal.ofName?_name (s : Signal) : Signal.ofName? s.name = some s := by
  cases s <;> decide

/-- The end marker of the blocks that stand for a named type: composites, enums and sets. -/
def Signal.typeEnd? : Signal → Option Signal
  | .beginComposite => some .endComposite
  | .beginEnum => some .endEnum
  | .beginSet => some .endSet
  | _ => none

/-- Whether a value has to be there. -/
inductive Presence where
  | required
  | optional
  | constant
deriving DecidableEq, Repr

/-- Every presence. -/
def Presence.all : List Presence := [.required, .optional, .constant]

/-- The name of a presence in a document. -/
def Presence.name : Presence → String
  | .required => "required"
  | .optional => "optional"
  | .constant => "constant"

/-- The presence with a name. -/
def Presence.ofName? (name : CodeText) : Option Presence :=
  Presence.all.find? (CodeText.ofString ·.name == name)

@[simp] theorem Presence.ofName?_name (p : Presence) : Presence.ofName? p.name = some p := by
  cases p <;> decide

/-- The types of single values. -/
inductive Primitive where
  | char
  | int8
  | int16
  | int32
  | int64
  | uint8
  | uint16
  | uint32
  | uint64
  | float
  | double
deriving DecidableEq, Repr

/-- Every primitive type. -/
def Primitive.all : List Primitive :=
  [.char, .int8, .int16, .int32, .int64, .uint8, .uint16, .uint32, .uint64, .float, .double]

/-- The name of a primitive type in a document. -/
def Primitive.name : Primitive → String
  | .char => "char"
  | .int8 => "int8"
  | .int16 => "int16"
  | .int32 => "int32"
  | .int64 => "int64"
  | .uint8 => "uint8"
  | .uint16 => "uint16"
  | .uint32 => "uint32"
  | .uint64 => "uint64"
  | .float => "float"
  | .double => "double"

/-- The primitive type with a name. -/
def Primitive.ofName? (name : CodeText) : Option Primitive :=
  Primitive.all.find? (CodeText.ofString ·.name == name)

@[simp] theorem Primitive.ofName?_name (p : Primitive) : Primitive.ofName? p.name = some p := by
  cases p <;> decide

/-- The type hint of a property that holds one value. -/
def Primitive.scalarHint : Primitive → CodeText
  | .char => "bytes"
  | .float | .double => "float"
  | _ => "int"

/-- The type hint of a property that holds an array. An array of characters is one byte string. -/
def Primitive.arrayHint (p : Primitive) : CodeText :=
  match p with
  | .char => p.scalarHint
  | _ => "list[" ++ p.scalarHint ++ "]"

/-- How the values of a leaf are encoded. -/
structure Encoding where
  primitive : Primitive
  presence : Presence := .required
  arrayLength : Int := 1
  constValue : Option CodeText := none
deriving DecidableEq, Repr

/-- One element of the stream. -/
structure Token where
  signal : Signal
  name : CodeText
  encoding : Option Encoding := none
deriving DecidableEq, Repr

/-- The number of values of a token; one if it has no encoding. -/
def Token.arrayLength (t : Token) : Int :=
  match t.encoding with
  | some e => e.arrayLength
  | none => 1

/-- The token has a constant value, which is not stored. -/
def Token.isConstant (t : Token) : Bool :=
  match t.encoding with
  | some e => e.presence == .constant
  | none => false

/-- The token has the given signal. -/
def Token.is (t : Token) (s : Signal) : Bool :=
  t.signal == s

@[simp] theorem Token.is_iff {t : Token} {s : Signal} : t.is s = true ↔ t.signal = s := by
  simp [Token.is]

end CodecMocks.Schema
