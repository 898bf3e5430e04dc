import CodecMocks.Json.Spelling
import CodecMocks.Number.Numeral
import CodecMocks.Schema.Catalog

/-!
# Documents

The JSON form of a catalog. `Catalog.ofDocument` reads it, tolerating absent and unknown members,
and reports the first value that has the wrong shape; `Catalog.toDocument` writes it in full. Some
values have to be spelled for that, and `depth` bounds the depth of those that can be.
-/

namespace CodecMocks.Schema

open CodecMocks CodecMocks.Number CodecMocks.Text

/-- Why a value is no array length. -/
inductive LengthError where
  | malformed (text : CodeText)
  | tooManyDigits (digits : Nat)
  | undefined
  | infinite
  | wrongKind (kind : String)
deriving DecidableEq, Repr

/-- Why a value does not describe a token stream. -/
inductive DocumentError where
  /-- An object has no member of this name. -/
  | missing (name : String)
  /-- A member is looked up in a list. -/
  | memberOfList
  /-- A member is looked up in a text. -/
  | memberOfText
  /-- A member is looked up in a value that has no parts. -/
  | memberOfScalar (kind : String)
  /-- A value that has no parts is walked. -/
  | notIterable (kind : String)
  /-- The name of a token is no text. -/
  | nameNotText (kind : String)
  /-- A signal is looked up by a list or an object. -/
  | signalUnhashable (kind : String)
  /-- A signal that there is not; all values of this kind come with their literal. -/
  | unknownSignal (literal : String)
  | unknownPrimitive (literal : String)
  | unknownPresence (literal : String)
  /-- A signal that there is not, and that cannot be spelled when this is reported. -/
  | signalUnspelled (fault : Json.SpellFault)
  /-- A primitive type or a presence that there is not, or a constant, that cannot be spelled. -/
  | unspelled (fault : Json.SpellFault)
  /-- An encoding is neither absent nor an object. -/
  | encodingNotObject (kind : String)
  | length (error : LengthError)

/-- How much of a malformed numeral is shown. -/
def shownLength : Nat := 200

/-- The wording of a length error. -/
def LengthError.message : LengthError → String
  | .malformed text =>
    "invalid literal for int() with base 10: " ++
      String.ofList (text.quoted.toList.take shownLength)
  | .tooManyDigits digits => Number.tooManyDigits digits
  | .undefined => "cannot convert float NaN to integer"
  | .infinite => "cannot convert float infinity to integer"
  | .wrongKind kind =>
    "int() argument must be a string, a bytes-like object or a real number, not '" ++ kind ++ "'"

/-- The wording of a document error. -/
def DocumentError.message : DocumentError → String
  | .missing name => quoted name
  | .memberOfList => "list indices must be integers or slices, not str"
  | .memberOfText => "string indices must be integers, not 'str'"
  | .memberOfScalar kind => "'" ++ kind ++ "' object is not subscriptable"
  | .notIterable kind => "'" ++ kind ++ "' object is not iterable"
  | .nameNotText kind => "token name must be a string, not " ++ kind
  | .signalUnhashable kind => "unhashable type: '" ++ kind ++ "'"
  | .unknownSignal literal => literal
  | .unknownPrimitive literal => literal ++ " is not a valid PrimitiveType"
  | .unknownPresence literal => literal ++ " is not a valid Presence"
  | .signalUnspelled fault => fault.message
  | .unspelled fault => fault.message
  | .encodingNotObject kind => "'" ++ kind ++ "' object has no attribute 'get'"
  | .length error => error.message

/-- The error counts as a fault of the document. Some do not, and stop the whole program: an
encoding of the wrong shape, an infinite array length, a value that is nested too deep to be
spelled, and an unknown signal that cannot be spelled, since that is found out while it is being
reported. -/
def DocumentError.isReported : DocumentError → Bool
  | .encodingNotObject _ => false
  | .length .infinite => false
  | .unspelled .tooDeep => false
  | .signalUnspelled _ => false
  | _ => true

/-- The parts of a value that is walked. -/
def partsOf (value : Json) : Except DocumentError (List Json) :=
  match value.items? with
  | some items => .ok items
  | none => .error (.notIterable value.kindName)

/-- The member of a value, which must be there. -/
def memberOf (name : String) : Json → Except DocumentError Json
  | .object members =>
    match Json.lookup name members with
    | some value => .ok value
    | none => .error (.missing name)
  | .list _ => .error .memberOfList
  | .text _ => .error .memberOfText
  | value => .error (.memberOfScalar value.kindName)

/-- An error that shows a value, or else `fault` of what is wrong with showing it. -/
def shown {α : Type} (depth : Nat) (value : Json) (error : String → DocumentError)
    (fault : Json.SpellFault → DocumentError) : Except DocumentError α :=
  match value.literal depth with
  | .ok literal => .error (error literal)
  | .error e => .error (fault e)

/-- The signal that a value names. -/
def signalOf (depth : Nat) : Json → Except DocumentError Signal
  | .text s =>
    match Signal.ofName? s with
    | some signal => .ok signal
    | none => shown depth (.text s) .unknownSignal .signalUnspelled
  | .list items => .error (.signalUnhashable (Json.list items).kindName)
  | .object members => .error (.signalUnhashable (Json.object members).kindName)
  | value => shown depth value .unknownSignal .signalUnspelled

/-- The primitive type that a value names. -/
def primitiveOf (depth : Nat) (value : Json) : Except DocumentError Primitive :=
  match value with
  | .text s =>
    match Primitive.ofName? s with
    | some primitive => .ok primitive
    | none => shown depth value .unknownPrimitive .unspelled
  | _ => shown depth value .unknownPrimitive .unspelled

/-- The presence that a value names. -/
def presenceOf (depth : Nat) (value : Json) : Except DocumentError Presence :=
  match value with
  | .text s =>
    match Presence.ofName? s with
    | some presence => .ok presence
    | none => shown depth value .unknownPresence .unspelled
  | _ => shown depth value .unknownPresence .unspelled

/-- The integer that a value stands for: an integer itself, one or zero for a truth value, a number
without its fraction, or the integer that a text denotes. -/
def lengthOf : Json → Except LengthError Int
  | .integer n => .ok n
  | .bool b => .ok (if b then 1 else 0)
  | .number x =>
    match x with
    | .finite _ _ _ => .ok (x.truncate?.getD 0)
    | .infinite _ => .error .infinite
    | .undefined => .error .undefined
  | .text s =>
    match readNumeral s with
    | .ok n => .ok n
    | .error .malformed => .error (.malformed s)
    | .error (.tooLong digits) => .error (.tooManyDigits digits)
  | value => .error (.wrongKind value.kindName)

/-- The text of a constant; an absent constant and `null` are the same. -/
def constantOf (depth : Nat) : Option Json → Except DocumentError (Option CodeText)
  | none | some .null => .ok none
  | some value =>
    match value.display depth with
    | .ok text => .ok (some text)
    | .error fault => .error (.unspelled fault)

/-- The encoding that a value describes. Of two faults the one in the earlier member counts, in the
order type, presence, length, constant. -/
def encodingOf (depth : Nat) : Json → Except DocumentError Encoding
  | .object members => do
    let primitive ← primitiveOf depth (← memberOf "primitive_type" (.object members))
    let presence ←
      match Json.lookup "presence" members with
      | some value => presenceOf depth value
      | none => .ok .required
    let arrayLength ←
      match Json.lookup "array_length" members with
      | some value => (lengthOf value).mapError .length
      | none => .ok 1
    let constValue ← constantOf depth (Json.lookup "const_value" members)
    return { primitive, presence, arrayLength, constValue }
  | value => .error (.encodingNotObject value.kindName)

/-- The token that a value describes. The name is read first, then the signal, then the encoding. -/
def tokenOf (depth : Nat) (value : Json) : Except DocumentError Token := do
  let name ←
    match ← memberOf "name" value with
    | .text name => .ok name
    | other => .error (.nameNotText other.kindName)
  let signal ← signalOf depth (← memberOf "signal" value)
  let encoding ←
    match value.member? "encoding" with
    | none | some .null => .ok none
    | some e => (encodingOf depth e).map some
  return { signal, name, encoding }

/-- The tokens that the parts of a value describe. -/
def tokensOf (depth : Nat) (value : Json) : Except DocumentError (List Token) := do
  (← partsOf value).mapM (tokenOf depth)

/-- The token ranges that the parts of a value describe. -/
def rangesOf (depth : Nat) (value : Json) : Except DocumentError (List (List Token)) := do
  (← partsOf value).mapM (tokensOf depth)

/-- The member of a document, an empty list if it is absent. -/
def memberOrEmpty (name : String) (document : Json) : Json :=
  (document.member? name).getD (.list [])

/-- Why a document is no catalog. -/
inductive CatalogError where
  | malformed (error : DocumentError)
  | noPackage

/-- What a report on a document starts with. -/
def reportHead : String := "Invalid IR document: "

/-- The error counts as a fault of the document. -/
def CatalogError.isReported : CatalogError → Bool
  | .malformed error => error.isReported
  | .noPackage => true

/-- The wording of a catalog error. -/
def CatalogError.message : CatalogError → String
  | .malformed error => if error.isReported then reportHead ++ error.message else error.message
  | .noPackage => reportHead ++ "'namespace' must be a non-empty string."

/-- The parts of a catalog as a document gives them: the package, which may be any value, the
header, the types and the messages. -/
def partsOfCatalog (depth : Nat) (document : Json) :
    Except DocumentError (Json × List Token × List (List Token) × List (List Token)) := do
  let package ← memberOf "namespace" document
  let header ← tokensOf depth (memberOrEmpty "header" document)
  let types ← rangesOf depth (memberOrEmpty "types" document)
  let messages ← rangesOf depth (memberOrEmpty "messages" document)
  return (package, header, types, messages)

/-- The catalog that a document describes. That the package is a text that is not empty is looked
at last. -/
def Catalog.ofDocument (depth : Nat) (document : Json) : Except CatalogError Catalog :=
  match partsOfCatalog depth document with
  | .error error => .error (.malformed error)
  | .ok (.text package, header, types, messages) =>
    if package.isEmpty then .error .noPackage
    else .ok (Catalog.ofParts package header types messages)
  | .ok _ => .error .noPackage

/-- The document form of an encoding: every member is written, a constant only if there is one. -/
def Encoding.toDocument (e : Encoding) : Json :=
  .record ([("primitive_type", .ofString e.primitive.name),
      ("presence", .ofString e.presence.name),
      ("array_length", .integer e.arrayLength)] ++
    match e.constValue with
    | some value => [("const_value", .text value)]
    | none => [])

/-- The document form of a token. -/
def Token.toDocument (t : Token) : Json :=
  .record ([("signal", .ofString t.signal.name), ("name", .text t.name)] ++
    match t.encoding with
    | some e => [("encoding", e.toDocument)]
    | none => [])

/-- The document form of a token range. -/
def rangeToDocument (tokens : List Token) : Json :=
  .list (tokens.map Token.toDocument)

/-- The document form of a catalog. -/
def Catalog.toDocument (c : Catalog) : Json :=
  .record [("namespace", .text c.package), ("header", rangeToDocument c.header),
    ("types", .list (c.types.map rangeToDocument)),
    ("messages", .list (c.messages.map rangeToDocument))]

end CodecMocks.Schema
