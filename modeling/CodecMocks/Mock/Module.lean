import CodecMocks.Mock.Draft
import CodecMocks.Schema.Catalog

/-!
# The mock modules of a catalog

The message header, every set, every composite and every message have a module of their own, in this
order; enums have none. What a module holds depends on the package and on its own token range.
-/

namespace CodecMocks.Mock

open CodecMocks.Naming CodecMocks.Schema

/-- A finished module. -/
structure MockModule where
  name : CodeText
  text : CodeText
deriving DecidableEq, Repr

/-- Why a module cannot be made. -/
inductive ModuleError where
  /-- A range of types or messages holds no token. -/
  | emptyRange
  | draft (error : DraftError)
deriving DecidableEq, Repr

/-- The wording. -/
def ModuleError.message : ModuleError → CodeText
  | .emptyRange => OutOfRange.beforeStart.message
  | .draft error => error.message

/-- The module of one class, which `fill` writes. -/
def moduleOf (package typeName : CodeText) (fill : Outline → Outline) :
    Except ModuleError MockModule := do
  let start : Draft := { package }
  let filled : Draft :=
    { start with outline := fill (start.outline.openClass typeName typeName) }
  let finished ← filled.leave.mapError .draft
  return { name := mockName typeName, text := ← finished.render.mapError .draft }

/-- The class of the message header. -/
def headerTypeName : CodeText := "MessageHeader"

/-- The module of the message header. -/
def headerModule (package : CodeText) (header : List Token) : Except ModuleError MockModule :=
  moduleOf package headerTypeName (·.addComposite (body header))

/-- The module of a type, if a module is made for types of its kind. -/
def typeModule? (package : CodeText) : List Token → Except ModuleError (Option MockModule)
  | [] => .error .emptyRange
  | t :: ts =>
    match t.signal with
    | .beginSet =>
      (moduleOf package (className t.name) (·.addChoices (body (t :: ts)))).map some
    | .beginComposite =>
      (moduleOf package (className t.name) (·.addComposite (body (t :: ts)))).map some
    | _ => .ok none

/-- Write the members of the mock of a message: its root fields, then its groups. -/
def fillMessage (typeName : CodeText) (tokens : List Token) (o : Outline) : Outline :=
  ((o.addFields (rootFields tokens).1).addGroups typeName (groups tokens).1).1

/-- The module of a message. -/
def messageModule (package : CodeText) : List Token → Except ModuleError MockModule
  | [] => .error .emptyRange
  | t :: ts =>
    moduleOf package (className t.name) (fillMessage (className t.name) (body (t :: ts)))

/-- A part of a catalog that modules are made for. -/
inductive Stage where
  | header
  | types
  | messages
  /-- The three others in this order. -/
  | all
deriving DecidableEq, Repr

/-- The modules of all types in order; a type without one answers nothing. -/
def typeModules (c : Catalog) : List (Except ModuleError (Option MockModule)) :=
  c.types.map (typeModule? c.package)

/-- The modules of all messages in order. -/
def messageModules (c : Catalog) : List (Except ModuleError (Option MockModule)) :=
  c.messages.map fun tokens => (messageModule c.package tokens).map some

/-- The modules of a stage in order. -/
def modulesOf (c : Catalog) : Stage → List (Except ModuleError (Option MockModule))
  | .header => [(headerModule c.package c.header).map some]
  | .types => typeModules c
  | .messages => messageModules c
  | .all => (headerModule c.package c.header).map some :: typeModules c ++ messageModules c

end CodecMocks.Mock
