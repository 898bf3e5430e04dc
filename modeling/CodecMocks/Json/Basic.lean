import CodecMocks.Entries
import CodecMocks.Number.Binary64
import CodecMocks.Text.CodeText

/-!
# JSON values

The values that a JSON text denotes. Integers have no bound, other numbers are 64-bit floating-point
numbers, texts may hold lone surrogates, and the members of an object keep the order of their first
occurrence.
-/

namespace CodecMocks

open CodecMocks.Number

/-- A JSON value. -/
inductive Json where
  | null
  | bool (value : Bool)
  | integer (value : Int)
  | number (value : Binary64)
  | text (value : CodeText)
  | list (items : List Json)
  | object (members : List (CodeText × Json))

namespace Json

/-- The value of a text of characters. -/
def ofString (s : String) : Json :=
  .text (.ofString s)

/-- The object with the given members. -/
def record (members : List (String × Json)) : Json :=
  .object (members.map fun m => (.ofString m.1, m.2))

/-- The word for the kind of a value in messages. -/
def kindName : Json → String
  | .null => "NoneType"
  | .bool _ => "bool"
  | .integer _ => "int"
  | .number _ => "float"
  | .text _ => "str"
  | .list _ => "list"
  | .object _ => "dict"

/-- The values that a value is made of when it is walked: the items of a list, the names of an
object, the code points of a text. Other values cannot be walked. -/
def items? : Json → Option (List Json)
  | .list items => some items
  | .object members => some (members.map fun m => .text m.1)
  | .text s => some (s.toList.map fun p => .text (.ofList [p]))
  | _ => none

/-- The value under a name. -/
def lookup (name : String) (members : List (CodeText × Json)) : Option Json :=
  Entries.get? (.ofString name) members

/-- The member of an object under a name. -/
def member? (name : String) : Json → Option Json
  | .object members => lookup name members
  | _ => none

@[simp] theorem items?_list (items : List Json) : (list items).items? = some items := rfl

@[simp] theorem member?_object (name : String) (members : List (CodeText × Json)) :
    (object members).member? name = lookup name members := rfl

end Json

end CodecMocks
