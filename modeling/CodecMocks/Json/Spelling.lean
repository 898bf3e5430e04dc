import CodecMocks.Json.Basic
import CodecMocks.Number.Numeral
import CodecMocks.Number.Shortest
import CodecMocks.Text.Quoted

/-!
# How values are spelled in messages

`Json.literal` shows any value with its quotes and brackets. `Json.display` shows a text as it is
and any other value as its literal; a constant of a schema is kept in this form. An integer with too
many digits cannot be spelled, nor can a value whose lists and objects are nested too deep.
-/

namespace CodecMocks.Json

open CodecMocks.Number CodecMocks.Text

/-- Why a value cannot be spelled. -/
inductive SpellFault where
  | tooManyDigits
  | tooDeep
deriving DecidableEq, Repr

/-- The wording. -/
def SpellFault.message : SpellFault → String
  | .tooManyDigits =>
    "Exceeds the limit (" ++ toString digitLimit ++
      " digits) for integer string conversion; use sys.set_int_max_str_digits() to increase the limit"
  | .tooDeep => "maximum recursion depth exceeded while getting the repr of an object"

/-- Numbers are written positionally from `0.0001` up to sixteen digits before the point, otherwise
with an exponent of at least two digits. -/
def numberNotation : Notation64 :=
  ⟨-3, 16, 2⟩

/-- The texts with a comma and a space between them. -/
def commaSeparated (texts : List String) : String :=
  ", ".intercalate texts

/-- An integer that has few enough digits, spelled. -/
def integerLiteral (n : Int) : Except SpellFault String :=
  if n.natAbs < Nat.pow 10 digitLimit then .ok (toString n) else .error .tooManyDigits

mutual

/-- A value with its quotes and brackets. A value of `depth` levels can be spelled, a value that is
no list and no object counting as one. -/
def literal (depth : Nat) (value : Json) : Except SpellFault String :=
  match depth with
  | 0 => .error .tooDeep
  | depth + 1 =>
    match value with
    | .null => .ok "None"
    | .bool true => .ok "True"
    | .bool false => .ok "False"
    | .integer n => integerLiteral n
    | .number x => .ok (numberNotation.write x)
    | .text s => .ok s.quoted
    | .list items => do
      return "[" ++ commaSeparated (← itemLiterals depth items) ++ "]"
    | .object members => do
      return "\x7b" ++ commaSeparated (← memberLiterals depth members) ++ "\x7d"

/-- The literals of the items of a list. -/
def itemLiterals (depth : Nat) : List Json → Except SpellFault (List String)
  | [] => .ok []
  | item :: rest => do
    return (← item.literal depth) :: (← itemLiterals depth rest)

/-- The members of an object, each with its name. -/
def memberLiterals (depth : Nat) : List (CodeText × Json) → Except SpellFault (List String)
  | [] => .ok []
  | (name, value) :: rest => do
    return (name.quoted ++ ": " ++ (← value.literal depth)) :: (← memberLiterals depth rest)

end

/-- A text as it is, any other value as its literal. -/
def display (depth : Nat) : Json → Except SpellFault CodeText
  | .text s => .ok s
  | value => (value.literal depth).map .ofString

@[simp] theorem display_text (depth : Nat) (s : CodeText) : (text s).display depth = .ok s := rfl

end CodecMocks.Json
