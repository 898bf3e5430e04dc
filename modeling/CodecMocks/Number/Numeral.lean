import CodecMocks.Text.Blank
import CodecMocks.Text.DigitTable

/-!
# Integer numerals

A numeral is a run of decimal digits of any script, with single underscores between digits, an
optional sign before it and blanks around it. A numeral with more than `digitLimit` digits is
refused before anything after it is looked at.
-/

namespace CodecMocks.Number

open CodecMocks.Text

/-- The greatest number of digits that a numeral may have. -/
def digitLimit : Nat := 4300

/-- Why a text is no numeral. -/
inductive NumeralFault where
  | malformed
  | tooLong (digits : Nat)
deriving DecidableEq, Repr

/-- The number with the given digits, the greatest place first. -/
def ofDigits (digits : List Nat) : Nat :=
  digits.foldl (fun n d => 10 * n + d) 0

/-- The value of an ASCII digit. -/
def asciiDigit? (c : Char) : Option Nat :=
  if c.isDigit then some (c.toNat - '0'.toNat) else none

/-- The characters of a numeral in their ASCII forms. Blanks and digits beyond ASCII are read only
in a text that is not plain ASCII; any other character keeps its form, a surrogate takes that of a
question mark, and both are refused later. -/
def toAsciiForm (text : CodeText) : List Char :=
  text.toList.map fun p =>
    match p.char? with
    | none => '?'
    | some c =>
      if c.toNat < 128 then c
      else if isBlank c then ' '
      else match digitValue? c with
        | some d => Char.ofNat ('0'.toNat + d)
        | none => c

/-- The digits that a text starts with and what follows them; none if an underscore is not between
two digits. `linked` says that the character before is an underscore. -/
def digitRun (linked : Bool) : List Char → Option (List Nat × List Char)
  | [] => if linked then none else some ([], [])
  | c :: cs =>
    match asciiDigit? c with
    | some d => (digitRun false cs).map fun (ds, rest) => (d :: ds, rest)
    | none =>
      if c == '_' then if linked then none else digitRun true cs
      else if linked then none else some ([], c :: cs)

/-- The sign of a numeral and what follows it. -/
def signOf : List Char → Bool × List Char
  | '-' :: cs => (true, cs)
  | '+' :: cs => (false, cs)
  | cs => (false, cs)

/-- The integer that a text denotes. -/
def readNumeral (text : CodeText) : Except NumeralFault Int :=
  let (negative, body) := signOf ((toAsciiForm text).dropWhile isAsciiBlank)
  if body.head? == some '_' then .error .malformed
  else match digitRun false body with
    | none => .error .malformed
    | some (digits, rest) =>
      if digits.length > digitLimit then .error (.tooLong digits.length)
      else if digits.isEmpty || !rest.all isAsciiBlank then .error .malformed
      else
        let n : Int := ofDigits digits
        .ok (if negative then -n else n)

/-- The wording for a number with too many digits. -/
def tooManyDigits (digits : Nat) : String :=
  "Exceeds the limit (" ++ toString digitLimit ++
    " digits) for integer string conversion: value has " ++ toString digits ++
    " digits; use sys.set_int_max_str_digits() to increase the limit"

end CodecMocks.Number
