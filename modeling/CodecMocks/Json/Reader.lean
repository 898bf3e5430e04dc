import CodecMocks.Json.Basic
import CodecMocks.Number.Numeral
import CodecMocks.Text.Lines

/-!
# Reading JSON

A reader for JSON text that also accepts `NaN` and the two infinities. It reports the first fault
with its place. A fault is found with the part of the text that starts at it, so that its place
follows from the length of that part. Lists and objects are read only so far as they are nested no
deeper than a given limit.
-/

namespace CodecMocks.Json

open CodecMocks.Number CodecMocks.Text

/-- What is wrong at a place of a text. -/
inductive Defect where
  | expectedValue
  | expectedName
  | expectedColon
  | expectedComma
  | extraData
  | unterminatedString
  | controlCharacter
  | invalidEscape
  | invalidCodeEscape
  | byteOrderMark
deriving DecidableEq, Repr

/-- The wording of a defect. -/
def Defect.text : Defect → String
  | .expectedValue => "Expecting value"
  | .expectedName => "Expecting property name enclosed in double quotes"
  | .expectedColon => "Expecting ':' delimiter"
  | .expectedComma => "Expecting ',' delimiter"
  | .extraData => "Extra data"
  | .unterminatedString => "Unterminated string starting at"
  | .controlCharacter => "Invalid control character at"
  | .invalidEscape => "Invalid \\escape"
  | .invalidCodeEscape => "Invalid \\uXXXX escape"
  | .byteOrderMark => "Unexpected UTF-8 BOM (decode using utf-8-sig)"

/-- What values can be nested in. -/
inductive Container where
  | array
  | object
deriving DecidableEq, Repr

/-- The word for a container. -/
def Container.word : Container → String
  | .array => "array"
  | .object => "object"

/-- Why reading stops. -/
inductive Stop where
  /-- A defect at the start of `rest`. -/
  | defect (kind : Defect) (rest : List Char)
  /-- An integer with too many digits. -/
  | tooManyDigits (digits : Nat)
  /-- A container that is nested too deep. -/
  | tooDeep (container : Container)
deriving DecidableEq, Repr

/-- Space, tab, line feed and carriage return. -/
def isSpace (c : Char) : Bool :=
  c == ' ' || c == '\t' || c == '\n' || c == '\r'

/-- The text from its first character that is no space. -/
def skipSpace (cs : List Char) : List Char :=
  cs.dropWhile isSpace

/-- The value of a digit to base sixteen. -/
def hexValue? (c : Char) : Option Nat :=
  let n := c.toNat
  if '0'.toNat ≤ n ∧ n ≤ '9'.toNat then some (n - '0'.toNat)
  else if 'a'.toNat ≤ n ∧ n ≤ 'f'.toNat then some (n - 'a'.toNat + 10)
  else if 'A'.toNat ≤ n ∧ n ≤ 'F'.toNat then some (n - 'A'.toNat + 10)
  else none

/-- The number that the first four characters denote to base sixteen, and the text after them. -/
def hexQuad? : List Char → Option (Nat × List Char)
  | a :: b :: c :: d :: rest => do
    let a ← hexValue? a
    let b ← hexValue? b
    let c ← hexValue? c
    let d ← hexValue? d
    return (((a * 16 + b) * 16 + c) * 16 + d, rest)
  | _ => none

/-- The first half of a pair that denotes one character beyond the first plane. -/
def isHighHalf (n : Nat) : Bool := 0xD800 ≤ n && n ≤ 0xDBFF

/-- The second half of such a pair. -/
def isLowHalf (n : Nat) : Bool := 0xDC00 ≤ n && n ≤ 0xDFFF

/-- The character of a pair, if the escape of the second half follows and the text goes on after
that; otherwise the first half alone. -/
def readLowHalf (high : Nat) : List Char → Except Stop (CodePoint × List Char)
  | '\\' :: 'u' :: digits =>
    if digits.length ≤ 4 then .ok (.ofNat high, '\\' :: 'u' :: digits)
    else match hexQuad? digits with
      | none => .error (.defect .invalidCodeEscape ('u' :: digits))
      | some (low, rest) =>
        if isLowHalf low then
          .ok (.ofNat (0x10000 + (high - 0xD800) * 0x400 + (low - 0xDC00)), rest)
        else .ok (.ofNat high, '\\' :: 'u' :: digits)
  | rest => .ok (.ofNat high, rest)

/-- The code point of an escape by code, `digits` being the text after the `u`. The escape must not
be the last thing in the text. -/
def readCodeEscape (digits : List Char) : Except Stop (CodePoint × List Char) :=
  if digits.length ≤ 4 then .error (.defect .invalidCodeEscape ('u' :: digits))
  else match hexQuad? digits with
    | none => .error (.defect .invalidCodeEscape ('u' :: digits))
    | some (code, rest) =>
      if isHighHalf code then readLowHalf code rest else .ok (.ofNat code, rest)

/-- The character of an escape by letter. -/
def letterEscape? : Char → Option Char
  | '"' => some '"'
  | '\\' => some '\\'
  | '/' => some '/'
  | 'b' => some '\x08'
  | 'f' => some '\x0c'
  | 'n' => some '\n'
  | 'r' => some '\r'
  | 't' => some '\t'
  | _ => none

/-- The rest of a string after its opening quote, which stands at the start of `opening`. `fuel`
bounds the number of characters. -/
def readString (opening : List Char) : Nat → List Char → Except Stop (List CodePoint × List Char)
  | 0, _ => .error (.defect .unterminatedString opening)
  | _ + 1, [] => .error (.defect .unterminatedString opening)
  | _ + 1, '"' :: cs => .ok ([], cs)
  | _ + 1, ['\\'] => .error (.defect .unterminatedString opening)
  | fuel + 1, '\\' :: 'u' :: cs => do
    let (point, cs) ← readCodeEscape cs
    let (points, rest) ← readString opening fuel cs
    return (point :: points, rest)
  | fuel + 1, '\\' :: e :: cs =>
    match letterEscape? e with
    | none => .error (.defect .invalidEscape ('\\' :: e :: cs))
    | some c => do
      let (points, rest) ← readString opening fuel cs
      return (.ofChar c :: points, rest)
  | fuel + 1, c :: cs =>
    if c.toNat ≤ 0x1F then .error (.defect .controlCharacter (c :: cs))
    else do
      let (points, rest) ← readString opening fuel cs
      return (.ofChar c :: points, rest)

/-- The digits that a text starts with and what follows them. -/
def digitSpan (cs : List Char) : List Char × List Char :=
  (cs.takeWhile Char.isDigit, cs.dropWhile Char.isDigit)

/-- Whether there is a minus sign, and what follows it. -/
def minusSpan : List Char → Bool × List Char
  | '-' :: cs => (true, cs)
  | cs => (false, cs)

/-- The digits before the point: a zero stands alone. -/
def wholeSpan : List Char → List Char × List Char
  | '0' :: cs => (['0'], cs)
  | cs => digitSpan cs

/-- A point with digits after it. -/
def fractionSpan : List Char → List Char × List Char
  | '.' :: cs => if (digitSpan cs).1.isEmpty then ([], '.' :: cs) else digitSpan cs
  | cs => ([], cs)

/-- The value of a run of ASCII digits. -/
def natOfDigits (cs : List Char) : Nat :=
  ofDigits (cs.filterMap asciiDigit?)

/-- An exponent with its sign, if there is one with digits. -/
def exponentSpan : List Char → Option Int × List Char
  | e :: cs =>
    if e == 'e' || e == 'E' then
      let (negative, body) := signOf cs
      let (digits, rest) := digitSpan body
      if digits.isEmpty then (none, e :: cs)
      else
        let n : Int := natOfDigits digits
        (some (if negative then -n else n), rest)
    else (none, e :: cs)
  | [] => (none, [])

/-- A number: an integer unless it has a fraction or an exponent. -/
def readNumber (text : List Char) : Except Stop (Json × List Char) :=
  let (negative, body) := minusSpan text
  let (whole, afterWhole) := wholeSpan body
  if whole.isEmpty then .error (.defect .expectedValue text)
  else
    let (fraction, afterFraction) := fractionSpan afterWhole
    let (exponent, rest) := exponentSpan afterFraction
    if fraction.isEmpty && exponent.isNone then
      if whole.length > digitLimit then .error (.tooManyDigits whole.length)
      else
        let n : Int := natOfDigits whole
        .ok (.integer (if negative then -n else n), rest)
    else
      let power : Int := exponent.getD 0 - fraction.length
      .ok (.number (.ofDecimal negative (natOfDigits (whole ++ fraction)) power), rest)

/-- The words that denote a value. -/
def words : List (String × Json) :=
  [("null", .null), ("true", .bool true), ("false", .bool false), ("NaN", .number .undefined),
   ("Infinity", .number (.infinite false)), ("-Infinity", .number (.infinite true))]

/-- The word that a text starts with. -/
def readWord? (cs : List Char) : Option (Json × List Char) :=
  (words.find? fun w => w.1.toList.isPrefixOf cs).map fun w => (w.2, cs.drop w.1.length)

/-- A value that is neither a string nor made of others. -/
def readScalar (cs : List Char) : Except Stop (Json × List Char) :=
  match readWord? cs with
  | some found => .ok found
  | none => readNumber cs

mutual

/-- A value in which containers are nested up to `depth`. `fuel` exceeds twice the number of
characters: a bracket and the item after it take one each. -/
def readValue : Nat → Nat → List Char → Except Stop (Json × List Char)
  | 0, _, cs => .error (.defect .expectedValue cs)
  | fuel + 1, depth, cs =>
    match cs with
    | '"' :: rest => do
      let (s, rest) ← readString cs (fuel + 1) rest
      return (.text ⟨s⟩, rest)
    | '{' :: rest =>
      match depth with
      | 0 => .error (.tooDeep .object)
      | depth + 1 =>
        match skipSpace rest with
        | '}' :: rest => .ok (.object [], rest)
        | rest => do
          let (members, rest) ← readMembers fuel depth rest
          return (.object (Entries.ofList members), rest)
    | '[' :: rest =>
      match depth with
      | 0 => .error (.tooDeep .array)
      | depth + 1 =>
        match skipSpace rest with
        | ']' :: rest => .ok (.list [], rest)
        | rest => do
          let (items, rest) ← readItems fuel depth rest
          return (.list items, rest)
    | _ => readScalar cs

/-- The members of an object from a name on, and its closing brace. -/
def readMembers : Nat → Nat → List Char → Except Stop (List (CodeText × Json) × List Char)
  | 0, _, cs => .error (.defect .expectedName cs)
  | fuel + 1, depth, cs =>
    match cs with
    | '"' :: rest => do
      let (name, rest) ← readString cs (fuel + 1) rest
      match skipSpace rest with
      | ':' :: rest => do
        let (value, rest) ← readValue fuel depth (skipSpace rest)
        match skipSpace rest with
        | '}' :: rest => return ([(⟨name⟩, value)], rest)
        | ',' :: rest => do
          let (members, rest) ← readMembers fuel depth (skipSpace rest)
          return ((⟨name⟩, value) :: members, rest)
        | rest => .error (.defect .expectedComma rest)
      | rest => .error (.defect .expectedColon rest)
    | _ => .error (.defect .expectedName cs)

/-- The items of a list from a value on, and its closing bracket. -/
def readItems : Nat → Nat → List Char → Except Stop (List Json × List Char)
  | 0, _, cs => .error (.defect .expectedValue cs)
  | fuel + 1, depth, cs => do
    let (value, rest) ← readValue fuel depth cs
    match skipSpace rest with
    | ']' :: rest => return ([value], rest)
    | ',' :: rest => do
      let (items, rest) ← readItems fuel depth (skipSpace rest)
      return (value :: items, rest)
    | rest => .error (.defect .expectedComma rest)

end

/-- The value of a whole text, or where reading stops. -/
def readText (depth : Nat) (cs : List Char) : Except Stop Json :=
  match cs with
  | '\uFEFF' :: _ => .error (.defect .byteOrderMark cs)
  | _ =>
    match readValue (2 * cs.length + 2) depth (skipSpace cs) with
    | .error stop => .error stop
    | .ok (value, rest) =>
      match skipSpace rest with
      | [] => .ok value
      | rest => .error (.defect .extraData rest)

/-- Why a text is no JSON text that can be read. -/
inductive ReadError where
  /-- A defect and where it is. -/
  | defect (kind : Defect) (position : Position)
  | tooManyDigits (digits : Nat)
  | tooDeep (container : Container)
deriving DecidableEq, Repr

/-- The wording of an error. -/
def ReadError.message : ReadError → String
  | .defect kind position => kind.text ++ ": " ++ position.text
  | .tooManyDigits digits => CodecMocks.Number.tooManyDigits digits
  | .tooDeep container =>
    "maximum recursion depth exceeded while decoding a JSON " ++ container.word ++
      " from a unicode string"

/-- The value of a text in which containers are nested up to `depth`, or the first error. -/
def parse (depth : Nat) (cs : List Char) : Except ReadError Json :=
  match readText depth cs with
  | .ok value => .ok value
  | .error (.defect kind rest) =>
    .error (.defect kind (Position.after (cs.take (cs.length - rest.length))))
  | .error (.tooManyDigits digits) => .error (.tooManyDigits digits)
  | .error (.tooDeep container) => .error (.tooDeep container)

end CodecMocks.Json
