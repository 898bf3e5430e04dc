import CodecMocks.Text.CodeText
import CodecMocks.Text.PrintableTable

/-!
# Quoted text

A text as it appears inside a message: between single quotes, or between double quotes where it
holds a single quote and no double quote. The quote in use and the backslash are escaped, so is
every character without a visible form and every surrogate.
-/

namespace CodecMocks.Text

/-- The digits of `n` to base sixteen, at least `width` of them. -/
def hexDigits (width n : Nat) : List Char :=
  let digits := Nat.toDigits 16 n
  List.replicate (width - digits.length) '0' ++ digits

/-- The shortest of the three numeric escapes that holds the code point with a number. -/
def numericEscape (n : Nat) : List Char :=
  if n ≤ 0xFF then '\\' :: 'x' :: hexDigits 2 n
  else if n ≤ 0xFFFF then '\\' :: 'u' :: hexDigits 4 n
  else '\\' :: 'U' :: hexDigits 8 n

/-- One character between quotes of the kind `quote`. -/
def quotedChar (quote c : Char) : List Char :=
  if c == quote || c == '\\' then ['\\', c]
  else if c == '\t' then ['\\', 't']
  else if c == '\n' then ['\\', 'n']
  else if c == '\r' then ['\\', 'r']
  else if isPrintable c then [c]
  else numericEscape c.toNat

/-- One code point between quotes of the kind `quote`. -/
def quotedPoint (quote : Char) (p : CodePoint) : List Char :=
  match p.char? with
  | some c => quotedChar quote c
  | none => numericEscape p.toNat

/-- The quote that encloses a text. -/
def quoteFor (t : CodeText) : Char :=
  if t.toList.contains '\'' && !t.toList.contains '"' then '"' else '\''

end CodecMocks.Text

namespace CodecMocks

open CodecMocks.Text

/-- A text of code points with its quotes and escapes. -/
def CodeText.quoted (t : CodeText) : String :=
  let quote := quoteFor t
  String.ofList (quote :: t.toList.flatMap (quotedPoint quote) ++ [quote])

/-- A text in which each surrogate is shown by its escape. -/
def CodeText.escaped (t : CodeText) : String :=
  String.ofList (t.toList.flatMap fun p =>
    match p.char? with
    | some c => [c]
    | none => numericEscape p.toNat)

end CodecMocks

namespace CodecMocks.Text

/-- A text with its quotes and escapes. -/
def quoted (s : String) : String :=
  CodeText.quoted s

end CodecMocks.Text
