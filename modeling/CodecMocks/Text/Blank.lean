import CodecMocks.Text.CodeText

/-!
# Blank characters

Blank characters separate the words of a schema name and may surround a numeral. Two classes are
used: every blank of Unicode, and the six of ASCII that a numeral of plain ASCII tolerates.
-/

namespace CodecMocks.Text

/-- The white space of Unicode, with the four information separators of ASCII. -/
def isBlank (c : CodePoint) : Bool :=
  let n := c.toNat
  (9 ≤ n && n ≤ 13) || (28 ≤ n && n ≤ 32) || n == 0x85 || n == 0xA0 || n == 0x1680 ||
    (0x2000 ≤ n && n ≤ 0x200A) || n == 0x2028 || n == 0x2029 || n == 0x202F || n == 0x205F ||
    n == 0x3000

/-- Tab, line feed, vertical tab, form feed, carriage return and space. -/
def isAsciiBlank (c : Char) : Bool :=
  let n := c.toNat
  (9 ≤ n && n ≤ 13) || n == 32

end CodecMocks.Text
