import CodecMocks.Naming.ClassName
import CodecMocks.Naming.Keyword

/-!
# Property names

A property name writes the words of a schema name in small letters with one underscore between
them. A capital letter may start a word without a separator: `splitAcronyms` finds the last letter
of a run of capitals that a small letter follows, `splitCamel` a capital after a small letter or a
digit. Only ASCII letters and digits count for these.
-/

namespace CodecMocks.Naming

open CodecMocks.Text

/-- A small ASCII letter or an ASCII digit. -/
def endsWord (c : CodePoint) : Bool :=
  c.isLower || c.isDigit

/-- The text of a run of capitals, given backwards, that a small letter follows: the last capital
starts a word if others precede it. -/
def acronymBreak : List CodePoint → List CodePoint
  | last :: before :: rest => (before :: rest).reverse ++ [.ofChar '_', last]
  | run => run.reverse

/-- An underscore before the last capital of a run of two or more that a small letter follows.
`run` holds the capitals read last, backwards. -/
def splitAcronymsAfter (run : List CodePoint) : List CodePoint → List CodePoint
  | [] => run.reverse
  | c :: cs =>
    if c.isUpper then splitAcronymsAfter (c :: run) cs
    else
      (if c.isLower then acronymBreak run else run.reverse) ++ c :: splitAcronymsAfter [] cs

/-- The words that start with the last capital of a run split off. -/
def splitAcronyms (cs : List CodePoint) : List CodePoint :=
  splitAcronymsAfter [] cs

/-- An underscore between a small letter or digit and a capital. -/
def splitCamel : List CodePoint → List CodePoint
  | a :: b :: cs =>
    if endsWord a && b.isUpper then a :: '_' :: splitCamel (b :: cs) else a :: splitCamel (b :: cs)
  | cs => cs

/-- Each run of separators as one underscore; `inRun` says that the run has been written. -/
def collapse (inRun : Bool) : List CodePoint → List CodePoint
  | [] => []
  | c :: cs =>
    if isSeparator c then
      if inRun then collapse true cs else '_' :: collapse true cs
    else c :: collapse false cs

/-- The text without the underscores at its ends. -/
def trimUnderscores (cs : List CodePoint) : List CodePoint :=
  ((cs.dropWhile (· == CodePoint.ofChar '_')).reverse.dropWhile (· == CodePoint.ofChar '_')).reverse

/-- The words of a name in small letters with one underscore between them. -/
def snakeCase (cs : List CodePoint) : List CodePoint :=
  smallText (trimUnderscores (collapse false (splitCamel (splitAcronyms cs))))

/-- The property name of a schema name, e.g. `serial_number` for `serialNumber`, in a class that
has the members `reserved`. -/
def propertyName (name : CodeText) (reserved : List CodeText) : CodeText :=
  avoidTaken (CodeText.ofList (snakeCase name.toList)) reserved

/-- The private attribute that stores a property. -/
def storageName (property : CodeText) : CodeText :=
  "_" ++ property

/-- The fluent setter of a property. -/
def mutatorName (property : CodeText) : CodeText :=
  "set_" ++ property

end CodecMocks.Naming
