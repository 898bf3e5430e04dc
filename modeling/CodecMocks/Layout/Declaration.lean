import CodecMocks.Text.CodeText

/-!
# Lines of Python declarations

The heading lines of functions and classes and the declarations of typed variables.
-/

namespace CodecMocks.Layout

/-- A variable with a type hint and the text of its initial value, empty if it has none. -/
structure TypedVariable where
  name : CodeText
  hint : CodeText
  initial : CodeText := ""
deriving DecidableEq, Repr

/-- The declaration of a variable. -/
def TypedVariable.text (v : TypedVariable) : CodeText :=
  let typed := v.name ++ ": " ++ v.hint
  if v.initial.isEmpty then typed else typed ++ " = " ++ v.initial

/-- A parameter of a function or a base of a class. -/
inductive Parameter where
  | plain (text : CodeText)
  | typed (declared : TypedVariable)
deriving DecidableEq, Repr

/-- The text of a parameter. -/
def Parameter.text : Parameter → CodeText
  | .plain text => text
  | .typed v => v.text

/-- An empty text is no parameter. -/
def Parameter.isPresent : Parameter → Bool
  | .plain text => !text.isEmpty
  | .typed _ => true

/-- The parameters with commas between them. -/
def joinParameters (parameters : List Parameter) : CodeText :=
  CodeText.intercalate ", " ((parameters.filter Parameter.isPresent).map Parameter.text)

/-- The heading of a function. -/
def functionHeading (name : CodeText) (parameters : List Parameter) (returns : CodeText := "None") :
    CodeText :=
  "def " ++ name ++ "(" ++ joinParameters parameters ++ ") -> " ++ returns ++ ":"

/-- The heading of a class; the parentheses are left out if there are no bases at all. -/
def classHeading (name : CodeText) (bases : List Parameter) : CodeText :=
  if bases.isEmpty then "class " ++ name ++ ":"
  else "class " ++ name ++ "(" ++ joinParameters bases ++ "):"

end CodecMocks.Layout
