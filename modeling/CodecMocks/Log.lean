import CodecMocks.Text.Quoted

/-!
# Log lines

What a run reports while it works. A line names its level and the part of the program it comes from.
-/

namespace CodecMocks

/-- How serious a line is. -/
inductive Level where
  | info
  | error
deriving DecidableEq, Repr

/-- The word for a level. -/
def Level.text : Level → String
  | .info => "INFO"
  | .error => "ERROR"

/-- A line of the log. -/
structure LogLine where
  level : Level
  source : String
  message : CodeText
deriving DecidableEq, Repr

/-- A line as it is written, with its line end. A surrogate is written as its escape. -/
def LogLine.render (l : LogLine) : String :=
  l.level.text ++ ":" ++ l.source ++ ":" ++ l.message.escaped ++ "\n"

/-- All lines as they are written. -/
def renderLog (lines : List LogLine) : String :=
  String.join (lines.map LogLine.render)

/-- The names of the parts of the program that write to the log. -/
def rootSource : String := "root"

@[inherit_doc rootSource] def loadSource : String := "sbe_mock_generator.ir"

@[inherit_doc rootSource] def mockSource : String := "sbe_mock_generator.writer"

@[inherit_doc rootSource] def runSource : String := "sbe_mock_generator.run"

@[inherit_doc rootSource] def commandSource : String := "sbe_mock_generator.cli"

end CodecMocks
