import CodecMocks.Files.Tree
import CodecMocks.Log
import CodecMocks.Text.Lines
import CodecMocks.Text.Utf8

/-!
# The formatter

Mock modules can be formatted by an external program, which works on a temporary file. All that
matters here is how that program ends: it cannot be started, it fails, or it succeeds and leaves
some content in the file. Only in the last case is its result used; the file is taken away in all
of them. A text with a surrogate cannot be written into the file, which then stays where it is.
-/

namespace CodecMocks.Tools

open CodecMocks CodecMocks.Files CodecMocks.Text

/-- How the external program ends. -/
inductive Ending where
  | missing
  /-- It ends with a status, negative for a signal; it wrote `errors` to its error stream and left
  `content` in the file. -/
  | failed (status : Int) (errors content : List UInt8)
  /-- It succeeds; the file holds this content, or what was written into it. -/
  | succeeded (content : Option String)
deriving DecidableEq, Repr

/-- A call of the program on the temporary file at a path. -/
structure FormatterCall where
  path : String
  ending : Ending
deriving DecidableEq, Repr

/-- The names of the signals that can end a program. -/
def signalNames : List (Nat × String) :=
  [(1, "SIGHUP"), (2, "SIGINT"), (3, "SIGQUIT"), (4, "SIGILL"), (5, "SIGTRAP"), (6, "SIGABRT"),
   (7, "SIGBUS"), (8, "SIGFPE"), (9, "SIGKILL"), (10, "SIGUSR1"), (11, "SIGSEGV"),
   (12, "SIGUSR2"), (13, "SIGPIPE"), (14, "SIGALRM"), (15, "SIGTERM"), (16, "SIGSTKFLT"),
   (17, "SIGCHLD"), (18, "SIGCONT"), (19, "SIGSTOP"), (20, "SIGTSTP"), (21, "SIGTTIN"),
   (22, "SIGTTOU"), (23, "SIGURG"), (24, "SIGXCPU"), (25, "SIGXFSZ"), (26, "SIGVTALRM"),
   (27, "SIGPROF"), (28, "SIGWINCH"), (29, "SIGIO"), (30, "SIGPWR"), (31, "SIGSYS"),
   (34, "SIGRTMIN"), (64, "SIGRTMAX")]

/-- How a status is put into words. -/
def statusText (status : Int) : String :=
  if status < 0 then
    match signalNames.find? (·.1 == status.natAbs) with
    | some (number, name) => "died with <Signals." ++ name ++ ": " ++ toString number ++ ">."
    | none => "died with unknown signal " ++ toString status.natAbs ++ "."
  else "returned non-zero exit status " ++ toString status ++ "."

/-- The command line of the call. -/
def FormatterCall.command (call : FormatterCall) : String :=
  "[" ++ ", ".intercalate (["ruff", "format", call.path].map quoted) ++ "]"

/-- The place of the temporary file. -/
def FormatterCall.place (call : FormatterCall) : Place :=
  components call.path

/-- What the program leaves in the temporary file that holds `text`. -/
def Ending.leaves (ending : Ending) (text : String) : List UInt8 :=
  match ending with
  | .missing => Utf8.encode text
  | .failed _ _ content => content
  | .succeeded content => Utf8.encode (content.getD text)

/-- The result of a call: the text to be used, and what is reported. A text that comes from the file
is read with any form of line ends. -/
def FormatterCall.result (call : FormatterCall) (text : String) : String × List LogLine :=
  let report (message : String) : LogLine := ⟨.error, runSource, message⟩
  match call.ending with
  | .missing => (text, [report "ruff not found. Please install ruff: pip install ruff"])
  | .failed status errors _ =>
    (text,
      [report ("Ruff formatting failed: Command '" ++ call.command ++ "' " ++ statusText status),
       report ("Stderr: " ++ String.ofList (Utf8.decodeLossy errors))])
  | .succeeded content => (String.ofList (unifyLineEnds (content.getD text).toList), [])

/-- Format a text by way of the temporary file. -/
def FormatterCall.format (call : FormatterCall) (files : Tree) (text : CodeText) :
    Tree × Except Utf8.EncodeFault (CodeText × List LogLine) :=
  let begun := files.set call.place (.file [])
  match text.string? with
  | none => (begun, .error (.first text))
  | some plain =>
    let written := begun.set call.place (.file (Utf8.encode plain))
    let worked := written.set call.place (.file (call.ending.leaves plain))
    (worked.remove call.place, .ok ((call.result plain).1, (call.result plain).2))

/-- The program did not succeed, or it changed nothing. -/
def Ending.keepsText : Ending → Bool
  | .succeeded (some _) => false
  | _ => true

/-- A text without carriage returns is kept if the program does not change it. -/
theorem FormatterCall.result_fst {call : FormatterCall} {text : String}
    (hending : call.ending.keepsText = true) (htext : '\r' ∉ text.toList) :
    (call.result text).1 = text := by
  unfold FormatterCall.result
  split
  · rfl
  · rfl
  · next content h =>
    cases content with
    | none => simp [unifyLineEnds_of_not_mem htext]
    | some _ => simp [h, Ending.keepsText] at hending

/-- No temporary file remains of a text of characters. -/
theorem FormatterCall.format_ofString {call : FormatterCall} {files : Tree} (text : String)
    (hfresh : call.place ∉ files.items.keys) :
    call.format files text = (files, .ok ((call.result text).1, (call.result text).2)) := by
  simp [format, Tree.remove_set hfresh]

end CodecMocks.Tools
