import CodecMocks.Text.DigitTable
import CodecMocks.Text.Quoted

/-!
# Command-line options

An option is called by its letter or its name, and a name may be shortened as long as it stays
unique. A value follows as the next argument, after an equals sign, or right after the letter. All
arguments are first classified; then they are taken in order, so that help that comes before a fault
wins over it.
-/

namespace CodecMocks.Command

open CodecMocks.Text

/-- The options of the program. -/
inductive Flag where
  | help
  | ir
  | outputDirectory
  | package
  | format
deriving DecidableEq, Repr

/-- Every option. -/
def Flag.all : List Flag := [.help, .ir, .outputDirectory, .package, .format]

/-- The letter of an option. -/
def Flag.letter? : Flag → Option Char
  | .help => some 'h'
  | .ir => some 'i'
  | .outputDirectory => some 'o'
  | .package => some 'n'
  | .format => none

/-- The name of an option. -/
def Flag.name : Flag → String
  | .help => "--help"
  | .ir => "--ir"
  | .outputDirectory => "--output-dir"
  | .package => "--namespace"
  | .format => "--format"

/-- The option takes a value. -/
def Flag.takesValue : Flag → Bool
  | .help | .format => false
  | .ir | .outputDirectory | .package => true

/-- How messages name an option. -/
def Flag.label (f : Flag) : String :=
  match f.letter? with
  | some c => "-" ++ String.singleton c ++ "/" ++ f.name
  | none => f.name

/-- The option with a letter. -/
def Flag.ofLetter? (c : Char) : Option Flag :=
  Flag.all.find? (·.letter? == some c)

/-- The option that an argument calls in full. -/
def Flag.called? (argument : List Char) : Option Flag :=
  match argument with
  | ['-', c] => Flag.ofLetter? c
  | _ => Flag.all.find? (·.name.toList == argument)

/-- What an argument is. -/
inductive ArgumentKind where
  | plain
  /-- Two hyphens, after which nothing is an option. -/
  | separator
  /-- An option; `short` says that it is called by its letter, and `attached` holds the characters
  after the letter or after the equals sign. -/
  | option (flag : Flag) (short : Bool) (attached : Option (List Char))
  /-- It looks like an option and is none. -/
  | unknown
deriving DecidableEq, Repr

/-- Why the arguments cannot be used. -/
inductive UsageError where
  | ambiguous (argument : String) (candidates : List Flag)
  | expectsValue (flag : Flag)
  | ignoresValue (flag : Flag) (text : String)
  | missingIr
  | unrecognized (arguments : List String)
deriving DecidableEq, Repr

/-- The wording. -/
def UsageError.message : UsageError → String
  | .ambiguous argument candidates =>
    "ambiguous option: " ++ argument ++ " could match " ++
      ", ".intercalate (candidates.map Flag.name)
  | .expectsValue flag => "argument " ++ flag.label ++ ": expected one argument"
  | .ignoresValue flag text =>
    "argument " ++ flag.label ++ ": ignored explicit argument " ++ quoted text
  | .missingIr => "the following arguments are required: " ++ Flag.ir.label
  | .unrecognized arguments => "unrecognized arguments: " ++ " ".intercalate arguments

/-- The part before the first equals sign and, if there is one, the part after it. -/
def cutAtEquals (argument : List Char) : List Char × Option (List Char) :=
  match argument.dropWhile (· != '=') with
  | _ :: value => (argument.takeWhile (· != '='), some value)
  | [] => (argument, none)

/-- A digit of any script. -/
def isAnyDigit (c : Char) : Bool :=
  (digitValue? c).isSome

/-- A negative number: digits, possibly with a point before the last of them. A line feed at the end
is overlooked. -/
def isNegativeNumber (argument : List Char) : Bool :=
  match argument with
  | '-' :: cs =>
    let cs := if cs.getLast? == some '\n' then cs.dropLast else cs
    let rest := cs.dropWhile isAnyDigit
    match rest with
    | [] => !cs.isEmpty
    | '.' :: fraction => !fraction.isEmpty && fraction.all isAnyDigit
    | _ => false
  | _ => false

/-- The options whose name starts with a text. -/
def Flag.startingWith (text : List Char) : List Flag :=
  Flag.all.filter fun f => text.isPrefixOf f.name.toList

/-- An argument that starts with a hyphen and calls no option. -/
def classifyOther (argument : List Char) : ArgumentKind :=
  if isNegativeNumber argument || argument.contains ' ' then .plain else .unknown

/-- An argument that starts with two hyphens and does not call an option in full. -/
def classifyName (argument : List Char) : Except UsageError ArgumentKind :=
  let (name, attached) := cutAtEquals argument
  match Flag.startingWith name with
  | [] => .ok (classifyOther argument)
  | [f] => .ok (.option f false attached)
  | candidates => .error (.ambiguous (String.ofList argument) candidates)

/-- An argument that starts with one hyphen and does not call an option in full. -/
def classifyLetter (argument : List Char) : ArgumentKind :=
  match argument with
  | '-' :: c :: rest =>
    match Flag.ofLetter? c with
    | some f => .option f true (some rest)
    | none => classifyOther argument
  | _ => classifyOther argument

/-- The option was called by its letter. -/
def calledByLetter (argument : List Char) : Bool :=
  argument.length == 2

/-- What an argument before the separator is. -/
def classify (argument : List Char) : Except UsageError ArgumentKind :=
  match argument with
  | '-' :: _ :: _ =>
    match Flag.called? argument with
    | some f => .ok (.option f (calledByLetter argument) none)
    | none =>
      match Flag.called? (cutAtEquals argument).1 with
      | some f =>
        .ok (.option f (calledByLetter (cutAtEquals argument).1) (cutAtEquals argument).2)
      | none =>
        if ['-', '-'].isPrefixOf argument then classifyName argument
        else .ok (classifyLetter argument)
  | _ => .ok .plain

/-- An argument with what it is. -/
abbrev Classified := String × ArgumentKind

/-- What each argument is; those after the separator are plain. -/
def classifyAll : List String → Except UsageError (List Classified)
  | [] => .ok []
  | argument :: rest =>
    if argument == "--" then
      .ok ((argument, .separator) :: rest.map fun a => (a, .plain))
    else do
      let kind ← classify argument.toList
      let others ← classifyAll rest
      return (argument, kind) :: others

/-- What the program is asked to do. -/
structure Invocation where
  ir : String
  outputDirectory : String := ""
  package : Option String := none
  format : Bool := false
deriving DecidableEq, Repr

/-- The value given to an option, if it is given one. -/
abbrev Value := Option String

/-- The value that is attached to an option. Two hyphens leave the option without a value. -/
def Value.ofAttached (text : List Char) : Value :=
  if text = ['-', '-'] then none else some (String.ofList text)

/-- What has been read of the arguments. -/
structure Reading where
  /-- The value of the option for the catalog's file, if the option is called. -/
  ir : Option Value := none
  outputDirectory : Value := some ""
  package : Value := none
  format : Bool := false
  /-- The arguments that have no use. -/
  extra : List String := []
deriving DecidableEq, Repr

/-- The value of an option is set; of several the last counts. -/
def Reading.setValue (r : Reading) (f : Flag) (value : Value) : Reading :=
  match f with
  | .ir => { r with ir := some value }
  | .outputDirectory => { r with outputDirectory := value }
  | .package => { r with package := value }
  | .help | .format => r

/-- What the arguments ask for. -/
inductive Request where
  | help
  | generate (invocation : Invocation)
  /-- Modules, where the file or the directory is left without a value. -/
  | generateNowhere
deriving DecidableEq, Repr

/-- The next argument can be the value of an option. -/
def offersValue : List Classified → Bool
  | (_, .plain) :: _ => true
  | _ => false

/-- The characters after the letter of `f`, which takes no value, are more letters of options. The
first of those that takes a value has what follows it as its value, or else the next of the
arguments `rest`. -/
def checkLetters (f : Flag) (rest : List Classified) : List Char → Except UsageError Unit
  | [] => .ok ()
  | c :: cs =>
    match Flag.ofLetter? c with
    | none => .error (.ignoresValue f (String.ofList (c :: cs)))
    | some next =>
      if !next.takesValue then checkLetters next rest cs
      else if cs.isEmpty && !offersValue rest then .error (.expectsValue next)
      else .ok ()

/-- Take the arguments in order; nothing is answered where help is asked for. Help has the only
letter that takes no value, so help is also asked for where more letters follow it; a fault in those
wins over it. -/
def takeArguments (r : Reading) : List Classified → Except UsageError (Option Reading)
  | [] => .ok (some r)
  | (argument, kind) :: rest =>
    match kind with
    | .plain | .separator | .unknown =>
      takeArguments { r with extra := r.extra ++ [argument] } rest
    | .option f short (some text) =>
      if f.takesValue then takeArguments (r.setValue f (.ofAttached text)) rest
      else if short && !text.isEmpty then (checkLetters f rest text).map fun _ => none
      else .error (.ignoresValue f (String.ofList text))
    | .option f _ none =>
      if f.takesValue then
        match rest with
        | (value, .plain) :: rest => takeArguments (r.setValue f (some value)) rest
        | _ => .error (.expectsValue f)
      else if f = .help then .ok none
      else takeArguments { r with format := true } rest

/-- What has been read, if nothing is missing and nothing is left. -/
def Reading.finish (r : Reading) : Except UsageError Request :=
  match r.ir with
  | none => .error .missingIr
  | some ir =>
    if r.extra.isEmpty then
      match ir, r.outputDirectory with
      | some ir, some outputDirectory =>
        .ok (.generate { ir, outputDirectory, package := r.package, format := r.format })
      | _, _ => .ok .generateNowhere
    else .error (.unrecognized r.extra)

/-- What the arguments ask for, or why they cannot be used. -/
def readArguments (arguments : List String) : Except UsageError Request := do
  let classified ← classifyAll arguments
  match ← takeArguments {} classified with
  | none => return .help
  | some r => r.finish

/-! ### Texts -/

/-- The name of the program. -/
def programName : String := "sbe-mock-generator"

/-- The line that shows how the program is called. -/
def usageLine : String :=
  "usage: " ++ programName ++ " [-h] -i IR [-o OUTPUT_DIR] [-n NAMESPACE] [--format]\n"

/-- What is shown when the arguments cannot be used. -/
def UsageError.report (e : UsageError) : String :=
  usageLine ++ programName ++ ": error: " ++ e.message ++ "\n"

/-- What is shown as help. -/
def helpText : String :=
  usageLine ++ "\n" ++
    "Generate mock classes for SBE codecs.\n" ++
    "\n" ++
    "options:\n" ++
    "  -h, --help            show this help message and exit\n" ++
    "  -i IR, --ir IR        path of the JSON file that holds the token stream IR\n" ++
    "                        of a schema.\n" ++
    "  -o OUTPUT_DIR, --output-dir OUTPUT_DIR\n" ++
    "                        directory to write all generated mock modules;\n" ++
    "                        defaults to the working directory.\n" ++
    "  -n NAMESPACE, --namespace NAMESPACE\n" ++
    "                        package of the real codec classes; overrides the\n" ++
    "                        namespace of the IR.\n" ++
    "  --format              format generated mock modules with ruff.\n"

end CodecMocks.Command
