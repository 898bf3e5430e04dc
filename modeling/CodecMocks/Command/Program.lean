import CodecMocks.Command.Options
import CodecMocks.Files.Unit
import CodecMocks.Mock.Session
import CodecMocks.Schema.Load
import CodecMocks.Tools.Formatter

/-!
# Runs of the program

A run reads the arguments, loads the catalog, and writes a file for each module. Paths are taken
from the root directory. A fault of the catalog's file is reported and answered by a status; other
faults stop the run where they occur.
-/

namespace CodecMocks.Command

open CodecMocks CodecMocks.Files CodecMocks.Mock CodecMocks.Schema CodecMocks.Tools

/-- Why a run stops before its end. -/
inductive RunError where
  /-- The catalog's file or the directory is not given. -/
  | noPath
  /-- The catalog's file cannot be read. -/
  | path (error : PathError)
  /-- The catalog's file, which is shown as `shown`, cannot be used. -/
  | load (shown : String) (error : LoadError)
  | module (error : ModuleError)
  | write (error : WriteError)

/-- The wording. -/
def RunError.message : RunError → CodeText
  | .noPath => "join() argument must be str, bytes, or os.PathLike object, not 'list'"
  | .path error => error.message
  | .load shown error => error.message shown
  | .module error => error.message
  | .write error => error.message

/-- How a run ends. -/
inductive Finish where
  /-- It is carried through, with this status. -/
  | returned (status : Nat)
  /-- The arguments end it, with this status. -/
  | exited (status : Nat)
  /-- It is stopped. -/
  | stopped (error : RunError)

/-- What a run leaves behind. -/
structure Outcome where
  files : Tree
  finish : Finish
  stdout : String := ""
  stderr : String := ""

/-- What a run needs to know of its surroundings: the root directory, how the formatter ends for
each module, told how many came before, and how deep values can be nested. -/
structure Surroundings where
  root : String
  formatter : Nat → FormatterCall
  limits : Limits

/-- How deep values can be nested in a run from the command line. -/
def usualLimits : Limits :=
  ⟨989, 988, by decide⟩

/-- What is reported first. -/
def startLine (root : String) : LogLine :=
  ⟨.info, rootSource, "Working from root directory: " ++ root⟩

/-- What is reported before the catalog is loaded. -/
def loadingLine (irPath : String) : LogLine :=
  ⟨.info, runSource, "Generating mocks from '" ++ irPath ++ "'."⟩

/-- What is reported of a catalog. -/
def loadedLine (c : Catalog) : LogLine :=
  ⟨.info, loadSource,
    "Loaded IR for namespace '" ++ c.package ++ "' with " ++ toString c.types.length ++
      " type(s) and " ++ toString c.messages.length ++ " message(s)."⟩

/-- What is reported last. -/
def wroteLine (count : Nat) (directory : String) : LogLine :=
  ⟨.info, runSource,
    "Wrote " ++ toString count ++ " mock module(s) to '" ++ directory ++ "'."⟩

/-- What is reported of a catalog's file that cannot be used. -/
def faultLine (message : String) : LogLine :=
  ⟨.error, commandSource, message⟩

/-- The catalog for a package other than its own, unless that is empty. -/
def overridePackage (c : Catalog) : Option String → Catalog
  | some package => if package.isEmpty then c else c.withPackage package
  | none => c

/-- Files as the destination of modules. -/
def fileDestination (w : Surroundings) (directory : Directory) (format : Bool) :
    Destination Tree WriteError where
  deliver _ files m := directory.add files { name := m.name, pieces := [m.text] }
  prepare n files text :=
    if format then
      let (files, formatted) := (w.formatter n).format files text
      (files, formatted.mapError .encoding)
    else (files, .ok (text, []))

/-- Write the modules of a catalog into files. -/
def generate (w : Surroundings) (directory : String) (format : Bool) (c : Catalog) (files : Tree)
    (log : List LogLine) : Progress Tree × Option (Failure WriteError) :=
  let start : Progress Tree := { state := files, log }
  start.stage (fileDestination w ⟨directory⟩ format) c .all

/-- Carry out an invocation; `log` holds what was reported before. -/
def Invocation.run (i : Invocation) (w : Surroundings) (files : Tree) (log : List LogLine) :
    Outcome :=
  let irPath := join w.root i.ir
  let directory := join w.root i.outputDirectory
  let log := log ++ [loadingLine irPath]
  match files.read irPath with
  | .error e => { files, finish := .stopped (.path e), stderr := renderLog log }
  | .ok content =>
    match Catalog.ofContent w.limits content with
    | .error e =>
      if e.isReported then
        { files
          finish := .returned 1
          stderr := renderLog (log ++ [faultLine (e.message irPath)]) }
      else { files, finish := .stopped (.load irPath e), stderr := renderLog log }
    | .ok c =>
      match generate w directory i.format (overridePackage c i.package) files
          (log ++ [loadedLine c]) with
      | (p, some (.module e)) =>
        { files := p.state, finish := .stopped (.module e), stderr := renderLog p.log }
      | (p, some (.refused e)) =>
        { files := p.state, finish := .stopped (.write e), stderr := renderLog p.log }
      | (p, none) =>
        { files := p.state
          finish := .returned 0
          stderr := renderLog (p.log ++ [wroteLine p.written.length directory]) }

/-- Carry out what the arguments ask for. -/
def run (w : Surroundings) (files : Tree) (arguments : List String) : Outcome :=
  let log := [startLine w.root]
  match readArguments arguments with
  | .error e =>
    { files, finish := .exited 2, stderr := renderLog log ++ e.report }
  | .ok .help => { files, finish := .exited 0, stdout := helpText, stderr := renderLog log }
  | .ok (.generate i) => i.run w files log
  | .ok .generateNowhere => { files, finish := .stopped .noPath, stderr := renderLog log }

end CodecMocks.Command
