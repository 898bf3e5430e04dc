import CodecMocks.Command.Program

/-!
# The program

The command line on the real file system. What a run can read is put into a tree, the run is carried
out on that tree, and what it adds there is written. No other program is started, so the formatter
counts as not installed.
-/

namespace CodecMocks.Command

open CodecMocks CodecMocks.Files CodecMocks.Schema CodecMocks.Tools

/-- What a run from a root directory knows of its surroundings. -/
def surroundingsAt (root : String) : Surroundings :=
  { root, formatter := fun _ => { path := "", ending := .missing }, limits := usualLimits }

/-- The tree with an item where names lead to from a place, and directories on the way. -/
def plant (item : Item) (files : Tree) (place : Place) : List String → Tree
  | [] => files.set place item
  | name :: names =>
    let next :=
      if name == "." then place else if name == ".." then place.dropLast else place ++ [name]
    plant item (files.set place .directory) next names

/-- What a run can read: the root directory and, if it is there, the file of the catalog. -/
def readable (root : String) (arguments : List String) : IO Tree := do
  let files := plant .directory {} [] (components root)
  match readArguments arguments with
  | .ok (.generate i) =>
    let path := join root i.ir
    try
      let content ← IO.FS.readBinFile path
      return plant (.file content.toList) files [] (components path)
    catch _ => return files
  | _ => return files

/-- Write what a run has added. -/
def store (before after : Tree) : IO Unit :=
  after.items.forM fun (place, item) => do
    if before.at? place != some item then
      let path := "/" ++ "/".intercalate place
      match item with
      | .directory => IO.FS.createDirAll path
      | .file content => IO.FS.writeBinFile path (ByteArray.mk content.toArray)

end CodecMocks.Command

open CodecMocks.Command in
/-- Read the arguments and do what they ask for. -/
def main (arguments : List String) : IO UInt32 := do
  let root := (← IO.currentDir).toString
  let before ← readable root arguments
  let outcome := run (surroundingsAt root) before arguments
  store before outcome.files
  IO.print outcome.stdout
  IO.eprint outcome.stderr
  match outcome.finish with
  | .returned status | .exited status => return status.toUInt32
  | .stopped e => throw (IO.userError e.message.escaped)
