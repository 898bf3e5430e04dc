import CodecMocks.Entries
import CodecMocks.Files.Tree
import CodecMocks.Text.Utf8

/-!
# Output units

A unit is a named text that is written piece by piece. It can be kept in memory, where only a unit
that is finished counts, or in a file of a directory, where everything that was written counts.
Files hold UTF-8, and so does the path of a file: writing breaks off at a piece with a surrogate, and
a name with one has no file. This goes for U+DC80 to U+DCFF as well, although some file systems are
given single octets by these.
-/

namespace CodecMocks.Files

open CodecMocks.Text

/-- A unit that is written: its name, the pieces of its text, and whether writing breaks off after
them. -/
structure OutputUnit where
  name : CodeText
  pieces : List CodeText
  breaksOff : Bool := false
deriving DecidableEq, Repr

/-- What was written of a unit. -/
def OutputUnit.text (u : OutputUnit) : CodeText :=
  CodeText.join u.pieces

/-- The pieces before the first that has no octets, and what is wrong with that one. -/
def encodablePieces : List CodeText → List String × Option Utf8.EncodeFault
  | [] => ([], none)
  | piece :: rest =>
    match piece.string? with
    | none => ([], some (.first piece))
    | some text => (text :: (encodablePieces rest).1, (encodablePieces rest).2)

/-- What of a unit can be written into a file. -/
def OutputUnit.fileText (u : OutputUnit) : String :=
  String.join (encodablePieces u.pieces).1

/-- Why a unit cannot be written into a file to its end. -/
def OutputUnit.encodeFault? (u : OutputUnit) : Option Utf8.EncodeFault :=
  (encodablePieces u.pieces).2

/-- The texts kept in memory, by the names of their units. -/
abbrev Shelf := Entries CodeText CodeText

/-- Keep a unit in memory. One that breaks off leaves no trace. -/
def Shelf.add (shelf : Shelf) (u : OutputUnit) : Shelf :=
  if u.breaksOff then shelf else Entries.put u.name u.text shelf

/-- A directory for units. -/
structure Directory where
  path : String
deriving DecidableEq, Repr

/-- How a directory is shown. -/
def Directory.describe (d : Directory) : String :=
  "DirectoryOutputManager(" ++ quoted d.path ++ ")"

/-- The ending of the names of files. -/
def fileEnding : String := ".py"

/-- The path of the file for a unit. -/
def Directory.fileOf (d : Directory) (name : String) : String :=
  join d.path (name ++ fileEnding)

/-- What is wrong with the path of a file whose name holds a surrogate. -/
def Directory.nameFault (d : Directory) (name : CodeText) : Utf8.EncodeFault :=
  .first (if name.toList.head? = some (.ofChar '/') then name else join d.path "" ++ name)

/-- Why a unit is not written to its end. -/
inductive WriteError where
  | path (error : PathError)
  | encoding (fault : Utf8.EncodeFault)
deriving DecidableEq, Repr

/-- The wording. -/
def WriteError.message : WriteError → String
  | .path error => error.message
  | .encoding fault => fault.message

/-- Open the file for a unit, making the directory first if it is missing. -/
def Directory.begin (d : Directory) (files : Tree) (name : CodeText) :
    Tree × Except WriteError Place :=
  match files.ensureDirectory d.path with
  | (files, some e) => (files, .error (.path e))
  | (files, none) =>
    match name.string? with
    | none => (files, .error (.encoding (d.nameFault name)))
    | some plain =>
      match files.openNew (d.fileOf plain) with
      | .error e => (files, .error (.path e))
      | .ok (files, place) => (files, .ok place)

/-- Write a unit into its file. A unit that breaks off, by itself or at a piece without octets,
leaves what was written of it. -/
def Directory.add (d : Directory) (files : Tree) (u : OutputUnit) : Tree × Option WriteError :=
  match d.begin files u.name with
  | (files, .error e) => (files, some e)
  | (files, .ok place) =>
    (files.set place (.file (Utf8.encode u.fileText)), u.encodeFault?.map .encoding)

@[simp] theorem Shelf.add_of_breaksOff {shelf : Shelf} {u : OutputUnit}
    (h : u.breaksOff = true) : shelf.add u = shelf := by
  simp [Shelf.add, h]

@[simp] theorem Shelf.add_finished {shelf : Shelf} {u : OutputUnit} (h : u.breaksOff = false) :
    shelf.add u = Entries.put u.name u.text shelf := by
  simp [Shelf.add, h]

end CodecMocks.Files
