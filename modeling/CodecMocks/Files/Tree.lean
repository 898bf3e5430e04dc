import CodecMocks.Entries
import CodecMocks.Files.Path
import CodecMocks.Text.Quoted

/-!
# File trees

What a file system holds, as a value: for every place below the top either a directory or the
content of a file. Operations take a path, walk it name by name, and either return the changed tree
or say what is wrong with the path. There are no links and no permissions: a path leads to one place,
and whatever is there can be read and written. Names are texts of characters.
-/

namespace CodecMocks.Files

open CodecMocks CodecMocks.Text

/-- What is at a place. -/
inductive Item where
  | directory
  | file (content : List UInt8)
deriving DecidableEq, Repr

/-- A place: the names from the top. -/
abbrev Place := List String

/-- What is at each place. The top itself is always a directory. `working` is where paths start that
do not start at the top. -/
structure Tree where
  items : Entries Place Item := []
  working : Place := []
deriving DecidableEq, Repr

/-- What is wrong with a path. -/
inductive Refusal where
  | notFound
  | exists
  | notDirectory
  | isDirectory
  | nameTooLong
  /-- The path holds a character that no path can hold. -/
  | nullCharacter
deriving DecidableEq, Repr

/-- A path and what is wrong with it. -/
structure PathError where
  refusal : Refusal
  path : String
deriving DecidableEq, Repr

/-- The number and the wording of a refusal. -/
def Refusal.text : Refusal → String
  | .notFound => "[Errno 2] No such file or directory"
  | .exists => "[Errno 17] File exists"
  | .notDirectory => "[Errno 20] Not a directory"
  | .isDirectory => "[Errno 21] Is a directory"
  | .nameTooLong => "[Errno 36] File name too long"
  | .nullCharacter => "embedded null byte"

/-- The wording of an error; a path that cannot be a path is not shown. -/
def PathError.message (e : PathError) : String :=
  match e.refusal with
  | .nullCharacter => e.refusal.text
  | refusal => refusal.text ++ ": " ++ quoted e.path

/-- The greatest number of octets of a name. -/
def nameLimit : Nat := 255

/-- The greatest number of octets of a path. -/
def pathLimit : Nat := 4095

namespace Tree

/-- What is at a place. -/
def at? (t : Tree) (place : Place) : Option Item :=
  if place.isEmpty then some .directory else t.items.get? place

/-- Put something at a place. -/
def set (t : Tree) (place : Place) (item : Item) : Tree :=
  { t with items := t.items.put place item }

/-- Take away what is at a place. -/
def remove (t : Tree) (place : Place) : Tree :=
  { t with items := t.items.erase place }

/-- The place is a directory. -/
def isDirectoryAt (t : Tree) (place : Place) : Bool :=
  t.at? place == some .directory

/-- One step from a place along a name. -/
def step (t : Tree) (place : Place) (name : String) : Except Refusal Place :=
  if !t.isDirectoryAt place then .error .notDirectory
  else if name == "." then .ok place
  else if name == ".." then .ok place.dropLast
  else if name.utf8ByteSize > nameLimit then .error .nameTooLong
  else if (t.at? (place ++ [name])).isSome then .ok (place ++ [name])
  else .error .notFound

/-- The place that names lead to. -/
def walk (t : Tree) (place : Place) : List String → Except Refusal Place
  | [] => .ok place
  | name :: names =>
    match t.step place name with
    | .ok next => t.walk next names
    | .error refusal => .error refusal

/-- The names of a path and the place they start from, if it can be a path at all. -/
def start (t : Tree) (path : String) : Except Refusal (Place × List String) :=
  if path.toList.contains '\x00' then .error .nullCharacter
  else if path.isEmpty then .error .notFound
  else if path.utf8ByteSize > pathLimit then .error .nameTooLong
  else .ok (if isAbsolute path then [] else t.working, components path)

/-- The place of something that is there. -/
def locate (t : Tree) (path : String) : Except Refusal Place := do
  let (place, names) ← t.start path
  let place ← t.walk place names
  if endsInSlash path && !t.isDirectoryAt place then .error .notDirectory else return place

/-- There is something at the path. -/
def holds (t : Tree) (path : String) : Bool :=
  match t.locate path with
  | .ok _ => true
  | .error _ => false

/-- There is a directory at the path. -/
def holdsDirectory (t : Tree) (path : String) : Bool :=
  match t.locate path with
  | .ok place => t.isDirectoryAt place
  | .error _ => false

/-- The content of the file at a path. -/
def read (t : Tree) (path : String) : Except PathError (List UInt8) :=
  match t.locate path with
  | .error refusal => .error ⟨refusal, path⟩
  | .ok place =>
    match t.at? place with
    | some (.file content) => .ok content
    | some .directory => .error ⟨.isDirectory, path⟩
    | none => .error ⟨.notFound, path⟩

/-- The directory that a new name goes into, and the name; none if the path leads back to a
directory that is there already. -/
def target (t : Tree) (path : String) : Except Refusal (Place × Option String) := do
  let (place, names) ← t.start path
  let directory ← t.walk place names.dropLast
  if !t.isDirectoryAt directory then .error .notDirectory
  else match names.getLast? with
    | none => return (directory, none)
    | some name =>
      if name == "." || name == ".." then return (directory, none)
      else if name.utf8ByteSize > nameLimit then .error .nameTooLong
      else return (directory, some name)

/-- Make the file at a path empty, making it if it is not there, and return its place. -/
def openNew (t : Tree) (path : String) : Except PathError (Tree × Place) :=
  match t.target path with
  | .error refusal => .error ⟨refusal, path⟩
  | .ok (_, none) => .error ⟨.isDirectory, path⟩
  | .ok (directory, some name) =>
    let place := directory ++ [name]
    if t.isDirectoryAt place || endsInSlash path then .error ⟨.isDirectory, path⟩
    else .ok (t.set place (.file []), place)

/-- Make a directory in a directory that is there. -/
def makeDirectory (t : Tree) (path : String) : Except PathError Tree :=
  match t.target path with
  | .error refusal => .error ⟨refusal, path⟩
  | .ok (_, none) => .error ⟨.exists, path⟩
  | .ok (directory, some name) =>
    let place := directory ++ [name]
    if (t.at? place).isSome then .error ⟨.exists, path⟩ else .ok (t.set place .directory)

/-- Make the directory at a path in a directory that is there. A refusal is no error if there is a
directory at the path already. -/
def makeLast (t : Tree) (path : String) : Tree × Option PathError :=
  match t.makeDirectory path with
  | .ok t => (t, none)
  | .error e =>
    if e.refusal != .nullCharacter && t.holdsDirectory path then (t, none) else (t, some e)

/-- Make the directory at a path and all directories on the way that are missing. What was made
before an error stays. -/
def makeDirectories (t : Tree) (path : List Char) : Tree × Option PathError :=
  let parent := (parentAndName path).1
  let name := (parentAndName path).2
  if h : parent ≠ [] ∧ name ≠ [] ∧ t.holds (String.ofList parent) = false then
    have := length_parentAndName_lt h.2.1
    match t.makeDirectories parent with
    | (t, some e) =>
      if e.refusal != .exists then (t, some e)
      else if name == ['.'] then (t, none)
      else t.makeLast (String.ofList path)
    | (t, none) => if name == ['.'] then (t, none) else t.makeLast (String.ofList path)
  else t.makeLast (String.ofList path)
termination_by path.length

/-- Make sure that the directory at a path is there. -/
def ensureDirectory (t : Tree) (path : String) : Tree × Option PathError :=
  t.makeDirectories path.toList

/-- All files below a place with their paths from there, in the order of their paths. -/
def filesBelow (t : Tree) (place : Place) : List (String × List UInt8) :=
  let files := t.items.filterMap fun (p, item) =>
    match item with
    | .file content =>
      if place.isPrefixOf p then some ("/".intercalate (p.drop place.length), content) else none
    | .directory => none
  files.mergeSort (fun a b => a.1 ≤ b.1)

@[simp] theorem working_set (t : Tree) (place : Place) (item : Item) :
    (t.set place item).working = t.working := rfl

/-- Of two items put at one place the second stays. -/
@[simp] theorem set_set (t : Tree) (place : Place) (first second : Item) :
    (t.set place first).set place second = t.set place second := by
  simp [set]

/-- A new item that is taken away again leaves no trace. -/
theorem remove_set {t : Tree} {place : Place} (h : place ∉ t.items.keys) (item : Item) :
    (t.set place item).remove place = t := by
  simp [set, remove, Entries.erase_put h]

end Tree

end CodecMocks.Files
