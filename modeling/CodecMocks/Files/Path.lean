/-!
# Paths

A path names a file by the names of the directories on the way, with slashes between them. A path
that starts with a slash starts at the top of the tree, any other at the working directory.
-/

namespace CodecMocks.Files

/-- The parts of a text between slashes; there is one more of them than there are slashes. -/
def splitSlashes : List Char → List (List Char)
  | [] => [[]]
  | c :: cs =>
    if c == '/' then [] :: splitSlashes cs
    else match splitSlashes cs with
      | part :: parts => (c :: part) :: parts
      | [] => [[c]]

/-- The names on the way; repeated slashes count once. -/
def components (path : String) : List String :=
  ((splitSlashes path.toList).filter (!·.isEmpty)).map String.ofList

/-- The path starts at the top of the tree. -/
def isAbsolute (path : String) : Bool :=
  path.toList.head? == some '/'

/-- The path ends in a slash, so that only a directory can be meant. -/
def endsInSlash (path : String) : Bool :=
  path.toList.getLast? == some '/'

/-- The second path as seen from the first. -/
def join (base path : String) : String :=
  if isAbsolute path then path
  else if base.isEmpty || endsInSlash base then base ++ path
  else base ++ "/" ++ path

/-- A path cut after its last slash; the slashes at the end of the first part are dropped unless it
has nothing else. -/
def splitLast (path : List Char) : List Char × List Char :=
  let tail := (path.reverse.takeWhile (· != '/')).reverse
  let head := path.take (path.length - tail.length)
  let trimmed := (head.reverse.dropWhile (· == '/')).reverse
  (if trimmed.isEmpty then head else trimmed, tail)

/-- The part of a path before its last name, and that name; slashes at the end are passed over. -/
def parentAndName (path : List Char) : List Char × List Char :=
  let (head, tail) := splitLast path
  if tail.isEmpty then splitLast head else (head, tail)

/-- A cut path is no longer than the path. -/
theorem length_splitLast_le (path : List Char) :
    (splitLast path).1.length + (splitLast path).2.length ≤ path.length := by
  have htail : (path.reverse.takeWhile (· != '/')).length ≤ path.length := by
    have h := (List.takeWhile_prefix (l := path.reverse) (· != '/')).length_le
    rwa [List.length_reverse] at h
  have htrim (head : List Char) : (head.reverse.dropWhile (· == '/')).length ≤ head.length := by
    have h := (List.dropWhile_suffix (l := head.reverse) (· == '/')).length_le
    rwa [List.length_reverse] at h
  simp only [splitLast, List.length_reverse]
  split
  · simp only [List.length_take]
    omega
  · have h := htrim (path.take (path.length - (path.reverse.takeWhile (· != '/')).length))
    simp only [List.length_take] at h
    simp only [List.length_reverse]
    omega

/-- A path with a last name is longer than the part before it. -/
theorem length_parentAndName_lt {path : List Char} (h : (parentAndName path).2 ≠ []) :
    (parentAndName path).1.length < path.length := by
  have hpath := length_splitLast_le path
  unfold parentAndName at h ⊢
  dsimp only at h ⊢
  split at h
  · next htail =>
    rw [if_pos htail]
    have hhead := length_splitLast_le (splitLast path).1
    have := List.length_pos_iff.mpr h
    omega
  · next htail =>
    rw [if_neg htail]
    have := List.length_pos_iff.mpr h
    dsimp only at this ⊢
    omega

end CodecMocks.Files
