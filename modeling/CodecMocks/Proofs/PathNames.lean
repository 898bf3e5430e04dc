import CodecMocks.Files.Unit
import Mathlib.Data.List.DropRight

/-!
# Names of paths

The names on the way of a path, under the operations that cut paths and put them together. Slashes
that are repeated, or that stand at an end, add no name, so a path that is cut before its last name
has the same names but that one, and a file in a directory has one name more than the directory.

* `components_of_parentAndName`: the names of a path are those of its parent and its last name.
* `components_fileOf`: the names of the file for a unit.
-/

namespace CodecMocks.Files

/-! ### Splitting -/

theorem splitSlashes_ne_nil (path : List Char) : splitSlashes path ≠ [] := by
  fun_cases splitSlashes path <;> simp_all

theorem splitSlashes_append_slash (before after : List Char) :
    splitSlashes (before ++ '/' :: after) = splitSlashes before ++ splitSlashes after := by
  induction before with
  | nil => rfl
  | cons c cs ih =>
    by_cases hc : (c == '/') = true
    · simp only [List.cons_append, splitSlashes, hc, if_true, ih]
    · simp only [List.cons_append, splitSlashes, hc, Bool.false_eq_true, if_false, ih]
      cases hparts : splitSlashes cs with
      | nil => exact absurd hparts (splitSlashes_ne_nil cs)
      | cons part parts => rfl

theorem splitSlashes_of_not_mem {part : List Char} (h : '/' ∉ part) :
    splitSlashes part = [part] := by
  induction part with
  | nil => rfl
  | cons c cs ih =>
    obtain ⟨hc, hcs⟩ := not_or.mp (mt List.mem_cons.mpr h)
    have hslash : ¬ (c == '/') = true := fun hslash => hc (beq_iff_eq.mp hslash).symm
    simp only [splitSlashes, hslash, Bool.false_eq_true, if_false, ih hcs]

/-- The names on the way, as characters. -/
def namesOf (path : List Char) : List (List Char) :=
  (splitSlashes path).filter (!·.isEmpty)

theorem components_eq (path : String) :
    components path = (namesOf path.toList).map String.ofList :=
  rfl

theorem namesOf_append_slash (before after : List Char) :
    namesOf (before ++ '/' :: after) = namesOf before ++ namesOf after := by
  rw [namesOf, splitSlashes_append_slash, List.filter_append, namesOf, namesOf]

@[simp] theorem namesOf_nil : namesOf [] = [] := rfl

theorem namesOf_of_not_mem {name : List Char} (h : '/' ∉ name) (hne : name ≠ []) :
    namesOf name = [name] := by
  simp [namesOf, splitSlashes_of_not_mem h, hne]

/-- Slashes at the end add no name. -/
theorem namesOf_append_slashes (path : List Char) {slashes : List Char}
    (h : ∀ c ∈ slashes, c = '/') : namesOf (path ++ slashes) = namesOf path := by
  induction slashes generalizing path with
  | nil => rw [List.append_nil]
  | cons c cs ih =>
    obtain ⟨rfl, hcs⟩ := List.forall_mem_cons.mp h
    rw [namesOf_append_slash]
    have hrest := ih [] hcs
    rw [List.nil_append] at hrest
    rw [hrest, namesOf_nil, List.append_nil]

/-- What comes after a slash, or at the start, is a name of its own. -/
theorem namesOf_append {head tail : List Char} (hhead : ∀ c, head.getLast? = some c → c = '/') :
    namesOf (head ++ tail) = namesOf head ++ namesOf tail := by
  rcases head.eq_nil_or_concat with rfl | ⟨before, c, rfl⟩
  · rfl
  · rw [List.concat_eq_append] at hhead ⊢
    obtain rfl : c = '/' := hhead c List.getLast?_concat
    rw [List.append_assoc, List.singleton_append, namesOf_append_slash, namesOf_append_slash,
      namesOf_nil, List.append_nil]

/-! ### Cutting -/

theorem splitLast_snd (path : List Char) : (splitLast path).2 = path.rtakeWhile (· != '/') :=
  rfl

theorem splitLast_fst (path : List Char) :
    (splitLast path).1 =
      if ((path.rdropWhile (· != '/')).rdropWhile (· == '/')).isEmpty then
        path.rdropWhile (· != '/')
      else (path.rdropWhile (· != '/')).rdropWhile (· == '/') := by
  have hhead : path.take (path.length - (path.reverse.takeWhile (· != '/')).reverse.length) =
      path.rdropWhile (· != '/') := by
    have hcut : path.rdropWhile (· != '/') ++ path.rtakeWhile (· != '/') = path :=
      List.rdropWhile_append_rtakeWhile
    have hlength := congrArg List.length hcut
    rw [List.length_append] at hlength
    conv_lhs => rw [← hcut]
    refine List.take_left' ?_
    rw [hcut]
    exact Nat.eq_sub_of_add_eq hlength
  unfold splitLast
  dsimp only
  rw [hhead]
  rfl

theorem slash_notMem_splitLast_snd (path : List Char) : '/' ∉ (splitLast path).2 := by
  intro h
  have hne := List.mem_rtakeWhile_imp h
  exact absurd hne (by decide)

/-- Only slashes are dropped where a path is cut. -/
theorem exists_splitLast_fst_append (path : List Char) :
    ∃ slashes, (splitLast path).1 ++ slashes = path.rdropWhile (· != '/') ∧
      ∀ c ∈ slashes, c = '/' := by
  rw [splitLast_fst]
  split
  · exact ⟨[], List.append_nil _, by simp⟩
  · refine ⟨_, List.rdropWhile_append_rtakeWhile, fun c hc => ?_⟩
    have hslash := List.mem_rtakeWhile_imp hc
    exact beq_iff_eq.mp hslash

theorem getLast?_rdropWhile {path : List Char} {c : Char}
    (h : (path.rdropWhile (· != '/')).getLast? = some c) : c = '/' := by
  have hne : path.rdropWhile (· != '/') ≠ [] := by
    intro hnil
    rw [hnil] at h
    cases h
  have hlast := List.rdropWhile_last_not (· != '/') path hne
  rw [List.getLast?_eq_some_getLast hne] at h
  simpa [Option.some.inj h] using hlast

/-- A path that is cut keeps its names. -/
theorem namesOf_splitLast (path : List Char) :
    namesOf path = namesOf (splitLast path).1 ++ namesOf (splitLast path).2 := by
  obtain ⟨slashes, hhead, hslashes⟩ := exists_splitLast_fst_append path
  calc
    namesOf path = namesOf (path.rdropWhile (· != '/') ++ path.rtakeWhile (· != '/')) := by
      rw [List.rdropWhile_append_rtakeWhile]
    _ = namesOf (path.rdropWhile (· != '/')) ++ namesOf (splitLast path).2 :=
      namesOf_append fun c => getLast?_rdropWhile
    _ = namesOf (splitLast path).1 ++ namesOf (splitLast path).2 := by
      rw [← hhead, namesOf_append_slashes _ hslashes]

theorem splitLast_fst_isPrefix (path : List Char) : (splitLast path).1 <+: path := by
  obtain ⟨slashes, hhead, -⟩ := exists_splitLast_fst_append path
  have hfirst : (splitLast path).1 <+: path.rdropWhile (· != '/') :=
    hhead ▸ List.prefix_append _ slashes
  exact hfirst.trans (List.rdropWhile_prefix _ path)

/-- A path that cannot be cut before a name, nor where it is cut first, has no names. -/
theorem namesOf_eq_nil_of_splitLast {path : List Char} (hname : (splitLast path).2 = [])
    (hagain : (splitLast (splitLast path).1).2 = []) : namesOf path = [] := by
  have hpath : path.rdropWhile (· != '/') = path := by
    have hcut := List.rdropWhile_append_rtakeWhile (p := (· != '/')) (l := path)
    rwa [← splitLast_snd, hname, List.append_nil] at hcut
  have htrimmed : path.rdropWhile (· == '/') = [] := by
    by_contra hne
    have hfirst : (splitLast path).1 = path.rdropWhile (· == '/') := by
      rw [splitLast_fst, hpath, if_neg (by simpa using hne)]
    rw [hfirst, splitLast_snd, List.rtakeWhile_eq_nil_iff] at hagain
    have hlast := List.rdropWhile_last_not (· == '/') path hne
    have hslash := hagain hne
    simp_all
  have hslashes : ∀ c ∈ path, c = '/' := fun c hc =>
    beq_iff_eq.mp (List.rdropWhile_eq_nil_iff.mp htrimmed c hc)
  simpa using namesOf_append_slashes [] hslashes

/-- The names of a path are those of its parent and its last name, if it has one. -/
theorem namesOf_parentAndName (path : List Char) :
    namesOf path = namesOf (parentAndName path).1 ++ namesOf (parentAndName path).2 := by
  unfold parentAndName
  dsimp only
  split
  · next hname =>
    rw [List.isEmpty_iff] at hname
    rw [namesOf_splitLast path, hname, namesOf_nil, List.append_nil]
    exact namesOf_splitLast _
  · exact namesOf_splitLast path

theorem slash_notMem_parentAndName_snd (path : List Char) : '/' ∉ (parentAndName path).2 := by
  unfold parentAndName
  dsimp only
  split
  · exact slash_notMem_splitLast_snd _
  · exact slash_notMem_splitLast_snd path

theorem parentAndName_fst_isPrefix (path : List Char) : (parentAndName path).1 <+: path := by
  unfold parentAndName
  dsimp only
  split
  · exact (splitLast_fst_isPrefix _).trans (splitLast_fst_isPrefix path)
  · exact splitLast_fst_isPrefix path

theorem namesOf_eq_nil_of_parentAndName {path : List Char} (h : (parentAndName path).2 = []) :
    namesOf path = [] := by
  unfold parentAndName at h
  dsimp only at h
  split at h
  · next hname => exact namesOf_eq_nil_of_splitLast (List.isEmpty_iff.mp hname) h
  · next hname => exact absurd (List.isEmpty_iff.mpr h) hname

/-- The names of a path with a last name are those of its parent and this name. -/
theorem components_of_parentAndName {path : List Char} (h : (parentAndName path).2 ≠ []) :
    components (String.ofList path) =
      components (String.ofList (parentAndName path).1) ++
        [String.ofList (parentAndName path).2] := by
  simp only [components_eq, String.toList_ofList]
  rw [namesOf_parentAndName path,
    namesOf_of_not_mem (slash_notMem_parentAndName_snd path) h, List.map_append,
    List.map_singleton]

theorem isAbsolute_of_isPrefix {first path : List Char} (h : first <+: path) (hne : first ≠ []) :
    isAbsolute (String.ofList first) = isAbsolute (String.ofList path) := by
  obtain ⟨rest, rfl⟩ := h
  cases first with
  | nil => exact absurd rfl hne
  | cons c cs => simp [isAbsolute]

/-! ### Files of units -/

theorem toList_fileEnding : fileEnding.toList = ['.', 'p', 'y'] := rfl

theorem fileEnding_ne : fileEnding ≠ "" := by decide

section

variable {name : String} (h : '/' ∉ name.toList)

include h

theorem slash_notMem_file : '/' ∉ (name ++ fileEnding).toList := by
  simp [toList_fileEnding, h]

variable {d : Directory} (hpath : d.path ≠ "")

include hpath

/-- The path of the file for a unit is that of the directory, with a slash at its end, and the
name of the file. -/
theorem exists_fileOf_eq :
    ∃ base : List Char, (base = d.path.toList ∨ base = d.path.toList ++ ['/']) ∧
      base.getLast? = some '/' ∧
      (d.fileOf name).toList = base ++ (name ++ fileEnding).toList := by
  have hrelative : isAbsolute (name ++ fileEnding) = false := by
    rw [isAbsolute, beq_eq_false_iff_ne]
    intro habsolute
    exact slash_notMem_file h (List.mem_of_head? habsolute)
  rw [Directory.fileOf, join, if_neg (by simp [hrelative])]
  split
  · next hends =>
    refine ⟨d.path.toList, .inl rfl, ?_, String.toList_append⟩
    simpa [endsInSlash, hpath] using hends
  · refine ⟨d.path.toList ++ ['/'], .inr rfl, List.getLast?_concat, ?_⟩
    rw [String.toList_append, String.toList_append]
    rfl

theorem path_isPrefix_fileOf : d.path.toList <+: (d.fileOf name).toList := by
  obtain ⟨base, hbase, -, hfile⟩ := exists_fileOf_eq h hpath
  rw [hfile]
  rcases hbase with rfl | rfl
  · exact List.prefix_append _ _
  · exact (List.prefix_append _ _).trans (List.prefix_append _ _)

theorem components_fileOf :
    components (d.fileOf name) = components d.path ++ [name ++ fileEnding] := by
  obtain ⟨base, hbase, hlast, hfile⟩ := exists_fileOf_eq h hpath
  have hnames : namesOf base = namesOf d.path.toList := by
    rcases hbase with rfl | rfl
    · rfl
    · exact namesOf_append_slashes _ (by simp)
  have hname : namesOf (name ++ fileEnding).toList = [(name ++ fileEnding).toList] :=
    namesOf_of_not_mem (slash_notMem_file h) (by simp [fileEnding_ne])
  rw [components_eq, components_eq, hfile, namesOf_append (by simp [hlast]), hnames, hname,
    List.map_append, List.map_singleton, String.ofList_toList]

theorem isAbsolute_fileOf : isAbsolute (d.fileOf name) = isAbsolute d.path := by
  have hsame := isAbsolute_of_isPrefix (path_isPrefix_fileOf h hpath) (by simpa using hpath)
  rw [String.ofList_toList, String.ofList_toList] at hsame
  exact hsame.symm

theorem endsInSlash_fileOf : endsInSlash (d.fileOf name) = false := by
  obtain ⟨base, -, -, hfile⟩ := exists_fileOf_eq h hpath
  simp [endsInSlash, hfile, toList_fileEnding]

end

/-- The name of a unit with the ending of files can be the name of a file. -/
structure IsUsable (name : String) : Prop where
  noSlash : '/' ∉ name.toList
  noNull : '\x00' ∉ name.toList
  size_le : (name ++ fileEnding).utf8ByteSize ≤ nameLimit

theorem IsUsable.null_notMem_fileOf {name : String} (h : IsUsable name) {d : Directory}
    (hpath : d.path ≠ "") (hnull : '\x00' ∉ d.path.toList) :
    '\x00' ∉ (d.fileOf name).toList := by
  obtain ⟨base, hbase, -, hfile⟩ := exists_fileOf_eq h.noSlash hpath
  have hname : '\x00' ∉ (name ++ fileEnding).toList := by
    simp [toList_fileEnding, h.noNull]
  rw [hfile, List.mem_append, not_or]
  refine ⟨?_, hname⟩
  rcases hbase with rfl | rfl
  · exact hnull
  · simp [hnull]

/-- The name of the file for a unit is too long for the two names of directories. -/
theorem append_fileEnding_ne {name other : String} (h : other.length < 3) :
    name ++ fileEnding ≠ other := by
  rintro rfl
  have hending : fileEnding.length = 3 := rfl
  rw [String.length_append, hending] at h
  omega

end CodecMocks.Files
