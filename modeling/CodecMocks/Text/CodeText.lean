/-!
# Texts of code points

The names of a schema are texts of code points. A code point is a character or a surrogate, and a
surrogate that is not part of a pair stands for no character; an escape in a JSON text may still
name one. `CodeText.ofString` embeds the texts of characters, and `CodeText.string?` leads back from
there.
-/

namespace CodecMocks

/-- A code point, by its number. -/
structure CodePoint where
  toNat : Nat
  isLt : toNat < 0x110000
deriving DecidableEq, Repr

namespace CodePoint

theorem toNat_inj {p q : CodePoint} : p.toNat = q.toNat ↔ p = q := by
  cases p
  cases q
  simp

/-- The code point of a character. -/
def ofChar (c : Char) : CodePoint where
  toNat := c.toNat
  isLt := by
    rcases c.valid with h | h
    · exact Nat.lt_trans h (by decide)
    · exact h.2

instance : Coe Char CodePoint := ⟨ofChar⟩

instance : Inhabited CodePoint := ⟨'\x00'⟩

/-- The code point with a number; a number that is too great has none, and gives the first one. -/
def ofNat (n : Nat) : CodePoint :=
  if h : n < 0x110000 then ⟨n, h⟩ else '\x00'

/-- The code point is a surrogate. -/
def isSurrogate (p : CodePoint) : Bool :=
  0xD800 ≤ p.toNat && p.toNat ≤ 0xDFFF

/-- The character of a code point that is no surrogate. -/
def char? (p : CodePoint) : Option Char :=
  if p.isSurrogate then none else some (Char.ofNat p.toNat)

/-- A capital letter of ASCII. -/
def isUpper (p : CodePoint) : Bool :=
  65 ≤ p.toNat && p.toNat ≤ 90

/-- A small letter of ASCII. -/
def isLower (p : CodePoint) : Bool :=
  97 ≤ p.toNat && p.toNat ≤ 122

/-- A letter of ASCII. -/
def isAlpha (p : CodePoint) : Bool :=
  p.isUpper || p.isLower

/-- A digit of ASCII. -/
def isDigit (p : CodePoint) : Bool :=
  48 ≤ p.toNat && p.toNat ≤ 57

/-- A letter or a digit of ASCII. -/
def isAlphanum (p : CodePoint) : Bool :=
  p.isAlpha || p.isDigit

/-- The small form of a capital letter of ASCII. -/
def toLower (p : CodePoint) : CodePoint :=
  if p.isUpper then ofNat (p.toNat + 32) else p

/-- The capital form of a small letter of ASCII. -/
def toUpper (p : CodePoint) : CodePoint :=
  if p.isLower then ofNat (p.toNat - 32) else p

@[simp] theorem toNat_ofChar (c : Char) : (ofChar c).toNat = c.toNat := rfl

@[simp] theorem ofChar_inj {c d : Char} : ofChar c = ofChar d ↔ c = d := by
  rw [← toNat_inj, toNat_ofChar, toNat_ofChar, Char.toNat_inj]

@[simp] theorem ofChar_beq (c d : Char) : (ofChar c == ofChar d) = (c == d) := by
  rw [Bool.eq_iff_iff, beq_iff_eq, beq_iff_eq, ofChar_inj]

@[simp] theorem ofNat_toNat (p : CodePoint) : ofNat p.toNat = p :=
  dif_pos p.isLt

/-- No character is a surrogate. -/
@[simp] theorem isSurrogate_ofChar (c : Char) : (ofChar c).isSurrogate = false := by
  have hvalid : c.toNat < 0xD800 ∨ 0xDFFF < c.toNat ∧ c.toNat < 0x110000 := c.valid
  rw [Bool.eq_false_iff]
  simp only [isSurrogate, ne_eq, Bool.and_eq_true, decide_eq_true_eq]
  rw [toNat_ofChar]
  omega

@[simp] theorem char?_ofChar (c : Char) : (ofChar c).char? = some c := by
  rw [char?, isSurrogate_ofChar]
  exact congrArg some (Char.ofNat_toNat c)

theorem char?_eq_some_iff {p : CodePoint} {c : Char} : p.char? = some c ↔ p = ofChar c := by
  refine ⟨fun h => ?_, fun h => by rw [h, char?_ofChar]⟩
  unfold char? at h
  split at h
  · cases h
  next hplain =>
  have hvalid : p.toNat.isValidChar := by
    simp only [isSurrogate, Bool.and_eq_true, decide_eq_true_eq, not_and] at hplain
    have := p.isLt
    unfold Nat.isValidChar
    omega
  rw [← toNat_inj, ← Option.some.inj h, toNat_ofChar, Char.ofNat, dif_pos hvalid]
  rfl

end CodePoint

/-- A text of code points. -/
structure CodeText where ofList ::
  toList : List CodePoint
deriving DecidableEq, Repr

namespace CodeText

/-- A text of characters. -/
def ofString (s : String) : CodeText :=
  ofList (s.toList.map .ofChar)

instance : Coe String CodeText := ⟨ofString⟩

instance : Inhabited CodeText := ⟨""⟩

instance : Append CodeText := ⟨fun a b => ofList (a.toList ++ b.toList)⟩

/-- The text holds nothing. -/
def isEmpty (t : CodeText) : Bool :=
  t.toList.isEmpty

/-- The number of code points. -/
def length (t : CodeText) : Nat :=
  t.toList.length

/-- The texts one after the other. -/
def join (texts : List CodeText) : CodeText :=
  ofList (texts.flatMap toList)

/-- The texts with another one between two of them. -/
def intercalate (separator : CodeText) (texts : List CodeText) : CodeText :=
  ofList (separator.toList.intercalate (texts.map toList))

/-- The characters of a text without surrogates. -/
def string? (t : CodeText) : Option String :=
  (t.toList.mapM CodePoint.char?).map String.ofList

theorem toList_inj {a b : CodeText} : a.toList = b.toList ↔ a = b := by
  cases a
  cases b
  simp

@[simp] theorem ofList_toList (t : CodeText) : ofList t.toList = t := rfl

theorem toList_ofList (ps : List CodePoint) : (ofList ps).toList = ps := rfl

theorem toList_ofString (s : String) : (ofString s).toList = s.toList.map .ofChar := rfl

@[simp] theorem toList_empty : (ofString "").toList = [] := rfl

@[simp] theorem toList_append (a b : CodeText) : (a ++ b).toList = a.toList ++ b.toList := rfl

theorem toList_intercalate (separator : CodeText) (texts : List CodeText) :
    (separator.intercalate texts).toList = separator.toList.intercalate (texts.map toList) := rfl

@[simp] theorem intercalate_singleton (separator t : CodeText) :
    separator.intercalate [t] = t := by
  rw [← toList_inj, toList_intercalate, List.map_singleton, List.intercalate_singleton]

@[simp] theorem intercalate_cons_cons (separator t u : CodeText) (texts : List CodeText) :
    separator.intercalate (t :: u :: texts) =
      t ++ separator ++ separator.intercalate (u :: texts) :=
  toList_inj.mp List.intercalate_cons_cons

@[simp] theorem ofList_append (ps qs : List CodePoint) :
    ofList (ps ++ qs) = ofList ps ++ ofList qs := rfl

@[simp] theorem toList_eq_nil_iff {t : CodeText} : t.toList = [] ↔ t = "" := by
  rw [← toList_empty, toList_inj]

@[simp] theorem isEmpty_iff {t : CodeText} : t.isEmpty = true ↔ t = "" := by
  rw [isEmpty, List.isEmpty_iff, toList_eq_nil_iff]

@[simp] theorem isEmpty_eq_false_iff {t : CodeText} : t.isEmpty = false ↔ t ≠ "" := by
  rw [Bool.eq_false_iff, Ne, isEmpty_iff]

theorem append_assoc (a b c : CodeText) : a ++ b ++ c = a ++ (b ++ c) :=
  toList_inj.mp (List.append_assoc _ _ _)

@[simp] theorem append_empty (a : CodeText) : a ++ ("" : CodeText) = a :=
  toList_inj.mp (List.append_nil _)

@[simp] theorem empty_append (a : CodeText) : ("" : CodeText) ++ a = a := rfl

@[simp] theorem append_eq_empty_iff {a b : CodeText} : a ++ b = "" ↔ a = "" ∧ b = "" := by
  simp only [← toList_eq_nil_iff, toList_append, List.append_eq_nil_iff]

theorem append_right_inj (a : CodeText) {b c : CodeText} : a ++ b = a ++ c ↔ b = c := by
  simp only [← toList_inj, toList_append, List.append_cancel_left_eq]

theorem append_left_inj {a b : CodeText} (c : CodeText) : a ++ c = b ++ c ↔ a = b := by
  simp only [← toList_inj, toList_append, List.append_cancel_right_eq]

@[simp] theorem join_nil : join [] = "" := rfl

@[simp] theorem join_cons (t : CodeText) (texts : List CodeText) :
    join (t :: texts) = t ++ join texts := rfl

@[simp] theorem length_append (a b : CodeText) : (a ++ b).length = a.length + b.length :=
  List.length_append

@[simp] theorem length_ofString (s : String) : (ofString s).length = s.length := by
  rw [length, toList_ofString, List.length_map, String.length_toList]

theorem ofString_append (s t : String) : ofString (s ++ t) = ofString s ++ ofString t := by
  simp [← toList_inj, toList_ofString]

@[simp] theorem string?_ofString (s : String) : (ofString s).string? = some s := by
  have hchars : ∀ cs : List Char, (cs.map CodePoint.ofChar).mapM CodePoint.char? = some cs := by
    intro cs
    induction cs with
    | nil => rfl
    | cons c cs ih => simp [List.mapM_cons, ih]
  rw [string?, toList_ofString, hchars, Option.map_some, String.ofList_toList]

theorem string?_eq_some_iff {t : CodeText} {s : String} : t.string? = some s ↔ t = s := by
  have hchars : ∀ (ps : List CodePoint) (cs : List Char),
      ps.mapM CodePoint.char? = some cs → ps = cs.map CodePoint.ofChar := by
    intro ps
    induction ps with
    | nil =>
      intro cs h
      cases h
      rfl
    | cons p ps ih =>
      intro cs h
      rw [List.mapM_cons] at h
      obtain ⟨c, hc, h⟩ := Option.bind_eq_some_iff.mp h
      obtain ⟨rest, hrest, h⟩ := Option.bind_eq_some_iff.mp h
      cases h
      rw [List.map_cons, ih rest hrest, CodePoint.char?_eq_some_iff.mp hc]
  refine ⟨fun h => ?_, fun h => by rw [h, string?_ofString]⟩
  obtain ⟨cs, hcs, rfl⟩ := Option.map_eq_some_iff.mp h
  rw [← toList_inj, hchars _ cs hcs, toList_ofString, String.toList_ofList]

@[simp] theorem ofString_inj {s t : String} : ofString s = ofString t ↔ s = t := by
  rw [← toList_inj, toList_ofString, toList_ofString,
    List.map_inj_right fun c d => CodePoint.ofChar_inj.mp, String.toList_inj]

end CodeText

end CodecMocks
