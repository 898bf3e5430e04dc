import CodecMocks.Text.Quoted

/-!
# UTF-8

A reader that goes octet by octet and stands, between octets, either between two characters or
inside one. `decode` reports the first place where the octets are no UTF-8, `decodeLossy` puts one
replacement character in the place of each longest run that starts a character and cannot end it.
Every character has octets and no surrogate has: `EncodeFault.first` says where a text holds them.
-/

namespace CodecMocks.Text.Utf8

/-- What is left of a character that has begun: how many octets are owed, the bounds of the next
one, the bits read and the number of octets read. -/
structure Pending where
  owed : Nat
  low : Nat
  high : Nat
  bits : Nat
  width : Nat
deriving DecidableEq, Repr

/-- What one octet does. -/
inductive Feed where
  /-- A character is complete. -/
  | char (c : Char)
  /-- The character goes on. -/
  | more (p : Pending)
  /-- No character goes on, or starts, with this octet. -/
  | stray
deriving DecidableEq, Repr

/-- The octet that starts a character. The bounds of the second octet leave out overlong forms,
surrogates and values above the last code point. -/
def lead (b : Nat) : Feed :=
  if b ≤ 0x7F then .char (Char.ofNat b)
  else if 0xC2 ≤ b ∧ b ≤ 0xDF then .more ⟨1, 0x80, 0xBF, b - 0xC0, 1⟩
  else if b = 0xE0 then .more ⟨2, 0xA0, 0xBF, 0, 1⟩
  else if b = 0xED then .more ⟨2, 0x80, 0x9F, 0xD, 1⟩
  else if 0xE1 ≤ b ∧ b ≤ 0xEF then .more ⟨2, 0x80, 0xBF, b - 0xE0, 1⟩
  else if b = 0xF0 then .more ⟨3, 0x90, 0xBF, 0, 1⟩
  else if 0xF1 ≤ b ∧ b ≤ 0xF3 then .more ⟨3, 0x80, 0xBF, b - 0xF0, 1⟩
  else if b = 0xF4 then .more ⟨3, 0x80, 0x8F, 4, 1⟩
  else .stray

/-- The octet that continues a character. -/
def Pending.feed (p : Pending) (b : Nat) : Feed :=
  if p.low ≤ b ∧ b ≤ p.high then
    let bits := p.bits * 64 + (b - 0x80)
    if p.owed ≤ 1 then .char (Char.ofNat bits)
    else .more ⟨p.owed - 1, 0x80, 0xBF, bits, p.width + 1⟩
  else .stray

/-- Why octets are no UTF-8. -/
inductive Reason where
  | invalidStart
  | invalidContinuation
  | unexpectedEnd
deriving DecidableEq, Repr

/-- The wording of a reason. -/
def Reason.text : Reason → String
  | .invalidStart => "invalid start byte"
  | .invalidContinuation => "invalid continuation byte"
  | .unexpectedEnd => "unexpected end of data"

/-- The first place where octets are no UTF-8: the octet at `position`, and how many octets from
there on are concerned. -/
structure Fault where
  reason : Reason
  octet : Nat
  position : Nat
  width : Nat
deriving DecidableEq, Repr

/-- The wording of a fault. One octet is named by value, several by their first and last place. -/
def Fault.message (f : Fault) : String :=
  if f.width ≤ 1 then
    "'utf-8' codec can't decode byte 0x" ++
      String.ofList (List.replicate (2 - (Nat.toDigits 16 f.octet).length) '0' ++
        Nat.toDigits 16 f.octet) ++
      " in position " ++ toString f.position ++ ": " ++ f.reason.text
  else
    "'utf-8' codec can't decode bytes in position " ++ toString f.position ++ "-" ++
      toString (f.position + f.width - 1) ++ ": " ++ f.reason.text

/-- The rest of a character that began with `first`, and then the characters after it. `position`
is the place of the next octet. -/
def decodeFrom (position : Nat) : Option (Nat × Pending) → List Nat → Except Fault (List Char)
  | none, [] => .ok []
  | some (first, p), [] => .error ⟨.unexpectedEnd, first, position - p.width, p.width⟩
  | none, b :: bs =>
    match lead b with
    | .char c => (decodeFrom (position + 1) none bs).map (c :: ·)
    | .more p => decodeFrom (position + 1) (some (b, p)) bs
    | .stray => .error ⟨.invalidStart, b, position, 1⟩
  | some (first, p), b :: bs =>
    match p.feed b with
    | .char c => (decodeFrom (position + 1) none bs).map (c :: ·)
    | .more p' => decodeFrom (position + 1) (some (first, p')) bs
    | .stray => .error ⟨.invalidContinuation, first, position - p.width, p.width⟩

/-- The characters of the octets, or the first fault. -/
def decode (octets : List UInt8) : Except Fault (List Char) :=
  decodeFrom 0 none (octets.map (·.toNat))

/-- The character that stands for octets that are no UTF-8. -/
def replacement : Char := '\uFFFD'

/-- The characters of the octets after an unfinished character. An octet that does not continue it
is read again as the start of the next. -/
def decodeLossyFrom : Option Pending → List Nat → List Char
  | none, [] => []
  | some _, [] => [replacement]
  | none, b :: bs =>
    match lead b with
    | .char c => c :: decodeLossyFrom none bs
    | .more p => decodeLossyFrom (some p) bs
    | .stray => replacement :: decodeLossyFrom none bs
  | some p, b :: bs =>
    match p.feed b with
    | .char c => c :: decodeLossyFrom none bs
    | .more p' => decodeLossyFrom (some p') bs
    | .stray =>
      replacement ::
        match lead b with
        | .char c => c :: decodeLossyFrom none bs
        | .more p' => decodeLossyFrom (some p') bs
        | .stray => replacement :: decodeLossyFrom none bs

/-- The characters of the octets, with replacements. -/
def decodeLossy (octets : List UInt8) : List Char :=
  decodeLossyFrom none (octets.map (·.toNat))

/-- The octets of a text. -/
def encode (text : String) : List UInt8 :=
  text.toUTF8.toList

/-- A place where a text holds surrogates: the first of them, its position, and how many there are
in a row. -/
structure EncodeFault where
  point : CodePoint
  position : Nat
  width : Nat
deriving DecidableEq, Repr

/-- The first place where a text holds surrogates. -/
def EncodeFault.first (text : CodeText) : EncodeFault :=
  let rest := text.toList.dropWhile (!·.isSurrogate)
  { point := rest.headD default
    position := (text.toList.takeWhile (!·.isSurrogate)).length
    width := (rest.takeWhile (·.isSurrogate)).length }

/-- The wording of a fault. One surrogate is named, several are by their first and last place. -/
def EncodeFault.message (f : EncodeFault) : String :=
  if f.width ≤ 1 then
    "'utf-8' codec can't encode character '" ++ String.ofList (numericEscape f.point.toNat) ++
      "' in position " ++ toString f.position ++ ": surrogates not allowed"
  else
    "'utf-8' codec can't encode characters in position " ++ toString f.position ++ "-" ++
      toString (f.position + f.width - 1) ++ ": surrogates not allowed"

/-! ### Octets of texts -/

theorem toList_loop (octets : ByteArray) (i : Nat) (before : List UInt8) :
    ByteArray.toList.loop octets i before = before.reverse ++ octets.data.toList.drop i := by
  fun_induction ByteArray.toList.loop octets i before with
  | case1 i before h ih =>
    have hsize : i < octets.data.toList.length := h
    have hfirst : octets.get! i = octets.data.toList[i] := by
      simp [ByteArray.get!, h]
    rw [ih, List.drop_eq_getElem_cons hsize, hfirst, List.reverse_cons, List.append_assoc,
      List.singleton_append]
  | case2 i before h =>
    rw [List.drop_eq_nil_of_le (Nat.le_of_not_lt h), List.append_nil]

theorem encode_eq (text : String) : encode text = text.toByteArray.data.toList := by
  rw [encode, String.toUTF8, ByteArray.toList, toList_loop]
  rfl

@[simp] theorem encode_empty : encode "" = [] := by
  rw [encode_eq]
  rfl

theorem encode_append (first second : String) :
    encode (first ++ second) = encode first ++ encode second := by
  rw [encode_eq, encode_eq, encode_eq, String.toByteArray_append]
  simp

theorem encode_ofList (cs : List Char) :
    encode (String.ofList cs) = cs.flatMap String.utf8EncodeChar := by
  rw [encode_eq, String.toByteArray_ofList, List.utf8Encode]
  simp

/-- A text of ASCII characters has one octet for each, and is read back. -/
theorem decode_encode_of_ascii {cs : List Char} (h : ∀ c ∈ cs, c.toNat ≤ 0x7F) :
    decode (encode (String.ofList cs)) = .ok cs := by
  have hoctets : (encode (String.ofList cs)).map (·.toNat) = cs.map (·.toNat) := by
    rw [encode_ofList]
    induction cs with
    | nil => rfl
    | cons c cs ih =>
      have hc := h c List.mem_cons_self
      have hone : String.utf8EncodeChar c = [c.toNat.toUInt8] := by
        unfold String.utf8EncodeChar
        simp [hc]
      rw [List.flatMap_cons, List.map_append, ih fun d hd => h d (List.mem_cons_of_mem _ hd), hone]
      have hlt : c.toNat < 256 := Nat.lt_of_le_of_lt hc (by decide)
      simp [Nat.mod_eq_of_lt hlt]
  rw [decode, hoctets]
  generalize 0 = position
  clear hoctets
  induction cs generalizing position with
  | nil => rfl
  | cons c cs ih =>
    have hlead : lead c.toNat = .char c := by
      rw [lead, if_pos (h c List.mem_cons_self), Char.ofNat_toNat]
    rw [List.map_cons, decodeFrom, hlead]
    dsimp only
    rw [ih fun d hd => h d (List.mem_cons_of_mem _ hd)]
    rfl

end CodecMocks.Text.Utf8
