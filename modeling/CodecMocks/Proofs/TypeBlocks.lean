import CodecMocks.Mock.Members

/-!
# Blocks of named types

A value of a named type is a block of tokens: the begin marker of the type, what the type is made
of, and the end marker. The end of a block is found by counting the markers of its own kind only.

* `closing?_append_of_balanced`: tokens with balanced markers are passed over.
* `afterBlock_append`: what follows a block is what is read after it.
* `compositeProperties_block_append`: a block among the members of a composite is one member,
  whatever is in it.
-/

namespace CodecMocks.Schema

/-- The markers `opening` and `closing` are balanced. Tokens with other signals, and so the blocks
of other kinds, may stand anywhere. -/
inductive Balanced (opening closing : Signal) : List Token → Prop where
  | nil : Balanced opening closing []
  | other {t : Token} {rest : List Token} (hopening : t.is opening = false)
      (hclosing : t.is closing = false) (hrest : Balanced opening closing rest) :
      Balanced opening closing (t :: rest)
  | block {first last : Token} {inner rest : List Token} (hfirst : first.is opening = true)
      (hinner : Balanced opening closing inner) (hlast : last.is closing = true)
      (hrest : Balanced opening closing rest) :
      Balanced opening closing (first :: (inner ++ last :: rest))

/-- From `first` to `last` is the block of a composite, an enum or a set. -/
structure IsTypeBlock (first : Token) (inner : List Token) (last : Token) : Prop where
  kind : first.signal.typeEnd? = some last.signal
  balanced : Balanced first.signal last.signal inner

theorem Signal.ne_of_typeEnd? {opening closing : Signal} (h : opening.typeEnd? = some closing) :
    opening ≠ closing := by
  rintro rfl
  cases opening <;> cases h

theorem IsTypeBlock.signal_ne {first last : Token} {inner : List Token}
    (h : IsTypeBlock first inner last) : first.signal ≠ last.signal :=
  Signal.ne_of_typeEnd? h.kind

theorem IsTypeBlock.first_is_eq_false {first last : Token} {inner : List Token}
    (h : IsTypeBlock first inner last) {s : Signal} (hs : s.typeEnd? = none) :
    first.is s = false := by
  rw [Bool.eq_false_iff, Ne, Token.is_iff]
  intro hfirst
  have hkind := h.kind
  rw [hfirst, hs] at hkind
  cases hkind

theorem IsTypeBlock.last_is_beginField {first last : Token} {inner : List Token}
    (h : IsTypeBlock first inner last) : last.is .beginField = false := by
  rw [Bool.eq_false_iff, Ne, Token.is_iff]
  intro hlast
  have hkind := h.kind
  rw [hlast] at hkind
  cases hfirst : first.signal <;> simp [hfirst, Signal.typeEnd?] at hkind

section

variable {opening closing : Signal} {t : Token} {ts : List Token} {depth : Int}

theorem closing?_cons_opening (h : t.is opening = true) :
    closing? opening closing depth (t :: ts) =
      (closing? opening closing (depth + 1) ts).map (· + 1) := by
  rw [closing?, if_pos h]

theorem closing?_cons_other (hopening : t.is opening = false) (hclosing : t.is closing = false) :
    closing? opening closing depth (t :: ts) = (closing? opening closing depth ts).map (· + 1) := by
  simp [closing?, hopening, hclosing]

/-- An end marker that ends an inner block is passed over, the one that ends the last open block is
found. -/
theorem closing?_cons_closing (hne : opening ≠ closing) (h : t.is closing = true) :
    closing? opening closing depth (t :: ts) =
      if depth - 1 = 0 then some 0
      else (closing? opening closing (depth - 1) ts).map (· + 1) := by
  have hopening : t.is opening = false := by
    rw [Token.is_iff] at h
    simp [Token.is, h, Ne.symm hne]
  simp [closing?, hopening, h]

end

/-- As long as a block is open, tokens with balanced markers are passed over. -/
theorem closing?_append_of_balanced {opening closing : Signal} (hne : opening ≠ closing)
    {inner : List Token} (h : Balanced opening closing inner) {depth : Int} (hdepth : 0 < depth)
    (rest : List Token) :
    closing? opening closing depth (inner ++ rest) =
      (closing? opening closing depth rest).map (· + inner.length) := by
  induction h generalizing depth rest with
  | nil =>
    rw [List.nil_append]
    exact Option.map_id'.symm
  | other hopening hclosing _ ih =>
    rw [List.cons_append, closing?_cons_other hopening hclosing, ih hdepth, Option.map_map]
    rfl
  | @block first last inner tail hfirst _ hlast _ ihInner ihRest =>
    have hopen : depth + 1 - 1 ≠ 0 := by omega
    have hclosed : depth + 1 - 1 = depth := by omega
    have hlist : first :: (inner ++ last :: tail) ++ rest =
        first :: (inner ++ last :: (tail ++ rest)) := by
      simp
    rw [hlist, closing?_cons_opening hfirst, ihInner (by omega),
      closing?_cons_closing hne hlast, if_neg hopen, hclosed, ihRest hdepth]
    simp only [Option.map_map]
    congr 1
    funext n
    simp only [Function.comp, List.length_cons, List.length_append]
    omega

/-- What follows the block of a type is what is read after it. -/
theorem afterBlock_append {first last : Token} {inner : List Token}
    (h : IsTypeBlock first inner last) (rest : List Token) :
    afterBlock first.signal last.signal (first :: (inner ++ [last]) ++ rest) = rest := by
  have hfirst : first.is first.signal = true := Token.is_iff.mpr rfl
  have hlast : last.is last.signal = true := Token.is_iff.mpr rfl
  have hlist : first :: (inner ++ [last]) ++ rest = first :: (inner ++ last :: rest) := by simp
  have hend : closing? first.signal last.signal 0 (first :: (inner ++ [last]) ++ rest) =
      some (inner.length + 1) := by
    rw [hlist, closing?_cons_opening hfirst,
      closing?_append_of_balanced h.signal_ne h.balanced (by decide),
      closing?_cons_closing h.signal_ne hlast]
    simp
  have hlength : (first :: (inner ++ [last])).length = inner.length + 1 + 1 := by simp
  rw [afterBlock, hend]
  exact List.drop_left' hlength

end CodecMocks.Schema

namespace CodecMocks.Mock

open CodecMocks.Naming CodecMocks.Schema

/-! ### Members of composites -/

/-- A token that begins no block of a type is a member of its own. -/
theorem compositeProperties_cons {t : Token} (h : t.signal.typeEnd? = none)
    (reserved : List CodeText) (rest : List Token) :
    compositeProperties reserved (t :: rest) =
      (if t.is .encoding then
        (primitiveProperty? (propertyName t.name reserved) t).toList else []) ++
        compositeProperties reserved rest := by
  rw [compositeProperties]
  simp only [h]

/-- The block of a type is one member, and what is in it is none. -/
theorem compositeProperties_block_append {first last : Token} {inner : List Token}
    (h : IsTypeBlock first inner last) (reserved : List CodeText) (rest : List Token) :
    compositeProperties reserved (first :: (inner ++ [last]) ++ rest) =
      (if first.isConstant then []
        else [namedProperty (propertyName first.name reserved) first.name]) ++
        compositeProperties reserved rest := by
  have hafter := afterBlock_append h rest
  rw [List.cons_append] at hafter ⊢
  rw [compositeProperties]
  simp only [h.kind, hafter]

end CodecMocks.Mock
