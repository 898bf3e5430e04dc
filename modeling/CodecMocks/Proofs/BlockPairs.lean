import CodecMocks.Proofs.TypeBlocks

/-!
# Pairs of markers

Blocks of several kinds are told apart with a stack: a begin marker puts its block onto it, an end
marker takes the innermost block off, which has to be of its kind. The end of a single block is
found without a stack, by counting the markers of its own kind. Both agree where the blocks are
properly nested, because the count is how many blocks of this kind are on the stack, from the block
in question inwards.

* `BlockKinds.walk`: the stack along a range, and the pairs of markers that belong together.
* `BlockKinds.walk_append`, `BlockKinds.bounds_of_walk`: a range is walked part by part, and where
  the markers of a pair can be.
* `BlockKinds.exists_split`: up to the end marker of an open block, the blocks begun after it are
  walked through as if it were not there.
* `BlockKinds.closing?_append_of_walk`, `BlockKinds.exists_partner`: the count against the stack,
  and the end marker that both find for a begin marker.
* `closing?_eq_find?`: what the count finds in any range.
* `closingAt_ends_block`: the end of a block as the partner of its begin marker, and as the first
  position up to which as many blocks of its kind end as begin.
-/

namespace CodecMocks.Schema

/-- Kinds of blocks, by the marker that ends a block that begins with a marker. Each kind has an end
marker of its own, which begins nothing. -/
structure BlockKinds where
  endOf : Signal → Option Signal
  ownEnd : ∀ {opening other closing : Signal},
    endOf opening = some closing → endOf other = some closing → opening = other
  endBeginsNothing : ∀ {opening closing : Signal},
    endOf opening = some closing → endOf closing = none

/-- The kinds of blocks that are properly nested in a schema: composites, enums, sets and groups. -/
def Signal.blockEnd? : Signal → Option Signal
  | .beginGroup => some .endGroup
  | s => s.typeEnd?

/-- A block that is open: the position of its begin marker, and its end marker. -/
structure OpenBlock where
  start : Nat
  closing : Signal
deriving DecidableEq, Repr

namespace BlockKinds

/-- Composites, enums, sets and groups. -/
def all : BlockKinds where
  endOf := Signal.blockEnd?
  ownEnd {s s' _} h h' := by cases s <;> cases h <;> cases s' <;> first | rfl | cases h'
  endBeginsNothing {s _} h := by cases s <;> cases h <;> rfl

/-- Groups alone. -/
def groups : BlockKinds where
  endOf s := if s = .beginGroup then some .endGroup else none
  ownEnd h h' := (Option.ite_none_right_eq_some.mp h).1.trans
    (Option.ite_none_right_eq_some.mp h').1.symm
  endBeginsNothing h := by
    rw [← Option.some.inj (Option.ite_none_right_eq_some.mp h).2]
    rfl

/-- The signal ends blocks of some kind. -/
def isEnd (k : BlockKinds) (s : Signal) : Bool :=
  Signal.all.any (k.endOf · == some s)

/-- Walk through a range with a stack of open blocks, the innermost first: the blocks that are open
after it, and the positions of the markers that belong together, in the order of the end markers.
Nothing is answered where an end marker meets another block than one of its kind. -/
def walk (k : BlockKinds) (stack : List OpenBlock) (position : Nat) :
    List Token → Option (List OpenBlock × List (Nat × Nat))
  | [] => some (stack, [])
  | t :: ts =>
    match k.endOf t.signal with
    | some closing => k.walk (⟨position, closing⟩ :: stack) (position + 1) ts
    | none =>
      if k.isEnd t.signal then
        match stack with
        | [] => none
        | block :: outside =>
          if t.is block.closing then
            (k.walk outside (position + 1) ts).map fun r => (r.1, (block.start, position) :: r.2)
          else none
      else k.walk stack (position + 1) ts

variable {k : BlockKinds}

theorem isEnd_of_endOf {opening closing : Signal} (h : k.endOf opening = some closing) :
    k.isEnd closing = true := by
  have hmem : opening ∈ Signal.all := by cases opening <;> simp [Signal.all]
  exact List.any_eq_true.mpr ⟨opening, hmem, beq_iff_eq.mpr h⟩

theorem ne_of_endOf {opening closing : Signal} (h : k.endOf opening = some closing) :
    opening ≠ closing := by
  rintro rfl
  rw [k.endBeginsNothing h] at h
  cases h

/-- A range is walked through part by part. -/
theorem walk_append (stack : List OpenBlock) (position : Nat) (first second : List Token) :
    k.walk stack position (first ++ second) =
      (k.walk stack position first).bind fun r =>
        (k.walk r.1 (position + first.length) second).map fun r' => (r'.1, r.2 ++ r'.2) := by
  fun_induction walk k stack position first with
  | case1 stack position => simp
  | case2 stack position t ts closing hbegin ih =>
    simp only [List.cons_append, walk, hbegin, ih, List.length_cons, Nat.add_right_comm,
      Nat.add_assoc]
  | case3 position t ts hbegin hend => simp [walk, hbegin, hend]
  | case4 position t ts hbegin hend block outside hclosing ih =>
    simp [walk, hbegin, hend, hclosing, ih, Option.bind_map, Option.map_bind, Function.comp_def,
      Nat.add_right_comm, Nat.add_assoc]
  | case5 position t ts hbegin hend block outside hclosing =>
    simp [walk, hbegin, hend, hclosing]
  | case6 stack position t ts hbegin hend ih =>
    simp [walk, hbegin, hend, ih, Nat.add_right_comm, Nat.add_assoc]

/-- Of a pair that is found from a position on, the end marker is there, and the begin marker too
unless its block was open before. -/
structure PairWithin (stack : List OpenBlock) (position size : Nat) (pair : Nat × Nat) : Prop where
  lt : pair.1 < pair.2
  le_end : position ≤ pair.2
  end_lt : pair.2 < position + size
  begins : position ≤ pair.1 ∨ ∃ block ∈ stack, block.start = pair.1

/-- A pair that is found after one token, if what is open there was open before or begins with
it. -/
theorem PairWithin.later {stack before : List OpenBlock} {position size : Nat} {pair : Nat × Nat}
    (h : PairWithin stack (position + 1) size pair)
    (hstack : ∀ block ∈ stack, position ≤ block.start ∨ block ∈ before) :
    PairWithin before position (size + 1) pair := by
  obtain ⟨hlt, hle, hend, hbegins⟩ := h
  refine ⟨hlt, by omega, by omega, ?_⟩
  rcases hbegins with hin | ⟨block, hblock, hstart⟩
  · exact .inl (by omega)
  · rcases hstack block hblock with hin | hbefore
    · exact .inl (hstart ▸ hin)
    · exact .inr ⟨block, hbefore, hstart⟩

/-- What is open after a range begins before its end, and what is paired in it ends in it. -/
theorem bounds_of_walk {stack final : List OpenBlock} {position : Nat} {tokens : List Token}
    {pairs : List (Nat × Nat)} (h : k.walk stack position tokens = some (final, pairs))
    (hstack : ∀ block ∈ stack, block.start < position) :
    (∀ block ∈ final, block.start < position + tokens.length) ∧
      ∀ pair ∈ pairs, PairWithin stack position tokens.length pair := by
  fun_induction walk k stack position tokens generalizing pairs with
  | case1 stack position =>
    cases h
    exact ⟨hstack, nofun⟩
  | case2 stack position t ts closing hbegin ih =>
    have hlater : ∀ block ∈ (⟨position, closing⟩ : OpenBlock) :: stack,
        block.start < position + 1 :=
      List.forall_mem_cons.mpr
        ⟨Nat.lt_succ_self position, fun block hblock => Nat.lt_succ_of_lt (hstack block hblock)⟩
    obtain ⟨hfinal, hpairs⟩ := ih h hlater
    refine ⟨fun block hblock => ?_, fun pair hpair => ?_⟩
    · rw [List.length_cons]
      have := hfinal block hblock
      omega
    · refine (hpairs pair hpair).later fun block hblock => ?_
      rcases List.mem_cons.mp hblock with rfl | hblock
      · exact .inl (Nat.le_refl _)
      · exact .inr hblock
  | case3 position t ts hbegin hend => cases h
  | case4 position t ts hbegin hend block outside hclosing ih =>
    obtain ⟨hopen, houtside⟩ := List.forall_mem_cons.mp hstack
    obtain ⟨⟨final', later⟩, hlater, heq⟩ := Option.map_eq_some_iff.mp h
    cases heq
    obtain ⟨hfinal, hpairs⟩ := ih hlater fun b hb => Nat.lt_succ_of_lt (houtside b hb)
    refine ⟨fun b hb => ?_, List.forall_mem_cons.mpr ⟨?_, fun pair hpair => ?_⟩⟩
    · rw [List.length_cons]
      have := hfinal b hb
      omega
    · exact ⟨hopen, Nat.le_refl _, by simp, .inr ⟨block, List.mem_cons_self, rfl⟩⟩
    · exact (hpairs pair hpair).later fun b hb => .inr (List.mem_cons_of_mem _ hb)
  | case5 position t ts hbegin hend block outside hclosing => cases h
  | case6 stack position t ts hbegin hend ih =>
    obtain ⟨hfinal, hpairs⟩ := ih h fun b hb => Nat.lt_succ_of_lt (hstack b hb)
    refine ⟨fun b hb => ?_, fun pair hpair => (hpairs pair hpair).later fun b hb => .inr hb⟩
    rw [List.length_cons]
    have := hfinal b hb
    omega

/-- Where no block is open before, what is paired in a range begins and ends in it. -/
theorem bounds_of_walk_nil {final : List OpenBlock} {position : Nat} {tokens : List Token}
    {pairs : List (Nat × Nat)} (h : k.walk [] position tokens = some (final, pairs)) :
    (∀ block ∈ final, block.start < position + tokens.length) ∧
      ∀ a b, (a, b) ∈ pairs → position ≤ a ∧ a < b ∧ b < position + tokens.length := by
  obtain ⟨hfinal, hpairs⟩ := bounds_of_walk h fun block hblock => (List.not_mem_nil hblock).elim
  refine ⟨hfinal, fun a b hab => ?_⟩
  obtain ⟨hlt, -, hend, hbegin | ⟨block, hblock, -⟩⟩ := hpairs _ hab
  · exact ⟨hbegin, hlt, hend⟩
  · cases hblock

/-- The block that is open behind others ends at a marker of its kind. Up to there the others are
walked through as if it were not there, and then the blocks around it. -/
theorem exists_split {inside outside : List OpenBlock} {block : OpenBlock} {position : Nat}
    {tokens : List Token} {pairs : List (Nat × Nat)}
    (h : k.walk (inside ++ block :: outside) position tokens = some ([], pairs)) :
    ∃ first last second inner outer,
      tokens = first ++ last :: second ∧ last.is block.closing = true ∧
      k.walk inside position first = some ([], inner) ∧
      k.walk outside (position + first.length + 1) second = some ([], outer) ∧
      pairs = inner ++ (block.start, position + first.length) :: outer := by
  generalize hstack : inside ++ block :: outside = stack at h
  fun_induction walk k stack position tokens generalizing inside pairs with
  | case1 stack position =>
    cases h
    simp at hstack
  | case2 stack position t ts closing hbegin ih =>
    have hinside : (⟨position, closing⟩ :: inside) ++ block :: outside =
        ⟨position, closing⟩ :: stack := congrArg _ hstack
    obtain ⟨first, last, second, inner, outer, rfl, hlast, hinner, houter, rfl⟩ := ih hinside h
    refine ⟨t :: first, last, second, inner, outer, rfl, hlast, ?_, ?_, ?_⟩
    · simp only [walk, hbegin]
      exact hinner
    · rw [List.length_cons, ← Nat.add_assoc, Nat.add_right_comm position]
      exact houter
    · rw [List.length_cons, ← Nat.add_assoc, Nat.add_right_comm position]
  | case3 position t ts hbegin hend => cases h
  | case4 position t ts hbegin hend top rest hclosing ih =>
    obtain ⟨⟨final, later⟩, hlater, heq⟩ := Option.map_eq_some_iff.mp h
    cases heq
    cases inside with
    | nil =>
      cases hstack
      exact ⟨[], t, ts, [], later, rfl, hclosing, rfl, hlater, rfl⟩
    | cons _ inside =>
      cases hstack
      obtain ⟨first, last, second, inner, outer, rfl, hlast, hinner, houter, rfl⟩ :=
        ih rfl hlater
      refine ⟨t :: first, last, second, (top.start, position) :: inner, outer, rfl, hlast,
        ?_, ?_, ?_⟩
      · simp only [walk, hbegin, hend, hclosing, if_true, hinner]
        rfl
      · rw [List.length_cons, ← Nat.add_assoc, Nat.add_right_comm position]
        exact houter
      · rw [List.length_cons, ← Nat.add_assoc, Nat.add_right_comm position]
        rfl
  | case5 position t ts hbegin hend top rest hclosing => cases h
  | case6 stack position t ts hbegin hend ih =>
    obtain ⟨first, last, second, inner, outer, rfl, hlast, hinner, houter, rfl⟩ := ih hstack h
    refine ⟨t :: first, last, second, inner, outer, rfl, hlast, ?_, ?_, ?_⟩
    · simp only [walk, hbegin, hend]
      exact hinner
    · rw [List.length_cons, ← Nat.add_assoc, Nat.add_right_comm position]
      exact houter
    · rw [List.length_cons, ← Nat.add_assoc, Nat.add_right_comm position]

/-- As long as the block in question is open, its count is how many blocks of its kind are on the
stack from it inwards. -/
theorem closing?_append_of_walk {opening closing : Signal}
    (hkind : k.endOf opening = some closing) {stack final : List OpenBlock} {position : Nat}
    {tokens : List Token} {pairs : List (Nat × Nat)}
    (h : k.walk stack position tokens = some (final, pairs)) {depth : Int} (hdepth : 0 < depth)
    (rest : List Token) :
    closing? opening closing (depth + stack.countP (·.closing == closing)) (tokens ++ rest) =
      (closing? opening closing (depth + final.countP (·.closing == closing)) rest).map
        (· + tokens.length) := by
  have hnext (n : Nat) (found : Option Nat) :
      (found.map (· + n)).map (· + 1) = found.map (· + (n + 1)) := by
    rw [Option.map_map]
    rfl
  have hother {t : Token} (hbegin : k.endOf t.signal = none) : t.is opening = false := by
    rw [Bool.eq_false_iff, Ne, Token.is_iff]
    rintro rfl
    rw [hkind] at hbegin
    cases hbegin
  fun_induction walk k stack position tokens generalizing pairs with
  | case1 stack position =>
    cases h
    exact Option.map_id'.symm
  | case2 stack position t ts ending hbegin ih =>
    rw [List.cons_append, List.length_cons, ← hnext, ← ih h, List.countP_cons]
    cases ht : t.is opening with
    | true =>
      rw [Token.is_iff.mp ht, hkind] at hbegin
      cases hbegin
      rw [closing?_cons_opening ht]
      simp [Int.add_assoc]
    | false =>
      have hclosing : t.is closing = false := by
        rw [Bool.eq_false_iff, Ne, Token.is_iff]
        intro hclosing
        rw [hclosing, k.endBeginsNothing hkind] at hbegin
        cases hbegin
      have hending : (ending == closing) = false := by
        rw [beq_eq_false_iff_ne]
        rintro rfl
        exact Bool.eq_false_iff.mp ht (Token.is_iff.mpr (k.ownEnd hbegin hkind))
      rw [closing?_cons_other ht hclosing]
      simp [hending]
  | case3 position t ts hbegin hend => cases h
  | case4 position t ts hbegin hend block outside hclosing ih =>
    obtain ⟨⟨final', later⟩, hlater, heq⟩ := Option.map_eq_some_iff.mp h
    cases heq
    rw [List.cons_append, List.length_cons, ← hnext, ← ih hlater, List.countP_cons]
    cases hown : block.closing == closing with
    | true =>
      rw [beq_iff_eq.mp hown] at hclosing
      rw [closing?_cons_closing (ne_of_endOf hkind) hclosing, if_pos rfl, if_neg (by omega)]
      congr 2
      omega
    | false =>
      have hnot : t.is closing = false := by
        rw [Bool.eq_false_iff, Ne, Token.is_iff]
        intro hnot
        rw [Token.is_iff, hnot] at hclosing
        rw [← hclosing, beq_self_eq_true] at hown
        cases hown
      rw [closing?_cons_other (hother hbegin) hnot]
      rfl
  | case5 position t ts hbegin hend block outside hclosing => cases h
  | case6 stack position t ts hbegin hend ih =>
    have hnot : t.is closing = false := by
      rw [Bool.eq_false_iff, Ne, Token.is_iff]
      intro hnot
      exact hend (hnot ▸ isEnd_of_endOf hkind)
    rw [List.cons_append, List.length_cons, ← hnext, ← ih h,
      closing?_cons_other (hother hbegin) hnot]

/-- The end marker of a block: the count finds it, its position is paired with the begin marker and
no other is, and what starts in between ends in between. -/
theorem exists_partner {position : Nat} {before after : List Token} {t : Token} {closing : Signal}
    {pairs : List (Nat × Nat)}
    (h : k.walk [] position (before ++ t :: after) = some ([], pairs))
    (hkind : k.endOf t.signal = some closing) :
    ∃ n, closing? t.signal closing 1 after = some n ∧
      (∃ last, after[n]? = some last ∧ last.is closing = true) ∧
      (∀ b, (position + before.length, b) ∈ pairs ↔ b = position + before.length + 1 + n) ∧
      ∀ a b, (a, b) ∈ pairs → position + before.length < a → a < position + before.length + 1 + n →
        b < position + before.length + 1 + n := by
  rw [walk_append] at h
  obtain ⟨⟨stack, early⟩, hearly, h⟩ := Option.bind_eq_some_iff.mp h
  obtain ⟨⟨final, late⟩, hlate, heq⟩ := Option.map_eq_some_iff.mp h
  cases heq
  simp only [walk, hkind] at hlate
  have hopen : k.walk ([] ++ ⟨position + before.length, closing⟩ :: stack)
      (position + before.length + 1) after = some ([], late) := hlate
  obtain ⟨first, last, second, inner, outer, rfl, hlast, hinner, houter, rfl⟩ := exists_split hopen
  have hcount := closing?_append_of_walk hkind hinner Int.zero_lt_one (last :: second)
  have hends : closing? t.signal closing 1 (last :: second) = some 0 := by
    rw [closing?_cons_closing (ne_of_endOf hkind) hlast]
    rfl
  obtain ⟨hstack, hbefore⟩ := bounds_of_walk_nil hearly
  have hwithin := (bounds_of_walk_nil hinner).2
  have hafter := (bounds_of_walk houter fun block hblock =>
    Nat.lt_of_lt_of_le (hstack block hblock) (by omega)).2
  -- A pair ends before the block, is inside of it, is its own, or begins outside of it.
  have hplace : ∀ a b,
      (a, b) ∈ early ++ (inner ++ (position + before.length,
        position + before.length + 1 + first.length) :: outer) →
      (a < b ∧ b < position + before.length) ∨
        (position + before.length < a ∧ b < position + before.length + 1 + first.length) ∨
        (a = position + before.length ∧ b = position + before.length + 1 + first.length) ∨
        a < position + before.length ∨ position + before.length + 1 + first.length < a := by
    intro a b hab
    simp only [List.mem_append, List.mem_cons, Prod.mk.injEq] at hab
    rcases hab with hab | hab | hab | hab
    · exact .inl (hbefore a b hab).2
    · exact .inr (.inl ⟨(hwithin a b hab).1, (hwithin a b hab).2.2⟩)
    · exact .inr (.inr (.inl hab))
    · rcases (hafter _ hab).begins with hbegin | ⟨block, hblock, hstart⟩
      · exact .inr (.inr (.inr (.inr hbegin)))
      · have hopen := hstack block hblock
        rw [hstart] at hopen
        exact .inr (.inr (.inr (.inl hopen)))
  refine ⟨first.length, ?_, ⟨last, by simp, hlast⟩,
    fun b => ⟨fun hb => ?_, ?_⟩, fun a b hab hlt hlt' => ?_⟩
  · simpa [hends] using hcount
  · have := hplace _ _ hb
    omega
  · rintro rfl
    simp
  · have := hplace _ _ hab
    omega

end BlockKinds

/-! ### The first position of balance -/

theorem find?_range_succ (p : Nat → Bool) (n : Nat) :
    (List.range (n + 1)).find? p =
      if p 0 = true then some 0 else ((List.range n).find? fun m => p (m + 1)).map (· + 1) := by
  rw [List.range_succ_eq_map, List.find?_cons, List.find?_map]
  cases p 0 <;> rfl

/-- What the count finds when a block is open: the first position up to which as many blocks of its
kind end as are open at first or begin. -/
theorem closing?_eq_find? {opening closing : Signal} (hne : opening ≠ closing) (depth : Nat)
    (tokens : List Token) :
    closing? opening closing (depth + 1 : Nat) tokens =
      (List.range tokens.length).find? fun n =>
        depth + 1 + (tokens.take (n + 1)).countP (·.is opening) ==
          (tokens.take (n + 1)).countP (·.is closing) := by
  induction tokens generalizing depth with
  | nil => rfl
  | cons t ts ih =>
    rw [List.length_cons, find?_range_succ]
    simp only [List.take_succ_cons, List.countP_cons, List.take_zero, List.countP_nil]
    cases hopening : t.is opening with
    | true =>
      have hclosing : t.is closing = false := by
        rw [Bool.eq_false_iff, Ne, Token.is_iff, Token.is_iff.mp hopening]
        exact hne
      rw [closing?_cons_opening hopening, ← Int.natCast_succ, ih (depth + 1), hclosing,
        if_neg (by simp)]
      congr 2
      funext n
      grind
    | false =>
      cases hclosing : t.is closing with
      | true =>
        rw [closing?_cons_closing hne hclosing]
        cases depth with
        | zero => rfl
        | succ depth =>
          have hinside : ((depth + 1 + 1 : Nat) : Int) - 1 = (depth + 1 : Nat) := by omega
          rw [hinside, if_neg (by omega), ih depth, if_neg (by simp)]
          congr 2
          funext n
          grind
      | false =>
        rw [closing?_cons_other hopening hclosing, ih depth, if_neg (by simp)]
        rfl

/-- Up to and including `j`, which comes after `i`, as many blocks end as begin from `i` on. -/
structure EvenUpTo (opening closing : Signal) (tokens : List Token) (i j : Nat) : Prop where
  lt : i < j
  inRange : j < tokens.length
  even : ((tokens.take (j + 1)).drop i).countP (·.is closing) =
    ((tokens.take (j + 1)).drop i).countP (·.is opening)

theorem evenUpTo_iff {opening closing : Signal} (hne : opening ≠ closing) {t : Token}
    (ht : t.is opening = true) (before after : List Token) (j : Nat) :
    EvenUpTo opening closing (before ++ t :: after) before.length j ↔
      ∃ n, j = before.length + 1 + n ∧ n < after.length ∧
        0 + 1 + (after.take (n + 1)).countP (·.is opening) =
          (after.take (n + 1)).countP (·.is closing) := by
  have hclosing : t.is closing = false := by
    rw [Bool.eq_false_iff, Ne, Token.is_iff, Token.is_iff.mp ht]
    exact hne
  have hpart (n : Nat) : ((before ++ t :: after).take (before.length + 1 + n + 1)).drop
      before.length = t :: after.take (n + 1) := by
    rw [Nat.add_assoc, Nat.add_assoc, List.take_length_add_append, List.drop_left,
      Nat.add_comm 1, List.take_succ_cons]
  constructor
  · rintro ⟨hlt, hrange, heven⟩
    obtain ⟨n, rfl⟩ := Nat.exists_eq_add_of_le (Nat.succ_le_of_lt hlt)
    rw [Nat.succ_eq_add_one, hpart, List.countP_cons, List.countP_cons, ht, hclosing] at heven
    rw [List.length_append, List.length_cons] at hrange
    exact ⟨n, rfl, by omega, by simpa [Nat.add_comm 1] using heven.symm⟩
  · rintro ⟨n, rfl, hrange, heven⟩
    refine ⟨by omega, ?_, ?_⟩
    · rw [List.length_append, List.length_cons]
      omega
    · rw [hpart, List.countP_cons, List.countP_cons, ht, hclosing]
      simpa [Nat.add_comm 1] using heven.symm

theorem exists_append_of_getElem? {tokens : List Token} {i : Nat} {t : Token}
    (h : tokens[i]? = some t) :
    ∃ before after, tokens = before ++ t :: after ∧ i = before.length := by
  obtain ⟨hi, rfl⟩ := List.getElem?_eq_some_iff.mp h
  refine ⟨tokens.take i, tokens.drop (i + 1), ?_, ?_⟩
  · rw [List.getElem_cons_drop, List.take_append_drop]
  · rw [List.length_take, Nat.min_eq_left (Nat.le_of_lt hi)]

theorem getElem?_append_after (before after : List Token) (t : Token) (n : Nat) :
    (before ++ t :: after)[before.length + 1 + n]? = after[n]? := by
  rw [Nat.add_assoc, List.getElem?_append_right (Nat.le_add_right _ _), Nat.add_sub_cancel_left,
    Nat.add_comm 1, List.getElem?_cons_succ]

/-- The end of a block is searched for after its begin marker. -/
theorem closingAt_append {opening closing : Signal} {t : Token} (ht : t.is opening = true)
    (before after : List Token) :
    closingAt opening closing (before ++ t :: after) before.length =
      .ok (((closing? opening closing 1 after).elim (before ++ t :: after).length
        fun n => before.length + 1 + n : Nat) : Int) := by
  rw [closingAt, window_natCast, List.drop_left]
  simp only [bind, Except.bind, closing?_cons_opening ht, Int.zero_add]
  cases closing? opening closing 1 after with
  | none => rfl
  | some n =>
    refine congrArg Except.ok ?_
    simp only [Option.elim_some]
    omega

/-- **The end of a block.** It is the first position after the begin marker up to which as many
blocks of this kind end as begin, or the end of the range if there is none. Where the blocks of all
kinds are properly nested, it is the end marker that belongs to the begin marker, and what begins in
between ends in between. -/
theorem closingAt_ends_block {tokens : List Token} {i : Nat} {t : Token} {closing : Signal}
    (ht : tokens[i]? = some t) (hkind : t.signal.blockEnd? = some closing) :
    ∃ j : Nat, closingAt t.signal closing tokens i = .ok (j : Int) ∧
      ((EvenUpTo t.signal closing tokens i j ∧
          ∀ earlier < j, ¬EvenUpTo t.signal closing tokens i earlier) ∨
        (j = tokens.length ∧ ∀ later, ¬EvenUpTo t.signal closing tokens i later)) ∧
      ∀ pairs, BlockKinds.all.walk [] 0 tokens = some ([], pairs) →
        (∃ last, tokens[j]? = some last ∧ last.signal = closing) ∧
          (∀ b, (i, b) ∈ pairs ↔ b = j) ∧
          ∀ a b, (a, b) ∈ pairs → i < a → a < j → b < j := by
  obtain ⟨before, after, rfl, rfl⟩ := exists_append_of_getElem? ht
  have hne : t.signal ≠ closing := BlockKinds.ne_of_endOf (k := .all) hkind
  have heven := evenUpTo_iff hne (Token.is_iff.mpr rfl) before after
  have hfind := closing?_eq_find? hne 0 after
  rw [closingAt_append (Token.is_iff.mpr rfl)]
  refine ⟨_, rfl, ?_, fun pairs hpairs => ?_⟩
  · cases hend : closing? t.signal closing 1 after with
    | none =>
      rw [Nat.zero_add, Int.natCast_one, hend] at hfind
      refine .inr ⟨rfl, fun later hlater => ?_⟩
      obtain ⟨n, -, hn, hcount⟩ := (heven later).mp hlater
      exact List.find?_eq_none.mp hfind.symm n (List.mem_range.mpr hn) (beq_iff_eq.mpr hcount)
    | some n =>
      rw [Nat.zero_add, Int.natCast_one, hend] at hfind
      obtain ⟨hcount, hn, hearlier⟩ := List.find?_range_eq_some.mp hfind.symm
      refine .inl ⟨(heven _).mpr ⟨n, rfl, List.mem_range.mp hn, beq_iff_eq.mp hcount⟩, ?_⟩
      intro earlier hlt hearlierEven
      obtain ⟨m, rfl, -, hm⟩ := (heven earlier).mp hearlierEven
      have hnot := hearlier m (by rw [Option.elim_some] at hlt; omega)
      rw [beq_iff_eq.mpr hm] at hnot
      cases hnot
  · obtain ⟨n, hn, ⟨last, hlast, hclosing⟩, hpartner, hinner⟩ :=
      BlockKinds.exists_partner hpairs hkind
    rw [Nat.zero_add] at hpartner hinner
    rw [hn]
    refine ⟨⟨last, ?_, Token.is_iff.mp hclosing⟩, hpartner, hinner⟩
    rw [Option.elim_some, getElem?_append_after]
    exact hlast

/-- A group in which a composite has a set and another composite in it, and another group
follows. -/
def stopsMarkers : List Token :=
  [⟨.beginField, "id", none⟩, ⟨.beginGroup, "stops", none⟩, ⟨.beginComposite, "fee", none⟩,
   ⟨.beginSet, "flags", none⟩, ⟨.choice, "net", none⟩, ⟨.endSet, "flags", none⟩,
   ⟨.beginComposite, "rate", none⟩, ⟨.encoding, "mantissa", none⟩, ⟨.endComposite, "rate", none⟩,
   ⟨.endComposite, "fee", none⟩, ⟨.beginGroup, "tolls", none⟩, ⟨.endGroup, "tolls", none⟩,
   ⟨.endGroup, "stops", none⟩, ⟨.endField, "id", none⟩]

theorem stopsMarkers_ends :
    BlockKinds.all.walk [] 0 stopsMarkers = some ([], [(3, 5), (6, 8), (2, 9), (10, 11), (1, 12)]) ∧
      closingAt .beginComposite .endComposite stopsMarkers 2 = .ok 9 ∧
      closingAt .beginGroup .endGroup stopsMarkers 1 = .ok 12 := by
  have hwalk : BlockKinds.all.walk [] 0 stopsMarkers =
      some ([], [(3, 5), (6, 8), (2, 9), (10, 11), (1, 12)]) := rfl
  have hfeeBegin : stopsMarkers[2]? = some ⟨.beginComposite, "fee", none⟩ := rfl
  have hstopsBegin : stopsMarkers[1]? = some ⟨.beginGroup, "stops", none⟩ := rfl
  obtain ⟨fee, hfee, -, hfeePairs⟩ := closingAt_ends_block hfeeBegin rfl
  obtain ⟨stops, hstops, -, hstopsPairs⟩ := closingAt_ends_block hstopsBegin rfl
  refine ⟨hwalk, ?_, ?_⟩
  · rw [← ((hfeePairs _ hwalk).2.1 9).mp (by simp)] at hfee
    exact hfee
  · rw [← ((hstopsPairs _ hwalk).2.1 12).mp (by simp)] at hstops
    exact hstops

/-- Without its end marker, a block goes on to the end of the range. -/
example : closingAt .beginGroup .endGroup (stopsMarkers.take 8) 1 = .ok 8 := rfl

end CodecMocks.Schema
