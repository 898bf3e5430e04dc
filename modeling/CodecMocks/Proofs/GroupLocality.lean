import CodecMocks.Proofs.Truncation

/-!
# Groups in the middle of a range

The groups of one level are read from a position of a range, and the range goes on behind them. What
is written for them, and how far reading gets, depends on the tokens of that level only.

* `read_rest`: reading ends at the end of the range or at the end marker of a group, whatever the
  tokens are.
* `addGroupsAt_local`: tokens before the position and behind that end marker change nothing, and
  only lines of the current block are added.
-/

namespace CodecMocks.Schema

open GroupForest

/-! ### Where reading ends -/

namespace GroupForest

theorem afterTrailer_suffix (tokens : List Token) : afterTrailer tokens <:+ tokens :=
  (List.drop_suffix 1 _).trans (List.dropWhile_suffix _)

/-- What is left of a range ends it, and starts with an end marker if there is anything left. -/
theorem read_rest (tokens : List Token) :
    (read tokens).2 <:+ tokens ∧ StartsEnd (read tokens).2 := by
  induction tokens using read_induction with
  | nil =>
    rw [read_nil]
    exact ⟨List.suffix_rfl, startsEnd_nil⟩
  | endGroup t ts hend =>
    rw [read_endGroup hend]
    refine ⟨List.suffix_rfl, ?_⟩
    rintro t ⟨⟩
    exact hend
  | other t ts hend hbegin ih =>
    rw [read_other hend hbegin]
    exact ⟨ih.1.trans (List.suffix_cons t ts), ih.2⟩
  | beginGroup t ts hbegin ihNested ihNext =>
    have hfields : (rootFields ts).2 <:+ ts := List.dropWhile_suffix _
    have hnested : (readNested (rootFields ts).2).2 <:+ (rootFields ts).2 := by
      unfold readNested
      split
      · exact ihNested.1
      · exact List.suffix_rfl
    have hafter : afterTrailer (readNested (rootFields ts).2).2 <:+ ts :=
      (afterTrailer_suffix _).trans (hnested.trans hfields)
    rw [read_beginGroup hbegin]
    exact ⟨(ihNext.1.trans hafter).trans (List.suffix_cons t ts), ihNext.2⟩

theorem readNested_suffix (rest : List Token) : (readNested rest).2 <:+ rest := by
  unfold readNested
  split
  · exact (read_rest rest).1
  · exact List.suffix_rfl

end GroupForest

end CodecMocks.Schema

namespace CodecMocks.Mock

open CodecMocks.Schema CodecMocks.Schema.GroupForest

@[simp] theorem position_append (taken rest : List Token) :
    position (taken ++ rest) rest = taken.length := by
  rw [position, List.length_append]
  omega

/-- A rest of a range is found at its position. -/
theorem exists_position_eq {tokens rest : List Token} {i : Nat} (hi : i ≤ tokens.length)
    (hrest : rest <:+ tokens.drop i) :
    ∃ j : Nat, position tokens rest = j ∧ i ≤ j ∧ tokens.drop j = rest := by
  obtain ⟨taken, htaken⟩ := hrest
  have hlength := congrArg List.length htaken
  rw [List.length_append, List.length_drop] at hlength
  refine ⟨i + taken.length, ?_, Nat.le_add_right i _, ?_⟩
  · rw [position]
    omega
  · rw [← List.drop_drop, ← htaken, List.drop_left]

/-- **Groups are read and written locally.** From any position on, reading ends at the end marker of
a group or at the end of the range, and what is written are lines of the current block. Of a stream
that holds groups, all is read, wherever in a range it stands, provided an end marker or nothing
follows; the lines that are written are the same as for the stream alone. -/
theorem addGroupsAt_local (o : Outline) (parent : CodeText) :
    (∀ tokens (i : Nat), ∃ added, ∃ j : Nat,
      o.addGroupsAt parent tokens i = .ok (o.write added, j) ∧ i ≤ j ∧
        ∀ hj : j < tokens.length, tokens[j].is .endGroup = true) ∧
    (∀ forest stream, Holds forest stream →
      ∃ added, o.addGroupsAt parent stream 0 = .ok (o.write added, stream.length) ∧
        ∀ before after, StartsEnd after →
          o.addGroupsAt parent (before ++ stream ++ after) before.length =
            .ok (o.write added, (before ++ stream).length)) := by
  constructor
  · intro tokens i
    rcases Nat.le_total tokens.length i with hbehind | hwithin
    · refine ⟨[], i, ?_, Nat.le_refl i, fun hj => absurd hj (Nat.not_lt.mpr hbehind)⟩
      rw [Outline.addGroupsAt, if_pos (Int.ofNat_le.mpr hbehind), Outline.write_nil]
    · obtain ⟨hsuffix, hstarts⟩ := read_rest (tokens.drop i)
      obtain ⟨j, hposition, hij, hdrop⟩ := exists_position_eq hwithin hsuffix
      rw [addGroupsAt_of_le o parent hwithin, hposition, addForest_eq_write]
      refine ⟨_, j, rfl, hij, fun hj => hstarts _ ?_⟩
      rw [← hdrop, List.head?_drop, List.getElem?_eq_getElem hj]
      rfl
  · intro forest stream hholds
    let body := forestBody parent o.current.reserved forest
    have hat (before after : List Token) (hafter : StartsEnd after) :
        o.addGroupsAt parent (before ++ stream ++ after) before.length =
          .ok (o.write (Outline.continuation o.lines.isEmpty body.members),
            (before ++ stream).length) := by
      have hbefore : before.length ≤ (before ++ (stream ++ after)).length := by
        simp only [List.length_append]
        omega
      have hread : read ((before ++ (stream ++ after)).drop before.length) = (forest, after) := by
        rw [List.drop_left, read_of_holds hholds hafter]
      rw [List.append_assoc, addGroupsAt_of_le o parent hbefore, hread, addForest_eq_write,
        ← List.append_assoc, position_append]
    refine ⟨_, ?_, hat⟩
    have halone := hat [] [] startsEnd_nil
    simpa using halone

/-- Groups with data before, between and after them, and in the first group one more group, with
data after it. -/
def scatteredGroups : List Token :=
  [⟨.beginVarData, "u", none⟩] ++ ⟨.beginGroup, "a", none⟩ :: ([⟨.beginField, "x", none⟩] ++
    (([] ++ ⟨.beginGroup, "b", none⟩ :: ([] ++ ([⟨.beginVarData, "v", none⟩] ++
      ⟨.endGroup, "b", none⟩ :: [⟨.beginVarData, "w", none⟩]))) ++
    ⟨.endGroup, "a", none⟩ :: ([⟨.endVarData, "u", none⟩] ++ ⟨.beginGroup, "c", none⟩ :: ([] ++
      ([] ++ ⟨.endGroup, "c", none⟩ :: [⟨.encoding, "y", none⟩])))))

theorem holds_scatteredGroups :
    Holds (.group ⟨.beginGroup, "a", none⟩ [⟨.beginField, "x", none⟩]
        (.group ⟨.beginGroup, "b", none⟩ [] .nil .nil)
        (.group ⟨.beginGroup, "c", none⟩ [] .nil .nil))
      scatteredGroups := by
  have hdata : StartsContent .nil [⟨.beginVarData, "v", none⟩] := by
    rintro t ⟨⟩
    rfl
  exact .group (by decide) rfl (by decide)
    (.group (by decide) rfl (by decide) (.nil (by decide)) hdata rfl (.nil (by decide))) rfl rfl
    (.group (by decide) rfl (by decide) (.nil (by decide)) startsData_nil rfl (.nil (by decide)))

theorem scatteredGroups_local :
    (∃ forest, Holds forest scatteredGroups) ∧
      StartsEnd [⟨.endGroup, "d", none⟩, ⟨.beginGroup, "e", none⟩] ∧
      ∃ added, (Outline.root "").addGroupsAt "M" scatteredGroups 0 =
          .ok ((Outline.root "").write added, 12) ∧
        (Outline.root "").addGroupsAt "M"
            ([⟨.beginGroup, "d", none⟩, ⟨.beginField, "z", none⟩] ++ scatteredGroups ++
              [⟨.endGroup, "d", none⟩, ⟨.beginGroup, "e", none⟩]) 2 =
          .ok ((Outline.root "").write added, 14) := by
  have hafter : StartsEnd [⟨.endGroup, "d", none⟩, ⟨.beginGroup, "e", none⟩] := by
    rintro t ⟨⟩
    rfl
  obtain ⟨added, halone, hwithin⟩ :=
    (addGroupsAt_local (Outline.root "") "M").2 _ _ holds_scatteredGroups
  exact ⟨⟨_, holds_scatteredGroups⟩, hafter, added, halone, hwithin _ _ hafter⟩

end CodecMocks.Mock
