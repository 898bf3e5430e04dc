import CodecMocks.Proofs.GroupStream
import CodecMocks.Proofs.Headings
import CodecMocks.Proofs.Robustness

/-!
# Streams of groups that end early

A stream of groups may end before the groups in it are ended. What is written for it is what is
written when the end markers are there.

* `openings`: the groups that are begun in a stream, each with the groups that are open around it,
  found from the markers alone.
* `openings_of_spells`: in the stream of a forest they are the groups of the forest.
* `addGroupsAt_truncated`: end markers at the end of any stream change nothing of what is written,
  and a stream that is cut anywhere is read to its end, with one class for each group begun in it.
-/

namespace CodecMocks.Mock

open CodecMocks.Naming CodecMocks.Schema CodecMocks.Schema.GroupForest

/-- The groups that are begun in a stream, in order. `around` holds the names of the groups that are
open before it, the outermost first. -/
def openings (around : List CodeText) : List Token → List Opening
  | [] => []
  | t :: ts =>
    if t.is .beginGroup then ⟨around, t.name⟩ :: openings (around ++ [t.name]) ts
    else if t.is .endGroup then openings around.dropLast ts
    else openings around ts

theorem openings_beginGroup {t : Token} (h : t.is .beginGroup = true) (around : List CodeText)
    (ts : List Token) :
    openings around (t :: ts) = ⟨around, t.name⟩ :: openings (around ++ [t.name]) ts :=
  if_pos h

theorem openings_endGroup {t : Token} (h : t.is .endGroup = true) (around : List CodeText)
    (ts : List Token) : openings around (t :: ts) = openings around.dropLast ts := by
  rw [openings, Token.is_eq_false_of_is h (by decide), h]
  rfl

theorem openings_markerless_append {tokens : List Token} (h : Markerless tokens)
    (around : List CodeText) (rest : List Token) :
    openings around (tokens ++ rest) = openings around rest := by
  induction tokens with
  | nil => rfl
  | cons t ts ih =>
    obtain ⟨hbegin, hend⟩ := Token.isGroupMarker_eq_false (h t List.mem_cons_self)
    rw [List.cons_append, openings, hbegin, hend]
    exact ih fun t ht => h t (List.mem_cons_of_mem _ ht)

/-- In the stream of a forest the groups of the forest are begun, and no group is open after it. -/
theorem openings_of_spells {forest : GroupForest} {stream : List Token} (h : Spells forest stream)
    (around : List CodeText) (rest : List Token) :
    openings around (stream ++ rest) =
      (forestOpenings forest).map (·.within around) ++ openings around rest := by
  induction h generalizing around rest with
  | nil => rfl
  | @group marker closing fields inner data tail nested next hmarker hfields hnested hdata hplain
      hclosing hnext ihNested ihNext =>
    have hstream : marker :: fields ++ inner ++ data ++ closing :: tail ++ rest =
        marker :: (fields ++ (inner ++ (data ++ closing :: (tail ++ rest)))) := by
      simp
    rw [hstream, openings_beginGroup hmarker, openings_markerless_append hfields.markerless,
      ihNested, openings_markerless_append hplain, openings_endGroup hclosing,
      List.dropLast_concat, ihNext]
    simp only [forestOpenings, List.map_cons, List.map_append, List.map_map, Function.comp_def,
      Opening.within_within, List.cons_append, List.append_assoc]
    simp only [Opening.within, List.append_nil]

theorem openings_append_ends {ends : List Token} (h : AreEnds ends) (tokens : List Token)
    (around : List CodeText) : openings around (tokens ++ ends) = openings around tokens := by
  induction tokens generalizing around with
  | nil =>
    induction ends generalizing around with
    | nil => rfl
    | cons e es ih =>
      rw [List.nil_append, openings_endGroup (h e List.mem_cons_self)]
      exact ih (fun t ht => h t (List.mem_cons_of_mem _ ht)) _
  | cons t ts ih =>
    simp only [List.cons_append, openings, ih]

/-- Each begin marker of a group begins one. -/
theorem map_name_openings (around : List CodeText) (tokens : List Token) :
    (openings around tokens).map (·.name) = (tokens.filter (·.is .beginGroup)).map (·.name) := by
  induction tokens generalizing around with
  | nil => rfl
  | cons t ts ih =>
    rw [List.filter_cons, openings]
    cases hbegin : t.is .beginGroup with
    | true => exact congrArg (t.name :: ·) (ih _)
    | false =>
      cases hend : t.is .endGroup with
      | true => exact ih around.dropLast
      | false => exact ih around

/-! ### What is written for a stream -/

/-- Groups are written as lines of the current block; the blocks around it stay as they are. -/
theorem addForest_eq_write (o : Outline) (parent : CodeText) (forest : GroupForest) :
    o.addForest parent forest =
      o.write (Outline.continuation o.lines.isEmpty
        (forestBody parent o.current.reserved forest).members) := by
  rw [Outline.addForest_eq_addMembers, Outline.addMembers_eq_write]
  intro m hm
  exact (ClassBody.isMember_of_mem hm).ne_nil

/-- The groups from a position within a range on are read from the tokens from there on. -/
theorem addGroupsAt_of_le (o : Outline) (parent : CodeText) {tokens : List Token} {i : Nat}
    (h : i ≤ tokens.length) :
    o.addGroupsAt parent tokens i =
      .ok (o.addForest parent (read (tokens.drop i)).1,
        position tokens (read (tokens.drop i)).2) := by
  rcases Nat.lt_or_eq_of_le h with hlt | rfl
  · have hinside : ¬ (tokens.length : Int) ≤ i := by omega
    rw [Outline.addGroupsAt, if_neg hinside, window_of_nonneg (Int.natCast_nonneg i),
      Int.toNat_natCast]
    rfl
  · rw [Outline.addGroupsAt, if_pos (Int.le_refl _), List.drop_length, read_nil, position,
      List.length_nil]
    simp [Outline.addForest]

theorem addGroupsAt_zero (o : Outline) (parent : CodeText) (tokens : List Token) :
    o.addGroupsAt parent tokens 0 =
      .ok (o.addForest parent (read tokens).1, position tokens (read tokens).2) :=
  addGroupsAt_of_le o parent (Nat.zero_le tokens.length)

/-- A stream that is cut anywhere is read to its end, as a forest of the groups begun in it. -/
theorem read_of_prefix {forest : GroupForest} {stream cut : List Token} (h : Spells forest stream)
    (hcut : cut <+: stream) :
    ∃ shorter, read cut = (shorter, []) ∧ openings [] cut = forestOpenings shorter := by
  obtain ⟨shorter, ends, hends, hshorter⟩ := exists_spells_of_prefix h hcut
  have hread : read (cut ++ ends) = (shorter, []) := read_of_spells hshorter
  refine ⟨shorter, Prod.ext ?_ ?_, ?_⟩
  · rw [← read_append_ends cut hends, hread]
  · exact read_eq_nil_of_append_ends hends (by rw [hread])
  · have hopenings := openings_of_spells hshorter [] []
    rw [List.append_nil, openings_append_ends hends] at hopenings
    rw [hopenings]
    simp [Opening.within, openings]

/-- **A stream of groups may end early.** End markers at the end of any stream change nothing of
what is written. A stream of groups that is cut anywhere is read to its end, and the classes that
are written for it are those of the groups begun in it, in order, each inside of the classes of the
groups that are open around it. -/
theorem addGroupsAt_truncated (o : Outline) (parent : CodeText) :
    (∀ tokens ends, AreEnds ends →
      ∃ added i j, o.addGroupsAt parent tokens 0 = .ok (o.write added, i) ∧
        o.addGroupsAt parent (tokens ++ ends) 0 = .ok (o.write added, j)) ∧
    (∀ forest stream cut, Spells forest stream → cut <+: stream →
      ∃ added, o.addGroupsAt parent cut 0 = .ok (o.write added, cut.length) ∧
        added.filter isClassLine = (openings [] cut).map (·.heading parent) ∧
        (openings [] cut).map (·.name) = (cut.filter (·.is .beginGroup)).map (·.name)) := by
  constructor
  · intro tokens ends hends
    let body := forestBody parent o.current.reserved (read tokens).1
    refine ⟨Outline.continuation o.lines.isEmpty body.members, position tokens (read tokens).2,
      position (tokens ++ ends) (read (tokens ++ ends)).2, ?_, ?_⟩
    · rw [addGroupsAt_zero, addForest_eq_write]
    · rw [addGroupsAt_zero, addForest_eq_write, read_append_ends tokens hends]
  · intro forest stream cut hspells hcut
    obtain ⟨shorter, hread, hopenings⟩ := read_of_prefix hspells hcut
    let body := forestBody parent o.current.reserved shorter
    refine ⟨Outline.continuation o.lines.isEmpty body.members, ?_, ?_, map_name_openings [] cut⟩
    · rw [addGroupsAt_zero, addForest_eq_write, hread, position, List.length_nil]
      simp [body]
    · rw [headings_continuation, headings_forestBody, hopenings]

/-- A group with a field and a group in it, and a group after it. -/
def nestedGroups : List Token :=
  ⟨.beginGroup, "a", none⟩ :: [⟨.beginField, "x", none⟩] ++
    [⟨.beginGroup, "b", none⟩, ⟨.endGroup, "b", none⟩] ++ [] ++
    ⟨.endGroup, "a", none⟩ :: [⟨.beginGroup, "c", none⟩, ⟨.endGroup, "c", none⟩]

theorem spells_nestedGroups :
    Spells (.group ⟨.beginGroup, "a", none⟩ [⟨.beginField, "x", none⟩]
        (.group ⟨.beginGroup, "b", none⟩ [] .nil .nil)
        (.group ⟨.beginGroup, "c", none⟩ [] .nil .nil))
      nestedGroups :=
  .group rfl (by decide) (spells_markers "b") (by decide) (by decide) rfl (spells_markers "c")

theorem nestedGroups_truncated :
    (AreEnds [⟨.endGroup, "", none⟩] ∧ nestedGroups.take 3 <+: nestedGroups) ∧
      (∃ added i j,
        (Outline.root "").addGroupsAt "M" (nestedGroups.take 3) 0 =
          .ok ((Outline.root "").write added, i) ∧
        (Outline.root "").addGroupsAt "M" (nestedGroups.take 3 ++ [⟨.endGroup, "", none⟩]) 0 =
          .ok ((Outline.root "").write added, j)) ∧
      ∃ added, (Outline.root "").addGroupsAt "M" (nestedGroups.take 3) 0 =
          .ok ((Outline.root "").write added, 3) ∧
        added.filter isClassLine =
          (["class AMock(M.A):", "    class BMock(M.A.B):"] : List CodeText) := by
  have hends : AreEnds [⟨.endGroup, "", none⟩] := by decide
  have hcut : nestedGroups.take 3 <+: nestedGroups := List.take_prefix 3 nestedGroups
  obtain ⟨hcompleted, hprefix⟩ := addGroupsAt_truncated (Outline.root "") "M"
  obtain ⟨added, hadded, hclasses, -⟩ := hprefix _ _ _ spells_nestedGroups hcut
  refine ⟨⟨hends, hcut⟩, hcompleted _ _ hends, added, hadded, ?_⟩
  rw [hclasses]
  decide +kernel

end CodecMocks.Mock
