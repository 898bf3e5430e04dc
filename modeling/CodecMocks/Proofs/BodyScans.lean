import CodecMocks.Proofs.BlockPairs
import CodecMocks.Proofs.GroupStream

/-!
# Scans of a body

A body is cut twice from the same position on: one scan ends where the root fields end, the other
where the variable-length data of the body starts. The first stops at any marker of a group or of
data, the second counts the markers of groups and passes over data while the count is not zero. The
count is a number with a sign, so end markers without a begin marker are counted too.

* `Cuts`, `EndsRootFields`, `EndsGroups`: what a scan answers, and where each of the two stops.
* `rootFieldsAt_cuts`, `groupsAt_cuts`: they do, in any range.
* `rootFields_prefix_groups`, `rootFields_eq_groups_iff`: the root fields are what the groups start
  with, and all of it if there is no marker of a group before the data.
* `dataAt_iff_dataOutside`: where groups are properly nested, the count is zero outside of groups.
* `bodyScans_consistent`: both scans together.
-/

namespace CodecMocks.Schema

/-- The tokens from the position `i` up to the position `j`, which is left out. -/
def between (tokens : List Token) (i j : Nat) : List Token :=
  (tokens.take j).drop i

/-- A scan from `i` on answers the tokens up to `stop`, and `stop`. -/
structure Cuts (tokens : List Token) (i : Nat) (scan : Except OutOfRange (List Token × Int))
    (stop : Nat) : Prop where
  answer : scan = .ok (between tokens i stop, (stop : Int))
  le : i ≤ stop
  inRange : stop ≤ tokens.length

/-- The root fields from `i` on end at `stop`. -/
structure EndsRootFields (tokens : List Token) (i stop : Nat) : Prop where
  passed : ∀ n t, i ≤ n → n < stop → tokens[n]? = some t → t.endsFields = false
  stops : stop = tokens.length ∨ ∃ t, tokens[stop]? = some t ∧ t.endsFields = true

/-- Variable-length data begins at `n`, and from `i` up to there as many groups end as begin. -/
structure DataAt (tokens : List Token) (i n : Nat) : Prop where
  le : i ≤ n
  data : ∃ t, tokens[n]? = some t ∧ t.is .beginVarData = true
  even : (between tokens i n).countP (·.is .beginGroup) =
    (between tokens i n).countP (·.is .endGroup)

/-- The first variable-length data before which as many groups end as begin is at `stop`, or the
range ends there. -/
structure EndsGroups (tokens : List Token) (i stop : Nat) : Prop where
  passed : ∀ n < stop, ¬DataAt tokens i n
  stops : stop = tokens.length ∨ DataAt tokens i stop

/-- Variable-length data begins at `n`, which is between the markers of no pair. -/
structure DataOutside (tokens : List Token) (pairs : List (Nat × Nat)) (i n : Nat) : Prop where
  le : i ≤ n
  data : ∃ t, tokens[n]? = some t ∧ t.is .beginVarData = true
  outside : ∀ a b, (a, b) ∈ pairs → a < n → ¬n < b

/-! ### Positions -/

theorem between_eq_take (tokens : List Token) (i m : Nat) :
    between tokens i (i + m) = (tokens.drop i).take m := by
  rw [between, List.drop_take, Nat.add_sub_cancel_left]

theorem between_of_append {tokens taken rest : List Token} {i : Nat}
    (h : taken ++ rest = tokens.drop i) : between tokens i (i + taken.length) = taken := by
  rw [between_eq_take, ← h, List.take_left]

/-- What is read from a position on is cut at the length of what is taken. -/
theorem cuts_of_append {tokens : List Token} {i : Nat} (hi : i ≤ tokens.length)
    {taken rest : List Token} (h : taken ++ rest = tokens.drop i) :
    Cuts tokens i (.ok (taken, position tokens rest)) (i + taken.length) := by
  have hlength := congrArg List.length h
  rw [List.length_append, List.length_drop] at hlength
  refine ⟨?_, Nat.le_add_right _ _, by omega⟩
  have hposition : position tokens rest = (i + taken.length : Nat) := by
    rw [position]
    omega
  rw [between_of_append h, hposition]

theorem getElem?_of_append {tokens taken rest : List Token} {i : Nat}
    (h : taken ++ rest = tokens.drop i) : tokens[i + taken.length]? = rest.head? := by
  rw [← List.getElem?_drop, ← h, List.getElem?_append_right (Nat.le_refl _), Nat.sub_self,
    List.head?_eq_getElem?]

/-! ### The root fields -/

theorem rootFieldsAt_cuts (tokens : List Token) {i : Nat} (hi : i ≤ tokens.length) :
    Cuts tokens i (rootFieldsAt tokens i) (i + (rootFields (tokens.drop i)).1.length) ∧
      EndsRootFields tokens i (i + (rootFields (tokens.drop i)).1.length) := by
  have happend := rootFields_append (tokens.drop i)
  have hcuts := cuts_of_append hi happend
  refine ⟨?_, ?_, ?_⟩
  · rw [rootFieldsAt, window_natCast]
    exact hcuts
  · intro n t hn hlt ht
    obtain ⟨m, rfl⟩ := Nat.exists_eq_add_of_le hn
    rw [← List.getElem?_drop, ← happend, List.getElem?_append_left (by omega)] at ht
    have hmem : t ∈ (tokens.drop i).takeWhile (!·.endsFields) := List.mem_of_getElem? ht
    have hfield := List.all_eq_true.mp List.all_takeWhile t hmem
    rwa [Bool.not_eq_true'] at hfield
  · have hstop := getElem?_of_append happend
    cases hrest : (rootFields (tokens.drop i)).2 with
    | nil =>
      rw [hrest, List.append_nil] at happend
      rw [happend, List.length_drop]
      exact .inl (by omega)
    | cons t rest =>
      rw [hrest] at hstop
      have hhead := List.head?_dropWhile_not (!·.endsFields) (tokens.drop i)
      have hdrop : (tokens.drop i).dropWhile (!·.endsFields) = t :: rest := hrest
      rw [hdrop] at hhead
      exact .inr ⟨t, hstop, by simpa using hhead⟩

/-! ### The groups -/

/-- The number of groups that begin less the number of groups that end. -/
def openGroups (tokens : List Token) : Int :=
  tokens.countP (·.is .beginGroup) - tokens.countP (·.is .endGroup)

@[simp] theorem openGroups_nil : openGroups [] = 0 := rfl

theorem openGroups_cons (t : Token) (ts : List Token) :
    openGroups (t :: ts) = t.groupStep + openGroups ts := by
  simp only [openGroups, List.countP_cons, Token.groupStep]
  cases hbegin : t.is .beginGroup with
  | true =>
    rw [Token.is_eq_false_of_is hbegin (by decide)]
    simp only [if_true, Bool.false_eq_true, if_false]
    omega
  | false =>
    cases t.is .endGroup <;> simp only [if_true, Bool.false_eq_true, if_false] <;> omega

section

variable {t : Token} {depth : Int}

theorem groupsFrom_cons_data (h : (t.is .beginVarData && depth == 0) = true) (ts : List Token) :
    groupsFrom depth (t :: ts) = ([], t :: ts) := by
  rw [groupsFrom, if_pos h]

theorem groupsFrom_cons_passed (h : (t.is .beginVarData && depth == 0) = false) (ts : List Token) :
    groupsFrom depth (t :: ts) =
      (t :: (groupsFrom (depth + t.groupStep) ts).1, (groupsFrom (depth + t.groupStep) ts).2) := by
  rw [groupsFrom, if_neg (Bool.eq_false_iff.mp h)]

end

/-- Before the groups end, no data begins where the count is zero; where they end, it does. -/
theorem groupsFrom_first (depth : Int) (tokens : List Token) :
    (∀ n t, n < (groupsFrom depth tokens).1.length → tokens[n]? = some t →
        t.is .beginVarData = true → depth + openGroups (tokens.take n) ≠ 0) ∧
      ∀ t ∈ (groupsFrom depth tokens).2.head?,
        t.is .beginVarData = true ∧ depth + openGroups (groupsFrom depth tokens).1 = 0 := by
  induction tokens generalizing depth with
  | nil =>
    refine ⟨fun n _ hn => absurd hn (Nat.not_lt_zero n), fun u hu => ?_⟩
    cases hu
  | cons t ts ih =>
    cases hstop : t.is .beginVarData && depth == 0 with
    | true =>
      obtain ⟨hdata, hzero⟩ := Bool.and_eq_true_iff.mp hstop
      rw [groupsFrom_cons_data hstop]
      refine ⟨fun n _ hn => absurd hn (Nat.not_lt_zero n), ?_⟩
      intro u hu
      obtain rfl : t = u := by simpa using hu
      exact ⟨hdata, by simpa using hzero⟩
    | false =>
      obtain ⟨hpassed, hstops⟩ := ih (depth + t.groupStep)
      rw [groupsFrom_cons_passed hstop]
      refine ⟨fun n u hn hu hdata => ?_, fun u hu => ?_⟩
      · cases n with
        | zero =>
          obtain rfl : t = u := by simpa using hu
          simpa [hdata] using hstop
        | succ n =>
          rw [List.take_succ_cons, openGroups_cons, ← Int.add_assoc]
          exact hpassed n u (Nat.lt_of_succ_lt_succ hn) hu hdata
      · rw [openGroups_cons, ← Int.add_assoc]
        exact hstops u hu

theorem dataAt_add_iff (tokens : List Token) (i m : Nat) :
    DataAt tokens i (i + m) ↔ (∃ t, tokens[i + m]? = some t ∧ t.is .beginVarData = true) ∧
      openGroups ((tokens.drop i).take m) = 0 := by
  have heven : openGroups ((tokens.drop i).take m) = 0 ↔
      (between tokens i (i + m)).countP (·.is .beginGroup) =
        (between tokens i (i + m)).countP (·.is .endGroup) := by
    rw [between_eq_take, openGroups]
    omega
  rw [heven]
  exact ⟨fun h => ⟨h.data, h.even⟩, fun h => ⟨Nat.le_add_right i m, h.1, h.2⟩⟩

theorem groupsAt_cuts (tokens : List Token) {i : Nat} (hi : i ≤ tokens.length) :
    Cuts tokens i (groupsAt tokens i) (i + (groups (tokens.drop i)).1.length) ∧
      EndsGroups tokens i (i + (groups (tokens.drop i)).1.length) := by
  have happend : (groups (tokens.drop i)).1 ++ (groups (tokens.drop i)).2 = tokens.drop i :=
    groupsFrom_append 0 (tokens.drop i)
  have hcuts := cuts_of_append hi happend
  obtain ⟨hpassed, hstops⟩ := groupsFrom_first 0 (tokens.drop i)
  refine ⟨?_, ?_, ?_⟩
  · rw [groupsAt, window_natCast]
    exact hcuts
  · intro n hlt hat
    obtain ⟨m, rfl⟩ := Nat.exists_eq_add_of_le hat.le
    obtain ⟨⟨t, ht, hdata⟩, hzero⟩ := (dataAt_add_iff tokens i m).mp hat
    rw [← List.getElem?_drop] at ht
    exact hpassed m t (Nat.lt_of_add_lt_add_left hlt) ht hdata (by rw [hzero]; rfl)
  · have hstop := getElem?_of_append happend
    cases hrest : (groups (tokens.drop i)).2 with
    | nil =>
      rw [hrest, List.append_nil] at happend
      rw [happend, List.length_drop]
      exact .inl (by omega)
    | cons t rest =>
      rw [hrest] at hstop
      obtain ⟨hdata, hzero⟩ := hstops t (by rw [← groups, hrest]; rfl)
      refine .inr ((dataAt_add_iff tokens i _).mpr ⟨⟨t, hstop, hdata⟩, ?_⟩)
      have htaken : (tokens.drop i).take (groups (tokens.drop i)).1.length =
          (groups (tokens.drop i)).1 :=
        (List.prefix_iff_eq_take.mp ⟨_, happend⟩).symm
      rw [htaken, groups]
      omega

/-! ### Both scans -/

theorem rootFields_cons_of_endsFields {t : Token} (h : t.endsFields = true) (ts : List Token) :
    (rootFields (t :: ts)).1 = [] := by
  simp [rootFields, h]

theorem rootFields_cons_field {t : Token} (h : t.endsFields = false) (ts : List Token) :
    (rootFields (t :: ts)).1 = t :: (rootFields ts).1 := by
  simp [rootFields, h]

theorem groups_cons_field {t : Token} (h : t.endsFields = false) (ts : List Token) :
    (groups (t :: ts)).1 = t :: (groups ts).1 := by
  obtain ⟨hmarker, hdata⟩ := Bool.or_eq_false_iff.mp h
  have hpassed : (t.is .beginVarData && (0 : Int) == 0) = false := by simp [hdata]
  rw [groups, groupsFrom_cons_passed hpassed, Token.groupStep_of_not_isGroupMarker hmarker]
  rfl

theorem rootFields_prefix_groups (tokens : List Token) :
    (rootFields tokens).1 <+: (groups tokens).1 := by
  induction tokens with
  | nil => exact List.prefix_refl _
  | cons t ts ih =>
    cases ht : t.endsFields with
    | true =>
      rw [rootFields_cons_of_endsFields ht]
      exact List.nil_prefix
    | false =>
      rw [rootFields_cons_field ht, groups_cons_field ht]
      exact List.cons_prefix_cons.mpr ⟨rfl, ih⟩

/-- The groups are no more than the root fields where no group is marked before the data. -/
theorem rootFields_eq_groups_iff (tokens : List Token) :
    (rootFields tokens).1 = (groups tokens).1 ↔
      Markerless (tokens.takeWhile (!·.is .beginVarData)) := by
  induction tokens with
  | nil => exact ⟨fun _ => markerless_nil, fun _ => rfl⟩
  | cons t ts ih =>
    cases ht : t.endsFields with
    | true =>
      rw [rootFields_cons_of_endsFields ht]
      cases hdata : t.is .beginVarData with
      | true =>
        rw [groups, groupsFrom_cons_data (by simp [hdata])]
        simp [hdata, markerless_nil]
      | false =>
        have hmarker : t.isGroupMarker = true := by
          rwa [Token.endsFields, hdata, Bool.or_false] at ht
        rw [groups, groupsFrom_cons_passed (by simp [hdata])]
        simp [hdata, Markerless, hmarker]
    | false =>
      obtain ⟨hmarker, hdata⟩ := Bool.or_eq_false_iff.mp ht
      have hmarkerless (rest : List Token) : Markerless (t :: rest) ↔ Markerless rest := by
        simp only [Markerless, List.forall_mem_cons]
        exact and_iff_right hmarker
      rw [rootFields_cons_field ht, groups_cons_field ht, List.cons_inj_right, ih,
        List.takeWhile_cons_of_pos (by simp [hdata]), hmarkerless]

/-! ### Groups that are properly nested -/

theorem BlockKinds.isEnd_groups (s : Signal) :
    BlockKinds.groups.isEnd s = (s == .endGroup) := by
  cases s <;> rfl

theorem BlockKinds.endOf_groups (s : Signal) :
    BlockKinds.groups.endOf s = if s = .beginGroup then some .endGroup else none := rfl

theorem Token.is_beginGroup_of_endOf {t : Token} {closing : Signal}
    (h : BlockKinds.groups.endOf t.signal = some closing) : t.is .beginGroup = true := by
  rw [BlockKinds.endOf_groups] at h
  by_cases hbegin : t.signal = .beginGroup
  · exact Token.is_iff.mpr hbegin
  · rw [if_neg hbegin] at h
    cases h

theorem Token.is_beginGroup_of_endOf_eq_none {t : Token}
    (h : BlockKinds.groups.endOf t.signal = none) : t.is .beginGroup = false := by
  rw [Bool.eq_false_iff, Ne, Token.is_iff]
  intro hbegin
  rw [hbegin] at h
  cases h

/-- The stack holds the groups that are open. -/
theorem length_of_walk {stack final : List OpenBlock} {start : Nat} {tokens : List Token}
    {pairs : List (Nat × Nat)}
    (h : BlockKinds.groups.walk stack start tokens = some (final, pairs)) :
    (final.length : Int) = stack.length + openGroups tokens := by
  fun_induction BlockKinds.walk BlockKinds.groups stack start tokens generalizing pairs with
  | case1 stack start =>
    cases h
    simp
  | case2 stack start t ts closing hbegin ih =>
    have hstep : t.groupStep = 1 := if_pos (Token.is_beginGroup_of_endOf hbegin)
    rw [openGroups_cons, ih h, hstep, List.length_cons]
    omega
  | case3 start t ts hbegin hend => cases h
  | case4 start t ts hbegin hend block outside hclosing ih =>
    obtain ⟨⟨final', later⟩, hlater, heq⟩ := Option.map_eq_some_iff.mp h
    cases heq
    have hstep : t.groupStep = -1 := by
      rw [BlockKinds.isEnd_groups] at hend
      rw [Token.groupStep, Token.is_beginGroup_of_endOf_eq_none hbegin]
      exact if_pos hend
    rw [openGroups_cons, ih hlater, hstep, List.length_cons]
    omega
  | case5 start t ts hbegin hend block outside hclosing => cases h
  | case6 stack start t ts hbegin hend ih =>
    have hstep : t.groupStep = 0 := by
      rw [BlockKinds.isEnd_groups] at hend
      rw [Token.groupStep, Token.is_beginGroup_of_endOf_eq_none hbegin]
      exact if_neg hend
    rw [openGroups_cons, ih h, hstep, Int.zero_add]

/-- Among properly nested groups, data before which as many groups end as begin is data outside of
all groups. -/
theorem dataAt_iff_dataOutside {tokens : List Token} {i : Nat} {pairs : List (Nat × Nat)}
    (h : BlockKinds.groups.walk [] i (tokens.drop i) = some ([], pairs)) (n : Nat) :
    DataAt tokens i n ↔ DataOutside tokens pairs i n := by
  suffices heven : ∀ m t, tokens[i + m]? = some t → t.is .beginVarData = true →
      (openGroups ((tokens.drop i).take m) = 0 ↔
        ∀ a b, (a, b) ∈ pairs → a < i + m → ¬i + m < b) by
    constructor
    · intro hat
      obtain ⟨m, rfl⟩ := Nat.exists_eq_add_of_le hat.le
      obtain ⟨⟨t, ht, hdata⟩, hzero⟩ := (dataAt_add_iff tokens i m).mp hat
      exact ⟨hat.le, ⟨t, ht, hdata⟩, (heven m t ht hdata).mp hzero⟩
    · rintro ⟨hle, ⟨t, ht, hdata⟩, houtside⟩
      obtain ⟨m, rfl⟩ := Nat.exists_eq_add_of_le hle
      exact (dataAt_add_iff tokens i m).mpr ⟨⟨t, ht, hdata⟩, (heven m t ht hdata).mpr houtside⟩
  intro m t ht hdata
  rw [← List.getElem?_drop] at ht
  obtain ⟨before, after, hsplit, rfl⟩ := exists_append_of_getElem? ht
  rw [hsplit, BlockKinds.walk_append] at h
  obtain ⟨⟨stack, early⟩, hearly, h⟩ := Option.bind_eq_some_iff.mp h
  obtain ⟨⟨final, late⟩, hlate, heq⟩ := Option.map_eq_some_iff.mp h
  cases heq
  -- The marker of data changes nothing of the stack.
  have hafter : BlockKinds.groups.walk stack (i + before.length + 1) after = some ([], late) := by
    have hbegin : BlockKinds.groups.endOf t.signal = none := by
      rw [Token.is_iff.mp hdata]
      rfl
    have hend : BlockKinds.groups.isEnd t.signal = false := by
      rw [Token.is_iff.mp hdata]
      rfl
    simpa only [BlockKinds.walk, hbegin, hend, Bool.false_eq_true, if_false] using hlate
  have hopen := length_of_walk hearly
  obtain ⟨hstack, hbefore⟩ := BlockKinds.bounds_of_walk_nil hearly
  rw [hsplit, List.take_left]
  cases stack with
  | nil =>
    rw [List.length_nil, Int.natCast_zero, Int.zero_add] at hopen
    have hlater := (BlockKinds.bounds_of_walk_nil hafter).2
    refine iff_of_true hopen.symm fun a b hab hlt hlt' => ?_
    rcases List.mem_append.mp hab with hab | hab
    · have := hbefore a b hab
      omega
    · have := hlater a b hab
      omega
  | cons block outside =>
    rw [List.length_cons, List.length_nil] at hopen
    have hinside : BlockKinds.groups.walk ([] ++ block :: outside) (i + before.length + 1) after =
        some ([], late) := hafter
    obtain ⟨first, last, second, inner, outer, -, -, -, -, rfl⟩ := BlockKinds.exists_split hinside
    refine iff_of_false (by omega) fun houtside => ?_
    exact houtside block.start (i + before.length + 1 + first.length) (by simp)
      (hstack block List.mem_cons_self) (by omega)

/-- A group that begins before the data of the body ends before it. -/
theorem group_ends_before {tokens : List Token} {i stop : Nat} {pairs : List (Nat × Nat)}
    (h : BlockKinds.groups.walk [] i (tokens.drop i) = some ([], pairs))
    (hends : EndsGroups tokens i stop) {a : Nat} {t : Token} (ha : i ≤ a)
    (ht : tokens[a]? = some t) (hbegin : t.is .beginGroup = true)
    (hbefore : ∀ n, DataOutside tokens pairs i n → a < n) :
    ∃ b, (∀ b', (a, b') ∈ pairs ↔ b' = b) ∧ a < b ∧ b < stop ∧
      ∃ last, tokens[b]? = some last ∧ last.is .endGroup = true := by
  obtain ⟨m, rfl⟩ := Nat.exists_eq_add_of_le ha
  rw [← List.getElem?_drop] at ht
  obtain ⟨before, after, hsplit, rfl⟩ := exists_append_of_getElem? ht
  have hkind : BlockKinds.groups.endOf t.signal = some .endGroup := by
    rw [Token.is_iff.mp hbegin]
    rfl
  have hwalk := h
  rw [hsplit] at hwalk
  obtain ⟨n, -, ⟨last, hlast, hclosing⟩, hpartner, -⟩ := BlockKinds.exists_partner hwalk hkind
  have hend : tokens[i + before.length + 1 + n]? = some last := by
    rw [Nat.add_assoc i, Nat.add_assoc i, ← List.getElem?_drop, hsplit, getElem?_append_after]
    exact hlast
  refine ⟨i + before.length + 1 + n, hpartner, by omega, ?_, last, hend, hclosing⟩
  rcases hends.stops with rfl | hat
  · exact (List.getElem?_eq_some_iff.mp hend).1
  · have houtside := (dataAt_iff_dataOutside h stop).mp hat
    have hlt := hbefore stop houtside
    have hnot := houtside.outside _ _ ((hpartner _).mpr rfl) hlt
    have hne : i + before.length + 1 + n ≠ stop := by
      rintro rfl
      obtain ⟨u, hu, hdata⟩ := hat.data
      rw [hend] at hu
      cases hu
      rw [Token.is_eq_false_of_is hclosing (by decide)] at hdata
      cases hdata
    omega

/-- **Both scans of a body.** Each answers the tokens up to where it stops. The root fields end at
the first marker of a group or of data, the groups at the first data before which as many groups end
as begin; the root fields are what the groups start with. Where groups are properly nested, the
groups that begin before the data of the body end before it. -/
theorem bodyScans_consistent {tokens : List Token} {i : Nat} (hi : i ≤ tokens.length) :
    ∃ fieldsEnd dataStart,
      (Cuts tokens i (rootFieldsAt tokens i) fieldsEnd ∧ EndsRootFields tokens i fieldsEnd) ∧
      (Cuts tokens i (groupsAt tokens i) dataStart ∧ EndsGroups tokens i dataStart) ∧
      between tokens i fieldsEnd <+: between tokens i dataStart ∧
      (between tokens i fieldsEnd = between tokens i dataStart ↔
        Markerless ((tokens.drop i).takeWhile (!·.is .beginVarData))) ∧
      ∀ pairs, BlockKinds.groups.walk [] i (tokens.drop i) = some ([], pairs) →
        ∀ a t, i ≤ a → tokens[a]? = some t → t.is .beginGroup = true →
          (∀ n, DataOutside tokens pairs i n → a < n) →
          ∃ b, (∀ b', (a, b') ∈ pairs ↔ b' = b) ∧ a < b ∧ b < dataStart ∧
            ∃ last, tokens[b]? = some last ∧ last.is .endGroup = true := by
  have hfields := rootFieldsAt_cuts tokens hi
  have hgroups := groupsAt_cuts tokens hi
  have hfieldsTaken := between_of_append (rootFields_append (tokens.drop i))
  have hgroupsTaken := between_of_append (groupsFrom_append 0 (tokens.drop i))
  refine ⟨_, _, hfields, hgroups, ?_, ?_, ?_⟩
  · rw [hfieldsTaken, groups, hgroupsTaken]
    exact rootFields_prefix_groups (tokens.drop i)
  · rw [hfieldsTaken, groups, hgroupsTaken]
    exact rootFields_eq_groups_iff (tokens.drop i)
  · intro pairs hpairs a t ha ht hbegin hbefore
    exact group_ends_before hpairs hgroups.2 ha ht hbegin hbefore

/-- A body from its second token on: a field, a group with data in it, and the data of the body. -/
def tollBody : List Token :=
  [⟨.beginMessage, "Toll", none⟩, ⟨.beginField, "id", none⟩, ⟨.endField, "id", none⟩,
   ⟨.beginGroup, "lanes", none⟩, ⟨.beginVarData, "label", none⟩, ⟨.endVarData, "label", none⟩,
   ⟨.endGroup, "lanes", none⟩, ⟨.beginVarData, "note", none⟩, ⟨.endVarData, "note", none⟩]

theorem tollBody_scans :
    rootFieldsAt tollBody 1 = .ok (between tollBody 1 3, 3) ∧
      groupsAt tollBody 1 = .ok (between tollBody 1 7, 7) ∧
      BlockKinds.groups.walk [] 1 (tollBody.drop 1) = some ([], [(3, 6)]) ∧
      ∃ b, (∀ b', (3, b') ∈ [(3, 6)] ↔ b' = b) ∧ b < 7 := by
  have hi : 1 ≤ tollBody.length := Nat.le_add_left 1 8
  have hwalk : BlockKinds.groups.walk [] 1 (tollBody.drop 1) = some ([], [(3, 6)]) := rfl
  obtain ⟨fieldsEnd, dataStart, ⟨hfields, -⟩, ⟨hgroups, -⟩, -, -, hnested⟩ :=
    bodyScans_consistent hi
  have hdataStart : dataStart = 7 := by
    have hanswer : groupsAt tollBody 1 = .ok (between tollBody 1 7, 7) := rfl
    have hboth := hgroups.answer.symm.trans hanswer
    simp only [Except.ok.injEq, Prod.mk.injEq] at hboth
    omega
  have hbefore : ∀ n, DataOutside tollBody [(3, 6)] 1 n → 3 < n := by
    rintro n ⟨hle, ⟨t, ht, hdata⟩, -⟩
    refine Nat.lt_of_not_le fun hn => ?_
    obtain rfl | rfl | rfl : n = 1 ∨ n = 2 ∨ n = 3 := by omega
    all_goals
      cases ht
      cases hdata
  obtain ⟨b, hpair, -, hlt, -⟩ := hnested _ hwalk 3 _ (by omega) rfl rfl hbefore
  exact ⟨rfl, rfl, hwalk, b, hpair, hdataStart ▸ hlt⟩

end CodecMocks.Schema
