import CodecMocks.Lists
import CodecMocks.Schema.GroupForest

/-!
# Streams of groups

`Spells forest stream` states that a stream is that of a forest: each group is its begin marker,
its fields, the streams of the groups nested in it, variable-length data, and an end marker. The
data and what the end markers carry are left open, so a forest has many streams.

* `Holds forest stream` allows any tokens that mark no group before, between and after the groups.
* `read_of_holds`: such a stream is read as its forest, up to the end marker behind it.
* `read_of_spells`: so a stream is read back as the forest it spells.
* `groups_of_spells`: the groups of a message end where the variable-length data of the message
  starts; data inside of a group does not end them.
* `read_append_ends`: end markers at the end of any stream, well-formed or not, change nothing of
  what is read.
* `exists_spells_of_prefix`: a stream that is cut anywhere spells a forest as soon as the groups
  that were cut are ended.
-/

namespace CodecMocks.Schema

/-- The token begins or ends a group. -/
def Token.isGroupMarker (t : Token) : Bool :=
  t.is .beginGroup || t.is .endGroup

/-- No token begins or ends a group. -/
def Markerless (tokens : List Token) : Prop :=
  ∀ t ∈ tokens, t.isGroupMarker = false

/-- No token ends root fields. -/
def AreFields (tokens : List Token) : Prop :=
  ∀ t ∈ tokens, t.endsFields = false

/-- The tokens start with the marker of variable-length data if there are any. -/
def StartsData (tokens : List Token) : Prop :=
  ∀ t ∈ tokens.head?, t.is .beginVarData = true

/-- The tokens start with the end marker of a group if there are any. -/
def StartsEnd (tokens : List Token) : Prop :=
  ∀ t ∈ tokens.head?, t.is .endGroup = true

instance (tokens : List Token) : Decidable (Markerless tokens) :=
  inferInstanceAs (Decidable (∀ t ∈ tokens, t.isGroupMarker = false))

instance (tokens : List Token) : Decidable (AreFields tokens) :=
  inferInstanceAs (Decidable (∀ t ∈ tokens, t.endsFields = false))

instance (tokens : List Token) : Decidable (StartsData tokens) :=
  inferInstanceAs (Decidable (∀ t ∈ tokens.head?, t.is .beginVarData = true))

theorem markerless_nil : Markerless [] := fun _ ht => (List.not_mem_nil ht).elim

theorem startsData_nil : StartsData [] := by
  intro t ht
  cases ht

theorem startsEnd_nil : StartsEnd [] := by
  intro t ht
  cases ht

/-- `stream` is a stream of the groups of a forest. -/
inductive Spells : GroupForest → List Token → Prop where
  | nil : Spells .nil []
  | group {marker closing : Token} {fields inner data rest : List Token}
      {nested next : GroupForest} (hmarker : marker.is .beginGroup = true)
      (hfields : AreFields fields) (hnested : Spells nested inner) (hdata : StartsData data)
      (hplain : Markerless data) (hclosing : closing.is .endGroup = true)
      (hnext : Spells next rest) :
      Spells (.group marker fields nested next)
        (marker :: fields ++ inner ++ data ++ closing :: rest)

/-- What follows the fields of a group starts with the first group that is nested in it. If there is
none, it starts with variable-length data, or there is nothing. -/
def StartsContent : GroupForest → List Token → Prop
  | .nil, tokens => StartsData tokens
  | .group .., tokens => GroupForest.opens tokens = true

/-- `stream` holds the groups of a forest, at every level with any tokens that mark no group before,
between and after them. A group is its begin marker, its fields, what is nested in it, and an end
marker; variable-length data is among the tokens after the nested groups. -/
inductive Holds : GroupForest → List Token → Prop where
  | nil {filler : List Token} (hfiller : Markerless filler) : Holds .nil filler
  | group {marker closing : Token} {filler fields inner rest : List Token}
      {nested next : GroupForest} (hfiller : Markerless filler)
      (hmarker : marker.is .beginGroup = true) (hfields : AreFields fields)
      (hnested : Holds nested inner) (hcontent : StartsContent nested inner)
      (hclosing : closing.is .endGroup = true) (hnext : Holds next rest) :
      Holds (.group marker fields nested next)
        (filler ++ marker :: (fields ++ (inner ++ closing :: rest)))

/-- A group with nothing in it. -/
theorem spells_markers (name : CodeText) :
    Spells (.group ⟨.beginGroup, name, none⟩ [] .nil .nil)
      [⟨.beginGroup, name, none⟩, ⟨.endGroup, name, none⟩] := by
  show Spells _ (⟨.beginGroup, name, none⟩ :: [] ++ [] ++ [] ++ ⟨.endGroup, name, none⟩ :: [])
  exact .group rfl (by decide) .nil (by decide) (by decide) rfl .nil

/-! ### Tokens by their signal -/

theorem Token.is_eq_false_of_is {t : Token} {s s' : Signal} (h : t.is s = true) (hne : s ≠ s') :
    t.is s' = false := by
  rw [Token.is_iff] at h
  simp [Token.is, h, hne]

theorem Token.endsFields_of_beginGroup {t : Token} (h : t.is .beginGroup = true) :
    t.endsFields = true := by
  simp [Token.endsFields, h]

theorem Token.endsFields_of_endGroup {t : Token} (h : t.is .endGroup = true) :
    t.endsFields = true := by
  simp [Token.endsFields, h]

theorem Token.endsFields_of_beginVarData {t : Token} (h : t.is .beginVarData = true) :
    t.endsFields = true := by
  simp [Token.endsFields, h]

theorem Token.isGroupMarker_eq_false {t : Token} (h : t.isGroupMarker = false) :
    t.is .beginGroup = false ∧ t.is .endGroup = false := by
  simpa [Token.isGroupMarker] using h

theorem AreFields.markerless {fields : List Token} (h : AreFields fields) : Markerless fields := by
  intro t ht
  have hends := h t ht
  simp only [Token.endsFields, Bool.or_eq_false_iff] at hends
  simp [Token.isGroupMarker, hends.1]

/-! ### Root fields -/

theorem rootFields_append_of_areFields {fields rest : List Token} (hfields : AreFields fields)
    (hrest : ∀ t ∈ rest.head?, t.endsFields = true) :
    rootFields (fields ++ rest) = (fields, rest) := by
  have hall : ∀ t ∈ fields, (!t.endsFields) = true := fun t ht => by simp [hfields t ht]
  rw [rootFields, List.takeWhile_append_of_pos hall, List.dropWhile_append_of_pos hall]
  cases rest with
  | nil => simp
  | cons t ts => simp [hrest t rfl]

/-- An end marker after a stream is left over when its root fields are read. -/
theorem rootFields_append_end (tokens : List Token) {e : Token} (he : e.is .endGroup = true) :
    rootFields (tokens ++ [e]) = ((rootFields tokens).1, (rootFields tokens).2 ++ [e]) := by
  induction tokens with
  | nil => simp [rootFields, Token.endsFields_of_endGroup he]
  | cons t ts ih =>
    simp only [rootFields, Prod.mk.injEq] at ih ⊢
    cases ht : t.endsFields with
    | true => simp [ht]
    | false => simpa [ht] using ih

namespace GroupForest

/-! ### Reading a stream back -/

theorem read_markerless_append {tokens : List Token} (h : Markerless tokens) (rest : List Token) :
    read (tokens ++ rest) = read rest := by
  induction tokens with
  | nil => rfl
  | cons t ts ih =>
    obtain ⟨hbegin, hend⟩ := Token.isGroupMarker_eq_false (h t List.mem_cons_self)
    rw [List.cons_append, read_other hend hbegin]
    exact ih fun t ht => h t (List.mem_cons_of_mem _ ht)

theorem read_of_startsEnd {rest : List Token} (h : StartsEnd rest) : read rest = (.nil, rest) := by
  cases rest with
  | nil => exact read_nil
  | cons t ts => exact read_endGroup (h t rfl) ts

theorem afterTrailer_cons_end {e : Token} (he : e.is .endGroup = true) (rest : List Token) :
    afterTrailer (e :: rest) = rest := by
  simp [afterTrailer, he]

theorem afterTrailer_markerless_append {tokens : List Token} (h : Markerless tokens)
    (rest : List Token) : afterTrailer (tokens ++ rest) = afterTrailer rest := by
  have hall : ∀ t ∈ tokens, (!t.is .endGroup) = true := by
    intro t ht
    simp [(Token.isGroupMarker_eq_false (h t ht)).2]
  rw [afterTrailer, List.dropWhile_append_of_pos hall, afterTrailer]

theorem opens_eq_false {tokens : List Token}
    (h : ∀ t ∈ tokens.head?, t.is .beginGroup = false) : opens tokens = false := by
  cases tokens with
  | nil => rfl
  | cons t ts => exact h t rfl

theorem opens_append {tokens : List Token} (h : opens tokens = true) (rest : List Token) :
    opens (tokens ++ rest) = true := by
  cases tokens with
  | nil => cases h
  | cons t ts => exact h

end GroupForest

open GroupForest

/-- What follows the fields of a group ends them. -/
theorem StartsContent.endsFields {nested : GroupForest} {tokens : List Token}
    (h : StartsContent nested tokens) : ∀ t ∈ tokens.head?, t.endsFields = true := by
  intro t ht
  cases nested with
  | nil => exact Token.endsFields_of_beginVarData (h t ht)
  | group =>
    cases tokens with
    | nil => cases ht
    | cons t ts =>
      cases ht
      exact Token.endsFields_of_beginGroup h

/-- So does the end marker of the group, if there is nothing else. -/
theorem StartsContent.endsFields_append {nested : GroupForest} {inner rest : List Token}
    {closing : Token} (h : StartsContent nested inner) (hclosing : closing.is .endGroup = true) :
    ∀ t ∈ (inner ++ closing :: rest).head?, t.endsFields = true := by
  intro t ht
  cases inner with
  | nil =>
    cases ht
    exact Token.endsFields_of_endGroup hclosing
  | cons c cs => exact h.endsFields t ht

/-- **A stream that holds groups is read as their forest.** Then the range ends or an end marker
comes. -/
theorem read_of_holds {forest : GroupForest} {stream : List Token} (h : Holds forest stream)
    {rest : List Token} (hrest : StartsEnd rest) : read (stream ++ rest) = (forest, rest) := by
  induction h generalizing rest with
  | nil hfiller => rw [read_markerless_append hfiller, read_of_startsEnd hrest]
  | @group marker closing filler fields inner tail nested next hfiller hmarker hfields hnested
      hcontent hclosing _ ihNested ihNext =>
    let left := tail ++ rest
    have hends : StartsEnd (closing :: left) := by
      rintro t ⟨⟩
      exact hclosing
    -- With no group nested, all of the content is still there when the end marker is looked for.
    have hinner : (readNested (inner ++ closing :: left)).1 = nested ∧
        afterTrailer (readNested (inner ++ closing :: left)).2 = left := by
      cases hnested with
      | nil hplain =>
        have hclosed : opens (inner ++ closing :: left) = false := by
          apply opens_eq_false
          intro t ht
          cases inner with
          | nil =>
            cases ht
            exact Token.is_eq_false_of_is hclosing (by decide)
          | cons c cs =>
            cases ht
            exact Token.is_eq_false_of_is (hcontent t rfl) (by decide)
        rw [readNested, hclosed]
        refine ⟨rfl, ?_⟩
        exact (afterTrailer_markerless_append hplain _).trans (afterTrailer_cons_end hclosing left)
      | group =>
        rw [readNested, if_pos (opens_append hcontent _), ihNested hends]
        exact ⟨rfl, afterTrailer_cons_end hclosing left⟩
    have hstream : filler ++ marker :: (fields ++ (inner ++ closing :: tail)) ++ rest =
        filler ++ marker :: (fields ++ (inner ++ closing :: left)) := by
      simp [left]
    rw [hstream, read_markerless_append hfiller, read_beginGroup hmarker,
      rootFields_append_of_areFields hfields (hcontent.endsFields_append hclosing)]
    simp only [hinner.1, hinner.2, ihNext hrest, left]

theorem Spells.startsContent {forest : GroupForest} {stream data : List Token}
    (h : Spells forest stream) (hdata : StartsData data) :
    StartsContent forest (stream ++ data) := by
  cases h with
  | nil => exact hdata
  | group hmarker => exact hmarker

/-- A stream holds the groups it spells, also with other tokens after them. -/
theorem Spells.holds {forest : GroupForest} {stream filler : List Token} (h : Spells forest stream)
    (hfiller : Markerless filler) : Holds forest (stream ++ filler) := by
  induction h generalizing filler with
  | nil => exact .nil hfiller
  | @group marker closing fields inner data tail nested next hmarker hfields hnested hdata hplain
      hclosing _ ihNested ihNext =>
    have hstream : marker :: fields ++ inner ++ data ++ closing :: tail ++ filler =
        [] ++ marker :: (fields ++ ((inner ++ data) ++ closing :: (tail ++ filler))) := by
      simp
    rw [hstream]
    exact .group markerless_nil hmarker hfields (ihNested hplain) (hnested.startsContent hdata)
      hclosing (ihNext hfiller)

/-- **A stream is read back as the forest it spells.** -/
theorem read_of_spells {forest : GroupForest} {stream : List Token} (h : Spells forest stream) :
    read stream = (forest, []) := by
  have hread := read_of_holds (h.holds markerless_nil) startsEnd_nil
  rwa [List.append_nil, List.append_nil] at hread

/-! ### The groups of a message -/

/-- From `depth` open groups on, all of `taken` belongs to the groups of a range, and `depth'`
groups are open after it. -/
def Takes (depth : Int) (taken : List Token) (depth' : Int) : Prop :=
  ∀ rest, groupsFrom depth (taken ++ rest) =
    (taken ++ (groupsFrom depth' rest).1, (groupsFrom depth' rest).2)

theorem Takes.nil (depth : Int) : Takes depth [] depth := fun _ => rfl

theorem Takes.append {a b : List Token} {d d' d'' : Int} (ha : Takes d a d') (hb : Takes d' b d'') :
    Takes d (a ++ b) d'' := by
  intro rest
  rw [List.append_assoc, ha, hb, List.append_assoc]

theorem Takes.cons {t : Token} {ts : List Token} {d d' : Int}
    (ht : (t.is .beginVarData && d == 0) = false) (hts : Takes (d + t.groupStep) ts d') :
    Takes d (t :: ts) d' := by
  intro rest
  rw [List.cons_append, groupsFrom, ht, hts]
  rfl

theorem Token.groupStep_of_not_isGroupMarker {t : Token} (h : t.isGroupMarker = false) :
    t.groupStep = 0 := by
  obtain ⟨hbegin, hend⟩ := Token.isGroupMarker_eq_false h
  simp [Token.groupStep, hbegin, hend]

/-- Variable-length data is passed over inside of a group only. -/
theorem takes_markerless {tokens : List Token} {depth : Int} (h : Markerless tokens)
    (hdata : ∀ t ∈ tokens, (t.is .beginVarData && depth == 0) = false) :
    Takes depth tokens depth := by
  induction tokens with
  | nil => exact .nil depth
  | cons t ts ih =>
    have hstep := Token.groupStep_of_not_isGroupMarker (h t List.mem_cons_self)
    refine .cons (hdata t List.mem_cons_self) ?_
    rw [hstep, Int.add_zero]
    exact ih (fun t ht => h t (List.mem_cons_of_mem _ ht))
      fun t ht => hdata t (List.mem_cons_of_mem _ ht)

theorem takes_fields {fields : List Token} (h : AreFields fields) (depth : Int) :
    Takes depth fields depth := by
  refine takes_markerless h.markerless fun t ht => ?_
  have hends := h t ht
  simp only [Token.endsFields, Bool.or_eq_false_iff] at hends
  simp [hends.2]

/-- A stream of groups belongs to the groups of a range and leaves no group open. -/
theorem takes_of_spells {forest : GroupForest} {stream : List Token} (h : Spells forest stream)
    {depth : Int} (hdepth : 0 ≤ depth) : Takes depth stream depth := by
  induction h generalizing depth with
  | nil => exact .nil depth
  | @group marker closing fields inner data tail nested next hmarker hfields hnested hdata hplain
      hclosing hnext ihNested ihNext =>
    have hinside : (depth + 1 == 0) = false := beq_eq_false_iff_ne.mpr (by omega)
    have hopened : depth + marker.groupStep = depth + 1 := by
      simp [Token.groupStep, hmarker]
    have hclosed : depth + 1 + closing.groupStep = depth := by
      have hnot : closing.is .beginGroup = false :=
        Token.is_eq_false_of_is hclosing (by decide)
      have hstep : closing.groupStep = -1 := by
        simp [Token.groupStep, hclosing, hnot]
      rw [hstep]
      omega
    have htail : Takes (depth + 1) (closing :: tail) depth := by
      refine .cons (by simp [hinside]) ?_
      rw [hclosed]
      exact ihNext hdepth
    have hcontent : Takes (depth + 1) (fields ++ inner ++ data ++ closing :: tail) depth :=
      (((takes_fields hfields _).append (ihNested (by omega))).append
        (takes_markerless hplain fun t _ => by simp [hinside])).append htail
    have hbegin : (marker.is .beginVarData && depth == 0) = false := by
      rw [Token.is_eq_false_of_is hmarker (by decide)]
      rfl
    exact .cons hbegin (by rw [hopened]; exact hcontent)

/-- **The groups of a message end where its variable-length data starts.** Data inside of a group
does not end them. -/
theorem groups_of_spells {forest : GroupForest} {fields stream data : List Token}
    (hfields : AreFields fields) (h : Spells forest stream) (hdata : StartsData data) :
    groups (fields ++ stream ++ data) = (fields ++ stream, data) := by
  have hends : groupsFrom 0 data = ([], data) := by
    cases data with
    | nil => rfl
    | cons t ts => simp [groupsFrom, hdata t rfl]
  have htakes := (takes_fields hfields 0).append (takes_of_spells h (Int.le_refl 0)) data
  rw [groups, htakes, hends, List.append_nil]

/-! ### End markers at the end of a stream -/

/-- Every token is the end marker of a group. -/
def AreEnds (tokens : List Token) : Prop :=
  ∀ t ∈ tokens, t.is .endGroup = true

instance (tokens : List Token) : Decidable (AreEnds tokens) :=
  inferInstanceAs (Decidable (∀ t ∈ tokens, t.is .endGroup = true))

/-- What is left when the end marker `e` comes after a stream that leaves `rest`: the marker follows
`rest`, or it has been used up like everything else. -/
inductive LeftWith (e : Token) (rest : List Token) : List Token → Prop where
  | follows : LeftWith e rest (rest ++ [e])
  | usedUp (h : rest = []) : LeftWith e rest []

theorem LeftWith.afterTrailer {e : Token} (he : e.is .endGroup = true) {rest left : List Token}
    (h : LeftWith e rest left) : LeftWith e (afterTrailer rest) (afterTrailer left) := by
  cases h with
  | usedUp h =>
    subst h
    exact .usedUp rfl
  | follows =>
    induction rest with
    | nil =>
      rw [List.nil_append, afterTrailer_cons_end he]
      exact .usedUp rfl
    | cons t ts ih =>
      cases ht : t.is .endGroup with
      | true =>
        rw [List.cons_append, afterTrailer_cons_end ht, afterTrailer_cons_end ht]
        exact .follows
      | false => simpa [GroupForest.afterTrailer, ht] using ih

theorem opens_append_end (tokens : List Token) {e : Token} (he : e.is .endGroup = true) :
    opens (tokens ++ [e]) = opens tokens := by
  cases tokens with
  | nil => exact Token.is_eq_false_of_is he (by decide)
  | cons t ts => rfl

/-- An end marker after a stream changes nothing of the forest that is read. -/
theorem read_append_end (tokens : List Token) {e : Token} (he : e.is .endGroup = true) :
    (read (tokens ++ [e])).1 = (read tokens).1 ∧
      LeftWith e (read tokens).2 (read (tokens ++ [e])).2 := by
  induction tokens using read_induction with
  | nil =>
    rw [List.nil_append, read_endGroup he, read_nil]
    exact ⟨rfl, .follows⟩
  | endGroup t ts hend =>
    rw [List.cons_append, read_endGroup hend, read_endGroup hend]
    exact ⟨rfl, .follows⟩
  | other t ts hend hbegin ih =>
    rw [List.cons_append, read_other hend hbegin, read_other hend hbegin]
    exact ih
  | beginGroup t ts hbegin ihNested ihNext =>
    have hnested : (readNested ((rootFields ts).2 ++ [e])).1 =
          (readNested (rootFields ts).2).1 ∧
        LeftWith e (readNested (rootFields ts).2).2
          (readNested ((rootFields ts).2 ++ [e])).2 := by
      unfold readNested
      rw [opens_append_end _ he]
      split
      · exact ihNested
      · exact ⟨rfl, .follows⟩
    have hnext : (read (afterTrailer (readNested ((rootFields ts).2 ++ [e])).2)).1 =
          (read (afterTrailer (readNested (rootFields ts).2).2)).1 ∧
        LeftWith e (read (afterTrailer (readNested (rootFields ts).2).2)).2
          (read (afterTrailer (readNested ((rootFields ts).2 ++ [e])).2)).2 := by
      have hleft := hnested.2.afterTrailer he
      generalize afterTrailer (readNested ((rootFields ts).2 ++ [e])).2 = left at hleft ⊢
      cases hleft with
      | follows => exact ihNext
      | usedUp h =>
        rw [h, read_nil]
        exact ⟨rfl, .usedUp rfl⟩
    rw [List.cons_append, read_beginGroup hbegin, read_beginGroup hbegin,
      rootFields_append_end ts he]
    simp only [hnested.1, hnext.1]
    exact ⟨trivial, hnext.2⟩

/-- **End markers at the end of a stream change nothing of what is read**, whether the stream is
well-formed or not. -/
theorem read_append_ends (tokens : List Token) {ends : List Token} (h : AreEnds ends) :
    (read (tokens ++ ends)).1 = (read tokens).1 := by
  induction ends generalizing tokens with
  | nil => rw [List.append_nil]
  | cons e es ih =>
    have he : e.is .endGroup = true := h e List.mem_cons_self
    rw [List.append_cons, ih (tokens ++ [e]) fun t ht => h t (List.mem_cons_of_mem _ ht)]
    exact (read_append_end tokens he).1

/-- If nothing is left with end markers after a stream, nothing is left without them. -/
theorem read_eq_nil_of_append_ends {tokens ends : List Token} (h : AreEnds ends)
    (hnil : (read (tokens ++ ends)).2 = []) : (read tokens).2 = [] := by
  induction ends generalizing tokens with
  | nil => rwa [List.append_nil] at hnil
  | cons e es ih =>
    have he : e.is .endGroup = true := h e List.mem_cons_self
    rw [List.append_cons] at hnil
    have hone := ih (fun t ht => h t (List.mem_cons_of_mem _ ht)) hnil
    have hleft := (read_append_end tokens he).2
    rw [hone] at hleft
    generalize (read tokens).2 = rest at hleft
    cases rest with
    | nil => rfl
    | cons t ts => cases hleft with | usedUp h => exact h

/-! ### Streams that are cut -/

theorem AreFields.of_prefix {fields cut : List Token} (h : AreFields fields)
    (hcut : cut <+: fields) : AreFields cut :=
  fun t ht => h t (hcut.subset ht)

theorem Markerless.of_prefix {tokens cut : List Token} (h : Markerless tokens)
    (hcut : cut <+: tokens) : Markerless cut :=
  fun t ht => h t (hcut.subset ht)

theorem StartsData.of_prefix {data cut : List Token} (h : StartsData data) (hcut : cut <+: data) :
    StartsData cut := by
  obtain ⟨rest, rfl⟩ := hcut
  cases cut with
  | nil => exact startsData_nil
  | cons t ts => exact h

theorem AreEnds.concat {ends : List Token} (h : AreEnds ends) {e : Token}
    (he : e.is .endGroup = true) : AreEnds (ends ++ [e]) := by
  intro t ht
  rcases List.mem_append.mp ht with ht | ht
  · exact h t ht
  · rwa [List.mem_singleton.mp ht]

/-- **A stream that is cut anywhere spells a forest as soon as the groups that were cut are
ended.** -/
theorem exists_spells_of_prefix {forest : GroupForest} {stream cut : List Token}
    (h : Spells forest stream) (hcut : cut <+: stream) :
    ∃ shorter ends, AreEnds ends ∧ Spells shorter (cut ++ ends) := by
  induction h generalizing cut with
  | nil =>
    rw [List.prefix_nil.mp hcut]
    exact ⟨.nil, [], fun _ ht => (List.not_mem_nil ht).elim, .nil⟩
  | @group marker closing fields inner data tail nested next hmarker hfields hnested hdata hplain
      hclosing hnext ihNested ihNext =>
    have hends : AreEnds [closing] := fun t ht => by rwa [List.mem_singleton.mp ht]
    cases cut with
    | nil => exact ⟨.nil, [], fun _ ht => (List.not_mem_nil ht).elim, .nil⟩
    | cons m cut =>
      have hstream : marker :: fields ++ inner ++ data ++ closing :: tail =
          marker :: (fields ++ (inner ++ (data ++ closing :: tail))) := by
        simp
      rw [hstream, List.cons_prefix_cons] at hcut
      obtain ⟨rfl, hcut⟩ := hcut
      rcases prefix_append_cases hcut with hcutFields | ⟨cut, rfl, hcutInner⟩
      -- The cut is among the fields.
      · refine ⟨.group m cut .nil .nil, [closing], hends, ?_⟩
        simpa using Spells.group hmarker (hfields.of_prefix hcutFields) .nil startsData_nil
          markerless_nil hclosing .nil
      rcases prefix_append_cases hcutInner with hcutNested | ⟨cut, rfl, hcutData⟩
      -- The cut is among the nested groups.
      · obtain ⟨shorter, ends, hshorter, hspells⟩ := ihNested hcutNested
        refine ⟨.group m fields shorter .nil, ends ++ [closing], hshorter.concat hclosing, ?_⟩
        simpa using Spells.group hmarker hfields hspells startsData_nil markerless_nil hclosing .nil
      rcases prefix_append_cases hcutData with hcutData | ⟨cut, rfl, hcutEnd⟩
      -- The cut is in the data.
      · refine ⟨.group m fields nested .nil, [closing], hends, ?_⟩
        simpa using Spells.group hmarker hfields hnested (hdata.of_prefix hcutData)
          (hplain.of_prefix hcutData) hclosing .nil
      cases cut with
      | nil =>
        refine ⟨.group m fields nested .nil, [closing], hends, ?_⟩
        simpa using Spells.group hmarker hfields hnested hdata hplain hclosing .nil
      -- The group is complete, and the cut is after it.
      | cons c cut =>
        obtain ⟨rfl, hcutTail⟩ := List.cons_prefix_cons.mp hcutEnd
        obtain ⟨shorter, ends, hshorter, hspells⟩ := ihNext hcutTail
        refine ⟨.group m fields nested shorter, ends, hshorter, ?_⟩
        simpa using Spells.group hmarker hfields hnested hdata hplain hclosing hspells

end CodecMocks.Schema
