import CodecMocks.Files.Unit
import CodecMocks.Mock.Session
import CodecMocks.Proofs.Scripts

/-!
# Catalogs of any tokens

Nothing is required of the tokens of a catalog but that no range of types or messages is empty:
markers may be unmatched, misnested or missing, and values may have any name and encoding.

* `ScansWithin`, `scansWithin`: a scan that starts in a range ends in it, not before it started, and
  where it starts at a group it gets past it. Groups leave the same blocks open that were open.
* `ScopesBalance`, `scopesBalance`: every block that is opened is left again, one edit at a time.
* `generate_memory_total`: a session that keeps modules in memory makes all of them.
-/

namespace CodecMocks.Mock

open CodecMocks.Files CodecMocks.Naming CodecMocks.Schema

/-! ### Scans -/

/-- Every scan from the position `i` on ends at a position of the range that is not before `i`. -/
structure ScansWithin (tokens : List Token) (i : Int) : Prop where
  rootFields : ∃ fields j, rootFieldsAt tokens i = .ok (fields, j) ∧ i ≤ j ∧ j ≤ tokens.length
  groups : ∃ taken j, groupsAt tokens i = .ok (taken, j) ∧ i ≤ j ∧ j ≤ tokens.length
  closing : ∀ first last, ∃ j,
    closingAt first last tokens i = .ok j ∧ i ≤ j ∧ j ≤ tokens.length
  addGroups : ∀ (o : Outline) (parent : CodeText), ∃ o' j,
    o.addGroupsAt parent tokens i = .ok (o', j) ∧ i ≤ j ∧ j ≤ tokens.length ∧
      o'.enclosing = o.enclosing ∧
      ((tokens[i.toNat]?.any (·.is .beginGroup)) = true → i < j)

theorem position_within {tokens rest : List Token} {i : Int} (hi : 0 ≤ i)
    (hin : i ≤ tokens.length) (hrest : rest.length ≤ (tokens.drop i.toNat).length) :
    i ≤ position tokens rest ∧ position tokens rest ≤ tokens.length := by
  rw [List.length_drop] at hrest
  unfold position
  omega

theorem opens_drop {tokens : List Token} {n : Nat}
    (h : (tokens[n]?.any (·.is .beginGroup)) = true) :
    GroupForest.opens (tokens.drop n) = true := by
  cases ht : tokens[n]? with
  | none =>
    rw [ht] at h
    cases h
  | some t =>
    rw [ht] at h
    obtain ⟨hn, rfl⟩ := List.getElem?_eq_some_iff.mp ht
    rw [List.drop_eq_getElem_cons hn]
    exact h

theorem scansWithin (tokens : List Token) {i : Int} (hi : 0 ≤ i) (hin : i ≤ tokens.length) :
    ScansWithin tokens i where
  rootFields := by
    refine ⟨(rootFields (tokens.drop i.toNat)).1, _, ?_,
      position_within hi hin (length_rootFields_le (tokens.drop i.toNat))⟩
    rw [rootFieldsAt, window_of_nonneg hi]
    rfl
  groups := by
    refine ⟨(Schema.groups (tokens.drop i.toNat)).1, _, ?_,
      position_within hi hin (length_groups_le (tokens.drop i.toNat))⟩
    rw [groupsAt, window_of_nonneg hi]
    rfl
  closing := by
    intro first last
    cases hend : closing? first last 0 (tokens.drop i.toNat) with
    | none =>
      refine ⟨tokens.length, ?_, hin, Int.le_refl _⟩
      rw [closingAt, window_of_nonneg hi]
      simp only [bind, Except.bind, hend]
      rfl
    | some n =>
      have hlt := lt_length_of_closing? hend
      rw [List.length_drop] at hlt
      refine ⟨i + n, ?_, by omega, by omega⟩
      rw [closingAt, window_of_nonneg hi]
      simp only [bind, Except.bind, hend]
      rfl
  addGroups := by
    intro o parent
    by_cases hend : (tokens.length : Int) ≤ i
    · refine ⟨o, i, if_pos hend, Int.le_refl i, hin, rfl, ?_⟩
      intro hbegin
      rw [List.getElem?_eq_none (by omega)] at hbegin
      cases hbegin
    · let read := GroupForest.read (tokens.drop i.toNat)
      have hread : read.2.length ≤ (tokens.drop i.toNat).length := GroupForest.length_read_le _
      obtain ⟨hlow, hhigh⟩ := position_within hi hin hread
      refine ⟨o.addForest parent read.1, position tokens read.2, ?_, hlow, hhigh, ?_, ?_⟩
      · rw [Outline.addGroupsAt, if_neg hend, window_of_nonneg hi]
        rfl
      · rw [Outline.addForest_eq_addMembers, Outline.enclosing_addMembers]
      · intro hbegin
        have hlt : read.2.length < (tokens.drop i.toNat).length :=
            GroupForest.length_read_lt_of_opens (opens_drop hbegin)
        rw [List.length_drop] at hlt
        unfold position
        omega

/-! ### Blocks -/

/-- Each module of the catalog is written by edits that open and leave its blocks one at a time. -/
structure ScopesBalance (c : Catalog) : Prop where
  header : Writes c.package (headerScript c.header) (classModule c.package (headerClass c.header))
  types : ∀ tokens ∈ c.types, ∀ k ∈ typeClass? tokens,
    Writes c.package (typeScript tokens) (classModule c.package k)
  messages : ∀ tokens ∈ c.messages, ∀ k ∈ messageClass? tokens,
    Writes c.package (messageScript tokens) (classModule c.package k)

theorem scopesBalance (c : Catalog) : ScopesBalance c where
  header := writes_headerScript c.package c.header
  types _ _ _ hk := writes_typeScript c.package hk
  messages _ _ _ hk := writes_messageScript c.package hk

/-! ### Types of values -/

/-- The type hints of properties that hold primitive values. -/
def primitiveHints : List CodeText :=
  ["bytes", "int", "float", "list[int]", "list[float]"]

theorem hint_mem_primitiveHints {name : CodeText} {t : Token} {p : Property}
    (h : primitiveProperty? name t = some p) : p.hint ∈ primitiveHints := by
  have hscalar : ∀ primitive : Primitive, primitive.scalarHint ∈ primitiveHints := by
    intro primitive
    cases primitive <;> decide
  have harray : ∀ primitive : Primitive, primitive.arrayHint ∈ primitiveHints := by
    intro primitive
    cases primitive <;> decide
  unfold primitiveProperty? at h
  split at h
  · cases h
  · next e _ =>
    split at h
    · cases h
    · split at h
      · cases h
        exact hscalar e.primitive
      · split at h
        · cases h
          exact harray e.primitive
        · cases h

/-! ### Sessions -/

/-- A destination that keeps modules in memory. It refuses none. -/
def memoryDestination : Destination Shelf Empty where
  deliver _ shelf m := (shelf.add { name := m.name, pieces := [m.text] }, none)

/-- How far a session is after it has handed over modules to be kept in memory. -/
def Progress.afterAll (p : Progress Shelf) (modules : List MockModule) : Progress Shelf where
  state := modules.foldl (fun shelf m => Entries.put m.name m.text shelf) p.state
  written := p.written ++ modules.map (·.name)
  log := p.log ++ modules.map (generatedLine ·.name)

theorem hand_memory (p : Progress Shelf) (m : MockModule) :
    p.hand memoryDestination m = (p.afterAll [m], none) := by
  simp [Progress.hand, memoryDestination, Progress.afterAll, OutputUnit.text]

/-- When every module can be made, all of them are handed over. -/
theorem handAll_memory (p : Progress Shelf) (made : List (Option MockModule)) :
    p.handAll memoryDestination (made.map .ok) = (p.afterAll (made.filterMap id), none) := by
  induction made generalizing p with
  | nil => simp [Progress.handAll, Progress.afterAll]
  | cons m rest ih =>
    cases m with
    | none => exact ih p
    | some m =>
      simp only [List.map_cons, Progress.handAll, hand_memory, ih]
      simp [Progress.afterAll]

/-- Ranges that are not empty have all their modules made. -/
theorem modulesOf_all {c : Catalog} (htypes : ∀ tokens ∈ c.types, tokens ≠ [])
    (hmessages : ∀ tokens ∈ c.messages, tokens ≠ []) :
    ∃ made : List (Option MockModule), modulesOf c .all = made.map .ok ∧
      made.filterMap id = (classesOf c .all).map (classModule c.package) := by
  have htypeModules : typeModules c =
      (c.types.map fun tokens => (typeClass? tokens).map (classModule c.package)).map .ok := by
    rw [typeModules, List.map_map]
    exact List.map_congr_left fun tokens ht => typeModule?_eq (htypes tokens ht)
  have hmessageModules : messageModules c =
      (c.messages.map fun tokens =>
        (messageClass? tokens).map (classModule c.package)).map .ok := by
    rw [messageModules, List.map_map]
    refine List.map_congr_left fun tokens ht => ?_
    cases tokens with
    | nil => exact absurd rfl (hmessages [] ht)
    | cons t ts =>
      rw [messageModule_eq]
      rfl
  refine ⟨some (classModule c.package (headerClass c.header)) ::
      (c.types.map fun tokens => (typeClass? tokens).map (classModule c.package)) ++
      (c.messages.map fun tokens => (messageClass? tokens).map (classModule c.package)), ?_, ?_⟩
  · rw [modulesOf, headerModule_eq, htypeModules, hmessageModules]
    simp [Except.map]
  · simp [classesOf, List.filterMap_map, List.map_filterMap]

/-- **No tokens can break a session.** If no range of types or messages is empty, a session that
keeps modules in memory hands over the module of the header, of each type that has one and of each
message. On the way all scans stay in their ranges, all blocks are left that were opened, and all
primitive values have a type hint. -/
theorem generate_memory_total (c : Catalog) (htypes : ∀ tokens ∈ c.types, tokens ≠ [])
    (hmessages : ∀ tokens ∈ c.messages, tokens ≠ []) :
    let modules := (classesOf c .all).map (classModule c.package)
    ({ state := [] } : Progress Shelf).stage memoryDestination c .all =
        ({ state := Entries.ofList (modules.map fun m => (m.name, m.text))
           written := modules.map (·.name)
           log := modules.map (generatedLine ·.name) ++ [summaryLine modules.length c] }, none) ∧
      (∀ tokens i, 0 ≤ i → i ≤ (tokens.length : Int) → ScansWithin tokens i) ∧
      ScopesBalance c ∧
      (∀ name t p, primitiveProperty? name t = some p → p.hint ∈ primitiveHints) := by
  intro modules
  obtain ⟨made, hmade, hmodules⟩ := modulesOf_all htypes hmessages
  refine ⟨?_, fun tokens _ => scansWithin tokens, scopesBalance c,
    fun _ _ _ => hint_mem_primitiveHints⟩
  rw [Progress.stage, hmade, handAll_memory, hmodules]
  simp [Progress.afterAll, Entries.ofList, List.foldl_map, modules]

/-- A catalog in which no marker has the one that belongs to it. -/
def malformedCatalog : Catalog where
  package := "loose"
  header := [⟨.endSet, "x", none⟩, ⟨.encoding, "y", none⟩]
  types :=
    [[⟨.beginComposite, "pair", none⟩, ⟨.beginSet, "flags", none⟩,
      ⟨.encoding, "a", some { primitive := .uint8, arrayLength := -1 }⟩, ⟨.endGroup, "b", none⟩],
     [⟨.beginEnum, "side", none⟩]]
  messages :=
    [[⟨.endGroup, "order", none⟩],
     [⟨.beginMessage, "trade", none⟩, ⟨.endGroup, "legs", none⟩, ⟨.beginGroup, "fills", none⟩,
      ⟨.beginField, "price", none⟩, ⟨.beginGroup, "parts", none⟩, ⟨.beginVarData, "z", none⟩]]
  header_ne_nil := List.cons_ne_nil _ _

theorem malformedCatalog_generated :
    ((∀ tokens ∈ malformedCatalog.types, tokens ≠ []) ∧
        ∀ tokens ∈ malformedCatalog.messages, tokens ≠ []) ∧
      (({ state := [] } : Progress Shelf).stage memoryDestination malformedCatalog .all).2 = none ∧
      (({ state := [] } : Progress Shelf).stage memoryDestination malformedCatalog .all).1.written =
        (["MessageHeaderMock", "PairMock", "OrderMock", "TradeMock"] : List CodeText) := by
  have hgenerated := (generate_memory_total malformedCatalog (by decide) (by decide)).1
  refine ⟨⟨by decide, by decide⟩, congrArg Prod.snd hgenerated, ?_⟩
  rw [hgenerated]
  decide +kernel

end CodecMocks.Mock
