import CodecMocks.Entries
import Mathlib.Data.List.Induction
import Mathlib.Data.List.Nodup

/-!
# Entries written one after the other

Pairs that are written one after the other are kept as in a dictionary: each key stands at the place
where it was written first, and what was written last is under it. Nothing is lost exactly if no key
is written twice.

* `mem_keys_iff`, `get?_of_mem`: keys, entries and the values under keys.
* `IsLastWins`, `isLastWins_ofList`: what is kept of pairs.
* `ofList_eq_iff`: when all pairs are kept.
* `ofList_map`: keys and values that are changed before or after.
-/

namespace CodecMocks.Entries

variable {κ α : Type} [DecidableEq κ]

/-! ### Keys -/

theorem mem_keys_put {key other : κ} {value : α} {entries : Entries κ α} :
    other ∈ (entries.put key value).keys ↔ other = key ∨ other ∈ entries.keys := by
  rw [keys_put]
  split
  · next h => exact ⟨.inr, fun hor => hor.elim (fun heq => heq ▸ h) id⟩
  · rw [List.mem_append, List.mem_singleton, or_comm]

theorem mem_keys_iff {key : κ} {entries : Entries κ α} :
    key ∈ entries.keys ↔ ∃ value, entries.get? key = some value := by
  induction entries with
  | nil => simp [keys, get?]
  | cons entry rest ih =>
    rw [get?]
    split
    · next hkey => exact iff_of_true (List.mem_cons.mpr (.inl hkey.symm)) ⟨_, rfl⟩
    · next hkey =>
      rw [← ih]
      exact List.mem_cons.trans (or_iff_right (Ne.symm hkey))

/-- The entries are those of a dictionary in which `pairs` were written one after the other: a key
is at the place where it was first written, under it is what was last written there. -/
structure IsLastWins (pairs : List (κ × α)) (entries : Entries κ α) : Prop where
  keys : entries.keys = (pairs.map (·.1)).eraseDups
  get? : ∀ key, entries.get? key = (pairs.filter (·.1 = key)).getLast?.map (·.2)

theorem isLastWins_nil : IsLastWins ([] : List (κ × α)) [] := by
  constructor
  · rfl
  · intro key
    rfl

theorem IsLastWins.put {pairs : List (κ × α)} {entries : Entries κ α}
    (h : IsLastWins pairs entries) (key : κ) (value : α) :
    IsLastWins (pairs ++ [(key, value)]) (entries.put key value) := by
  constructor
  · rw [keys_put, h.keys, List.map_append, List.eraseDups_append]
    by_cases hknown : key ∈ pairs.map (·.1)
    · rw [if_pos (List.mem_eraseDups.mpr hknown)]
      simp [List.removeAll, hknown]
    · rw [if_neg (mt List.mem_eraseDups.mp hknown)]
      simp [List.removeAll, hknown, List.eraseDups_cons]
  · intro other
    rw [List.filter_append]
    by_cases hkey : key = other
    · subst hkey
      simp
    · rw [get?_put_of_ne (Ne.symm hkey), h.get?]
      simp [hkey]

theorem isLastWins_ofList (pairs : List (κ × α)) : IsLastWins pairs (ofList pairs) := by
  induction pairs using List.reverseRecOn with
  | nil => exact isLastWins_nil
  | append_singleton pairs pair ih =>
    rw [ofList, List.foldl_append]
    exact ih.put pair.1 pair.2

/-! ### Keys that are written once -/

theorem put_of_not_mem {key : κ} {entries : Entries κ α} (h : key ∉ entries.keys) (value : α) :
    entries.put key value = entries ++ [(key, value)] := by
  induction entries with
  | nil => rfl
  | cons entry rest ih =>
    obtain ⟨hfirst, hrest⟩ := not_or.mp (mt List.mem_cons.mpr h)
    rw [put, if_neg (Ne.symm hfirst), ih hrest, List.cons_append]

theorem nodup_keys_put {entries : Entries κ α} (h : entries.keys.Nodup) (key : κ) (value : α) :
    (entries.put key value).keys.Nodup := by
  rw [keys_put]
  split
  · exact h
  · next hnew =>
    rw [← List.concat_eq_append]
    exact h.concat hnew

theorem nodup_keys_ofList (pairs : List (κ × α)) : (ofList pairs).keys.Nodup := by
  induction pairs using List.reverseRecOn with
  | nil => exact List.nodup_nil
  | append_singleton pairs pair ih =>
    rw [ofList, List.foldl_append]
    exact nodup_keys_put ih pair.1 pair.2

/-- All pairs are held exactly if no key was written twice. -/
theorem ofList_eq_iff {pairs : List (κ × α)} : ofList pairs = pairs ↔ (pairs.map (·.1)).Nodup := by
  constructor
  · intro h
    have hkeys := nodup_keys_ofList pairs
    rw [h] at hkeys
    exact hkeys
  · intro h
    induction pairs using List.reverseRecOn with
    | nil => rfl
    | append_singleton pairs pair ih =>
      rw [List.map_append, List.nodup_append] at h
      obtain ⟨hpairs, -, hfresh⟩ := h
      have hnew : pair.1 ∉ (ofList pairs).keys := by
        rw [ih hpairs]
        intro hmem
        exact hfresh pair.1 hmem pair.1 (List.mem_singleton_self _) rfl
      rw [ofList, List.foldl_append]
      show (ofList pairs).put pair.1 pair.2 = _
      rw [put_of_not_mem hnew, ih hpairs]

/-! ### Entries that are changed -/

/-- Values are written the same way whatever is done with each of them, as long as different keys
stay different. -/
theorem put_map {κ' β : Type} [DecidableEq κ'] {f : κ → κ'} (hf : Function.Injective f) (g : α → β)
    (key : κ) (value : α) (entries : Entries κ α) :
    put (f key) (g value) (entries.map fun entry => (f entry.1, g entry.2)) =
      (entries.put key value).map fun entry => (f entry.1, g entry.2) := by
  induction entries with
  | nil => rfl
  | cons entry rest ih =>
    simp only [List.map_cons, put, hf.eq_iff]
    split
    · rfl
    · rw [ih, List.map_cons]

theorem ofList_map {κ' β : Type} [DecidableEq κ'] {f : κ → κ'} (hf : Function.Injective f)
    (g : α → β) (pairs : List (κ × α)) :
    ofList (pairs.map fun pair => (f pair.1, g pair.2)) =
      (ofList pairs).map fun entry => (f entry.1, g entry.2) := by
  induction pairs using List.reverseRecOn with
  | nil => rfl
  | append_singleton pairs pair ih =>
    have hput := put_map hf g pair.1 pair.2 (ofList pairs)
    rw [← ih] at hput
    simpa [ofList, List.foldl_append] using hput

end CodecMocks.Entries
