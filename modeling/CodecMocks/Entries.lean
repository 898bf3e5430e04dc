/-!
# Entries in order of first writing

A list of values under keys in which writing under a key that is already there replaces the value
and keeps the entry's place. Members of a JSON object, the texts of generated units and the items of
a file tree are kept so.
-/

namespace CodecMocks

/-- Values under keys, each key at the place where it was first written. -/
abbrev Entries (κ α : Type) := List (κ × α)

namespace Entries

variable {κ α : Type} [DecidableEq κ]

/-- Write a value under a key. -/
def put (key : κ) (value : α) : Entries κ α → Entries κ α
  | [] => [(key, value)]
  | entry :: rest =>
    if entry.1 = key then (key, value) :: rest else entry :: put key value rest

/-- The value under a key. -/
def get? (key : κ) : Entries κ α → Option α
  | [] => none
  | entry :: rest => if entry.1 = key then some entry.2 else get? key rest

/-- Take away what is under a key. -/
def erase (key : κ) (entries : Entries κ α) : Entries κ α :=
  entries.filter fun entry => entry.1 ≠ key

/-- The keys in order. -/
def keys (entries : Entries κ α) : List κ :=
  entries.map (·.1)

/-- All pairs written one after the other. -/
def ofList (pairs : List (κ × α)) : Entries κ α :=
  pairs.foldl (fun entries pair => entries.put pair.1 pair.2) []

@[simp] theorem get?_put_self (key : κ) (value : α) (entries : Entries κ α) :
    (entries.put key value).get? key = some value := by
  induction entries with
  | nil => simp [put, get?]
  | cons entry rest ih =>
    by_cases h : entry.1 = key
    · simp [put, get?, h]
    · simp [put, get?, h, ih]

theorem get?_put_of_ne {key other : κ} (h : other ≠ key) (value : α) (entries : Entries κ α) :
    (entries.put key value).get? other = entries.get? other := by
  induction entries with
  | nil => simp [put, get?, Ne.symm h]
  | cons entry rest ih =>
    by_cases he : entry.1 = key
    · simp [put, get?, he, Ne.symm h]
    · by_cases ho : entry.1 = other
      · simp [put, get?, ho, h]
      · simp [put, get?, he, ho, ih]

/-- A new key is added at the end, a known one keeps its place. -/
theorem keys_put (key : κ) (value : α) (entries : Entries κ α) :
    (entries.put key value).keys =
      if key ∈ entries.keys then entries.keys else entries.keys ++ [key] := by
  induction entries with
  | nil => simp [put, keys]
  | cons entry rest ih =>
    by_cases h : entry.1 = key
    · simp [put, keys, h]
    · have hmem : key ∈ keys (entry :: rest) ↔ key ∈ keys rest := by
        simp [keys, Ne.symm h]
      simp only [put, h, if_false, hmem]
      simp only [keys, List.map_cons] at ih ⊢
      rw [ih]
      by_cases hn : key ∈ rest.map (·.1) <;> simp [hn]

/-- Of two values written under one key the second stays. -/
@[simp] theorem put_put (key : κ) (first second : α) (entries : Entries κ α) :
    (entries.put key first).put key second = entries.put key second := by
  induction entries with
  | nil => simp [put]
  | cons entry rest ih =>
    by_cases h : entry.1 = key
    · simp [put, h]
    · simp [put, h, ih]

/-- What is kept has been written. -/
theorem mem_of_mem_put {key : κ} {value : α} {entries : Entries κ α} {entry : κ × α}
    (h : entry ∈ entries.put key value) : entry = (key, value) ∨ entry ∈ entries := by
  induction entries with
  | nil => exact .inl (List.mem_singleton.mp h)
  | cons first rest ih =>
    rw [put] at h
    split at h
    · rcases List.mem_cons.mp h with h | h
      · exact .inl h
      · exact .inr (List.mem_cons_of_mem first h)
    · rcases List.mem_cons.mp h with h | h
      · exact .inr (h ▸ List.mem_cons_self)
      · rcases ih h with h | h
        · exact .inl h
        · exact .inr (List.mem_cons_of_mem first h)

theorem mem_of_mem_ofList {pairs : List (κ × α)} {entry : κ × α} (h : entry ∈ ofList pairs) :
    entry ∈ pairs := by
  have hfold : ∀ (pairs : List (κ × α)) (entries : Entries κ α),
      entry ∈ pairs.foldl (fun entries pair => entries.put pair.1 pair.2) entries →
        entry ∈ entries ∨ entry ∈ pairs := by
    intro pairs
    induction pairs with
    | nil => exact fun entries h => .inl h
    | cons pair rest ih =>
      intro entries h
      rcases ih _ h with h | h
      · rcases mem_of_mem_put h with rfl | h
        · exact .inr List.mem_cons_self
        · exact .inl h
      · exact .inr (List.mem_cons_of_mem pair h)
  exact (hfold pairs [] h).resolve_left List.not_mem_nil

theorem mem_of_get?_eq_some {key : κ} {value : α} {entries : Entries κ α}
    (h : entries.get? key = some value) : (key, value) ∈ entries := by
  induction entries with
  | nil => cases h
  | cons entry rest ih =>
    rw [get?] at h
    split at h
    · next hkey =>
      cases h
      rw [← hkey]
      exact List.mem_cons_self
    · exact List.mem_cons_of_mem entry (ih h)

/-- A new entry that is taken away again leaves no trace. -/
theorem erase_put {key : κ} {entries : Entries κ α} (h : key ∉ entries.keys) (value : α) :
    (entries.put key value).erase key = entries := by
  induction entries with
  | nil => simp [put, erase]
  | cons entry rest ih =>
    simp only [keys, List.map_cons, List.mem_cons, not_or] at h
    have hrest := ih h.2
    rw [put, if_neg (Ne.symm h.1), erase, List.filter_cons_of_pos (by simp [Ne.symm h.1])]
    exact congrArg (entry :: ·) hrest

end Entries

end CodecMocks
