import Mathlib.Data.List.Forall2
import Mathlib.Data.List.Infix

/-!
# Lists

A few facts about lists of any kind: lists that correspond item by item, parts of lists that are put
together, and lists with a separator between them.
-/

namespace CodecMocks

/-! ### Item by item -/

theorem map_eq_map_of_forall₂ {α β : Type} {R : α → α → Prop} {f : α → β} {l l' : List α}
    (h : List.Forall₂ R l l') (hf : ∀ a a', R a a' → f a' = f a) : l'.map f = l.map f := by
  induction h with
  | nil => rfl
  | cons hab _ ih => rw [List.map_cons, List.map_cons, hf _ _ hab, ih]

theorem exists_forall₂_iff {α β : Type} {R : α → β → Prop} {as : List α} :
    (∃ bs, List.Forall₂ R as bs) ↔ ∀ a ∈ as, ∃ b, R a b := by
  induction as with
  | nil => simp
  | cons a as ih =>
    simp only [List.forall₂_cons_left_iff, List.forall_mem_cons, ← ih]
    constructor
    · rintro ⟨_, b, bs, hb, hbs, rfl⟩
      exact ⟨⟨b, hb⟩, bs, hbs⟩
    · rintro ⟨⟨b, hb⟩, bs, hbs⟩
      exact ⟨_, b, bs, hb, hbs, rfl⟩

/-! ### Parts -/

theorem prefix_append_cases {α : Type} {cut a b : List α} (h : cut <+: a ++ b) :
    cut <+: a ∨ ∃ more, cut = a ++ more ∧ more <+: b := by
  obtain ⟨rest, hrest⟩ := h
  rcases List.append_eq_append_iff.mp hrest with ⟨c, hc, -⟩ | ⟨c, hc, hb⟩
  · exact .inl ⟨c, hc.symm⟩
  · exact .inr ⟨c, hc, ⟨rest, hb.symm⟩⟩

theorem getLast_ne_of_cons {α : Type} {c d : α} {cs : List α} (h : (c :: cs).getLast? ≠ some d) :
    cs.getLast? ≠ some d := by
  intro hlast
  rw [List.getLast?_cons, hlast] at h
  exact h rfl

/-! ### Separators -/

theorem mem_intercalate {α : Type} {sep : List α} {parts : List (List α)} {x : α}
    (h : x ∈ sep.intercalate parts) : x ∈ sep ∨ ∃ part ∈ parts, x ∈ part := by
  induction parts with
  | nil => cases h
  | cons part rest ih =>
    cases rest with
    | nil =>
      rw [List.intercalate_singleton] at h
      exact .inr ⟨part, List.mem_cons_self, h⟩
    | cons next rest =>
      rw [List.intercalate_cons_cons] at h
      rcases List.mem_append.mp h with h | h
      · rcases List.mem_append.mp h with h | h
        · exact .inr ⟨part, List.mem_cons_self, h⟩
        · exact .inl h
      · rcases ih h with hsep | ⟨other, hother, hx⟩
        · exact .inl hsep
        · exact .inr ⟨other, List.mem_cons_of_mem part hother, hx⟩

theorem intercalate_append {α : Type} (sep : List α) {parts others : List (List α)}
    (hparts : parts ≠ []) (hothers : others ≠ []) :
    sep.intercalate (parts ++ others) =
      sep.intercalate parts ++ sep ++ sep.intercalate others := by
  obtain ⟨first, others, rfl⟩ := List.exists_cons_of_ne_nil hothers
  induction parts with
  | nil => exact absurd rfl hparts
  | cons part rest ih =>
    cases rest with
    | nil => simp [List.intercalate_cons_cons]
    | cons next rest =>
      rw [List.cons_append, List.cons_append, List.intercalate_cons_cons, ← List.cons_append,
        ih (List.cons_ne_nil next rest), List.intercalate_cons_cons]
      simp only [List.append_assoc]

end CodecMocks
