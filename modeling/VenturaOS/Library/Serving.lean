import Mathlib.Data.Finset.Card
import Mathlib.Tactic

/-!
# A bounded supply, first come first served

Items are handed out on request until `capacity` of them are out. A request
for an item that is out already costs nothing, and nothing comes back.
-/
namespace VenturaOS.Library

variable {α : Type*} [DecidableEq α] {capacity : ℕ} {held : Finset α} {l l' : List α} {x : α}

/-- The items that are out after the requests of a list. -/
def serve (capacity : ℕ) : Finset α → List α → Finset α
  | held, [] => held
  | held, x :: l => serve capacity (if held.card < capacity then insert x held else held) l

theorem serve_append : serve capacity held (l ++ l') = serve capacity (serve capacity held l) l' := by
  induction l generalizing held with
  | nil => rfl
  | cons x l ih => exact ih

theorem subset_serve : held ⊆ serve capacity held l := by
  induction l generalizing held with
  | nil => exact Finset.Subset.refl held
  | cons x l ih =>
    rw [serve]
    split_ifs with hroom
    · exact (Finset.subset_insert x held).trans ih
    · exact ih

/-- Once the supply is used up, nothing changes any more. -/
theorem serve_full (h : capacity ≤ held.card) : serve capacity held l = held := by
  induction l with
  | nil => rfl
  | cons x l ih => rw [serve, if_neg (by omega), ih]

/-- An item that is out needs no supply. -/
theorem serve_held (h : x ∈ held) : serve capacity held (x :: l) = serve capacity held l := by
  rw [serve, Finset.insert_eq_of_mem h, ite_self]

theorem serve_cons (h : held.card < capacity) : serve capacity held (x :: l) = serve capacity (insert x held) l := by
  rw [serve, if_pos h]

/-- Requests that fit are all met. -/
theorem serve_eq_union (h : (held ∪ l.toFinset).card ≤ capacity) : serve capacity held l = held ∪ l.toFinset := by
  induction l generalizing held with
  | nil => simp [serve]
  | cons x l ih =>
    rw [List.toFinset_cons, Finset.union_insert, ← Finset.insert_union] at h ⊢
    by_cases hx : x ∈ held
    · rw [serve_held hx]
      rw [Finset.insert_eq_of_mem hx] at h ⊢
      exact ih h
    · have hone : held.card + 1 ≤ (insert x held ∪ l.toFinset).card := by
        rw [← Finset.card_insert_of_notMem hx]
        exact Finset.card_le_card Finset.subset_union_left
      rw [serve_cons (by omega)]
      exact ih h

/-- Either every request was met, or the supply is used up. -/
theorem serve_union_or_full (capacity : ℕ) (held : Finset α) (l : List α) :
    serve capacity held l = held ∪ l.toFinset ∨ capacity ≤ (serve capacity held l).card := by
  induction l generalizing held with
  | nil => exact .inl (by simp [serve])
  | cons x l ih =>
    by_cases hroom : held.card < capacity
    · rw [serve_cons hroom, List.toFinset_cons, Finset.union_insert, ← Finset.insert_union]
      exact ih (insert x held)
    · rw [serve_full (by omega)]
      exact .inr (by omega)

/-- An item is out when it was to begin with, or when few enough were asked for up to its first request. -/
theorem mem_serve_iff : x ∈ serve capacity held l ↔
    x ∈ held ∨ ∃ l₁ l₂, l = l₁ ++ x :: l₂ ∧ (held ∪ (l₁ ++ [x]).toFinset).card ≤ capacity := by
  constructor
  · intro hx
    induction l generalizing held with
    | nil => exact .inl hx
    | cons y l ih =>
      by_cases hroom : held.card < capacity
      · rw [serve_cons hroom] at hx
        cases ih hx with
        | inl hmem =>
          rw [Finset.mem_insert] at hmem
          apply hmem.elim
          · rintro rfl
            have hone := Finset.card_insert_le x held
            refine .inr ⟨[], l, rfl, ?_⟩
            rw [List.nil_append, List.toFinset_cons, List.toFinset_nil, Finset.union_insert, Finset.union_empty]
            omega
          · exact .inl
        | inr hlater =>
          obtain ⟨l₁, l₂, rfl, hcard⟩ := hlater
          refine .inr ⟨y :: l₁, l₂, rfl, ?_⟩
          rwa [List.cons_append, List.toFinset_cons, Finset.union_insert, ← Finset.insert_union]
      · rw [serve_full (by omega)] at hx
        exact .inl hx
  · intro hx
    cases hx with
    | inl hmem => exact subset_serve hmem
    | inr hfirst =>
      obtain ⟨l₁, l₂, rfl, hcard⟩ := hfirst
      rw [List.append_cons, serve_append]
      apply subset_serve
      rw [serve_eq_union hcard]
      simp

end VenturaOS.Library
