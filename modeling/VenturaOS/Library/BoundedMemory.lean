import Mathlib.Data.Set.Insert
import Mathlib.Logic.Function.Basic

/-!
# Memory with a limit

Cells `0 .. limit` that can be written one at a time or copied as a block;
an access beyond the limit fails. A loop of writes in which the value of a
cell depends on the cell alone comes to one overwrite of a set of cells.
-/
namespace VenturaOS.Library.BoundedMemory

variable {α : Type*} {ι : Type*}

def write (limit i : ℕ) (x : α) (m : ℕ → α) : Option (ℕ → α) :=
  if i < limit then some (Function.update m i x) else none

/-- Move `n` cells from `src` to `dst`; the ranges may overlap. -/
def copy (limit src dst n : ℕ) (m : ℕ → α) : Option (ℕ → α) :=
  if src + n ≤ limit ∧ dst + n ≤ limit then
    some fun i => if dst ≤ i ∧ i < dst + n then m (i - dst + src) else m i
  else none

/-- The action always succeeds, and overwrites exactly the cells of `s`, with those of `v`. -/
def Paints (s : Set ℕ) (v : ℕ → α) (f : (ℕ → α) → Option (ℕ → α)) : Prop :=
  ∀ m, ∃ m', f m = some m' ∧ (∀ i ∈ s, m' i = v i) ∧ ∀ i ∉ s, m' i = m i

variable {s t : Set ℕ} {v : ℕ → α} {f : (ℕ → α) → Option (ℕ → α)}

theorem paints_write {limit i : ℕ} (hi : i < limit) : Paints {i} v (write limit i (v i)) := by
  intro m
  refine ⟨Function.update m i (v i), by rw [write, if_pos hi], fun j hj => ?_, fun j hj => ?_⟩
  · rw [Set.mem_singleton_iff.mp hj, Function.update_self]
  · rw [Function.update_of_ne hj]

theorem Paints.congr (h : Paints s v f) (hs : ∀ i, i ∈ s ↔ i ∈ t) : Paints t v f := by
  have he : s = t := Set.ext hs
  subst he
  exact h

theorem paints_foldlM {step : (ℕ → α) → ι → Option (ℕ → α)} {cells : ι → Set ℕ} (l : List ι)
    (h : ∀ k ∈ l, Paints (cells k) v fun m => step m k) :
    Paints {i | ∃ k ∈ l, i ∈ cells k} v fun m => l.foldlM step m := by
  induction l with
  | nil =>
    intro m
    refine ⟨m, rfl, ?_, fun _ _ => rfl⟩
    rintro i ⟨k, hk, -⟩
    exact absurd hk List.not_mem_nil
  | cons k l ih =>
    intro m
    rcases h k List.mem_cons_self m with ⟨m₁, hfirst, hin, hout⟩
    rcases ih (fun j hj => h j (List.mem_cons_of_mem k hj)) m₁ with ⟨m₂, hrest, hin', hout'⟩
    refine ⟨m₂, ?_, ?_, fun i hi => ?_⟩
    · change step m k = some m₁ at hfirst
      change l.foldlM step m₁ = some m₂ at hrest
      change (k :: l).foldlM step m = some m₂
      rw [List.foldlM_cons, hfirst]
      exact hrest
    · rintro i ⟨j, hj, hi⟩
      by_cases hl : i ∈ {i | ∃ j ∈ l, i ∈ cells j}
      · exact hin' i hl
      · rw [hout' i hl]
        rcases List.mem_cons.mp hj with rfl | hj
        · exact hin i hi
        · exact absurd ⟨j, hj, hi⟩ hl
    · rw [hout' i fun ⟨j, hj, hm⟩ => hi ⟨j, List.mem_cons_of_mem k hj, hm⟩,
        hout i fun hm => hi ⟨k, List.mem_cons_self, hm⟩]

theorem paints_range (limit start n : ℕ) (x : α) (h : start + n ≤ limit) :
    Paints {i | start ≤ i ∧ i < start + n} (fun _ => x)
      fun m => (List.range' start n).foldlM (fun m i => write limit i x m) m := by
  have hcells (i : ℕ) (hi : i ∈ List.range' start n) : Paints {i} (fun _ => x) fun m => write limit i x m := by
    rw [List.mem_range'_1] at hi
    have hlt : i < limit := by omega
    exact paints_write (v := fun _ => x) hlt
  apply (paints_foldlM (List.range' start n) hcells).congr
  intro i
  simp [List.mem_range'_1]

/-- The action is defined on all memories or on none, and it is defined exactly if `p` holds. -/
def DefinedWhen (p : Prop) (f : (ℕ → α) → Option (ℕ → α)) : Prop := ∀ m, (f m).isSome = true ↔ p

theorem definedWhen_write (limit i : ℕ) (x : α) : DefinedWhen (i < limit) (write limit i x) := by
  intro m
  rw [write]
  split_ifs with hi
  · simp [hi]
  · simp [hi]

theorem DefinedWhen.congr {p q : Prop} (h : DefinedWhen p f) (hpq : p ↔ q) : DefinedWhen q f := fun m => (h m).trans hpq

theorem definedWhen_foldlM {step : (ℕ → α) → ι → Option (ℕ → α)} {p : ι → Prop} (l : List ι)
    (h : ∀ k, DefinedWhen (p k) fun m => step m k) : DefinedWhen (∀ k ∈ l, p k) fun m => l.foldlM step m := by
  induction l with
  | nil => exact fun m => by simp
  | cons k l ih =>
    intro m
    have hk : (step m k).isSome = true ↔ p k := h k m
    simp only [List.foldlM_cons, List.forall_mem_cons]
    cases hstep : step m k with
    | none =>
      rw [hstep] at hk
      have hnot : ¬p k := fun hp => Bool.false_ne_true (hk.mpr hp)
      exact iff_of_false Bool.false_ne_true fun hall => hnot hall.1
    | some m₁ =>
      rw [hstep] at hk
      have hp : p k := hk.mp rfl
      have hrest : (l.foldlM step m₁).isSome = true ↔ ∀ j ∈ l, p j := ih m₁
      simpa [hp] using hrest

end VenturaOS.Library.BoundedMemory
