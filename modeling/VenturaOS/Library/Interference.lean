import Mathlib.Data.Set.Lattice
import VenturaOS.Library.ByteMemory
import VenturaOS.Library.Runs

/-!
# Programs under interruption

A program works on a core and a memory. Which bytes its next step reads and
writes depends on the core alone. Between two steps something else may run
that keeps the core and scratches some bytes. The program cannot tell, as long
as it reads no byte that may have been scratched since it was last written.
-/
namespace VenturaOS.Library

structure Program (K : Type*) where
  step : K × Bytes → K × Bytes
  reads : K → Set ℕ
  writes : K → Set ℕ
  core_congr : ∀ {k m m'}, (∀ y ∈ reads k, m' y = m y) → (step (k, m')).1 = (step (k, m)).1
  mem_congr : ∀ {k m m'}, (∀ y ∈ reads k, m' y = m y) → ∀ y ∈ writes k, (step (k, m')).2 y = (step (k, m)).2 y
  frame : ∀ k m, ∀ y ∉ writes k, (step (k, m)).2 y = m y

/-- What an interruption needs and does: it scratches bytes that depend on the core, it relies on bytes that
nobody changes, and it works on cores that are fit for it. -/
structure Surroundings (K : Type*) where
  scratch : K → Set ℕ
  fixed : Set ℕ
  Fit : K → Prop
  apart : ∀ {k}, Fit k → ∀ y ∈ scratch k, y ∉ fixed

/-- A state on which an interruption works: a fit core, and the fixed bytes as they were. -/
def Surroundings.Supports {K : Type*} (E : Surroundings K) (bytes : Bytes) (x : K × Bytes) : Prop :=
  E.Fit x.1 ∧ ∀ y ∈ E.fixed, x.2 y = bytes y

namespace Program

variable {K S L : Type*} (P : Program K) (E : Surroundings K)

/-- The program by itself, `n` steps. -/
def alone (n : ℕ) (x : K × Bytes) : K × Bytes := P.step^[n] x

/-- The bytes that are stale after `n` steps from `x`, when those of `T` were before. -/
def stale : ℕ → K × Bytes → Set ℕ → Set ℕ
  | 0, x, T => T ∪ E.scratch x.1
  | n + 1, x, T => stale n (P.step x) ((T ∪ E.scratch x.1) \ P.writes x.1)

/-- In `n` steps from `x` the program reads no stale byte and writes no fixed one, and every core is fit. -/
def Careful : ℕ → K × Bytes → Set ℕ → Prop
  | 0, x, _ => E.Fit x.1
  | n + 1, x, T =>
    E.Fit x.1 ∧ (∀ y ∈ P.reads x.1, y ∉ T ∪ E.scratch x.1) ∧ (∀ y ∈ P.writes x.1, y ∉ E.fixed) ∧
      Careful n (P.step x) ((T ∪ E.scratch x.1) \ P.writes x.1)

/-- The same core, and the same memory outside `T`. -/
def Agree (T : Set ℕ) (x v : K × Bytes) : Prop := v.1 = x.1 ∧ ∀ y ∉ T, v.2 y = x.2 y

variable {P E} {T T' : Set ℕ} {x v w : K × Bytes} {n : ℕ}

theorem Agree.refl (T : Set ℕ) (x : K × Bytes) : Agree T x x := ⟨rfl, fun _ _ => rfl⟩

theorem Agree.mono (h : Agree T x v) (hsub : T ⊆ T') : Agree T' x v :=
  ⟨h.1, fun y hy => h.2 y fun hmem => hy (hsub hmem)⟩

theorem Agree.trans (h : Agree T x v) (h' : Agree T v w) : Agree T x w :=
  ⟨h'.1.trans h.1, fun y hy => (h'.2 y hy).trans (h.2 y hy)⟩

/-- A step that reads no byte of `T` writes the same values. -/
theorem Agree.step (h : Agree T x v) (hreads : ∀ y ∈ P.reads x.1, y ∉ T) :
    Agree (T \ P.writes x.1) (P.step x) (P.step v) := by
  rcases x with ⟨k, m⟩
  rcases v with ⟨k', m'⟩
  obtain ⟨rfl, hmem⟩ := h
  have hsame : ∀ y ∈ P.reads k', m' y = m y := fun y hy => hmem y (hreads y hy)
  refine ⟨P.core_congr hsame, fun y hy => ?_⟩
  by_cases hw : y ∈ P.writes k'
  · exact P.mem_congr hsame y hw
  · rw [P.frame k' m' y hw, P.frame k' m y hw]
    exact hmem y fun hT => hy ⟨hT, hw⟩

theorem Careful.fit (h : P.Careful E n x T) : E.Fit x.1 := by
  cases n with
  | zero => exact h
  | succ n => exact h.1

/-- The number of steps of the program itself. -/
def ownSteps (ls : List (Option L)) : ℕ := ls.countP Option.isNone

/-- The rule: interruptions that keep the core and all but the scratched bytes leave no trace in the
program's own run. Every state on the way supports the next interruption. `Inv` is what else the
interruptions rely on. -/
theorem run_agrees {Step : S → Option L → S → Prop} (view : S → K × Bytes) (Inv : S → Prop) {bytes : Bytes}
    (hown : ∀ {s s'}, Inv s → Step s none s' → view s' = P.step (view s) ∧ Inv s')
    (hintr : ∀ {s s' l}, Inv s → E.Supports bytes (view s) → Step s (some l) s' →
      Agree (E.scratch (view s).1) (view s) (view s') ∧ Inv s')
    {s s' : S} {ls : List (Option L)} (hrun : Run Step s ls s') (hinv : Inv s) {x : K × Bytes}
    (hstart : Agree (T ∪ E.scratch x.1) x (view s)) (hfixed : ∀ y ∈ E.fixed, (view s).2 y = bytes y)
    (hcare : P.Careful E (ownSteps ls) x T) :
    Agree (P.stale E (ownSteps ls) x T) (P.alone (ownSteps ls) x) (view s') ∧
      (Inv s' ∧ E.Supports bytes (view s')) ∧
      Run (fun s l s' => (Inv s ∧ E.Supports bytes (view s)) ∧ Step s l s') s ls s' := by
  induction hrun generalizing x T with
  | nil s =>
    have hfit : E.Fit (view s).1 := by
      rw [hstart.1]
      exact hcare
    exact ⟨hstart, ⟨hinv, hfit, hfixed⟩, .nil s⟩
  | @cons s t u l ls hstep _ ih =>
    have hcore : (view s).1 = x.1 := hstart.1
    cases l with
    | some l =>
      rw [ownSteps, List.countP_cons_of_neg (by simp)] at hcare ⊢
      have hfit : E.Fit (view s).1 := by
        rw [hcore]
        exact hcare.fit
      obtain ⟨hscratch, hinv'⟩ := hintr hinv ⟨hfit, hfixed⟩ hstep
      have hkept : ∀ y ∈ E.fixed, (view t).2 y = bytes y := fun y hy =>
        (hscratch.2 y fun hmem => E.apart hfit y hmem hy).trans (hfixed y hy)
      rw [hcore] at hscratch
      obtain ⟨hagree, hend, hrest⟩ := ih hinv' (hstart.trans (hscratch.mono Set.subset_union_right)) hkept hcare
      exact ⟨hagree, hend, .cons ⟨⟨hinv, hfit, hfixed⟩, hstep⟩ hrest⟩
    | none =>
      rw [ownSteps, List.countP_cons_of_pos rfl] at hcare ⊢
      obtain ⟨hfit, hreads, hwrites, hlater⟩ := hcare
      rw [← hcore] at hfit
      rw [alone, Function.iterate_succ_apply]
      obtain ⟨hown', hinv'⟩ := hown hinv hstep
      have hkept : ∀ y ∈ E.fixed, (view t).2 y = bytes y := by
        intro y hy
        rw [hown', ← hfixed y hy]
        apply P.frame
        rw [hcore]
        exact fun hmem => hwrites y hmem hy
      have hsub : (T ∪ E.scratch x.1) \ P.writes x.1 ⊆ (T ∪ E.scratch x.1) \ P.writes x.1 ∪ E.scratch (P.step x).1 :=
        Set.subset_union_left
      have hnext := (hstart.step hreads).mono hsub
      rw [← hown'] at hnext
      obtain ⟨hagree, hend, hrest⟩ := ih hinv' hnext hkept hlater
      exact ⟨hagree, hend, .cons ⟨⟨hinv, hfit, hfixed⟩, hstep⟩ hrest⟩

end Program
end VenturaOS.Library
