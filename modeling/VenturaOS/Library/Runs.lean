import Mathlib.Logic.Basic

/-!
# Finite runs of a labelled transition system

A run is a finite sequence of labelled steps. Invariants and step-by-step
guarantees are lifted to whole runs here, once, for every machine of the
development.
-/
namespace VenturaOS.Library

variable {S L : Type*}

/-- `Run step s ls t`: the labels `ls` lead from `s` to `t`, one step each. -/
inductive Run (step : S → L → S → Prop) : S → List L → S → Prop
  | nil (s : S) : Run step s [] s
  | cons {s t u : S} {l : L} {ls : List L} : step s l t → Run step t ls u → Run step s (l :: ls) u

namespace Run

variable {step : S → L → S → Prop} {s t u : S} {l : L} {ls ms : List L}

theorem single (h : step s l t) : Run step s [l] t := .cons h (.nil t)

theorem append (h : Run step s ls t) (h' : Run step t ms u) : Run step s (ls ++ ms) u := by
  induction h with
  | nil => exact h'
  | cons hstep _ ih => exact .cons hstep (ih h')

theorem split (h : Run step s (ls ++ ms) u) : ∃ t, Run step s ls t ∧ Run step t ms u := by
  induction ls generalizing s with
  | nil => exact ⟨s, .nil s, h⟩
  | cons l ls ih =>
    cases h with
    | cons hstep hrest =>
      obtain ⟨t, hl, hm⟩ := ih hrest
      exact ⟨t, .cons hstep hl, hm⟩

/-- The invariant rule: what every step preserves, every run preserves. -/
theorem invariant (Inv : S → Prop) (hstep : ∀ s l t, Inv s → step s l t → Inv t)
    (h : Run step s ls t) (hs : Inv s) : Inv t := by
  induction h with
  | nil => exact hs
  | cons hst _ ih => exact ih (hstep _ _ _ hs hst)

/-- The invariant rule when only steps whose labels satisfy `P` preserve it. -/
theorem invariant_of_forall (Inv : S → Prop) (P : L → Prop)
    (hstep : ∀ s l t, Inv s → P l → step s l t → Inv t)
    (h : Run step s ls t) (hP : ∀ l ∈ ls, P l) (hs : Inv s) : Inv t := by
  induction h with
  | nil => exact hs
  | cons hst _ ih =>
    exact ih (fun l hl => hP l (List.mem_cons_of_mem _ hl))
      (hstep _ _ _ hs (hP _ List.mem_cons_self) hst)

end Run
end VenturaOS.Library
