import Mathlib.Data.Set.Basic
import VenturaOS.Library.Runs

/-!
# A cache of a function that changes

The function is read through a cache that may take up any of its present
values at any time and may lose any of its entries. Whoever changes the
function drops keys with each change. The cache stays right as long as a value
that is not dropped is not changed.
-/
namespace VenturaOS.Library

variable {K V S L : Type*}

/-- The entries that are right. -/
def graph (f : K → Option V) : Set (K × V) := {x | f x.1 = some x.2}

/-- One change: the keys that are dropped with it, and the function behind it. -/
abbrev Change (K V : Type*) := Set K × (K → Option V)

/-- A cache over a sequence of changes, of a function that is `f` to begin with. -/
inductive Cached : Set (K × V) → (K → Option V) → List (Change K V) → Set (K × V) → Prop
  | done {C C' : Set (K × V)} {f : K → Option V} : C' ⊆ C ∪ graph f → Cached C f [] C'
  | change {C C₁ C' : Set (K × V)} {f g : K → Option V} {dropped : Set K} {changes : List (Change K V)} :
      C₁ ⊆ C ∪ graph f → Cached {x ∈ C₁ | x.1 ∉ dropped} g changes C' → Cached C f ((dropped, g) :: changes) C'

/-- Changes that lead from one function to another, and drop every key whose value they change or remove. -/
inductive Invalidates : (K → Option V) → List (Change K V) → (K → Option V) → Prop
  | done (f : K → Option V) : Invalidates f [] f
  | change {f g h : K → Option V} {dropped : Set K} {changes : List (Change K V)} :
      (∀ x v, f x = some v → x ∉ dropped → g x = some v) → Invalidates g changes h → Invalidates f ((dropped, g) :: changes) h

variable {f g h : K → Option V} {C C' : Set (K × V)} {changes changes' : List (Change K V)} {dropped : Set K}

namespace Invalidates

theorem single (hkeep : ∀ x v, f x = some v → x ∉ dropped → g x = some v) : Invalidates f [(dropped, g)] g :=
  .change hkeep (.done g)

theorem quiet (hsame : g = f) : Invalidates f [(dropped, g)] g := single fun _ _ hx _ => hsame ▸ hx

theorem append (hf : Invalidates f changes g) (hg : Invalidates g changes' h) : Invalidates f (changes ++ changes') h := by
  induction hf with
  | done f => exact hg
  | change hkeep _ ih => exact .change hkeep (ih hg)

theorem constant (hsame : ∀ c ∈ changes, c.2 = f) : Invalidates f changes f := by
  induction changes with
  | nil => exact .done f
  | cons c changes ih =>
    rcases c with ⟨dropped, g⟩
    obtain rfl : g = f := hsame (dropped, g) List.mem_cons_self
    exact .change (fun _ _ hx _ => hx) (ih fun c hc => hsame c (List.mem_cons_of_mem _ hc))

end Invalidates

theorem Cached.empty (f : K → Option V) (changes : List (Change K V)) : Cached ∅ f changes ∅ := by
  induction changes generalizing f with
  | nil => exact .done (Set.empty_subset _)
  | cons c changes ih =>
    apply Cached.change (Set.empty_subset _)
    rw [Set.sep_empty]
    exact ih c.2

theorem Cached.right (hc : Cached C f changes C') (hinvalidates : Invalidates f changes g) (hright : C ⊆ graph f) : C' ⊆ graph g := by
  induction hc with
  | done hsub =>
    cases hinvalidates
    exact hsub.trans (Set.union_subset hright subset_rfl)
  | change hsub _ ih =>
    cases hinvalidates with
    | change hkeep hinvalidates =>
      apply ih hinvalidates
      rintro ⟨x, v⟩ ⟨hmem, hx⟩
      exact hkeep x v (hsub.trans (Set.union_subset hright subset_rfl) hmem) hx

/-- A system whose steps change the function, together with a cache. -/
def CachedStep (step : S → L → S → Prop) (source : S → K → Option V) (changes : S → L → S → List (Change K V))
    (x : S × Set (K × V)) (l : L) (y : S × Set (K × V)) : Prop :=
  step x.1 l y.1 ∧ Cached x.2 (source x.1) (changes x.1 l y.1) y.2

/-- The rule for runs: when every step of the system is careful, the cache is right in every state, and the
system runs as it does without the cache. -/
theorem run_right {step : S → L → S → Prop} {source : S → K → Option V} {changes : S → L → S → List (Change K V)}
    (Inv : S → Prop) (hinv : ∀ s l t, Inv s → step s l t → Inv t)
    (hinvalidates : ∀ s l t, Inv s → step s l t → Invalidates (source s) (changes s l t) (source t)) {x y : S × Set (K × V)}
    {ls : List L} (hrun : Run (CachedStep step source changes) x ls y) (hstart : Inv x.1) (hright : x.2 ⊆ graph (source x.1)) :
    Run step x.1 ls y.1 ∧ y.2 ⊆ graph (source y.1) := by
  induction hrun with
  | nil x => exact ⟨.nil x.1, hright⟩
  | cons hstep _ ih =>
    obtain ⟨hstep, hcached⟩ := hstep
    obtain ⟨hrun, hend⟩ := ih (hinv _ _ _ hstart hstep) (hcached.right (hinvalidates _ _ _ hstart hstep) hright)
    exact ⟨.cons hstep hrun, hend⟩

end VenturaOS.Library
