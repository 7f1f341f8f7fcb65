import Mathlib.Data.List.Induction
import Mathlib.Logic.Function.Basic

/-!
# Forests stored in shared memory

A memory of nodes with indexed entries, some of which lead to other nodes. A
placement names, for each node in use, its root and the path of indices from
that root. Since it is a function, no node stands in two places. The rules
say how the placement follows when a node is attached, detached, made a root,
or when a whole tree is given up.
-/
namespace VenturaOS.Library

variable {A I E : Type*}

/-- `place` is exactly what the owned edges of `mem` describe; `edge r p i e` is the node that
entry `e`, in slot `i` of the node at path `p` of root `r`, leads to and owns. -/
structure Forest (edge : A → List I → I → E → Option A) (mem : A → I → E)
    (place : A → Option (A × List I)) : Prop where
  root_self : ∀ {a r}, place a = some (r, []) → a = r
  rooted : ∀ {a r p}, place a = some (r, p) → place r = some (r, [])
  child : ∀ {a r p i b}, place a = some (r, p) → edge r p i (mem a i) = some b →
    place b = some (r, p ++ [i])
  parent : ∀ {b r p i}, place b = some (r, p ++ [i]) →
    ∃ a, place a = some (r, p) ∧ edge r p i (mem a i) = some b

namespace Forest

variable {edge : A → List I → I → E → Option A} {mem mem' : A → I → E}
  {place : A → Option (A × List I)}

theorem place_inj (h : Forest edge mem place) {r : A} {p : List I} {a b : A}
    (ha : place a = some (r, p)) (hb : place b = some (r, p)) : a = b := by
  induction p using List.reverseRecOn generalizing a b with
  | nil => rw [h.root_self ha, h.root_self hb]
  | append_singleton p i ih =>
    rcases h.parent ha with ⟨a', ha', hea⟩
    rcases h.parent hb with ⟨b', hb', heb⟩
    rw [ih ha' hb', heb] at hea
    exact (Option.some.inj hea).symm

/-- Every node on the way to a placed node is placed. -/
theorem ancestor (h : Forest edge mem place) {r b : A} {p q : List I} (hb : place b = some (r, p ++ q)) :
    ∃ a, place a = some (r, p) := by
  induction q using List.reverseRecOn generalizing b with
  | nil => exact ⟨b, by simpa using hb⟩
  | append_singleton q i ih =>
    rw [← List.append_assoc] at hb
    rcases h.parent hb with ⟨a, ha, -⟩
    exact ih ha

/-- Writes that leave the owned edges of placed nodes alone keep the forest. -/
theorem congr (h : Forest edge mem place)
    (hsame : ∀ {a r p} i, place a = some (r, p) → edge r p i (mem' a i) = edge r p i (mem a i)) :
    Forest edge mem' place where
  root_self := h.root_self
  rooted := h.rooted
  child ha he := h.child ha (by rwa [← hsame _ ha])
  parent hb := by
    rcases h.parent hb with ⟨a, ha, he⟩
    exact ⟨a, ha, by rwa [hsame _ ha]⟩

variable [DecidableEq A]

/-- A node has its place from before, or it is the new one. -/
theorem placed_cases {b c : A} {x y : A × List I} (hc : Function.update place b (some x) c = some y) :
    (c = b ∧ y = x) ∨ (c ≠ b ∧ place c = some y) := by
  by_cases hcb : c = b
  · subst hcb
    rw [Function.update_self] at hc
    exact .inl ⟨rfl, (Option.some.inj hc).symm⟩
  · rw [Function.update_of_ne hcb] at hc
    exact .inr ⟨hcb, hc⟩

theorem unplaced_cases {b c : A} {x : A × List I} (hc : Function.update place b none c = some x) :
    c ≠ b ∧ place c = some x := by
  by_cases hcb : c = b
  · subst hcb
    rw [Function.update_self] at hc
    cases hc
  · rw [Function.update_of_ne hcb] at hc
    exact ⟨hcb, hc⟩

theorem attach (h : Forest edge mem place) {a b r : A} {p : List I} {i : I} (hb : place b = none)
    (ha : place a = some (r, p)) (hold : edge r p i (mem a i) = none)
    (hnew : edge r p i (mem' a i) = some b) (hleaf : ∀ j, edge r (p ++ [i]) j (mem' b j) = none)
    (hsame : ∀ {c r' q} j, place c = some (r', q) → ¬(c = a ∧ j = i) →
      edge r' q j (mem' c j) = edge r' q j (mem c j)) :
    Forest edge mem' (Function.update place b (some (r, p ++ [i]))) := by
  have hne {c : A} {x} (hc : place c = some x) : c ≠ b := by
    rintro rfl
    simp [hb] at hc
  have hold' {c : A} {x} (hc : place c = some x) :
      Function.update place b (some (r, p ++ [i])) c = some x := by
    rw [Function.update_of_ne (hne hc), hc]
  constructor
  · intro c r' hc
    rcases placed_cases hc with ⟨-, hx⟩ | ⟨-, hc⟩
    · simp at hx
    · exact h.root_self hc
  · intro c r' q hc
    rcases placed_cases hc with ⟨-, hx⟩ | ⟨-, hc⟩
    · cases hx
      exact hold' (h.rooted ha)
    · exact hold' (h.rooted hc)
  · intro c r' q j d hc he
    rcases placed_cases hc with ⟨rfl, hx⟩ | ⟨-, hplaced⟩
    · cases hx
      rw [hleaf j] at he
      cases he
    · by_cases hslot : c = a ∧ j = i
      · rcases hslot with ⟨rfl, rfl⟩
        rw [ha] at hplaced
        cases hplaced
        rw [hnew] at he
        cases he
        exact Function.update_self _ _ _
      · rw [hsame j hplaced hslot] at he
        exact hold' (h.child hplaced he)
  · intro d r' q j hd
    rcases placed_cases hd with ⟨rfl, hx⟩ | ⟨-, hd⟩
    · rcases Prod.mk.inj hx with ⟨rfl, hp⟩
      rcases List.append_inj' hp rfl with ⟨rfl, hi⟩
      cases hi
      exact ⟨a, hold' ha, hnew⟩
    · rcases h.parent hd with ⟨c, hc, he⟩
      have hslot : ¬(c = a ∧ j = i) := by
        rintro ⟨rfl, rfl⟩
        rw [ha] at hc
        cases hc
        rw [hold] at he
        cases he
      exact ⟨c, hold' hc, by rwa [hsame j hc hslot]⟩

/-- A childless node is unlinked. -/
theorem detach (h : Forest edge mem place) {b r : A} {p : List I} {i : I}
    (hb : place b = some (r, p ++ [i])) (hleaf : ∀ j, edge r (p ++ [i]) j (mem b j) = none)
    (hcut : ∀ {a}, place a = some (r, p) → edge r p i (mem' a i) = none)
    (hsame : ∀ {c r' q} j, place c = some (r', q) → c ≠ b → ¬(r' = r ∧ q = p ∧ j = i) →
      edge r' q j (mem' c j) = edge r' q j (mem c j)) :
    Forest edge mem' (Function.update place b none) := by
  have hkeep {c : A} {x} (hcb : c ≠ b) (hc : place c = some x) :
      Function.update place b none c = some x := by
    rw [Function.update_of_ne hcb, hc]
  constructor
  · intro c r' hc
    exact h.root_self (unplaced_cases hc).2
  · intro c r' q hc
    have hroot := h.rooted (unplaced_cases hc).2
    refine hkeep ?_ hroot
    rintro rfl
    rw [hb] at hroot
    simp at hroot
  · intro c r' q j d hc he
    rcases unplaced_cases hc with ⟨hcb, hc⟩
    by_cases hslot : r' = r ∧ q = p ∧ j = i
    · rcases hslot with ⟨rfl, rfl, rfl⟩
      simp [hcut hc] at he
    · rw [hsame j hc hcb hslot] at he
      have hd := h.child hc he
      refine hkeep ?_ hd
      rintro rfl
      rw [hb, Option.some.injEq, Prod.mk.injEq] at hd
      rcases List.append_inj' hd.2 rfl with ⟨hp, hi⟩
      exact hslot ⟨hd.1.symm, hp.symm, by simpa using hi.symm⟩
  · intro d r' q j hd
    rcases unplaced_cases hd with ⟨hdb, hd⟩
    rcases h.parent hd with ⟨c, hc, he⟩
    have hcb : c ≠ b := by
      rintro rfl
      rw [hb, Option.some.injEq, Prod.mk.injEq] at hc
      rcases hc with ⟨rfl, rfl⟩
      simp [hleaf j] at he
    refine ⟨c, hkeep hcb hc, ?_⟩
    rw [hsame j hc hcb, he]
    rintro ⟨rfl, rfl, rfl⟩
    exact hdb (h.place_inj hd hb)

/-- A node in use nowhere becomes the root of a new tree. -/
theorem addRoot (h : Forest edge mem place) {b : A} (hb : place b = none)
    (hleaf : ∀ j, edge b [] j (mem' b j) = none)
    (hsame : ∀ {c r' q} j, place c = some (r', q) → edge r' q j (mem' c j) = edge r' q j (mem c j)) :
    Forest edge mem' (Function.update place b (some (b, []))) := by
  have hkeep {c : A} {x} (hc : place c = some x) :
      Function.update place b (some (b, [])) c = some x := by
    rw [Function.update_of_ne, hc]
    rintro rfl
    simp [hb] at hc
  constructor
  · intro c r' hc
    rcases placed_cases hc with ⟨rfl, hx⟩ | ⟨-, hc⟩
    · exact (Prod.mk.inj hx).1.symm
    · exact h.root_self hc
  · intro c r' q hc
    rcases placed_cases hc with ⟨-, hx⟩ | ⟨-, hc⟩
    · cases hx
      exact Function.update_self _ _ _
    · exact hkeep (h.rooted hc)
  · intro c r' q j d hc he
    rcases placed_cases hc with ⟨rfl, hx⟩ | ⟨-, hc⟩
    · cases hx
      rw [hleaf j] at he
      cases he
    · rw [hsame j hc] at he
      exact hkeep (h.child hc he)
  · intro d r' q j hd
    rcases placed_cases hd with ⟨-, hx⟩ | ⟨-, hd⟩
    · simp at hx
    · rcases h.parent hd with ⟨c, hc, he⟩
      exact ⟨c, hkeep hc, by rwa [hsame j hc]⟩

/-- The placement without the tree of root `r`. -/
def prune (place : A → Option (A × List I)) (r : A) (a : A) : Option (A × List I) :=
  (place a).filter fun x => x.1 ≠ r

theorem prune_eq_some {r a r' : A} {p : List I} :
    prune place r a = some (r', p) ↔ place a = some (r', p) ∧ r' ≠ r := by
  simp [prune, Option.filter_eq_some_iff]

theorem prune_update (h : Forest edge mem place) {b : A} (hb : place b = none) {p : List I} :
    prune (Function.update place b (some (b, p))) b = place := by
  funext a
  apply Option.ext
  rintro ⟨r, q⟩
  rw [prune_eq_some]
  by_cases hab : a = b
  · subst hab
    simp only [Function.update_self, hb]
    constructor
    · rintro ⟨he, hne⟩
      cases he
      exact absurd rfl hne
    · intro he
      cases he
  · rw [Function.update_of_ne hab]
    refine ⟨And.left, fun ha => ⟨ha, ?_⟩⟩
    rintro rfl
    rw [h.rooted ha] at hb
    cases hb

theorem dropRoot (h : Forest edge mem place) (r : A) : Forest edge mem (prune place r) := by
  constructor
  · intro a r' ha
    exact h.root_self (prune_eq_some.mp ha).1
  · intro a r' p ha
    rcases prune_eq_some.mp ha with ⟨ha, hne⟩
    exact prune_eq_some.mpr ⟨h.rooted ha, hne⟩
  · intro a r' p i b ha he
    rcases prune_eq_some.mp ha with ⟨ha, hne⟩
    exact prune_eq_some.mpr ⟨h.child ha he, hne⟩
  · intro b r' p i hb
    rcases prune_eq_some.mp hb with ⟨hb, hne⟩
    rcases h.parent hb with ⟨a, ha, he⟩
    exact ⟨a, prune_eq_some.mpr ⟨ha, hne⟩, he⟩

end Forest
end VenturaOS.Library
