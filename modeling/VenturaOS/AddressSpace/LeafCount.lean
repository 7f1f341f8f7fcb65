import VenturaOS.AddressSpace.Teardown

/-!
# Counting the leaves of a private tree

Teardown reports how many present leaves it walked over. Below a root of an
address space there are no large pages, so this is the number of present
entries in the leaf tables of that root.
-/
namespace VenturaOS.AddressSpaces
open Library Memory Pmm Paging Vmm

open Classical in
/-- The present entries, with their tables, of the leaf tables below path `p` of root `r`. -/
noncomputable def leavesAt (F : Finset U64) (place : Placement) (tables : U64 → PageTable) (r : U64) (p : Path) :
    Finset (U64 × Fin 512) :=
  (F ×ˢ Finset.univ).filter fun x =>
    ∃ q, (p ++ q).length = 3 ∧ place x.1 = some (r, p ++ q) ∧ (tables x.1 x.2).isPresent = true

section

variable {k : U64} {F : Finset U64} {c : ℕ} {place : Placement} {held : Finset U64} {s : PageMemory}
  {r a : U64} {p : Path} {i : Fin 512}

theorem mem_leavesAt (h : Owned (kernelPolicy k F) F c place held s) (hr : r ≠ k) {x : U64 × Fin 512} :
    x ∈ leavesAt F place s.tables r p ↔
      ∃ q, (p ++ q).length = 3 ∧ place x.1 = some (r, p ++ q) ∧ (s.tables x.1 x.2).isPresent = true := by
  simp only [leavesAt, Finset.mem_filter, Finset.mem_product, Finset.mem_univ, and_true]
  refine ⟨And.right, fun hx => ⟨?_, hx⟩⟩
  rcases hx with ⟨q, -, hq, -⟩
  exact (h.managed hq).resolve_right hr

/-- Above the leaf tables, the leaves below a path are those below its extensions. -/
theorem leavesAt_card (h : Owned (kernelPolicy k F) F c place held s) (hr : r ≠ k) (hp : p.length < 3) :
    (leavesAt F place s.tables r p).card = ∑ j : Fin 512, (leavesAt F place s.tables r (p ++ [j])).card := by
  have hunion : leavesAt F place s.tables r p =
      Finset.univ.biUnion fun j : Fin 512 => leavesAt F place s.tables r (p ++ [j]) := by
    ext x
    simp only [Finset.mem_biUnion, Finset.mem_univ, true_and, mem_leavesAt h hr]
    constructor
    · rintro ⟨q, hlen, hq, hpres⟩
      cases q with
      | nil => simp at hlen; omega
      | cons j q => exact ⟨j, q, by simpa using hlen, by simpa using hq, hpres⟩
    · rintro ⟨j, q, hlen, hq, hpres⟩
      exact ⟨j :: q, by simpa using hlen, by simpa using hq, hpres⟩
  rw [hunion]
  apply Finset.card_biUnion
  intro j _ j' _ hne
  rw [Function.onFun, Finset.disjoint_left]
  intro x hx hx'
  rcases (mem_leavesAt h hr).mp hx with ⟨q, -, hq, -⟩
  rcases (mem_leavesAt h hr).mp hx' with ⟨q', -, hq', -⟩
  rw [hq, Option.some.injEq, Prod.mk.injEq, List.append_assoc, List.append_assoc] at hq'
  exact hne (List.cons.inj (List.append_cancel_left hq'.2)).1

theorem countPresent_card (t : PageTable) : countPresent t = (Finset.univ.filter fun i => (t i).isPresent = true).card := by
  have hset : ((List.finRange 512).filter fun i => (t i).isPresent).toFinset =
      Finset.univ.filter fun i => (t i).isPresent = true := by
    ext j
    simp
  rw [countPresent, ← List.toFinset_card_of_nodup ((List.nodup_finRange 512).filter _), hset]

theorem leavesAt_empty (h : Owned (kernelPolicy k F) F c place held s) (hr : r ≠ k) (ha : place a = some (r, p))
    (hp : p.length < 3) (hs : (kernelPolicy k F).Owns r p i) (htable : ¬ isTable (s.tables a i) = true) :
    (s.tables a i).isPresent = false ∧ leavesAt F place s.tables r (p ++ [i]) = ∅ := by
  constructor
  · by_contra hpres
    rw [Bool.not_eq_false] at hpres
    have hhuge : (s.tables a i).isHuge = true := by simpa [isTable, hpres] using htable
    exact hr (h.huge ha hp hpres hhuge).1
  · rw [Finset.eq_empty_iff_forall_notMem]
    intro x hx
    rcases (mem_leavesAt h hr).mp hx with ⟨q, -, hq, -⟩
    rcases h.forest.ancestor hq with ⟨b, hb⟩
    rw [← link_iff_placed h ha hp hs, link_none_of_not_table htable] at hb
    cases hb

theorem leavesThrough_card (h : Owned (kernelPolicy k F) F c place held s) (hr : r ≠ k) (d : ℕ)
    (ha : place a = some (r, p)) (hd : p.length + d = 2) (hs : (kernelPolicy k F).Owns r p i) :
    leavesThrough s.tables d (s.tables a i) = (leavesAt F place s.tables r (p ++ [i])).card := by
  induction d generalizing a p i with
  | zero =>
    unfold leavesThrough
    split_ifs with htable
    · have hb := h.follow ha (by omega) hs (isTable_link htable)
      have himage : leavesAt F place s.tables r (p ++ [i]) =
          (Finset.univ.filter fun j => (s.tables (s.tables a i).physAddr j).isPresent = true).image
            (Prod.mk (s.tables a i).physAddr) := by
        ext x
        rw [mem_leavesAt h hr, Finset.mem_image]
        constructor
        · rintro ⟨q, hlen, hq, hpres⟩
          have hnil : q = [] := by
            apply List.length_eq_zero_iff.mp
            simp only [List.length_append, List.length_singleton] at hlen
            omega
          subst hnil
          rw [List.append_nil] at hq
          have hx := h.forest.place_inj hq hb
          exact ⟨x.2, by rw [Finset.mem_filter, ← hx]; exact ⟨Finset.mem_univ _, hpres⟩, by rw [← hx]⟩
        · rintro ⟨j, hj, rfl⟩
          exact ⟨[], by simp; omega, by simpa using hb, (Finset.mem_filter.mp hj).2⟩
      rw [himage, Finset.card_image_of_injective _ (Prod.mk_right_injective _), countPresent_card]
    · rcases leavesAt_empty h hr ha (by omega) hs htable with ⟨habs, hempty⟩
      rw [hempty, habs]
      rfl
  | succ d ih =>
    unfold leavesThrough
    split_ifs with htable
    · have hb := h.follow ha (by omega) hs (isTable_link htable)
      have hlen : (p ++ [i]).length + d = 2 := by simp; omega
      have hbody : ((List.finRange 512).map fun j => leavesThrough s.tables d (s.tables (s.tables a i).physAddr j)) =
          (List.finRange 512).map fun j => (leavesAt F place s.tables r (p ++ [i] ++ [j])).card := by
        apply List.map_congr_left
        intro j _
        exact ih hb hlen (by simp [Policy.Owns])
      rw [leavesAt_card h hr (by omega), Fin.sum_univ_def, hbody]
    · rcases leavesAt_empty h hr ha (by omega) hs htable with ⟨habs, hempty⟩
      rw [hempty, habs]
      rfl

/-- The count `free_private_tables` reports. -/
theorem leaves_card (h : Owned (kernelPolicy k F) F c place held s) (hroot : place r = some (r, [])) (hr : r ≠ k) :
    (privateSlots.map fun i => leavesThrough s.tables 2 (s.tables r i)).sum =
      (leavesAt F place s.tables r []).card := by
  have hslots : (privateSlots.map fun i => leavesThrough s.tables 2 (s.tables r i)) =
      privateSlots.map fun i => (leavesAt F place s.tables r [i]).card := by
    apply List.map_congr_left
    intro i hi
    exact leavesThrough_card h hr 2 hroot (by simp) (private_owns hi)
  have hnodup : privateSlots.Nodup := (List.nodup_finRange 512).filter _
  rw [hslots, leavesAt_card h hr (by simp), ← List.sum_toFinset _ hnodup]
  apply Finset.sum_subset (Finset.subset_univ _)
  intro i _ hi
  -- nothing of this root is placed behind a shared slot
  rw [Finset.card_eq_zero, Finset.eq_empty_iff_forall_notMem]
  intro x hx
  rcases (mem_leavesAt h hr).mp hx with ⟨q, -, hq, -⟩
  rcases h.forest.ancestor (show place x.1 = some (r, [i] ++ q) from hq) with ⟨b, hb⟩
  rcases h.forest.parent (show place b = some (r, [] ++ [i]) from hb) with ⟨a, -, he⟩
  have hnot : isShared i = true := by
    rw [List.mem_toFinset, mem_privateSlots] at hi
    simpa using hi
  rw [Policy.edge, if_pos (by simp), if_pos] at he
  · cases he
  · simp only [isShared, Bool.or_eq_true, decide_eq_true_eq] at hnot
    simp only [kernelPolicy, true_and, decide_eq_false_iff_not, hr, false_or, not_and_or, not_not, not_lt]
    exact hnot

end
end VenturaOS.AddressSpaces
