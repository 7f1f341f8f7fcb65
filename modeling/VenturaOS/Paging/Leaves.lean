import VenturaOS.Paging.Growth

/-!
# Mapping and unmapping under ownership

`map_page` is a creating walk followed by a write to an empty leaf;
`unmap_page` clears a present one. A leaf write may take over a held frame or
give one back, as the policy says.
-/
namespace VenturaOS.Paging
open Library Pmm Memory

theorem writeEntry_tables (s : PageMemory) (a : U64) (i : Fin 512) (e : PageTableEntry) (b : U64) (j : Fin 512) :
    (s.writeEntry a i e).tables b j = if b = a ∧ j = i then e else s.tables b j := by
  change Function.update s.tables a (Function.update (s.tables a) i e) b j = _
  by_cases hb : b = a
  · subst hb
    rw [Function.update_self]
    by_cases hj : j = i
    · subst hj
      simp
    · simp [hj]
  · simp [hb]

theorem lookup_of_missing {tables : U64 → PageTable} {a : U64} {is : Path} (h : 0 < missing tables a is)
    (j : Fin 512) : lookup tables a (is ++ [j]) = none := by
  induction is generalizing a with
  | nil => simp [missing] at h
  | cons i is ih =>
    rw [List.cons_append, lookup, if_neg (by simp)]
    rw [missing] at h
    cases hl : (tables a i).link with
    | none => rfl
    | some b =>
      simp only [hl] at h
      exact ih h

namespace Owned

variable {pol : Policy} {F : Finset U64} {c : ℕ} {place : Placement} {held : Finset U64} {s : PageMemory}
  {a f r : U64} {p : Path} {i : Fin 512} {e : PageTableEntry} {v : VirtAddr}

/-- Looking up through a placed table starts again at that table. -/
theorem lookup_placed (h : Owned pol F c place held s) {b : U64} {is : Path} (hb : place b = some (r, is))
    (hl : is.length ≤ 3) (j : Fin 512) (q : Path) :
    lookup s.tables r (is ++ j :: q) = lookup s.tables b (j :: q) := by
  induction is using List.reverseRecOn generalizing b j q with
  | nil => rw [h.forest.root_self hb, List.nil_append]
  | append_singleton is k ih =>
    rw [List.length_append, List.length_singleton] at hl
    rcases h.forest.parent hb with ⟨t, ht, he⟩
    have hlink : (s.tables t k).link = some b := by
      rw [Policy.edge, if_pos (by omega)] at he
      split_ifs at he
      exact he
    rw [List.append_assoc, List.singleton_append, ih ht (by omega) k (j :: q), lookup,
      if_neg (by simp), hlink]
    rfl

/-- An entry may be replaced by one that owns the same. -/
theorem writeEdge (h : Owned pol F c place held s) (ha : place a = some (r, p))
    (hedge : pol.edge r p i e = pol.edge r p i (s.tables a i))
    (hupper : p.length < 3 → e.isPresent = true → pol.Upper r p e)
    (hall : p.length = 3 → e.isPresent = true → pol.allowed r p e.physAddr) :
    Owned pol F c place held (s.writeEntry a i e) := by
  refine h.retable ?_ ?_ ?_
  · intro b r' q j hb
    change pol.edge r' q j ((s.writeEntry a i e).tables b j) = _
    rw [writeEntry_tables]
    split_ifs with hslot
    · rcases hslot with ⟨rfl, rfl⟩
      rw [ha] at hb
      cases hb
      exact hedge
    · rfl
  · intro b r' q j hb hq
    change ((s.writeEntry a i e).tables b j).isPresent = true → pol.Upper r' q ((s.writeEntry a i e).tables b j)
    rw [writeEntry_tables]
    split_ifs with hslot
    · rcases hslot with ⟨rfl, rfl⟩
      rw [ha] at hb
      cases hb
      exact hupper hq
    · exact h.upper hb hq
  · intro b r' q j hb hq
    change ((s.writeEntry a i e).tables b j).isPresent = true → pol.allowed r' q ((s.writeEntry a i e).tables b j).physAddr
    rw [writeEntry_tables]
    split_ifs with hslot
    · rcases hslot with ⟨rfl, rfl⟩
      rw [ha] at hb
      cases hb
      exact hall hq
    · exact h.leaves hb hq

/-- A leaf write by which no frame changes hands. -/
theorem writeLeaf (h : Owned pol F c place held s) (ha : place a = some (r, p)) (hp : p.length = 3)
    (hold : pol.edge r p i (s.tables a i) = none) (hnew : pol.edge r p i e = none)
    (hall : e.isPresent = true → pol.allowed r p e.physAddr) :
    Owned pol F c place held (s.writeEntry a i e) := by
  refine h.writeEdge ha (hnew.trans hold.symm) (fun hlt => ?_) fun _ => hall
  omega

/-- A leaf write that takes a held frame over. -/
theorem writeLeaf_take (h : Owned pol F c place held s) (hf : f ∈ held) (hF : f ∈ F)
    (ha : place a = some (r, p)) (hp : p.length = 3) (hold : pol.edge r p i (s.tables a i) = none)
    (hnew : pol.edge r p i e = some f) (hall : e.isPresent = true → pol.allowed r p e.physAddr) :
    Owned pol F c (Function.update place f (some (r, p ++ [i]))) (held.erase f) (s.writeEntry a i e) := by
  have hplace := (h.held_inUse hf).2
  have hlen : (p ++ [i]).length = 4 := by rw [List.length_append, hp]; rfl
  refine h.settle hf (.inl hF) ?_ ?_ ?_ ?_
  · refine h.forest.attach hplace ha hold ?_ (fun j => Policy.edge_below (by omega) _) ?_
    · change pol.edge r p i ((s.writeEntry a i e).tables a i) = some f
      rw [writeEntry_tables, if_pos ⟨rfl, rfl⟩, hnew]
    · intro b r' q j hb hslot
      change pol.edge r' q j ((s.writeEntry a i e).tables b j) = _
      rw [writeEntry_tables, if_neg hslot]
  · intro j _
    constructor
    · intro hlt
      omega
    · intro heq
      omega
  · intro b r' q j hb hq
    change ((s.writeEntry a i e).tables b j).isPresent = true → pol.Upper r' q ((s.writeEntry a i e).tables b j)
    rw [writeEntry_tables, if_neg]
    · exact h.upper hb hq
    · rintro ⟨rfl, -⟩
      rw [ha] at hb
      cases hb
      omega
  · intro b r' q j hb hq
    change ((s.writeEntry a i e).tables b j).isPresent = true → pol.allowed r' q ((s.writeEntry a i e).tables b j).physAddr
    rw [writeEntry_tables]
    split_ifs with hslot
    · rcases hslot with ⟨rfl, rfl⟩
      rw [ha] at hb
      cases hb
      exact hall
    · exact h.leaves hb hq

/-- Clearing a leaf that owns its frame hands the frame to the caller. -/
theorem clearLeaf_release (h : Owned pol F c place held s) (ha : place a = some (r, p)) (hp : p.length = 3)
    (hold : pol.edge r p i (s.tables a i) = some f) :
    Owned pol F c (Function.update place f none) (insert f held) (s.writeEntry a i .empty) ∧
      place f = some (r, p ++ [i]) := by
  have hf := h.forest.child ha hold
  refine ⟨?_, hf⟩
  have hlen : (p ++ [i]).length = 4 := by rw [List.length_append, hp]; rfl
  refine
    { frames := h.frames
      pool := ⟨h.pool.aligned, h.pool.addressable, h.pool.outside, h.pool.index_le⟩
      forest := ?_
      placed := fun hb => h.placed (Forest.unplaced_cases hb).2
      held_inUse := ?_
      inUse := ?_
      managed := fun hb => h.managed (Forest.unplaced_cases hb).2
      upper := ?_
      leaves := ?_ }
  · refine h.forest.detach hf (fun j => Policy.edge_below (by omega) _) ?_ ?_
    · intro b hb
      rw [h.forest.place_inj hb ha, writeEntry_tables, if_pos ⟨rfl, rfl⟩]
      exact Policy.edge_of_not_present PageTableEntry.empty_isPresent
    · intro b r' q j hb hbf hno
      rw [writeEntry_tables, if_neg]
      rintro ⟨rfl, rfl⟩
      rw [ha] at hb
      cases hb
      exact hno ⟨rfl, rfl, rfl⟩
  · intro b hb
    rcases Finset.mem_insert.mp hb with rfl | hb
    · exact ⟨h.placed hf, by simp⟩
    · rcases h.held_inUse hb with ⟨hin, hn⟩
      refine ⟨hin, ?_⟩
      rw [Function.update_of_ne, hn]
      rintro rfl
      simp [hf] at hn
  · intro b hb
    by_cases hbf : b = f
    · exact .inr (by simp [hbf])
    · rw [Function.update_of_ne hbf]
      exact (h.inUse hb).imp_right Finset.mem_insert_of_mem
  · intro b r' q j hb hq hpres
    rw [writeEntry_tables] at hpres ⊢
    split_ifs at hpres ⊢
    · simp at hpres
    · exact h.upper (Forest.unplaced_cases hb).2 hq hpres
  · intro b r' q j hb hq hpres
    rw [writeEntry_tables] at hpres ⊢
    split_ifs at hpres ⊢
    · simp at hpres
    · exact h.leaves (Forest.unplaced_cases hb).2 hq hpres

theorem addRoot (h : Owned pol F c place held s) (hf : f ∈ held) (hm : f ∈ F ∨ f = pol.boot)
    (hchildless : ∀ j, pol.edge f [] j (s.tables f j) = none)
    (hplain : ∀ j, (s.tables f j).isPresent = true → pol.Upper f [] (s.tables f j)) :
    Owned pol F c (Function.update place f (some (f, []))) (held.erase f) s := by
  refine h.settle hf hm (h.forest.addRoot (h.held_inUse hf).2 hchildless fun _ _ => rfl) ?_ h.upper h.leaves
  intro j hpres
  constructor
  · intro _
    exact hplain j hpres
  · intro hlen
    cases hlen

/-- Outside slot 0 of the boot root every present entry above the leaves is a table link. -/
theorem follow_present (h : Owned pol F c place held s) (ha : place a = some (r, p)) (hp : p.length < 3)
    (hs : pol.Owns r p i) (hplain : r = pol.boot → p.head? ≠ some 0) (hpres : (s.tables a i).isPresent = true) :
    (s.tables a i).link = some (s.tables a i).physAddr ∧ place (s.tables a i).physAddr = some (r, p ++ [i]) := by
  have hhuge : (s.tables a i).isHuge = false := by
    by_contra hh
    rcases h.huge ha hp hpres (by simpa using hh) with ⟨hr, -, hhead⟩
    exact hplain hr hhead
  have hlink := PageTableEntry.link_eq_some.mpr ⟨hpres, hhuge, rfl⟩
  exact ⟨hlink, h.follow ha hp hs hlink⟩

/-- The outcomes of `map_page` on valid arguments. -/
theorem mapPage_cases (h : Owned pol F c place held s) (hr : place r = some (r, []))
    (hslot : pol.slot r v.pml4Index = true) (hboot : s.isBootstrapping = true → r = pol.boot)
    (hc : isCanonical v.addr = true) (ha : v.isAligned = true) {phys : PhysPage}
    (hp : phys.addr.toNat % pageSize = 0) (flags : PageTableFlags) :
    ∃ place' s₁, Owned pol F c place' held s₁ ∧ Grows pol r place place' s s₁ ∧
      (∀ {b r' q}, place' b = some (r', q) → place b = some (r', q) ∨ q <+: v.tablePath) ∧
      ((∃ pt, mapPage ⟨r⟩ v phys flags s = (.ok (), s₁.writeEntry pt v.ptIndex (.set phys.addr flags)) ∧
          place' pt = some (r, v.tablePath) ∧ (s₁.tables pt v.ptIndex).isPresent = false ∧
          lookup s.tables r v.path = none ∧
          (s.isBootstrapping = false →
            s₁.pmm.freeFrames.card + missing s.tables r v.tablePath = s.pmm.freeFrames.card)) ∨
        (mapPage ⟨r⟩ v phys flags s = (.error .alreadyMapped, s₁) ∧
          ((∃ e, lookup s.tables r v.path = some e) ∨ (r = pol.boot ∧ v.pml4Index = 0))) ∨
        (mapPage ⟨r⟩ v phys flags s = (.error .frameAllocationFailed, s₁) ∧
          (s.isBootstrapping = false → s.pmm.freeFrames.card < missing s.tables r v.tablePath))) := by
  have hroot : pol.Owns r [] v.pml4Index := fun _ => hslot
  rcases h.walkCreate_cases v.tablePath hr (by simp [VirtAddr.tablePath])
    (by simpa [VirtAddr.tablePath] using hroot) hboot with
    ⟨place', s₁, ho, hg, hnew, hres⟩
  refine ⟨place', s₁, ho, hg, hnew, ?_⟩
  rw [mapPage_eq _ _ _ _ _ hc ha hp]
  rcases hres with ⟨pt, hw, hpt, hcost⟩ | ⟨hw, hb, hhead, -⟩ | ⟨hw, hcost, -⟩
  · rw [List.nil_append] at hpt
    -- the leaf the walk arrives at is the one the page had before
    have hleaf : lookup s.tables r v.path =
        if (s₁.tables pt v.ptIndex).isPresent then some (s₁.tables pt v.ptIndex) else none := by
      have hsame := hg.lookup_eq (j := v.pml4Index) (q := [v.pdptIndex, v.pdIndex, v.ptIndex]) hr rfl hroot
      have hdown := ho.lookup_placed hpt (by simp [VirtAddr.tablePath]) v.ptIndex []
      change lookup s.tables r (v.pml4Index :: [v.pdptIndex, v.pdIndex, v.ptIndex]) = _
      rw [← hsame]
      exact hdown
    by_cases hpres : (s₁.tables pt v.ptIndex).isPresent = true
    · refine .inr (.inl ⟨by simp [hw, hpres], .inl ⟨s₁.tables pt v.ptIndex, ?_⟩⟩)
      rw [hleaf, if_pos hpres]
    · refine .inl ⟨pt, by simp [hw, hpres], hpt, by simpa using hpres, ?_, hcost⟩
      rw [hleaf, if_neg hpres]
  · refine .inr (.inl ⟨by simp [hw], .inr ⟨hb, ?_⟩⟩)
    simpa [VirtAddr.tablePath] using hhead
  · exact .inr (.inr ⟨by simp [hw], hcost⟩)

/-- The table that holds the leaf of a mapped page, when there is one. -/
theorem leaf_cases (h : Owned pol F c place held s) (hr : place r = some (r, []))
    (hslot : pol.slot r v.pml4Index = true) (hplain : r = pol.boot → v.pml4Index ≠ 0)
    (hc : isCanonical v.addr = true) :
    (∃ pt, place pt = some (r, v.tablePath) ∧ (s.tables pt v.ptIndex).isPresent = true ∧
      lookup s.tables r v.path = some (s.tables pt v.ptIndex) ∧
      translate s.tables ⟨r⟩ v =
        some (⟨(s.tables pt v.ptIndex).physAddr + v.pageOffset⟩, (s.tables pt v.ptIndex).flags) ∧
      (v.isAligned = true → unmapPage ⟨r⟩ v s =
        (.ok ⟨(s.tables pt v.ptIndex).physAddr⟩, s.writeEntry pt v.ptIndex .empty))) ∨
    (lookup s.tables r v.path = none ∧ translate s.tables ⟨r⟩ v = none ∧
      ∃ e, unmapPage ⟨r⟩ v s = (.error e, s)) := by
  have hroot : pol.Owns r [] v.pml4Index := fun _ => hslot
  have hbelow (q : Path) (hq : q ≠ []) (j : Fin 512) : pol.Owns r q j := fun hnil => absurd hnil hq
  have hstuck (e : UnmapError) (he : v.isAligned = true → unmapPage ⟨r⟩ v s = (.error e, s)) :
      ∃ e, unmapPage ⟨r⟩ v s = (.error e, s) := by
    by_cases ha : v.isAligned = true
    · exact ⟨e, he ha⟩
    · exact ⟨.unalignedVirtualAddress, by rw [unmapPage, if_neg (by simp [hc]), if_pos (by simpa using ha)]⟩
  have hpath : v.path = [v.pml4Index, v.pdptIndex, v.pdIndex, v.ptIndex] := rfl
  by_cases h4 : (s.tables r v.pml4Index).isPresent = true
  · rcases h.follow_present hr (by simp) hroot (by simp) h4 with ⟨hl4, hp4⟩
    by_cases h3 : (s.tables (s.tables r v.pml4Index).physAddr v.pdptIndex).isPresent = true
    · rcases h.follow_present hp4 (by simp) (hbelow _ (by simp) _) (by simpa using hplain) h3 with ⟨hl3, hp3⟩
      by_cases h2 : (s.tables (s.tables (s.tables r v.pml4Index).physAddr v.pdptIndex).physAddr v.pdIndex).isPresent = true
      · rcases h.follow_present hp3 (by simp) (hbelow _ (by simp) _) (by simpa using hplain) h2 with ⟨hl2, hp2⟩
        generalize hpt : (s.tables (s.tables (s.tables r v.pml4Index).physAddr v.pdptIndex).physAddr
          v.pdIndex).physAddr = pt at *
        by_cases h1 : (s.tables pt v.ptIndex).isPresent = true
        · refine .inl ⟨pt, hp2, h1, ?_, ?_, fun ha => ?_⟩
          · simp [hpath, lookup, hl4, hl3, hl2, h1]
          · simp [translate, hc, h4, h3, h2, hpt, h1]
          · simp [unmapPage, hc, ha, h4, h3, h2, hpt, h1]
        · refine .inr ⟨?_, ?_, hstuck .notMapped fun ha => ?_⟩
          · simp [hpath, lookup, hl4, hl3, hl2, h1]
          · simp [translate, hc, h4, h3, h2, hpt, h1]
          · simp [unmapPage, hc, ha, h4, h3, h2, hpt, h1]
      · have hn2 := PageTableEntry.link_of_not_present (by simpa using h2)
        refine .inr ⟨?_, ?_, hstuck .parentTableMissing fun ha => ?_⟩
        · simp [hpath, lookup, hl4, hl3, hn2]
        · simp [translate, hc, h4, h3, h2]
        · simp [unmapPage, hc, ha, h4, h3, h2]
    · have hn3 := PageTableEntry.link_of_not_present (by simpa using h3)
      refine .inr ⟨?_, ?_, hstuck .parentTableMissing fun ha => ?_⟩
      · simp [hpath, lookup, hl4, hn3]
      · simp [translate, hc, h4, h3]
      · simp [unmapPage, hc, ha, h4, h3]
  · have hn4 := PageTableEntry.link_of_not_present (by simpa using h4)
    refine .inr ⟨?_, ?_, hstuck .parentTableMissing fun ha => ?_⟩
    · simp [hpath, lookup, hn4]
    · simp [translate, hc, h4]
    · simp [unmapPage, hc, ha, h4]

theorem unmapPage_placed (h : Owned pol F c place held s) (howns : ∀ p i, pol.Owns r p i) (hc : isCanonical v.addr = true)
    (hal : v.isAligned = true) {pt : U64} (hpt : place pt = some (r, v.tablePath))
    (hpres : (s.tables pt v.ptIndex).isPresent = true) :
    unmapPage ⟨r⟩ v s = (.ok ⟨(s.tables pt v.ptIndex).physAddr⟩, s.writeEntry pt v.ptIndex .empty) := by
  -- climb from the page table to the root: each parent holds a link
  rcases h.forest.parent (show place pt = some (r, [v.pml4Index, v.pdptIndex] ++ [v.pdIndex]) from hpt) with
    ⟨pd, hpd, he2⟩
  rcases h.forest.parent (show place pd = some (r, [v.pml4Index] ++ [v.pdptIndex]) from hpd) with ⟨pdpt, hpdpt, he3⟩
  rcases h.forest.parent (show place pdpt = some (r, [] ++ [v.pml4Index]) from hpdpt) with ⟨root, hroot, he4⟩
  rw [h.forest.root_self hroot] at he4
  rw [Policy.edge_table (by simp) (howns _ _), PageTableEntry.link_eq_some] at he2 he3 he4
  rcases he4 with ⟨h4, -, e4⟩
  rcases he3 with ⟨h3, -, e3⟩
  rcases he2 with ⟨h2, -, e2⟩
  simp [unmapPage, hc, hal, h4, e4, h3, e3, h2, e2, hpres]

end Owned
end VenturaOS.Paging
