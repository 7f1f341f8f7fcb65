import VenturaOS.Vmm.Init
import VenturaOS.Vmm.RegionCalls

/-!
# The low 4 GiB

Step 0 of `vmm::init` covers physical memory below 4 GiB with large pages. It
needs six tables of the static pool, and the frames of the page allocator all
lie below these pages.
-/
namespace VenturaOS.Vmm
open Library Memory Pmm Paging

section

variable {k : U64} {F : Finset U64} {c : ℕ} {place place' : Placement} {held : Finset U64} {s s' : PageMemory}

/-- Setting a large page in slot 0 of the kernel root, over no table. -/
theorem writeHuge (h : Owned (kernelPolicy k F) F c place held s) {a : U64} {p : Path} {i : Fin 512}
    (ha : place a = some (k, p)) (hp : p.length = 2) (hhead : p.head? = some 0) (hold : (s.tables a i).link = none)
    {e : PageTableEntry} (hnew : e.link = none) (hw : e.isWritable = true) :
    Owned (kernelPolicy k F) F c place held (s.writeEntry a i e) := by
  refine h.writeEdge ha ?_ (fun _ _ => ⟨hw, fun _ => ⟨rfl, hp, hhead⟩⟩) fun hlen => ?_
  · rw [Policy.edge_table (by omega) (kernel_owns _ _), Policy.edge_table (by omega) (kernel_owns _ _), hold, hnew]
  · omega

/-- Ownership does not depend on where new tables come from. -/
theorem setMode (h : Owned (kernelPolicy k F) F c place held s) (b : Bool) :
    Owned (kernelPolicy k F) F c place held { s with isBootstrapping := b } :=
  { h with pool := ⟨h.pool.aligned, h.pool.addressable, h.pool.outside, h.pool.index_le⟩ }

end

/-- The paths of the tables over the low 4 GiB. -/
def lowPaths : Finset Path := {[], [0], [0, 0], [0, 1], [0, 2], [0, 3]}

/-- After `n` iterations of step 0. -/
structure LowInv (k : U64) (F : Finset U64) (c : ℕ) (s₀ : PageMemory) (n : ℕ) (place : Placement)
    (s : PageMemory) : Prop where
  owned : Owned (kernelPolicy k F) F c place ∅ s
  root : place k = some (k, [])
  mode : s₀.isBootstrapping = true
  since : SameBoot s₀ s
  pmm : s.pmm = s₀.pmm
  paths : ∀ {a r p}, place a = some (r, p) → r = k ∧ p ∈ lowPaths
  done : ∀ i3 i2 : Fin 512, i3.val * 512 + i2.val < n → LowPage k place s i3 i2

/-- Six pool tables are enough for step 0. -/
theorem bootstrapIndex_le {k : U64} {F : Finset U64} {c : ℕ} {place : Placement} {s : PageMemory}
    (h : Owned (kernelPolicy k F) F c place ∅ s)
    (hpaths : ∀ {a r p}, place a = some (r, p) → r = k ∧ p ∈ lowPaths) : s.bootstrapIndex ≤ 6 := by
  have hplaced (n : ℕ) (hn : n < s.bootstrapIndex) : ∃ p ∈ lowPaths, place (s.poolTable n) = some (k, p) := by
    rcases h.inUse (.inr ⟨n, hn, rfl⟩) with hp | hp
    · rcases Option.ne_none_iff_exists'.mp hp with ⟨⟨r, p⟩, hx⟩
      rcases hpaths hx with ⟨rfl, hmem⟩
      exact ⟨p, hmem, hx⟩
    · simp at hp
  have hcard := Finset.card_le_card_of_injOn (s := Finset.range s.bootstrapIndex) (t := lowPaths)
    (fun n => ((place (s.poolTable n)).map Prod.snd).getD []) ?_ ?_
  · simpa [lowPaths] using hcard
  · intro n hn
    rcases hplaced n (Finset.mem_range.mp hn) with ⟨p, hp, hx⟩
    simpa [hx] using hp
  · intro n hn m hm he
    have hn' := Finset.mem_range.mp hn
    have hm' := Finset.mem_range.mp hm
    rcases hplaced n hn' with ⟨p, -, hx⟩
    rcases hplaced m hm' with ⟨q, -, hy⟩
    simp only [hx, hy, Option.map_some, Option.getD_some] at he
    subst he
    have hle := h.pool.index_le
    exact h.pool.inj (by omega) (by omega) (h.forest.place_inj hx hy)

section LowMemory

variable {k : U64} {F : Finset U64} {c n : ℕ} {place : Placement} {s₀ s : PageMemory}

theorem lowPage_index {n : ℕ} (hn : n < 2048) {v : VirtAddr} (ht : v.addr.toNat = n * 0x200000) :
    isCanonical v.addr = true ∧ v.pml4Index = 0 ∧ v.pdptIndex.val = n / 512 ∧ v.pdIndex.val = n % 512 := by
  refine ⟨?_, ?_, ?_, ?_⟩
  · rw [isCanonical_iff]
    omega
  · rw [Fin.ext_iff, VirtAddr.pml4Index, VirtAddr.index_val, ht]
    simp only [Fin.val_zero]
    omega
  · rw [VirtAddr.pdptIndex, VirtAddr.index_val, ht]
    omega
  · rw [VirtAddr.pdIndex, VirtAddr.index_val, ht]
    omega

theorem lowPath_of_prefix {i3 : Fin 512} (hi : i3.val < 4) {q : Path} (hq : q <+: [0, i3]) : q ∈ lowPaths := by
  have h3 : i3 = 0 ∨ i3 = 1 ∨ i3 = 2 ∨ i3 = 3 := by
    simp only [Fin.ext_iff]
    have h1 : (1 : Fin 512).val = 1 := rfl
    have h2 : (2 : Fin 512).val = 2 := rfl
    have h3 : (3 : Fin 512).val = 3 := rfl
    simp only [Fin.val_zero, h1, h2, h3]
    omega
  simp only [List.prefix_cons_iff, List.prefix_nil] at hq
  simp only [lowPaths, Finset.mem_insert, Finset.mem_singleton]
  rcases hq with rfl | ⟨t, rfl, rfl | ⟨t, rfl, rfl⟩⟩
  · simp
  · simp
  · rcases h3 with rfl | rfl | rfl | rfl <;> simp

theorem lowPaths_length {p : Path} (hp : p ∈ lowPaths) : p.length ≤ 2 := by
  simp only [lowPaths, Finset.mem_insert, Finset.mem_singleton] at hp
  rcases hp with rfl | rfl | rfl | rfl | rfl | rfl <;> simp

/-- One iteration of step 0. -/
theorem LowInv.mapHuge (h : LowInv k F c s₀ n place s) (hn : n < 2048) {a : U64} (ha : a.toNat = n * 0x200000) :
    ∃ place' result s', map2mbHugePage ⟨k⟩ ⟨a⟩ ⟨a⟩ PageTableFlags.table s = (result, s') ∧
      LowInv k F c s₀ (n + 1) place' s' := by
  generalize hv : (⟨a⟩ : VirtAddr) = v
  rcases lowPage_index (v := v) hn (by rw [← hv]; exact ha) with ⟨hc, h4, h3, h2⟩
  have hsmall : v.pdptIndex.val < 4 := by omega
  have hmode : s.isBootstrapping = true := h.since.mode.trans h.mode
  rw [map2mbHugePage_eq _ _ _ _ _ hc, h4]
  rcases h.owned.walkCreate_cases [0, v.pdptIndex] h.root (by simp) (by simpa using kernel_owns [] 0)
    (fun _ => rfl) with ⟨place', s', ho, hg, hnew, hres⟩
  have hpaths {a r p} (ha : place' a = some (r, p)) : r = k ∧ p ∈ lowPaths := by
    rcases hg.fresh ha with hold | ⟨-, rfl, -⟩
    · exact h.paths hold
    · rcases hnew ha with hold | hprefix
      · exact h.paths hold
      · exact ⟨rfl, lowPath_of_prefix hsmall (by simpa using hprefix)⟩
  -- a table link below depth two would place a table too deep
  have hnolink {b p} {i : Fin 512} (hb : place' b = some (k, p)) (hp : p.length = 2) :
      (s'.tables b i).link = none := by
    cases hl : (s'.tables b i).link with
    | none => rfl
    | some b =>
      have hdeep := lowPaths_length (hpaths (ho.follow hb (by omega) (kernel_owns _ _) hl)).2
      rw [List.length_append, List.length_singleton] at hdeep
      omega
  have hidx := bootstrapIndex_le ho hpaths
  rcases hres with ⟨pd, hw, hpd, -⟩ | ⟨-, -, -, hlen⟩ | ⟨-, -, hfull⟩
  · rw [List.nil_append] at hpd
    simp only [hw]
    refine ⟨place', _, _, rfl, writeHuge ho hpd rfl rfl (hnolink hpd rfl) (largeEntry_link a) (largeEntry_isWritable a), hg.kept h.root,
      h.mode, h.since.trans (hg.boot.trans ⟨rfl, rfl, rfl⟩), (hg.pmm hmode).trans h.pmm, hpaths, ?_⟩
    intro i3 i2 hi
    by_cases hlast : i3.val * 512 + i2.val = n
    · have e3 : i3 = v.pdptIndex := Fin.ext (by omega)
      have e2 : i2 = v.pdIndex := Fin.ext (by omega)
      refine ⟨pd, a, by rw [e3, hpd], ?_, by rw [ha, hlast]⟩
      rw [writeEntry_tables, if_pos ⟨rfl, e2⟩]
      rfl
    · rcases (h.done i3 i2 (by omega)).grows hg with ⟨pd', a', hpd', he', ha'⟩
      refine ⟨pd', a', hpd', ?_, ha'⟩
      rw [writeEntry_tables, if_neg]
      · exact he'
      · rintro ⟨rfl, rfl⟩
        rw [hpd] at hpd'
        have e3 : i3 = v.pdptIndex := by
          simp only [Option.some.injEq, Prod.mk.injEq, List.cons.injEq, and_true, true_and] at hpd'
          exact hpd'.symm
        subst e3
        omega
  · simp at hlen
  · have hexhausted := hfull hmode
    unfold bootstrapTableCount at hexhausted
    omega

theorem lowPageAddr_toNat {n : ℕ} (hn : n < 2048) : (lowPageAddr n).toNat = n * 0x200000 := by
  rw [lowPageAddr, BitVec.toNat_ofNat]
  omega

theorem LowInv.step (h : LowInv k F c s₀ n place s) (hn : n < 2048) {a : U64} (ha : a.toNat = n * 0x200000) :
    ∃ place', LowInv k F c s₀ (n + 1) place' (mapLowPage ⟨k⟩ s a) := by
  rcases h.mapHuge hn ha with ⟨place', result, s', he, h'⟩
  refine ⟨place', ?_⟩
  rw [mapLowPage, he]
  exact h'

theorem LowInv.run (h : LowInv k F c s₀ 0 place s) (n : ℕ) (hn : n ≤ 2048) :
    ∃ place', LowInv k F c s₀ n place' (((List.range n).map lowPageAddr).foldl (mapLowPage ⟨k⟩) s) := by
  induction n with
  | zero => exact ⟨place, h⟩
  | succ n ih =>
    rcases ih (by omega) with ⟨place₁, h₁⟩
    rcases h₁.step (by omega) (lowPageAddr_toNat (by omega)) with ⟨place₂, h₂⟩
    refine ⟨place₂, ?_⟩
    rw [List.range_succ, List.map_append, List.foldl_append, List.map_cons, List.map_nil, List.foldl_cons,
      List.foldl_nil]
    exact h₂

theorem LowInv.mapLowMemory (h : LowInv k F c s₀ 0 place s) :
    ∃ place', LowInv k F c s₀ 2048 place' (Vmm.mapLowMemory ⟨k⟩ s) := by
  rw [Vmm.mapLowMemory]
  exact h.run 2048 le_rfl

end LowMemory
end VenturaOS.Vmm
