import VenturaOS.Heap.FirstFit
import VenturaOS.Paging.Refinement
import VenturaOS.Vmm.Obstacles
import VenturaOS.Vmm.Supply

/-!
# When the heap can grow

Growth asks for the pages right behind the heap. It fails when one of them is
mapped or frames run short, and with four frames to spare for page tables
nothing else stops it.
-/
namespace VenturaOS.Heap
open Library Memory Pmm Paging Vmm

/-- The pages a growth by `n` pages would take. -/
def growthPages (h : HeapState) (n : ℕ) : List VirtAddr := pagesFrom (BitVec.ofNat 64 h.currentEnd) n

/-- Why a growth by `n` pages cannot succeed: too many pages, too few frames, or a page that is mapped already. -/
def GrowthBlocked (k : Kernel) (n : ℕ) : Prop :=
  maxFrames < n ∨ k.mem.pmm.freeSet.card < n ∨ ∃ v ∈ growthPages k.heap n,
    MappedBelow k.mem k.rootPml4.addr v.path ∨
      (InOrder k ∧ k.mem.pmm.freeSet.card < n + missing k.mem.tables k.rootPml4.addr v.tablePath)

section

variable {k k' : Kernel} {needed n : ℕ} {v : VirtAddr} {mem : PageMemory} {l : List Block}

theorem mem_zip_pages {start : U64} {frames : List PhysPage} (hlen : frames.length = n) (hv : v ∈ pagesFrom start n) :
    ∃ phys, (v, phys) ∈ (pagesFrom start n).zip frames := by
  have hfst : ((pagesFrom start n).zip frames).map Prod.fst = pagesFrom start n :=
    List.map_fst_zip (by rw [pagesFrom_length, hlen])
  rw [← hfst] at hv
  obtain ⟨⟨w, phys⟩, hx, rfl⟩ := List.mem_map.mp hv
  exact ⟨phys, hx⟩

theorem mapFresh_ok {root : PhysPage} {flags : PageTableFlags} {start : U64} {s : PageMemory}
    (h : mapFresh root flags start n s = (true, mem)) : ∃ frames s₁, allocateFrames n [] s = (some frames, s₁) ∧
      mapPages root flags [] ((pagesFrom start n).zip frames) s₁ = (true, mem) := by
  unfold mapFresh at h
  generalize allocateFrames n [] s = taken at h ⊢
  rcases taken with ⟨_ | frames, s₁⟩
  · cases h
  · dsimp only at h
    generalize hmap : mapPages root flags [] ((pagesFrom start n).zip frames) s₁ = result at h
    rcases result with ⟨_ | _, s₂⟩
    · cases h
    · cases h
      exact ⟨frames, s₁, rfl, hmap⟩

theorem mapFresh_of {root : PhysPage} {flags : PageTableFlags} {start : U64} {s s₁ s' : PageMemory} {frames : List PhysPage}
    (htaken : allocateFrames n [] s = (some frames, s₁))
    (hmap : mapPages root flags [] ((pagesFrom start n).zip frames) s₁ = (true, s')) :
    mapFresh root flags start n s = (true, s') := by
  unfold mapFresh
  rw [htaken]
  dsimp only
  rw [hmap]

theorem expandHeap_grew (h : expandHeap needed k = some (true, k')) :
    pagesToAlloc needed ≤ maxFrames ∧ ∃ mem, mapFresh k.rootPml4 VirtPermissions.kernelData.toPageFlags
      (BitVec.ofNat 64 k.heap.currentEnd) (pagesToAlloc needed) k.mem = (true, mem) ∧
      registerPages (pagesToAlloc needed) { k with mem := mem } = some k' := by
  unfold expandHeap at h
  dsimp only at h
  split_ifs at h with hmax
  · cases h
  · generalize mapFresh k.rootPml4 VirtPermissions.kernelData.toPageFlags (BitVec.ofNat 64 k.heap.currentEnd)
      (pagesToAlloc needed) k.mem = result at h ⊢
    rcases result with ⟨_ | _, mem⟩
    · cases h
    · obtain ⟨k₁, hreg, he⟩ := Option.map_eq_some_iff.mp h
      cases he
      exact ⟨not_lt.mp hmax, mem, rfl, hreg⟩

theorem mapFresh_mode (root : PhysPage) (flags : PageTableFlags) (start : U64) (n : ℕ) {s : PageMemory}
    (hmode : s.isBootstrapping = false) : (mapFresh root flags start n s).2.isBootstrapping = false := by
  unfold mapFresh
  have htaken := allocateFrames_mode n [] s
  generalize allocateFrames n [] s = taken at htaken
  rcases taken with ⟨_ | frames, s₁⟩
  · exact htaken.trans hmode
  · have hmap := mapPages_mode root flags ((pagesFrom start n).zip frames) [] (htaken.trans hmode)
    dsimp only at hmap ⊢
    generalize mapPages root flags [] ((pagesFrom start n).zip frames) s₁ = result at hmap
    rcases result with ⟨_ | _, s₂⟩
    · exact (discardAll_mode frames s₂).trans hmap
    · exact hmap

/-- A growth that fails leaves everything but the page tables alone. -/
theorem expandHeap_failed (h : expandHeap needed k = some (false, k')) : k' = { k with mem := k'.mem } := by
  unfold expandHeap at h
  dsimp only at h
  split_ifs at h with hmax
  · cases h
    rfl
  · generalize mapFresh k.rootPml4 VirtPermissions.kernelData.toPageFlags (BitVec.ofNat 64 k.heap.currentEnd)
      (pagesToAlloc needed) k.mem = result at h
    rcases result with ⟨_ | _, mem⟩
    · cases h
      rfl
    · obtain ⟨k₁, -, he⟩ := Option.map_eq_some_iff.mp h
      cases he

theorem expandHeap_mode {grew : Bool} (hmode : k.mem.isBootstrapping = false)
    (h : expandHeap needed k = some (grew, k')) : k'.mem.isBootstrapping = false := by
  cases grew with
  | true =>
    obtain ⟨-, mem, hfresh, hreg⟩ := expandHeap_grew h
    have hfm := mapFresh_mode k.rootPml4 VirtPermissions.kernelData.toPageFlags (BitVec.ofNat 64 k.heap.currentEnd)
      (pagesToAlloc needed) hmode
    rw [hfresh] at hfm
    rw [(registerPages_cases hreg).2.1]
    exact hfm
  | false =>
    unfold expandHeap at h
    dsimp only at h
    split_ifs at h with hmax
    · cases h
      exact hmode
    · have hfm := mapFresh_mode k.rootPml4 VirtPermissions.kernelData.toPageFlags (BitVec.ofNat 64 k.heap.currentEnd)
        (pagesToAlloc needed) hmode
      generalize mapFresh k.rootPml4 VirtPermissions.kernelData.toPageFlags (BitVec.ofNat 64 k.heap.currentEnd)
        (pagesToAlloc needed) k.mem = result at h hfm
      rcases result with ⟨_ | _, mem⟩
      · cases h
        exact hfm
      · obtain ⟨k₁, -, he⟩ := Option.map_eq_some_iff.mp h
        cases he

/-- A growth that succeeds was not blocked. -/
theorem expandHeap_unblocked (hmode : k.mem.isBootstrapping = false) (h : expandHeap needed k = some (true, k')) :
    ¬ GrowthBlocked k (pagesToAlloc needed) := by
  obtain ⟨hmax, mem, hfresh, -⟩ := expandHeap_grew h
  obtain ⟨frames, s₁, htaken, hmap⟩ := mapFresh_ok hfresh
  obtain ⟨hspares, htab, hlen, hcard⟩ := allocateFrames_spares htaken
  rw [List.length_nil, Nat.zero_add] at hlen
  rintro (hmany | hfew | ⟨v, hv, hmapped | ⟨horder, hshort⟩⟩)
  · omega
  · omega
  · obtain ⟨phys, hx⟩ := mem_zip_pages hlen hv
    exact mapPages_unmapped (hspares.mode.trans hmode) hmap _ hx (hmapped.spares hspares)
  · obtain ⟨phys, hx⟩ := mem_zip_pages hlen hv
    obtain ⟨F, c, place, held, ho, hroot, -⟩ := horder
    have h₀ : Owned (tablePolicy k.rootPml4.addr) F c place (held ∪ addrs []) k.mem := by simpa using ho
    rcases allocateFrames_cases (pagesToAlloc needed) [] h₀ (.nil F held) with
      ⟨frames', s', he, -, -, ho', -, hsame, hleft⟩ | ⟨s', he, -⟩
    · rw [htaken] at he
      cases he
      have hle := mapPages_supplied ho' hroot (hsame.mode.trans hmode) hmap _ hx
      rw [htab] at hle
      rw [← freeFrames_card ho.frames.bound] at hshort
      dsimp only at hle
      omega
    · rw [htaken] at he
      cases he

theorem Rep.expandHeap_ok (hr : Rep k.heap k.bytes l) (hend : k.heap.currentEnd + 0x80000 < 2 ^ 64)
    (hn : pagesToAlloc needed ≤ maxFrames)
    (hfresh : mapFresh k.rootPml4 VirtPermissions.kernelData.toPageFlags (BitVec.ofNat 64 k.heap.currentEnd)
      (pagesToAlloc needed) k.mem = (true, mem)) : ∃ k', Heap.expandHeap needed k = some (true, k') := by
  rcases hr.expandHeap needed hend with ⟨k', he, -⟩ | ⟨k', -, he, -⟩
  · exfalso
    unfold Heap.expandHeap at he
    dsimp only at he
    rw [if_neg (not_lt.mpr hn), hfresh] at he
    obtain ⟨k₁, -, hbad⟩ := Option.map_eq_some_iff.mp he
    cases hbad
  · exact ⟨k', he⟩

/-- With the pages vacant and four frames to spare, the heap grows. -/
theorem Rep.expandHeap_supplied {F : Finset U64} {c : ℕ} {place : Placement} {held : Finset U64}
    (hr : Rep k.heap k.bytes l) (hend : k.heap.currentEnd + 0x80000 < 2 ^ 64)
    (h : Owned (tablePolicy k.rootPml4.addr) F c place held k.mem)
    (hroot : place k.rootPml4.addr = some (k.rootPml4.addr, [])) (hmode : k.mem.isBootstrapping = false)
    (hslots : UpperSlots k.rootPml4.addr k.mem)
    (hpages : UpperPages (BitVec.ofNat 64 k.heap.currentEnd) (pagesToAlloc needed))
    (hn : pagesToAlloc needed ≤ maxFrames)
    (hvac : ∀ v ∈ growthPages k.heap (pagesToAlloc needed), reach k.mem.tables k.rootPml4.addr v.path = none)
    (hfree : pagesToAlloc needed + 4 ≤ k.mem.pmm.freeFrames.card) : ∃ k', Heap.expandHeap needed k = some (true, k') := by
  have hmany : pagesToAlloc needed ≤ 128 := by
    unfold maxFrames at hn
    exact hn
  have hpage : (⟨k.rootPml4.addr⟩ : PhysPage) = k.rootPml4 := rfl
  unfold growthPages at hvac
  obtain ⟨frames, s₁, s', htaken, hmap, -⟩ := takeAndMap_ok VirtPermissions.kernelData.toPageFlags h hroot hmode hslots
    hpages hmany hvac hfree
  rw [hpage] at hmap
  exact hr.expandHeap_ok hend hn (mapFresh_of htaken hmap)

/-- With four frames to spare, the heap grows exactly when nothing is mapped behind it. -/
theorem Rep.expandHeap_iff {F : Finset U64} {c : ℕ} {place : Placement} {held : Finset U64} (hr : Rep k.heap k.bytes l)
    (hend : k.heap.currentEnd + 0x80000 < 2 ^ 64) (h : Owned (kernelPolicy k.rootPml4.addr F) F c place held k.mem)
    (hroot : place k.rootPml4.addr = some (k.rootPml4.addr, [])) (hmode : k.mem.isBootstrapping = false)
    (hslots : UpperSlots k.rootPml4.addr k.mem)
    (hpages : UpperPages (BitVec.ofNat 64 k.heap.currentEnd) (pagesToAlloc needed)) (hn : pagesToAlloc needed ≤ maxFrames)
    (hfree : pagesToAlloc needed + 4 ≤ k.mem.pmm.freeFrames.card) :
    (∃ k', Heap.expandHeap needed k = some (true, k')) ↔
      ∀ v ∈ growthPages k.heap (pagesToAlloc needed), translate k.mem.tables k.rootPml4 v = none := by
  have hslot {v : VirtAddr} (hv : v ∈ growthPages k.heap (pagesToAlloc needed)) :
      isCanonical v.addr = true ∧ v.pml4Index ≠ 0 := by
    have hpage := hpages.page hv
    refine ⟨hpage.1, fun hzero => ?_⟩
    have hup := hpage.2.2
    rw [hzero] at hup
    simp at hup
  constructor
  · rintro ⟨k', hrun⟩ v hv
    -- a mapped page would have stopped the growth
    by_contra hbad
    rcases h.leaf_cases hroot (kernel_slot _) (fun _ => (hslot hv).2) (hslot hv).1 with ⟨pt, hpt, hpres, -⟩ | ⟨-, hnone, -⟩
    · apply expandHeap_unblocked hmode hrun
      refine .inr (.inr ⟨v, hv, .inl ?_⟩)
      exact mappedBelow_of_placed h hroot hpt v.tablePath_length (fun _ => kernel_slot _) hpres
    · exact hbad hnone
  · intro hnone
    obtain ⟨place₀, held₀, ho, hplace⟩ := forget_leaves h
    have hroot₀ : place₀ k.rootPml4.addr = some (k.rootPml4.addr, []) := (hplace _ _ _).mpr ⟨hroot, by simp⟩
    refine hr.expandHeap_supplied hend ho hroot₀ hmode hslots hpages hn (fun v hv => ?_) hfree
    rcases h.leaf_cases hroot (kernel_slot _) (fun _ => (hslot hv).2) (hslot hv).1 with ⟨pt, -, -, -, ht, -⟩ | ⟨hlook, -⟩
    · rw [hnone v hv] at ht
      cases ht
    · have hhead : k.rootPml4.addr = (kernelPolicy k.rootPml4.addr F).boot → ([] ++ v.path).head? ≠ some 0 := by
        intro _ hzero
        exact (hslot hv).2 (Option.some.inj hzero)
      exact reach_of_lookup h hroot v.path_length (by simp) (fun _ => kernel_slot _) hhead hlook

end
end VenturaOS.Heap
