import VenturaOS.Machine.Steps
import VenturaOS.Vmm.RegionFailure

/-!
# Growths and mappings that fail

Whatever page is refused, a growth of the heap or a `map_region` that gives
up leaves every translation, the heap and the region table as they were. Of
the frames only those that became tables on the way are gone.
-/
namespace VenturaOS.Machine
open Library Memory Pmm Paging Vmm AddressSpaces

/-- A run of the system, and then any calls that reserve, map and grow, with any arguments. -/
inductive Reached (info : BootInfo) : Kernel → Prop
  | system {y : System} : Reachable info y → Reached info y.kernel
  | reserve {k : Kernel} (size : U64) (permissions : VirtPermissions) (purpose : RegionPurpose) : Reached info k →
      Reached info { k with vmm := (reserveVirtualRegion size permissions purpose k.vmm).2 }
  | unregister {k : Kernel} (start : VirtAddr) : Reached info k →
      Reached info { k with vmm := (unregisterRegion start k.vmm).2 }
  | mapRegion {k : Kernel} (region : VirtRegion) (pages : List PhysPage) : Reached info k →
      Reached info (Vmm.mapRegion region pages k).2
  | allocateAndMap {k : Kernel} (size : U64) (permissions : VirtPermissions) (purpose : RegionPurpose) :
      Reached info k → Reached info (allocateAndMapRegion size permissions purpose k).2
  | heapExpand {k k' : Kernel} {n : ℕ} {grew : Bool} : Reached info k → Heap.expandHeap n k = some (grew, k') →
      Reached info k'
  | heapAllocate {k k' : Kernel} {layout : Heap.Layout} {p : ℕ} : Reached info k →
      Heap.allocate layout k = some (p, k') → Reached info k'
  | heapDeallocate {k : Kernel} (p : ℕ) (layout : Heap.Layout) : Reached info k →
      Reached info (Heap.deallocate p layout k)

section

variable {info : BootInfo} {k k' : Kernel}

theorem mapFresh_inOrder (h : InOrder k) {n : ℕ} (hn : n * 4096 ≤ 2 ^ 64) (start : U64) :
    ∃ ok mem, Heap.mapFresh k.rootPml4 VirtPermissions.kernelData.toPageFlags start n k.mem = (ok, mem) ∧
      InOrder { k with mem := mem } ∧ (ok = false → RolledBack k { k with mem := mem }) ∧
      Keeps k.rootPml4.addr k.mem mem := by
  rcases h with ⟨F, c, place, held, ho, hroot, hmode⟩
  rcases takeAndMap_tables ho hroot hmode VirtPermissions.kernelData.toPageFlags_ok.1 start hn with
    ⟨s', htaken, ho', hmode', hwalks, -, -⟩ | ⟨l, s₁, htaken, -, hmapped⟩
  · refine ⟨false, s', by rw [Heap.mapFresh, htaken], ⟨F, c, place, held, ho', hroot, hmode'⟩, fun _ => ?_, hwalks.keeps⟩
    exact ⟨rfl, rfl, rfl, rfl, hwalks.walk, (Extends.refl _ place).onlyNewTables ho ho'⟩
  · rcases hmapped with ⟨place', s', hmap, ho', hext, hmode', hadds⟩ | ⟨place', s', hmap, ho', hext, hmode', hwalks, -⟩
    · have hrun : Heap.mapFresh k.rootPml4 VirtPermissions.kernelData.toPageFlags start n k.mem = (true, s') := by
        rw [Heap.mapFresh, htaken]
        simp only
        rw [hmap]
      exact ⟨true, s', hrun, ⟨F, c, place', _, ho', hext.kept hroot, hmode'⟩, by simp, hadds.keeps⟩
    · have hrun : Heap.mapFresh k.rootPml4 VirtPermissions.kernelData.toPageFlags start n k.mem =
          (false, l.foldl discardFree s') := by
        rw [Heap.mapFresh, htaken]
        simp only
        rw [hmap]
      refine ⟨false, _, hrun, ⟨F, c, place', held, ho', hext.kept hroot, hmode'⟩, fun _ => ?_, hwalks.keeps⟩
      exact ⟨rfl, rfl, rfl, rfl, hwalks.walk, hext.onlyNewTables ho ho'⟩

theorem expandHeap_inOrder (h : InOrder k) {n : ℕ} {grew : Bool} (hrun : Heap.expandHeap n k = some (grew, k')) :
    InOrder k' ∧ (grew = false → RolledBack k k') ∧ Keeps k.rootPml4.addr k.mem k'.mem := by
  unfold Heap.expandHeap at hrun
  simp only at hrun
  split_ifs at hrun with hmax
  · cases hrun
    exact ⟨h, fun _ => .refl k, .refl _ _⟩
  · have hn : Heap.pagesToAlloc n * 4096 ≤ 2 ^ 64 := by
      unfold maxFrames at hmax
      omega
    rcases mapFresh_inOrder h hn (BitVec.ofNat 64 k.heap.currentEnd) with ⟨ok, mem, hmap, horder, hfail, hkeeps⟩
    rw [hmap] at hrun
    cases ok with
    | false =>
      cases hrun
      exact ⟨horder, fun _ => hfail rfl, hkeeps⟩
    | true =>
      rcases Option.map_eq_some_iff.mp hrun with ⟨k₁, hreg, he⟩
      cases he
      rcases Heap.registerPages_cases hreg with ⟨hout, hmem, -⟩
      exact ⟨horder.same hout.root hmem, by simp, by rw [hmem]; exact hkeeps⟩

theorem Inv.inOrder {place : Placement} {y : System} (h : Inv info place y) : InOrder y.kernel := by
  obtain ⟨place₀, held₀, ho, hplace⟩ := forget_leaves h.tables.owned
  exact ⟨_, _, place₀, held₀, ho, (hplace _ _ _).mpr ⟨h.tables.rooted, by simp⟩, h.tables.mode⟩

theorem Reached.inOrder (hload : info.Loaded) (h : Reached info k) : InOrder k := by
  induction h with
  | system hy =>
    obtain ⟨place, hinv⟩ := hy.inv hload
    exact hinv.inOrder
  | reserve _ _ _ _ ih => exact ih.same rfl rfl
  | unregister _ _ ih => exact ih.same rfl rfl
  | mapRegion region pages _ ih => exact (ih.mapRegion region pages).1
  | allocateAndMap size permissions purpose _ ih => exact (ih.allocateAndMap size permissions purpose).1
  | heapExpand _ hrun ih => exact (expandHeap_inOrder ih hrun).1
  | heapAllocate _ hrun ih =>
    rcases Heap.allocate_frames hrun with hf | ⟨grew, k₁, -, hexp, hf⟩
    · exact ih.same hf.outside.root hf.mem
    · exact (expandHeap_inOrder ih hexp).1.same hf.outside.root hf.mem
  | heapDeallocate p layout _ ih =>
    have hf := Heap.deallocate_frames p layout ‹Kernel›
    exact ih.same hf.outside.root hf.mem

/-- A growth that returns `false` and a `map_region` that returns an error undo what they did. -/
theorem failed_mapping_rolls_back (hload : info.Loaded) (h : Reached info k) :
    (∀ n k', Heap.expandHeap n k = some (false, k') → RolledBack k k') ∧
      ∀ region pages e k', Vmm.mapRegion region pages k = (.error e, k') → RolledBack k k' := by
  have horder := h.inOrder hload
  refine ⟨fun n k' hrun => (expandHeap_inOrder horder hrun).2.1 rfl, fun region pages e k' hrun => ?_⟩
  have hback := (horder.mapRegion region pages).2 e
  rw [hrun] at hback
  exact hback rfl

end

/-- The last page of the lower half and the one behind it, which is no address. -/
def brokenRegion : VirtRegion := ⟨⟨0x7FFFFFFFF000#64⟩, 0x2000#64, .kernelData, .dynamicKernel, false⟩

/-- The second page is refused after the first may have been mapped. -/
theorem brokenRegion_fails (p q : PhysPage) (k : Kernel) :
    ∃ k', Vmm.mapRegion brokenRegion [p, q] k = (.error .pageTableMappingFailed, k') := by
  have hcount : brokenRegion.pageCount = 2 := by decide
  have hsecond (s : PageMemory) : Paging.mapPage k.rootPml4 ⟨0x800000000000#64⟩ q brokenRegion.permissions.toPageFlags s =
      (.error .nonCanonicalAddress, s) := by
    unfold Paging.mapPage
    rw [if_pos (by decide)]
  have hpages : (pagesFrom brokenRegion.start.addr 2).zip [p, q] =
      [(⟨0x7FFFFFFFF000#64⟩, p), (⟨0x800000000000#64⟩, q)] := rfl
  unfold Vmm.mapRegion
  rw [hcount, if_neg (by simp), hpages, mapPages]
  generalize Paging.mapPage k.rootPml4 ⟨0x7FFFFFFFF000#64⟩ p brokenRegion.permissions.toPageFlags k.mem = first
  rcases first with ⟨e | ⟨⟩, s⟩
  · exact ⟨_, rfl⟩
  · simp only [List.nil_append, mapPages, hsecond]
    exact ⟨_, rfl⟩

theorem sample_rolls_back : ∃ k k', Reached sampleInfo k ∧
    Vmm.mapRegion brokenRegion [⟨0xFEE00000#64⟩, ⟨0xFEC00000#64⟩] k = (.error .pageTableMappingFailed, k') ∧
    RolledBack k k' := by
  rcases sampleInfo_boots with ⟨k, hk⟩
  have hreached : Reached sampleInfo k := .system (y := .start k) ⟨k, [], hk, .nil _⟩
  rcases brokenRegion_fails ⟨0xFEE00000#64⟩ ⟨0xFEC00000#64⟩ k with ⟨k', hrun⟩
  exact ⟨k, k', hreached, hrun, (failed_mapping_rolls_back sampleInfo_loaded hreached).2 _ _ _ _ hrun⟩

end VenturaOS.Machine
