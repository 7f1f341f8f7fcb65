import VenturaOS.Heap.Model
import VenturaOS.Vmm.KernelCalls

/-!
# What the heap does to the page tables

Growing the heap maps its new pages at `current_end` or gives every frame
back. Allocation touches the page tables only through growth, freeing not at
all.
-/
namespace VenturaOS.Heap
open Library Memory Pmm Paging Vmm

/-- `current_end` is page aligned and in the upper half, or has come round to 0. -/
def EndOk (h : HeapState) : Prop :=
  h.currentEnd % 4096 = 0 ∧ (2 ^ 64 - 2 ^ 47 ≤ h.currentEnd ∧ h.currentEnd < 2 ^ 64 ∨ h.currentEnd = 0)

/-- The kernel state apart from the page tables, the region table, the heap and its bytes. -/
structure SameOutside (k k' : Kernel) : Prop where
  root : k'.rootPml4 = k.rootPml4
  cr3 : k'.cr3 = k.cr3
  nextAsid : k'.nextAsid = k.nextAsid
  currentAsid : k'.currentAsid = k.currentAsid

theorem SameOutside.refl (k : Kernel) : SameOutside k k := ⟨rfl, rfl, rfl, rfl⟩

theorem SameOutside.trans {k k' k'' : Kernel} (h : SameOutside k k') (h' : SameOutside k' k'') : SameOutside k k'' :=
  ⟨h'.root.trans h.root, h'.cr3.trans h.cr3, h'.nextAsid.trans h.nextAsid, h'.currentAsid.trans h.currentAsid⟩

/-- Growth by at most 128 pages stays in the upper half or wraps around into the low pages. -/
theorem EndOk.page {h : HeapState} (hend : EndOk h) {n : ℕ} (hn : n ≤ maxFrames) {v : VirtAddr}
    (hv : v ∈ pagesFrom (BitVec.ofNat 64 h.currentEnd) n) : 256 ≤ v.pml4Index.val ∨ IsLow v := by
  rcases List.mem_map.mp hv with ⟨i, hi, rfl⟩
  rw [List.mem_range] at hi
  rcases hend with ⟨hal, hrange⟩
  unfold maxFrames at hn
  have hval : (BitVec.ofNat 64 h.currentEnd + BitVec.ofNat 64 (i * pageSize)).toNat =
      (h.currentEnd + i * 4096) % 2 ^ 64 := by
    rw [BitVec.toNat_add, BitVec.toNat_ofNat, BitVec.toNat_ofNat, pageSize]
    omega
  by_cases hwrap : h.currentEnd ≠ 0 ∧ h.currentEnd + i * 4096 < 2 ^ 64
  · refine .inl ?_
    rw [VirtAddr.pml4Index, VirtAddr.index_val]
    simp only
    rw [hval]
    omega
  · refine .inr ?_
    rw [IsLow]
    simp only
    rw [hval]
    omega

/-- The address of page `i` of a growth. -/
theorem growthPage_toNat (a : ℕ) {n i : ℕ} (hi : i < n) :
    (⟨BitVec.ofNat 64 a + BitVec.ofNat 64 (i * pageSize)⟩ : VirtAddr) ∈ pagesFrom (BitVec.ofNat 64 a) n ∧
      (BitVec.ofNat 64 a + BitVec.ofNat 64 (i * pageSize)).toNat = (a + i * 4096) % 2 ^ 64 := by
  refine ⟨List.mem_map.mpr ⟨i, List.mem_range.mpr hi, rfl⟩, ?_⟩
  rw [BitVec.toNat_add, BitVec.toNat_ofNat, BitVec.toNat_ofNat, pageSize]
  omega

theorem pagesToAlloc_ge (needed : ℕ) : 16 ≤ pagesToAlloc needed := by
  unfold pagesToAlloc heapGrowthStepPages
  simp only
  split_ifs <;> omega

section

variable {k k' : Kernel}

/-- The bookkeeping after a successful mapping moves the end and the cursor. -/
theorem registerPages_cases {pages : ℕ} (h : registerPages pages k = some k') :
    SameOutside k k' ∧ k'.mem = k.mem ∧ k'.heap.currentEnd = (k.heap.currentEnd + pages * 4096) % 2 ^ 64 ∧
      k'.heap.start = k.heap.start ∧ k'.heap.initialized = k.heap.initialized ∧
      k'.vmm = advanceDynamicCursor (BitVec.ofNat 64 k'.heap.currentEnd) k.vmm := by
  unfold registerPages at h
  rcases Option.map_eq_some_iff.mp h with ⟨⟨head, coalesced, m⟩, -, rfl⟩
  exact ⟨⟨rfl, rfl, rfl, rfl⟩, rfl, rfl, rfl, rfl, rfl⟩

theorem advance_ok {vmm : VirtualMemoryManager} (h : CursorOk vmm) {a : U64} (ha : a.toNat % 4096 = 0) :
    CursorOk (advanceDynamicCursor a vmm) := by
  unfold advanceDynamicCursor
  split_ifs with hlt
  · rcases h with ⟨-, hs⟩
    exact ⟨ha, by simp only; omega⟩
  · exact h

end

section Growth

variable {r : U64} {F : Finset U64} {c : ℕ} {place : Placement} {held : Finset U64} {s : PageMemory} {k k' : Kernel}
  {needed : ℕ}

/-- All pages are mapped to fresh frames, or nothing is. -/
theorem mapFresh_cases (h : Owned (kernelPolicy r F) F c place held s) (hr : place r = some (r, []))
    (hlow : LowHuge r place s) (hmode : s.isBootstrapping = false) {flags : PageTableFlags} (hflags : LeafFlags flags)
    {start : U64} {n : ℕ} (hpages : ∀ v ∈ pagesFrom start n, 256 ≤ v.pml4Index.val ∨ IsLow v) :
    ∃ place' grew s', mapFresh ⟨r⟩ flags start n s = (grew, s') ∧ Owned (kernelPolicy r F) F c place' held s' ∧
      KernelStep r place place' s s' ∧ LogOk s s' ∧
      (grew = true →
        (∀ v ∈ pagesFrom start n, isCanonical v.addr = true ∧ v.isAligned = true ∧ 256 ≤ v.pml4Index.val ∧
          ¬ Occupied r place v.path) ∧
        ∀ q, q.length = 4 → (Occupied r place' q ↔ Occupied r place q ∨ ∃ v ∈ pagesFrom start n, q = v.path)) ∧
      (grew = false → LeafSame r place place') := by
  rcases takeAndMap_cases h hr hlow hmode hflags hpages with
    ⟨s', ha, ho, hstep, hlog⟩ |
    ⟨l, s₁, ha, ⟨place', s', hm, ho, hstep, hlog, hvac, hocc⟩ | ⟨place', s', hm, ho, hstep, hlog, hleaf⟩⟩
  · exact ⟨place, false, s', by simp only [mapFresh, ha], ho, hstep, hlog, by simp, fun _ _ _ _ => Iff.rfl⟩
  · exact ⟨place', true, s', by simp only [mapFresh, ha, hm], ho, hstep, hlog, fun _ => ⟨hvac, hocc⟩, by simp⟩
  · exact ⟨place', false, _, by simp only [mapFresh, ha, hm], ho, hstep, hlog, by simp, fun _ => hleaf⟩

/-- What a growth of `n` pages did: each new page was vacant and now has a frame. -/
structure Grown (r : U64) (place place' : Placement) (k k' : Kernel) (n : ℕ) : Prop where
  small : n ≤ maxFrames
  start : k'.heap.start = k.heap.start
  initialized : k'.heap.initialized = k.heap.initialized
  stop : k'.heap.currentEnd = (k.heap.currentEnd + n * 4096) % 2 ^ 64
  vacant : ∀ v ∈ pagesFrom (BitVec.ofNat 64 k.heap.currentEnd) n, isCanonical v.addr = true ∧ v.isAligned = true ∧
    256 ≤ v.pml4Index.val ∧ ¬ Occupied r place v.path
  occupied : ∀ q, q.length = 4 → (Occupied r place' q ↔
    Occupied r place q ∨ ∃ v ∈ pagesFrom (BitVec.ofNat 64 k.heap.currentEnd) n, q = v.path)

theorem EndOk.grown {place' : Placement} {n : ℕ} (hend : EndOk k.heap) (hn : 0 < n)
    (h : Grown r place place' k k' n) : EndOk k'.heap := by
  have hstop := h.stop
  have hal := hend.1
  refine ⟨by omega, ?_⟩
  -- the last new page is in the upper half, so the end is too, or is just past it
  rcases growthPage_toNat k.heap.currentEnd (n := n) (i := n - 1) (by omega) with ⟨hmem, hval⟩
  rcases h.vacant _ hmem with ⟨hc, -, hslot, -⟩
  have hge := (VirtAddr.kernel_slot_iff hc).mp hslot
  rw [isCanonical_iff] at hc
  rw [hval] at hge hc
  omega

theorem expandHeap_cases (h : Owned (kernelPolicy r F) F c place held k.mem) (hr : place r = some (r, []))
    (hlow : LowHuge r place k.mem) (hmode : k.mem.isBootstrapping = false) (hroot : k.rootPml4 = ⟨r⟩)
    (hcur : CursorOk k.vmm) (hend : EndOk k.heap) {grew : Bool} (hrun : expandHeap needed k = some (grew, k')) :
    ∃ place', Owned (kernelPolicy r F) F c place' held k'.mem ∧ KernelStep r place place' k.mem k'.mem ∧
      LogOk k.mem k'.mem ∧ CursorOk k'.vmm ∧ EndOk k'.heap ∧ SameOutside k k' ∧
      (grew = true → Grown r place place' k k' (pagesToAlloc needed)) ∧
      (grew = false → LeafSame r place place' ∧ k' = { k with mem := k'.mem }) := by
  have hflags : LeafFlags VirtPermissions.kernelData.toPageFlags := VirtPermissions.kernelData.toPageFlags_ok
  have hn := pagesToAlloc_ge needed
  unfold expandHeap at hrun
  simp only at hrun
  generalize pagesToAlloc needed = n at hn hrun ⊢
  split_ifs at hrun with hmax
  · cases hrun
    exact ⟨place, h, .refl .., .refl _, hcur, hend, .refl _, by simp, fun _ => ⟨fun _ _ _ => Iff.rfl, rfl⟩⟩
  · rcases mapFresh_cases h hr hlow hmode hflags (fun v hv => hend.page (not_lt.mp hmax) hv) with
      ⟨place', b, mem, hm, ho, hstep, hlog, hgrew, hsame⟩
    rw [← hroot] at hm
    rw [hm] at hrun
    cases b with
    | false =>
      cases hrun
      exact ⟨place', ho, hstep, hlog, hcur, hend, ⟨rfl, rfl, rfl, rfl⟩, by simp, fun _ => ⟨hsame rfl, rfl⟩⟩
    | true =>
      rcases Option.map_eq_some_iff.mp hrun with ⟨k₁, hreg, he⟩
      cases he
      rcases registerPages_cases hreg with ⟨hout, hmem, hstop, hstart, hinit, hvmm⟩
      simp only at hstop hmem
      rcases hgrew rfl with ⟨hvac, hocc⟩
      have hgrown : Grown r place place' k k' n := ⟨not_lt.mp hmax, hstart, hinit, hstop, hvac, hocc⟩
      have hend' := hend.grown (by omega) hgrown
      refine ⟨place', by rw [hmem]; exact ho, by rw [hmem]; exact hstep, by rw [hmem]; exact hlog, ?_, hend',
        ⟨hout.root, hout.cr3, hout.nextAsid, hout.currentAsid⟩, fun _ => hgrown, by simp⟩
      rw [hvmm]
      apply advance_ok hcur
      have hal := hend'.1
      rw [BitVec.toNat_ofNat]
      omega

end Growth

section Calls

variable {k k' : Kernel}

/-- The parts of the state a call on the block list alone leaves as they are. -/
structure SameFrames (k k' : Kernel) : Prop where
  outside : SameOutside k k'
  mem : k'.mem = k.mem
  vmm : k'.vmm = k.vmm
  stop : k'.heap.currentEnd = k.heap.currentEnd
  start : k'.heap.start = k.heap.start
  initialized : k'.heap.initialized = k.heap.initialized

theorem SameFrames.refl (k : Kernel) : SameFrames k k := ⟨.refl k, rfl, rfl, rfl, rfl, rfl⟩

theorem takeBlock_frames (block requested : ℕ) (k : Kernel) : SameFrames k (takeBlock block requested k).2 := by
  simp only [takeBlock]
  exact ⟨⟨rfl, rfl, rfl, rfl⟩, rfl, rfl, rfl, rfl, rfl⟩

theorem retry_frames {requested p : ℕ} (h : retry requested k = some (p, k')) : SameFrames k k' := by
  rcases Option.map_eq_some_iff.mp h with ⟨scan, -, he⟩
  cases scan with
  | found block =>
    have hframes := takeBlock_frames block requested k
    simp only at he
    rw [he] at hframes
    exact hframes
  | exhausted =>
    cases he
    exact .refl k
  | corrupted =>
    cases he
    exact .refl k

/-- An allocation works on the block list alone, unless no block fits and the heap has to grow. -/
theorem allocate_scan {layout : Layout} {p : ℕ} (h : allocate layout k = some (p, k')) :
    SameFrames k k' ∨ (layout.size ≠ 0 ∧ k.heap.initialized = true ∧
      findFit true k.bytes layout.requestedSize (walkLimit k.heap) k.heap.head = some .exhausted ∧
      ∃ grew k₁, expandHeap layout.requestedSize k = some (grew, k₁) ∧ SameFrames k₁ k') := by
  unfold allocate at h
  split_ifs at h with hsize hinit
  · cases h
    exact .inl (.refl k)
  · cases h
    exact .inl (.refl k)
  · have hready : k.heap.initialized = true := by simpa using hinit
    rcases hs : findFit true k.bytes layout.requestedSize (walkLimit k.heap) k.heap.head with
      _ | ⟨block⟩ | _ | _
    · rw [hs] at h
      cases h
    · have hframes := takeBlock_frames block layout.requestedSize k
      simp only [hs, Option.some.injEq] at h
      rw [h] at hframes
      exact .inl hframes
    · rw [hs] at h
      refine .inr ⟨hsize, hready, rfl, ?_⟩
      generalize expandHeap layout.requestedSize k = grown at h ⊢
      rcases grown with _ | ⟨_ | _, k₁⟩
      · cases h
      · cases h
        exact ⟨false, k', rfl, .refl k'⟩
      · exact ⟨true, k₁, rfl, retry_frames h⟩
    · rw [hs] at h
      cases h
      exact .inl (.refl k)

theorem allocate_frames {layout : Layout} {p : ℕ} (h : allocate layout k = some (p, k')) :
    SameFrames k k' ∨ ∃ grew k₁, k.heap.initialized = true ∧
      expandHeap layout.requestedSize k = some (grew, k₁) ∧ SameFrames k₁ k' := by
  rcases allocate_scan h with hf | ⟨-, hready, -, grew, k₁, he, hf⟩
  · exact .inl hf
  · exact .inr ⟨grew, k₁, hready, he, hf⟩

theorem deallocate_frames (ptr : ℕ) (layout : Layout) (k : Kernel) : SameFrames k (deallocate ptr layout k) := by
  unfold deallocate
  split_ifs
  · exact .refl k
  · exact .refl k
  · simp only
    split_ifs
    · exact .refl k
    · exact .refl k
    · exact ⟨⟨rfl, rfl, rfl, rfl⟩, rfl, rfl, rfl, rfl, rfl⟩

theorem init_initialized (h : k.heap.initialized = true) : init k = some k := by
  rw [init, h, if_pos rfl]

/-- `heap::init` is one region call, and the root block in that region. -/
theorem init_cases (h : init k = some k') (hfirst : k.heap.initialized = false) :
    ∃ region k₁, allocateAndMapRegion (BitVec.ofNat 64 initialBytes) VirtPermissions.kernelData .dynamicKernel k =
      (.ok region, k₁) ∧ k' = initBlock region k₁ := by
  unfold init at h
  rw [hfirst, if_neg (by simp)] at h
  generalize allocateAndMapRegion (BitVec.ofNat 64 initialBytes) VirtPermissions.kernelData .dynamicKernel k = result at h ⊢
  rcases result with ⟨e | region, k₁⟩
  · cases h
  · exact ⟨region, k₁, rfl, (Option.some.inj h).symm⟩

end Calls
end VenturaOS.Heap
