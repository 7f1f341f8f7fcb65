import VenturaOS.Machine.HeapGrowth
import VenturaOS.Vmm.RegionTable

/-!
# The heap and the region table

Regions are placed at the cursor, which no growth of the heap leaves behind.
The heap grows at its own end without a look at the region table. The two
stay apart exactly as long as no growth runs into a region that was placed
behind the heap and has no page mapped.
-/
namespace VenturaOS.Machine
open Library Memory Pmm Paging Vmm AddressSpaces

/-- Calls on regions and on the heap; `write` is any change of bytes. -/
inductive RegionOp
  | reserve (size : U64) (permissions : VirtPermissions) (purpose : RegionPurpose)
  | allocateAndMap (size : U64) (permissions : VirtPermissions) (purpose : RegionPurpose)
  | map (region : VirtRegion) (pages : List PhysPage)
  | unmap (region : VirtRegion)
  | unregister (start : VirtAddr)
  | allocate (layout : Heap.Layout)
  | deallocate (ptr : ℕ) (layout : Heap.Layout)
  | write (bytes : Bytes)

inductive RegionStep : Kernel → RegionOp → Kernel → Prop
  | reserve (k : Kernel) (size : U64) (permissions : VirtPermissions) (purpose : RegionPurpose) :
      RegionStep k (.reserve size permissions purpose)
        { k with vmm := (reserveVirtualRegion size permissions purpose k.vmm).2 }
  | allocateAndMap (k : Kernel) (size : U64) (permissions : VirtPermissions) (purpose : RegionPurpose) :
      RegionStep k (.allocateAndMap size permissions purpose) (allocateAndMapRegion size permissions purpose k).2
  | map (k : Kernel) (region : VirtRegion) (pages : List PhysPage) :
      RegionStep k (.map region pages) (mapRegion region pages k).2
  | unmap (k : Kernel) (region : VirtRegion) : RegionStep k (.unmap region) (unmapRegion region k).2
  | unregister (k : Kernel) (start : VirtAddr) :
      RegionStep k (.unregister start) { k with vmm := (unregisterRegion start k.vmm).2 }
  | allocate {k k' : Kernel} {layout : Heap.Layout} {p : ℕ} : Heap.allocate layout k = some (p, k') →
      RegionStep k (.allocate layout) k'
  | deallocate (k : Kernel) (ptr : ℕ) (layout : Heap.Layout) :
      RegionStep k (.deallocate ptr layout) (Heap.deallocate ptr layout k)
  | write (k : Kernel) (bytes : Bytes) : RegionStep k (.write bytes) { k with bytes := bytes }

/-- The region `heap::init` registers for the first pages of the heap. -/
def initialRegion (h : Heap.HeapState) : VirtRegion :=
  ⟨⟨BitVec.ofNat 64 h.start⟩, BitVec.ofNat 64 Heap.initialBytes, .kernelData, .dynamicKernel, false⟩

/-- No address between `low` and `high` lies in a registered region other than the heap's own. -/
def Unclaimed (k : Kernel) (low high : ℕ) : Prop :=
  ∀ region ∈ k.vmm.regions, region ≠ initialRegion k.heap → ∀ a : VirtAddr, region.contains a = true →
    ¬(low ≤ a.addr.toNat ∧ a.addr.toNat < high)

def HeapApart (k : Kernel) : Prop := Unclaimed k k.heap.start k.heap.currentEnd

/-- The allocation finds no block, and nothing keeps the heap from growing for it. The frames for page tables are
counted where the tables are in order, as they are in every state a run reaches. -/
structure MustGrow (k : Kernel) (layout : Heap.Layout) : Prop where
  asks : layout.size ≠ 0
  ready : k.heap.initialized = true
  full : Heap.findFit true k.bytes layout.requestedSize (Heap.walkLimit k.heap) k.heap.head = some .exhausted
  open_ : ¬ Heap.GrowthBlocked k (Heap.pagesToAlloc layout.requestedSize)

/-- Growth takes only addresses that no region claims. -/
def ClearGrowth (k : Kernel) : RegionOp → Prop
  | .allocate layout => MustGrow k layout → Unclaimed k k.heap.currentEnd
      (k.heap.currentEnd + Heap.pagesToAlloc layout.requestedSize * pageSize)
  | _ => True

/-- What keeps the two apart: the cursor is past the heap. -/
structure Spaced (k : Kernel) : Prop where
  mode : k.mem.isBootstrapping = false
  apart : HeapApart k
  cursor : k.heap.currentEnd ≤ k.vmm.nextDynamicAddr.toNat

section Steps

variable {k k' : Kernel} {op : RegionOp}

theorem contains_start {region : VirtRegion} {a : VirtAddr} (h : region.contains a = true) :
    region.start.addr.toNat ≤ a.addr.toNat := by
  rw [VirtRegion.contains, Bool.and_eq_true, decide_eq_true_eq] at h
  exact h.1

/-- The heap stays where it is, and new regions start behind it. -/
theorem Spaced.table (h : Spaced k) (hmode : k'.mem.isBootstrapping = false) (hheap : k'.heap = k.heap)
    (hregions : ∀ r ∈ k'.vmm.regions, r ∈ k.vmm.regions ∨ k.heap.currentEnd ≤ r.start.addr.toNat)
    (hcursor : k.vmm.nextDynamicAddr.toNat ≤ k'.vmm.nextDynamicAddr.toNat) : Spaced k' := by
  refine ⟨hmode, ?_, ?_⟩
  · intro region hr hne a ha
    rw [hheap] at hne ⊢
    cases hregions region hr with
    | inl hold => exact h.apart region hold hne a ha
    | inr hnew =>
      have hstart := contains_start ha
      omega
  · rw [hheap]
    exact h.cursor.trans hcursor

theorem Spaced.sameFrames (h : Spaced k) (hf : Heap.SameFrames k k') : Spaced k' := by
  refine ⟨by rw [hf.mem]; exact h.mode, ?_, by rw [hf.stop, hf.vmm]; exact h.cursor⟩
  intro region hr hne a ha
  rw [hf.vmm] at hr
  rw [initialRegion, hf.start] at hne
  rw [hf.start, hf.stop]
  exact h.apart region hr hne a ha

theorem reserve_table {size : U64} {permissions : VirtPermissions} {purpose : RegionPurpose}
    {vmm vmm' : VirtualMemoryManager} {taken : Except VmmError VirtRegion}
    (h : reserveVirtualRegion size permissions purpose vmm = (taken, vmm')) :
    vmm.nextDynamicAddr.toNat ≤ vmm'.nextDynamicAddr.toNat ∧
      ∀ r ∈ vmm'.regions, r ∈ vmm.regions ∨ vmm.nextDynamicAddr.toNat ≤ r.start.addr.toNat := by
  cases taken with
  | error e =>
    rw [reserve_error h]
    exact ⟨le_rfl, fun r hr => .inl hr⟩
  | ok region =>
    obtain ⟨hregion, -, -, -, hsum, -, -, rfl⟩ := reserve_ok h
    refine ⟨by dsimp only; omega, fun r hr => ?_⟩
    cases List.mem_append.mp hr with
    | inl hold => exact .inl hold
    | inr hnew =>
      rw [List.mem_singleton.mp hnew, hregion]
      exact .inr le_rfl

theorem unregister_table (start : VirtAddr) (vmm : VirtualMemoryManager) :
    (unregisterRegion start vmm).2.nextDynamicAddr = vmm.nextDynamicAddr ∧
      ∀ r ∈ (unregisterRegion start vmm).2.regions, r ∈ vmm.regions := by
  refine ⟨?_, fun r hr => (unregister_subperm start vmm).subset hr⟩
  unfold unregisterRegion
  split <;> rfl

theorem Spaced.unregister (h : Spaced k) (start : VirtAddr) (hmode : k'.mem.isBootstrapping = false)
    (hheap : k'.heap = k.heap) (hvmm : k'.vmm = (unregisterRegion start k.vmm).2) : Spaced k' := by
  obtain ⟨hcur, hsub⟩ := unregister_table start k.vmm
  refine h.table hmode hheap (fun r hr => ?_) ?_
  · rw [hvmm] at hr
    exact .inl (hsub r hr)
  · rw [hvmm, hcur]

/-- A growth over unclaimed addresses takes the cursor along. -/
theorem Spaced.expand (h : Spaced k) {layout : Heap.Layout} (hmust : ¬ Heap.GrowthBlocked k
      (Heap.pagesToAlloc layout.requestedSize) → Unclaimed k k.heap.currentEnd
      (k.heap.currentEnd + Heap.pagesToAlloc layout.requestedSize * pageSize)) {grew : Bool}
    (hrun : Heap.expandHeap layout.requestedSize k = some (grew, k')) : Spaced k' := by
  have hmode := Heap.expandHeap_mode h.mode hrun
  cases grew with
  | false =>
    rw [Heap.expandHeap_failed hrun]
    exact ⟨hmode, h.apart, h.cursor⟩
  | true =>
    have hclear := hmust (Heap.expandHeap_unblocked h.mode hrun)
    obtain ⟨-, mem, -, hreg⟩ := Heap.expandHeap_grew hrun
    obtain ⟨-, -, hstop, hstart, -, hvmm⟩ := Heap.registerPages_cases hreg
    dsimp only at hstop hstart hvmm
    generalize Heap.pagesToAlloc layout.requestedSize = n at hclear hstop
    have hregions : k'.vmm.regions = k.vmm.regions := by
      rw [hvmm, advanceDynamicCursor]
      split_ifs <;> rfl
    refine ⟨hmode, ?_, ?_⟩
    · intro region hr hne a ha
      rw [hregions] at hr
      rw [initialRegion, hstart] at hne
      have hold := h.apart region hr hne a ha
      have hnew := hclear region hr hne a ha
      unfold pageSize at hnew
      -- a growth past the end of the address space only takes addresses away
      have hwrap : k'.heap.currentEnd ≤ k.heap.currentEnd + n * 4096 := by
        rw [hstop]
        exact Nat.mod_le _ _
      rw [hstart]
      omega
    · have hlt : k'.heap.currentEnd < 2 ^ 64 := by
        rw [hstop]
        exact Nat.mod_lt _ (by decide)
      have hval : (BitVec.ofNat 64 k'.heap.currentEnd).toNat = k'.heap.currentEnd := by
        rw [BitVec.toNat_ofNat, Nat.mod_eq_of_lt hlt]
      rw [hvmm, advanceDynamicCursor]
      split_ifs with hpast
      · exact le_of_eq hval.symm
      · rw [hval] at hpast
        exact not_lt.mp hpast

theorem Spaced.step (h : Spaced k) (hstep : RegionStep k op k') (hclear : ClearGrowth k op) : Spaced k' := by
  cases hstep with
  | reserve size permissions purpose =>
    generalize hres : reserveVirtualRegion size permissions purpose k.vmm = result
    obtain ⟨taken, vmm'⟩ := result
    obtain ⟨hcur, hregions⟩ := reserve_table hres
    exact h.table h.mode rfl (fun r hr => (hregions r hr).imp_right h.cursor.trans) hcur
  | allocateAndMap size permissions purpose =>
    have hmode := allocateAndMapRegion_mode size permissions purpose h.mode
    generalize hrun : allocateAndMapRegion size permissions purpose k = result at hmode ⊢
    obtain ⟨result, k₁⟩ := result
    obtain ⟨-, hheap, -⟩ := allocateAndMapRegion_outside hrun
    obtain ⟨taken, vmm', hres, hvmm, -⟩ := allocate_table hrun
    obtain ⟨hcur, hregions⟩ := reserve_table hres
    have hmid : Spaced { k with vmm := vmm' } :=
      h.table h.mode rfl (fun r hr => (hregions r hr).imp_right h.cursor.trans) hcur
    cases hvmm with
    | inl hkept => exact hmid.table hmode hheap (fun r hr => by rw [hkept] at hr; exact .inl hr) (by rw [hkept])
    | inr hgone =>
      obtain ⟨start, hgone⟩ := hgone
      exact hmid.unregister start hmode hheap hgone
  | map region pages =>
    have hsame : (mapRegion region pages k).2.heap = k.heap ∧ (mapRegion region pages k).2.vmm = k.vmm := by
      unfold mapRegion
      split_ifs
      · exact ⟨rfl, rfl⟩
      · split <;> exact ⟨rfl, rfl⟩
    refine h.table (mapRegion_mode region pages h.mode) hsame.1 (fun r hr => ?_) (by rw [hsame.2])
    rw [hsame.2] at hr
    exact .inl hr
  | unmap region =>
    have hmode : (unmapRegion region k).2.mem.isBootstrapping = false := (unmapOne_mode _ _ _ _).trans h.mode
    exact h.unregister region.start hmode rfl rfl
  | unregister start => exact h.unregister start h.mode rfl rfl
  | @allocate _ layout p hrun =>
    rcases Heap.allocate_scan hrun with hf | ⟨hasks, hready, hfull, grew, k₁, hexp, hf⟩
    · exact h.sameFrames hf
    · exact (h.expand (fun hopen => hclear ⟨hasks, hready, hfull, hopen⟩) hexp).sameFrames hf
  | deallocate ptr layout => exact h.sameFrames (Heap.deallocate_frames ptr layout k)
  | write bytes => exact ⟨h.mode, h.apart, h.cursor⟩

end Steps

section Runs

variable {info : BootInfo} {k₀ k k' : Kernel}

/-- After `heap::init` the cursor stands at the end of the heap. -/
theorem Spaced.start (hload : info.Loaded) (hvmm : Vmm.init info info.kernel = some k₀) (hheap : Heap.init k₀ = some k) :
    Spaced k := by
  have hboot := init_booted hload hvmm
  have hfirst : k₀.heap.initialized = false := by
    rw [hboot.heap]
    rfl
  obtain ⟨region, k₁, hmap, rfl⟩ := Heap.init_cases hheap hfirst
  obtain ⟨reserved, vmm', hres, hk₁, hregion⟩ := allocated_region hmap
  obtain ⟨hreserved, -, -, -, hsum, hany, -, hvmm'⟩ := reserve_ok hres
  have hstart : region.start.addr = k₀.vmm.nextDynamicAddr := by rw [hregion, hreserved]
  have hstop : region.stop.addr = k₀.vmm.nextDynamicAddr + BitVec.ofNat 64 Heap.initialBytes := by
    rw [hregion, hreserved]
    rfl
  have hmode : (Heap.initBlock region k₁).mem.isBootstrapping = false := by
    have hkept := allocateAndMapRegion_mode (BitVec.ofNat 64 Heap.initialBytes) VirtPermissions.kernelData .dynamicKernel
      hboot.mode
    rw [hmap] at hkept
    exact hkept
  have hown : reserved = initialRegion (Heap.initBlock region k₁).heap := by
    rw [hreserved, initialRegion]
    change _ = (⟨⟨BitVec.ofNat 64 region.start.addr.toNat⟩, _, _, _, _⟩ : VirtRegion)
    rw [hstart, BitVec.ofNat_toNat, BitVec.setWidth_eq]
  refine ⟨hmode, ?_, ?_⟩
  · intro r hr hne a ha
    change r ∈ k₁.vmm.regions at hr
    change ¬(region.start.addr.toNat ≤ a.addr.toNat ∧ a.addr.toNat < region.stop.addr.toNat)
    rw [hk₁, hvmm'] at hr
    cases List.mem_append.mp hr with
    | inr hnew => exact absurd ((List.mem_singleton.mp hnew).trans hown) hne
    | inl hold =>
      have hover := hany r hold
      rw [VirtRegion.overlaps, Bool.and_eq_false_iff, decide_eq_false_iff_not, decide_eq_false_iff_not] at hover
      rw [VirtRegion.contains, Bool.and_eq_true, decide_eq_true_eq, decide_eq_true_eq] at ha
      rw [hstart, hstop]
      dsimp only at hover
      omega
  · change region.stop.addr.toNat ≤ k₁.vmm.nextDynamicAddr.toNat
    rw [hk₁, hvmm', hstop]

/-- As long as every growth is clear, the heap and the region table claim no address both. -/
theorem heap_regions_apart (hload : info.Loaded) (hvmm : Vmm.init info info.kernel = some k₀)
    (hheap : Heap.init k₀ = some k) {ops : List RegionOp}
    (hrun : Run (fun k op k' => RegionStep k op k' ∧ ClearGrowth k op) k ops k') : HeapApart k' :=
  (hrun.invariant Spaced (fun _ _ _ h hstep => h.step hstep.1 hstep.2) (Spaced.start hload hvmm hheap)).apart

end Runs

/-- On the sample machine a region is mapped, and a pointer that was never handed out is freed. -/
theorem sample_regions_apart : ∃ k₀ k k', SampleHeap k₀ k ∧
    Run RegionStep k [.allocateAndMap 0x1000 .kernelData .dynamicKernel, .deallocate 0 largeLayout] k' ∧ HeapApart k' := by
  obtain ⟨k₀, k, h⟩ := sample_start
  have hmap := RegionStep.allocateAndMap k 0x1000 .kernelData .dynamicKernel
  have hfree := RegionStep.deallocate (allocateAndMapRegion 0x1000 .kernelData .dynamicKernel k).2 0 largeLayout
  exact ⟨k₀, k, _, h, .cons hmap (.single hfree), heap_regions_apart sampleInfo_loaded h.boot h.heap
    (.cons ⟨hmap, trivial⟩ (.single ⟨hfree, trivial⟩))⟩

section Sample

variable {k₀ k : Kernel}

/-- Nothing is mapped where the heap of the sample machine grows. -/
theorem SampleHeap.unmapped (h : SampleHeap k₀ k) {n : ℕ} (hn : n ≤ 128) {v : VirtAddr} (hv : v ∈ Heap.growthPages k.heap n) :
    translate k.mem.tables k.rootPml4 v = none := by
  obtain ⟨⟨place, hi, he⟩, -⟩ := h.settled
  have hpages := (he.range h.initialized).behind (he.room hi h.initialized) hn
  have hup := UpperPages.upperPage hpages hv
  have hval : (BitVec.ofNat 64 k.heap.currentEnd).toNat = k.heap.currentEnd := by
    rw [BitVec.toNat_ofNat, Nat.mod_eq_of_lt (he.range h.initialized).stop]
  have hle := ((mem_pages_iff hpages hup).mp hv).1
  change (BitVec.ofNat 64 k.heap.currentEnd).toNat ≤ _ at hle
  have hreach := h.vacant hup (by omega)
  have hplain : v.pml4Index ≠ 0 := by
    intro hzero
    have hslot := hup.upper
    rw [hzero] at hslot
    simp at hslot
  rcases hi.tables.owned.leaf_cases hi.tables.rooted (kernel_slot _) (fun _ => hplain) hup.canonical with
    ⟨pt, -, -, hlook, -⟩ | ⟨-, hnone, -⟩
  · have hlost := lookup_of_reach hreach
    change lookup k.mem.tables k.rootPml4.addr v.path = _ at hlook
    rw [hlost] at hlook
    cases hlook
  · exact hnone

theorem SampleHeap.reserve (h : SampleHeap k₀ k) :
    ∃ region vmm', reserveVirtualRegion 0x1000 .kernelData .dynamicKernel k.vmm = (.ok region, vmm') ∧
      region ∈ vmm'.regions ∧ region.start.addr.toNat = k.heap.currentEnd ∧ region.sizeBytes = 0x1000 := by
  have hcursor := h.cursor_toNat
  have hres := reserve_of 0x1000 (by decide) (by decide) (by rw [hcursor]; decide) (by rw [hcursor]; decide)
    h.apart h.few .kernelData .dynamicKernel
  refine ⟨_, _, hres, List.mem_append_right _ (List.mem_singleton_self _), ?_, rfl⟩
  rw [h.stop]
  exact hcursor

/-- The heap grows all the same once a region is registered there. -/
theorem SampleHeap.grows (h : SampleHeap k₀ k) (vmm : VirtualMemoryManager) :
    ∃ p k', Heap.allocate largeLayout { k with vmm := vmm } = some (p, k') ∧ k'.heap.start = k.heap.start ∧
      k'.heap.currentEnd = (k.heap.currentEnd + 33 * 4096) % 2 ^ 64 ∧ k'.vmm.regions = vmm.regions := by
  obtain ⟨⟨place, hi, he⟩, -⟩ := h.settled
  have hroom := he.room hi h.initialized
  have hspare := h.spare
  have hmax : Heap.pagesToAlloc largeLayout.requestedSize ≤ 128 := by
    rw [largeLayout_pages]
    decide
  have hslots : UpperSlots k.rootPml4.addr k.mem := fun i hup =>
    hi.tables.present i (by simp [isShared, kernelPml4Start, hup])
  have hblocks : Heap.Rep ({ k with vmm := vmm } : Kernel).heap ({ k with vmm := vmm } : Kernel).bytes [⟨131040, true⟩] :=
    h.blocks
  have hpages := (he.range h.initialized).behind hroom hmax
  obtain ⟨k₁, hexp⟩ := (hblocks.expandHeap_iff hroom hi.tables.owned hi.tables.rooted hi.tables.mode hslots hpages hmax
    (by rw [largeLayout_pages]; exact le_trans (by decide) hspare)).mpr fun v hv => h.unmapped hmax hv
  obtain ⟨-, mem, -, hreg⟩ := Heap.expandHeap_grew hexp
  obtain ⟨-, -, hstop, hstart, -, hvmm⟩ := Heap.registerPages_cases hreg
  dsimp only at hstop hstart hvmm
  rw [largeLayout_pages] at hstop
  have hregions : k₁.vmm.regions = vmm.regions := by
    rw [hvmm, advanceDynamicCursor]
    split_ifs <;> rfl
  have hnone : ∀ b ∈ [(⟨131040, true⟩ : Heap.Block)], ¬ Heap.Fits largeLayout.requestedSize b := by
    rintro b hb ⟨-, hfit⟩
    rw [List.mem_singleton.mp hb, largeLayout_requested] at hfit
    dsimp only at hfit
    omega
  rcases hblocks.allocate_grow h.initialized hroom (by decide) hnone with
    ⟨k₂, hbad, -⟩ | ⟨k₂, l', l₁, n, l₂, hexp', -, -, -, -, hall⟩
  · rw [hexp] at hbad
    cases hbad
  · rw [hexp] at hexp'
    cases hexp'
    have hframes := Heap.takeBlock_frames (k₁.heap.start + Heap.total l₁) largeLayout.requestedSize k₁
    generalize Heap.takeBlock (k₁.heap.start + Heap.total l₁) largeLayout.requestedSize k₁ = taken at hall hframes
    obtain ⟨p, k'⟩ := taken
    refine ⟨p, k', hall, hframes.start.trans hstart, hframes.stop.trans hstop, ?_⟩
    rw [← hregions]
    exact congrArg VirtualMemoryManager.regions hframes.vmm

end Sample

/-- The heap grows into a region that was reserved right behind it. -/
theorem heap_grows_into_region : ∃ k₀ k k', Vmm.init sampleInfo sampleInfo.kernel = some k₀ ∧ Heap.init k₀ = some k ∧
    Run RegionStep k [.reserve 0x1000 .kernelData .dynamicKernel, .allocate largeLayout] k' ∧ ¬ HeapApart k' := by
  obtain ⟨k₀, k, h⟩ := sample_start
  obtain ⟨region, vmm', hres, hmem, hregion, hsize⟩ := h.reserve
  obtain ⟨p, k', hall, hstart, hstop, hregions⟩ := h.grows vmm'
  have hstep := RegionStep.reserve k 0x1000 .kernelData .dynamicKernel
  rw [hres] at hstep
  refine ⟨k₀, k, k', h.boot, h.heap, .cons hstep (.single (.allocate hall)), fun hapart => ?_⟩
  have hlow := h.start
  have hend := h.stop
  have hbase : dynamicVirtStart.toNat = 2 ^ 64 - 2 ^ 47 := rfl
  rw [Nat.mod_eq_of_lt (by omega)] at hstop
  have hnot : region ≠ initialRegion k'.heap := by
    intro he
    have haddr := congrArg (fun r => r.start.addr.toNat) he
    change region.start.addr.toNat = (BitVec.ofNat 64 k'.heap.start).toNat at haddr
    rw [BitVec.toNat_ofNat] at haddr
    omega
  have hin : region.contains region.start = true := by
    rw [VirtRegion.contains, VirtRegion.stop, hsize, Bool.and_eq_true, decide_eq_true_eq, decide_eq_true_eq, BitVec.toNat_add]
    refine ⟨le_rfl, ?_⟩
    have hone : (0x1000 : U64).toNat = 4096 := rfl
    rw [hone]
    omega
  refine hapart region (by rw [hregions]; exact hmem) hnot region.start hin ?_
  omega

end VenturaOS.Machine
