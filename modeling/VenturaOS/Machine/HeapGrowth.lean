import VenturaOS.Context.Coroutines
import VenturaOS.Heap.Growth
import VenturaOS.Machine.HeapSafety
import VenturaOS.Machine.Owners
import VenturaOS.Thread.Model

/-!
# Can the heap grow?

The heap grows in place, so what decides is whether a region was placed right
behind it. Besides the calls of the clients the runs here have threads in
them, whose stacks are regions like any other.
-/
namespace VenturaOS.Machine
open Library Memory Pmm Paging Vmm AddressSpaces Context

/-- A region may be unmapped again as long as nothing is mapped where it was. -/
def Careful (y : System) : Op → Prop
  | .unmapRegion region =>
    region ∈ y.live ∨ ∀ v ∈ regionPages region, translate y.kernel.mem.tables y.kernel.rootPml4 v = none
  | op => Disciplined y op

inductive GrowthOp
  | call (op : Op)
  | newThread (initialContextEntry : U64) (name : String) (entry arg : U64)

/-- The system together with the counters of threads and contexts. -/
inductive GrowthStep : System × Thread.Counters → GrowthOp → System × Thread.Counters → Prop
  | call {y y' : System} {c : Thread.Counters} {op : Op} : LiveStep y op y' → Careful y op →
      GrowthStep (y, c) (.call op) (y', c)
  | newThread {y : System} {c c' : Thread.Counters} {contextEntry entry arg : U64} {name : String}
      {thread : Thread.KernelThread} {k : Kernel} :
      Thread.newRaw contextEntry name entry arg y.kernel c = (.ok thread, k, c') →
      GrowthStep (y, c) (.newThread contextEntry name entry arg)
        ({ y with kernel := k, returned := thread.stack.region :: y.returned, live := thread.stack.region :: y.live }, c')
  | newThreadFails {y : System} {c c' : Thread.Counters} {contextEntry entry arg : U64} {name : String}
      {e : Thread.ThreadError} {k : Kernel} :
      Thread.newRaw contextEntry name entry arg y.kernel c = (.error e, k, c') →
      GrowthStep (y, c) (.newThread contextEntry name entry arg) ({ y with kernel := k }, c')

/-- The page tables, the pages in use and the blocks of the heap are as they should be. -/
def Settled (info : BootInfo) (y : System) : Prop := (∃ place, Inv info place y ∧ Extents place y) ∧ HeapOk y

section Steps

variable {info : BootInfo} {place : Placement} {y y' : System} {op : Op}

/-- A page without a translation has no frame of the kernel's. -/
theorem unoccupied_of_translate (hi : Inv info place y) {v : VirtAddr} (hv : UpperPage v)
    (hnone : translate y.kernel.mem.tables y.kernel.rootPml4 v = none) : ¬ Occupied y.kernel.rootPml4.addr place v.path := by
  rintro ⟨f, hf⟩
  have hmanaged := (leaf_managed hi.tables.owned hf v.path_length).1
  obtain ⟨flags, ht⟩ := (mapped_iff hi.tables.owned hi.tables.rooted hmanaged hv).mpr hf
  change translate _ y.kernel.rootPml4 v = _ at ht
  rw [hnone] at ht
  cases ht

theorem Careful.harmless (h : Careful y op) (hi : Inv info place y) (hstep : Step y op y') : op.Harmless y place := by
  cases op with
  | heapExpand n => exact h
  | unmapRegion region =>
    cases hstep with
    | unmapRegion hmem =>
      cases h with
      | inl hlive => exact .inl hlive
      | inr hnone =>
        have hpages := (hi.regions region hmem).2
        exact .inr fun v hv => unoccupied_of_translate hi (UpperPages.upperPage hpages hv) (hnone v hv)
  | _ => trivial

/-- One call by a client. -/
theorem Settled.call (h : Settled info y) (hstep : LiveStep y op y') (hcare : Careful y op) : Settled info y' := by
  obtain ⟨⟨place, hi, he⟩, hok⟩ := h
  obtain ⟨place', hi', heff⟩ := hi.step hstep
  refine ⟨⟨place', hi', he.call hi hstep.1 heff (hcare.harmless hi hstep.1)⟩, hok.call hi he hstep.1 fun hop => ?_⟩
  cases op with
  | unmapRegion region => cases hop
  | _ => exact hcare

/-- The stack a thread gets lies below the end of the dynamic range. -/
theorem stack_bounds {k k' : Kernel} {region : VirtRegion} (hcur : CursorOk k.vmm)
    (hrun : allocateAndMapRegion stackSizeBytes .kernelData .dynamicKernel k = (.ok region, k')) :
    region.stop.addr.toNat = region.start.addr.toNat + 0x4000 ∧ region.start.addr.toNat % 4096 = 0 ∧
      dynamicVirtStart.toNat ≤ region.start.addr.toNat ∧ region.stop.addr.toNat ≤ dynamicVirtEnd.toNat := by
  obtain ⟨hstart, -, -, hstop, hend⟩ := allocated_placed hrun
  refine ⟨hstop, ?_, ?_, hend⟩
  · rw [hstart]
    exact hcur.1
  · rw [hstart]
    exact hcur.2

theorem stack_pages {k k' : Kernel} {region : VirtRegion}
    (hrun : allocateAndMapRegion stackSizeBytes .kernelData .dynamicKernel k = (.ok region, k')) :
    region.pageCount = 4 := by
  rw [VirtRegion.pageCount, (allocated_placed hrun).2.1]
  decide

/-- A new thread maps its stack and writes its first frame there, or changes nothing, or fails to map the stack. -/
theorem newRaw_cases {contextEntry entry arg : U64} {name : String} {k k' : Kernel} {c c' : Thread.Counters}
    {result : Except Thread.ThreadError Thread.KernelThread} (hcur : CursorOk k.vmm)
    (hrun : Thread.newRaw contextEntry name entry arg k c = (result, k', c')) :
    (∃ e, result = .error e ∧ k' = k ∧ (entry = 0 ∨ (!isCanonical entry) = true)) ∨
      (∃ e e', result = .error e ∧ allocateAndMapRegion stackSizeBytes .kernelData .dynamicKernel k = (.error e', k')) ∨
      ∃ thread k₁ bytes, result = .ok thread ∧
        allocateAndMapRegion stackSizeBytes .kernelData .dynamicKernel k = (.ok thread.stack.region, k₁) ∧
        k' = { k₁ with bytes := bytes } ∧ ∀ a, bytes a ≠ k₁.bytes a →
          thread.stack.region.start.addr.toNat ≤ a ∧ a < thread.stack.region.stop.addr.toNat := by
  unfold Thread.newRaw at hrun
  by_cases hentry : entry = 0 ∨ (!isCanonical entry) = true
  · rw [if_pos hentry] at hrun
    cases hrun
    exact .inl ⟨_, rfl, rfl, hentry⟩
  · rw [if_neg hentry] at hrun
    unfold KernelStack.allocate at hrun
    generalize hmap : allocateAndMapRegion stackSizeBytes .kernelData .dynamicKernel k = taken at hrun
    rcases taken with ⟨e | region, k₁⟩
    · cases hrun
      exact .inr (.inl ⟨_, _, rfl, rfl⟩)
    · obtain ⟨hstop, hal, hlow, hhigh⟩ := stack_bounds hcur hmap
      have hstart : dynamicVirtStart.toNat = 2 ^ 64 - 2 ^ 47 := rfl
      have hend : dynamicVirtEnd.toNat = 2 ^ 64 - 2 ^ 39 := rfl
      have htop : (KernelStack.mk region).top = region.stop.addr := rfl
      have hnonzero : ¬(region.stop.addr = 0 ∨ (!isCanonical region.stop.addr) = true) := by
        have hcanon : isCanonical region.stop.addr = true := by
          rw [isCanonical_iff]
          omega
        rw [hcanon]
        rintro (hzero | hbad)
        · rw [hzero] at hstop
          simp at hstop
        · cases hbad
      unfold createContextRaw at hrun
      dsimp only at hrun
      rw [if_neg hentry, htop, if_neg hnonzero] at hrun
      dsimp only at hrun
      cases hrun
      refine .inr (.inr ⟨_, k₁, _, rfl, rfl, rfl, fun a ha => ?_⟩)
      -- the frame is the last eighty bytes of the stack
      have hsp : (region.stop.addr &&& ~~~0xF#64).toNat = region.stop.addr.toNat := by
        rw [aligned_toNat]
        omega
      have hbase : ((region.stop.addr &&& ~~~0xF#64) - 80#64).toNat = region.stop.addr.toNat - 80 := by
        rw [BitVec.toNat_sub_of_le]
        · rw [hsp]
          rfl
        · rw [BitVec.le_def, hsp]
          change 80 ≤ _
          omega
      by_contra hout
      apply ha
      apply Bytes.writeAll_outside
      rw [hbase, List.length_map]
      change _ ∨ _ + 8 * 10 ≤ a
      dsimp only at hout
      omega

theorem Settled.write (h : Settled info y) {bytes : Bytes} (hout : y.kernel.heap.initialized = true →
      ∀ a, bytes a ≠ y.kernel.bytes a → a < y.kernel.heap.start ∨ y.kernel.heap.currentEnd ≤ a) :
    Settled info { y with kernel := { y.kernel with bytes := bytes } } := by
  obtain ⟨⟨place, hi, he⟩, hok⟩ := h
  have hstep : Step y (.write bytes) { y with kernel := { y.kernel with bytes := bytes } } := .write
  obtain ⟨place', hi', heff⟩ := hi.step ⟨hstep, trivial⟩
  refine ⟨⟨place', hi', he.call hi hstep heff trivial⟩, ?_⟩
  cases hok with
  | inl hunready => exact .inl hunready
  | inr hready =>
    obtain ⟨hinit, l, hl⟩ := hready
    exact .inr ⟨hinit, l, hl.write fun a ha => .inr (hout hinit a ha)⟩

theorem Extents.outside (hi : Inv info place y) (he : Extents place y) (hinit : y.kernel.heap.initialized = true)
    {region : VirtRegion} (hlive : region ∈ y.live) {a : ℕ} (hle : region.start.addr.toNat ≤ a)
    (hlt : a < region.start.addr.toNat + region.pageCount * 4096) :
    a < y.kernel.heap.start ∨ y.kernel.heap.currentEnd ≤ a := by
  have hpages := (hi.regions region (he.returned region hlive)).2
  have hal := hpages.aligned
  have hup := hpages.upper
  have hfits := hpages.fits
  have hr := he.range hinit
  have hheap := hr.aligned
  have hstop := hr.stop_aligned
  have hn : (a - region.start.addr.toNat) / 4096 < region.pageCount := by omega
  have hval := hpages.toNat hn
  have hmem : (⟨region.start.addr + BitVec.ofNat 64 ((a - region.start.addr.toNat) / 4096 * pageSize)⟩ : VirtAddr) ∈
      regionPages region := List.mem_map.mpr ⟨_, List.mem_range.mpr hn, rfl⟩
  have hnot := he.heapApart region hlive _ hmem
  rw [HeapPage, hval, not_and] at hnot
  have hout := hnot hinit
  omega

/-- The kernel after the stack of a new thread was mapped and its first frame written. -/
theorem Settled.thread (h : Settled info y) {contextEntry entry arg : U64} {name : String} {c c' : Thread.Counters}
    {thread : Thread.KernelThread} {k : Kernel}
    (hrun : Thread.newRaw contextEntry name entry arg y.kernel c = (.ok thread, k, c')) :
    Settled info
      { y with kernel := k, returned := thread.stack.region :: y.returned, live := thread.stack.region :: y.live } := by
  obtain ⟨⟨place, hi, -⟩, -⟩ := id h
  rcases newRaw_cases hi.cursor hrun with ⟨e, he, -⟩ | ⟨e, e', he, -⟩ | ⟨_, k₁, bytes, he, hmap, rfl, hbytes⟩
  · cases he
  · cases he
  · cases he
    have hmapped := h.call ⟨.mapRegion hmap, trivial⟩ trivial
    obtain ⟨⟨place₁, hi₁, he₁⟩, -⟩ := id hmapped
    refine hmapped.write fun hinit a ha => ?_
    obtain ⟨hle, hlt⟩ := hbytes a ha
    obtain ⟨hstop, -, -, -⟩ := stack_bounds hi.cursor hmap
    have hpages := stack_pages hmap
    exact he₁.outside hi₁ hinit List.mem_cons_self hle (by rw [hpages]; omega)

theorem Settled.threadFails (h : Settled info y) {contextEntry entry arg : U64} {name : String} {c c' : Thread.Counters}
    {e : Thread.ThreadError} {k : Kernel} (hrun : Thread.newRaw contextEntry name entry arg y.kernel c = (.error e, k, c')) :
    Settled info { y with kernel := k } := by
  obtain ⟨⟨place, hi, -⟩, -⟩ := id h
  rcases newRaw_cases hi.cursor hrun with ⟨_, -, rfl, -⟩ | ⟨_, e', -, hmap⟩ | ⟨_, _, _, he, -⟩
  · exact h
  · exact h.call ⟨.mapRegionFails hmap, trivial⟩ trivial
  · cases he

/-- The pages right behind the heap are pages of the upper half. -/
theorem HeapRange.behind {h : Heap.HeapState} (hr : HeapRange h) (hroom : h.currentEnd + 0x80000 < 2 ^ 64) {n : ℕ}
    (hn : n ≤ 128) : UpperPages (BitVec.ofNat 64 h.currentEnd) n := by
  have hval : (BitVec.ofNat 64 h.currentEnd).toNat = h.currentEnd := by
    rw [BitVec.toNat_ofNat, Nat.mod_eq_of_lt hr.stop]
  have hup := hr.upper
  have hlt := hr.nonempty
  refine ⟨?_, ?_, ?_⟩
  · rw [hval]
    exact hr.stop_aligned
  · rw [hval]
    omega
  · rw [hval]
    omega

theorem pagesToAlloc_le {needed : ℕ} (h : needed ≤ 128 * 4096 - 32) : Heap.pagesToAlloc needed ≤ 128 := by
  unfold Heap.pagesToAlloc Heap.headerSize pageSize Heap.heapGrowthStepPages
  dsimp only
  split_ifs
  · omega
  · omega

/-- With memory to spare, an allocation fails only for a page that is mapped behind the heap. -/
theorem allocate_iff (hi : Inv info place y) (he : Extents place y) (hinit : y.kernel.heap.initialized = true)
    {l : List Heap.Block} (hrep : Heap.Rep y.kernel.heap y.kernel.bytes l) {layout : Heap.Layout}
    (hmax : layout.requestedSize ≤ 128 * 4096 - 32)
    (hfree : Heap.pagesToAlloc layout.requestedSize + 4 ≤ y.kernel.mem.pmm.freeFrames.card) :
    ∃ p k, Heap.allocate layout y.kernel = some (p, k) ∧ (p ≠ 0 ↔ layout.size = 0 ∨
      (∃ b ∈ l, Heap.Fits layout.requestedSize b) ∨
        ∀ v ∈ Heap.growthPages y.kernel.heap (Heap.pagesToAlloc layout.requestedSize),
          translate y.kernel.mem.tables y.kernel.rootPml4 v = none) := by
  by_cases hsize : layout.size = 0
  · refine ⟨1, y.kernel, ?_, by simp [hsize]⟩
    rw [Heap.allocate, if_pos hsize]
  · have hroom := he.room hi hinit
    have hn := pagesToAlloc_le hmax
    have hslots : UpperSlots y.kernel.rootPml4.addr y.kernel.mem := fun i hup =>
      hi.tables.present i (by simp [isShared, kernelPml4Start, hup])
    have hgrow := hrep.expandHeap_iff hroom hi.tables.owned hi.tables.rooted hi.tables.mode hslots
      ((he.range hinit).behind hroom hn) hn hfree
    obtain ⟨p, k, -, hrun, -, -, -, -, hnonnull⟩ := hrep.allocate hinit hroom layout hsize
    refine ⟨p, k, hrun, hnonnull.trans ?_⟩
    rw [hgrow]
    simp only [hsize, false_or]
    rfl

theorem Settled.step {x x' : System × Thread.Counters} {op : GrowthOp} (h : Settled info x.1) (hstep : GrowthStep x op x') :
    Settled info x'.1 := by
  cases hstep with
  | call hstep hcare => exact h.call hstep hcare
  | newThread hrun => exact h.thread hrun
  | newThreadFails hrun => exact h.threadFails hrun

end Steps

section Runs

variable {info : BootInfo} {k₀ : Kernel} {x : System × Thread.Counters} {ops : List GrowthOp}

theorem Settled.start (hload : info.Loaded) (hvmm : Vmm.init info info.kernel = some k₀) : Settled info (System.start k₀) := by
  have hboot := init_booted hload hvmm
  obtain ⟨place, ho⟩ := Orderly.start hboot
  refine ⟨⟨place, ho.inv, ho.extents⟩, .inl ⟨?_, rfl⟩⟩
  change k₀.heap.initialized = false
  rw [hboot.heap]
  rfl

/-- While memory lasts, an allocation succeeds exactly if a block fits or nothing is mapped behind the heap. -/
theorem grows_while_memory_lasts (hload : info.Loaded) (hvmm : Vmm.init info info.kernel = some k₀) {c : Thread.Counters}
    (hrun : Run GrowthStep (System.start k₀, c) ops x) (hinit : x.1.kernel.heap.initialized = true)
    {layout : Heap.Layout} (hmax : layout.requestedSize ≤ 128 * 4096 - 32)
    (hfree : Heap.pagesToAlloc layout.requestedSize + 4 ≤ x.1.kernel.mem.pmm.freeFrames.card) :
    ∃ p k, Heap.allocate layout x.1.kernel = some (p, k) ∧ (p ≠ 0 ↔ layout.size = 0 ∨
      (∃ l, HeapBlocks x.1 l ∧ ∃ b ∈ l, Heap.Fits layout.requestedSize b) ∨
        ∀ v ∈ Heap.growthPages x.1.kernel.heap (Heap.pagesToAlloc layout.requestedSize),
          translate x.1.kernel.mem.tables x.1.kernel.rootPml4 v = none) := by
  have hsettled : Settled info x.1 :=
    hrun.invariant (fun x => Settled info x.1) (fun _ _ _ h hstep => h.step hstep) (Settled.start hload hvmm)
  obtain ⟨⟨place, hi, he⟩, hok⟩ := hsettled
  rcases hok with ⟨hunready, -⟩ | ⟨-, l, hl⟩
  · rw [hunready] at hinit
    cases hinit
  · obtain ⟨p, k, hall, hiff⟩ := allocate_iff hi he hinit hl.rep hmax hfree
    refine ⟨p, k, hall, ?_⟩
    constructor
    · intro hp
      exact (hiff.mp hp).imp_right fun h => h.imp_left fun hfit => ⟨l, hl, hfit⟩
    · rintro (hsize | ⟨l', hl', hfit⟩ | hnone)
      · exact hiff.mpr (.inl hsize)
      · -- the list of blocks does not matter, the allocation is the same
        obtain ⟨p', k', hall', hiff'⟩ := allocate_iff hi he hinit hl'.rep hmax hfree
        rw [hall] at hall'
        cases hall'
        exact hiff'.mpr (.inr (.inl hfit))
      · exact hiff.mpr (.inr (.inr hnone))

end Runs

section Start

variable {info : BootInfo} {k₀ k₁ : Kernel}

/-- After a boot in low memory the first region is all that is mapped in the upper half. -/
theorem vacant_behind (hload : info.Loaded) (hlow : info.Low) (hvmm : Vmm.init info info.kernel = some k₀) {n : ℕ}
    {size : U64} {permissions : VirtPermissions} {purpose : RegionPurpose} {region : VirtRegion}
    (hmap : allocateAndMapRegion size permissions purpose k₀ = (.ok region, k₁)) (hn : size.toNat / pageSize = n)
    (hpages : UpperPages region.start.addr n) {v : VirtAddr} (hv : UpperPage v)
    (hpast : region.start.addr.toNat + n * 4096 ≤ v.addr.toNat) :
    reach k₁.mem.tables k₀.rootPml4.addr v.path = none := by
  have hboot := init_booted hload hvmm
  obtain ⟨place, hb, hflat⟩ := hboot.tables
  have hwalks := allocated_walks hboot.inOrder hmap
  rw [hn] at hwalks
  rw [hwalks v.path v.path_length]
  · exact Flat.vacant (hflat hlow) hb.owned hb.root (kernel_slot _) hv.upper
  · intro hmem
    obtain ⟨w, hw, hpath⟩ := List.mem_map.mp hmem
    have hin := (mem_pages_path hpages hv).mp ⟨w, hw, hpath.symm⟩
    have hlt := ((mem_pages_iff hpages hv).mp hin).2
    omega

end Start

/-- The sample machine right after `heap::init`. -/
structure SampleHeap (k₀ k : Kernel) : Prop where
  boot : Vmm.init sampleInfo sampleInfo.kernel = some k₀
  heap : Heap.init k₀ = some k
  initialized : k.heap.initialized = true
  blocks : Heap.Rep k.heap k.bytes [⟨131040, true⟩]
  start : k.heap.start = dynamicVirtStart.toNat
  stop : k.heap.currentEnd = dynamicVirtStart.toNat + 0x20000
  cursor : k.vmm.nextDynamicAddr = dynamicVirtStart + 0x20000#64
  apart : ∀ r ∈ k.vmm.regions, r.overlaps ⟨k.vmm.nextDynamicAddr⟩ 0x1000#64 = false
  few : k.vmm.regions.length < maxVirtRegions
  spare : 732 ≤ k.mem.pmm.freeFrames.card
  vacant : ∀ {v}, UpperPage v → k.heap.currentEnd ≤ v.addr.toNat → reach k.mem.tables k.rootPml4.addr v.path = none

theorem sample_start : ∃ k₀ k, SampleHeap k₀ k := by
  obtain ⟨k₀, region, k₁, hvmm, hmap, hheap, hregion, hfree⟩ := heap_starts sampleInfo_loaded sampleInfo_low sampleInfo_clear
    (by rw [sampleInfo_frames]; omega)
  have hboot := init_booted sampleInfo_loaded hvmm
  have hstart : region.start.addr = dynamicVirtStart := by rw [hregion]
  have hsum : (dynamicVirtStart + 0x20000#64).toNat = dynamicVirtStart.toNat + 0x20000 := by decide
  have hstop : region.stop.addr.toNat = region.start.addr.toNat + Heap.initialBytes := by
    rw [VirtRegion.stop, hregion]
    exact hsum
  obtain ⟨reserved, vmm', hres, hk₁, -⟩ := allocated_region hmap
  obtain ⟨hreserved, -, -, -, -, -, -, hvmm'⟩ := reserve_ok hres
  have hregions : k₁.vmm.regions = k₀.vmm.regions ++ [reserved] := by rw [hk₁, hvmm']
  have hcursor : k₁.vmm.nextDynamicAddr = dynamicVirtStart + 0x20000#64 := by
    rw [hk₁, hvmm', hboot.cursor]
    rfl
  have hsub := init_regions hvmm
  refine ⟨k₀, _, hvmm, hheap, rfl, Heap.initBlock_rep (by rw [hstart]; rfl) (by rw [hstart]; decide) hstop k₁, ?_, ?_,
    hcursor, ?_, ?_, ?_, ?_⟩
  · rw [← hstart]
    rfl
  · change region.stop.addr.toNat = _
    rw [hstop, hstart]
    rfl
  · change ∀ r ∈ k₁.vmm.regions, r.overlaps ⟨k₁.vmm.nextDynamicAddr⟩ 0x1000#64 = false
    rw [hcursor, hregions]
    intro r hr
    rcases List.mem_append.mp hr with hold | hnew
    · have hclear : ∀ r ∈ bootRegions sampleInfo, r.overlaps ⟨dynamicVirtStart + 0x20000#64⟩ 0x1000#64 = false := by decide
      exact hclear r (hsub.subset hold)
    · rw [List.mem_singleton.mp hnew, hreserved, hboot.cursor]
      decide
  · change k₁.vmm.regions.length < maxVirtRegions
    have hfew : (bootRegions sampleInfo).length + 1 < maxVirtRegions := by decide
    have hle := hsub.length_le
    rw [hregions, List.length_append, List.length_singleton]
    omega
  · change 732 ≤ k₁.mem.pmm.freeFrames.card
    rw [sampleInfo_frames] at hfree
    omega
  · intro v hv hpast
    have hpages : UpperPages region.start.addr 32 := by
      rw [hstart]
      exact ⟨by decide, by decide, by decide⟩
    have hroot : k₁.rootPml4 = k₀.rootPml4 := (allocateAndMapRegion_outside hmap).1
    change reach k₁.mem.tables k₁.rootPml4.addr v.path = none
    rw [hroot]
    refine vacant_behind sampleInfo_loaded sampleInfo_low hvmm hmap rfl hpages hv ?_
    change region.stop.addr.toNat ≤ _ at hpast
    rw [hstop] at hpast
    exact hpast

def largeLayout : Heap.Layout := { smallLayout with size := 131072, fits := by decide }

theorem largeLayout_requested : largeLayout.requestedSize = 131072 := by decide

theorem largeLayout_pages : Heap.pagesToAlloc largeLayout.requestedSize = 33 := by decide

section Sample

variable {k₀ k : Kernel}

theorem SampleHeap.cursor_toNat (h : SampleHeap k₀ k) :
    k.vmm.nextDynamicAddr.toNat = dynamicVirtStart.toNat + 0x20000 := by
  rw [h.cursor]
  decide

theorem SampleHeap.settled (h : SampleHeap k₀ k) : Settled sampleInfo { System.start k₀ with kernel := k } :=
  (Settled.start sampleInfo_loaded h.boot).call ⟨.heapInit h.heap, trivial⟩ trivial

theorem SampleHeap.run (h : SampleHeap k₀ k) (c : Thread.Counters) :
    Run GrowthStep (System.start k₀, c) [.call .heapInit] ({ System.start k₀ with kernel := k }, c) :=
  .single (.call ⟨.heapInit h.heap, trivial⟩ trivial)

/-- A region of one page, placed where the heap ends. -/
theorem SampleHeap.mapRegion (h : SampleHeap k₀ k) : ∃ region k₁,
    allocateAndMapRegion 0x1000 .kernelData .dynamicKernel k = (.ok region, k₁) ∧ region.start.addr = k.vmm.nextDynamicAddr ∧
      region.pageCount = 1 ∧ k.mem.pmm.freeFrames.card ≤ k₁.mem.pmm.freeFrames.card + 5 := by
  obtain ⟨⟨place, hi, -⟩, -⟩ := h.settled
  obtain ⟨place₀, held₀, ho, hplace⟩ := forget_leaves hi.tables.owned
  have hroot : place₀ k.rootPml4.addr = some (k.rootPml4.addr, []) := (hplace _ _ _).mpr ⟨hi.tables.rooted, by simp⟩
  have hslots : UpperSlots k.rootPml4.addr k.mem := fun i hup =>
    hi.tables.present i (by simp [isShared, kernelPml4Start, hup])
  have hstop := h.stop
  have hspare := h.spare
  have hcursor := h.cursor_toNat
  have hres := reserve_of 0x1000#64 (by decide) (by decide) (by rw [hcursor]; decide) (by rw [hcursor]; decide)
    h.apart h.few .kernelData .dynamicKernel
  have hone : (0x1000#64).toNat / pageSize = 1 := by decide
  have hvac : ∀ v ∈ pagesFrom k.vmm.nextDynamicAddr ((0x1000#64).toNat / pageSize),
      reach k.mem.tables k.rootPml4.addr v.path = none := by
    have hpages : UpperPages k.vmm.nextDynamicAddr ((0x1000#64).toNat / pageSize) :=
      upperPages_reserved hi.cursor (by decide) (by rw [hcursor]; decide)
    intro v hv
    have hup := UpperPages.upperPage hpages hv
    have hle := ((mem_pages_iff hpages hup).mp hv).1
    exact h.vacant hup (by omega)
  obtain ⟨k₁, hmap, hused⟩ := allocateAndMapRegion_ok ho hroot hi.tables.mode rfl hslots hi.cursor hres (by decide) hvac
    (le_trans (by decide) hspare)
  rw [hone] at hused
  exact ⟨_, k₁, hmap, rfl, hone, hused⟩

end Sample

/-- The sample machine is asked for more than its first block can hold. -/
theorem sample_grows : ∃ k, k.heap.initialized = true ∧ ∃ p k', Heap.allocate largeLayout k = some (p, k') ∧
    (p ≠ 0 ↔ largeLayout.size = 0 ∨
      (∃ l, HeapBlocks ⟨k, [], [], [], ∅, []⟩ l ∧ ∃ b ∈ l, Heap.Fits largeLayout.requestedSize b) ∨
        ∀ v ∈ Heap.growthPages k.heap (Heap.pagesToAlloc largeLayout.requestedSize),
          translate k.mem.tables k.rootPml4 v = none) := by
  obtain ⟨k₀, k, h⟩ := sample_start
  have hspare := h.spare
  exact ⟨k, h.initialized, grows_while_memory_lasts sampleInfo_loaded h.boot (h.run ⟨1, 1⟩) h.initialized
    (by rw [largeLayout_requested]; decide) (by rw [largeLayout_pages]; exact le_trans (by decide) hspare)⟩

/-- A region of one page right behind the heap keeps it from growing, with hundreds of frames free. -/
theorem region_blocks_growth : ∃ k₀ x k', Vmm.init sampleInfo sampleInfo.kernel = some k₀ ∧
    Run GrowthStep (System.start k₀, ⟨1, 1⟩)
      [.call .heapInit, .call (.mapRegion 0x1000 .kernelData .dynamicKernel)] x ∧
    x.1.kernel.heap.initialized = true ∧ largeLayout.requestedSize ≤ 128 * 4096 - 32 ∧
    Heap.pagesToAlloc largeLayout.requestedSize + 4 ≤ x.1.kernel.mem.pmm.freeFrames.card ∧
    x.1.kernel.heap.currentEnd + Heap.pagesToAlloc largeLayout.requestedSize * 4096 < dynamicVirtEnd.toNat ∧
    Heap.allocate largeLayout x.1.kernel = some (0, k') := by
  obtain ⟨k₀, k, h⟩ := sample_start
  obtain ⟨region, k₁, hmap, hregion, hcount, hused⟩ := h.mapRegion
  have hspare := h.spare
  have hstop := h.stop
  obtain ⟨-, hheap, hbytes⟩ := allocateAndMapRegion_outside hmap
  have hstep := Step.mapRegion (y := { System.start k₀ with kernel := k }) hmap
  obtain ⟨⟨place₁, hi₁, he₁⟩, -⟩ := h.settled.call ⟨hstep, trivial⟩ trivial
  have hinit : k₁.heap.initialized = true := by
    rw [hheap]
    exact h.initialized
  have hrep : Heap.Rep k₁.heap k₁.bytes [⟨131040, true⟩] := by
    rw [hheap, hbytes]
    exact h.blocks
  have hfree : Heap.pagesToAlloc largeLayout.requestedSize + 4 ≤ k₁.mem.pmm.freeFrames.card := by
    rw [largeLayout_pages]
    omega
  have hmax : largeLayout.requestedSize ≤ 128 * 4096 - 32 := by
    rw [largeLayout_requested]
    decide
  obtain ⟨p, k', hall, hiff⟩ := allocate_iff hi₁ he₁ hinit hrep hmax hfree
  have hnull : p = 0 := by
    by_contra hp
    rcases hiff.mp hp with hsize | ⟨b, hb, -, hfit⟩ | hnone
    · cases hsize
    · rw [List.mem_singleton.mp hb, largeLayout_requested] at hfit
      dsimp only at hfit
      omega
    · -- the page of the region is the first the heap would take
      have hval : (BitVec.ofNat 64 k.heap.currentEnd) = region.start.addr := by
        apply BitVec.eq_of_toNat_eq
        rw [hregion, h.cursor_toNat, hstop]
        decide
      have hpage : (⟨region.start.addr⟩ : VirtAddr) ∈ regionPages region := by
        rw [regionPages, hcount]
        simp [pagesFrom]
      have hgrowth : (⟨region.start.addr⟩ : VirtAddr) ∈ Heap.growthPages k₁.heap
          (Heap.pagesToAlloc largeLayout.requestedSize) := by
        rw [largeLayout_pages, Heap.growthPages, hheap, hval]
        exact List.mem_map.mpr ⟨0, by simp, by simp⟩
      have hup := UpperPages.upperPage (hi₁.regions region List.mem_cons_self).2 hpage
      refine unoccupied_of_translate hi₁ hup (hnone _ hgrowth) ?_
      exact (he₁.occupied hup).mpr (.inl ⟨region, List.mem_cons_self, hpage⟩)
  rw [hnull] at hall
  refine ⟨k₀, _, k', h.boot, .cons (.call ⟨.heapInit h.heap, trivial⟩ trivial) (.single (.call ⟨hstep, trivial⟩ trivial)), hinit, hmax, hfree,
    ?_, hall⟩
  change k₁.heap.currentEnd + _ < _
  rw [hheap, hstop, largeLayout_pages]
  decide

end VenturaOS.Machine
