import VenturaOS.Machine.Invariant

/-!
# Every call keeps the invariant

One case for each call. Besides the invariant, a step reports what it did to
the leaf frames below the kernel root and to the log of ignored results.
-/
namespace VenturaOS.Machine
open Library Memory Pmm Paging Vmm AddressSpaces

/-- CR3 holds the kernel root, or the root of a live space whose id is the current one. -/
def Active (y : System) : Prop :=
  (y.kernel.cr3 = y.kernel.rootPml4.addr ∧ y.kernel.currentAsid = 0) ∨
    ∃ space ∈ y.spaces, space.ownsRoot = true ∧ space.rootPage.addr = y.kernel.cr3 ∧
      space.id = y.kernel.currentAsid

structure Inv (info : BootInfo) (place : Placement) (y : System) : Prop where
  tables : Tables info.frames info.count y.kernel.rootPml4.addr y.spaces y.clients place y.kernel.mem
  nonnull : y.kernel.rootPml4.addr ≠ 0
  handles : ∀ space ∈ y.spaces, space.ownsRoot = false →
    space.rootPage = .null ∨ (space.rootPage = y.kernel.rootPml4 ∧ space.id = 0)
  clients : ∀ f ∈ y.clients, f ∈ info.frames
  regions : ∀ region ∈ y.returned, region.ownsPhysicalPages = true ∧ UpperPages region.start.addr region.pageCount
  cursor : CursorOk y.kernel.vmm
  heapEnd : Heap.EndOk y.kernel.heap
  active : Active y

def SameExtent (k k' : Kernel) : Prop :=
  k'.heap.start = k.heap.start ∧ k'.heap.currentEnd = k.heap.currentEnd ∧ k'.heap.initialized = k.heap.initialized

/-- What a step did to the leaf frames below the kernel root. -/
inductive Effect (root : U64) (place place' : Placement) (y y' : System) : Op → Prop
  | none {op : Op} (leaf : LeafSame root place place') (log : LogOk y.kernel.mem y'.kernel.mem)
      (live : y'.live = y.live) (extent : SameExtent y.kernel y'.kernel) : Effect root place place' y y' op
  | mapped {op : Op} {region : VirtRegion} (returned : Returned root place place' region)
      (log : LogOk y.kernel.mem y'.kernel.mem) (live : y'.live = region :: y.live)
      (extent : SameExtent y.kernel y'.kernel) : Effect root place place' y y' op
  | unmapped {region : VirtRegion} (member : region ∈ y.returned)
      (log : (∀ v ∈ pagesFrom region.start.addr region.pageCount, Occupied root place v.path) →
        LogOk y.kernel.mem y'.kernel.mem)
      (occupied : ∀ q, q.length = 4 → (Occupied root place' q ↔ Occupied root place q ∧
        ∀ v ∈ pagesFrom region.start.addr region.pageCount, q ≠ v.path))
      (live : y'.live = y.live.erase region) (extent : SameExtent y.kernel y'.kernel) :
      Effect root place place' y y' (.unmapRegion region)
  | grown {op : Op} {n : ℕ} (grown : Heap.Grown root place place' y.kernel y'.kernel n) (pos : 0 < n)
      (ready : y.kernel.heap.initialized = true ∨ ∃ n, op = .heapExpand n) (log : LogOk y.kernel.mem y'.kernel.mem) (live : y'.live = y.live) : Effect root place place' y y' op
  | started {region : VirtRegion} (first : y.kernel.heap.initialized = false)
      (returned : Returned root place place' region) (log : LogOk y.kernel.mem y'.kernel.mem)
      (live : y'.live = y.live) (block : ∃ k, y'.kernel = Heap.initBlock region k)
      (size : region.sizeBytes = BitVec.ofNat 64 Heap.initialBytes)
      (limit : region.start.addr.toNat + Heap.initialBytes ≤ dynamicVirtEnd.toNat) :
      Effect root place place' y y' .heapInit

section

variable {info : BootInfo} {place place' : Placement} {y y' : System} {k' : Kernel}

/-- The invariant after a call that leaves the clients' side and CR3 alone. -/
theorem Inv.kernelCall (h : Inv info place y)
    (ho : Owned (kernelPolicy y.kernel.rootPml4.addr info.frames) info.frames info.count place' y.clients k'.mem)
    (hs : KernelStep y.kernel.rootPml4.addr place place' y.kernel.mem k'.mem) (hout : Heap.SameOutside y.kernel k')
    (hcur : CursorOk k'.vmm) (hend : Heap.EndOk k'.heap) : Inv info place' { y with kernel := k' } where
  tables := by
    simp only [hout.root]
    exact h.tables.kernelStep ho hs
  nonnull := by simp only [hout.root]; exact h.nonnull
  handles := by simp only [hout.root]; exact h.handles
  clients := h.clients
  regions := h.regions
  cursor := hcur
  heapEnd := hend
  active := by
    have ha := h.active
    simp only [Active] at ha ⊢
    rw [hout.cr3, hout.root, hout.currentAsid]
    exact ha

theorem Inv.sameFrames (h : Inv info place y) (hf : Heap.SameFrames y.kernel k') :
    Inv info place { y with kernel := k' } := by
  refine h.kernelCall ?_ ?_ hf.outside ?_ ?_
  · rw [hf.mem]
    exact h.tables.owned
  · rw [hf.mem]
    exact .refl ..
  · rw [hf.vmm]
    exact h.cursor
  · rw [Heap.EndOk, hf.stop]
    exact h.heapEnd

/-- The ghost lists of payloads and live regions play no part. -/
theorem Inv.relist (h : Inv info place y) (live : List VirtRegion) (payloads : List (ℕ × Heap.Layout)) :
    Inv info place { y with live := live, payloads := payloads } :=
  ⟨h.tables, h.nonnull, h.handles, h.clients, h.regions, h.cursor, h.heapEnd, h.active⟩

theorem Inv.expand (h : Inv info place y) {n : ℕ} {grew : Bool} (hrun : Heap.expandHeap n y.kernel = some (grew, k')) :
    ∃ place', Inv info place' { y with kernel := k' } ∧
      ∀ op, (y.kernel.heap.initialized = true ∨ ∃ n, op = .heapExpand n) →
        Effect y.kernel.rootPml4.addr place place' y { y with kernel := k' } op := by
  rcases Heap.expandHeap_cases h.tables.owned h.tables.rooted h.tables.low h.tables.mode rfl h.cursor h.heapEnd hrun with
    ⟨place', ho, hs, hlog, hcur, hend, hout, hgrew, hsame⟩
  refine ⟨place', h.kernelCall ho hs hout hcur hend, fun op hready => ?_⟩
  cases grew with
  | false =>
    rcases hsame rfl with ⟨hleaf, hk⟩
    refine .none hleaf hlog rfl ?_
    simp only [SameExtent]
    rw [hk]
    exact ⟨rfl, rfl, rfl⟩
  | true =>
    have hpos := Heap.pagesToAlloc_ge n
    exact .grown (hgrew rfl) (by omega) hready hlog rfl

/-- An effect seen past a call that works on the block list alone. -/
theorem Effect.sameFrames {root : U64} {op : Op} {k₁ k₂ : Kernel}
    (h : Effect root place place' y { y with kernel := k₁ } op) (hop : op ≠ .heapInit) (hf : Heap.SameFrames k₁ k₂) :
    Effect root place place' y { y with kernel := k₂ } op := by
  have hlog {s : PageMemory} (hl : LogOk s k₁.mem) : LogOk s k₂.mem := by rw [hf.mem]; exact hl
  have hext (he : SameExtent y.kernel k₁) : SameExtent y.kernel k₂ :=
    ⟨hf.start.trans he.1, hf.stop.trans he.2.1, hf.initialized.trans he.2.2⟩
  cases h with
  | none leaf log live extent => exact .none leaf (hlog log) live (hext extent)
  | mapped returned log live extent => exact .mapped returned (hlog log) live (hext extent)
  | unmapped member log occupied live extent =>
    exact .unmapped member (fun hv => hlog (log hv)) occupied live (hext extent)
  | grown g pos ready log live =>
    exact .grown ⟨g.small, hf.start.trans g.start, hf.initialized.trans g.initialized, hf.stop.trans g.stop, g.vacant,
      g.occupied⟩ pos ready (hlog log) live
  | started => exact absurd rfl hop

/-- The list of payloads plays no part in it. -/
theorem Effect.relist {root : U64} {op : Op} (h : Effect root place place' y y' op) (payloads : List (ℕ × Heap.Layout)) :
    Effect root place place' y { y' with payloads := payloads } op := by
  cases h with
  | none leaf log live extent => exact .none leaf log live extent
  | mapped returned log live extent => exact .mapped returned log live extent
  | unmapped member log occupied live extent => exact .unmapped member log occupied live extent
  | grown g pos ready log live => exact .grown g pos ready log live
  | started first returned log live block size limit => exact .started first returned log live block size limit

theorem Inv.allocate (h : Inv info place y) {layout : Heap.Layout} {p : ℕ}
    (hrun : Heap.allocate layout y.kernel = some (p, k')) :
    ∃ place', Inv info place' { y with kernel := k' } ∧
      Effect y.kernel.rootPml4.addr place place' y { y with kernel := k' } (.heapAllocate layout) := by
  rcases Heap.allocate_frames hrun with hf | ⟨grew, k₁, hready, hexp, hf⟩
  · refine ⟨place, h.sameFrames hf, .none (.refl _ _) ?_ rfl ⟨hf.start, hf.stop, hf.initialized⟩⟩
    simp only [hf.mem]
    exact .refl _
  · rcases h.expand hexp with ⟨place', h', heff⟩
    exact ⟨place', h'.sameFrames (y := { y with kernel := k₁ }) hf, (heff _ (.inl hready)).sameFrames (by simp) hf⟩

theorem Inv.mapRegion (h : Inv info place y) {size : U64} {permissions : VirtPermissions} {purpose : RegionPurpose}
    {result : Except VmmError VirtRegion}
    (hrun : allocateAndMapRegion size permissions purpose y.kernel = (result, k')) :
    ∃ place', Inv info place' { y with kernel := k' } ∧ LogOk y.kernel.mem k'.mem ∧ k'.heap = y.kernel.heap ∧
      k'.rootPml4 = y.kernel.rootPml4 ∧
      (∀ region, result = .ok region → Returned y.kernel.rootPml4.addr place place' region) ∧
      (∀ e, result = .error e → LeafSame y.kernel.rootPml4.addr place place') := by
  rcases allocateAndMapRegion_cases h.tables.owned h.tables.rooted h.tables.low h.tables.mode rfl h.cursor hrun with
    ⟨place', ho, hs, hlog, hcur, hk, hok, herr⟩
  have hout : Heap.SameOutside y.kernel k' := by
    rw [hk]
    exact ⟨rfl, rfl, rfl, rfl⟩
  have hheap : k'.heap = y.kernel.heap := by rw [hk]
  exact ⟨place', h.kernelCall ho hs hout hcur (by rw [hheap]; exact h.heapEnd), hlog, hheap, hout.root, hok, herr⟩

theorem Inv.unmapRegion (h : Inv info place y) {region : VirtRegion} (hm : region ∈ y.returned) :
    ∃ place', Inv info place' { y with kernel := (Vmm.unmapRegion region y.kernel).2 } ∧
      Effect y.kernel.rootPml4.addr place place' y
        { y with kernel := (Vmm.unmapRegion region y.kernel).2, live := y.live.erase region } (.unmapRegion region) := by
  rcases h.regions region hm with ⟨howns, hpages⟩
  rcases unmapRegion_cases h.tables.owned h.tables.rooted rfl h.cursor howns hpages with
    ⟨place', ho, hs, hcur, hlog, hocc⟩
  exact ⟨place', h.kernelCall ho hs ⟨rfl, rfl, rfl, rfl⟩ hcur h.heapEnd, .unmapped hm hlog hocc rfl ⟨rfl, rfl, rfl⟩⟩

theorem Inv.heapInit (h : Inv info place y) (hrun : Heap.init y.kernel = some k') :
    ∃ place', Inv info place' { y with kernel := k' } ∧
      Effect y.kernel.rootPml4.addr place place' y { y with kernel := k' } .heapInit := by
  cases hinit : y.kernel.heap.initialized with
  | true =>
    rw [Heap.init_initialized hinit] at hrun
    cases hrun
    exact ⟨place, h, .none (.refl _ _) (.refl _) rfl ⟨rfl, rfl, rfl⟩⟩
  | false =>
    rcases Heap.init_cases hrun hinit with ⟨region, k₁, hmap, rfl⟩
    rcases h.mapRegion hmap with ⟨place', h', hlog, -, hroot, hok, -⟩
    rcases allocated_placed hmap with ⟨hstart, hsize, hal, hstop, hend⟩
    have hblock : Inv info place' { y with kernel := Heap.initBlock region k₁ } := by
      have hbound : dynamicVirtEnd.toNat < 2 ^ 64 := by decide
      have hlow : dynamicVirtStart.toNat = 2 ^ 64 - 2 ^ 47 := rfl
      rcases h.cursor with ⟨hca, hcs⟩
      have hendOk : Heap.EndOk (Heap.initBlock region k₁).heap := by
        simp only [Heap.EndOk, Heap.initBlock]
        rw [hstop, hstart] at hend ⊢
        generalize (BitVec.ofNat 64 Heap.initialBytes).toNat = size at hal hend
        omega
      exact ⟨h'.tables, h'.nonnull, h'.handles, h'.clients, h'.regions, h'.cursor, hendOk, h'.active⟩
    have hlimit : region.start.addr.toNat + Heap.initialBytes ≤ dynamicVirtEnd.toNat := by
      rw [hstop] at hend
      exact hend
    exact ⟨place', hblock, .started hinit (hok region rfl) hlog rfl ⟨k₁, rfl⟩ hsize hlimit⟩

/-- A live or bootstrap handle names the root of a tree. -/
theorem Inv.handle_placed (h : Inv info place y) {space : AddressSpace} (hm : space ∈ y.spaces)
    (hnz : space.rootPage.addr ≠ 0) : place space.rootPage.addr = some (space.rootPage.addr, []) := by
  cases hl : space.ownsRoot with
  | true => exact (h.tables.live hm hl).1
  | false =>
    rcases h.handles space hm hl with he | ⟨he, -⟩
    · rw [he] at hnz
      exact absurd rfl hnz
    · rw [he]
      exact h.tables.rooted

/-- The invariant after a call that changes page tables below one root, at private addresses. -/
theorem Inv.privateCall (h : Inv info place y) {r : U64} {mem : PageMemory}
    (ho : Owned (kernelPolicy y.kernel.rootPml4.addr info.frames) info.frames info.count place' y.clients mem)
    (hs : PrivateStep r place place' y.kernel.mem mem) :
    Inv info place' { y with kernel := { y.kernel with mem := mem } } :=
  ⟨h.tables.privateStep ho hs, h.nonnull, h.handles, h.clients, h.regions, h.cursor, h.heapEnd, h.active⟩

/-- `AddressSpace::map_page` is a private step, whatever its arguments. -/
theorem Inv.mapPage_private (h : Inv info place y) {space : AddressSpace} (hm : space ∈ y.spaces) {v : VirtAddr}
    (hnz : isPrivateAddr v = true → space.rootPage.addr ≠ 0) (phys : PhysPage) (flags : PageTableFlags) :
    ∃ place' mem, (AddressSpaces.mapPage space v phys flags y.kernel).2 = { y.kernel with mem := mem } ∧
      Owned (kernelPolicy y.kernel.rootPml4.addr info.frames) info.frames info.count place' y.clients mem ∧
      PrivateStep space.rootPage.addr place place' y.kernel.mem mem := by
  by_cases hv : isPrivateAddr v = true
  · rcases privateMap h.tables.owned (h.handle_placed hm (hnz hv)) h.tables.mode hv phys flags with ⟨place', ho, hs⟩
    exact ⟨place', _, mapPage_state hv phys flags y.kernel, ho, hs⟩
  · exact ⟨place, y.kernel.mem, mapPage_foreign hv phys flags y.kernel, h.tables.owned, .refl ..⟩

/-- `AddressSpace::unmap_page` is a private step that places nothing. -/
theorem Inv.unmapPage_private (h : Inv info place y) {space : AddressSpace} (hm : space ∈ y.spaces) {v : VirtAddr}
    (hnz : isPrivateAddr v = true → space.rootPage.addr ≠ 0) :
    ∃ mem, (AddressSpaces.unmapPage space v y.kernel).2 = { y.kernel with mem := mem } ∧
      Owned (kernelPolicy y.kernel.rootPml4.addr info.frames) info.frames info.count place y.clients mem ∧
      PrivateStep space.rootPage.addr place place y.kernel.mem mem := by
  by_cases hv : isPrivateAddr v = true
  · rcases privateUnmap h.tables.owned (h.handle_placed hm (hnz hv)) hv with ⟨ho, hs⟩
    exact ⟨_, unmapPage_state hv y.kernel, ho, hs⟩
  · exact ⟨y.kernel.mem, unmapPage_foreign hv y.kernel, h.tables.owned, .refl ..⟩

/-- A step that leaves heap and regions alone and frees nothing. -/
theorem Effect.quiet {root : U64} {op : Op} (leaf : LeafSame root place place') (log : LogOk y.kernel.mem y'.kernel.mem)
    (live : y'.live = y.live) (heap : y'.kernel.heap = y.kernel.heap) : Effect root place place' y y' op :=
  .none leaf log live ⟨by rw [heap], by rw [heap], by rw [heap]⟩

theorem Inv.newSpace (h : Inv info place y) {space : AddressSpace} (hrun : AddressSpaces.new y.kernel = (.ok space, k')) :
    ∃ place', Inv info place' { y with kernel := k', spaces := y.spaces ++ [space] } ∧ space.ownsRoot = true ∧
      Forest.prune place' space.rootPage.addr = place ∧ LeafSame y.kernel.rootPml4.addr place place' ∧
      LogOk y.kernel.mem k'.mem ∧ k'.heap = y.kernel.heap := by
  unfold AddressSpaces.new at hrun
  rcases h.tables.owned.allocatePage_cases with ⟨he, -⟩ | ⟨f, pmm, he, hfree, -, ho⟩
  · rw [he] at hrun
    cases hrun
  · rw [he] at hrun
    simp only [Prod.mk.injEq, Except.ok.injEq] at hrun
    rcases hrun with ⟨rfl, rfl⟩
    rcases h.tables.owned.free_unplaced hfree with ⟨hvac, hout⟩
    have hne : y.kernel.rootPml4.addr ≠ f := by
      intro hr
      have hrooted := h.tables.rooted
      rw [hr, hvac] at hrooted
      cases hrooted
    have hzero : ({ y.kernel.mem with pmm := pmm }.writeTable f .zero).tables f = .zero := Function.update_self ..
    have hkern : ({ y.kernel.mem with pmm := pmm }.writeTable f .zero).tables y.kernel.rootPml4.addr =
        y.kernel.mem.tables y.kernel.rootPml4.addr := Function.update_of_ne hne ..
    rw [hzero, hkern]
    refine ⟨Function.update place f (some (f, [])), ⟨?_, h.nonnull, ?_, h.clients, h.regions, h.cursor, h.heapEnd, ?_⟩,
      rfl, ?_, ?_, ?_, rfl⟩
    · have hroot : (⟨y.kernel.nextAsid, ⟨f⟩, true⟩ : AddressSpace).rootPage = ⟨f⟩ := rfl
      have htab := h.tables.addSpace hout (h.tables.owned.frames.free_subset hfree) ho rfl rfl
        (t := fun i => if isShared i then y.kernel.mem.tables y.kernel.rootPml4.addr i else PageTable.zero i)
        (fun i hi => by simp only [hi, if_true]) (fun i hi => by simp only [hi, Bool.false_eq_true, if_false]; rfl) hroot rfl
      -- the frame is first cleared, then the shared entries are copied in
      have hmem : ({ y.kernel.mem with pmm := pmm }.writeTable f .zero).writeTable f
          (fun i => if isShared i then y.kernel.mem.tables y.kernel.rootPml4.addr i else PageTable.zero i) =
          ({ y.kernel.mem with pmm := pmm }).writeTable f
            (fun i => if isShared i then y.kernel.mem.tables y.kernel.rootPml4.addr i else PageTable.zero i) := by
        simp only [PageMemory.writeTable, Function.update_idem]
      rw [hmem]
      exact htab
    · intro sp hsp hl
      rcases List.mem_append.mp hsp with hsp | hsp
      · exact h.handles sp hsp hl
      · rw [List.mem_singleton.mp hsp] at hl
        cases hl
    · exact h.active.imp_right fun ⟨sp, hsp, hrest⟩ => ⟨sp, List.mem_append_left _ hsp, hrest⟩
    · exact Forest.prune_update h.tables.owned.forest hvac
    · intro g q hq
      by_cases hgf : g = f
      · subst hgf
        rw [Function.update_self, hvac]
        constructor
        · intro he
          cases he
          cases hq
        · intro he
          cases he
      · rw [Function.update_of_ne hgf]
    · exact .of_eq rfl

/-- With a frame left, a space can be created. -/
theorem Inv.newSpace_ok (h : Inv info place y) (hfree : y.kernel.mem.pmm.freeFrames.Nonempty) :
    ∃ space k', AddressSpaces.new y.kernel = (.ok space, k') ∧
      y.kernel.mem.pmm.freeFrames.card = k'.mem.pmm.freeFrames.card + 1 := by
  unfold AddressSpaces.new
  rcases h.tables.owned.allocatePage_cases with ⟨-, hempty⟩ | ⟨f, pmm, he, hf, herase, -⟩
  · rw [hempty] at hfree
    exact absurd hfree Finset.not_nonempty_empty
  · rw [he]
    refine ⟨_, _, rfl, ?_⟩
    change _ = pmm.freeFrames.card + 1
    rw [herase, Finset.card_erase_add_one hf]

theorem Inv.newSpace_fails (h : Inv info place y) {e : AddressSpaceError}
    (hrun : AddressSpaces.new y.kernel = (.error e, k')) : k' = y.kernel := by
  unfold AddressSpaces.new at hrun
  rcases h.tables.owned.allocatePage_cases with ⟨he, -⟩ | ⟨f, pmm, he, -⟩
  · rw [he] at hrun
    cases hrun
    rfl
  · rw [he] at hrun
    cases hrun

theorem Inv.activate (h : Inv info place y) {space : AddressSpace} (hm : space ∈ y.spaces) :
    Inv info place { y with kernel := AddressSpaces.activate space y.kernel } := by
  unfold AddressSpaces.activate
  split_ifs with hz
  · exact h
  · refine ⟨h.tables, h.nonnull, h.handles, h.clients, h.regions, h.cursor, h.heapEnd, ?_⟩
    cases hl : space.ownsRoot with
    | true => exact .inr ⟨space, hm, hl, rfl, rfl⟩
    | false =>
      rcases h.handles space hm hl with he | ⟨he, hid⟩
      · rw [he] at hz
        exact absurd rfl hz
      · exact .inl ⟨by simp only [he], hid⟩

theorem Inv.bootstrapSpace (h : Inv info place y) :
    Inv info place { y with spaces := y.spaces ++ [bootstrap y.kernel] } := by
  refine ⟨h.tables.addHandle rfl, h.nonnull, ?_, h.clients, h.regions, h.cursor, h.heapEnd, ?_⟩
  · intro sp hsp hl
    rcases List.mem_append.mp hsp with hsp | hsp
    · exact h.handles sp hsp hl
    · rw [List.mem_singleton.mp hsp]
      exact .inr ⟨rfl, rfl⟩
  · exact h.active.imp_right fun ⟨sp, hsp, hrest⟩ => ⟨sp, List.mem_append_left _ hsp, hrest⟩

/-- Masking the low twelve bits of CR3 does nothing to the address of a frame. -/
theorem cr3_mask {a : U64} (h : a.toNat % 4096 = 0) : a &&& ~~~0xFFF#64 = a := by
  have hdvd : 2 ^ 12 ∣ a.toNat := Nat.dvd_of_mod_eq_zero h
  ext i hi
  rw [BitVec.getElem_and]
  by_cases hlow : i < 12
  · have hbit : a[i] = false := by
      rw [BitVec.getElem_eq_testBit_toNat]
      rcases hdvd with ⟨m, hm⟩
      rw [hm, Nat.testBit_two_pow_mul]
      simp only [ge_iff_le, Bool.and_eq_false_imp, decide_eq_true_eq]
      omega
    rw [hbit, Bool.false_and]
  · have hmask : (~~~0xFFF#64)[i] = true := by
      rw [BitVec.getElem_not, Bool.not_eq_true', BitVec.getElem_eq_testBit_toNat]
      exact Nat.testBit_lt_two_pow (lt_of_lt_of_le (by decide : (0xFFF#64).toNat < 2 ^ 12)
        (Nat.pow_le_pow_right (by omega) (by omega)))
    rw [hmask, Bool.and_true]

/-- What is left of a space after `destroy`. -/
def destroyed (space : AddressSpace) : AddressSpace := { space with rootPage := PhysPage.null, ownsRoot := false }

/-- Switching away from a space about to be torn down. -/
def leave (space : AddressSpace) (k : Kernel) : Kernel :=
  if k.cr3 &&& ~~~0xFFF#64 = space.rootPage.addr then AddressSpaces.activate (bootstrap k) k else k

theorem leave_mem (space : AddressSpace) (k : Kernel) : leave space k =
    { k with cr3 := (leave space k).cr3, currentAsid := (leave space k).currentAsid } := by
  unfold leave AddressSpaces.activate
  split_ifs <;> rfl

theorem destroy_live {space : AddressSpace} (hl : space.ownsRoot = true) (hnz : space.rootPage.addr ≠ 0) (k : Kernel) :
    AddressSpaces.destroy space k = (destroyed space, { leave space k with
      mem := discardFree (freePrivateTables space.rootPage (leave space k).mem).mem space.rootPage }) := by
  unfold AddressSpaces.destroy
  rw [hl, Bool.not_true, Bool.false_or, if_neg (by simpa using hnz)]
  rfl

/-- On a handle that owns no root, or the null one, `destroy` does nothing. -/
theorem destroy_dead {space : AddressSpace} (hlive : ¬(space.ownsRoot = true ∧ space.rootPage.addr ≠ 0)) (k : Kernel) :
    AddressSpaces.destroy space k = (space, k) := by
  unfold AddressSpaces.destroy
  rw [if_pos]
  cases hl : space.ownsRoot with
  | true => simpa [hl] using hlive
  | false => rfl

/-- `destroy` writes no table but the root it frees. -/
theorem Inv.destroy_elsewhere (h : Inv info place y) {space : AddressSpace} (hm : space ∈ y.spaces)
    (hl : space.ownsRoot = true) :
    (AddressSpaces.destroy space y.kernel).2.mem.bootstrapPool = y.kernel.mem.bootstrapPool ∧
      ∀ a, a ≠ space.rootPage.addr → (AddressSpaces.destroy space y.kernel).2.mem.tables a = y.kernel.mem.tables a := by
  have hnz := (h.tables.live_frame hm hl).2.2
  obtain ⟨hplaced, hne⟩ := h.tables.live hm hl
  have hmem : (AddressSpaces.destroy space y.kernel).2.mem =
      discardFree (freePrivateTables space.rootPage y.kernel.mem).mem space.rootPage := by
    rw [destroy_live hl hnz, leave_mem]
  have hcases := destroy_cases h.tables.owned hplaced hne
  rw [show (⟨space.rootPage.addr⟩ : PhysPage) = space.rootPage from rfl, ← hmem] at hcases
  obtain ⟨-, hoff, hpool, -⟩ := hcases
  exact ⟨hpool, hoff⟩

/-- After leaving, CR3 holds the kernel root or the root of another live space. -/
theorem Inv.leave_active (h : Inv info place y) {i : ℕ} {space : AddressSpace} (hi : y.spaces[i]? = some space) :
    ((leave space y.kernel).cr3 = y.kernel.rootPml4.addr ∧ (leave space y.kernel).currentAsid = 0) ∨
      ∃ sp ∈ y.spaces.set i (destroyed space), sp.ownsRoot = true ∧ sp.rootPage.addr = (leave space y.kernel).cr3 ∧
        sp.id = (leave space y.kernel).currentAsid := by
  unfold leave
  split_ifs with hcr3
  · left
    unfold AddressSpaces.activate
    rw [if_neg (show ¬ (bootstrap y.kernel).rootPage.addr = 0 from h.nonnull)]
    exact ⟨rfl, rfl⟩
  · rcases h.active with hk | ⟨sp, hsp, hsl, hroot, hid⟩
    · exact .inl hk
    · refine .inr ⟨sp, ?_, hsl, hroot, hid⟩
      rcases List.mem_iff_getElem?.mp hsp with ⟨j, hj⟩
      have hij : i ≠ j := by
        rintro rfl
        rw [hi] at hj
        cases hj
        have hal := (h.tables.owned.frames.address (h.tables.live_frame hsp hsl).1).1
        rw [← hroot, cr3_mask hal] at hcr3
        exact hcr3 rfl
      exact List.mem_of_getElem? (by rw [List.getElem?_set_ne hij, hj])

theorem Inv.destroy (h : Inv info place y) {i : ℕ} {space : AddressSpace} (hi : y.spaces[i]? = some space) :
    ∃ place', Inv info place' { y with
        kernel := (AddressSpaces.destroy space y.kernel).2
        spaces := y.spaces.set i (AddressSpaces.destroy space y.kernel).1 } ∧
      LeafSame y.kernel.rootPml4.addr place place' ∧
      LogOk y.kernel.mem (AddressSpaces.destroy space y.kernel).2.mem ∧
      (AddressSpaces.destroy space y.kernel).2.heap = y.kernel.heap := by
  have hm : space ∈ y.spaces := List.mem_of_getElem? hi
  by_cases hlive : space.ownsRoot = true ∧ space.rootPage.addr ≠ 0
  · rcases hlive with ⟨hl, hnz⟩
    have hactive := h.leave_active hi
    rw [destroy_live hl hnz, leave_mem]
    generalize (leave space y.kernel).cr3 = cr3 at hactive ⊢
    generalize (leave space y.kernel).currentAsid = asid at hactive ⊢
    rcases h.tables.live hm hl with ⟨hplaced, hne⟩
    have hcases := destroy_cases h.tables.owned hplaced hne
    rw [show (⟨space.rootPage.addr⟩ : PhysPage) = space.rootPage from rfl] at hcases
    simp only
    generalize discardFree (freePrivateTables space.rootPage y.kernel.mem).mem space.rootPage = mem at hcases ⊢
    rcases hcases with ⟨ho, htab, -, hmode, hlog, -⟩
    refine ⟨Forest.prune place space.rootPage.addr,
      ⟨h.tables.dropSpace hi hl rfl ho htab hmode, h.nonnull, ?_, h.clients, h.regions, h.cursor, h.heapEnd, hactive⟩, ?_, hlog, trivial⟩
    · intro sp hsp hsl
      rcases List.mem_or_eq_of_mem_set hsp with hsp | rfl
      · exact h.handles sp hsp hsl
      · exact .inl rfl
    · intro g q _
      rw [Forest.prune_eq_some]
      exact ⟨And.left, fun hg => ⟨hg, Ne.symm hne⟩⟩
  · have hset : y.spaces.set i space = y.spaces := by
      apply List.ext_getElem?
      intro j
      rw [List.getElem?_set]
      split_ifs with hij hlt
      · rw [← hij, hi]
      · exact absurd (hij ▸ (List.getElem?_eq_some_iff.mp hi).1) hlt
      · rfl
    rw [destroy_dead hlive, hset]
    exact ⟨place, h, .refl _ _, .refl _, rfl⟩

theorem Inv.takeFrame (h : Inv info place y) {page : PhysPage} {mem : PageMemory}
    (hrun : allocatePage y.kernel.mem = (some page, mem)) :
    Inv info place { y with kernel := { y.kernel with mem := mem }, clients := insert page.addr y.clients } ∧
      mem.discarded = y.kernel.mem.discarded := by
  rcases h.tables.owned.allocatePage_cases with ⟨he, -⟩ | ⟨f, pmm, he, hfree, -, ho⟩
  · rw [he] at hrun
    cases hrun
  · rw [he] at hrun
    cases hrun
    refine ⟨⟨h.tables.retake ho rfl rfl rfl, h.nonnull, h.handles, ?_, h.regions, h.cursor, h.heapEnd, h.active⟩, rfl⟩
    intro g hg
    rcases Finset.mem_insert.mp hg with rfl | hg
    · exact h.tables.owned.frames.free_subset hfree
    · exact h.clients g hg

theorem Inv.takeFrame_fails (h : Inv info place y) {mem : PageMemory}
    (hrun : allocatePage y.kernel.mem = (none, mem)) : mem = y.kernel.mem := by
  rcases h.tables.owned.allocatePage_cases with ⟨he, -⟩ | ⟨f, pmm, he, -, -, ho⟩
  · rw [he] at hrun
    cases hrun
    rfl
  · rw [he] at hrun
    cases hrun

theorem Inv.freeFrame (h : Inv info place y) {f : U64} {mem : PageMemory} {result : Except PageFreeError Unit}
    (hf : f ∈ y.clients) (hrun : freePage ⟨f⟩ y.kernel.mem = (result, mem)) :
    Inv info place { y with kernel := { y.kernel with mem := mem }, clients := y.clients.erase f } ∧
      mem.discarded = y.kernel.mem.discarded := by
  rcases h.tables.owned.freePage_held hf (h.clients f hf) with ⟨pmm, he, -, ho⟩
  rw [he] at hrun
  cases hrun
  exact ⟨⟨h.tables.retake ho rfl rfl rfl, h.nonnull, h.handles, fun g hg => h.clients g (Finset.mem_of_mem_erase hg),
    h.regions, h.cursor, h.heapEnd, h.active⟩, rfl⟩

/-- What is returned to a client is fit to be unmapped later. -/
theorem Inv.keepRegion (h : Inv info place y) {region : VirtRegion} (howns : region.ownsPhysicalPages = true)
    (hpages : UpperPages region.start.addr region.pageCount) (live : List VirtRegion) :
    Inv info place { y with returned := region :: y.returned, live := live } := by
  refine ⟨h.tables, h.nonnull, h.handles, h.clients, ?_, h.cursor, h.heapEnd, h.active⟩
  intro q hq
  rcases List.mem_cons.mp hq with rfl | hq
  · exact ⟨howns, hpages⟩
  · exact h.regions q hq

theorem Inv.step {op : Op} (h : Inv info place y) (hstep : LiveStep y op y') :
    ∃ place', Inv info place' y' ∧ Effect y.kernel.rootPml4.addr place place' y y' op := by
  obtain ⟨hstep, hlive⟩ := hstep
  cases hstep with
  | heapInit hrun => exact h.heapInit hrun
  | heapExpand hrun =>
    rcases h.expand hrun with ⟨place', h', heff⟩
    exact ⟨place', h', heff _ (.inr ⟨_, rfl⟩)⟩
  | heapAllocate hrun =>
    rcases h.allocate hrun with ⟨place', h', heff⟩
    exact ⟨place', h'.relist _ _, heff.relist _⟩
  | heapDeallocate =>
    have hf := Heap.deallocate_frames ‹ℕ› ‹Heap.Layout› y.kernel
    refine ⟨place, (h.sameFrames hf).relist _ _, .none (.refl _ _) ?_ rfl ⟨hf.start, hf.stop, hf.initialized⟩⟩
    simp only [hf.mem]
    exact .refl _
  | write =>
    exact ⟨place, ⟨h.tables, h.nonnull, h.handles, h.clients, h.regions, h.cursor, h.heapEnd, h.active⟩,
      .quiet (.refl _ _) (.refl _) rfl rfl⟩
  | mapRegion hrun =>
    rcases h.mapRegion hrun with ⟨place', h', hlog, hheap, -, hok, -⟩
    have hret := hok _ rfl
    exact ⟨place', h'.keepRegion hret.owns hret.pages _, .mapped hret hlog rfl ⟨by rw [hheap], by rw [hheap], by rw [hheap]⟩⟩
  | mapRegionFails hrun =>
    rcases h.mapRegion hrun with ⟨place', h', hlog, hheap, -, -, herr⟩
    exact ⟨place', h', .quiet (herr _ rfl) hlog rfl hheap⟩
  | unmapRegion hm =>
    rcases h.unmapRegion hm with ⟨place', h', heff⟩
    exact ⟨place', h'.relist _ _, heff⟩
  | newSpace hrun =>
    rcases h.newSpace hrun with ⟨place', h', -, -, hleaf, hlog, hheap⟩
    exact ⟨place', h', .quiet hleaf hlog rfl hheap⟩
  | newSpaceFails hrun =>
    cases h.newSpace_fails hrun
    exact ⟨place, h, .quiet (.refl _ _) (.refl _) rfl rfl⟩
  | bootstrapSpace => exact ⟨place, h.bootstrapSpace, .quiet (.refl _ _) (.refl _) rfl rfl⟩
  | activate hi =>
    refine ⟨place, h.activate (List.mem_of_getElem? hi), .quiet (.refl _ _) (.of_eq ?_) rfl ?_⟩
    · unfold AddressSpaces.activate
      split_ifs <;> rfl
    · unfold AddressSpaces.activate
      split_ifs <;> rfl
  | mapPage hi =>
    rcases h.mapPage_private (List.mem_of_getElem? hi) (hlive _ hi) ‹PhysPage› ‹PageTableFlags› with
      ⟨place', mem, he, ho, hs⟩
    rw [he]
    exact ⟨place', h.privateCall ho hs, .quiet hs.leafSame (.of_eq hs.boot.log) rfl rfl⟩
  | unmapPage hi =>
    rcases h.unmapPage_private (List.mem_of_getElem? hi) (hlive _ hi) with ⟨mem, he, ho, hs⟩
    rw [he]
    exact ⟨place, h.privateCall ho hs, .quiet hs.leafSame (.of_eq hs.boot.log) rfl rfl⟩
  | destroy hi =>
    rcases h.destroy hi with ⟨place', h', hleaf, hlog, hheap⟩
    exact ⟨place', h', .quiet hleaf hlog rfl hheap⟩
  | takeFrame hrun =>
    rcases h.takeFrame hrun with ⟨h', hlog⟩
    exact ⟨place, h', .quiet (.refl _ _) (.of_eq hlog) rfl rfl⟩
  | takeFrameFails hrun =>
    cases h.takeFrame_fails hrun
    exact ⟨place, h, .quiet (.refl _ _) (.refl _) rfl rfl⟩
  | freeFrame hf hrun =>
    rcases h.freeFrame hf hrun with ⟨h', hlog⟩
    exact ⟨place, h', .quiet (.refl _ _) (.of_eq hlog) rfl rfl⟩

theorem Inv.start (h : Booted info k') :
    ∃ place, Inv info place (System.start k') ∧ ∀ r q, q.length = 4 → ¬ Occupied r place q := by
  rcases h.tables with ⟨place, hb, -⟩
  have hvacant (r : U64) (q : Path) (hq : q.length = 4) : ¬ Occupied r place q := by
    rintro ⟨g, hg⟩
    have hshort := (hb.shape hg).2
    omega
  refine ⟨place, ?_, hvacant⟩
  refine ⟨⟨hb.owned, hb.root, hb.low, h.mode, ?_, by simp [System.start], by simp [System.start], ?_,
    by simp [System.start]⟩, h.nonnull, by simp [System.start], by simp [System.start], by simp [System.start], ?_, ?_,
    .inl ⟨h.cr3, h.asid⟩⟩
  · intro i hi
    simp only [isShared, Bool.or_eq_true, decide_eq_true_eq] at hi
    rcases hi with rfl | hi
    · -- the low directories hang below slot 0
      rcases hb.low 0 0 (by simp) with ⟨pd, -, hpd, -, -⟩
      rcases hb.owned.forest.parent (show place pd = some (_, [0] ++ [0]) from hpd) with ⟨pdpt, hpdpt, -⟩
      rcases hb.owned.forest.parent (show place pdpt = some (_, [] ++ [0]) from hpdpt) with ⟨root, hroot, he⟩
      rw [hb.owned.forest.root_self hroot, Policy.edge_table (by simp) (kernel_owns _ _), PageTableEntry.link_eq_some] at he
      exact he.1
    · exact h.shared i (by simpa [kernelSlots] using hi)
  · intro r hr
    exact .inl (hb.shape hr).1
  · simp only [CursorOk, System.start, h.cursor]
    exact ⟨by decide, le_rfl⟩
  · simp only [System.start, h.heap]
    exact ⟨by decide, .inl ⟨by decide, by decide⟩⟩

theorem Reachable.inv (hload : info.Loaded) (h : Reachable info y) : ∃ place, Inv info place y := by
  rcases h with ⟨k, ops, hinit, hrun⟩
  rcases Inv.start (init_booted hload hinit) with ⟨place, hstart, -⟩
  refine hrun.invariant (fun y => ∃ place, Inv info place y) ?_ ⟨place, hstart⟩
  rintro y op y' ⟨place, h⟩ hstep
  rcases h.step hstep with ⟨place', h', -⟩
  exact ⟨place', h'⟩

theorem Reachable.step {op : Op} (h : Reachable info y) (hstep : LiveStep y op y') : Reachable info y' := by
  rcases h with ⟨k, ops, hinit, hrun⟩
  exact ⟨k, ops ++ [op], hinit, hrun.append (.single hstep)⟩

end

theorem sample_spaces : ∃ y a b, Reachable sampleInfo y ∧ y.spaces = [a, b] ∧ a.ownsRoot = true ∧ b.ownsRoot = true ∧
    a.rootPage.addr ≠ 0 ∧ b.rootPage.addr ≠ 0 := by
  rcases sampleInfo_boots with ⟨k, hk⟩
  have hy : Reachable sampleInfo (.start k) := ⟨k, [], hk, .nil _⟩
  have hfree := (init_booted sampleInfo_loaded hk).free
  rw [sampleInfo_frames] at hfree
  rcases hy.inv sampleInfo_loaded with ⟨place, h⟩
  rcases h.newSpace_ok (Finset.card_pos.mp (by change 0 < k.mem.pmm.freeFrames.card; omega)) with ⟨a, k₁, ha, hcard₁⟩
  change k.mem.pmm.freeFrames.card = _ at hcard₁
  rcases h.newSpace ha with ⟨place₁, h₁, hla, -⟩
  rcases h₁.newSpace_ok (Finset.card_pos.mp (by change 0 < k₁.mem.pmm.freeFrames.card; omega)) with ⟨b, k₂, hb, -⟩
  rcases h₁.newSpace hb with ⟨place₂, h₂, hlb, -⟩
  exact ⟨_, a, b, (hy.step ⟨.newSpace ha, trivial⟩).step ⟨.newSpace hb, trivial⟩, rfl, hla, hlb,
    (h₂.tables.live_frame (by simp [System.start]) hla).2.2, (h₂.tables.live_frame (by simp [System.start]) hlb).2.2⟩

end VenturaOS.Machine
