import VenturaOS.Tlb.Calls

/-!
# No stale translation

Over every run of the system the look-aside buffer holds nothing but what the
tables say, although it takes up entries at any time: an access never goes by
a mapping that is gone.
-/
namespace VenturaOS.Tlb
open Library Memory Pmm Paging Vmm AddressSpaces Machine

section Teardown

variable {root b : U64}

theorem foldl_tables {f : Teardown → Fin 512 → Teardown} (hf : ∀ acc i, (f acc i).mem.tables = acc.mem.tables)
    (is : List (Fin 512)) (acc : Teardown) : (is.foldl f acc).mem.tables = acc.mem.tables := by
  induction is generalizing acc with
  | nil => rfl
  | cons i is ih => rw [List.foldl_cons, ih, hf]

theorem freePdEntry_tables (pd : U64) (acc : Teardown) (i : Fin 512) : (freePdEntry pd acc i).mem.tables = acc.mem.tables := by
  unfold freePdEntry
  dsimp only
  split_ifs
  · rfl
  · exact discardFree_tables _ _

theorem freePdptEntry_tables (pdpt : U64) (acc : Teardown) (i : Fin 512) :
    (freePdptEntry pdpt acc i).mem.tables = acc.mem.tables := by
  unfold freePdptEntry
  dsimp only
  split_ifs
  · rfl
  · exact (discardFree_tables _ _).trans (foldl_tables (freePdEntry_tables _) _ _)

/-- One slot is cleared; no other table is written. -/
theorem freeSlot_elsewhere (acc : Teardown) (i : Fin 512) (hb : b ≠ root) :
    (freeSlot root acc i).mem.tables b = acc.mem.tables b := by
  unfold freeSlot
  dsimp only
  split_ifs
  · rfl
  · funext j
    change (PageMemory.writeEntry _ root i .empty).tables b j = _
    rw [writeEntry_tables, if_neg fun hslot => hb hslot.1]
    change (discardFree _ _).tables b j = _
    rw [discardFree_tables, foldl_tables (freePdptEntry_tables _)]

theorem freeSlots_elsewhere (is : List (Fin 512)) (acc : Teardown) (hb : b ≠ root) :
    (∀ w ∈ freeSlotsWrites root is acc, w.2.tables b = acc.mem.tables b) ∧
      (is.foldl (freeSlot root) acc).mem.tables b = acc.mem.tables b := by
  induction is generalizing acc with
  | nil => exact ⟨by simp [freeSlotsWrites], rfl⟩
  | cons i is ih =>
    obtain ⟨hws, hend⟩ := ih (freeSlot root acc i)
    rw [freeSlot_elsewhere acc i hb] at hws hend
    constructor
    · intro w hw
      rcases List.mem_cons.mp hw with rfl | hw
      · exact freeSlot_elsewhere acc i hb
      · exact hws w hw
    · exact hend

end Teardown

section Steps

variable {info : BootInfo} {place : Placement} {y y' : System} {k' : Kernel}

theorem active_placed (h : Inv info place y) : place y.kernel.cr3 = some (y.kernel.cr3, []) := by
  rcases h.active with ⟨hroot, -⟩ | ⟨space, hm, hl, hroot, -⟩
  · rw [hroot]
    exact h.tables.rooted
  · rw [← hroot]
    exact (h.tables.live hm hl).1

theorem invalidates_refl {k : Kernel} (ht : k'.mem.tables = k.mem.tables) (hcr3 : k'.cr3 = k.cr3) :
    Invalidates (moment k).entries [] (moment k').entries := by
  have hsame : moment k' = moment k := by rw [moment, moment, ht, hcr3]
  rw [hsame]
  exact .done _

theorem invalidates_frames {k : Kernel} (hf : Heap.SameFrames k k') : Invalidates (moment k).entries [] (moment k').entries :=
  invalidates_refl (by rw [hf.mem]) hf.outside.cr3

theorem invalidates_moment {k : Kernel} {ws : List Write} (h : Invalidates (walks k.cr3 k.mem) (under k.cr3 ws) (walks k.cr3 k'.mem))
    (hcr3 : k'.cr3 = k.cr3) : Invalidates (moment k).entries (under k.cr3 ws) (moment k').entries := by
  rw [show (moment k').entries = walks k.cr3 k'.mem by rw [moment, hcr3]]
  exact h

theorem invalidates_expand (h : Inv info place y) {n : ℕ} {grew : Bool} (hrun : Heap.expandHeap n y.kernel = some (grew, k')) :
    Invalidates (moment y.kernel).entries (under y.kernel.cr3 (expandHeapWrites n y.kernel)) (moment k').entries := by
  obtain ⟨place₀, held₀, hl, -⟩ := tables_layout h.tables (active_placed h)
  obtain ⟨-, -, -, -, -, -, hout, -⟩ := Heap.expandHeap_cases h.tables.owned h.tables.rooted h.tables.low h.tables.mode rfl
    h.cursor h.heapEnd hrun
  exact invalidates_moment (hl.expandHeap h.heapEnd hrun) hout.cr3

theorem invalidates_region (h : Inv info place y) {size : U64} {permissions : VirtPermissions} {purpose : RegionPurpose}
    {result : Except VmmError VirtRegion} (hrun : allocateAndMapRegion size permissions purpose y.kernel = (result, k')) :
    Invalidates (moment y.kernel).entries (under y.kernel.cr3 (allocateAndMapWrites size permissions purpose y.kernel))
      (moment k').entries := by
  obtain ⟨place₀, held₀, hl, -⟩ := tables_layout h.tables (active_placed h)
  obtain ⟨-, -, -, -, -, hk, -⟩ := allocateAndMapRegion_cases h.tables.owned h.tables.rooted h.tables.low h.tables.mode rfl
    h.cursor hrun
  exact invalidates_moment (hl.allocateAndMap h.cursor hrun) (by rw [hk])

theorem invalidates_init (h : Inv info place y) (hrun : Heap.init y.kernel = some k') :
    Invalidates (moment y.kernel).entries (under y.kernel.cr3 (heapInitWrites y.kernel)) (moment k').entries := by
  unfold heapInitWrites
  cases hinit : y.kernel.heap.initialized with
  | true =>
    rw [Heap.init_initialized hinit] at hrun
    cases hrun
    exact .done _
  | false =>
    obtain ⟨region, k₁, hregion, rfl⟩ := Heap.init_cases hrun hinit
    rw [if_neg Bool.false_ne_true]
    have hmoment : moment (Heap.initBlock region k₁) = moment k₁ := by rw [moment, moment, Heap.initBlock]
    rw [hmoment]
    exact invalidates_region h hregion

/-- An allocation whose scan comes to the end grows the heap. -/
theorem allocate_exhausted {k : Kernel} {layout : Heap.Layout} {p : ℕ} (hsize : layout.size ≠ 0)
    (hready : k.heap.initialized = true)
    (hscan : Heap.findFit true k.bytes layout.requestedSize (Heap.walkLimit k.heap) k.heap.head = some .exhausted)
    (hrun : Heap.allocate layout k = some (p, k')) :
    ∃ grew k₁, Heap.expandHeap layout.requestedSize k = some (grew, k₁) ∧ Heap.SameFrames k₁ k' := by
  unfold Heap.allocate at hrun
  rw [if_neg hsize, hready, hscan] at hrun
  generalize Heap.expandHeap layout.requestedSize k = grown at hrun ⊢
  rcases grown with _ | ⟨_ | _, k₁⟩
  · cases hrun
  · cases hrun
    exact ⟨false, k', rfl, .refl k'⟩
  · exact ⟨true, k₁, rfl, Heap.retry_frames hrun⟩

theorem invalidates_allocate (h : Inv info place y) {layout : Heap.Layout} {p : ℕ}
    (hrun : Heap.allocate layout y.kernel = some (p, k')) :
    Invalidates (moment y.kernel).entries (under y.kernel.cr3 (allocateWrites layout y.kernel)) (moment k').entries := by
  by_cases hgrows : layout.size ≠ 0 ∧ y.kernel.heap.initialized = true ∧
      Heap.findFit true y.kernel.bytes layout.requestedSize (Heap.walkLimit y.kernel.heap) y.kernel.heap.head = some .exhausted
  · obtain ⟨hsize, hready, hscan⟩ := hgrows
    obtain ⟨grew, k₁, hexp, hf⟩ := allocate_exhausted hsize hready hscan hrun
    rw [allocateWrites, if_neg (by simp [hsize, hready]), hscan]
    have hmid := (invalidates_expand h hexp).append (invalidates_frames hf)
    rwa [List.append_nil] at hmid
  · have hwrites : allocateWrites layout y.kernel = [] := by
      unfold allocateWrites
      split_ifs with hidle
      · rfl
      · simp only [not_or, Bool.not_eq_true', Bool.not_eq_false] at hidle
        split
        · rename_i hscan
          exact absurd ⟨hidle.1, hidle.2, hscan⟩ hgrows
        · rfl
    rw [hwrites]
    rcases Heap.allocate_scan hrun with hf | ⟨hsize, hready, hscan, -⟩
    · exact invalidates_frames hf
    · exact absurd ⟨hsize, hready, hscan⟩ hgrows

theorem invalidates_unmapRegion (h : Inv info place y) {region : VirtRegion} (hm : region ∈ y.returned) :
    Invalidates (moment y.kernel).entries
      (under y.kernel.cr3 (unmapRegionWrites y.kernel.rootPml4 region.ownsPhysicalPages
        (pagesFrom region.start.addr region.pageCount) y.kernel.mem)) (moment (Vmm.unmapRegion region y.kernel).2).entries := by
  obtain ⟨howns, hpages⟩ := h.regions region hm
  have hvs := unmapRegion_invalidates h.tables (active_placed h) fun v hv => hpages.page hv
  apply invalidates_moment
  · rw [howns, Vmm.unmapRegion, howns]
    exact hvs
  · rfl

/-- The new root is written before anything leads to it. -/
theorem invalidates_newSpace (h : Inv info place y) {result : Except AddressSpaceError AddressSpace}
    (hrun : AddressSpaces.new y.kernel = (result, k')) :
    Invalidates (moment y.kernel).entries (under y.kernel.cr3 (newWrites y.kernel)) (moment k').entries := by
  have hnew : (AddressSpaces.new y.kernel).2 = k' := by rw [hrun]
  unfold newWrites
  rw [hnew]
  unfold AddressSpaces.new at hrun
  rcases h.tables.owned.allocatePage_cases with ⟨he, -⟩ | ⟨f, pmm, he, hfree, -, -⟩
  · rw [he] at hrun ⊢
    cases hrun
    exact .done _
  · rw [he] at hrun ⊢
    cases hrun
    have hvac := (h.tables.owned.free_unplaced hfree).1
    have hf {t : PageMemory} (ht : ∀ b, b ≠ f → t.tables b = y.kernel.mem.tables b) : SameBut y.kernel.cr3 ∅ y.kernel.mem t :=
      elsewhere_silent h.tables (active_placed h) (fun hp => by rw [hvac] at hp; cases hp) ht
    have hzero (b : U64) (hb : b ≠ f) : ({ y.kernel.mem with pmm := pmm }.writeTable f .zero).tables b = y.kernel.mem.tables b :=
      Function.update_of_ne hb _ _
    have hcopied (t : PageTable) (b : U64) (hb : b ≠ f) :
        (({ y.kernel.mem with pmm := pmm }.writeTable f .zero).writeTable f t).tables b = y.kernel.mem.tables b :=
      (Function.update_of_ne hb _ _).trans (hzero b hb)
    apply invalidates_moment
    · apply Invalidates.silent _ _ (hf (hcopied _))
      intro w hw
      simp only [List.mem_cons, List.not_mem_nil, or_false] at hw
      rcases hw with rfl | rfl
      · exact hf hzero
      · exact hf (hcopied _)
    · rfl

theorem invalidates_activate (space : AddressSpace) (k : Kernel) :
    Invalidates (moment k).entries (activateChanges space k) (moment (activate space k)).entries := by
  unfold activateChanges
  split_ifs with hsame
  · unfold activate
    split_ifs with hnull
    · exact .done _
    · rw [moment, moment, ← hsame.resolve_left hnull]
      exact .done _
  · exact .single fun q _ _ hq => absurd (Set.mem_univ q) hq

theorem invalidates_onSpace {i : ℕ} {space : AddressSpace} (hi : y.spaces[i]? = some space) {v : VirtAddr}
    {writes : AddressSpace → List Write} {mem : PageMemory}
    (hwrites : isPrivateAddr v = true → Invalidates (walks y.kernel.cr3 y.kernel.mem)
      (under y.kernel.cr3 (writes space)) (walks y.kernel.cr3 mem))
    (hforeign : ¬isPrivateAddr v = true → mem = y.kernel.mem) :
    Invalidates (moment y.kernel).entries (under y.kernel.cr3 (onSpace y i v writes))
      (moment { y.kernel with mem := mem }).entries := by
  apply invalidates_moment
  · unfold onSpace
    rw [hi]
    by_cases hv : isPrivateAddr v = true
    · simp only [hv, if_true]
      exact hwrites hv
    · simp only [hv, Bool.false_eq_true, if_false]
      rw [hforeign hv]
      exact .done _
  · rfl

/-- After leaving, CR3 holds a root in use, and not the one that goes. -/
theorem leave_placed (h : Inv info place y) {i : ℕ} {space : AddressSpace} (hi : y.spaces[i]? = some space)
    (hl : space.ownsRoot = true) :
    place (leave space y.kernel).cr3 = some ((leave space y.kernel).cr3, []) ∧
      (leave space y.kernel).cr3 ≠ space.rootPage.addr := by
  rcases h.leave_active hi with ⟨hroot, -⟩ | ⟨sp, hsp, hsl, hroot, -⟩
  · rw [hroot]
    exact ⟨h.tables.rooted, Ne.symm (h.tables.live (List.mem_of_getElem? hi) hl).2⟩
  · rw [← hroot]
    obtain ⟨j, hj⟩ := List.mem_iff_getElem?.mp hsp
    rw [List.getElem?_set] at hj
    split_ifs at hj with hij hlt
    · cases hj
      cases hsl
    · exact ⟨(h.tables.live (List.mem_of_getElem? hj) hsl).1, fun he => hij (h.tables.distinct hi hj hl hsl he.symm)⟩

/-- `destroy`: the tables it takes apart are not in use any more. -/
theorem invalidates_destroy (h : Inv info place y) {i : ℕ} {space : AddressSpace} (hi : y.spaces[i]? = some space) :
    Invalidates (moment y.kernel).entries (destroyChanges space y.kernel) (moment (destroy space y.kernel).2).entries := by
  by_cases hlive : space.ownsRoot = true ∧ space.rootPage.addr ≠ 0
  · obtain ⟨hl, hnz⟩ := hlive
    obtain ⟨hplaced, hne⟩ := h.tables.live (List.mem_of_getElem? hi) hl
    obtain ⟨hnow, hother⟩ := leave_placed h hi hl
    have hleaves : Invalidates (moment y.kernel).entries
        (if y.kernel.cr3 &&& ~~~0xFFF#64 = space.rootPage.addr then activateChanges (bootstrap y.kernel) y.kernel else [])
        (moment (leave space y.kernel)).entries := by
      unfold leave
      split_ifs
      · exact invalidates_activate (bootstrap y.kernel) y.kernel
      · exact .done _
    have hmem : (leave space y.kernel).mem = y.kernel.mem := by rw [leave_mem]
    have hsilent {t : PageMemory} (ht : ∀ b, b ≠ space.rootPage.addr → t.tables b = y.kernel.mem.tables b) :
        SameBut (leave space y.kernel).cr3 ∅ y.kernel.mem t := by
      apply elsewhere_silent h.tables hnow _ ht
      intro r p hp
      rw [hplaced] at hp
      cases hp
      exact ⟨rfl, hne, Ne.symm hother⟩
    have hend (b : U64) (hb : b ≠ space.rootPage.addr) :
        (discardFree (freePrivateTables space.rootPage y.kernel.mem).mem space.rootPage).tables b = y.kernel.mem.tables b := by
      rw [discardFree_tables, freePrivateTables, (freeSlots_elsewhere privateSlots _ hb).2]
    have hfree := Invalidates.silent (freeSlotsWrites space.rootPage.addr privateSlots ⟨y.kernel.mem, 0, 0⟩)
      (fun w hw => hsilent fun b hb => (freeSlots_elsewhere privateSlots _ hb).1 w hw) (hsilent hend)
    rw [destroy_live hl hnz, hmem]
    have hchanges : destroyChanges space y.kernel =
        (if y.kernel.cr3 &&& ~~~0xFFF#64 = space.rootPage.addr then activateChanges (bootstrap y.kernel) y.kernel else []) ++
          under (leave space y.kernel).cr3 (freeSlotsWrites space.rootPage.addr privateSlots ⟨y.kernel.mem, 0, 0⟩) := by
      rw [destroyChanges, hl, if_neg (by simpa using hnz)]
      rfl
    rw [hchanges]
    apply hleaves.append
    rw [show (moment (leave space y.kernel)).entries = walks (leave space y.kernel).cr3 y.kernel.mem by rw [moment, hmem]]
    exact hfree
  · rw [destroy_dead hlive, destroyChanges, if_pos]
    · exact .done _
    · cases hl : space.ownsRoot with
      | true => simpa [hl] using hlive
      | false => rfl

/-- Private slots belong to the root they are in. -/
theorem private_slot {k r : U64} {v : VirtAddr} (hv : isPrivateAddr v = true) :
    (tablePolicy k).slot r v.pml4Index = true ∧ v.pml4Index ≠ 0 := by
  have hprivate : v.pml4Index ≠ 0 ∧ v.pml4Index.val < kernelPml4Start := by simpa [isPrivateAddr] using hv
  simp only [tablePolicy, decide_eq_true_eq]
  exact ⟨.inr hprivate, hprivate.1⟩

theorem step_invalidates (h : Inv info place y) {op : Op} (hstep : LiveStep y op y') :
    Invalidates (moment y.kernel).entries (changes y op y') (moment y'.kernel).entries := by
  obtain ⟨hstep, hlive⟩ := hstep
  cases hstep with
  | heapInit hrun => exact invalidates_init h hrun
  | heapExpand hrun => exact invalidates_expand h hrun
  | heapAllocate hrun => exact invalidates_allocate h hrun
  | heapDeallocate => exact invalidates_frames (Heap.deallocate_frames _ _ _)
  | write => exact invalidates_refl rfl rfl
  | mapRegion hrun => exact invalidates_region h hrun
  | mapRegionFails hrun => exact invalidates_region h hrun
  | unmapRegion hm => exact invalidates_unmapRegion h hm
  | newSpace hrun => exact invalidates_newSpace h hrun
  | newSpaceFails hrun => exact invalidates_newSpace h hrun
  | bootstrapSpace => exact invalidates_refl rfl rfl
  | @activate i space hi =>
    rw [changes, hi]
    exact invalidates_activate space y.kernel
  | @mapPage i space v phys flags hi =>
    obtain ⟨place₀, held₀, hl, hroots⟩ := tables_layout h.tables (active_placed h)
    by_cases hv : isPrivateAddr v = true
    · have hr := hroots (h.handle_placed (List.mem_of_getElem? hi) (hlive space hi hv))
      rw [mapPage_state hv]
      apply invalidates_onSpace hi _ fun hn => absurd hv hn
      intro _
      obtain ⟨-, -, hpage, -⟩ := hl.map hr (private_slot hv).1 phys flags
      exact hpage
    · rw [mapPage_foreign hv]
      exact invalidates_onSpace hi (fun hp => absurd hp hv) fun _ => rfl
  | @unmapPage i space v hi =>
    obtain ⟨place₀, held₀, hl, hroots⟩ := tables_layout h.tables (active_placed h)
    by_cases hv : isPrivateAddr v = true
    · have hr := hroots (h.handle_placed (List.mem_of_getElem? hi) (hlive space hi hv))
      rw [unmapPage_state hv]
      apply invalidates_onSpace hi _ fun hn => absurd hv hn
      intro _
      obtain ⟨hslot, hne⟩ := private_slot hv
      apply Invalidates.write (hl.unmap hr hslot fun _ => hne).2
      rw [unmapWrite_mem]
      exact .done _
    · rw [unmapPage_foreign hv]
      exact invalidates_onSpace hi (fun hp => absurd hp hv) fun _ => rfl
  | @destroy i space hi =>
    rw [changes, hi]
    exact invalidates_destroy h hi
  | takeFrame hrun =>
    obtain ⟨-, rfl⟩ := Prod.mk.inj hrun
    exact invalidates_refl rfl rfl
  | takeFrameFails hrun =>
    rw [h.takeFrame_fails hrun]
    exact invalidates_refl rfl rfl
  | freeFrame hf hrun =>
    obtain ⟨-, rfl⟩ := Prod.mk.inj hrun
    exact invalidates_refl rfl rfl

/-- Reading right entries, or walking, gives what a walk gives. -/
theorem Access.eq_walk {tlb : Buffer} {k : Kernel} {v : VirtAddr} {result : Option (U64 × List PageTableEntry)}
    (haccess : Access tlb (moment k) v result) (hright : tlb ⊆ graph (moment k).entries) :
    result = hardwareWalk k.mem.tables k.cr3 v := by
  have hentries : (moment k).entries v.path = reach k.mem.tables k.cr3 v.path := if_pos v.path_length
  rw [hardwareWalk_eq]
  cases haccess with
  | noncanonical hc => rw [hc, if_neg Bool.false_ne_true]
  | @hit entries hc hmem =>
    have hnow : (moment k).entries v.path = some entries := hright hmem
    rw [if_pos hc, ← hentries, hnow]
    rfl
  | walk hc =>
    rw [if_pos hc, ← hentries]
    rfl

end Steps

/-- No access ever goes by a translation that the tables under CR3 do not give, as long as no page is global and
process contexts are off. -/
theorem tlb_is_coherent {info : BootInfo} (hload : info.Loaded) {y y' : System} {tlb tlb' : Buffer} {ops : List Op}
    (hy : Reachable info y) (hright : tlb ⊆ graph (moment y.kernel).entries)
    (hrun : Run (CachedStep LiveStep (fun y => (moment y.kernel).entries) changes) (y, tlb) ops (y', tlb')) {v : VirtAddr}
    {result : Option (U64 × List PageTableEntry)} (haccess : Access tlb' (moment y'.kernel) v result) :
    Run LiveStep y ops y' ∧ result = hardwareWalk y'.kernel.mem.tables y'.kernel.cr3 v := by
  have hstep (y : System) (op : Op) (y' : System) (hinv : ∃ place, Inv info place y) (hstep : LiveStep y op y') :
      ∃ place, Inv info place y' := by
    obtain ⟨place, h⟩ := hinv
    obtain ⟨place', h', -⟩ := h.step hstep
    exact ⟨place', h'⟩
  obtain ⟨hsystem, hend⟩ := run_right (fun y => ∃ place, Inv info place y) hstep
    (fun _ _ _ ⟨_, h⟩ hstep => step_invalidates h hstep) hrun (hy.inv hload) hright
  exact ⟨hsystem, haccess.eq_walk hend⟩

/-- The buffer holds a page of the low memory, and still does after a page of a space is unmapped. -/
theorem tlb_is_coherent_sample : ∃ y y' entries, Reachable sampleInfo y ∧
    Run LiveStep y [.unmapPage 0 ⟨0x8000000000⟩] y' ∧ (moment y.kernel).entries (VirtAddr.mk 0x1000).path = some entries ∧
    translation ⟨0x1000⟩ entries = hardwareWalk y'.kernel.mem.tables y'.kernel.cr3 ⟨0x1000⟩ := by
  obtain ⟨y, a, b, hy, hsp, -, -, hna, -⟩ := sample_spaces
  obtain ⟨place, h⟩ := hy.inv sampleInfo_loaded
  have ha : y.spaces[0]? = some a := by rw [hsp]; rfl
  have hroot : y.IsRoot y.kernel.cr3 := by
    rcases h.active with ⟨hk, -⟩ | ⟨space, hm, hl, he, -⟩
    · exact .inl hk
    · exact .inr ⟨space, hm, hl, he⟩
  obtain ⟨_, hlow, -⟩ := h.low_walk (v := ⟨0x1000⟩) hroot (by decide)
  rw [hardwareWalk_eq, if_pos (by decide), Option.bind_eq_some_iff] at hlow
  obtain ⟨entries, hreach, -⟩ := hlow
  have hentries : (moment y.kernel).entries (VirtAddr.mk 0x1000).path = some entries :=
    (if_pos (VirtAddr.path_length _)).trans hreach
  obtain ⟨y', hstep⟩ : ∃ y', LiveStep y (.unmapPage 0 ⟨0x8000000000⟩) y' := by
    refine ⟨_, .unmapPage ha, fun space hspace _ => ?_⟩
    rw [ha] at hspace
    cases hspace
    exact hna
  have hchanges : changes y (.unmapPage 0 ⟨0x8000000000⟩) y' =
      under y.kernel.cr3 [unmapWrite a.rootPage ⟨0x8000000000⟩ y.kernel.mem] := by
    rw [changes, onSpace, ha]
    rfl
  have hkept : (VirtAddr.mk 0x1000).path ∉ (unmapWrite a.rootPage ⟨0x8000000000⟩ y.kernel.mem).1 := by
    have hne : (VirtAddr.mk 0x1000).path ≠ (VirtAddr.mk 0x8000000000).path := by decide
    rw [unmapWrite]
    split
    · exact hne
    · exact Set.notMem_empty _
  have hcached : CachedStep LiveStep (fun y => (moment y.kernel).entries) changes
      (y, {((VirtAddr.mk 0x1000).path, entries)}) (.unmapPage 0 ⟨0x8000000000⟩)
      (y', {((VirtAddr.mk 0x1000).path, entries)}) := by
    refine ⟨hstep, ?_⟩
    rw [hchanges]
    apply Cached.change Set.subset_union_left
    apply Cached.done
    rintro _ rfl
    exact .inl ⟨rfl, hkept⟩
  obtain ⟨hsystem, hwalk⟩ := tlb_is_coherent sampleInfo_loaded hy (Set.singleton_subset_iff.mpr hentries) (.single hcached)
    (.hit (by decide) rfl)
  exact ⟨y, y', entries, hy, hsystem, hentries, hwalk⟩

end VenturaOS.Tlb
