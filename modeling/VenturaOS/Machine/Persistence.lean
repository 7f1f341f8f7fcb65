import VenturaOS.Machine.Discipline
import VenturaOS.Machine.FailedMapping
import VenturaOS.Machine.Isolation

/-!
# What stays mapped

A page in the shared slots that was mapped at boot stays mapped as it was.
Calls map vacant pages only, and `unmap_region` works on regions whose pages
were vacant when they were mapped.
-/
namespace VenturaOS.Machine
open Library Memory Pmm Paging Vmm AddressSpaces

section Walks

variable {k : U64} {F : Finset U64} {c : ℕ} {place : Placement} {held : Finset U64} {s : PageMemory} {v : VirtAddr}

theorem discardFree_tables (s : PageMemory) (page : PhysPage) : (discardFree s page).tables = s.tables :=
  freeList_tables [page] s

theorem unmapPage_walks (h : Owned (kernelPolicy k F) F c place held s) (hk : place k = some (k, []))
    (hne : v.pml4Index ≠ 0) : SameWalksBut k [v] s (Paging.unmapPage ⟨k⟩ v s).2 := by
  have hsame {e : UnmapError} (he : Paging.unmapPage ⟨k⟩ v s = (.error e, s)) :
      SameWalksBut k [v] s (Paging.unmapPage ⟨k⟩ v s).2 := by
    rw [he]
    exact fun _ _ _ => rfl
  by_cases hc : isCanonical v.addr = true
  · by_cases hal : v.isAligned = true
    · rcases h.leaf_cases hk (kernel_slot _) (fun _ => hne) hc with ⟨pt, hpt, -, -, -, he⟩ | ⟨-, -, e, he⟩
      · rw [he hal]
        exact sameWalksBut_writeLeaf h hk kernel_owns hpt .empty
      · exact hsame he
    · exact hsame (e := .unalignedVirtualAddress) (by simp [Paging.unmapPage, hc, hal])
  · exact hsame (e := .nonCanonicalAddress) (by simp [Paging.unmapPage, hc])

theorem mapPage_walks (h : Owned (kernelPolicy k F) F c place held s) (hk : place k = some (k, []))
    (hmode : s.isBootstrapping = false) (phys : PhysPage) (flags : PageTableFlags) :
    SameWalksBut k [v] s (Paging.mapPage ⟨k⟩ v phys flags s).2 := by
  by_cases hargs : isCanonical v.addr = true ∧ v.isAligned = true ∧ phys.addr.toNat % pageSize = 0
  · obtain ⟨hc, hal, hph⟩ := hargs
    rcases h.mapPage_cases hk (kernel_slot _) (by simp [hmode]) hc hal hph flags with
      ⟨place', s₁, ho, hg, -, ⟨pt, he, hpt, -⟩ | ⟨he, -⟩ | ⟨he, -⟩⟩
    · rw [he]
      have hwrite := sameWalksBut_writeLeaf ho (hg.kept hk) kernel_owns hpt (.set phys.addr flags)
      exact fun q hq hn => (hwrite q hq hn).trans (sameWalks_of_grows hk kernel_owns hg q hq)
    · rw [he]
      exact fun q hq _ => sameWalks_of_grows hk kernel_owns hg q hq
    · rw [he]
      exact fun q hq _ => sameWalks_of_grows hk kernel_owns hg q hq
  · obtain ⟨e, he⟩ := mapPage_refused ⟨k⟩ flags s hargs
    rw [he]
    exact fun _ _ _ => rfl

theorem unmapAll_walks (vs : List VirtAddr) (h : Owned (kernelPolicy k F) F c place held s) (hk : place k = some (k, []))
    (hvs : ∀ v ∈ vs, isCanonical v.addr = true ∧ v.isAligned = true ∧ 256 ≤ v.pml4Index.val) :
    SameWalksBut k vs s (vs.foldl (unmapOne ⟨k⟩ true) s) := by
  induction vs generalizing place s with
  | nil => exact fun _ _ _ => rfl
  | cons v vs ih =>
    obtain ⟨hc, hal, hslot⟩ := hvs v List.mem_cons_self
    obtain ⟨place₁, ho, hstep, -⟩ := unmapOne_cases h hk hc hal hslot
    have hrest := ih ho (hstep.kept hk (.inr (by simp))) fun w hw => hvs w (List.mem_cons_of_mem v hw)
    have hne : v.pml4Index ≠ 0 := by
      intro hzero
      rw [hzero] at hslot
      cases hslot
    have htables : (unmapOne ⟨k⟩ true s v).tables = (Paging.unmapPage ⟨k⟩ v s).2.tables := by
      unfold unmapOne
      generalize Paging.unmapPage ⟨k⟩ v s = result
      rcases result with ⟨_ | page, s₁⟩
      · rfl
      · exact discardFree_tables s₁ page
    intro q hq hn
    rw [List.map_cons, List.mem_cons, not_or] at hn
    have hone := unmapPage_walks h hk hne q hq (by simpa using hn.1)
    rw [← htables] at hone
    rw [List.foldl_cons]
    exact (hrest q hq hn.2).trans hone

end Walks

/-- The shared pages mapped in `k₀` are mapped as there, and none of them lies in a region handed out. -/
structure Lasting (k₀ : Kernel) (y : System) : Prop where
  root : y.kernel.rootPml4 = k₀.rootPml4
  shared : ∀ v : VirtAddr, isShared v.pml4Index = true → reach k₀.mem.tables k₀.rootPml4.addr v.path ≠ none →
    reach y.kernel.mem.tables k₀.rootPml4.addr v.path = reach k₀.mem.tables k₀.rootPml4.addr v.path
  returned : ∀ region ∈ y.returned, ∀ v ∈ pagesFrom region.start.addr region.pageCount,
    reach k₀.mem.tables k₀.rootPml4.addr v.path = none

theorem Lasting.start (k₀ : Kernel) : Lasting k₀ (System.start k₀) :=
  ⟨rfl, fun _ _ _ => rfl, by simp [System.start]⟩

section Steps

variable {info : BootInfo} {place : Placement} {k₀ : Kernel} {y y' : System} {op : Op}

/-- Calls that change no walk of a mapped shared page and hand out no region. -/
theorem Lasting.keep (hlast : Lasting k₀ y) (hroot : y'.kernel.rootPml4 = y.kernel.rootPml4)
    (hreturned : y'.returned = y.returned)
    (hkeeps : ∀ v : VirtAddr, isShared v.pml4Index = true → reach y.kernel.mem.tables y.kernel.rootPml4.addr v.path ≠ none →
      reach y'.kernel.mem.tables y.kernel.rootPml4.addr v.path = reach y.kernel.mem.tables y.kernel.rootPml4.addr v.path) :
    Lasting k₀ y' where
  root := hroot.trans hlast.root
  shared v hv hmapped := by
    have hnow := hlast.shared v hv hmapped
    have hstep := hkeeps v hv
    rw [hlast.root, hnow] at hstep
    exact hstep hmapped
  returned := by
    rw [hreturned]
    exact hlast.returned

/-- A region whose pages are vacant, in the upper half. -/
theorem Lasting.handOut (hlast : Lasting k₀ y) {region : VirtRegion}
    (hpages : UpperPages region.start.addr region.pageCount)
    (hvacant : ∀ v ∈ pagesFrom region.start.addr region.pageCount,
      reach y.kernel.mem.tables y.kernel.rootPml4.addr v.path = none) :
    Lasting k₀ { y with returned := region :: y.returned } where
  root := hlast.root
  shared := hlast.shared
  returned := by
    intro other hother v hv
    rcases List.mem_cons.mp hother with rfl | hother
    · by_contra hmapped
      have hslot := (hpages.page hv).2.2
      have hshared : isShared v.pml4Index = true := by
        rw [isShared, Bool.or_eq_true, decide_eq_true_eq, decide_eq_true_eq]
        exact .inr hslot
      have hnone := hvacant v hv
      rw [hlast.root, hlast.shared v hshared hmapped] at hnone
      exact hmapped hnone
    · exact hlast.returned other hother v hv

theorem Inv.walks_of_tables (h : Inv info place y) {s' : PageMemory}
    (hsame : ∀ a p, place a = some (y.kernel.rootPml4.addr, p) → s'.tables a = y.kernel.mem.tables a) (v : VirtAddr) :
    reach s'.tables y.kernel.rootPml4.addr v.path = reach y.kernel.mem.tables y.kernel.rootPml4.addr v.path := by
  have htables : ∀ d a, TableAt y.kernel.mem.tables y.kernel.rootPml4.addr d a → s'.tables a = y.kernel.mem.tables a := by
    intro d a ha
    obtain ⟨p, -, hp⟩ := h.tables.tableAt_kernel ha
    exact hsame a p hp
  exact reach_of_tables htables .root (by rw [v.path_length])

theorem isPrivate_not_shared {v w : VirtAddr} (hv : isPrivateAddr v = true) (hw : isShared w.pml4Index = true) :
    w.path ≠ v.path := by
  intro hpath
  have hindex : w.pml4Index = v.pml4Index := (List.cons.inj hpath).1
  rw [hindex, isShared, Bool.or_eq_true, decide_eq_true_eq, decide_eq_true_eq] at hw
  rw [isPrivateAddr, Bool.and_eq_true, decide_eq_true_eq, decide_eq_true_eq] at hv
  rcases hw with hzero | hlarge
  · exact hv.1 hzero
  · omega

theorem Inv.mapPage_keeps (h : Inv info place y) {space : AddressSpace} (hm : space ∈ y.spaces) {v : VirtAddr}
    (hnz : isPrivateAddr v = true → space.rootPage.addr ≠ 0) (phys : PhysPage) (flags : PageTableFlags) {w : VirtAddr}
    (hw : isShared w.pml4Index = true) :
    reach (AddressSpaces.mapPage space v phys flags y.kernel).2.mem.tables y.kernel.rootPml4.addr w.path =
      reach y.kernel.mem.tables y.kernel.rootPml4.addr w.path := by
  by_cases hv : isPrivateAddr v = true
  · rw [mapPage_state hv]
    by_cases hroot : space.rootPage.addr = y.kernel.rootPml4.addr
    · -- the bootstrap handle: its private slots are the kernel root's own
      have hwalks := mapPage_walks (v := v) h.tables.owned h.tables.rooted h.tables.mode phys flags
      rw [← hroot] at hwalks ⊢
      exact hwalks w.path w.path_length (by simpa using isPrivate_not_shared hv hw)
    · obtain ⟨place', -, hs⟩ := privateMap h.tables.owned (h.handle_placed hm (hnz hv)) h.tables.mode hv phys flags
      exact h.walks_of_tables (fun a p ha => hs.other ha (Ne.symm hroot)) w
  · rw [mapPage_foreign hv]

theorem Inv.unmapPage_keeps (h : Inv info place y) {space : AddressSpace} (hm : space ∈ y.spaces) {v : VirtAddr}
    (hnz : isPrivateAddr v = true → space.rootPage.addr ≠ 0) {w : VirtAddr} (hw : isShared w.pml4Index = true) :
    reach (AddressSpaces.unmapPage space v y.kernel).2.mem.tables y.kernel.rootPml4.addr w.path =
      reach y.kernel.mem.tables y.kernel.rootPml4.addr w.path := by
  by_cases hv : isPrivateAddr v = true
  · rw [unmapPage_state hv]
    by_cases hroot : space.rootPage.addr = y.kernel.rootPml4.addr
    · have hne : v.pml4Index ≠ 0 := by
        rw [isPrivateAddr, Bool.and_eq_true, decide_eq_true_eq] at hv
        exact hv.1
      have hwalks := unmapPage_walks h.tables.owned h.tables.rooted hne
      rw [← hroot] at hwalks ⊢
      exact hwalks w.path w.path_length (by simpa using isPrivate_not_shared hv hw)
    · obtain ⟨-, hs⟩ := privateUnmap h.tables.owned (h.handle_placed hm (hnz hv)) hv
      exact h.walks_of_tables (fun a p ha => hs.other ha (Ne.symm hroot)) w
  · rw [unmapPage_foreign hv]

theorem Inv.newSpace_tables (h : Inv info place y) {result : Except AddressSpaceError AddressSpace} {k' : Kernel}
    (hrun : AddressSpaces.new y.kernel = (result, k')) {a : U64} {p : Path}
    (ha : place a = some (y.kernel.rootPml4.addr, p)) : k'.mem.tables a = y.kernel.mem.tables a := by
  unfold AddressSpaces.new at hrun
  rcases h.tables.owned.allocatePage_cases with ⟨he, -⟩ | ⟨f, pmm, he, hfree, -, -⟩
  · rw [he] at hrun
    cases hrun
    rfl
  · rw [he] at hrun
    cases hrun
    have hne : a ≠ f := by
      rintro rfl
      rw [(h.tables.owned.free_unplaced hfree).1] at ha
      cases ha
    change Function.update (Function.update y.kernel.mem.tables f _) f _ a = _
    rw [Function.update_of_ne hne, Function.update_of_ne hne]

theorem Inv.destroy_tables (h : Inv info place y) {space : AddressSpace} (hm : space ∈ y.spaces) {a : U64} {p : Path}
    (ha : place a = some (y.kernel.rootPml4.addr, p)) :
    (AddressSpaces.destroy space y.kernel).2.mem.tables a = y.kernel.mem.tables a := by
  by_cases hlive : space.ownsRoot = true ∧ space.rootPage.addr ≠ 0
  · obtain ⟨hplaced, hne⟩ := h.tables.live hm hlive.1
    apply (h.destroy_elsewhere hm hlive.1).2
    rintro rfl
    rw [hplaced] at ha
    exact hne (Prod.mk.inj (Option.some.inj ha)).1
  · rw [destroy_dead hlive]

/-- `unmap_region` on a region that was handed out: its pages are not among those of boot. -/
theorem Lasting.unmapRegion (hlast : Lasting k₀ y) (h : Inv info place y) {region : VirtRegion}
    (hregion : region ∈ y.returned) {v : VirtAddr}
    (hmapped : reach k₀.mem.tables k₀.rootPml4.addr v.path ≠ none) :
    reach (Vmm.unmapRegion region y.kernel).2.mem.tables y.kernel.rootPml4.addr v.path =
      reach y.kernel.mem.tables y.kernel.rootPml4.addr v.path := by
  obtain ⟨howns, hpages⟩ := h.regions region hregion
  have hwalks := unmapAll_walks (pagesFrom region.start.addr region.pageCount) h.tables.owned h.tables.rooted
    fun w hw => hpages.page hw
  rw [← howns] at hwalks
  refine hwalks v.path v.path_length fun hmem => hmapped ?_
  obtain ⟨w, hw, hpath⟩ := List.mem_map.mp hmem
  rw [← hpath]
  exact hlast.returned region hregion w hw

theorem Lasting.step (hlast : Lasting k₀ y) (h : Inv info place y) (hstep : LiveStep y op y') : Lasting k₀ y' := by
  obtain ⟨hstep, hlive⟩ := hstep
  have hroot := hstep.root
  have hcall {size : U64} {permissions : VirtPermissions} {purpose : RegionPurpose} {result : Except VmmError VirtRegion}
      {k' : Kernel} (hrun : allocateAndMapRegion size permissions purpose y.kernel = (result, k')) :
      Keeps y.kernel.rootPml4.addr y.kernel.mem k'.mem ∧ ∀ region, result = .ok region →
        ∀ v ∈ pagesFrom region.start.addr region.pageCount,
          reach y.kernel.mem.tables y.kernel.rootPml4.addr v.path = none := by
    have hkept := (h.inOrder.allocateAndMap size permissions purpose).2
    rw [hrun] at hkept
    exact hkept
  have hkernel {k' : Kernel} (hkeeps : Keeps y.kernel.rootPml4.addr y.kernel.mem k'.mem)
      (hmem : y'.kernel.mem.tables = k'.mem.tables) (hreturned : y'.returned = y.returned) : Lasting k₀ y' := by
    refine hlast.keep hroot hreturned fun v _ hmapped => ?_
    rw [hmem]
    exact hkeeps v.path v.path_length hmapped
  cases hstep with
  | heapInit hrun =>
    cases hinit : y.kernel.heap.initialized with
    | true =>
      rw [Heap.init_initialized hinit] at hrun
      cases hrun
      exact hkernel (.refl _ _) rfl rfl
    | false =>
      obtain ⟨region, k₁, hmap, rfl⟩ := Heap.init_cases hrun hinit
      exact hkernel (hcall hmap).1 rfl rfl
  | heapExpand hrun => exact hkernel (expandHeap_inOrder h.inOrder hrun).2.2 rfl rfl
  | heapAllocate hrun =>
    rcases Heap.allocate_frames hrun with hf | ⟨grew, k₁, -, hexp, hf⟩
    · exact hkernel (.refl _ _) (by rw [← hf.mem]) rfl
    · exact hkernel (expandHeap_inOrder h.inOrder hexp).2.2 (by rw [← hf.mem]) rfl
  | heapDeallocate =>
    have hf := Heap.deallocate_frames ‹ℕ› ‹Heap.Layout› y.kernel
    exact hkernel (.refl _ _) (by rw [← hf.mem]) rfl
  | write => exact hkernel (.refl _ _) rfl rfl
  | mapRegion hrun =>
    obtain ⟨hkeeps, hvacant⟩ := hcall hrun
    obtain ⟨place', -, -, -, -, hok, -⟩ := h.mapRegion hrun
    have hret := hok _ rfl
    refine (hlast.handOut hret.pages (hvacant _ rfl)).keep hroot rfl fun v _ hmapped => ?_
    exact hkeeps v.path v.path_length hmapped
  | mapRegionFails hrun => exact hkernel (hcall hrun).1 rfl rfl
  | unmapRegion hm =>
    have hother {v : VirtAddr} (hmapped : reach k₀.mem.tables k₀.rootPml4.addr v.path ≠ none) :=
      hlast.unmapRegion h hm hmapped
    rw [hlast.root] at hother
    refine ⟨hlast.root, fun v hv hmapped => ?_, hlast.returned⟩
    exact (hother hmapped).trans (hlast.shared v hv hmapped)
  | newSpace hrun => exact hlast.keep hroot rfl fun v _ _ => h.walks_of_tables (fun a p ha => h.newSpace_tables hrun ha) v
  | newSpaceFails hrun => exact hlast.keep hroot rfl fun v _ _ => h.walks_of_tables (fun a p ha => h.newSpace_tables hrun ha) v
  | bootstrapSpace => exact hkernel (.refl _ _) rfl rfl
  | activate hi =>
    refine hkernel (.refl _ _) ?_ rfl
    simp only [AddressSpaces.activate]
    split_ifs
    · rfl
    · rfl
  | mapPage hi =>
    exact hlast.keep hroot rfl fun v hv _ => h.mapPage_keeps (List.mem_of_getElem? hi) (hlive _ hi) _ _ hv
  | unmapPage hi =>
    exact hlast.keep hroot rfl fun v hv _ => h.unmapPage_keeps (List.mem_of_getElem? hi) (hlive _ hi) hv
  | destroy hi =>
    exact hlast.keep hroot rfl fun v _ _ =>
      h.walks_of_tables (fun a p ha => h.destroy_tables (List.mem_of_getElem? hi) ha) v
  | takeFrame hrun => exact hkernel (.refl _ _) (congrArg (fun x => x.2.tables) hrun).symm rfl
  | takeFrameFails hrun => exact hkernel (.refl _ _) (congrArg (fun x => x.2.tables) hrun).symm rfl
  | freeFrame hf hrun =>
    cases hrun
    exact hkernel (.refl _ _) rfl rfl

/-- What boot mapped in the shared slots stays mapped over every run. -/
theorem lasting_run {ops : List Op} (hload : info.Loaded) (hinit : Vmm.init info info.kernel = some k₀)
    (hrun : Run LiveStep (System.start k₀) ops y) : Lasting k₀ y := by
  obtain ⟨place₀, hstart, -⟩ := Inv.start (init_booted hload hinit)
  have hboth := hrun.invariant (fun y => (∃ place, Inv info place y) ∧ Lasting k₀ y) ?_ ⟨⟨place₀, hstart⟩, .start k₀⟩
  · exact hboth.2
  · rintro y op y' ⟨⟨place, h⟩, hlast⟩ hstep
    obtain ⟨place', h', -⟩ := h.step hstep
    exact ⟨⟨place', h'⟩, hlast.step h hstep⟩

end Steps
end VenturaOS.Machine
