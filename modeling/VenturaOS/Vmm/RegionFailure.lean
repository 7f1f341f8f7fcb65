import VenturaOS.Vmm.BootRegions
import VenturaOS.Vmm.RegionTable
import VenturaOS.Vmm.Rollback

/-!
# Failed and looked-up regions

What `allocate_and_map_region` leaves behind in the region table: after a
failed mapping nothing, after a refusal of frames the reserved region, and
after a success an entry that does not say who owns the frames.
-/
namespace VenturaOS.Vmm
open Library Pmm Paging Memory

/-- An entry that starts at the dynamic cursor is nonempty and does not run past the end of the address space. -/
def Registered (vmm : VirtualMemoryManager) : Prop :=
  ∀ r ∈ vmm.regions, r.start.addr = vmm.nextDynamicAddr → r.sizeBytes.toNat ≠ 0 ∧ r.NonWrapping

/-- A call that returns an error leaves the set of regions, every page walk and the frames for its pages as they were. -/
def AllOrNothing (size : U64) (permissions : VirtPermissions) (purpose : RegionPurpose) (k : Kernel) : Prop :=
  ∀ e k', allocateAndMapRegion size permissions purpose k = (.error e, k') →
    k'.vmm.regions.Perm k.vmm.regions ∧
    (∀ v, hardwareWalk k'.mem.tables k.rootPml4.addr v = hardwareWalk k.mem.tables k.rootPml4.addr v) ∧
    OnlyNewTables k.rootPml4.addr k.mem k'.mem ∧
    (∀ mem, allocateFrames (size.toNat / pageSize) [] k.mem = (none, mem) →
      k'.mem.pmm.freeFrames = k.mem.pmm.freeFrames) ∧
    ∀ frames mem, allocateFrames (size.toNat / pageSize) [] k.mem = (some frames, mem) →
      ∀ p ∈ frames, p.addr ∈ k'.mem.pmm.freeFrames

section Failure

variable {k k' : Kernel} {vmm vmm' : VirtualMemoryManager} {size : U64} {permissions : VirtPermissions}
  {purpose : RegionPurpose} {region : VirtRegion}

theorem Registered.fresh_start (h : Registered vmm)
    (hres : reserveVirtualRegion size permissions purpose vmm = (.ok region, vmm')) :
    ∀ r ∈ vmm.regions, r.start ≠ region.start := by
  rcases reserve_ok hres with ⟨rfl, hne, -, hend, hsum, hany, -, -⟩
  intro r hr he
  rcases h r hr (by rw [he]) with ⟨hpos, hwrap⟩
  have hover := hany r hr
  have hstart : r.start.addr.toNat = vmm.nextDynamicAddr.toNat := by rw [he]
  rw [VirtRegion.overlaps, VirtRegion.stop_toNat hwrap, hsum, Bool.and_eq_false_iff, decide_eq_false_iff_not,
    decide_eq_false_iff_not] at hover
  rcases hover with hover | hover
  · exact hover (by omega)
  · exact hover (by change vmm.nextDynamicAddr.toNat < _; omega)

/-- Taking the last entry out again leaves the others. -/
theorem unregister_last {l : List VirtRegion} (hl : ∀ r ∈ l, r.start ≠ region.start) (cursor : U64) :
    (unregisterRegion region.start ⟨l ++ [region], cursor⟩).2.regions.Perm l := by
  have hfind : (l ++ [region]).findIdx? (fun r => decide (r.start = region.start)) = some l.length := by
    rw [List.findIdx?_append, List.findIdx?_eq_none_iff.mpr fun r hr => decide_eq_false (hl r hr)]
    simp
  unfold unregisterRegion
  simp only [hfind]
  have hperm := swapRemove_perm (l := l ++ [region]) (i := l.length) (by simp)
  rwa [List.eraseIdx_append_of_length_le le_rfl, Nat.sub_self, List.eraseIdx_cons_zero, List.append_nil] at hperm

theorem OnlyNewTables.refl (k : U64) (s : PageMemory) : OnlyNewTables k s s :=
  ⟨Finset.Subset.refl _, fun _ hf hnot => absurd hf hnot⟩

/-- Frames the call would take are free before it. -/
theorem frames_free {F : Finset U64} {c : ℕ} {place : Placement} {held : Finset U64} {s s₁ : PageMemory} {r : U64}
    (h : Owned (tablePolicy r) F c place held s) {n : ℕ} {l : List PhysPage}
    (hrun : allocateFrames n [] s = (some l, s₁)) : ∀ p ∈ l, p.addr ∈ s.pmm.freeFrames := by
  have h₀ : Owned (tablePolicy r) F c place (held ∪ addrs []) s := by simpa using h
  rcases allocateFrames_cases n [] h₀ (.nil F held) with ⟨l', s', he, -, hbatch, ho, -⟩ | ⟨s', he, -⟩
  · rw [hrun] at he
    cases he
    intro p hp
    have hheld : p.addr ∈ held ∪ addrs l := Finset.mem_union_right _ (mem_addrs.mpr hp)
    exact (free_iff h).mpr ⟨hbatch.managed p hp, (ho.held_inUse hheld).2, hbatch.apart p hp⟩
  · rw [hrun] at he
    cases he

end Failure

/-- What a failed mapping leaves alone. -/
structure RolledBack (k k' : Kernel) : Prop where
  root : k'.rootPml4 = k.rootPml4
  heap : k'.heap = k.heap
  bytes : k'.bytes = k.bytes
  vmm : k'.vmm = k.vmm
  walks : ∀ v, hardwareWalk k'.mem.tables k.rootPml4.addr v = hardwareWalk k.mem.tables k.rootPml4.addr v
  frames : OnlyNewTables k.rootPml4.addr k.mem k'.mem

section Order

variable {k k' : Kernel}

theorem RolledBack.refl (k : Kernel) : RolledBack k k := ⟨rfl, rfl, rfl, rfl, fun _ => rfl, .refl _ _⟩

/-- Only the tables and the page allocator matter. -/
theorem InOrder.same (h : InOrder k) (hr : k'.rootPml4 = k.rootPml4) (hm : k'.mem = k.mem) : InOrder k' := by
  unfold InOrder
  rw [hr, hm]
  exact h

theorem InOrder.mapRegion (h : InOrder k) (region : VirtRegion) (pages : List PhysPage) :
    InOrder (Vmm.mapRegion region pages k).2 ∧
      ∀ e, (Vmm.mapRegion region pages k).1 = .error e → RolledBack k (Vmm.mapRegion region pages k).2 := by
  have hsame := h
  rcases h with ⟨F, c, place, held, ho, hroot, hmode⟩
  unfold Vmm.mapRegion
  split_ifs with hfew
  · exact ⟨hsame, fun _ _ => .refl k⟩
  · have hn : region.pageCount * 4096 ≤ 2 ^ 64 := by
      have hlt := region.sizeBytes.isLt
      unfold VirtRegion.pageCount pageSize
      omega
    have hpages : region.pageCount ≤ pages.length := by omega
    rcases mapBatch_tables ho hroot hmode region.permissions.toPageFlags_ok.1 region.start.addr hn hpages with
      ⟨ok, place', s', hrun, ho', hext, hmode', -, hfail, -⟩
    rw [hrun]
    cases ok with
    | true => exact ⟨⟨F, c, place', held, ho', hext.kept hroot, hmode'⟩, fun e he => by cases he⟩
    | false =>
      exact ⟨⟨F, c, place', held, ho', hext.kept hroot, hmode'⟩, fun _ _ =>
        ⟨rfl, rfl, rfl, rfl, (hfail rfl).walk, hext.onlyNewTables ho ho'⟩⟩

theorem InOrder.allocateAndMap (h : InOrder k) (size : U64) (permissions : VirtPermissions) (purpose : RegionPurpose) :
    InOrder (allocateAndMapRegion size permissions purpose k).2 ∧
      Keeps k.rootPml4.addr k.mem (allocateAndMapRegion size permissions purpose k).2.mem ∧
      ∀ region, (allocateAndMapRegion size permissions purpose k).1 = .ok region →
        ∀ v ∈ pagesFrom region.start.addr region.pageCount, reach k.mem.tables k.rootPml4.addr v.path = none := by
  have hsame := h
  rcases h with ⟨F, c, place, held, ho, hroot, hmode⟩
  have hn : size.toNat / pageSize * 4096 ≤ 2 ^ 64 := by
    have hlt := size.isLt
    unfold pageSize
    omega
  unfold allocateAndMapRegion
  rcases hres : reserveVirtualRegion size permissions purpose k.vmm with ⟨e | reserved, vmm'⟩
  · exact ⟨hsame.same rfl rfl, .refl _ _, fun _ hok => by cases hok⟩
  · have hsize : reserved.sizeBytes = size := by rw [(reserve_ok hres).1]
    simp only
    split_ifs
    · exact ⟨hsame.same rfl rfl, .refl _ _, fun _ hok => by cases hok⟩
    · rcases takeAndMap_tables ho hroot hmode permissions.toPageFlags_ok.1 reserved.start.addr hn with
        ⟨s', htaken, ho', hmode', hwalks, -⟩ | ⟨l, s₁, htaken, -, hmapped⟩
      · rw [htaken]
        exact ⟨⟨F, c, place, held, ho', hroot, hmode'⟩, hwalks.keeps, fun _ hok => by cases hok⟩
      · rw [htaken]
        simp only
        rcases hmapped with ⟨place', s', hmap, ho', hext, hmode', hadds⟩ | ⟨place', s', hmap, ho', hext, hmode', hwalks, -⟩
        · rw [hmap]
          refine ⟨⟨F, c, place', _, ho', hext.kept hroot, hmode'⟩, hadds.keeps, ?_⟩
          rintro region ⟨⟩ v hv
          change v ∈ pagesFrom reserved.start.addr reserved.pageCount at hv
          rw [VirtRegion.pageCount, hsize] at hv
          exact hadds.vacant v hv
        · rw [hmap]
          exact ⟨⟨F, c, place', held, ho', hext.kept hroot, hmode'⟩, hwalks.keeps, fun _ hok => by cases hok⟩

end Order

/-- The call takes the entry that starts there out of the table. -/
def TableCall.Removes (start : VirtAddr) : TableCall → Prop
  | .unmap region => region.start = start
  | .unregister other => other = start
  | _ => False

section Lookup

variable {k k' : Kernel} {vmm vmm' : VirtualMemoryManager} {size : U64} {permissions : VirtPermissions}
  {purpose : RegionPurpose} {region entry : VirtRegion} {calls : List TableCall}

/-- A removal by another start address leaves an entry alone. -/
theorem unregister_keeps (h : entry ∈ vmm.regions) {start : VirtAddr} (hne : entry.start ≠ start) :
    entry ∈ (unregisterRegion start vmm).2.regions := by
  unfold unregisterRegion
  split
  case h_1 i hi =>
    rcases List.findIdx?_eq_some_iff_getElem.mp hi with ⟨hlt, hat, -⟩
    rcases List.getElem_of_mem h with ⟨j, hj, hget⟩
    refine (swapRemove_perm hlt).mem_iff.mpr (List.mem_eraseIdx_iff_getElem?.mpr ⟨j, ?_, ?_⟩)
    · rintro rfl
      rw [hget] at hat
      exact hne (of_decide_eq_true hat)
    · rw [List.getElem?_eq_getElem hj, hget]
  case h_2 => exact h

/-- An entry below the cursor stays there until a call names its start. -/
theorem TableStep.keeps {call : TableCall} (hstep : TableStep vmm call vmm') (htable : TableOk vmm)
    (h : entry ∈ vmm.regions) (hlow : entry.start.addr.toNat < vmm.nextDynamicAddr.toNat)
    (hcall : ¬ call.Removes entry.start) :
    entry ∈ vmm'.regions ∧ entry.start.addr.toNat < vmm'.nextDynamicAddr.toNat := by
  refine ⟨?_, hlow.trans_le (htable.step hstep).cursor⟩
  have hreserve {size : U64} {permissions : VirtPermissions} {purpose : RegionPurpose} {vmm₁ : VirtualMemoryManager}
      {taken : Except VmmError VirtRegion} (hrun : reserveVirtualRegion size permissions purpose vmm = (taken, vmm₁)) :
      entry ∈ vmm₁.regions := by
    cases taken with
    | error e =>
      rw [reserve_error hrun]
      exact h
    | ok reserved =>
      rcases reserve_ok hrun with ⟨-, -, -, -, -, -, -, hvmm⟩
      rw [hvmm]
      exact List.mem_append_left _ h
  cases hstep with
  | reserve hrun => exact hreserve hrun
  | @allocate k k' _ _ _ result hrun =>
    unfold allocateAndMapRegion at hrun
    rcases htaken : reserveVirtualRegion _ _ _ k.vmm with ⟨taken, vmm₁⟩
    rw [htaken] at hrun
    have hkept := hreserve htaken
    cases taken with
    | error e =>
      cases hrun
      exact hkept
    | ok reserved =>
      rcases reserve_ok htaken with ⟨hregion, -⟩
      have hne : entry.start ≠ reserved.start := by
        rintro he
        rw [he, hregion] at hlow
        exact lt_irrefl _ hlow
      simp only at hrun
      split at hrun
      · cases hrun
        exact hkept
      · split at hrun
        · cases hrun
          exact hkept
        · split at hrun
          · cases hrun
            exact hkept
          · cases hrun
            exact unregister_keeps hkept hne
  | unmap r => exact unregister_keeps h fun he => hcall he.symm
  | unregister start => exact unregister_keeps h fun he => hcall he.symm
  | advance _ =>
    rw [(advance_cursor _ _).2.2]
    exact h

theorem entry_kept (hrun : Run TableStep vmm calls vmm') (htable : TableOk vmm) (h : entry ∈ vmm.regions)
    (hlow : entry.start.addr.toNat < vmm.nextDynamicAddr.toNat) (hcalls : ∀ call ∈ calls, ¬ call.Removes entry.start) :
    TableOk vmm' ∧ entry ∈ vmm'.regions := by
  induction hrun with
  | nil => exact ⟨htable, h⟩
  | @cons vmm vmm₁ vmm₂ call calls hstep _ ih =>
    rcases hstep.keeps htable h hlow (hcalls call (by simp)) with ⟨h₁, hlow₁⟩
    exact ih (htable.step hstep).table h₁ hlow₁ fun c hc => hcalls c (by simp [hc])

theorem unmapPage_pmm (root : PhysPage) (v : VirtAddr) (s : PageMemory) : (unmapPage root v s).2.pmm = s.pmm := by
  unfold unmapPage
  simp only
  split_ifs <;> rfl

theorem unmapRegion_pmm (hown : region.ownsPhysicalPages = false) (k : Kernel) :
    (unmapRegion region k).2.mem.pmm = k.mem.pmm := by
  have hone (s : PageMemory) (v : VirtAddr) : (unmapOne k.rootPml4 false s v).pmm = s.pmm := by
    have hkept := unmapPage_pmm k.rootPml4 v s
    unfold unmapOne
    generalize unmapPage k.rootPml4 v s = result at hkept ⊢
    rcases result with ⟨_ | _, s'⟩
    · exact hkept
    · exact hkept
  have hall (vs : List VirtAddr) (s : PageMemory) : (vs.foldl (unmapOne k.rootPml4 false) s).pmm = s.pmm := by
    induction vs generalizing s with
    | nil => rfl
    | cons v vs ih => rw [List.foldl_cons, ih, hone]
  unfold unmapRegion
  rw [hown]
  exact hall _ _

/-- The entry of a returned region, for as long as it is registered. -/
theorem lookup_entry (h : TableOk k.vmm) (hrun : allocateAndMapRegion size permissions purpose k = (.ok region, k'))
    (hcalls : Run TableStep k'.vmm calls vmm) (hkept : ∀ call ∈ calls, ¬ call.Removes region.start) :
    region.Dynamic ∧ region.ownsPhysicalPages = true ∧ ∀ a, region.contains a = true →
      findRegionForAddr a vmm = some { region with ownsPhysicalPages := false } := by
  have hadv := h.allocate hrun
  rcases hadv.fresh region rfl with ⟨hdyn, -, hhigh⟩
  have hpos := hdyn.nonempty
  rcases allocated_region hrun with ⟨reserved, vmm', hres, hvmm, hregion⟩
  rcases reserve_ok hres with ⟨hreserved, -, -, -, -, -, -, hnew⟩
  have hentry : { region with ownsPhysicalPages := false } = reserved := by
    rw [hregion, hreserved]
  have hmem : { region with ownsPhysicalPages := false } ∈ k'.vmm.regions := by
    rw [hvmm, hnew, hentry]
    simp
  rcases entry_kept hcalls hadv.table hmem (by dsimp only; omega) hkept with ⟨htable, hstill⟩
  refine ⟨hdyn, by rw [hregion], fun a ha => ?_⟩
  exact (htable.find_iff a { region with ownsPhysicalPages := false }).mpr ⟨hstill, ha⟩

/-- A look-up never finds the region that was returned, and what it finds gives no frame back. -/
theorem lookup_never_returned (h : TableOk k.vmm)
    (hrun : allocateAndMapRegion size permissions purpose k = (.ok region, k')) (hcalls : Run TableStep k'.vmm calls vmm)
    (hkept : ∀ call ∈ calls, ¬ call.Removes region.start) :
    (∃ a, region.contains a = true) ∧ ∀ a, region.contains a = true →
      findRegionForAddr a vmm ≠ some region ∧
      ∃ q, findRegionForAddr a vmm = some q ∧ q = { region with ownsPhysicalPages := false } ∧
        ∀ k₁, (unmapRegion q k₁).2.mem.pmm = k₁.mem.pmm := by
  rcases lookup_entry h hrun hcalls hkept with ⟨hdyn, howns, hfind⟩
  have hpos := hdyn.nonempty
  refine ⟨⟨region.start, (VirtRegion.contains_iff hdyn.nonWrapping).mpr ⟨le_rfl, by omega⟩⟩, fun a ha => ?_⟩
  refine ⟨fun hbad => ?_, _, hfind a ha, rfl, fun k₁ => unmapRegion_pmm rfl k₁⟩
  rw [hfind a ha] at hbad
  have hflag := congrArg VirtRegion.ownsPhysicalPages (Option.some.inj hbad)
  rw [howns] at hflag
  cases hflag

end Lookup

section Samples

theorem Booted.inOrder {info : BootInfo} {k : Kernel} (h : Booted info k) : InOrder k := by
  rcases h.tables with ⟨place, hb, -⟩
  rcases forget_leaves hb.owned with ⟨place₀, held₀, ho, hplace⟩
  exact ⟨_, _, place₀, held₀, ho, (hplace _ _ _).mpr ⟨hb.root, by simp⟩, h.mode⟩

theorem sample_registered {k : Kernel} (hk : init sampleInfo sampleInfo.kernel = some k) : Registered k.vmm := by
  have hall : ∀ r ∈ bootRegions sampleInfo, r.sizeBytes.toNat ≠ 0 ∧ r.start.addr.toNat + r.sizeBytes.toNat < 2 ^ 64 := by
    decide
  exact fun r hr _ => hall r ((init_regions hk).subset hr)

theorem sample_table {k : Kernel} (hk : init sampleInfo sampleInfo.kernel = some k) : TableOk k.vmm := by
  have hwrap : ∀ r ∈ bootRegions sampleInfo, r.start.addr.toNat + r.sizeBytes.toNat < 2 ^ 64 := by decide
  have hover : (bootRegions sampleInfo).Pairwise fun r q => r.overlaps q.start q.sizeBytes = false := by decide
  have hsub := init_regions hk
  refine ⟨fun r hr => hwrap r (hsub.subset hr), ?_, hsub.length_le.trans (by decide), ?_⟩
  · refine (hover.sublist hsub).imp_of_mem fun hr hq hrq => ?_
    exact VirtRegion.apart_of_overlaps (hwrap _ (hsub.subset hr)) (hwrap _ (hsub.subset hq)) hrq
  · rw [CursorOk, (init_booted sampleInfo_loaded hk).cursor]
    exact ⟨by decide, le_rfl⟩

theorem sample_page : ∃ k region k', init sampleInfo sampleInfo.kernel = some k ∧
    allocateAndMapRegion 0x1000#64 .kernelData .dynamicKernel k = (.ok region, k') ∧
    region.contains region.start = true := by
  have hclear : sampleInfo.Clear 0x1000#64 := ⟨by decide, by decide⟩
  rcases first_region sampleInfo_loaded sampleInfo_low hclear (by decide) (by decide) (by decide)
    (by rw [sampleInfo_frames]; decide) .kernelData .dynamicKernel with ⟨k, k', hk, hmap, -⟩
  exact ⟨k, _, k', hk, hmap, by decide⟩

theorem sample_lookup : ∃ k region k', init sampleInfo sampleInfo.kernel = some k ∧
    allocateAndMapRegion 0x1000#64 .kernelData .dynamicKernel k = (.ok region, k') ∧
    findRegionForAddr region.start k'.vmm ≠ some region := by
  rcases sample_page with ⟨k, region, k', hk, hmap, hin⟩
  have hnever := lookup_never_returned (sample_table hk) hmap (.nil k'.vmm) (by simp)
  exact ⟨k, region, k', hk, hmap, (hnever.2 _ hin).1⟩

/-- The returned region owns its frame, the one that is looked up does not, and so its frame is not freed. -/
theorem sample_leak : ∃ k region k' q, init sampleInfo sampleInfo.kernel = some k ∧
    allocateAndMapRegion 0x1000#64 .kernelData .dynamicKernel k = (.ok region, k') ∧
    findRegionForAddr region.start k'.vmm = some q ∧ region.ownsPhysicalPages = true ∧ q.ownsPhysicalPages = false ∧
    (unmapRegion q k').2.mem.pmm = k'.mem.pmm := by
  rcases sample_page with ⟨k, region, k', hk, hmap, hin⟩
  rcases lookup_entry (sample_table hk) hmap (.nil k'.vmm) (by simp) with ⟨-, howns, hfind⟩
  exact ⟨k, region, k', _, hk, hmap, hfind _ hin, howns, rfl, unmapRegion_pmm rfl k'⟩

end Samples
end VenturaOS.Vmm
