import VenturaOS.Vmm.RegionCalls

/-!
# Region calls on the kernel

`allocate_and_map_region` and `unmap_region` as steps of the kernel state.
New regions lie in the upper half because the cursor does.
-/
namespace VenturaOS.Vmm
open Library Pmm Paging Memory

/-- The cursor is page aligned and in the dynamic range or above it. -/
def CursorOk (vmm : VirtualMemoryManager) : Prop :=
  vmm.nextDynamicAddr.toNat % 4096 = 0 ∧ dynamicVirtStart.toNat ≤ vmm.nextDynamicAddr.toNat

/-- A successful reservation starts at the cursor and moves it to its end. -/
theorem reserve_ok {size : U64} {permissions : VirtPermissions} {purpose : RegionPurpose}
    {vmm vmm' : VirtualMemoryManager} {region : VirtRegion}
    (h : reserveVirtualRegion size permissions purpose vmm = (.ok region, vmm')) :
    region = ⟨⟨vmm.nextDynamicAddr⟩, size, permissions, purpose, false⟩ ∧
      size.toNat ≠ 0 ∧ size.toNat % 4096 = 0 ∧
      vmm.nextDynamicAddr.toNat + size.toNat ≤ dynamicVirtEnd.toNat ∧
      (vmm.nextDynamicAddr + size).toNat = vmm.nextDynamicAddr.toNat + size.toNat ∧
      (∀ r ∈ vmm.regions, r.overlaps ⟨vmm.nextDynamicAddr⟩ size = false) ∧ vmm.regions.length < maxVirtRegions ∧
      vmm' = { regions := vmm.regions ++ [region], nextDynamicAddr := vmm.nextDynamicAddr + size } := by
  unfold reserveVirtualRegion at h
  simp only at h
  split_ifs at h with hzero hover hend hany hfull
  · cases h
  · cases h
  · cases h
  · cases h
  · cases h
  cases h
  rw [not_or, not_not, pageSize] at hzero
  rw [not_or, not_lt] at hend
  rw [Bool.not_eq_true, List.any_eq_false] at hany
  have hsum : (vmm.nextDynamicAddr + size).toNat = vmm.nextDynamicAddr.toNat + size.toNat := by
    rw [BitVec.toNat_add]
    omega
  exact ⟨rfl, hzero.1, hzero.2, hsum ▸ hend.1, hsum, fun r hr => by simpa using hany r hr, by omega, rfl⟩

/-- Within the dynamic range, and apart from what is registered, a reservation succeeds. -/
theorem reserve_of (size : U64) {vmm : VirtualMemoryManager} (hpos : size.toNat ≠ 0) (hal : size.toNat % 4096 = 0)
    (hlow : dynamicVirtStart.toNat ≤ vmm.nextDynamicAddr.toNat)
    (hend : vmm.nextDynamicAddr.toNat + size.toNat ≤ dynamicVirtEnd.toNat)
    (hapart : ∀ r ∈ vmm.regions, r.overlaps ⟨vmm.nextDynamicAddr⟩ size = false)
    (hfew : vmm.regions.length < maxVirtRegions) (permissions : VirtPermissions) (purpose : RegionPurpose) :
    reserveVirtualRegion size permissions purpose vmm =
      (.ok ⟨⟨vmm.nextDynamicAddr⟩, size, permissions, purpose, false⟩,
        { regions := vmm.regions ++ [⟨⟨vmm.nextDynamicAddr⟩, size, permissions, purpose, false⟩]
          nextDynamicAddr := vmm.nextDynamicAddr + size }) := by
  have hstart : dynamicVirtStart.toNat = 2 ^ 64 - 2 ^ 47 := rfl
  have hstop : dynamicVirtEnd.toNat = 2 ^ 64 - 2 ^ 39 := rfl
  have hsum : (vmm.nextDynamicAddr + size).toNat = vmm.nextDynamicAddr.toNat + size.toNat := by
    rw [BitVec.toNat_add]
    omega
  have hcanon : isCanonical (vmm.nextDynamicAddr + size) = true := by
    rw [isCanonical_iff, hsum]
    omega
  have hany : vmm.regions.any (fun r => r.overlaps ⟨vmm.nextDynamicAddr⟩ size) = false := by
    rw [List.any_eq_false]
    intro r hr
    rw [hapart r hr]
    exact Bool.false_ne_true
  unfold reserveVirtualRegion
  dsimp only
  rw [if_neg (by unfold pageSize; omega), if_neg (by omega), if_neg (by rw [hcanon, hsum]; simp; omega),
    if_neg (by rw [hany]; exact Bool.false_ne_true), if_neg (by omega)]

/-- A failed reservation changes nothing. -/
theorem reserve_error {size : U64} {permissions : VirtPermissions} {purpose : RegionPurpose}
    {vmm vmm' : VirtualMemoryManager} {e : VmmError}
    (h : reserveVirtualRegion size permissions purpose vmm = (.error e, vmm')) : vmm' = vmm := by
  unfold reserveVirtualRegion at h
  simp only at h
  split_ifs at h <;> cases h <;> rfl

theorem unregister_cursor (start : VirtAddr) (vmm : VirtualMemoryManager) :
    (unregisterRegion start vmm).2.nextDynamicAddr = vmm.nextDynamicAddr := by
  unfold unregisterRegion
  split <;> rfl

theorem CursorOk.reserve {vmm : VirtualMemoryManager} (h : CursorOk vmm) (size : U64) (permissions : VirtPermissions)
    (purpose : RegionPurpose) :
    CursorOk (reserveVirtualRegion size permissions purpose vmm).2 := by
  rcases he : reserveVirtualRegion size permissions purpose vmm with ⟨e | region, vmm'⟩
  · rw [reserve_error he]
    exact h
  · rcases reserve_ok he with ⟨-, -, hal, -, hsum, -, -, rfl⟩
    rcases h with ⟨hc, hs⟩
    simp only [CursorOk, hsum]
    omega

theorem CursorOk.unregister {start : VirtAddr} {vmm : VirtualMemoryManager} (h : CursorOk vmm) :
    CursorOk (unregisterRegion start vmm).2 := by
  rw [CursorOk, unregister_cursor]
  exact h

/-- The pages of a fresh reservation. -/
theorem upperPages_reserved {vmm : VirtualMemoryManager} (h : CursorOk vmm) {size : U64}
    (hal : size.toNat % 4096 = 0) (hend : vmm.nextDynamicAddr.toNat + size.toNat ≤ dynamicVirtEnd.toNat) :
    UpperPages vmm.nextDynamicAddr (size.toNat / pageSize) := by
  rcases h with ⟨hc, hs⟩
  have hstart : dynamicVirtStart.toNat = 2 ^ 64 - 2 ^ 47 := rfl
  have hstop : dynamicVirtEnd.toNat ≤ 2 ^ 64 := by decide
  exact ⟨hc, by omega, by unfold pageSize; omega⟩

/-- The pages of a returned region, and what became of them. -/
structure Returned (r : U64) (place place' : Placement) (region : VirtRegion) : Prop where
  owns : region.ownsPhysicalPages = true
  pages : UpperPages region.start.addr region.pageCount
  vacant : ∀ v ∈ pagesFrom region.start.addr region.pageCount, ¬ Occupied r place v.path
  occupied : ∀ q, q.length = 4 → (Occupied r place' q ↔
    Occupied r place q ∨ ∃ v ∈ pagesFrom region.start.addr region.pageCount, q = v.path)

section

variable {r : U64} {F : Finset U64} {c : ℕ} {place : Placement} {held : Finset U64} {k k' : Kernel}

theorem allocateAndMapRegion_cases (h : Owned (kernelPolicy r F) F c place held k.mem) (hr : place r = some (r, []))
    (hlow : LowHuge r place k.mem) (hmode : k.mem.isBootstrapping = false) (hroot : k.rootPml4 = ⟨r⟩)
    (hcur : CursorOk k.vmm) {size : U64} {permissions : VirtPermissions} {purpose : RegionPurpose}
    {result : Except VmmError VirtRegion}
    (hrun : allocateAndMapRegion size permissions purpose k = (result, k')) :
    ∃ place', Owned (kernelPolicy r F) F c place' held k'.mem ∧ KernelStep r place place' k.mem k'.mem ∧
      LogOk k.mem k'.mem ∧ CursorOk k'.vmm ∧ k' = { k with mem := k'.mem, vmm := k'.vmm } ∧
      (∀ region, result = .ok region → Returned r place place' region) ∧
      (∀ e, result = .error e → LeafSame r place place') := by
  have hflags : LeafFlags permissions.toPageFlags := permissions.toPageFlags_ok
  have hnoleaf : LeafSame r place place := fun _ _ _ => Iff.rfl
  have hcur' := hcur.reserve size permissions purpose
  unfold allocateAndMapRegion at hrun
  rcases he : reserveVirtualRegion size permissions purpose k.vmm with ⟨e | region, vmm'⟩
  · rw [he] at hrun hcur'
    cases hrun
    exact ⟨place, h, .refl .., .refl _, hcur', rfl, by simp, fun _ _ => hnoleaf⟩
  · rw [he] at hrun hcur'
    rcases reserve_ok he with ⟨rfl, -, hal, hend, -, -, -, -⟩
    have hpages := upperPages_reserved hcur hal hend
    simp only at hrun
    split_ifs at hrun with hmax
    · cases hrun
      exact ⟨place, h, .refl .., .refl _, hcur', rfl, by simp, fun _ _ => hnoleaf⟩
    · rcases takeAndMap_cases h hr hlow hmode hflags (fun v hv => .inl (hpages.page hv).2.2) with
        ⟨mem, ha, ho, hstep, hlog⟩ |
        ⟨l, mem, ha, ⟨place', mem', hm, ho, hstep, hlog, hvac, hocc⟩ | ⟨place', mem', hm, ho, hstep, hlog, hleaf⟩⟩
      · simp only [ha] at hrun
        cases hrun
        exact ⟨place, ho, hstep, hlog, hcur', rfl, by simp, fun _ _ => hnoleaf⟩
      · rw [← hroot] at hm
        simp only [ha, hm] at hrun
        cases hrun
        refine ⟨place', ho, hstep, hlog, hcur', rfl, ?_, by simp⟩
        rintro _ ⟨⟩
        exact ⟨rfl, hpages, fun v hv => (hvac v hv).2.2.2, hocc⟩
      · rw [← hroot] at hm
        simp only [ha, hm] at hrun
        cases hrun
        exact ⟨place', ho, hstep, hlog, hcur'.unregister, rfl, by simp, fun _ _ => hleaf⟩

/-- A region that is returned is the one reserved, now owning its pages. -/
theorem allocated_region {size : U64} {permissions : VirtPermissions} {purpose : RegionPurpose} {region : VirtRegion}
    (hrun : allocateAndMapRegion size permissions purpose k = (.ok region, k')) :
    ∃ reserved vmm', reserveVirtualRegion size permissions purpose k.vmm = (.ok reserved, vmm') ∧ k'.vmm = vmm' ∧
      region = { reserved with ownsPhysicalPages := true } := by
  unfold allocateAndMapRegion at hrun
  generalize reserveVirtualRegion size permissions purpose k.vmm = taken at hrun ⊢
  rcases taken with ⟨e | reserved, vmm'⟩
  · cases hrun
  · simp only at hrun
    split_ifs at hrun
    · cases hrun
    · generalize allocateFrames (size.toNat / pageSize) [] k.mem = got at hrun
      rcases got with ⟨_ | frames, mem⟩
      · cases hrun
      · simp only at hrun
        generalize mapPages k.rootPml4 permissions.toPageFlags []
          ((pagesFrom reserved.start.addr (size.toNat / pageSize)).zip frames) mem = mapped at hrun
        rcases mapped with ⟨_ | _, mem'⟩
        · cases hrun
        · cases hrun
          exact ⟨reserved, _, rfl, rfl, rfl⟩

/-- It starts where the cursor stood, and ends in the dynamic range. -/
theorem allocated_placed {size : U64} {permissions : VirtPermissions} {purpose : RegionPurpose} {region : VirtRegion}
    (hrun : allocateAndMapRegion size permissions purpose k = (.ok region, k')) :
    region.start.addr = k.vmm.nextDynamicAddr ∧ region.sizeBytes = size ∧ size.toNat % 4096 = 0 ∧
      region.stop.addr.toNat = region.start.addr.toNat + size.toNat ∧ region.stop.addr.toNat ≤ dynamicVirtEnd.toNat := by
  rcases allocated_region hrun with ⟨reserved, vmm', hres, -, hregion⟩
  rcases reserve_ok hres with ⟨hreserved, -, hal, hend, hsum, -, -, -⟩
  have hstart : region.start.addr = k.vmm.nextDynamicAddr := by rw [hregion, hreserved]
  have hsize : region.sizeBytes = size := by rw [hregion, hreserved]
  have hstop : region.stop.addr.toNat = region.start.addr.toNat + size.toNat := by
    rw [VirtRegion.stop, hstart, hsize]
    exact hsum
  refine ⟨hstart, hsize, hal, hstop, ?_⟩
  rw [hstop, hstart]
  exact hend

/-- `unmap_region` on an owning region of the upper half. -/
theorem unmapRegion_cases (h : Owned (kernelPolicy r F) F c place held k.mem) (hr : place r = some (r, []))
    (hroot : k.rootPml4 = ⟨r⟩) (hcur : CursorOk k.vmm) {region : VirtRegion} (howns : region.ownsPhysicalPages = true)
    (hpages : UpperPages region.start.addr region.pageCount) :
    ∃ place', Owned (kernelPolicy r F) F c place' held (unmapRegion region k).2.mem ∧
      KernelStep r place place' k.mem (unmapRegion region k).2.mem ∧ CursorOk (unmapRegion region k).2.vmm ∧
      ((∀ v ∈ pagesFrom region.start.addr region.pageCount, Occupied r place v.path) →
        LogOk k.mem (unmapRegion region k).2.mem) ∧
      ∀ q, q.length = 4 → (Occupied r place' q ↔
        Occupied r place q ∧ ∀ v ∈ pagesFrom region.start.addr region.pageCount, q ≠ v.path) := by
  rcases unmapAll_cases (pagesFrom region.start.addr region.pageCount) h hr (fun v hv => hpages.page hv) with
    ⟨place', ho, hstep, hlog, hleaf⟩
  simp only [unmapRegion, hroot, howns]
  refine ⟨place', ho, hstep, hcur.unregister, hlog hpages.paths_nodup, fun q hq => ?_⟩
  have hmem : q ∉ (pagesFrom region.start.addr region.pageCount).map VirtAddr.path ↔
      ∀ v ∈ pagesFrom region.start.addr region.pageCount, q ≠ v.path := by
    simp only [List.mem_map, not_exists, not_and, ne_comm (a := q), ne_eq]
  rw [← hmem]
  constructor
  · rintro ⟨g, hg⟩
    rcases (hleaf g q hq).mp hg with ⟨hp, hn⟩
    exact ⟨⟨g, hp⟩, hn⟩
  · rintro ⟨⟨g, hg⟩, hn⟩
    exact ⟨g, (hleaf g q hq).mpr ⟨hg, hn⟩⟩

end
end VenturaOS.Vmm
