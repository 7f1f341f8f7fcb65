import VenturaOS.Vmm.Boot
import VenturaOS.Vmm.Supply

/-!
# The region table after boot

Booting registers ranges of the memory map and of devices, each at most once
and in that order. When they leave the start of the dynamic range alone and
lie in low memory, the first regions of the kernel can be allocated.
-/
namespace VenturaOS.Vmm
open Library Pmm Paging Memory

/-- The region step 1 registers for an entry of the memory map. -/
def mapRegionOf (r : MemoryRegion) : VirtRegion :=
  { start := canonicalVirt (pageDown r.physicalStart)
    sizeBytes := pageDown (r.physicalEnd + 0xFFF#64) - pageDown r.physicalStart
    permissions := match r.regionType with | .mmio => .mmio | _ => .kernelData
    purpose := match r.regionType with | .mmio => .mmio | _ => .directMappedRam
    ownsPhysicalPages := false }

/-- The region `identity_map_mmio` registers. -/
def mmioRegionOf (base size : U64) : VirtRegion :=
  ⟨⟨pageDown base⟩, pageDown (base + size + 0xFFF#64) - pageDown base, .mmio, .mmio, false⟩

/-- Everything booting may register. -/
def bootRegions (info : BootInfo) : List VirtRegion :=
  info.map.regions.map mapRegionOf ++
    ([mmioRegionOf info.lapicBase (BitVec.ofNat 64 pageSize), mmioRegionOf info.ioapicBase (BitVec.ofNat 64 pageSize)] ++
      info.framebuffer.toList.map fun b => mmioRegionOf b.1 b.2)

section Register

variable {vmm : VirtualMemoryManager} {l : List VirtRegion}

theorem register_sublist (h : vmm.regions.Sublist l) (region : VirtRegion) :
    (registerRegion region vmm).2.regions.Sublist (l ++ [region]) := by
  have hkeep : vmm.regions.Sublist (l ++ [region]) := h.trans (List.sublist_append_left l [region])
  unfold registerRegion
  split_ifs
  · exact hkeep
  · exact hkeep
  · exact hkeep
  · exact hkeep
  · exact hkeep
  · exact h.append (List.Sublist.refl _)

theorem mapMemoryRegion_sublist {k : Kernel} (h : k.vmm.regions.Sublist l) (root : PhysPage) (r : MemoryRegion) :
    (mapMemoryRegion root k r).vmm.regions.Sublist (l ++ [mapRegionOf r]) := register_sublist h (mapRegionOf r)

theorem mapRegions_sublist (rs : List MemoryRegion) {k : Kernel} (h : k.vmm.regions.Sublist l) (root : PhysPage) :
    (rs.foldl (mapMemoryRegion root) k).vmm.regions.Sublist (l ++ rs.map mapRegionOf) := by
  induction rs generalizing k l with
  | nil => simpa using h
  | cons r rs ih =>
    have hnext := ih (mapMemoryRegion_sublist h root r)
    rw [List.append_assoc, List.singleton_append] at hnext
    exact hnext

theorem identityMapMmio_sublist {k : Kernel} (h : k.vmm.regions.Sublist l) (root : PhysPage) (base size : U64) :
    (identityMapMmio root base size k).vmm.regions.Sublist (l ++ [mmioRegionOf base size]) := by
  unfold identityMapMmio
  simp only
  generalize mapMmioPages root (pageRange (pageDown base) (pageDown (base + size + 0xFFF#64))) k.mem = result
  rcases result with ⟨_ | _, mem⟩
  · exact h.trans (List.sublist_append_left _ _)
  · exact register_sublist h (mmioRegionOf base size)

theorem mapBootRegions_sublist (info : BootInfo) (root : PhysPage) {k : Kernel} (h : k.vmm.regions = []) :
    (mapBootRegions info root k).vmm.regions.Sublist (bootRegions info) := by
  have hstart : k.vmm.regions.Sublist [] := by rw [h]
  have hmap := mapRegions_sublist info.map.regions hstart root
  have hlapic := identityMapMmio_sublist hmap root info.lapicBase (BitVec.ofNat 64 pageSize)
  have hioapic := identityMapMmio_sublist hlapic root info.ioapicBase (BitVec.ofNat 64 pageSize)
  unfold mapBootRegions bootRegions
  rcases info.framebuffer with _ | ⟨base, size⟩
  · simpa using hioapic
  · simpa using identityMapMmio_sublist hioapic root base size

end Register

section Boot

variable {info : BootInfo} {k : Kernel}

theorem init_regions (h : init info info.kernel = some k) : k.vmm.regions.Sublist (bootRegions info) := by
  unfold init at h
  generalize allocateBootstrapTable { info.kernel.mem with isBootstrapping := true } = taken at h
  rcases taken with ⟨_ | rootPage, mem⟩
  · cases h
  · simp only at h
    split at h
    · cases h
    · cases h
      exact mapBootRegions_sublist info rootPage rfl

/-- No region of the boot stands in the way of a region of `size` bytes at the start of the dynamic range. -/
structure BootInfo.Clear (info : BootInfo) (size : U64) : Prop where
  apart : ∀ r ∈ bootRegions info, r.overlaps ⟨dynamicVirtStart⟩ size = false
  few : (bootRegions info).length < maxVirtRegions

theorem reserve_first {size : U64} (hclear : info.Clear size) (hboot : init info info.kernel = some k)
    (hcur : k.vmm.nextDynamicAddr = dynamicVirtStart) (hpos : size.toNat ≠ 0) (hal : size.toNat % 4096 = 0)
    (hend : dynamicVirtStart.toNat + size.toNat ≤ dynamicVirtEnd.toNat) (permissions : VirtPermissions)
    (purpose : RegionPurpose) :
    ∃ vmm', reserveVirtualRegion size permissions purpose k.vmm =
      (.ok ⟨⟨dynamicVirtStart⟩, size, permissions, purpose, false⟩, vmm') := by
  have hsub := init_regions hboot
  have hfew : k.vmm.regions.length < maxVirtRegions := hsub.length_le.trans_lt hclear.few
  rw [← hcur] at hend ⊢
  refine ⟨_, reserve_of size hpos hal (by rw [hcur]) hend (fun r hr => ?_) hfew permissions purpose⟩
  rw [hcur]
  exact hclear.apart r (hsub.subset hr)

/-- Nothing is mapped in the upper half when booting stayed in low memory. -/
theorem Flat.vacant {pol : Policy} {F : Finset U64} {c : ℕ} {r : U64} {place : Placement} {held : Finset U64}
    {s : PageMemory} (hflat : Flat place) (h : Owned pol F c place held s) (hr : place r = some (r, []))
    {v : VirtAddr} (hslot : pol.slot r v.pml4Index = true) (hv : 256 ≤ v.pml4Index.val) :
    reach s.tables r v.path = none := by
  have hne : v.pml4Index ≠ 0 := by
    intro hzero
    rw [hzero] at hv
    simp at hv
  change reach s.tables r (v.pml4Index :: v.pdptIndex :: [v.pdIndex, v.ptIndex]) = none
  by_cases h4 : (s.tables r v.pml4Index).isPresent = true
  · rcases h.follow_present hr (by simp) (fun _ => hslot) (by simp) h4 with ⟨hl4, hp4⟩
    rcases PageTableEntry.link_eq_some.mp hl4 with ⟨-, hsmall, -⟩
    have h3 : (s.tables (s.tables r v.pml4Index).physAddr v.pdptIndex).isPresent = false := by
      by_contra hbad
      rcases h.follow_present hp4 (by simp) (by simp [Policy.Owns]) (by simp [hne]) (by simpa using hbad) with ⟨-, hp3⟩
      rcases hflat hp3 with hlen | hhead
      · simp at hlen
      · exact hne (by simpa using hhead)
    rw [reach, if_pos h4, if_neg (by simp [hsmall]), reach_absent h3, Option.map_none]
  · exact reach_absent (by simpa using h4) _

/-- After a boot in low memory with frames to spare, the first region is mapped and returned. -/
theorem first_region {size : U64} (hload : info.Loaded) (hlow : info.Low) (hclear : info.Clear size)
    (hpos : size.toNat ≠ 0) (hal : size.toNat % 4096 = 0) (hn : size.toNat / pageSize ≤ 128)
    (hfree : size.toNat / pageSize + 260 ≤ info.frames.card) (permissions : VirtPermissions) (purpose : RegionPurpose) :
    ∃ k k₁, init info info.kernel = some k ∧
      allocateAndMapRegion size permissions purpose k =
        (.ok ⟨⟨dynamicVirtStart⟩, size, permissions, purpose, true⟩, k₁) ∧
      info.frames.card ≤ k₁.mem.pmm.freeFrames.card + size.toNat / pageSize + 260 := by
  have hspare : 260 ≤ info.frames.card := (Nat.le_add_left _ _).trans hfree
  rcases init_some hload (by omega) with ⟨k, hk⟩
  have hboot := init_booted hload hk
  rcases hboot.tables with ⟨place, hb, hflat⟩
  rcases forget_leaves hb.owned with ⟨place₀, held₀, ho, hplace⟩
  have hroot : place₀ k.rootPml4.addr = some (k.rootPml4.addr, []) := (hplace _ _ _).mpr ⟨hb.root, by simp⟩
  have hcur : CursorOk k.vmm := by
    rw [CursorOk, hboot.cursor]
    exact ⟨by decide, le_rfl⟩
  have hstart : dynamicVirtStart.toNat = 2 ^ 64 - 2 ^ 47 := rfl
  have hstop : dynamicVirtEnd.toNat = 2 ^ 64 - 2 ^ 39 := rfl
  have hend : dynamicVirtStart.toNat + size.toNat ≤ dynamicVirtEnd.toNat := by
    unfold pageSize at hn
    omega
  rcases reserve_first hclear hk hboot.cursor hpos hal hend permissions purpose with ⟨vmm', hres⟩
  have hpages : UpperPages dynamicVirtStart (size.toNat / pageSize) := by
    have hupper := upperPages_reserved hcur hal (by rw [hboot.cursor]; exact hend)
    rwa [hboot.cursor] at hupper
  have hslots : UpperSlots k.rootPml4.addr k.mem := fun i hi =>
    hboot.shared i (List.mem_filter.mpr ⟨List.mem_finRange i, decide_eq_true hi⟩)
  have hvac : ∀ v ∈ pagesFrom dynamicVirtStart (size.toNat / pageSize),
      reach k.mem.tables k.rootPml4.addr v.path = none := fun v hv =>
    Flat.vacant (hflat hlow) hb.owned hb.root (kernel_slot _) (hpages.page hv).2.2
  have hfree' := hboot.free
  rcases allocateAndMapRegion_ok ho hroot hboot.mode rfl hslots hcur hres hn hvac (by omega) with ⟨k₁, hmap, hused⟩
  exact ⟨k, k₁, hk, hmap, by omega⟩

/-- The values of a page loop stay below its end. -/
theorem pageRange_lt {start stop a : U64} (ha : a ∈ pageRange start stop) : a.toNat < stop.toNat := by
  rcases List.mem_map.mp ha with ⟨i, hi, rfl⟩
  rw [List.mem_range, pageSize] at hi
  rw [BitVec.toNat_add, BitVec.toNat_ofNat, pageSize]
  have hstop := stop.isLt
  omega

end Boot

theorem sampleInfo_low : sampleInfo.Low where
  regions r hr a ha := by
    have hlt := pageRange_lt ha
    simp only [sampleInfo, List.mem_cons, List.not_mem_nil, or_false] at hr
    rcases hr with rfl | rfl
    · exact hlt.trans (by decide)
    · exact hlt.trans (by decide)
  lapic a ha := (pageRange_lt ha).trans (by decide)
  ioapic a ha := (pageRange_lt ha).trans (by decide)
  framebuffer b hb := by simp [sampleInfo] at hb

theorem sampleInfo_clear : sampleInfo.Clear 0x20000#64 := ⟨by decide, by decide⟩

end VenturaOS.Vmm
