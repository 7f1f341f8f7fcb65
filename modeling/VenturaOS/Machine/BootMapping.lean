import VenturaOS.Machine.Isolation
import VenturaOS.Vmm.BootDrawing

/-!
# What booting registers and what it maps

A region is registered whether or not its pages could be mapped, and the pool
of page tables is bounded. So a registered page above 4 GiB is mapped exactly
when its page table was asked for in time.
-/
namespace VenturaOS.Machine
open Library Memory Pmm Paging Vmm

/-- The page at `a` lies in the low 4 GiB, or booting asks for it and its page table in time. -/
def Covered (info : BootInfo) (a : U64) : Prop :=
  a.toNat < 2 ^ 32 ∨ (a.toNat < 2 ^ 47 ∧ a ∈ info.plan.asked ∧ Served info.plan.asked a)

section

variable {info : BootInfo} {k : Kernel} {a : U64}

theorem frameBits_toNat (ha : a.toNat % 4096 = 0) : (frameBits a).toNat = a.toNat % 2 ^ 52 := by
  have hflags : PageTableFlags.table.Clear := by decide
  rw [← physAddr_set_toNat ha hflags, physAddr_set a hflags, frameBits]

theorem frameBits_eq_iff (hc : isCanonical a = true) (ha : a.toNat % 4096 = 0) : frameBits a = a ↔ a.toNat < 2 ^ 47 := by
  rw [isCanonical_iff] at hc
  rw [BitVec.toNat_eq, frameBits_toNat ha]
  omega

theorem isLow_iff (hc : isCanonical a = true) : IsLow ⟨a⟩ ↔ a.toNat < 2 ^ 32 := by
  rw [isCanonical_iff] at hc
  have hlt := a.isLt
  unfold IsLow
  dsimp only
  omega

/-- Which pages the kernel root maps to themselves after boot. -/
theorem page_mapped_iff (hload : info.Loaded) (hbelow : info.Mappable) (hrun : init info info.kernel = some k)
    (ha : (VirtAddr.mk a).isAligned = true) :
    walkAddress k.mem.tables k.rootPml4.addr ⟨a⟩ = some a ↔ Covered info a := by
  have hal : a.toNat % 4096 = 0 := by simpa [VirtAddr.isAligned, pageSize] using ha
  by_cases hc : isCanonical a = true
  · by_cases hlow : IsLow ⟨a⟩
    · have hsmall := (isLow_iff hc).mp hlow
      obtain ⟨place, hinv, -⟩ := Inv.start (init_booted hload hrun)
      obtain ⟨entries, hwalk, -⟩ := hinv.low_walk (.inl rfl) (show (VirtAddr.mk a).addr.toNat < 2 ^ 32 from hsmall)
      refine iff_of_true ?_ (.inl hsmall)
      change hardwareWalk k.mem.tables k.rootPml4.addr ⟨a⟩ = _ at hwalk
      rw [walkAddress, hwalk]
      rfl
    · have hlarge : ¬a.toNat < 2 ^ 32 := fun hsmall => hlow ((isLow_iff hc).mpr hsmall)
      have htable : _ ∈ drafted info.plan.asked ↔ Served info.plan.asked a := mem_drafted_iff hlow
      rw [(init_planned hload hbelow hrun).2 a hc ha hlow, Covered, or_iff_right hlarge, ← frameBits_eq_iff hc hal,
        ← htable]
      by_cases hplan : a ∈ info.plan.asked ∧ (VirtAddr.mk a).tablePath ∈ drafted info.plan.asked
      · rw [if_pos hplan, Option.some.injEq, and_iff_left hplan]
      · rw [if_neg hplan]
        exact iff_of_false (fun h => Option.some_ne_none a h.symm) fun h => hplan h.2
  · refine iff_of_false ?_ ?_
    · rw [walkAddress, hardwareWalk_eq, if_neg hc]
      exact fun h => Option.some_ne_none a h.symm
    · rw [isCanonical_iff] at hc
      rintro (hsmall | ⟨hsmall, -⟩)
      · omega
      · omega

theorem unmapped_of_late (hload : info.Loaded) (hbelow : info.Mappable) (hrun : init info info.kernel = some k)
    (hc : isCanonical a = true) (ha : (VirtAddr.mk a).isAligned = true) (hlow : ¬IsLow ⟨a⟩)
    (hlate : ¬Served info.plan.asked a) : walkAddress k.mem.tables k.rootPml4.addr ⟨a⟩ = none := by
  rw [← mem_drafted_iff hlow] at hlate
  rw [(init_planned hload hbelow hrun).2 a hc ha hlow, if_neg fun hplan => hlate hplan.2]

theorem bootRegion_aligned {region : VirtRegion} (h : region ∈ bootRegions info) :
    region.start.addr.toNat % 4096 = 0 := by
  simp only [bootRegions, List.mem_append, List.mem_map, List.mem_cons, List.not_mem_nil, or_false] at h
  rcases h with ⟨r, -, rfl⟩ | (rfl | rfl) | ⟨b, -, rfl⟩
  · have hstart := canonicalVirt_low (pageDown r.physicalStart)
    have hdown := pageDown_aligned r.physicalStart
    change (canonicalVirt (pageDown r.physicalStart)).addr.toNat % 4096 = 0
    omega
  · exact pageDown_aligned _
  · exact pageDown_aligned _
  · exact pageDown_aligned _

theorem pagesFrom_aligned {start : U64} {n : ℕ} {v : VirtAddr} (hs : start.toNat % 4096 = 0)
    (hv : v ∈ pagesFrom start n) : v.isAligned = true := by
  obtain ⟨i, -, rfl⟩ := List.mem_map.mp hv
  simp only [VirtAddr.isAligned, pageSize, beq_iff_eq, BitVec.toNat_add, BitVec.toNat_ofNat]
  omega

/-- Every page of every registered region is mapped to itself just when the plan covers all of them. -/
theorem registered_mapped_iff (hload : info.Loaded) (hbelow : info.Mappable) (hrun : init info info.kernel = some k) :
    (∀ region ∈ k.vmm.regions, ∀ v ∈ pagesFrom region.start.addr region.pageCount,
      walkAddress k.mem.tables k.rootPml4.addr v = some v.addr) ↔
    ∀ region ∈ info.plan.vmm.regions, ∀ v ∈ pagesFrom region.start.addr region.pageCount, Covered info v.addr := by
  have hplan := (init_planned hload hbelow hrun).1
  have hsub := init_regions hrun
  rw [hplan] at hsub ⊢
  refine forall₂_congr fun region hregion => forall₂_congr fun v hv => ?_
  exact page_mapped_iff hload hbelow hrun (pagesFrom_aligned (bootRegion_aligned (hsub.subset hregion)) hv)

end

theorem pagesFrom_below {start : U64} {n limit : ℕ} {v : VirtAddr} (hend : start.toNat + n * 4096 ≤ limit)
    (hv : v ∈ pagesFrom start n) : v.addr.toNat < limit := by
  obtain ⟨i, hi, rfl⟩ := List.mem_map.mp hv
  rw [List.mem_range] at hi
  simp only [BitVec.toNat_add, BitVec.toNat_ofNat, pageSize]
  have hmod := Nat.mod_le (start.toNat + i * 4096 % 2 ^ 64) (2 ^ 64)
  have hmod' := Nat.mod_le (i * 4096) (2 ^ 64)
  omega

theorem sampleInfo_mappable : sampleInfo.Mappable := by
  intro r hr
  simp only [sampleInfo, List.mem_cons, List.not_mem_nil, or_false] at hr
  rcases hr with rfl | rfl
  · decide
  · decide

/-- The sample machine, which has no memory above 4 GiB. -/
theorem registered_mapped_iff_sample : ∃ k, init sampleInfo sampleInfo.kernel = some k ∧
    ∀ region ∈ k.vmm.regions, ∀ v ∈ pagesFrom region.start.addr region.pageCount,
      walkAddress k.mem.tables k.rootPml4.addr v = some v.addr := by
  obtain ⟨k, hk⟩ := sampleInfo_boots
  refine ⟨k, hk, (registered_mapped_iff sampleInfo_loaded sampleInfo_mappable hk).mpr fun region hregion v hv => .inl ?_⟩
  have hsub := init_regions hk
  rw [(init_planned sampleInfo_loaded sampleInfo_mappable hk).1] at hsub
  have hlow : ∀ r ∈ bootRegions sampleInfo, r.start.addr.toNat + r.pageCount * 4096 ≤ 2 ^ 32 := by decide
  exact pagesFrom_below (hlow region (hsub.subset hregion)) hv

section Large

theorem mem_registerRegion {region : VirtRegion} {vmm : VirtualMemoryManager} (h : region ∈ vmm.regions)
    (other : VirtRegion) : region ∈ (registerRegion other vmm).2.regions := by
  unfold registerRegion
  split_ifs
  · exact h
  · exact h
  · exact h
  · exact h
  · exact h
  · exact List.mem_append_left _ h

theorem addDevice_low {plan : BootPlan} {base size a : U64} (hpages : mmioPages base size = [a]) (ha : a.toNat < 2 ^ 32) :
    plan.addDevice base size = ⟨plan.asked ++ [a], (registerRegion (mmioRegionOf base size) plan.vmm).2⟩ := by
  have hc : isCanonical a = true := (isCanonical_iff a).mpr (.inl (by omega))
  have hstands : Stands (plan.asked ++ [a]) a := .inl ((isLow_iff hc).mpr ha)
  rw [BootPlan.addDevice, hpages, askPages, if_pos hc, if_pos hstands, askPages]

/-- 2 GiB of memory above 4 GiB. -/
def highRegion : MemoryRegion := ⟨0x100000000, 0x180000000, 0x80000, .usable, true⟩

/-- The sample machine with that memory added. -/
def largeInfo : BootInfo := { sampleInfo with map := ⟨sampleInfo.map.regions ++ [highRegion]⟩ }

theorem largeInfo_usable (i : ℕ) : UsablePage largeInfo.map i ↔ 256 ≤ i ∧ i < 1280 := by
  have hmanaged : managedPages largeInfo.map = 1048576 := by decide +kernel
  rw [UsablePage, hmanaged]
  constructor
  · rintro ⟨-, hlt, r, hr, hu, hlow, hhigh⟩
    simp only [largeInfo, sampleInfo, List.mem_append, List.mem_cons, List.not_mem_nil, or_false] at hr
    rcases hr with (rfl | rfl) | rfl
    · exact ⟨hlow, hhigh⟩
    · cases hu
    · change 1048576 ≤ i at hlow
      omega
  · rintro ⟨hlow, hhigh⟩
    exact ⟨by omega, by omega, _, List.mem_cons_self, rfl, hlow, hhigh⟩

theorem largeInfo_loaded : largeInfo.Loaded where
  fits := by decide
  nonnull := by decide
  aligned := by decide
  addressable := by decide
  reserved n _ := by
    rw [largeInfo_usable, show largeInfo.pool.toNat / 4096 = 2048 from rfl]
    omega

theorem largeInfo_mappable : largeInfo.Mappable := by
  intro r hr
  simp only [largeInfo, List.mem_append, List.mem_singleton] at hr
  rcases hr with hr | rfl
  · exact sampleInfo_mappable r hr
  · decide

theorem largeInfo_plan : largeInfo.plan.asked =
      sampleInfo.map.regions.flatMap Vmm.regionPages ++ (Vmm.regionPages highRegion ++ [0xFEE00000, 0xFEC00000]) ∧
    mapRegionOf highRegion ∈ largeInfo.plan.vmm.regions := by
  have hlapic : mmioPages largeInfo.lapicBase (BitVec.ofNat 64 pageSize) = [0xFEE00000] := by decide
  have hioapic : mmioPages largeInfo.ioapicBase (BitVec.ofNat 64 pageSize) = [0xFEC00000] := by decide
  have hdevices : largeInfo.devices =
      [(largeInfo.lapicBase, BitVec.ofNat 64 pageSize), (largeInfo.ioapicBase, BitVec.ofNat 64 pageSize)] := rfl
  have hregistered : mapRegionOf highRegion ∈
      (largeInfo.map.regions.foldl BootPlan.addRegion ⟨[], .new⟩).vmm.regions := by
    decide
  rw [BootInfo.plan, hdevices, List.foldl_cons, List.foldl_cons, List.foldl_nil, addDevice_low hlapic (by decide),
    addDevice_low hioapic (by decide)]
  refine ⟨?_, mem_registerRegion (mem_registerRegion hregistered _) _⟩
  simp only [largeInfo, sampleInfo, List.cons_append, List.nil_append, List.foldl_cons, List.foldl_nil,
    BootPlan.addRegion, List.flatMap_cons, List.flatMap_nil, List.append_assoc, List.append_nil]

theorem mem_highRegion {a : U64} : a ∈ Vmm.regionPages highRegion ↔
    0x100000000 ≤ a.toNat ∧ a.toNat < 0x180000000 ∧ a.toNat % 4096 = 0 := by
  have hstart : pageDown highRegion.physicalStart = 0x100000000 := by decide
  have hstop : pageDown (highRegion.physicalEnd + 0xFFF#64) = 0x180000000 := by decide
  rw [Vmm.regionPages, hstart, hstop, mem_pageRange (by decide) (by decide)]
  rfl

theorem pageRange_ascending (start : U64) {stop : U64} :
    (pageRange start stop).Pairwise fun x y => x.toNat < y.toNat := by
  rw [pageRange, List.pairwise_map]
  refine List.pairwise_lt_range.imp_of_mem fun {i j} hi hj hlt => ?_
  rw [List.mem_range, pageSize] at hi hj
  have hstop := stop.isLt
  rw [BitVec.toNat_add, BitVec.toNat_ofNat, BitVec.toNat_add, BitVec.toNat_ofNat, pageSize]
  omega

/-- Among the pages asked for, those above 4 GiB come in ascending order. -/
theorem largeInfo_ascending : largeInfo.plan.asked.Pairwise fun x y => x.toNat < y.toNat ∨ y.toNat < 2 ^ 32 := by
  have hsample : ∀ a ∈ sampleInfo.map.regions.flatMap Vmm.regionPages, a.toNat < 2 ^ 32 := by
    intro a ha
    obtain ⟨r, hr, ha⟩ := List.mem_flatMap.mp ha
    exact sampleInfo_low.regions r hr a ha
  have hdevices : ∀ a ∈ ([0xFEE00000, 0xFEC00000] : List U64), a.toNat < 2 ^ 32 := by
    intro a ha
    rw [List.mem_pair] at ha
    rcases ha with rfl | rfl
    · decide
    · decide
  rw [largeInfo_plan.1, List.pairwise_append, List.pairwise_append]
  refine ⟨?_, ⟨(pageRange_ascending _).imp .inl, ?_, fun x _ y hy => .inr (hdevices y hy)⟩, fun x hx y hy => ?_⟩
  · exact List.pairwise_of_forall_mem_list fun x _ y hy => .inr (hsample y hy)
  · exact List.pairwise_of_forall_mem_list fun x _ y hy => .inr (hdevices y hy)
  · have hsmall := hsample x hx
    rw [List.mem_append] at hy
    apply hy.elim
    · intro hhigh
      rw [mem_highRegion] at hhigh
      exact .inl (by omega)
    · exact fun hdevice => .inr (hdevices y hdevice)

/-- The first page of the `j`-th 2 MiB above 4 GiB. -/
def windowPage (j : ℕ) : U64 := BitVec.ofNat 64 (2 ^ 32 + j * 2 ^ 21)

theorem windowPage_toNat {j : ℕ} (hj : j < 1024) : (windowPage j).toNat = 2 ^ 32 + j * 2 ^ 21 := by
  rw [windowPage, BitVec.toNat_ofNat]
  omega

theorem windowPage_inj {i j : ℕ} (hi : i < 1024) (hj : j < 1024)
    (h : (VirtAddr.mk (windowPage i)).tablePath = (VirtAddr.mk (windowPage j)).tablePath) : i = j := by
  simp only [VirtAddr.tablePath, List.cons.injEq, VirtAddr.pml4Index, VirtAddr.pdptIndex, VirtAddr.pdIndex, Fin.ext_iff,
    VirtAddr.index_val, windowPage_toNat hi, windowPage_toNat hj] at h
  omega

def lastPage : U64 := 0x17FFFF000

theorem lastPage_inside :
    ⟨lastPage⟩ ∈ pagesFrom (mapRegionOf highRegion).start.addr (mapRegionOf highRegion).pageCount :=
  List.mem_map.mpr ⟨0x7FFFF, List.mem_range.mpr (by decide), by decide⟩

/-- The last page of that memory needs its page table after all tables of the pool are gone. -/
theorem lastPage_late : ¬Served largeInfo.plan.asked lastPage := by
  rintro ⟨before, b, after, hasked, htable, hcard⟩
  have horder := largeInfo_ascending
  have hhigh {j : ℕ} (hj : j < 1024) : windowPage j ∈ largeInfo.plan.asked := by
    rw [largeInfo_plan.1, List.mem_append, List.mem_append, mem_highRegion, windowPage_toNat hj]
    exact .inr (.inl (by omega))
  rw [hasked] at horder hhigh
  rw [List.pairwise_append, List.pairwise_cons] at horder
  have hwindow : b.toNat % 2 ^ 48 / 2 ^ 21 = 3071 := by
    simp only [VirtAddr.tablePath, List.cons.injEq, VirtAddr.pml4Index, VirtAddr.pdptIndex, VirtAddr.pdIndex, Fin.ext_iff,
      VirtAddr.index_val, show lastPage.toNat = 0x17FFFF000 from rfl] at htable
    omega
  have hearlier {j : ℕ} (hj : j < 513) : windowPage j ∈ before := by
    have hvalue := windowPage_toNat (show j < 1024 by omega)
    have hmem := hhigh (show j < 1024 by omega)
    rw [List.mem_append, List.mem_cons] at hmem
    rcases hmem with hbefore | rfl | hafter
    · exact hbefore
    · omega
    · have hlater := horder.2.1.1 _ hafter
      omega
  have hmany : 513 ≤ (tablesNeeded (before ++ [b])).card := by
    rw [← Finset.card_range 513]
    apply Finset.card_le_card_of_injOn fun j => (VirtAddr.mk (windowPage j)).tablePath
    · intro j hj
      rw [Finset.coe_range, Set.mem_Iio] at hj
      have hlow : ¬IsLow ⟨windowPage j⟩ := by
        unfold IsLow
        rw [windowPage_toNat (by omega)]
        omega
      rw [Finset.mem_coe, tablesNeeded, Finset.mem_union, List.mem_toFinset, List.mem_flatMap]
      exact .inr ⟨windowPage j, List.mem_append_left _ (hearlier hj), mem_tablesFor hlow⟩
    · intro i hi j hj he
      rw [Finset.coe_range, Set.mem_Iio] at hi hj
      exact windowPage_inj (by omega) (by omega) he
  unfold bootstrapTableCount at hcard
  omega

/-- With 2 GiB above 4 GiB the pool runs out: their region is registered, and its last page is not mapped. -/
theorem high_memory_unmapped : ∃ k, init largeInfo largeInfo.kernel = some k ∧ ∃ region ∈ k.vmm.regions,
    ∃ v ∈ pagesFrom region.start.addr region.pageCount, walkAddress k.mem.tables k.rootPml4.addr v = none := by
  obtain ⟨k, hk⟩ := init_some largeInfo_loaded (by rw [frames_card (by decide) largeInfo_usable]; omega)
  have hvmm := (init_planned largeInfo_loaded largeInfo_mappable hk).1
  refine ⟨k, hk, mapRegionOf highRegion, by rw [hvmm]; exact largeInfo_plan.2, ⟨lastPage⟩, lastPage_inside, ?_⟩
  exact unmapped_of_late largeInfo_loaded largeInfo_mappable hk (by decide) (by decide) (by decide) lastPage_late

end Large

end VenturaOS.Machine
