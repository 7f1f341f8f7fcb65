import VenturaOS.Vmm.Demand

/-!
# How a region call ends

`allocate_and_map_region` is refused, runs out of frames, is undone or
returns a region, and which of these it is can be told before the call. The
second leaves its entry in the region table, and so does the third when an
older entry starts at the same address.
-/
namespace VenturaOS.Vmm
open Library Pmm Paging Memory

/-- `reserve_virtual_region` refuses: the range is exhausted, taken, or the table is full. -/
def Refused (size : U64) (vmm : VirtualMemoryManager) : Prop :=
  dynamicVirtEnd.toNat < vmm.nextDynamicAddr.toNat + size.toNat ∨
    (∃ r ∈ vmm.regions, r.overlaps ⟨vmm.nextDynamicAddr⟩ size = true) ∨ maxVirtRegions ≤ vmm.regions.length

/-- A page is mapped already, or there are too few frames for the pages and the tables they lack. -/
def Unmappable (k : Kernel) (pages : List VirtAddr) : Prop :=
  (∃ v ∈ pages, reach k.mem.tables k.rootPml4.addr v.path ≠ none) ∨
    k.mem.pmm.freeFrames.card < pages.length + (lacking k.mem.tables k.rootPml4.addr pages).card

/-- The entry that a reservation of `size` bytes makes. -/
def reservation (size : U64) (permissions : VirtPermissions) (purpose : RegionPurpose) (vmm : VirtualMemoryManager) :
    VirtRegion := ⟨⟨vmm.nextDynamicAddr⟩, size, permissions, purpose, false⟩

/-- What region calls rely on: tables in order, the slots of the upper half, the cursor. -/
structure Ready (k : Kernel) : Prop where
  order : InOrder k
  slots : UpperSlots k.rootPml4.addr k.mem
  cursor : CursorOk k.vmm

/-- Whole pages, at least one and at most 128. -/
structure RegionSize (size : U64) : Prop where
  pos : size.toNat ≠ 0
  aligned : size.toNat % 4096 = 0
  small : size.toNat / pageSize ≤ 128

/-- After the call nothing is left in the region table: it is refused at once, or the mapping fails after the frames
were there, and no older entry starts where the reservation did. -/
def Undone (size : U64) (k : Kernel) : Prop :=
  Refused size k.vmm ∨
    size.toNat / pageSize ≤ k.mem.pmm.freeFrames.card ∧
      Unmappable k (pagesFrom k.vmm.nextDynamicAddr (size.toNat / pageSize)) ∧
      ∀ r ∈ k.vmm.regions, r.start ≠ ⟨k.vmm.nextDynamicAddr⟩

section Outcome

variable {k k' : Kernel} {size : U64} {permissions : VirtPermissions} {purpose : RegionPurpose}

theorem reserve_refused (permissions : VirtPermissions) (purpose : RegionPurpose) (h : Refused size k.vmm) :
    ∃ e, reserveVirtualRegion size permissions purpose k.vmm = (.error e, k.vmm) := by
  generalize hres : reserveVirtualRegion size permissions purpose k.vmm = result
  rcases result with ⟨e | region, vmm'⟩
  · rw [reserve_error hres]
    exact ⟨e, rfl⟩
  · exfalso
    obtain ⟨-, -, -, hend, -, hany, hfew, -⟩ := reserve_ok hres
    rcases h with hpast | ⟨r, hr, hover⟩ | hfull
    · omega
    · rw [hany r hr] at hover
      cases hover
    · omega

theorem reserve_granted (permissions : VirtPermissions) (purpose : RegionPurpose) (hcur : CursorOk k.vmm)
    (hsize : RegionSize size) (h : ¬Refused size k.vmm) : reserveVirtualRegion size permissions purpose k.vmm =
      (.ok (reservation size permissions purpose k.vmm),
        ⟨k.vmm.regions ++ [reservation size permissions purpose k.vmm], k.vmm.nextDynamicAddr + size⟩) := by
  rw [Refused, not_or, not_or, not_lt, not_le] at h
  obtain ⟨hend, hapart, hfew⟩ := h
  refine reserve_of size hsize.pos hsize.aligned hcur.2 hend (fun r hr => ?_) hfew permissions purpose
  rw [← Bool.not_eq_true]
  exact fun hover => hapart ⟨r, hr, hover⟩

/-- The region table with that entry. -/
def granted (size : U64) (permissions : VirtPermissions) (purpose : RegionPurpose) (vmm : VirtualMemoryManager) :
    VirtualMemoryManager := ⟨vmm.regions ++ [reservation size permissions purpose vmm], vmm.nextDynamicAddr + size⟩

/-- The four ways the call can end, told apart before it. -/
theorem allocateAndMapRegion_outcome (h : Ready k) (hsize : RegionSize size) (permissions : VirtPermissions)
    (purpose : RegionPurpose) :
    (Refused size k.vmm ∧ ∃ e, allocateAndMapRegion size permissions purpose k = (.error e, k)) ∨
    (¬Refused size k.vmm ∧ k.mem.pmm.freeFrames.card < size.toNat / pageSize ∧
      ∃ mem, allocateAndMapRegion size permissions purpose k =
        (.error .physicalAllocationFailed, { k with vmm := granted size permissions purpose k.vmm, mem := mem })) ∨
    (¬Refused size k.vmm ∧ size.toNat / pageSize ≤ k.mem.pmm.freeFrames.card ∧
      Unmappable k (pagesFrom k.vmm.nextDynamicAddr (size.toNat / pageSize)) ∧
      ∃ mem, allocateAndMapRegion size permissions purpose k = (.error .pageTableMappingFailed,
        { k with vmm := (unregisterRegion ⟨k.vmm.nextDynamicAddr⟩ (granted size permissions purpose k.vmm)).2, mem := mem })) ∨
    (¬Refused size k.vmm ∧ size.toNat / pageSize ≤ k.mem.pmm.freeFrames.card ∧
      ¬Unmappable k (pagesFrom k.vmm.nextDynamicAddr (size.toNat / pageSize)) ∧
      ∃ mem, allocateAndMapRegion size permissions purpose k =
        (.ok { reservation size permissions purpose k.vmm with ownsPhysicalPages := true },
          { k with vmm := granted size permissions purpose k.vmm, mem := mem })) := by
  by_cases hrefused : Refused size k.vmm
  · left
    obtain ⟨e, he⟩ := reserve_refused permissions purpose hrefused
    refine ⟨hrefused, e, ?_⟩
    rw [allocateAndMapRegion, he]
  · right
    obtain ⟨hsmall, hcur, hslots⟩ := And.intro hsize.small (And.intro h.cursor h.slots)
    have hgrant := reserve_granted permissions purpose hcur hsize hrefused
    have hmax : ¬size.toNat / pageSize > maxFrames := by
      unfold maxFrames
      omega
    have hpages : UpperPages k.vmm.nextDynamicAddr (size.toNat / pageSize) :=
      upperPages_reserved hcur hsize.aligned (by rw [Refused, not_or, not_lt] at hrefused; exact hrefused.1)
    obtain ⟨F, c, place, held, ho, hroot, hmode⟩ := h.order
    have hn : size.toNat / pageSize * 4096 ≤ 2 ^ 64 := by omega
    have hlength := pagesFrom_length k.vmm.nextDynamicAddr (size.toNat / pageSize)
    have hflags := permissions.toPageFlags_ok.1
    unfold allocateAndMapRegion
    rw [hgrant]
    simp only
    rw [if_neg hmax]
    change _ ∨ _ ∨ _
    rcases takeAndMap_tables ho hroot hmode hflags k.vmm.nextDynamicAddr hn with
      ⟨s', htaken, -, -, -, -, hcard⟩ | ⟨l, s₁, htaken, hcard, hmapped⟩
    · refine .inl ⟨hrefused, hcard, s', ?_⟩
      rw [htaken]
      rfl
    · right
      rcases hmapped with ⟨place', s', hmap, -, -, -, hadds⟩ | ⟨place', s', hmap, -⟩
      · refine .inr ⟨hrefused, hcard, ?_, s', ?_⟩
        · have hdemand := takeAndMap_demand ho hroot hmode htaken hmap
          rintro (⟨v, hv, hmapped⟩ | hfew)
          · exact hmapped (hadds.vacant v hv)
          · omega
        · rw [htaken]
          simp only
          rw [show (reservation size permissions purpose k.vmm).start.addr = k.vmm.nextDynamicAddr from rfl, hmap]
          rfl
      · refine .inl ⟨hrefused, hcard, ?_, l.foldl discardFree s', ?_⟩
        · by_contra hmappable
          rw [Unmappable, not_or, not_lt] at hmappable
          obtain ⟨hvacant, hfree⟩ := hmappable
          rw [← vacant_eq_lacking ho hroot, hlength] at hfree
          obtain ⟨l', s₁', t, htaken', hmap', -⟩ := takeAndMap_of permissions.toPageFlags ho hroot hmode hslots hpages
            (fun v hv => ⟨mem_tablesOver.mpr ⟨v, hv, .inl rfl⟩, mem_tablesOver.mpr ⟨v, hv, .inr rfl⟩⟩)
            (fun v hv => by_contra fun hmapped => hvacant ⟨v, hv, hmapped⟩) hfree
          rw [htaken] at htaken'
          cases htaken'
          rw [hmap] at hmap'
          cases hmap'
        · rw [htaken]
          simp only
          rw [show (reservation size permissions purpose k.vmm).start.addr = k.vmm.nextDynamicAddr from rfl, hmap]
          rfl

/-- The entry of a granted reservation is not in the table before. -/
theorem reservation_new (permissions : VirtPermissions) (purpose : RegionPurpose) (hcur : CursorOk k.vmm)
    (hsize : RegionSize size) (h : ¬Refused size k.vmm) :
    reservation size permissions purpose k.vmm ∉ k.vmm.regions := by
  intro hmem
  have hgrant := reserve_granted permissions purpose hcur hsize h
  obtain ⟨-, hpos, -, -, hsum, hany, -, -⟩ := reserve_ok hgrant
  have hover := hany _ hmem
  rw [VirtRegion.overlaps, Bool.and_eq_false_iff, decide_eq_false_iff_not, decide_eq_false_iff_not] at hover
  change ¬k.vmm.nextDynamicAddr.toNat < (k.vmm.nextDynamicAddr + size).toNat ∨
    ¬k.vmm.nextDynamicAddr.toNat < (k.vmm.nextDynamicAddr + size).toNat at hover
  omega

/-- Taking out the first entry at the cursor when there is an older one: the new entry stays. -/
theorem unregister_granted {r : VirtRegion} (hr : r ∈ k.vmm.regions) (hstart : r.start = ⟨k.vmm.nextDynamicAddr⟩) :
    reservation size permissions purpose k.vmm ∈
      (unregisterRegion ⟨k.vmm.nextDynamicAddr⟩ (granted size permissions purpose k.vmm)).2.regions := by
  unfold unregisterRegion granted
  dsimp only
  have hfound : (k.vmm.regions.findIdx? fun r => decide (r.start = ⟨k.vmm.nextDynamicAddr⟩)) ≠ none := by
    rw [Ne, List.findIdx?_eq_none_iff]
    intro hnone
    exact of_decide_eq_false (hnone r hr) hstart
  obtain ⟨i, hi⟩ := Option.ne_none_iff_exists'.mp hfound
  obtain ⟨hlt, -, -⟩ := List.findIdx?_eq_some_iff_getElem.mp hi
  rw [List.findIdx?_append, hi, Option.some_or]
  dsimp only
  refine (swapRemove_perm (by rw [List.length_append]; omega)).mem_iff.mpr (List.mem_eraseIdx_iff_getElem?.mpr ?_)
  refine ⟨k.vmm.regions.length, by omega, ?_⟩
  rw [List.getElem?_append_right le_rfl, Nat.sub_self]
  rfl

/-- Undone calls leave the same entries. -/
theorem Undone.regions (hu : Undone size k) (h : Ready k) (hsize : RegionSize size)
    {result : Except VmmError VirtRegion} (hrun : allocateAndMapRegion size permissions purpose k = (result, k')) :
    (∃ e, result = .error e) ∧ k'.vmm.regions.Perm k.vmm.regions := by
  rcases allocateAndMapRegion_outcome h hsize permissions purpose with
    ⟨-, e, he⟩ | ⟨hno, hfew, -⟩ | ⟨hno, -, -, mem, he⟩ | ⟨hno, -, hmappable, -⟩
  · rw [he] at hrun
    cases hrun
    exact ⟨⟨e, rfl⟩, .refl _⟩
  · have hframes := (hu.resolve_left hno).1
    omega
  · rw [he] at hrun
    cases hrun
    have hfresh : ∀ r ∈ k.vmm.regions, r.start ≠ (reservation size permissions purpose k.vmm).start :=
      (hu.resolve_left hno).2.2
    exact ⟨⟨_, rfl⟩, unregister_last hfresh _⟩
  · exact absurd (hu.resolve_left hno).2.1 hmappable

/-- Any other call leaves an entry that was not there before. -/
theorem entry_left (hn : ¬Undone size k) (h : Ready k) (hsize : RegionSize size) {result : Except VmmError VirtRegion}
    (hrun : allocateAndMapRegion size permissions purpose k = (result, k')) :
    reservation size permissions purpose k.vmm ∈ k'.vmm.regions ∧
      reservation size permissions purpose k.vmm ∉ k.vmm.regions ∧
      k'.vmm.nextDynamicAddr.toNat = k.vmm.nextDynamicAddr.toNat + size.toNat := by
  rw [Undone, not_or] at hn
  obtain ⟨hno, hrest⟩ := hn
  have hnew := reservation_new permissions purpose h.cursor hsize hno
  have hgrant := reserve_granted permissions purpose h.cursor hsize hno
  obtain ⟨-, -, -, -, hsum, -, -, -⟩ := reserve_ok hgrant
  have hlast : reservation size permissions purpose k.vmm ∈ (granted size permissions purpose k.vmm).regions :=
    List.mem_append_right _ List.mem_cons_self
  rcases allocateAndMapRegion_outcome h hsize permissions purpose with
    ⟨hyes, -⟩ | ⟨-, -, mem, he⟩ | ⟨-, hframes, hunmappable, mem, he⟩ | ⟨-, -, -, mem, he⟩
  · exact absurd hyes hno
  · rw [he] at hrun
    cases hrun
    exact ⟨hlast, hnew, hsum⟩
  · rw [he] at hrun
    cases hrun
    have holder : ∃ r ∈ k.vmm.regions, r.start = ⟨k.vmm.nextDynamicAddr⟩ := by
      by_contra hnone
      exact hrest ⟨hframes, hunmappable, fun r hr hstart => hnone ⟨r, hr, hstart⟩⟩
    obtain ⟨r, hr, hstart⟩ := holder
    refine ⟨unregister_granted hr hstart, hnew, ?_⟩
    dsimp only
    rw [unregister_cursor]
    exact hsum
  · rw [he] at hrun
    cases hrun
    exact ⟨hlast, hnew, hsum⟩

/-- The other entries stay, and the cursor does not move back. -/
theorem entry_stays {entry : VirtRegion} (hentry : entry ∈ k.vmm.regions)
    (hne : entry.start.addr ≠ k.vmm.nextDynamicAddr) (h : Ready k) (hsize : RegionSize size)
    {result : Except VmmError VirtRegion} (hrun : allocateAndMapRegion size permissions purpose k = (result, k')) :
    entry ∈ k'.vmm.regions := by
  have hlast : entry ∈ (granted size permissions purpose k.vmm).regions := List.mem_append_left _ hentry
  rcases allocateAndMapRegion_outcome h hsize permissions purpose with
    ⟨-, e, he⟩ | ⟨-, -, mem, he⟩ | ⟨-, -, -, mem, he⟩ | ⟨-, -, -, mem, he⟩
  · rw [he] at hrun
    cases hrun
    exact hentry
  · rw [he] at hrun
    cases hrun
    exact hlast
  · rw [he] at hrun
    cases hrun
    exact unregister_keeps hlast fun hstart => hne (congrArg VirtAddr.addr hstart)
  · rw [he] at hrun
    cases hrun
    exact hlast

theorem cursor_forward (h : Ready k) (hsize : RegionSize size) {result : Except VmmError VirtRegion}
    (hrun : allocateAndMapRegion size permissions purpose k = (result, k')) :
    k.vmm.nextDynamicAddr.toNat ≤ k'.vmm.nextDynamicAddr.toNat ∧
      (k'.vmm.nextDynamicAddr = k.vmm.nextDynamicAddr → k'.vmm = k.vmm) := by
  by_cases hrefused : Refused size k.vmm
  · obtain ⟨e, he⟩ := reserve_refused permissions purpose hrefused
    rw [allocateAndMapRegion, he] at hrun
    cases hrun
    exact ⟨le_rfl, fun _ => rfl⟩
  · have hgrant := reserve_granted permissions purpose h.cursor hsize hrefused
    obtain ⟨-, hpos, -, -, hsum, -, -, -⟩ := reserve_ok hgrant
    have hmoved : k'.vmm.nextDynamicAddr = k.vmm.nextDynamicAddr + size := by
      rcases allocateAndMapRegion_outcome h hsize permissions purpose with
        ⟨hyes, -⟩ | ⟨-, -, mem, he⟩ | ⟨-, -, -, mem, he⟩ | ⟨-, -, -, mem, he⟩
      · exact absurd hyes hrefused
      · rw [he] at hrun
        cases hrun
        rfl
      · rw [he] at hrun
        cases hrun
        exact unregister_cursor _ _
      · rw [he] at hrun
        cases hrun
        rfl
    rw [hmoved, hsum]
    refine ⟨Nat.le_add_right _ _, fun hsame => ?_⟩
    have hval := congrArg BitVec.toNat hsame
    omega

/-- Tables on the way to a page of the upper half are tables of the upper half. -/
theorem upper_on_path {v : VirtAddr} {p : Path} (hp : p <+: v.tablePath) (hv : 256 ≤ v.pml4Index.val) (hne : p ≠ []) :
    upper p = true := by
  cases p with
  | nil => exact absurd rfl hne
  | cons i p =>
    obtain ⟨rest, hrest⟩ := hp
    have hi : i = v.pml4Index := (List.cons.inj hrest).1
    rw [upper, decide_eq_true_eq, hi]
    exact hv

/-- A call that fails links no table outside the upper half. -/
theorem failed_lower (h : InOrder k) (hcur : CursorOk k.vmm) {e : VmmError}
    (hrun : allocateAndMapRegion size permissions purpose k = (.error e, k')) {p : Path} (hp : p.length ≤ 3)
    (hlow : upper p = false) : tableOn k'.mem.tables k.rootPml4.addr p = tableOn k.mem.tables k.rootPml4.addr p := by
  obtain ⟨F, c, place, held, ho, hroot, hmode⟩ := h
  have hn : size.toNat / pageSize * 4096 ≤ 2 ^ 64 := by
    have hlt := size.isLt
    unfold pageSize
    omega
  unfold allocateAndMapRegion at hrun
  rcases hres : reserveVirtualRegion size permissions purpose k.vmm with ⟨e' | reserved, vmm'⟩
  · rw [hres] at hrun
    cases hrun
    rfl
  · rw [hres] at hrun
    obtain ⟨rfl, -, hal, hend, -, -, -, -⟩ := reserve_ok hres
    have hpages := upperPages_reserved hcur hal hend
    simp only at hrun
    split_ifs at hrun
    · cases hrun
      rfl
    · rcases takeAndMap_tables ho hroot hmode permissions.toPageFlags_ok.1 k.vmm.nextDynamicAddr hn with
        ⟨s', htaken, ho', -⟩ | ⟨l, s₁, htaken, -, ⟨place', s', hmap, -⟩ | ⟨place', s', hmap, ho', hext, -, -, hnew, -⟩⟩
      · rw [htaken] at hrun
        cases hrun
        exact tableOn_congr ho ho' hroot (fun _ _ => id) table_owns hp fun _ => id
      · rw [htaken] at hrun
        simp only at hrun
        rw [hmap] at hrun
        cases hrun
      · rw [htaken] at hrun
        simp only at hrun
        rw [hmap] at hrun
        cases hrun
        refine tableOn_congr ho ho' hroot (fun _ _ => hext.kept) table_owns hp fun a ha => ?_
        rcases hnew a _ p ha with hold | ⟨v, hv, hpre⟩
        · exact hold
        · cases p with
          | nil =>
            rw [ho'.forest.root_self ha]
            exact hroot
          | cons i p =>
            rw [upper_on_path hpre (hpages.page hv).2.2 (List.cons_ne_nil i p)] at hlow
            cases hlow

end Outcome
end VenturaOS.Vmm
