import VenturaOS.Vmm.BootPlan

/-!
# Physical page 0

A root page of zero stands for no root. On a machine whose page 0 holds
nothing no table of the kernel ever leads there, and nothing the kernel maps
or allocates is written there.
-/
namespace VenturaOS.Vmm
open Memory Pmm Paging

/-- Page 0 is empty, no entry leads to it, and no new table will stand there. -/
structure NullApart (s : PageMemory) : Prop where
  empty : s.tables 0 = .zero
  unlinked : ∀ a i, (s.tables a i).link ≠ some 0
  pool : ∀ n < bootstrapTableCount, IsFrame (s.poolTable n) ∧ s.poolTable n ≠ 0
  frames : ∃ F c, Frames F c s.pmm

theorem set_link_ne {phys : U64} {flags : PageTableFlags} (hp : IsFrame phys) (hz : phys ≠ 0) (hf : flags.Clear) :
    (PageTableEntry.set phys flags).link ≠ some 0 := by
  intro h
  have he := (PageTableEntry.link_eq_some.mp h).2.2
  rw [PageTableEntry.set_physAddr hp hf] at he
  exact hz he

namespace NullApart

variable {s s' : PageMemory} {a : U64}

theorem writeTable (h : NullApart s) (ha : a ≠ 0) {t : PageTable} (ht : ∀ i, (t i).link ≠ some 0) :
    NullApart (s.writeTable a t) where
  empty := by
    change Function.update s.tables a t 0 = _
    rw [Function.update_of_ne (Ne.symm ha), h.empty]
  unlinked b i := by
    change (Function.update s.tables a t b i).link ≠ some 0
    by_cases hb : b = a
    · subst hb
      rw [Function.update_self]
      exact ht i
    · rw [Function.update_of_ne hb]
      exact h.unlinked b i
  pool := h.pool
  frames := h.frames

theorem writeEntry (h : NullApart s) (ha : a ≠ 0) (i : Fin 512) {e : PageTableEntry} (he : e.link ≠ some 0) :
    NullApart (s.writeEntry a i e) := by
  refine h.writeTable ha fun j => ?_
  by_cases hj : j = i
  · subst hj
    rw [Function.update_self]
    exact he
  · rw [Function.update_of_ne hj]
    exact h.unlinked a j

theorem zero_link (i : Fin 512) : (PageTable.zero i).link ≠ some 0 := by simp [PageTable.zero]

theorem allocatePage (h : NullApart s) {page : Option PhysPage} (he : allocatePage s = (page, s')) :
    NullApart s' ∧ ∀ p, page = some p → IsFrame p.addr ∧ p.addr ≠ 0 := by
  obtain ⟨F, c, hf⟩ := h.frames
  unfold Paging.allocatePage at he
  rcases hf.allocate with ⟨hnone, -⟩ | ⟨f, t, hsome, hmem, -, ht⟩
  · rw [hnone] at he
    cases he
    exact ⟨h, by simp⟩
  · rw [hsome] at he
    cases he
    obtain ⟨hal, hpos, hlt⟩ := hf.address (hf.free_subset hmem)
    refine ⟨⟨h.empty, h.unlinked, h.pool, F, c, ht⟩, ?_⟩
    rintro p hp
    cases hp
    refine ⟨⟨hal, hlt.trans (by decide)⟩, ?_⟩
    rintro rfl
    simp at hpos

theorem allocateBootstrapTable (h : NullApart s) {page : Option PhysPage} (he : allocateBootstrapTable s = (page, s')) :
    NullApart s' ∧ ∀ p, page = some p → IsFrame p.addr ∧ p.addr ≠ 0 := by
  unfold Paging.allocateBootstrapTable at he
  split_ifs at he with hfull
  · cases he
    exact ⟨h, by simp⟩
  · cases he
    have hpool := h.pool s.bootstrapIndex (not_le.mp hfull)
    have hnext : NullApart { s with bootstrapIndex := s.bootstrapIndex + 1 } := ⟨h.empty, h.unlinked, h.pool, h.frames⟩
    refine ⟨hnext.writeTable hpool.2 zero_link, ?_⟩
    rintro p hp
    cases hp
    exact hpool

theorem newTableFrame (h : NullApart s) {page : Option PhysPage} (he : newTableFrame s = (page, s')) :
    NullApart s' ∧ ∀ p, page = some p → IsFrame p.addr ∧ p.addr ≠ 0 := by
  unfold Paging.newTableFrame at he
  split_ifs at he
  · exact h.allocateBootstrapTable he
  · exact h.allocatePage he

theorem getOrCreateTable (h : NullApart s) (ha : a ≠ 0) {i : Fin 512} {result : Except MapError U64}
    (he : getOrCreateTable a i s = (result, s')) : NullApart s' ∧ ∀ b, result = .ok b → b ≠ 0 := by
  unfold Paging.getOrCreateTable at he
  simp only at he
  split_ifs at he with hpres hhuge
  · cases he
    exact ⟨h, by simp⟩
  · cases he
    refine ⟨h, ?_⟩
    rintro b hb rfl
    exact h.unlinked a i (PageTableEntry.link_eq_some.mpr ⟨hpres, by simpa using hhuge, Except.ok.inj hb⟩)
  · rcases hnew : Paging.newTableFrame s with ⟨_ | frame, s₁⟩
    · rw [hnew] at he
      cases he
      exact ⟨(h.newTableFrame hnew).1, by simp⟩
    · rw [hnew] at he
      cases he
      obtain ⟨h₁, hframe⟩ := h.newTableFrame hnew
      obtain ⟨hf, hz⟩ := hframe frame rfl
      refine ⟨(h₁.writeTable hz zero_link).writeEntry ha i (set_link_ne hf hz (by decide)), ?_⟩
      rintro b hb
      cases hb
      exact hz

theorem walkCreate (h : NullApart s) (ha : a ≠ 0) {path : List (Fin 512)} {result : Except MapError U64}
    (he : walkCreate a path s = (result, s')) : NullApart s' ∧ ∀ b, result = .ok b → b ≠ 0 := by
  induction path generalizing a s with
  | nil =>
    cases he
    refine ⟨h, ?_⟩
    rintro b hb
    cases hb
    exact ha
  | cons i path ih =>
    rw [Paging.walkCreate] at he
    rcases hget : Paging.getOrCreateTable a i s with ⟨e | b, s₁⟩
    · rw [hget] at he
      cases he
      exact ⟨(h.getOrCreateTable ha hget).1, by simp⟩
    · rw [hget] at he
      obtain ⟨h₁, hb⟩ := h.getOrCreateTable ha hget
      exact ih h₁ (hb b rfl) he

theorem mapPage (h : NullApart s) {root : PhysPage} (hr : root.addr ≠ 0) (v : VirtAddr) (phys : PhysPage)
    {flags : PageTableFlags} (hlink : (PageTableEntry.set phys.addr flags).link ≠ some 0) :
    NullApart (mapPage root v phys flags s).2 := by
  by_cases hargs : isCanonical v.addr = true ∧ v.isAligned = true ∧ phys.addr.toNat % pageSize = 0
  · obtain ⟨hc, hal, hp⟩ := hargs
    rw [mapPage_eq root v phys flags s hc hal hp]
    rcases hwalk : Paging.walkCreate root.addr v.tablePath s with ⟨e | pt, s₁⟩
    · exact (h.walkCreate hr hwalk).1
    · obtain ⟨h₁, hpt⟩ := h.walkCreate hr hwalk
      dsimp only
      split_ifs
      · exact h₁
      · exact h₁.writeEntry (hpt pt rfl) v.ptIndex hlink
  · obtain ⟨e, he⟩ := mapPage_refused root flags s hargs
    rw [he]
    exact h

theorem map2mbHugePage (h : NullApart s) {root : PhysPage} (hr : root.addr ≠ 0) (v : VirtAddr) (phys : PhysPage)
    (flags : PageTableFlags) : NullApart (map2mbHugePage root v phys flags s).2 := by
  by_cases hc : isCanonical v.addr = true
  · rw [map2mbHugePage_eq root v phys flags s hc]
    rcases hwalk : Paging.walkCreate root.addr [v.pml4Index, v.pdptIndex] s with ⟨e | pd, s₁⟩
    · exact (h.walkCreate hr hwalk).1
    · obtain ⟨h₁, hpd⟩ := h.walkCreate hr hwalk
      refine h₁.writeEntry (hpd pd rfl) v.pdIndex fun hlink => ?_
      -- a large page is no link
      have hsmall := (PageTableEntry.link_eq_some.mp hlink).2.1
      have hbit : (flags.union PageTableFlags.hugePage).bits.getLsbD 7 = true := by
        rw [PageTableFlags.union, BitVec.getLsbD_or, Bool.or_eq_true]
        exact .inr (by decide)
      rw [PageTableEntry.set_isHuge, hbit] at hsmall
      cases hsmall
  · rw [Paging.map2mbHugePage, if_pos (by simpa using hc)]
    exact h

theorem mapEach (h : NullApart s) {root : PhysPage} (hr : root.addr ≠ 0) {flags : PageTableFlags} (hflags : flags.Clear)
    (pages : List U64) (hpages : ∀ a ∈ pages, IsFrame a ∧ a ≠ 0) :
    NullApart (pages.foldl (fun s curr => (Paging.mapPage root (canonicalVirt curr) ⟨curr⟩ flags s).2) s) := by
  induction pages generalizing s with
  | nil => exact h
  | cons curr pages ih =>
    obtain ⟨hf, hz⟩ := hpages curr List.mem_cons_self
    exact ih (h.mapPage hr _ _ (set_link_ne hf hz hflags)) fun a ha => hpages a (List.mem_cons_of_mem _ ha)

theorem mapMmioPages (h : NullApart s) {root : PhysPage} (hr : root.addr ≠ 0) (pages : List U64)
    (hpages : ∀ a ∈ pages, IsFrame a ∧ a ≠ 0) : NullApart (mapMmioPages root pages s).2 := by
  induction pages generalizing s with
  | nil => exact h
  | cons curr pages ih =>
    obtain ⟨hf, hz⟩ := hpages curr List.mem_cons_self
    have h₁ := h.mapPage hr ⟨curr⟩ ⟨curr⟩ (set_link_ne hf hz (show PageTableFlags.mmio.Clear by decide))
    have hrest {s₁ : PageMemory} (h₁ : NullApart s₁) := ih h₁ fun a ha => hpages a (List.mem_cons_of_mem _ ha)
    rw [Vmm.mapMmioPages]
    rcases hmap : Paging.mapPage root ⟨curr⟩ ⟨curr⟩ PageTableFlags.mmio s with ⟨e | ⟨⟩, s₁⟩
    · rw [hmap] at h₁
      cases e with
      | alreadyMapped => exact hrest h₁
      | _ => exact h₁
    · rw [hmap] at h₁
      exact hrest h₁

theorem createKernelHalf (h : NullApart s) {root : PhysPage} (hr : root.addr ≠ 0) {slots : List (Fin 512)}
    (he : createKernelHalf root slots s = some s') : NullApart s' := by
  induction slots generalizing s with
  | nil =>
    cases he
    exact h
  | cons i slots ih =>
    rw [Vmm.createKernelHalf] at he
    rcases hget : Paging.getOrCreateTable root.addr i s with ⟨e | b, s₁⟩
    · rw [hget] at he
      cases he
    · rw [hget] at he
      exact ih (h.getOrCreateTable hr hget).1 he

end NullApart

/-- What `vmm::init` maps one page at a time lies in memory that fits an entry, above page 0. -/
structure BootInfo.AboveNull (info : BootInfo) : Prop where
  memory : NullApart info.kernel.mem
  regions : ∀ r ∈ info.map.regions, ∀ a ∈ regionPages r, IsFrame a ∧ a ≠ 0
  devices : ∀ d ∈ info.devices, ∀ a ∈ mmioPages d.1 d.2, IsFrame a ∧ a ≠ 0

section Boot

variable {root : PhysPage} {k k' : Kernel}

theorem regionFlags_clear (r : MemoryRegion) : (regionFlags r).Clear := by
  unfold regionFlags
  cases r.regionType <;> decide

theorem NullApart.memoryRegions (h : NullApart k.mem) (hr : root.addr ≠ 0) (regions : List MemoryRegion)
    (hregions : ∀ r ∈ regions, ∀ a ∈ regionPages r, IsFrame a ∧ a ≠ 0) :
    NullApart (regions.foldl (mapMemoryRegion root) k).mem := by
  induction regions generalizing k with
  | nil => exact h
  | cons r regions ih =>
    exact ih (h.mapEach hr (regionFlags_clear r) _ (hregions r List.mem_cons_self))
      fun q hq => hregions q (List.mem_cons_of_mem _ hq)

theorem NullApart.device (h : NullApart k.mem) (hr : root.addr ≠ 0) {base size : U64}
    (hpages : ∀ a ∈ mmioPages base size, IsFrame a ∧ a ≠ 0) : NullApart (identityMapMmio root base size k).mem := by
  have hmapped := h.mapMmioPages hr _ hpages
  unfold identityMapMmio
  dsimp only
  change NullApart (Vmm.mapMmioPages root (pageRange (pageDown base) (pageDown (base + size + 0xFFF#64))) k.mem).2 at hmapped
  generalize Vmm.mapMmioPages root (pageRange (pageDown base) (pageDown (base + size + 0xFFF#64))) k.mem = result at hmapped ⊢
  rcases result with ⟨_ | _, mem⟩ <;> exact hmapped

theorem NullApart.lowPages {s : PageMemory} (h : NullApart s) (hr : root.addr ≠ 0) (pages : List U64) :
    NullApart (pages.foldl (mapLowPage root) s) := by
  induction pages generalizing s with
  | nil => exact h
  | cons a pages ih => exact ih (h.map2mbHugePage hr ⟨a⟩ ⟨a⟩ PageTableFlags.table)

theorem NullApart.lowMemory {s : PageMemory} (h : NullApart s) (hr : root.addr ≠ 0) : NullApart (mapLowMemory root s) := by
  rw [mapLowMemory]
  exact h.lowPages hr _

theorem NullApart.bootRegions {info : BootInfo} (h : NullApart k.mem) (hr : root.addr ≠ 0) (hinfo : info.AboveNull) :
    NullApart (mapBootRegions info root k).mem := by
  have hregions := h.memoryRegions hr info.map.regions hinfo.regions
  have hlapic := hregions.device hr (hinfo.devices (info.lapicBase, BitVec.ofNat 64 pageSize) (by simp [BootInfo.devices]))
  have hioapic := hlapic.device hr (hinfo.devices (info.ioapicBase, BitVec.ofNat 64 pageSize) (by simp [BootInfo.devices]))
  unfold mapBootRegions
  cases hfb : info.framebuffer with
  | none => exact hioapic
  | some fb => exact hioapic.device hr (hinfo.devices fb (by simp [BootInfo.devices, hfb]))

theorem NullApart.setMode {s : PageMemory} (h : NullApart s) (mode : Bool) :
    NullApart { s with isBootstrapping := mode } := ⟨h.empty, h.unlinked, h.pool, h.frames⟩

theorem NullApart.switched {info : BootInfo} (h : NullApart k.mem) (hr : root.addr ≠ 0) (hinfo : info.AboveNull) :
    NullApart (switchTables info root k).mem := by
  have hlow := h.lowMemory hr
  apply NullApart.setMode (s := (mapBootRegions info root { k with mem := mapLowMemory root k.mem, rootPml4 := root }).mem)
  generalize mapLowMemory root k.mem = low at hlow ⊢
  exact NullApart.bootRegions (k := { k with mem := low, rootPml4 := root }) hlow hr hinfo

theorem init_nullApart {info : BootInfo} (hload : info.Loaded) (h : info.AboveNull)
    (hinit : init info info.kernel = some k) : NullApart k.mem := by
  obtain ⟨root, mem, he, hr, -⟩ := hload.start
  have h₁ := (h.memory.allocateBootstrapTable he).1
  have hswitched : NullApart (switchTables info ⟨root⟩ { info.kernel with mem := mem }).mem :=
    NullApart.switched h₁ hr h
  rw [init_eq he] at hinit
  obtain ⟨mem', hhalf, rfl⟩ := Option.map_eq_some_iff.mp hinit
  exact hswitched.createKernelHalf hr hhalf

end Boot

section Regions

variable {s s' : PageMemory} {k k' : Kernel}

theorem NullApart.allocateFrames (h : NullApart s) {n : ℕ} {frames l : List PhysPage}
    (hframes : ∀ p ∈ frames, IsFrame p.addr ∧ p.addr ≠ 0) (he : allocateFrames n frames s = (some l, s')) :
    NullApart s' ∧ ∀ p ∈ l, IsFrame p.addr ∧ p.addr ≠ 0 := by
  induction n generalizing s frames with
  | zero =>
    cases he
    exact ⟨h, hframes⟩
  | succ n ih =>
    rw [Vmm.allocateFrames] at he
    rcases hpage : Paging.allocatePage s with ⟨_ | p, s₁⟩
    · rw [hpage] at he
      cases he
    · rw [hpage] at he
      obtain ⟨h₁, hp⟩ := h.allocatePage hpage
      refine ih h₁ (fun q hq => ?_) he
      rcases List.mem_append.mp hq with hq | hq
      · exact hframes q hq
      · rw [List.mem_singleton.mp hq]
        exact hp p rfl

theorem NullApart.mapPages (h : NullApart s) {root : PhysPage} (hr : root.addr ≠ 0) {flags : PageTableFlags}
    (hflags : flags.Clear) {mapped : List VirtAddr} {todo : List (VirtAddr × PhysPage)}
    (htodo : ∀ x ∈ todo, IsFrame x.2.addr ∧ x.2.addr ≠ 0) (he : mapPages root flags mapped todo s = (true, s')) :
    NullApart s' := by
  induction todo generalizing s mapped with
  | nil =>
    cases he
    exact h
  | cons x todo ih =>
    rcases x with ⟨v, phys⟩
    obtain ⟨hf, hz⟩ := htodo (v, phys) List.mem_cons_self
    have h₁ := h.mapPage hr v phys (set_link_ne hf hz hflags)
    rw [Vmm.mapPages] at he
    rcases hmap : Paging.mapPage root v phys flags s with ⟨e | ⟨⟩, s₁⟩
    · rw [hmap] at he
      cases he
    · rw [hmap] at he h₁
      exact ih h₁ (fun x hx => htodo x (List.mem_cons_of_mem _ hx)) he

/-- A region that is mapped takes frames other than page 0. -/
theorem NullApart.allocateAndMapRegion (h : NullApart k.mem) (hr : k.rootPml4.addr ≠ 0) {size : U64}
    {permissions : VirtPermissions} {purpose : RegionPurpose} {region : VirtRegion}
    (he : allocateAndMapRegion size permissions purpose k = (.ok region, k')) : NullApart k'.mem := by
  unfold Vmm.allocateAndMapRegion at he
  generalize reserveVirtualRegion size permissions purpose k.vmm = taken at he
  rcases taken with ⟨e | reserved, vmm⟩
  · cases he
  · simp only at he
    split_ifs at he
    · cases he
    rcases hframes : Vmm.allocateFrames (size.toNat / pageSize) [] k.mem with ⟨_ | l, s₁⟩
    · rw [hframes] at he
      cases he
    · rw [hframes] at he
      simp only at he
      obtain ⟨h₁, hl⟩ := h.allocateFrames (by simp) hframes
      generalize hpages : Vmm.mapPages k.rootPml4 permissions.toPageFlags []
        ((pagesFrom reserved.start.addr (size.toNat / pageSize)).zip l) s₁ = result at he
      rcases result with ⟨_ | _, s₂⟩
      · cases he
      · cases he
        exact h₁.mapPages hr permissions.toPageFlags_ok.2 (fun x hx => hl x.2 (List.of_mem_zip hx).2) hpages

end Regions

theorem sampleInfo_aboveNull : sampleInfo.AboveNull where
  memory := by
    refine ⟨rfl, fun _ _ => by simp [sampleInfo, BootInfo.kernel, PageTable.zero], fun n hn => ?_, _, _,
      init_frames (by decide)⟩
    have hval : (sampleInfo.kernel.mem.poolTable n).toNat = 0x800000 + n * 4096 := by
      unfold bootstrapTableCount at hn
      rw [PageMemory.poolTable, BitVec.toNat_add, BitVec.toNat_ofNat]
      change (0x800000 + _) % _ = _
      omega
    unfold bootstrapTableCount at hn
    refine ⟨⟨by omega, by omega⟩, fun hz => ?_⟩
    rw [hz] at hval
    change 0 = _ at hval
    omega
  regions r hr a ha := by
    rw [regionPages, mem_pageRange (pageDown_aligned _) (pageDown_aligned _)] at ha
    obtain ⟨hle, hlt, hal⟩ := ha
    have hbounds : ∀ r ∈ sampleInfo.map.regions, 0 < (pageDown r.physicalStart).toNat ∧
        (pageDown (r.physicalEnd + 0xFFF#64)).toNat ≤ 2 ^ 52 := by decide
    obtain ⟨hpos, hend⟩ := hbounds r hr
    refine ⟨⟨hal, by omega⟩, fun hz => ?_⟩
    rw [hz] at hle
    simp at hle
    omega
  devices d hd a ha := by
    rw [mmioPages, mem_pageRange (pageDown_aligned _) (pageDown_aligned _)] at ha
    obtain ⟨hle, hlt, hal⟩ := ha
    have hall : (sampleInfo.devices.all fun d => decide (0 < (pageDown d.1).toNat ∧
        (pageDown (d.1 + d.2 + 0xFFF#64)).toNat ≤ 2 ^ 52)) = true := by decide
    obtain ⟨hpos, hend⟩ := of_decide_eq_true (List.all_eq_true.mp hall d hd)
    refine ⟨⟨hal, by omega⟩, fun hz => ?_⟩
    rw [hz] at hle
    simp at hle
    omega

end VenturaOS.Vmm
