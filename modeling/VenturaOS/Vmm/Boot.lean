import VenturaOS.Vmm.LowMemory

/-!
# Ownership after boot

The tables that `vmm::init` builds come from the static pool and hang below
one root. The large pages over the low 4 GiB keep every managed frame out of
the leaf tables, so after boot no frame in circulation is mapped by a leaf.
-/
namespace VenturaOS.Vmm
open Library Memory Pmm Paging

/-- What the kernel relies on about how it was loaded: the region array is not overfull, and the
table pool is a page-aligned object in memory that is no part of usable memory. -/
structure BootInfo.Loaded (info : BootInfo) : Prop where
  fits : info.map.regions.length ≤ maxRegions
  nonnull : 0 < info.pool.toNat
  aligned : info.pool.toNat % 4096 = 0
  addressable : info.pool.toNat + bootstrapTableCount * 4096 ≤ 2 ^ 52
  reserved : ∀ n < bootstrapTableCount, ¬ UsablePage info.map (info.pool.toNat / 4096 + n)

def BootInfo.frames (info : BootInfo) : Finset U64 := (Pmm.init info.map).freeFrames

def BootInfo.count (info : BootInfo) : ℕ := (Pmm.init info.map).stats.freePages

/-- Below slot 0 there may be tables of every level, below any other slot there is at most one. -/
def Flat (place : Placement) : Prop :=
  ∀ {a r p}, place a = some (r, p) → p.length ≤ 1 ∨ p.head? = some 0

/-- One root, tables only, and large pages over the low 4 GiB. -/
structure BootInv (k : U64) (F : Finset U64) (c : ℕ) (place : Placement) (s : PageMemory) : Prop where
  owned : Owned (kernelPolicy k F) F c place ∅ s
  root : place k = some (k, [])
  low : LowHuge k place s
  shape : ∀ {a r p}, place a = some (r, p) → r = k ∧ p.length ≤ 3

section Tables

variable {k : U64} {F : Finset U64} {c : ℕ} {place place' : Placement} {s s' : PageMemory} {v : VirtAddr}

theorem BootInv.grows (h : BootInv k F c place s) (ho : Owned (kernelPolicy k F) F c place' ∅ s')
    (hg : Grows (kernelPolicy k F) k place place' s s') : BootInv k F c place' s' := by
  refine ⟨ho, hg.kept h.root, h.low.grows hg, fun ha => ?_⟩
  rcases hg.fresh ha with hold | ⟨-, hr, -, hlen⟩
  · exact h.shape hold
  · exact ⟨hr, hlen⟩

theorem physAddr_set (a : U64) {flags : PageTableFlags} (hf : flags.Clear) :
    (PageTableEntry.set a flags).physAddr = a &&& 0x000FFFFFFFFFF000#64 := by
  rw [PageTableEntry.physAddr, PageTableEntry.set, BitVec.and_or_distrib_right, hf, BitVec.or_zero, BitVec.and_assoc,
    BitVec.and_self]

/-- The frame field of an entry holds the low 52 bits of an aligned address. -/
theorem physAddr_set_toNat {a : U64} (ha : a.toNat % 4096 = 0) {flags : PageTableFlags} (hf : flags.Clear) :
    (PageTableEntry.set a flags).physAddr.toNat = a.toNat % 2 ^ 52 := by
  have hmask : (0x000FFFFFFFFFF000#64).toNat = (2 ^ 52 - 1) - (2 ^ 12 - 1) := rfl
  have hlow : a &&& 0xFFF#64 = 0#64 := by
    apply BitVec.eq_of_toNat_eq
    rw [BitVec.toNat_and, show (0xFFF#64).toNat = 2 ^ 12 - 1 from rfl, Nat.and_two_pow_sub_one_eq_mod, ha]
    rfl
  have hsplit : a &&& 0x000FFFFFFFFFFFFF#64 = a &&& 0x000FFFFFFFFFF000#64 := by
    rw [show 0x000FFFFFFFFFFFFF#64 = 0x000FFFFFFFFFF000#64 ||| 0xFFF#64 from rfl, BitVec.and_or_distrib_left, hlow,
      BitVec.or_zero]
  rw [physAddr_set a hf, ← hsplit, BitVec.toNat_and, show (0x000FFFFFFFFFFFFF#64).toNat = 2 ^ 52 - 1 from rfl,
    Nat.and_two_pow_sub_one_eq_mod]

theorem BootInv.writeLeaf (h : BootInv k F c place s) {pt : U64} (hpt : place pt = some (k, v.tablePath))
    (habs : (s.tables pt v.ptIndex).isPresent = false) (phys : PhysPage) (hph : phys.addr.toNat % pageSize = 0)
    (hsame : v.addr.toNat % 2 ^ 48 = phys.addr.toNat % 2 ^ 48) {flags : PageTableFlags} (hflags : flags.Clear) :
    BootInv k F c place (s.writeEntry pt v.ptIndex (.set phys.addr flags)) := by
  have hhigh : 2 ^ 32 ≤ (PageTableEntry.set phys.addr flags).physAddr.toNat := by
    have hnot := h.low.not_low h.owned hpt
    rw [physAddr_set_toNat hph hflags]
    unfold IsLow at hnot
    omega
  have hout : (PageTableEntry.set phys.addr flags).physAddr ∉ F := by
    intro hF
    have := (h.owned.frames.address hF).2.2
    omega
  have hedge : (kernelPolicy k F).edge k v.tablePath v.ptIndex (.set phys.addr flags) = none := by
    rw [Policy.edge_leaf v.tablePath_length, if_neg (by simp [kernelPolicy, hout])]
  have ho := h.owned.writeLeaf hpt v.tablePath_length (Policy.edge_of_not_present habs) hedge
    (fun _ _ _ => .inr hhigh)
  refine ⟨ho, h.root, ?_, h.shape⟩
  intro i3 i2 hi
  rcases h.low i3 i2 hi with ⟨pd, a, hpd, hlarge, ha⟩
  have hne : pd ≠ pt := by
    rintro rfl
    rw [hpt] at hpd
    simp [VirtAddr.tablePath] at hpd
  refine ⟨pd, a, hpd, ?_, ha⟩
  rw [writeEntry_tables, if_neg (fun hslot => hne hslot.1)]
  exact hlarge

theorem BootInv.mapPage (h : BootInv k F c place s) {phys : PhysPage} {flags : PageTableFlags}
    (hsame : v.addr.toNat % 2 ^ 48 = phys.addr.toNat % 2 ^ 48) (hflags : flags.Clear) :
    ∃ place', BootInv k F c place' (Paging.mapPage ⟨k⟩ v phys flags s).2 ∧
      (IsLow v → Flat place → Flat place') ∧ SameBoot s (Paging.mapPage ⟨k⟩ v phys flags s).2 ∧
      (s.isBootstrapping = true → (Paging.mapPage ⟨k⟩ v phys flags s).2.pmm = s.pmm) := by
  by_cases hargs : isCanonical v.addr = true ∧ v.isAligned = true ∧ phys.addr.toNat % pageSize = 0
  · rcases hargs with ⟨hc, hal, hph⟩
    rcases h.owned.mapPage_cases h.root (kernel_slot _) (fun _ => rfl) hc hal hph flags with
      ⟨place₁, s₁, ho, hg, hnew, hres⟩
    have hflat : IsLow v → Flat place → Flat place₁ := by
      intro hlow hplace b r' q hb
      rcases hnew hb with hb | hq
      · exact hplace hb
      · cases q with
        | nil => exact .inl (by simp)
        | cons j q =>
          rw [VirtAddr.tablePath, List.cons_prefix_cons] at hq
          exact .inr (by rw [List.head?_cons, hq.1, hlow.index.1])
    rcases hres with ⟨pt, he, hpt, habs, -⟩ | ⟨he, -⟩ | ⟨he, -⟩
    · rw [he]
      exact ⟨place₁, (h.grows ho hg).writeLeaf hpt habs phys hph hsame hflags, hflat, hg.boot.trans ⟨rfl, rfl, rfl⟩, hg.pmm⟩
    · rw [he]
      exact ⟨place₁, h.grows ho hg, hflat, hg.boot, hg.pmm⟩
    · rw [he]
      exact ⟨place₁, h.grows ho hg, hflat, hg.boot, hg.pmm⟩
  · rcases mapPage_refused ⟨k⟩ flags s hargs with ⟨e, he⟩
    rw [he]
    exact ⟨place, h, fun _ hf => hf, .refl s, fun _ => rfl⟩

/-- Step 5 below the root: each slot of the list now holds a table. -/
theorem BootInv.createKernelHalf (slots : List (Fin 512)) (h : BootInv k F c place s)
    (hmode : s.isBootstrapping = false) (hrun : Vmm.createKernelHalf ⟨k⟩ slots s = some s') :
    ∃ place', BootInv k F c place' s' ∧ (Flat place → Flat place') ∧ SameBoot s s' ∧
      (∀ i, (s.tables k i).isPresent = true → (s'.tables k i).isPresent = true) ∧
      (∀ i ∈ slots, (s'.tables k i).isPresent = true) ∧
      s.pmm.freeFrames.card ≤ s'.pmm.freeFrames.card + slots.length := by
  induction slots generalizing place s with
  | nil =>
    rw [Vmm.createKernelHalf, Option.some.injEq] at hrun
    subst hrun
    exact ⟨place, h, id, .refl _, fun _ hp => hp, by simp, by simp⟩
  | cons i slots ih =>
    rcases h.owned.walkCreate_cases [i] h.root (by simp) (by simpa using kernel_owns [] i) (fun _ => rfl) with
      ⟨place₁, s₁, ho, hg, hnew, hres⟩
    have h₁ := h.grows ho hg
    have hflat (hf : Flat place) : Flat place₁ := by
      intro b r' q hb
      rcases hnew hb with hb | hq
      · exact hf hb
      · exact .inl hq.length_le
    rw [Vmm.createKernelHalf] at hrun
    simp only [walkCreate] at hres
    rcases hget : getOrCreateTable k i s with ⟨e | b, t⟩
    · simp [hget] at hrun
    · simp only [hget, Prod.mk.injEq, Except.ok.injEq, reduceCtorEq, false_and, or_false, List.nil_append] at hres hrun
      rcases hres with ⟨b', ⟨rfl, rfl⟩, hb, hcost⟩
      have hpres : (t.tables k i).isPresent = true := by
        rcases ho.forest.parent (show place₁ b = some (k, [] ++ [i]) from hb) with ⟨a, ha, he⟩
        rw [ho.forest.root_self ha, Policy.edge_table (by simp) (kernel_owns _ _), PageTableEntry.link_eq_some] at he
        exact he.1
      rcases ih h₁ (hg.boot.mode.trans hmode) hrun with ⟨place', h', hflat', hsame, hkeep, hall, hcard⟩
      refine ⟨place', h', fun hf => hflat' (hflat hf), hg.boot.trans hsame, fun j hj => hkeep j ?_, fun j hj => ?_, ?_⟩
      · rw [hg.present j h.root hj]
        exact hj
      · rcases List.mem_cons.mp hj with rfl | hj
        · exact hkeep _ hpres
        · exact hall j hj
      · have := hcost hmode
        have hone := missing_le s.tables k [i]
        rw [List.length_singleton] at hone
        rw [List.length_cons]
        omega

/-- Step 5 succeeds when there is a free frame for each slot. -/
theorem BootInv.createKernelHalf_some (slots : List (Fin 512)) (h : BootInv k F c place s)
    (hmode : s.isBootstrapping = false) (hfree : slots.length ≤ s.pmm.freeFrames.card) :
    ∃ s', Vmm.createKernelHalf ⟨k⟩ slots s = some s' := by
  induction slots generalizing place s with
  | nil => exact ⟨s, rfl⟩
  | cons i slots ih =>
    rw [List.length_cons] at hfree
    rcases h.owned.walkCreate_cases [i] h.root (by simp) (by simpa using kernel_owns [] i) (fun _ => rfl) with
      ⟨place₁, s₁, ho, hg, -, hres⟩
    have hone := missing_le s.tables k [i]
    rw [List.length_singleton] at hone
    rw [Vmm.createKernelHalf]
    simp only [walkCreate] at hres
    rcases hget : getOrCreateTable k i s with ⟨e | b, t⟩
    · simp only [hget, Prod.mk.injEq, Except.error.injEq, reduceCtorEq, false_and, exists_false, false_or] at hres
      rcases hres with ⟨-, -, -, hlen⟩ | ⟨-, hcost, -⟩
      · simp at hlen
      · have := hcost hmode
        omega
    · simp only [hget, Prod.mk.injEq, reduceCtorEq, false_and, or_false] at hres
      rcases hres with ⟨b', ⟨-, rfl⟩, -, hcost⟩
      have := hcost hmode
      exact ih (h.grows ho hg) (hg.boot.mode.trans hmode) (by omega)

end Tables

/-- The pages step 1 maps for a region, and those `identity_map_mmio` maps. -/
def regionPages (r : MemoryRegion) : List U64 := pageRange (pageDown r.physicalStart) (pageDown (r.physicalEnd + 0xFFF#64))
def mmioPages (base size : U64) : List U64 := pageRange (pageDown base) (pageDown (base + size + 0xFFF#64))

/-- Everything booting maps page by page lies in the low 4 GiB. -/
structure BootInfo.Low (info : BootInfo) : Prop where
  regions : ∀ r ∈ info.map.regions, ∀ a ∈ regionPages r, a.toNat < 2 ^ 32
  lapic : ∀ a ∈ mmioPages info.lapicBase (BitVec.ofNat 64 pageSize), a.toNat < 2 ^ 32
  ioapic : ∀ a ∈ mmioPages info.ioapicBase (BitVec.ofNat 64 pageSize), a.toNat < 2 ^ 32
  framebuffer : ∀ b ∈ info.framebuffer, ∀ a ∈ mmioPages b.1 b.2, a.toNat < 2 ^ 32

/-- The kernel while `vmm::init` builds its tables below `r`. -/
structure Booting (info : BootInfo) (r : U64) (k : Kernel) : Prop where
  tables : ∃ place, BootInv r info.frames info.count place k.mem ∧ (info.Low → Flat place)
  root : k.rootPml4 = ⟨r⟩
  mode : k.mem.isBootstrapping = true
  log : k.mem.discarded = []
  pmm : k.mem.pmm = Pmm.init info.map
  cursor : k.vmm.nextDynamicAddr = dynamicVirtStart
  heap : k.heap = .new
  asid : k.currentAsid = 0

/-- Sign extension keeps the low 48 bits. -/
theorem canonicalVirt_low (a : U64) : (canonicalVirt a).addr.toNat % 2 ^ 48 = a.toNat % 2 ^ 48 := by
  unfold canonicalVirt
  split_ifs
  · simp only
    rw [BitVec.toNat_or, Nat.or_mod_two_pow, show (0xFFFF000000000000#64).toNat % 2 ^ 48 = 0 from rfl, Nat.or_zero]
  · simp only
    rw [BitVec.toNat_and, show (0x0000FFFFFFFFFFFF#64).toNat = 2 ^ 48 - 1 from rfl, Nat.and_two_pow_sub_one_eq_mod,
      Nat.mod_mod]

theorem registerRegion_cursor (region : VirtRegion) (vmm : VirtualMemoryManager) :
    (registerRegion region vmm).2.nextDynamicAddr = vmm.nextDynamicAddr := by
  unfold registerRegion
  split_ifs <;> rfl

namespace Booting

variable {info : BootInfo} {r : U64} {k : Kernel}

theorem mapPage (h : Booting info r k) (v : VirtAddr) (phys : PhysPage) {flags : PageTableFlags}
    (hsame : v.addr.toNat % 2 ^ 48 = phys.addr.toNat % 2 ^ 48) (hflags : flags.Clear) (hlow : info.Low → IsLow v) :
    Booting info r { k with mem := (Paging.mapPage ⟨r⟩ v phys flags k.mem).2 } := by
  rcases h.tables with ⟨place, hb, hflat⟩
  rcases hb.mapPage hsame hflags with ⟨place', hb', hflat', hboot, hpmm⟩
  exact
    { tables := ⟨place', hb', fun hl => hflat' (hlow hl) (hflat hl)⟩
      root := h.root
      mode := hboot.mode.trans h.mode
      log := hboot.log.trans h.log
      pmm := (hpmm h.mode).trans h.pmm
      cursor := h.cursor
      heap := h.heap
      asid := h.asid }

/-- Booting does not look at the region table. -/
theorem register (h : Booting info r k) (region : VirtRegion) :
    Booting info r { k with vmm := (registerRegion region k.vmm).2 } :=
  { h with cursor := (registerRegion_cursor region k.vmm).trans h.cursor }

theorem mapRegionPages (l : List U64) (h : Booting info r k) {flags : PageTableFlags} (hflags : flags.Clear)
    (hlow : info.Low → ∀ a ∈ l, a.toNat < 2 ^ 32) :
    Booting info r { k with mem := l.foldl (fun s curr =>
      (Paging.mapPage ⟨r⟩ (canonicalVirt curr) ⟨curr⟩ flags s).2) k.mem } := by
  induction l generalizing k with
  | nil => exact h
  | cons a l ih =>
    have hstep := h.mapPage (canonicalVirt a) ⟨a⟩ (canonicalVirt_low a) hflags fun hl => by
      have := hlow hl a (by simp)
      rw [IsLow, canonicalVirt_low]
      omega
    exact ih hstep fun hl b hb => hlow hl b (by simp [hb])

theorem mapMemoryRegion (h : Booting info r k) {region : MemoryRegion} (hmem : region ∈ info.map.regions) :
    Booting info r (Vmm.mapMemoryRegion ⟨r⟩ k region) := by
  have hflags : (regionFlags region).Clear := by
    unfold regionFlags
    split <;> decide
  exact (h.mapRegionPages (regionPages region) hflags fun hl => hl.regions region hmem).register _

theorem mapMmioPages (l : List U64) (h : Booting info r k) (hlow : info.Low → ∀ a ∈ l, a.toNat < 2 ^ 32) :
    Booting info r { k with mem := (Vmm.mapMmioPages ⟨r⟩ l k.mem).2 } := by
  induction l generalizing k with
  | nil => exact h
  | cons a l ih =>
    have hflags : PageTableFlags.mmio.Clear := by decide
    have hstep := h.mapPage ⟨a⟩ ⟨a⟩ rfl hflags fun hl => by
      have := hlow hl a (by simp)
      rw [IsLow]
      simp only
      omega
    have hrest := ih hstep fun hl b hb => hlow hl b (by simp [hb])
    rw [Vmm.mapMmioPages]
    rcases he : Paging.mapPage ⟨r⟩ ⟨a⟩ ⟨a⟩ PageTableFlags.mmio k.mem with ⟨e | u, mem⟩
    · rw [he] at hstep hrest
      cases e with
      | alreadyMapped => exact hrest
      | nonCanonicalAddress => exact hstep
      | unalignedVirtualAddress => exact hstep
      | unalignedPhysicalAddress => exact hstep
      | frameAllocationFailed => exact hstep
    · rw [he] at hrest
      exact hrest

theorem identityMapMmio (h : Booting info r k) {base size : U64}
    (hlow : info.Low → ∀ a ∈ mmioPages base size, a.toNat < 2 ^ 32) :
    Booting info r (Vmm.identityMapMmio ⟨r⟩ base size k) := by
  have hmapped := h.mapMmioPages (mmioPages base size) hlow
  unfold mmioPages at hmapped
  simp only [Vmm.identityMapMmio]
  rcases he : Vmm.mapMmioPages ⟨r⟩ (pageRange (pageDown base) (pageDown (base + size + 0xFFF#64))) k.mem with
    ⟨_ | _, mem⟩
  · rw [he] at hmapped
    exact hmapped
  · rw [he] at hmapped
    exact hmapped.register _

theorem mapBootRegions (h : Booting info r k) : Booting info r (Vmm.mapBootRegions info ⟨r⟩ k) := by
  have hregions : ∀ (l : List MemoryRegion) (k : Kernel), (∀ region ∈ l, region ∈ info.map.regions) →
      Booting info r k → Booting info r (l.foldl (Vmm.mapMemoryRegion ⟨r⟩) k) := by
    intro l
    induction l with
    | nil => exact fun k _ hk => hk
    | cons region l ih =>
      intro k hl hk
      exact ih _ (fun q hq => hl q (by simp [hq])) (hk.mapMemoryRegion (hl region (by simp)))
  have hdevices := ((hregions _ k (fun _ hr => hr) h).identityMapMmio (fun hl => hl.lapic)).identityMapMmio
    (fun hl => hl.ioapic)
  unfold Vmm.mapBootRegions
  cases hfb : info.framebuffer with
  | none => exact hdevices
  | some b => exact hdevices.identityMapMmio fun hl => hl.framebuffer b hfb

end Booting

section Start

variable {info : BootInfo}

/-- Before any table is taken, every frame of the allocator is free and nothing is placed. -/
theorem BootInfo.Loaded.owned (h : info.Loaded) (k : U64) :
    Owned (kernelPolicy k info.frames) info.frames info.count (fun _ => none) ∅ info.kernel.mem := by
  have hframes := init_frames h.fits
  have hnot (a : U64) : ¬ InUse info.frames info.kernel.mem a := by
    rintro (⟨hF, hout⟩ | ⟨n, hn, -⟩)
    · exact hout hF
    · exact absurd hn (Nat.not_lt_zero n)
  have hpool : PoolPlaced info.frames info.kernel.mem :=
    { aligned := h.aligned
      addressable := h.addressable
      outside := by
        intro n hn hF
        -- a managed frame is a usable page, the pool lies in none
        rcases Finset.mem_image.mp hF with ⟨i, hi, he⟩
        have hlt := (Allocator.mem_freeSet.mp hi).1
        have hmax := hframes.bound
        have haddr := congrArg BitVec.toNat he
        have hsum := h.addressable
        have hal := h.aligned
        rw [frame_toNat (lt_of_lt_of_le hlt hmax), PageMemory.poolTable, BitVec.toNat_add, BitVec.toNat_ofNat] at haddr
        change i * 4096 = (info.pool.toNat + n * 4096 % 2 ^ 64) % 2 ^ 64 at haddr
        unfold bootstrapTableCount at hn hsum
        apply h.reserved n hn
        rw [show info.pool.toNat / 4096 + n = i by omega]
        exact (init_freeSet info.map i).mp hi
      index_le := Nat.zero_le _ }
  exact
    { frames := hframes
      pool := hpool
      forest := ⟨by simp, by simp, by simp, by simp⟩
      placed := by simp
      held_inUse := by simp
      inUse := fun ha => absurd ha (hnot _)
      managed := by simp
      upper := by simp
      leaves := by simp }

/-- The root is the first table of the pool; step 0 then covers the low 4 GiB. -/
theorem BootInfo.Loaded.lowTables (h : info.Loaded) :
    ∃ r mem place, allocateBootstrapTable info.kernel.mem = (some ⟨r⟩, mem) ∧ r ≠ 0 ∧
      mem.pmm = Pmm.init info.map ∧ SameBoot info.kernel.mem mem ∧
      LowInv r info.frames info.count mem 2048 place (mapLowMemory ⟨r⟩ mem) := by
  rcases (h.owned (info.kernel.mem.poolTable 0)).allocateBootstrapTable_cases with
    ⟨-, hfull⟩ | ⟨r, mem, he, ho, -, -, -, hzero, -, hpmm, hsame, hr⟩
  · change 512 ≤ 0 at hfull
    omega
  · change r = info.kernel.mem.poolTable 0 at hr
    rw [← hr] at ho
    have hroot := ho.addRoot (f := r) (by simp) (.inr rfl)
      (fun j => by rw [hzero]; exact Policy.edge_of_not_present PageTableEntry.empty_isPresent)
      (fun j hj => by rw [hzero] at hj; simp [PageTable.zero] at hj)
    have hplaced {a x} (ha : Function.update (fun _ => none) r (some (r, [])) a = some x) :
        a = r ∧ x = (r, ([] : Path)) := by
      by_cases har : a = r
      · subst har
        rw [Function.update_self] at ha
        exact ⟨rfl, (Option.some.inj ha).symm⟩
      · rw [Function.update_of_ne har] at ha
        cases ha
    have hlow : LowInv r info.frames info.count mem 0 (Function.update (fun _ => none) r (some (r, []))) mem :=
      { owned := by simpa using hroot
        root := Function.update_self _ _ _
        mode := hsame.mode
        since := .refl mem
        pmm := rfl
        paths := by
          intro a r' p ha
          rcases hplaced ha with ⟨-, hx⟩
          cases hx
          exact ⟨rfl, by simp [lowPaths]⟩
        done := fun i3 i2 hi => absurd hi (Nat.not_lt_zero _) }
    rcases hlow.mapLowMemory with ⟨place, hrun⟩
    have hne : r ≠ 0 := by
      have hnn := h.nonnull
      intro hzero
      have hval := hr.symm.trans hzero
      change info.pool + BitVec.ofNat 64 (0 * 4096) = 0 at hval
      rw [Nat.zero_mul, BitVec.ofNat_eq_ofNat, BitVec.add_zero] at hval
      rw [hval] at hnn
      simp at hnn
    exact ⟨r, mem, place, he, hne, hpmm, hsame, hrun⟩

theorem BootInfo.Loaded.start (h : info.Loaded) :
    ∃ r mem, allocateBootstrapTable info.kernel.mem = (some ⟨r⟩, mem) ∧ r ≠ 0 ∧
      Booting info r { info.kernel with mem := mapLowMemory ⟨r⟩ mem, rootPml4 := ⟨r⟩ } := by
  rcases h.lowTables with ⟨r, mem, place, he, hne, hpmm, hsame, hrun⟩
  refine ⟨r, mem, he, hne, ?_⟩
  generalize mapLowMemory ⟨r⟩ mem = s at hrun ⊢
  exact
    { tables := by
        refine ⟨place, ⟨hrun.owned, hrun.root, ?_, ?_⟩, ?_⟩
        · intro i3 i2 hi
          exact hrun.done i3 i2 (by omega)
        · intro a r' p ha
          rcases hrun.paths ha with ⟨hr', hp⟩
          exact ⟨hr', (lowPaths_length hp).trans (by decide)⟩
        · intro _ a r' p ha
          have hp := (hrun.paths ha).2
          simp only [lowPaths, Finset.mem_insert, Finset.mem_singleton] at hp
          rcases hp with rfl | rfl | rfl | rfl | rfl | rfl <;> simp
      root := rfl
      mode := hrun.since.mode.trans hsame.mode
      log := hrun.since.log.trans hsame.log
      pmm := hrun.pmm.trans hpmm
      cursor := rfl
      heap := rfl
      asid := rfl }

end Start

/-- The kernel after `vmm::init`. -/
structure Booted (info : BootInfo) (k : Kernel) : Prop where
  tables : ∃ place, BootInv k.rootPml4.addr info.frames info.count place k.mem ∧ (info.Low → Flat place)
  shared : ∀ i ∈ kernelSlots, (k.mem.tables k.rootPml4.addr i).isPresent = true
  mode : k.mem.isBootstrapping = false
  log : k.mem.discarded = []
  cursor : k.vmm.nextDynamicAddr = dynamicVirtStart
  heap : k.heap = .new
  asid : k.currentAsid = 0
  cr3 : k.cr3 = k.rootPml4.addr
  nonnull : k.rootPml4.addr ≠ 0
  free : info.frames.card ≤ k.mem.pmm.freeFrames.card + 256

theorem kernelSlots_length : kernelSlots.length = 256 := by decide +kernel

section Finish

variable {info : BootInfo} {k : Kernel}

/-- `vmm::init` as its first four steps and step 5. -/
theorem init_eq {r : U64} {mem : PageMemory} (he : allocateBootstrapTable info.kernel.mem = (some ⟨r⟩, mem)) :
    init info info.kernel =
      (createKernelHalf ⟨r⟩ kernelSlots (switchTables info ⟨r⟩ { info.kernel with mem := mem }).mem).map
        fun mem' => { switchTables info ⟨r⟩ { info.kernel with mem := mem } with mem := mem' } := by
  have hmode : { info.kernel.mem with isBootstrapping := true } = info.kernel.mem := rfl
  rw [init, hmode, he]
  simp only
  cases createKernelHalf ⟨r⟩ kernelSlots (switchTables info ⟨r⟩ { info.kernel with mem := mem }).mem with
  | none => rfl
  | some mem' => rfl

theorem Booting.switched {r : U64} {mem : PageMemory}
    (h : Booting info r { info.kernel with mem := mapLowMemory ⟨r⟩ mem, rootPml4 := ⟨r⟩ }) :
    ∃ place, BootInv r info.frames info.count place
        (switchTables info ⟨r⟩ { info.kernel with mem := mem }).mem ∧ (info.Low → Flat place) := by
  rcases h.mapBootRegions.tables with ⟨place, hb, hflat⟩
  exact ⟨place, ⟨setMode hb.owned false, hb.root, hb.low, hb.shape⟩, hflat⟩

theorem init_booted (h : info.Loaded) (hrun : init info info.kernel = some k) : Booted info k := by
  rcases h.start with ⟨r, mem, he, hne, hboot⟩
  rcases hboot.switched with ⟨place, hb, hflat⟩
  rw [init_eq he] at hrun
  rcases Option.map_eq_some_iff.mp hrun with ⟨mem', hhalf, rfl⟩
  rcases hb.createKernelHalf kernelSlots rfl hhalf with ⟨place', hb', hflat', hsame, -, hall, hcard⟩
  have hend := hboot.mapBootRegions
  have hroot : (switchTables info ⟨r⟩ { info.kernel with mem := mem }).rootPml4 = ⟨r⟩ := hend.root
  have hpmm : (switchTables info ⟨r⟩ { info.kernel with mem := mem }).mem.pmm = Pmm.init info.map := hend.pmm
  exact
    { tables := ⟨place', by simp only [hroot]; exact hb', fun hl => hflat' (hflat hl)⟩
      shared := by simp only [hroot]; exact hall
      mode := hsame.mode
      log := hsame.log.trans hend.log
      cursor := hend.cursor
      heap := hend.heap
      asid := hend.asid
      cr3 := by simp only [hroot]; rfl
      nonnull := by simp only [hroot]; exact hne
      free := by rw [hpmm, kernelSlots_length] at hcard; exact hcard }

/-- With a free frame for each slot of the upper half, `vmm::init` returns. -/
theorem init_some (h : info.Loaded) (hfree : 256 ≤ info.frames.card) : ∃ k, init info info.kernel = some k := by
  rcases h.start with ⟨r, mem, he, -, hboot⟩
  rcases hboot.switched with ⟨place, hb, -⟩
  have hpmm : (switchTables info ⟨r⟩ { info.kernel with mem := mem }).mem.pmm = Pmm.init info.map :=
    hboot.mapBootRegions.pmm
  rcases hb.createKernelHalf_some kernelSlots rfl (by rw [kernelSlots_length, hpmm]; exact hfree) with ⟨mem', hhalf⟩
  exact ⟨_, by rw [init_eq he, hhalf]; rfl⟩

end Finish

/-- A machine with 4 MiB of usable memory; the pool is part of the loaded image. -/
def sampleInfo : BootInfo where
  map := ⟨[⟨0x100000, 0x500000, 1024, .usable, true⟩, ⟨0x800000, 0xA00000, 512, .loaderData, false⟩]⟩
  lapicBase := 0xFEE00000
  ioapicBase := 0xFEC00000
  framebuffer := none
  pool := 0x800000
  tables := fun _ => .zero
  bytes := fun _ => 0
  cr3 := 0

theorem sampleInfo_usable (i : ℕ) : UsablePage sampleInfo.map i ↔ 256 ≤ i ∧ i < 1280 := by
  have hmanaged : managedPages sampleInfo.map = 2560 := by decide +kernel
  rw [UsablePage, hmanaged]
  constructor
  · rintro ⟨-, -, r, hr, hu, hlow, hhigh⟩
    simp only [sampleInfo, List.mem_cons, List.not_mem_nil, or_false] at hr
    rcases hr with rfl | rfl
    · exact ⟨hlow, hhigh⟩
    · cases hu
  · rintro ⟨hlow, hhigh⟩
    exact ⟨by omega, by omega, _, List.mem_cons_self, rfl, hlow, hhigh⟩

theorem sampleInfo_loaded : sampleInfo.Loaded where
  fits := by decide
  nonnull := by decide
  aligned := by decide
  addressable := by decide
  reserved n _ := by
    rw [sampleInfo_usable, show sampleInfo.pool.toNat / 4096 = 2048 from rfl]
    omega

/-- As many frames as there are usable pages. -/
theorem frames_card {info : BootInfo} {a b : ℕ} (hb : b ≤ maxManagedPages)
    (h : ∀ i, UsablePage info.map i ↔ a ≤ i ∧ i < b) : info.frames.card = b - a := by
  have hset : (Pmm.init info.map).freeSet = Finset.Ico a b := by
    ext i
    rw [init_freeSet, h, Finset.mem_Ico]
  rw [BootInfo.frames, Allocator.freeFrames, hset, Finset.card_image_of_injOn, Nat.card_Ico]
  intro i hi j hj he
  rw [Finset.coe_Ico, Set.mem_Ico] at hi hj
  unfold maxManagedPages at hb
  exact frame_inj (by omega) (by omega) he

theorem sampleInfo_frames : sampleInfo.frames.card = 1024 := frames_card (by decide) sampleInfo_usable

theorem sampleInfo_boots : ∃ k, init sampleInfo sampleInfo.kernel = some k :=
  init_some sampleInfo_loaded (by rw [sampleInfo_frames]; omega)

end VenturaOS.Vmm
