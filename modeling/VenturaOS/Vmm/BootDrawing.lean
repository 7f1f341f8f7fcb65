import VenturaOS.Paging.LargePages
import VenturaOS.Vmm.BootTables

/-!
# The boot follows its plan

The page tables that `vmm::init` builds and the regions it registers are those
of the plan: above 4 GiB the walk of the kernel root maps the pages asked for
whose page tables the pool could serve, to themselves, and no others.
-/
namespace VenturaOS.Vmm
open Library Pmm Paging Memory

section Walks

variable {tables : U64 → PageTable} {a : U64} {is : Path}

theorem walkCreate_blocked {s : PageMemory} (h : blocked s.tables a is = true) :
    walkCreate a is s = (.error .alreadyMapped, s) := by
  induction is generalizing a with
  | nil => cases h
  | cons i is ih =>
    rw [walkCreate, getOrCreateTable]
    cases hlink : (s.tables a i).link with
    | some b =>
      obtain ⟨hpres, hsmall, rfl⟩ := PageTableEntry.link_eq_some.mp hlink
      rw [blocked, hlink] at h
      simp only [hpres, hsmall, if_true, Bool.false_eq_true, if_false]
      exact ih h
    | none =>
      have hpres : (s.tables a i).isPresent = true := by simpa [blocked, hlink] using h
      have hhuge : (s.tables a i).isHuge = true := by
        by_contra hsmall
        rw [PageTableEntry.link_eq_some.mpr ⟨hpres, by simpa using hsmall, rfl⟩] at hlink
        cases hlink
      simp only [hpres, hhuge, if_true]

/-- Behind a large page the processor reads no further. -/
theorem reach_blocked (h : blocked tables a is = true) (j : Fin 512) : reach tables a (is ++ [j]) ≠ none := by
  induction is generalizing a with
  | nil => cases h
  | cons i is ih =>
    rw [List.cons_append, reach]
    cases hlink : (tables a i).link with
    | some b =>
      obtain ⟨hpres, hsmall, rfl⟩ := PageTableEntry.link_eq_some.mp hlink
      rw [blocked, hlink] at h
      rw [if_pos hpres, if_neg (by simp [hsmall])]
      simpa using ih h
    | none =>
      have hpres : (tables a i).isPresent = true := by simpa [blocked, hlink] using h
      have hhuge : (tables a i).isHuge = true := by
        by_contra hsmall
        rw [PageTableEntry.link_eq_some.mpr ⟨hpres, by simpa using hsmall, rfl⟩] at hlink
        cases hlink
      rw [if_pos hpres, if_pos ⟨hhuge, by simp⟩]
      exact Option.some_ne_none _

end Walks

section Placed

variable {k pt : U64} {F : Finset U64} {c : ℕ} {place : Placement} {held : Finset U64} {s : PageMemory} {v : VirtAddr}

theorem links_placed (h : Owned (kernelPolicy k F) F c place held s) (hpt : place pt = some (k, v.tablePath)) :
    ∃ pdpt pd, (s.tables k v.pml4Index).link = some pdpt ∧ (s.tables pdpt v.pdptIndex).link = some pd ∧
      (s.tables pd v.pdIndex).link = some pt ∧ place pd = some (k, [v.pml4Index, v.pdptIndex]) := by
  obtain ⟨pd, hpd, he2⟩ :=
    h.forest.parent (show place pt = some (k, [v.pml4Index, v.pdptIndex] ++ [v.pdIndex]) from hpt)
  obtain ⟨pdpt, hpdpt, he3⟩ := h.forest.parent (show place pd = some (k, [v.pml4Index] ++ [v.pdptIndex]) from hpd)
  obtain ⟨root, hroot, he4⟩ := h.forest.parent (show place pdpt = some (k, [] ++ [v.pml4Index]) from hpdpt)
  rw [h.forest.root_self hroot] at he4
  rw [Policy.edge_table (by simp) (kernel_owns _ _)] at he2 he3 he4
  exact ⟨pdpt, pd, he4, he3, he2, hpd⟩

theorem blocked_placed (h : Owned (kernelPolicy k F) F c place held s) (hpt : place pt = some (k, v.tablePath)) :
    blocked s.tables k v.tablePath = false := by
  obtain ⟨pdpt, pd, h4, h3, h2, -⟩ := links_placed h hpt
  simp [VirtAddr.tablePath, blocked, h4, h3, h2]

theorem walk_placed (h : Owned (kernelPolicy k F) F c place held s) (hpt : place pt = some (k, v.tablePath))
    (hc : isCanonical v.addr = true) (hpres : (s.tables pt v.ptIndex).isPresent = true) :
    walkAddress s.tables k v = some ((s.tables pt v.ptIndex).physAddr ||| v.pageOffset) := by
  obtain ⟨pdpt, pd, h4, h3, h2, -⟩ := links_placed h hpt
  rw [PageTableEntry.link_eq_some] at h4 h3 h2
  obtain ⟨p4, g4, e4⟩ := h4
  obtain ⟨p3, g3, e3⟩ := h3
  obtain ⟨p2, g2, e2⟩ := h2
  simp [walkAddress, hardwareWalk, pageWalk, hc, p4, g4, e4, p3, g3, e3, p2, g2, e2, hpres]

/-- A large page stands over every low address. -/
theorem blocked_low (h : Owned (kernelPolicy k F) F c place held s) (hlow : LowHuge k place s) (hv : IsLow v) :
    blocked s.tables k v.tablePath = true := by
  obtain ⟨h4, h3⟩ := hv.index
  obtain ⟨pd, a, hpd, hlarge, -⟩ := hlow v.pdptIndex v.pdIndex h3
  obtain ⟨pdpt, hpdpt, he3⟩ := h.forest.parent (show place pd = some (k, [0] ++ [v.pdptIndex]) from hpd)
  obtain ⟨root, hroot, he4⟩ := h.forest.parent (show place pdpt = some (k, [] ++ [0]) from hpdpt)
  rw [h.forest.root_self hroot] at he4
  rw [Policy.edge_table (by simp) (kernel_owns _ _)] at he3 he4
  simp [VirtAddr.tablePath, h4, blocked, he4, he3, hlarge, largeEntry_link, largeEntry_isPresent]

end Placed

/-- The tables below `k` are as drafted, and above 4 GiB exactly the pages asked for are mapped. -/
structure Drawn (k : U64) (F : Finset U64) (c : ℕ) (asked : List U64) (place : Placement) (s : PageMemory) : Prop where
  built : Built k F c (drafted asked) place s
  boot : BootInv k F c place s
  mapped : ∀ {a}, isCanonical a = true → (VirtAddr.mk a).isAligned = true → ¬IsLow ⟨a⟩ →
    (reach s.tables k (VirtAddr.mk a).path ≠ none ↔ a ∈ asked ∧ (VirtAddr.mk a).tablePath ∈ drafted asked)
  frame : ∀ {a}, isCanonical a = true → (VirtAddr.mk a).isAligned = true → ¬IsLow ⟨a⟩ →
    reach s.tables k (VirtAddr.mk a).path ≠ none → walkAddress s.tables k ⟨a⟩ = some (frameBits a)

namespace Drawn

variable {k a b pt : U64} {F : Finset U64} {c : ℕ} {asked : List U64} {place place' : Placement} {s s' : PageMemory}
  {flags : PageTableFlags}

/-- Only large pages over low addresses are in the way of a walk. -/
theorem open_above (h : Drawn k F c asked place s) (hc : isCanonical a = true) (ha : (VirtAddr.mk a).isAligned = true)
    (hlow : ¬IsLow ⟨a⟩) : blocked s.tables k (VirtAddr.mk a).tablePath = false := by
  by_contra hblocked
  have hreach := reach_blocked (by simpa using hblocked) (VirtAddr.mk a).ptIndex
  have htable := ((h.mapped hc ha hlow).mp hreach).2
  obtain ⟨pt, hpt⟩ := (h.built.tables _).mpr htable
  exact hblocked (blocked_placed h.built.owned hpt)

/-- What was asked for before is mapped, or not, as before. -/
theorem settled (h : Drawn k F c asked place s) (hc : isCanonical b = true) (hb : (VirtAddr.mk b).isAligned = true)
    (hlow : ¬IsLow ⟨b⟩) (hne : b ≠ a) : reach s.tables k (VirtAddr.mk b).path ≠ none ↔
      b ∈ asked ++ [a] ∧ (VirtAddr.mk b).tablePath ∈ drafted (asked ++ [a]) := by
  rw [h.mapped hc hb hlow]
  constructor
  · rintro ⟨hmem, htable⟩
    exact ⟨List.mem_append_left _ hmem, subset_drafted _ _ htable⟩
  · rintro ⟨hmem, htable⟩
    have hold : b ∈ asked := by simpa [hne] using hmem
    exact ⟨hold, (drafted_settled hold hlow _).mp htable⟩

/-- Asking for a page of the low 4 GiB changes nothing. -/
theorem ask_low (h : Drawn k F c asked place s) (ha : IsLow ⟨a⟩) : Drawn k F c (asked ++ [a]) place s where
  built := by
    rw [drafted_low ha]
    exact h.built
  boot := h.boot
  mapped {b} hc hb hlow := h.settled hc hb hlow fun he => hlow (he ▸ ha)
  frame := h.frame

/-- Growing the tables towards a page, which is mapped already or gets no page table. -/
theorem ask_grown (h : Drawn k F c asked place s) (hbuilt : Built k F c (drafted (asked ++ [a])) place' s')
    (hg : Grows (kernelPolicy k F) k place place' s s')
    (hreach : reach s'.tables k (VirtAddr.mk a).path ≠ none ↔ (VirtAddr.mk a).tablePath ∈ drafted (asked ++ [a])) :
    Drawn k F c (asked ++ [a]) place' s' := by
  have hsame (v : VirtAddr) : reach s'.tables k v.path = reach s.tables k v.path :=
    hg.reach_eq (j := v.pml4Index) (q := [v.pdptIndex, v.pdIndex, v.ptIndex]) h.boot.root rfl (kernel_owns _ _)
  refine ⟨hbuilt, h.boot.grows hbuilt.owned hg, fun {b} hc hb hlow => ?_, fun {b} hc hb hlow hmapped => ?_⟩
  · by_cases hba : b = a
    · subst hba
      rw [hreach]
      simp
    · rw [hsame]
      exact h.settled hc hb hlow hba
  · rw [hsame] at hmapped
    rw [walkAddress_of_reach (hsame _)]
    exact h.frame hc hb hlow hmapped

/-- Growing the tables towards a page and mapping it. -/
theorem ask_mapped (h : Drawn k F c asked place s) (hc : isCanonical a = true) (ha : (VirtAddr.mk a).isAligned = true)
    (hbuilt : Built k F c (drafted (asked ++ [a])) place' s') (hg : Grows (kernelPolicy k F) k place place' s s')
    (hpt : place' pt = some (k, (VirtAddr.mk a).tablePath))
    (habs : (s'.tables pt (VirtAddr.mk a).ptIndex).isPresent = false) (hflags : LeafFlags flags) :
    Drawn k F c (asked ++ [a]) place' (s'.writeEntry pt (VirtAddr.mk a).ptIndex (.set a flags)) := by
  have hroot := hg.kept h.boot.root
  have hpage : a.toNat % pageSize = 0 := by simpa [VirtAddr.isAligned] using ha
  have hboot := (h.boot.grows hbuilt.owned hg).writeLeaf hpt habs ⟨a⟩ hpage rfl hflags.2
  have hgrown (v : VirtAddr) : reach s'.tables k v.path = reach s.tables k v.path :=
    hg.reach_eq (j := v.pml4Index) (q := [v.pdptIndex, v.pdIndex, v.ptIndex]) h.boot.root rfl (kernel_owns _ _)
  have hpresent : ((s'.writeEntry pt (VirtAddr.mk a).ptIndex (.set a flags)).tables pt
      (VirtAddr.mk a).ptIndex).isPresent = true := by
    rw [writeEntry_tables, if_pos ⟨rfl, rfl⟩, PageTableEntry.set_isPresent]
    exact hflags.1
  have hother {b : U64} (hcb : isCanonical b = true) (hb : (VirtAddr.mk b).isAligned = true) (hba : b ≠ a) :
      reach (s'.writeEntry pt (VirtAddr.mk a).ptIndex (.set a flags)).tables k (VirtAddr.mk b).path =
        reach s.tables k (VirtAddr.mk b).path := by
    rw [← hgrown]
    refine hbuilt.owned.reach_writeEntry (j := (VirtAddr.mk b).pml4Index)
      (q := [(VirtAddr.mk b).pdptIndex, (VirtAddr.mk b).pdIndex, (VirtAddr.mk b).ptIndex]) hpt
      (VirtAddr.mk a).tablePath_length _ hroot rfl (kernel_owns _ _) ?_
    rintro ⟨-, hpath⟩
    exact hba (VirtAddr.mk.inj (VirtAddr.path_inj hcb hc hb ha hpath))
  refine ⟨⟨hboot.owned, hbuilt.mode, hbuilt.free, hbuilt.only, hbuilt.tables⟩, hboot, fun {b} hcb hb hlow => ?_,
    fun {b} hcb hb hlow hmapped => ?_⟩
  · by_cases hba : b = a
    · subst hba
      refine iff_of_true ?_ ⟨by simp, (hbuilt.tables _).mp ⟨pt, hpt⟩⟩
      rw [ne_eq, hboot.owned.reach_leaf hpt, hpresent]
      decide
    · rw [hother hcb hb hba]
      exact h.settled hcb hb hlow hba
  · by_cases hba : b = a
    · subst hba
      rw [walk_placed hboot.owned hpt hcb hpresent, writeEntry_tables, if_pos ⟨rfl, rfl⟩, pageOffset_aligned hb,
        BitVec.or_zero, physAddr_set b hflags.2, frameBits]
    · rw [hother hcb hb hba] at hmapped
      rw [walkAddress_of_reach (hother hcb hb hba)]
      exact h.frame hcb hb hlow hmapped

theorem mapPage (h : Drawn k F c asked place s) (hc : isCanonical a = true) (ha : (VirtAddr.mk a).isAligned = true)
    (hflags : LeafFlags flags) :
    ∃ place' s', Drawn k F c (asked ++ [a]) place' s' ∧
      ((Stands (asked ++ [a]) a ∧ (Paging.mapPage ⟨k⟩ ⟨a⟩ ⟨a⟩ flags s = (.ok (), s') ∨
          Paging.mapPage ⟨k⟩ ⟨a⟩ ⟨a⟩ flags s = (.error .alreadyMapped, s'))) ∨
        (¬Stands (asked ++ [a]) a ∧ Paging.mapPage ⟨k⟩ ⟨a⟩ ⟨a⟩ flags s = (.error .frameAllocationFailed, s'))) := by
  have hpage : (PhysPage.mk a).addr.toNat % pageSize = 0 := by simpa [VirtAddr.isAligned] using ha
  rw [mapPage_eq ⟨k⟩ ⟨a⟩ ⟨a⟩ flags s hc ha hpage]
  by_cases hlow : IsLow ⟨a⟩
  · rw [walkCreate_blocked (blocked_low h.built.owned h.boot.low hlow)]
    exact ⟨place, s, h.ask_low hlow, .inl ⟨.inl hlow, .inr rfl⟩⟩
  · have hopen := h.open_above hc ha hlow
    obtain ⟨place', s', hbuilt, hg, hres⟩ := h.built.walkCreate (VirtAddr.mk a).tablePath h.boot.root (by rfl) hopen
    have hdraft : drafted (asked ++ [a]) =
        serve bootstrapTableCount (drafted asked) (pathsDown [] (VirtAddr.mk a).tablePath) := by
      rw [drafted_snoc, tablesFor, if_neg hlow]
    rw [← hdraft] at hbuilt hres
    have hsame : reach s'.tables k (VirtAddr.mk a).path = reach s.tables k (VirtAddr.mk a).path :=
      hg.reach_eq (j := (VirtAddr.mk a).pml4Index)
        (q := [(VirtAddr.mk a).pdptIndex, (VirtAddr.mk a).pdIndex, (VirtAddr.mk a).ptIndex]) h.boot.root rfl
        (kernel_owns _ _)
    rw [List.nil_append] at hres
    apply hres.elim
    · rintro ⟨pt, hwalk, hpt⟩
      have htable := (hbuilt.tables _).mp ⟨pt, hpt⟩
      rw [hwalk]
      dsimp only
      by_cases hpres : (s'.tables pt (VirtAddr.mk a).ptIndex).isPresent = true
      · rw [if_pos hpres]
        have hreach : reach s'.tables k (VirtAddr.mk a).path ≠ none := by
          rw [ne_eq, hbuilt.owned.reach_leaf hpt, hpres]
          decide
        exact ⟨place', s', h.ask_grown hbuilt hg (iff_of_true hreach htable), .inl ⟨.inr htable, .inr rfl⟩⟩
      · rw [if_neg hpres]
        have habs : (s'.tables pt (VirtAddr.mk a).ptIndex).isPresent = false := by simpa using hpres
        exact ⟨place', _, h.ask_mapped hc ha hbuilt hg hpt habs hflags, .inl ⟨.inr htable, .inl rfl⟩⟩
    · rintro ⟨hwalk, hmissing⟩
      rw [hwalk]
      have hreach : ¬reach s'.tables k (VirtAddr.mk a).path ≠ none := by
        rw [hsame, h.mapped hc ha hlow]
        exact fun hold => hmissing (subset_drafted _ _ hold.2)
      exact ⟨place', s', h.ask_grown hbuilt hg (iff_of_false hreach hmissing),
        .inr ⟨fun hstands => hstands.elim hlow hmissing, rfl⟩⟩

end Drawn

namespace Drawn

variable {k : U64} {F : Finset U64} {c : ℕ} {asked : List U64} {place : Placement} {s : PageMemory}
  {flags : PageTableFlags}

theorem mapPages (l : List U64) (h : Drawn k F c asked place s) (hflags : LeafFlags flags)
    (hl : ∀ a ∈ l, (VirtAddr.mk a).isAligned = true ∧ a.toNat < 2 ^ 47) :
    ∃ place', Drawn k F c (asked ++ l) place'
      (l.foldl (fun s curr => (Paging.mapPage ⟨k⟩ (canonicalVirt curr) ⟨curr⟩ flags s).2) s) := by
  induction l generalizing asked place s with
  | nil => exact ⟨place, by rw [List.append_nil]; exact h⟩
  | cons a l ih =>
    obtain ⟨hal, hbelow⟩ := hl a List.mem_cons_self
    have hc : isCanonical a = true := (isCanonical_iff a).mpr (.inl hbelow)
    obtain ⟨place₁, s₁, h₁, hres⟩ := h.mapPage hc hal hflags
    have hnext : (Paging.mapPage ⟨k⟩ (canonicalVirt a) ⟨a⟩ flags s).2 = s₁ := by
      rw [canonicalVirt_below hbelow]
      apply hres.elim
      · rintro ⟨-, he | he⟩
        · rw [he]
        · rw [he]
      · rintro ⟨-, he⟩
        rw [he]
    rw [List.foldl_cons, hnext, List.append_cons]
    exact ih h₁ fun b hb => hl b (List.mem_cons_of_mem a hb)

theorem mapMmioPages (l : List U64) (h : Drawn k F c asked place s) (hl : ∀ a ∈ l, (VirtAddr.mk a).isAligned = true) :
    ∃ place', (Vmm.mapMmioPages ⟨k⟩ l s).1 = (askPages asked l).1 ∧
      Drawn k F c (askPages asked l).2 place' (Vmm.mapMmioPages ⟨k⟩ l s).2 := by
  induction l generalizing asked place s with
  | nil => exact ⟨place, rfl, h⟩
  | cons a l ih =>
    have hal := hl a List.mem_cons_self
    have hrest : ∀ b ∈ l, (VirtAddr.mk b).isAligned = true := fun b hb => hl b (List.mem_cons_of_mem a hb)
    rw [Vmm.mapMmioPages, askPages]
    by_cases hc : isCanonical a = true
    · rw [if_pos hc]
      obtain ⟨place₁, s₁, h₁, hres⟩ := h.mapPage hc hal (show LeafFlags PageTableFlags.mmio from ⟨by decide, by decide⟩)
      apply hres.elim
      · rintro ⟨hstands, he | he⟩
        · rw [if_pos hstands, he]
          exact ih h₁ hrest
        · rw [if_pos hstands, he]
          exact ih h₁ hrest
      · rintro ⟨hrefused, he⟩
        rw [if_neg hrefused, he]
        exact ⟨place₁, rfl, h₁⟩
    · have he : Paging.mapPage ⟨k⟩ ⟨a⟩ ⟨a⟩ PageTableFlags.mmio s = (.error .nonCanonicalAddress, s) := by
        rw [Paging.mapPage, if_pos (by simpa using hc)]
      rw [if_neg hc, he]
      exact ⟨place, rfl, h⟩

end Drawn

/-- The kernel while booting is where the plan says. -/
structure Planned (info : BootInfo) (r : U64) (plan : BootPlan) (k : Kernel) : Prop where
  drawn : ∃ place, Drawn r info.frames info.count plan.asked place k.mem
  vmm : k.vmm = plan.vmm
  root : k.rootPml4 = ⟨r⟩

namespace Planned

variable {info : BootInfo} {r : U64} {plan : BootPlan} {k : Kernel}

theorem mapMemoryRegion (h : Planned info r plan k) {region : MemoryRegion} (hbelow : region.physicalEnd.toNat ≤ 2 ^ 47) :
    Planned info r (plan.addRegion region) (Vmm.mapMemoryRegion ⟨r⟩ k region) := by
  obtain ⟨place, hd⟩ := h.drawn
  have hflags : LeafFlags (regionFlags region) := by
    unfold regionFlags
    split
    · exact ⟨by decide, by decide⟩
    · exact ⟨by decide, by decide⟩
  refine ⟨hd.mapPages (regionPages region) hflags fun a ha => ?_, ?_, h.root⟩
  · obtain ⟨hal, hlt⟩ := mem_pages ha
    exact ⟨hal, hlt.trans_le (pageEnd_below hbelow)⟩
  · change (registerRegion (mapRegionOf region) k.vmm).2 = _
    rw [h.vmm]
    rfl

theorem identityMapMmio (h : Planned info r plan k) (base size : U64) :
    Planned info r (plan.addDevice base size) (Vmm.identityMapMmio ⟨r⟩ base size k) := by
  obtain ⟨place, hd⟩ := h.drawn
  have hpages := hd.mapMmioPages (mmioPages base size) fun a ha => (mem_pages ha).1
  simp only [Vmm.identityMapMmio, BootPlan.addDevice]
  change ∃ place', (Vmm.mapMmioPages ⟨r⟩ (pageRange (pageDown base) (pageDown (base + size + 0xFFF#64))) k.mem).1 = _ ∧
    Drawn r info.frames info.count _ place'
      (Vmm.mapMmioPages ⟨r⟩ (pageRange (pageDown base) (pageDown (base + size + 0xFFF#64))) k.mem).2 at hpages
  generalize Vmm.mapMmioPages ⟨r⟩ (pageRange (pageDown base) (pageDown (base + size + 0xFFF#64))) k.mem = mapped at hpages ⊢
  generalize askPages plan.asked (mmioPages base size) = planned at hpages ⊢
  obtain ⟨ok, mem⟩ := mapped
  obtain ⟨ok', asked⟩ := planned
  obtain ⟨place', hok, hd'⟩ := hpages
  dsimp only at hok hd'
  subst hok
  cases ok with
  | false => exact ⟨⟨place', hd'⟩, h.vmm, h.root⟩
  | true =>
    refine ⟨⟨place', hd'⟩, ?_, h.root⟩
    change (registerRegion (mmioRegionOf base size) k.vmm).2 = _
    rw [h.vmm]

theorem mapBootRegions (h : Planned info r ⟨[], .new⟩ k) (hbelow : info.Mappable) :
    Planned info r info.plan (Vmm.mapBootRegions info ⟨r⟩ k) := by
  have hregions : ∀ (l : List MemoryRegion) (plan : BootPlan) (k : Kernel), (∀ region ∈ l, region ∈ info.map.regions) →
      Planned info r plan k → Planned info r (l.foldl BootPlan.addRegion plan) (l.foldl (Vmm.mapMemoryRegion ⟨r⟩) k) := by
    intro l
    induction l with
    | nil => exact fun _ _ _ hk => hk
    | cons region l ih =>
      intro plan k hl hk
      exact ih _ _ (fun q hq => hl q (List.mem_cons_of_mem region hq))
        (hk.mapMemoryRegion (hbelow region (hl region List.mem_cons_self)))
  have hmap := hregions info.map.regions ⟨[], .new⟩ k (fun _ hr => hr) h
  have hdevices := (hmap.identityMapMmio info.lapicBase (BitVec.ofNat 64 pageSize)).identityMapMmio info.ioapicBase
    (BitVec.ofNat 64 pageSize)
  unfold Vmm.mapBootRegions BootInfo.plan BootInfo.devices
  cases info.framebuffer with
  | none => exact hdevices
  | some b => exact hdevices.identityMapMmio b.1 b.2

end Planned

section Boot

variable {info : BootInfo} {k : Kernel}

/-- Where step 0 left no table, nothing is mapped. -/
theorem LowInv.vacant {r : U64} {F : Finset U64} {c n : ℕ} {s₀ s : PageMemory} {place : Placement} {v : VirtAddr}
    (h : LowInv r F c s₀ n place s) (hlow : ¬IsLow v) : reach s.tables r v.path = none := by
  have hlink {a : U64} {p : Path} (i : Fin 512) (ha : place a = some (r, p)) (hlen : p.length < 2)
      (hp : p ++ [i] ∉ lowPaths) : (s.tables a i).isPresent = false := by
    by_contra hpres
    have hpres : (s.tables a i).isPresent = true := by simpa using hpres
    have hsmall : (s.tables a i).isHuge = false := by
      by_contra hhuge
      have hdepth := (h.owned.huge ha (by omega) hpres (by simpa using hhuge)).2.1
      omega
    have hb := h.owned.follow ha (by omega) (kernel_owns _ _) (PageTableEntry.link_eq_some.mpr ⟨hpres, hsmall, rfl⟩)
    exact hp (h.paths hb).2
  change reach s.tables r (v.pml4Index :: v.pdptIndex :: [v.pdIndex, v.ptIndex]) = none
  by_cases h4 : v.pml4Index = 0
  · have h3 : 4 ≤ v.pdptIndex.val := by
      by_contra hsmall
      have hzero := congrArg Fin.val h4
      rw [VirtAddr.pml4Index, VirtAddr.index_val, Fin.val_zero] at hzero
      rw [VirtAddr.pdptIndex, VirtAddr.index_val] at hsmall
      apply hlow
      unfold IsLow
      omega
    by_cases hpres : (s.tables r v.pml4Index).isPresent = true
    · have hsmall : (s.tables r v.pml4Index).isHuge = false := by
        by_contra hhuge
        have hdepth := (h.owned.huge h.root (by simp) hpres (by simpa using hhuge)).2.1
        simp at hdepth
      have hb := h.owned.follow h.root (by simp) (kernel_owns _ _) (PageTableEntry.link_eq_some.mpr ⟨hpres, hsmall, rfl⟩)
      have habs := hlink v.pdptIndex hb (by simp) (by
        rw [h4]
        simp only [List.nil_append, List.cons_append, lowPaths, Finset.mem_insert, Finset.mem_singleton, List.cons.injEq,
          Fin.ext_iff, reduceCtorEq, true_and, and_true, and_false, false_or]
        have h1 : (1 : Fin 512).val = 1 := rfl
        have h2 : (2 : Fin 512).val = 2 := rfl
        have h3 : (3 : Fin 512).val = 3 := rfl
        rw [Fin.val_zero, h1, h2, h3]
        omega)
      rw [reach, if_pos hpres, if_neg (by simp [hsmall]), reach_absent habs, Option.map_none]
    · exact reach_absent (by simpa using hpres) _
  · apply reach_absent
    apply hlink v.pml4Index h.root (by simp)
    simp [lowPaths, h4]

theorem drafted_nil : drafted [] = lowPaths := rfl

theorem BootInfo.Loaded.planned (h : info.Loaded) :
    ∃ r mem, allocateBootstrapTable info.kernel.mem = (some ⟨r⟩, mem) ∧
      Planned info r ⟨[], .new⟩ { info.kernel with mem := mapLowMemory ⟨r⟩ mem, rootPml4 := ⟨r⟩ } := by
  obtain ⟨r, mem, place, he, -, hpmm, hsame, hrun⟩ := h.lowTables
  refine ⟨r, mem, he, ⟨place, ?_⟩, rfl, rfl⟩
  generalize mapLowMemory ⟨r⟩ mem = s at hrun ⊢
  have hboot : BootInv r info.frames info.count place s := by
    refine ⟨hrun.owned, hrun.root, fun i3 i2 hi => hrun.done i3 i2 (by omega), fun ha => ?_⟩
    obtain ⟨hr, hp⟩ := hrun.paths ha
    exact ⟨hr, (lowPaths_length hp).trans (by decide)⟩
  refine ⟨⟨hrun.owned, hrun.since.mode.trans hsame.mode, ?_, fun ha => (hrun.paths ha).1, fun p => ?_⟩, hboot,
    fun {a} hc ha hlow => ?_, fun {a} hc ha hlow hmapped => absurd (hrun.vacant hlow) hmapped⟩
  · rw [hrun.pmm, hpmm]
    rfl
  · rw [drafted_nil]
    constructor
    · rintro ⟨a, ha⟩
      exact (hrun.paths ha).2
    · intro hp
      have hdir (i3 : Fin 512) (hi : i3.val < 4) : ∃ a, place a = some (r, [0, i3]) := by
        obtain ⟨pd, a, hpd, -⟩ := hrun.done i3 0 (by simp only [Fin.val_zero]; omega)
        exact ⟨pd, hpd⟩
      obtain ⟨pd, hpd⟩ := hdir 0 (by decide)
      obtain ⟨pdpt, hpdpt, -⟩ := hrun.owned.forest.parent (show place pd = some (r, [0] ++ [0]) from hpd)
      simp only [lowPaths, Finset.mem_insert, Finset.mem_singleton] at hp
      rcases hp with rfl | rfl | rfl | rfl | rfl | rfl
      · exact ⟨r, hrun.root⟩
      · exact ⟨pdpt, hpdpt⟩
      · exact hdir 0 (by decide)
      · exact hdir 1 (by decide)
      · exact hdir 2 (by decide)
      · exact hdir 3 (by decide)
  · rw [hrun.vacant hlow]
    simp

/-- Step 5 links tables without a leaf below them. -/
theorem BootInv.createKernelHalf_reach {r : U64} {F : Finset U64} {c : ℕ} {place : Placement} {s s' : PageMemory}
    (slots : List (Fin 512)) (h : BootInv r F c place s) (hrun : Vmm.createKernelHalf ⟨r⟩ slots s = some s')
    (v : VirtAddr) : reach s'.tables r v.path = reach s.tables r v.path := by
  induction slots generalizing place s with
  | nil =>
    rw [Vmm.createKernelHalf, Option.some.injEq] at hrun
    rw [hrun]
  | cons i slots ih =>
    obtain ⟨place₁, s₁, ho, hg, -, hres⟩ := h.owned.walkCreate_cases [i] h.root (by simp) (fun _ _ => kernel_owns _ _)
      (fun _ => rfl)
    rw [Vmm.createKernelHalf] at hrun
    simp only [walkCreate] at hres
    generalize hget : getOrCreateTable r i s = result at hres hrun
    obtain ⟨result, t⟩ := result
    cases result with
    | error e => cases hrun
    | ok b =>
      simp only [Prod.mk.injEq, Except.ok.injEq, reduceCtorEq, false_and, or_false] at hres hrun
      obtain ⟨b', ⟨-, rfl⟩, -⟩ := hres
      rw [ih (h.grows ho hg) hrun]
      exact hg.reach_eq (j := v.pml4Index) (q := [v.pdptIndex, v.pdIndex, v.ptIndex]) h.root rfl (kernel_owns _ _)

/-- After `vmm::init` the region table is the planned one, and above 4 GiB the kernel root maps the
pages asked for whose page tables were served. -/
theorem init_planned (hload : info.Loaded) (hbelow : info.Mappable) (hrun : init info info.kernel = some k) :
    k.vmm = info.plan.vmm ∧
      ∀ a, isCanonical a = true → (VirtAddr.mk a).isAligned = true → ¬IsLow ⟨a⟩ →
        walkAddress k.mem.tables k.rootPml4.addr ⟨a⟩ =
          if a ∈ info.plan.asked ∧ (VirtAddr.mk a).tablePath ∈ drafted info.plan.asked then some (frameBits a) else none := by
  obtain ⟨r, mem, he, hstart⟩ := hload.planned
  have hplanned := hstart.mapBootRegions hbelow
  obtain ⟨place, hd⟩ := hplanned.drawn
  rw [init_eq he] at hrun
  obtain ⟨mem', hhalf, rfl⟩ := Option.map_eq_some_iff.mp hrun
  have hswitched : BootInv r info.frames info.count place (switchTables info ⟨r⟩ { info.kernel with mem := mem }).mem :=
    ⟨setMode hd.boot.owned false, hd.boot.root, hd.boot.low, hd.boot.shape⟩
  have hroot : (switchTables info ⟨r⟩ { info.kernel with mem := mem }).rootPml4 = ⟨r⟩ := hplanned.root
  refine ⟨hplanned.vmm, fun a hc ha hlow => ?_⟩
  dsimp only
  rw [hroot, walkAddress_of_reach (hswitched.createKernelHalf_reach kernelSlots hhalf _)]
  split_ifs with hplan
  · exact hd.frame hc ha hlow ((hd.mapped hc ha hlow).mpr hplan)
  · have hnone : reach (mapBootRegions info ⟨r⟩ { info.kernel with mem := mapLowMemory ⟨r⟩ mem, rootPml4 := ⟨r⟩ }).mem.tables r
        (VirtAddr.mk a).path = none := by
      by_contra hmapped
      exact hplan ((hd.mapped hc ha hlow).mp hmapped)
    change walkAddress (mapBootRegions info ⟨r⟩ { info.kernel with mem := mapLowMemory ⟨r⟩ mem, rootPml4 := ⟨r⟩ }).mem.tables r
      ⟨a⟩ = none
    rw [walkAddress, hardwareWalk_eq, if_pos hc, hnone]
    rfl

end Boot

end VenturaOS.Vmm
