import VenturaOS.Machine.BootMapping
import VenturaOS.Machine.Persistence

/-!
# What a new address space sees of the boot mappings

Booting places a page by its address, a new space copies slots of the root.
The two agree as long as no page was mapped in slots 1 to 255, that is
between 512 GiB and 128 TiB.
-/
namespace VenturaOS.Machine
open Library Memory Pmm Paging Vmm AddressSpaces

section Pages

variable {tables : U64 → PageTable} {r : U64} {v w : VirtAddr}

theorem readAddress_none {entries : List PageTableEntry} : readAddress v entries = none ↔ readAddress w entries = none := by
  match entries with
  | [] => rfl
  | [_] => rfl
  | [_, _] => simp [readAddress, leafAddress]
  | [_, _, _] => simp [readAddress, leafAddress]
  | [_, _, _, _] => simp [readAddress, leafAddress]
  | _ :: _ :: _ :: _ :: _ :: _ => rfl

/-- Addresses of one page are mapped together. -/
theorem walkAddress_none (hc : isCanonical v.addr = true) (hw : isCanonical w.addr = true) (hpath : v.path = w.path) :
    walkAddress tables r v = none ↔ walkAddress tables r w = none := by
  rw [walkAddress, walkAddress, Option.map_eq_none_iff, Option.map_eq_none_iff, hardwareWalk_eq, hardwareWalk_eq,
    if_pos hc, if_pos hw, hpath]
  cases reach tables r w.path with
  | none => rfl
  | some entries =>
    rw [Option.bind_some, Option.bind_some, Option.map_eq_none_iff, Option.map_eq_none_iff]
    exact readAddress_none

/-- A page whose walk succeeds has its entries. -/
theorem reach_of_walkAddress {x : U64} (h : walkAddress tables r v = some x) :
    isCanonical v.addr = true ∧ reach tables r v.path ≠ none := by
  rw [walkAddress, hardwareWalk_eq] at h
  split_ifs at h with hc
  · refine ⟨hc, fun hnone => ?_⟩
    rw [hnone] at h
    cases h
  · cases h

theorem walkAddress_absent (h : (tables r v.pml4Index).isPresent = false) : walkAddress tables r v = none := by
  have hreach : reach tables r v.path = none := by
    rw [show v.path = v.pml4Index :: [v.pdptIndex, v.pdIndex, v.ptIndex] from rfl]
    exact reach_absent h _
  rw [walkAddress, hardwareWalk_eq, hreach, Option.bind_none, ite_self, Option.map_none]

def pageOf (v : VirtAddr) : U64 := pageDown v.addr

theorem pageOf_spec (hc : isCanonical v.addr = true) :
    isCanonical (pageOf v) = true ∧ (VirtAddr.mk (pageOf v)).isAligned = true ∧ (VirtAddr.mk (pageOf v)).path = v.path := by
  have hdown := pageDown_toNat v.addr
  refine ⟨?_, ?_, VirtAddr.path_eq_of_page ?_⟩
  · rw [isCanonical_iff] at hc ⊢
    rw [pageOf, hdown]
    omega
  · simp only [VirtAddr.isAligned, pageSize, beq_iff_eq, pageOf, hdown]
    omega
  · simp only [pageOf, hdown]
    omega

theorem not_shared_iff (hc : isCanonical v.addr = true) :
    isShared v.pml4Index = false ↔ 2 ^ 39 ≤ v.addr.toNat ∧ v.addr.toNat < 2 ^ 47 := by
  rw [isCanonical_iff] at hc
  have hlt := v.addr.isLt
  rw [isShared, Bool.or_eq_false_iff, decide_eq_false_iff_not, decide_eq_false_iff_not, Fin.ext_iff, VirtAddr.pml4Index,
    VirtAddr.index_val, kernelPml4Start, Fin.val_zero]
  omega

end Pages

section

variable {info : BootInfo} {k₀ k' : Kernel} {y : System} {space : AddressSpace}

/-- The slots of a new space that are not copied are empty. -/
theorem newSpace_vacant {k : Kernel} (hnew : AddressSpaces.new k = (.ok space, k')) {i : Fin 512}
    (hi : isShared i = false) : (k'.mem.tables space.rootPage.addr i).isPresent = false := by
  unfold AddressSpaces.new at hnew
  generalize allocatePage k.mem = taken at hnew
  rcases taken with ⟨_ | page, mem⟩
  · cases hnew
  · cases hnew
    change ((Function.update (Function.update mem.tables page.addr .zero) page.addr _ page.addr) i).isPresent = false
    rw [Function.update_self, hi, if_neg Bool.false_ne_true]
    change ((Function.update mem.tables page.addr .zero page.addr) i).isPresent = false
    rw [Function.update_self]
    exact PageTableEntry.empty_isPresent

/-- In the shared slots a new space sees all that boot has mapped. -/
theorem shared_visible {ops : List Op} (hload : info.Loaded) (hinit : Vmm.init info info.kernel = some k₀)
    (hrun : Run LiveStep (System.start k₀) ops y) (hnew : AddressSpaces.new y.kernel = (.ok space, k')) {v : VirtAddr}
    {x : U64} (hv : isShared v.pml4Index = true) (hmapped : walkAddress k₀.mem.tables k₀.rootPml4.addr v = some x) :
    walkAddress k'.mem.tables space.rootPage.addr v = some x := by
  have hrun' := hrun.append (.single ⟨.newSpace hnew, trivial⟩)
  obtain ⟨place, h⟩ := Reachable.inv hload ⟨k₀, _, hinit, hrun'⟩
  have hlast := lasting_run hload hinit hrun'
  have hlive : space.ownsRoot = true := by
    obtain ⟨place, h⟩ := Reachable.inv hload ⟨k₀, _, hinit, hrun⟩
    obtain ⟨place', -, howns, -⟩ := h.newSpace hnew
    exact howns
  have hroot := h.tables.agree (List.mem_append_right _ List.mem_cons_self) hlive v.pml4Index hv
  have hwalk := hardwareWalk_root hroot
  have hkept := walkAddress_of_reach (hlast.shared v hv (reach_of_walkAddress hmapped).2)
  rw [walkAddress, hwalk, hlast.root]
  exact hkept.trans hmapped

/-- Everything boot mapped is visible in every new space just when no page between 512 GiB and 128 TiB got its
page table. -/
theorem boot_pages_visible_iff {ops : List Op} (hload : info.Loaded) (hbelow : info.Mappable)
    (hinit : Vmm.init info info.kernel = some k₀) (hrun : Run LiveStep (System.start k₀) ops y)
    (hnew : AddressSpaces.new y.kernel = (.ok space, k')) :
    (∀ v x, walkAddress k₀.mem.tables k₀.rootPml4.addr v = some x →
      walkAddress k'.mem.tables space.rootPage.addr v = some x) ↔
    ∀ a ∈ info.plan.asked, 2 ^ 39 ≤ a.toNat → a.toNat < 2 ^ 47 → ¬Served info.plan.asked a := by
  have hplanned := (init_planned hload hbelow hinit).2
  have hhigh {v : VirtAddr} (hv : isShared v.pml4Index = false) : ¬IsLow v := by
    intro hlow
    rw [hlow.index.1] at hv
    cases hv
  constructor
  · intro hvisible a ha hlarge hsmall hserved
    have hc : isCanonical a = true := (isCanonical_iff a).mpr (.inl hsmall)
    have hslot : isShared (VirtAddr.mk a).pml4Index = false := (not_shared_iff hc).mpr ⟨hlarge, hsmall⟩
    have hwalk := hplanned a hc (asked_aligned ha) (hhigh hslot)
    rw [if_pos ⟨ha, (mem_drafted_iff (hhigh hslot)).mpr hserved⟩] at hwalk
    have hseen := hvisible ⟨a⟩ _ hwalk
    rw [walkAddress_absent (newSpace_vacant hnew hslot)] at hseen
    cases hseen
  · intro hnone v x hmapped
    cases hv : isShared v.pml4Index with
    | true => exact shared_visible hload hinit hrun hnew hv hmapped
    | false =>
      exfalso
      obtain ⟨hc, -⟩ := reach_of_walkAddress hmapped
      obtain ⟨hcp, hal, hpath⟩ := pageOf_spec hc
      have hslot : isShared (VirtAddr.mk (pageOf v)).pml4Index = false := by
        rw [(List.cons.inj hpath).1]
        exact hv
      obtain ⟨hlarge, hsmall⟩ := (not_shared_iff hcp).mp hslot
      have hwalk := hplanned (pageOf v) hcp hal (hhigh hslot)
      rw [if_neg fun hplan => hnone _ hplan.1 hlarge hsmall ((mem_drafted_iff (hhigh hslot)).mp hplan.2)] at hwalk
      have habsent := (walkAddress_none hcp hc hpath).mp hwalk
      rw [hmapped] at habsent
      cases habsent

end

/-- The sample machine, which maps the low 4 GiB only. -/
theorem boot_pages_visible_sample : ∃ k₀ space k', init sampleInfo sampleInfo.kernel = some k₀ ∧
    AddressSpaces.new k₀ = (.ok space, k') ∧ ∀ v x, walkAddress k₀.mem.tables k₀.rootPml4.addr v = some x →
      walkAddress k'.mem.tables space.rootPage.addr v = some x := by
  obtain ⟨k₀, hk⟩ := sampleInfo_boots
  obtain ⟨place, h, -⟩ := Inv.start (init_booted sampleInfo_loaded hk)
  have hfree := (init_booted sampleInfo_loaded hk).free
  rw [sampleInfo_frames] at hfree
  obtain ⟨space, k', hnew, -⟩ := h.newSpace_ok (Finset.card_pos.mp (by change 0 < k₀.mem.pmm.freeFrames.card; omega))
  refine ⟨k₀, space, k', hk, hnew, ?_⟩
  refine (boot_pages_visible_iff sampleInfo_loaded sampleInfo_mappable hk (.nil _) hnew).mpr fun a ha hlarge _ _ => ?_
  have hlow := asked_low sampleInfo_low ha
  omega

section Far

/-- The sample machine with a framebuffer at 512 GiB. -/
def farInfo : BootInfo := { sampleInfo with framebuffer := some (0x8000000000, 0x1000) }

theorem farInfo_loaded : farInfo.Loaded :=
  ⟨sampleInfo_loaded.fits, sampleInfo_loaded.nonnull, sampleInfo_loaded.aligned, sampleInfo_loaded.addressable,
    sampleInfo_loaded.reserved⟩

theorem farInfo_mappable : farInfo.Mappable := sampleInfo_mappable

theorem farInfo_asked : farInfo.plan.asked = sampleInfo.plan.asked ++ [0x8000000000] := by
  rw [farInfo, plan_framebuffer rfl]
  exact addDevice_page (by decide) (by decide)

theorem farInfo_served : Served farInfo.plan.asked 0x8000000000 := by
  rw [farInfo_asked]
  exact served_first (asked_isLow sampleInfo_low) _

/-- The framebuffer is mapped in the kernel root and not in the first address space. -/
theorem framebuffer_invisible : ∃ k₀ space k', init farInfo farInfo.kernel = some k₀ ∧
    AddressSpaces.new k₀ = (.ok space, k') ∧
    walkAddress k₀.mem.tables k₀.rootPml4.addr ⟨0x8000000000⟩ = some 0x8000000000 ∧
    walkAddress k'.mem.tables space.rootPage.addr ⟨0x8000000000⟩ = none := by
  have hframes : farInfo.frames.card = 1024 := sampleInfo_frames
  obtain ⟨k₀, hk⟩ := init_some farInfo_loaded (by rw [hframes]; omega)
  obtain ⟨place, h, -⟩ := Inv.start (init_booted farInfo_loaded hk)
  have hfree := (init_booted farInfo_loaded hk).free
  rw [hframes] at hfree
  obtain ⟨space, k', hnew, -⟩ := h.newSpace_ok (Finset.card_pos.mp (by change 0 < k₀.mem.pmm.freeFrames.card; omega))
  refine ⟨k₀, space, k', hk, hnew, ?_, walkAddress_absent (newSpace_vacant hnew (by decide))⟩
  rw [page_mapped_iff farInfo_loaded farInfo_mappable hk (by decide)]
  have hasked : (0x8000000000 : U64) ∈ farInfo.plan.asked := by
    rw [farInfo_asked]
    exact List.mem_append_right _ List.mem_cons_self
  exact .inr ⟨by decide, hasked, farInfo_served⟩

end Far

end VenturaOS.Machine
