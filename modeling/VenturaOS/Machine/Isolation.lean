import VenturaOS.Machine.Steps

/-!
# What address spaces share and what they do not

From any reachable state: a call on one space leaves every table of the
others in place, the kernel half is the same in all of them, and CR3 is on
live tables. The low identity map holds in every root, the first page
included.
-/
namespace VenturaOS.Machine
open Library Memory Pmm Paging Vmm AddressSpaces

/-- The root tables in use: the kernel's and those of live spaces. -/
def System.IsRoot (y : System) (r : U64) : Prop :=
  r = y.kernel.rootPml4.addr ∨ ∃ space ∈ y.spaces, space.ownsRoot = true ∧ space.rootPage.addr = r

section Reach

variable {F : Finset U64} {c : ℕ} {root r : U64} {spaces : List AddressSpace} {clients : Finset U64}
  {place place' : Placement} {s s' : PageMemory}

/-- A table reachable from a root stands below it, or below the kernel root in a shared slot. -/
theorem Tables.tableAt (h : Tables F c root spaces clients place s) {space : AddressSpace} (hm : space ∈ spaces)
    (hl : space.ownsRoot = true) {d : ℕ} {a : U64} (ha : TableAt s.tables space.rootPage.addr d a) :
    ∃ p : Path, p.length = d ∧
      (place a = some (space.rootPage.addr, p) ∨ (place a = some (root, p) ∧ p ≠ [])) := by
  rcases h.live hm hl with ⟨hplaced, hne⟩
  induction ha with
  | root => exact ⟨[], rfl, .inl hplaced⟩
  | @link d a b i ha hd hlink ih =>
    rcases ih with ⟨p, hp, hown | ⟨hshared, hnil⟩⟩
    · by_cases hslot : (kernelPolicy root F).Owns space.rootPage.addr p i
      · exact ⟨p ++ [i], by simp [hp], .inl (h.owned.follow hown (by omega) hslot hlink)⟩
      · -- a shared slot of the space's root: the kernel root has the same entry
        rw [Policy.Owns, Classical.not_imp] at hslot
        rcases hslot with ⟨rfl, hslot⟩
        have hroot := h.owned.forest.root_self hown
        subst hroot
        have hi : isShared i = true := by
          simp only [kernelPolicy, decide_eq_true_eq, not_or, not_and_or, not_not, not_lt] at hslot
          simp only [isShared, Bool.or_eq_true, decide_eq_true_eq]
          exact hslot.2
        rw [h.agree hm hl i hi] at hlink
        exact ⟨[i], by simp [← hp], .inr ⟨h.owned.follow h.rooted (by simp) (kernel_owns _ _) hlink, by simp⟩⟩
    · exact ⟨p ++ [i], by simp [hp], .inr ⟨h.owned.follow hshared (by omega) (kernel_owns _ _) hlink, by simp⟩⟩

theorem Tables.tableAt_kernel (h : Tables F c root spaces clients place s) {d : ℕ} {a : U64}
    (ha : TableAt s.tables root d a) : ∃ p : Path, p.length = d ∧ place a = some (root, p) := by
  induction ha with
  | root => exact ⟨[], rfl, h.rooted⟩
  | @link d a b i ha hd hlink ih =>
    rcases ih with ⟨p, hp, hown⟩
    exact ⟨p ++ [i], by simp [hp], h.owned.follow hown (by omega) (kernel_owns _ _) hlink⟩

end Reach

section

variable {info : BootInfo} {y y' : System} {op : Op} {i : ℕ} {space : AddressSpace}

/-- Mapping and unmapping change tables below the space's own root only. -/
theorem Inv.space_call {place : Placement} (h : Inv info place y) (hi : y.spaces[i]? = some space)
    (hl : space.ownsRoot = true) (hop : op.OnSpace i) (hstep : Step y op y') :
    ∃ place', Inv info place' y' ∧ PrivateStep space.rootPage.addr place place' y.kernel.mem y'.kernel.mem ∧
      y'.spaces = y.spaces ∧ y'.clients = y.clients := by
  have hnz := (h.tables.live_frame (List.mem_of_getElem? hi) hl).2.2
  cases hstep with
  | @mapPage j _ v phys flags hj =>
    cases (show j = i from hop)
    rw [hi] at hj
    cases hj
    rcases h.mapPage_private (List.mem_of_getElem? hi) (fun _ => hnz) phys flags with ⟨place', mem, he, ho, hs⟩
    rw [he]
    exact ⟨place', h.privateCall ho hs, hs, rfl, rfl⟩
  | @unmapPage j _ v hj =>
    cases (show j = i from hop)
    rw [hi] at hj
    cases hj
    rcases h.unmapPage_private (List.mem_of_getElem? hi) (fun _ => hnz) with ⟨mem, he, ho, hs⟩
    rw [he]
    exact ⟨place, h.privateCall ho hs, hs, rfl, rfl⟩
  | _ => exact False.elim hop

/-- Isolation: a call on one space changes no table reachable from the kernel root or another live
space, so neither page walk sees it. -/
theorem isolation (hload : info.Loaded) (hy : Reachable info y) (hi : y.spaces[i]? = some space)
    (hl : space.ownsRoot = true) (hop : op.OnSpace i) (hstep : Step y op y') {r : U64}
    (hr : r = y.kernel.rootPml4.addr ∨
      ∃ j other, j ≠ i ∧ y.spaces[j]? = some other ∧ other.ownsRoot = true ∧ other.rootPage.addr = r) :
    (∀ d a, TableAt y.kernel.mem.tables r d a → y'.kernel.mem.tables a = y.kernel.mem.tables a) ∧
      ∀ v, hardwareWalk y'.kernel.mem.tables r v = hardwareWalk y.kernel.mem.tables r v := by
  rcases hy.inv hload with ⟨place, h⟩
  rcases h.space_call hi hl hop hstep with ⟨place', -, hs, -⟩
  have hne := (h.tables.live (List.mem_of_getElem? hi) hl).2
  have htables : ∀ d a, TableAt y.kernel.mem.tables r d a → y'.kernel.mem.tables a = y.kernel.mem.tables a := by
    intro d a ha
    rcases hr with rfl | ⟨j, other, hj, hother, hlo, rfl⟩
    · rcases h.tables.tableAt_kernel ha with ⟨p, -, hp⟩
      exact hs.other hp (Ne.symm hne)
    · rcases h.tables.tableAt (List.mem_of_getElem? hother) hlo ha with ⟨p, -, hp | ⟨hp, -⟩⟩
      · exact hs.other hp fun he => hj (h.tables.distinct hother hi hlo hl he)
      · exact hs.other hp (Ne.symm hne)
  exact ⟨htables, hardwareWalk_congr htables⟩

theorem isolation_sample : ∃ y y' a b, Reachable sampleInfo y ∧ y.spaces = [a, b] ∧
    Step y (.mapPage 0 ⟨0x8000000000⟩ ⟨0x200000⟩ .table) y' ∧
    ∀ v, hardwareWalk y'.kernel.mem.tables b.rootPage.addr v = hardwareWalk y.kernel.mem.tables b.rootPage.addr v := by
  rcases sample_spaces with ⟨y, a, b, hy, hsp, hla, hlb, -⟩
  have ha : y.spaces[0]? = some a := by rw [hsp]; rfl
  have hb : y.spaces[1]? = some b := by rw [hsp]; rfl
  have hstep : Step y (.mapPage 0 ⟨0x8000000000⟩ ⟨0x200000⟩ .table) _ := .mapPage ha
  have hon : Op.OnSpace 0 (.mapPage 0 ⟨0x8000000000⟩ ⟨0x200000⟩ .table) := rfl
  exact ⟨y, _, a, b, hy, hsp, hstep,
    (isolation sampleInfo_loaded hy ha hla hon hstep (.inr ⟨1, b, by simp, hb, hlb, rfl⟩)).2⟩

/-- The shared kernel half: same present entries in every live space, hence the same translations. -/
theorem kernel_half_shared (hload : info.Loaded) (hy : Reachable info y) (hm : space ∈ y.spaces)
    (hl : space.ownsRoot = true) :
    (∀ i, isShared i = true →
      y.kernel.mem.tables space.rootPage.addr i = y.kernel.mem.tables y.kernel.rootPml4.addr i ∧
        (y.kernel.mem.tables y.kernel.rootPml4.addr i).isPresent = true) ∧
      sharesKernelHalf space.rootPage y.kernel = true ∧
      ∀ v : VirtAddr, isShared v.pml4Index = true →
        translate y.kernel.mem.tables space.rootPage v = translate y.kernel.mem.tables y.kernel.rootPml4 v ∧
          hardwareWalk y.kernel.mem.tables space.rootPage.addr v =
            hardwareWalk y.kernel.mem.tables y.kernel.rootPml4.addr v := by
  rcases hy.inv hload with ⟨place, h⟩
  have hsame := h.tables.agree hm hl
  refine ⟨fun i hi => ⟨hsame i hi, h.tables.present i hi⟩, ?_, fun v hv => ?_⟩
  · rw [sharesKernelHalf, List.all_eq_true]
    intro i hi
    have hshared : isShared i = true := by
      simp only [kernelSlots, List.mem_filter, decide_eq_true_eq] at hi
      simp only [isShared, Bool.or_eq_true, decide_eq_true_eq]
      exact .inr hi.2
    rw [h.tables.present i hshared, hsame i hshared, Bool.true_and, decide_eq_true_eq]
  · exact ⟨translate_root (hsame _ hv), hardwareWalk_root (hsame _ hv)⟩

theorem kernel_half_shared_sample : ∃ y a b, Reachable sampleInfo y ∧ y.spaces = [a, b] ∧
    sharesKernelHalf b.rootPage y.kernel = true := by
  rcases sample_spaces with ⟨y, a, b, hy, hsp, -, hlb, -⟩
  exact ⟨y, a, b, hy, hsp, (kernel_half_shared sampleInfo_loaded hy (by simp [hsp]) hlb).2.1⟩

/-- CR3 is on live tables and `CURRENT_ASID` names the space they belong to. -/
theorem cr3_live (hload : info.Loaded) (hy : Reachable info y) :
    ((y.kernel.cr3 = y.kernel.rootPml4.addr ∧ y.kernel.currentAsid = (bootstrap y.kernel).id) ∨
      ∃ space ∈ y.spaces, space.ownsRoot = true ∧ space.rootPage.addr = y.kernel.cr3 ∧
        space.id = y.kernel.currentAsid ∧ y.kernel.mem.pmm.bit space.rootPage.pageNumber = true) ∧
      ∀ space ∈ y.spaces, space.ownsRoot = true → space.rootPage.addr = y.kernel.cr3 →
        space.id = y.kernel.currentAsid := by
  rcases hy.inv hload with ⟨place, h⟩
  constructor
  · refine h.active.imp_right fun ⟨space, hm, hl, hroot, hid⟩ => ⟨space, hm, hl, hroot, hid, ?_⟩
    rcases h.tables.live_frame hm hl with ⟨hF, hfree, -⟩
    rcases h.tables.owned.frames.managed _ hF with ⟨n, hn, -, hlt⟩
    have hbound := h.tables.owned.frames.bound
    have hnum : space.rootPage.pageNumber = n := by
      rw [PhysPage.pageNumber, hn, frame_toNat (by omega), pageSize]
      omega
    rw [hn, mem_freeFrames hbound hlt, Bool.not_eq_false] at hfree
    rw [hnum]
    exact hfree
  · intro space hm hl hroot
    rcases h.active with ⟨hk, -⟩ | ⟨sp, hsp, hsl, hsr, hid⟩
    · exact absurd (hroot.trans hk) (h.tables.live hm hl).2
    · rcases List.mem_iff_getElem?.mp hm with ⟨i, hi⟩
      rcases List.mem_iff_getElem?.mp hsp with ⟨j, hj⟩
      have hij := h.tables.distinct hi hj hl hsl (hroot.trans hsr.symm)
      subst hij
      rw [hi] at hj
      cases hj
      exact hid

theorem cr3_live_sample : ∃ y a b, Reachable sampleInfo y ∧ y.spaces = [a, b] ∧
    a.id = (activate a y.kernel).currentAsid ∧ (activate a y.kernel).cr3 = a.rootPage.addr := by
  rcases sample_spaces with ⟨y, a, b, hy, hsp, hla, -, hna, -⟩
  have hstep : Step y (.activate 0) { y with kernel := activate a y.kernel } := .activate (by rw [hsp]; rfl)
  have hcr3 : (activate a y.kernel).cr3 = a.rootPage.addr := by
    rw [activate, if_neg hna]
  exact ⟨y, a, b, hy, hsp, (cr3_live sampleInfo_loaded (hy.step ⟨hstep, trivial⟩)).2 a (by simp [hsp]) hla hcr3.symm, hcr3⟩

/-- Below 4 GiB the page walk of every root gives the address itself, through writable entries. -/
theorem Inv.low_walk {place : Placement} (h : Inv info place y) {r : U64} (hr : y.IsRoot r) {v : VirtAddr}
    (hv : v.addr.toNat < 2 ^ 32) :
    ∃ entries, hardwareWalk y.kernel.mem.tables r v = some (v.addr, entries) ∧
      ∀ e ∈ entries, e.isPresent = true ∧ e.isWritable = true := by
  have hlow : IsLow v := by
    unfold IsLow
    omega
  rcases hlow.index with ⟨h4, h3⟩
  have hkernel : hardwareWalk y.kernel.mem.tables r v =
      hardwareWalk y.kernel.mem.tables y.kernel.rootPml4.addr v := by
    rcases hr with rfl | ⟨space, hm, hl, rfl⟩
    · rfl
    · exact hardwareWalk_root (h.tables.agree hm hl _ (by rw [h4]; rfl))
  -- climb from the directory of the large page to the root
  rcases h.tables.low v.pdptIndex v.pdIndex h3 with ⟨pd, a, hpd, hlarge, ha⟩
  have howned := h.tables.owned
  rcases howned.forest.parent (show place pd = some (_, [0] ++ [v.pdptIndex]) from hpd) with ⟨pdpt, hpdpt, he3⟩
  rcases howned.forest.parent (show place pdpt = some (_, [] ++ [0]) from hpdpt) with ⟨root, hroot, he4⟩
  rw [howned.forest.root_self hroot, ← h4, Policy.edge_table (by simp) (kernel_owns _ _),
    PageTableEntry.link_eq_some] at he4
  rw [Policy.edge_table (by simp) (kernel_owns _ _), PageTableEntry.link_eq_some] at he3
  rcases he4 with ⟨hp4, hh4, e4⟩
  rcases he3 with ⟨hp3, hh3, e3⟩
  have hc : isCanonical v.addr = true := by
    rw [isCanonical_iff]
    omega
  have haddr : a.toNat = v.addr.toNat / 0x200000 * 0x200000 := by
    rw [ha, VirtAddr.pdptIndex, VirtAddr.pdIndex, VirtAddr.index_val, VirtAddr.index_val]
    omega
  refine ⟨[y.kernel.mem.tables y.kernel.rootPml4.addr v.pml4Index, y.kernel.mem.tables pdpt v.pdptIndex,
    largeEntry a], ?_, fun e he => ?_⟩
  · rw [hkernel, hardwareWalk, pageWalk]
    simp only [hc, hp4, hh4, e4, hp3, hh3, e3, hlarge, largeEntry_isPresent, largeEntry_isHuge, Bool.not_true,
      Bool.or_self, Bool.false_eq_true, if_false, if_true]
    rw [largeEntry_address haddr (by omega), Option.filter_some, reservedClear, largeEntry_reserved, beq_self_eq_true,
      if_pos rfl]
  · simp only [List.mem_cons, List.not_mem_nil, or_false] at he
    rcases he with rfl | rfl | rfl
    · exact ⟨hp4, (howned.upper h.tables.rooted (by simp) hp4).1⟩
    · exact ⟨hp3, (howned.upper hpdpt (by simp) hp3).1⟩
    · exact ⟨largeEntry_isPresent a, largeEntry_isWritable a⟩

/-- The low identity map holds in every root, and every frame the allocator hands out lies in it. -/
theorem low_identity_map (hload : info.Loaded) (hy : Reachable info y) :
    (∀ r, y.IsRoot r → ∀ v : VirtAddr, 4096 ≤ v.addr.toNat → v.addr.toNat < 2 ^ 32 →
      ∃ entries, hardwareWalk y.kernel.mem.tables r v = some (v.addr, entries) ∧
        ∀ e ∈ entries, e.isPresent = true ∧ e.isWritable = true) ∧
      ∀ page mem, allocatePage y.kernel.mem = (some page, mem) →
        4096 ≤ page.addr.toNat ∧ page.addr.toNat + 4096 ≤ 2 ^ 32 := by
  rcases hy.inv hload with ⟨place, h⟩
  refine ⟨fun r hr v _ hv => h.low_walk hr hv, fun page mem hrun => ?_⟩
  rcases h.tables.owned.allocatePage_cases with ⟨he, -⟩ | ⟨f, pmm, he, hfree, -⟩
  · rw [he] at hrun
    cases hrun
  · rw [he] at hrun
    cases hrun
    have haddr := h.tables.owned.frames.address (h.tables.owned.frames.free_subset hfree)
    simp only
    omega

theorem low_identity_map_sample : ∃ y a b, Reachable sampleInfo y ∧ y.spaces = [a, b] ∧
    ∃ entries, hardwareWalk y.kernel.mem.tables b.rootPage.addr ⟨0x1000⟩ = some (0x1000, entries) := by
  rcases sample_spaces with ⟨y, a, b, hy, hsp, -, hlb, -⟩
  have hroot : y.IsRoot b.rootPage.addr := .inr ⟨b, by simp [hsp], hlb, rfl⟩
  rcases (low_identity_map sampleInfo_loaded hy).1 _ hroot ⟨0x1000⟩ (by decide) (by decide) with ⟨entries, he, -⟩
  exact ⟨y, a, b, hy, hsp, entries, he⟩

/-- No page walk of the first page faults, in any root of any reachable state. -/
theorem null_page_mapped (hload : info.Loaded) (hy : Reachable info y) {r : U64} (hr : y.IsRoot r) {v : VirtAddr}
    (hv : v.addr.toNat < 4096) : hardwareWalk y.kernel.mem.tables r v ≠ none := by
  rcases hy.inv hload with ⟨place, h⟩
  rcases h.low_walk hr (v := v) (by omega) with ⟨entries, he, -⟩
  rw [he]
  simp

theorem null_page_mapped_sample : ∃ y a b, Reachable sampleInfo y ∧ y.spaces = [a, b] ∧
    hardwareWalk y.kernel.mem.tables b.rootPage.addr ⟨0xFFF⟩ ≠ none := by
  rcases sample_spaces with ⟨y, a, b, hy, hsp, -, hlb, -⟩
  exact ⟨y, a, b, hy, hsp, null_page_mapped sampleInfo_loaded hy (.inr ⟨b, by simp [hsp], hlb, rfl⟩) (by decide)⟩

/-- Right after boot a read through a null pointer is translated. -/
theorem null_page_walk : ∃ k, init sampleInfo sampleInfo.kernel = some k ∧
    ∃ entries, hardwareWalk k.mem.tables k.rootPml4.addr ⟨0⟩ = some (0, entries) := by
  rcases sampleInfo_boots with ⟨k, hk⟩
  rcases Inv.start (init_booted sampleInfo_loaded hk) with ⟨place, h, -⟩
  rcases h.low_walk (v := ⟨0⟩) (.inl rfl) (by decide) with ⟨entries, he, -⟩
  exact ⟨k, hk, entries, he⟩

end
end VenturaOS.Machine
