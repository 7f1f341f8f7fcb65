import VenturaOS.Vmm.Rollback

/-!
# When a batch of mappings succeeds

A run of at most 128 pages lies below at most two directories and two page
tables. With the tables of the upper half's slots in place, four free frames
besides those for the pages are enough to map a vacant run.
-/
namespace VenturaOS.Vmm
open Library Pmm Paging Memory

/-- The directory of a page, by its path. -/
def directoryPath (v : VirtAddr) : Path := [v.pml4Index, v.pdptIndex]

section Paths

variable {v w : VirtAddr}

theorem directoryPath_eq (h : v.addr.toNat / 2 ^ 21 = w.addr.toNat / 2 ^ 21) : directoryPath v = directoryPath w := by
  simp only [directoryPath, List.cons.injEq, and_true, Fin.ext_iff, VirtAddr.pml4Index, VirtAddr.pdptIndex,
    VirtAddr.index_val]
  omega

theorem tablePath_eq (h : v.addr.toNat / 2 ^ 21 = w.addr.toNat / 2 ^ 21) : v.tablePath = w.tablePath := by
  simp only [VirtAddr.tablePath, List.cons.injEq, and_true, Fin.ext_iff, VirtAddr.pml4Index, VirtAddr.pdptIndex,
    VirtAddr.pdIndex, VirtAddr.index_val]
  omega

/-- The directories and page tables over a short run of pages: those of its first and last page. -/
theorem tables_over {start : U64} {n : ℕ} (h : UpperPages start n) (hn : n ≤ 128) :
    ∃ T : Finset Path, T.card ≤ 4 ∧ ∀ v ∈ pagesFrom start n, directoryPath v ∈ T ∧ v.tablePath ∈ T := by
  let first : VirtAddr := ⟨start⟩
  let last : VirtAddr := ⟨start + BitVec.ofNat 64 ((n - 1) * pageSize)⟩
  refine ⟨{directoryPath first, directoryPath last, first.tablePath, last.tablePath}, Finset.card_le_four, ?_⟩
  intro v hv
  rcases (mem_pagesFrom h).mp hv with ⟨i, hi, he⟩
  have hlast : last.addr.toNat = start.toNat + (n - 1) * 4096 := h.toNat (by omega)
  have hends : v.addr.toNat / 2 ^ 21 = first.addr.toNat / 2 ^ 21 ∨ v.addr.toNat / 2 ^ 21 = last.addr.toNat / 2 ^ 21 := by
    rw [he, hlast]
    change _ = start.toNat / 2 ^ 21 ∨ _
    omega
  rcases hends with hsame | hsame
  · rw [directoryPath_eq hsame, tablePath_eq hsame]
    simp
  · rw [directoryPath_eq hsame, tablePath_eq hsame]
    simp

end Paths

section Missing

open Classical in
/-- The paths of the set at which no table stands. -/
noncomputable def vacant (k : U64) (place : Placement) (T : Finset Path) : Finset Path :=
  T.filter fun q => ∀ a, place a ≠ some (k, q)

variable {k : U64} {F : Finset U64} {c : ℕ} {place place' : Placement} {held : Finset U64} {s : PageMemory}
  {v : VirtAddr} {T : Finset Path}

theorem mem_vacant {q : Path} : q ∈ vacant k place T ↔ q ∈ T ∧ ∀ a, place a ≠ some (k, q) := by
  classical
  rw [vacant, Finset.mem_filter]

/-- The tables a page lacks are vacant places on its path. -/
theorem missing_le_vacant (h : Owned (tablePolicy k) F c place held s) (hk : place k = some (k, []))
    (hpres : (s.tables k v.pml4Index).isPresent = true) :
    missing s.tables k v.tablePath ≤ (vacant k place {directoryPath v, v.tablePath}).card := by
  rcases h.follow_present hk (by simp) (table_owns _ _) (by simp) hpres with ⟨hl4, hp4⟩
  rw [List.nil_append] at hp4
  have hpath : v.tablePath = [v.pml4Index, v.pdptIndex, v.pdIndex] := rfl
  generalize (s.tables k v.pml4Index).physAddr = pdpt at hl4 hp4
  rw [hpath, missing, hl4]
  simp only [missing]
  -- a table stands at a path exactly when its parent holds the link
  cases h3 : (s.tables pdpt v.pdptIndex).link with
  | none =>
    have hdir : ∀ a, place a ≠ some (k, directoryPath v) := by
      intro a ha
      rcases h.forest.parent (show place a = some (k, [v.pml4Index] ++ [v.pdptIndex]) from ha) with ⟨b, hb, he⟩
      rw [h.forest.place_inj hb hp4, Policy.edge_table (by simp) (table_owns _ _), h3] at he
      cases he
    have htab : ∀ a, place a ≠ some (k, v.tablePath) := by
      intro a ha
      rcases h.forest.ancestor (show place a = some (k, directoryPath v ++ [v.pdIndex]) from ha) with ⟨b, hb⟩
      exact hdir b hb
    have hall : vacant k place {directoryPath v, v.tablePath} = {directoryPath v, v.tablePath} := by
      ext q
      rw [mem_vacant]
      constructor
      · exact fun hq => hq.1
      · intro hq
        refine ⟨hq, ?_⟩
        rcases Finset.mem_insert.mp hq with rfl | hq
        · exact hdir
        · rw [Finset.mem_singleton.mp hq]
          exact htab
    rw [← hpath, hall, Finset.card_pair (by simp [directoryPath, VirtAddr.tablePath])]
    simp
  | some pd =>
    have hp3 := h.follow hp4 (by simp) (table_owns _ _) h3
    simp only
    cases h2 : (s.tables pd v.pdIndex).link with
    | some pt => simp
    | none =>
      have htab : ∀ a, place a ≠ some (k, v.tablePath) := by
        intro a ha
        rcases h.forest.parent (show place a = some (k, ([v.pml4Index] ++ [v.pdptIndex]) ++ [v.pdIndex]) from ha) with
          ⟨b, hb, he⟩
        rw [h.forest.place_inj hb hp3, Policy.edge_table (by simp) (table_owns _ _), h2] at he
        cases he
      have hmem : v.tablePath ∈ vacant k place {directoryPath v, v.tablePath} := mem_vacant.mpr ⟨by simp, htab⟩
      exact Finset.card_pos.mpr ⟨_, hmem⟩

/-- Once the tables of a page are there, the vacant places are fewer by those. -/
theorem vacant_step (hkept : ∀ a x, place a = some x → place' a = some x) {q q' : Path} (hq : q ∈ T) (hq' : q' ∈ T)
    (hnow : ∃ a, place' a = some (k, q)) (hnow' : ∃ a, place' a = some (k, q')) :
    (vacant k place' T).card + (vacant k place {q, q'}).card ≤ (vacant k place T).card := by
  classical
  have hdisj : Disjoint (vacant k place' T) (vacant k place {q, q'}) := by
    rw [Finset.disjoint_left]
    intro x hx hx'
    rcases Finset.mem_insert.mp (mem_vacant.mp hx').1 with rfl | hmem
    · exact hnow.elim (mem_vacant.mp hx).2
    · rw [Finset.mem_singleton.mp hmem] at hx
      exact hnow'.elim (mem_vacant.mp hx).2
  rw [← Finset.card_union_of_disjoint hdisj]
  apply Finset.card_le_card
  intro x hx
  rcases Finset.mem_union.mp hx with hx | hx
  · exact mem_vacant.mpr ⟨(mem_vacant.mp hx).1, fun a ha => (mem_vacant.mp hx).2 a (hkept _ _ ha)⟩
  · refine mem_vacant.mpr ⟨?_, (mem_vacant.mp hx).2⟩
    rcases Finset.mem_insert.mp (mem_vacant.mp hx).1 with rfl | hmem
    · exact hq
    · rw [Finset.mem_singleton.mp hmem]
      exact hq'

/-- Where the processor finds nothing, no leaf is present. -/
theorem lookup_of_reach {tables : U64 → PageTable} {a : U64} {is : Path} (h : reach tables a is = none) :
    lookup tables a is = none := by
  induction is generalizing a with
  | nil => rfl
  | cons i is ih =>
    rw [reach] at h
    rw [lookup]
    by_cases hpres : (tables a i).isPresent = true
    · rw [if_pos hpres] at h
      split_ifs at h with hhuge
      rw [Option.map_eq_none_iff] at h
      by_cases hnil : is = []
      · subst hnil
        cases h
      · have hsmall : (tables a i).isHuge = false := by
          by_contra hbad
          exact hhuge ⟨by simpa using hbad, hnil⟩
        rw [if_neg hnil, PageTableEntry.link_eq_some.mpr ⟨hpres, hsmall, rfl⟩]
        exact ih h
    · have hlink := PageTableEntry.link_of_not_present (by simpa using hpres)
      rw [hlink, if_neg hpres]
      simp

end Missing

section Batches

variable {k : U64} {F : Finset U64} {c : ℕ} {place : Placement} {held : Finset U64} {s : PageMemory}

/-- Every slot of the upper half has its table. -/
def UpperSlots (k : U64) (s : PageMemory) : Prop := ∀ i : Fin 512, 256 ≤ i.val → (s.tables k i).isPresent = true

/-- A vacant page of the upper half and an aligned frame for it. -/
structure Mappable (k : U64) (s : PageMemory) (x : VirtAddr × PhysPage) : Prop where
  page : isCanonical x.1.addr = true ∧ x.1.isAligned = true ∧ 256 ≤ x.1.pml4Index.val
  frame : x.2.addr.toNat % pageSize = 0
  vacant : reach s.tables k x.1.path = none

/-- With a free frame for each vacant place, the whole batch is mapped. -/
theorem mapPages_ok (flags : PageTableFlags) (todo : List (VirtAddr × PhysPage)) (done : List VirtAddr) {T : Finset Path}
    (h : Owned (tablePolicy k) F c place held s) (hk : place k = some (k, [])) (hmode : s.isBootstrapping = false)
    (hslots : UpperSlots k s) (hT : ∀ x ∈ todo, directoryPath x.1 ∈ T ∧ x.1.tablePath ∈ T)
    (hfree : (vacant k place T).card ≤ s.pmm.freeFrames.card) (htodo : ∀ x ∈ todo, Mappable k s x)
    (hnodup : (todo.map fun x => x.1.path).Nodup) :
    ∃ s', mapPages ⟨k⟩ flags done todo s = (true, s') ∧
      s.pmm.freeFrames.card ≤ s'.pmm.freeFrames.card + (vacant k place T).card := by
  induction todo generalizing done place s with
  | nil => exact ⟨s, rfl, Nat.le_add_right _ _⟩
  | cons x todo ih =>
    rcases x with ⟨v, phys⟩
    rw [List.map_cons, List.nodup_cons] at hnodup
    rcases htodo (v, phys) (by simp) with ⟨⟨hc, hal, hup⟩, hph, hvac⟩
    rcases hT (v, phys) (by simp) with ⟨hdir, htab⟩
    dsimp only at hc hal hup hph hvac hdir htab
    have hmissing := missing_le_vacant h hk (hslots _ hup)
    have hle : (vacant k place {directoryPath v, v.tablePath}).card ≤ (vacant k place T).card := by
      apply Finset.card_le_card
      intro q hq
      refine mem_vacant.mpr ⟨?_, (mem_vacant.mp hq).2⟩
      rcases Finset.mem_insert.mp (mem_vacant.mp hq).1 with rfl | hmem
      · exact hdir
      · rw [Finset.mem_singleton.mp hmem]
        exact htab
    rcases h.mapPage_cases hk (table_owns [] _ rfl) (by simp [hmode]) hc hal hph flags with
      ⟨place', s₁, ho, hg, -, ⟨pt, he, hpt, -, -, hcost⟩ | ⟨-, hbad⟩ | ⟨-, hcost⟩⟩
    · rcases writeLeaf_tables ho (hg.kept hk) hpt (.set phys.addr flags) with ⟨ho', hbut, -⟩
      have hwalks := sameWalks_of_grows hk table_owns hg
      have hdirNow : ∃ a, place' a = some (k, directoryPath v) :=
        ho.forest.ancestor (show place' pt = some (k, directoryPath v ++ [v.pdIndex]) from hpt)
      have hstep : (vacant k place' T).card + (vacant k place {directoryPath v, v.tablePath}).card ≤ (vacant k place T).card :=
        vacant_step (fun _ _ => hg.kept) hdir htab hdirNow ⟨pt, hpt⟩
      have hcost' := hcost hmode
      have hne : k ≠ pt := by
        rintro rfl
        rw [hg.kept hk] at hpt
        cases hpt
      have hslots' : UpperSlots k (s₁.writeEntry pt v.ptIndex (.set phys.addr flags)) := by
        intro i hi
        rw [writeEntry_tables, if_neg fun hbad => hne hbad.1, hg.present i hk (hslots i hi)]
        exact hslots i hi
      have htodo' : ∀ x ∈ todo, Mappable k (s₁.writeEntry pt v.ptIndex (.set phys.addr flags)) x := by
        intro x hx
        rcases htodo x (by simp [hx]) with ⟨hpage, hframe, hvacant⟩
        refine ⟨hpage, hframe, ?_⟩
        rw [hbut _ x.1.path_length, hwalks _ x.1.path_length]
        · exact hvacant
        · intro hmem
          have hpath : x.1.path = v.path := by simpa using hmem
          exact hnodup.1 (hpath ▸ List.mem_map_of_mem (f := fun x => x.1.path) hx)
      rcases ih (done ++ [v]) ho' (hg.kept hk) (hg.boot.mode.trans hmode) hslots'
        (fun x hx => hT x (by simp [hx])) (by change _ ≤ s₁.pmm.freeFrames.card; omega) htodo' hnodup.2 with
        ⟨s', hrun, hused⟩
      change s₁.pmm.freeFrames.card ≤ _ at hused
      exact ⟨s', by rw [mapPages, he]; exact hrun, by omega⟩
    · exfalso
      rcases hbad with ⟨e, he⟩ | ⟨-, hzero⟩
      · rw [lookup_of_reach hvac] at he
        cases he
      · rw [hzero] at hup
        simp at hup
    · have hcost' := hcost hmode
      omega

/-- With a frame for each page and each vacant place, a vacant run is mapped. -/
theorem takeAndMap_of (flags : PageTableFlags) (h : Owned (tablePolicy k) F c place held s) (hk : place k = some (k, []))
    (hmode : s.isBootstrapping = false) (hslots : UpperSlots k s) {start : U64} {n : ℕ} (hpages : UpperPages start n)
    {T : Finset Path} (hT : ∀ v ∈ pagesFrom start n, directoryPath v ∈ T ∧ v.tablePath ∈ T)
    (hvac : ∀ v ∈ pagesFrom start n, reach s.tables k v.path = none)
    (hfree : n + (vacant k place T).card ≤ s.pmm.freeFrames.card) :
    ∃ l s₁ s', allocateFrames n [] s = (some l, s₁) ∧
      mapPages ⟨k⟩ flags [] ((pagesFrom start n).zip l) s₁ = (true, s') ∧
      s.pmm.freeFrames.card ≤ s'.pmm.freeFrames.card + n + (vacant k place T).card := by
  have h₀ : Owned (tablePolicy k) F c place (held ∪ addrs []) s := by simpa using h
  rcases allocateFrames_cases n [] h₀ (.nil F held) with
    ⟨l, s₁, he, hlen, hbatch, ho, ht, hsame, hcard⟩ | ⟨s', -, -, -, -, -, -, hcard⟩
  · have hzip : (pagesFrom start n).length ≤ l.length := by rw [pagesFrom_length, hlen]; simp
    have hfst : ((pagesFrom start n).zip l).map Prod.fst = pagesFrom start n := List.map_fst_zip hzip
    have hmem {x : VirtAddr × PhysPage} (hx : x ∈ (pagesFrom start n).zip l) : x.1 ∈ pagesFrom start n ∧ x.2 ∈ l :=
      List.of_mem_zip hx
    rcases mapPages_ok flags ((pagesFrom start n).zip l) [] ho hk (hsame.mode.trans hmode)
      (by rw [UpperSlots, ht]; exact hslots) (fun x hx => hT x.1 (hmem hx).1) (by omega)
      (fun x hx => ⟨hpages.page (hmem hx).1, (h.frames.address (hbatch.managed _ (hmem hx).2)).1,
        by rw [ht]; exact hvac _ (hmem hx).1⟩)
      (by rw [← Function.comp_def VirtAddr.path, ← List.map_map, hfst]; exact hpages.paths_nodup) with
      ⟨s', hrun, hused⟩
    exact ⟨l, s₁, s', he, hrun, by omega⟩
  · omega

/-- With four frames to spare, a vacant run of at most 128 pages is mapped. -/
theorem takeAndMap_ok (flags : PageTableFlags) (h : Owned (tablePolicy k) F c place held s) (hk : place k = some (k, []))
    (hmode : s.isBootstrapping = false) (hslots : UpperSlots k s) {start : U64} {n : ℕ} (hpages : UpperPages start n)
    (hn : n ≤ 128) (hvac : ∀ v ∈ pagesFrom start n, reach s.tables k v.path = none)
    (hfree : n + 4 ≤ s.pmm.freeFrames.card) :
    ∃ l s₁ s', allocateFrames n [] s = (some l, s₁) ∧
      mapPages ⟨k⟩ flags [] ((pagesFrom start n).zip l) s₁ = (true, s') ∧
      s.pmm.freeFrames.card ≤ s'.pmm.freeFrames.card + n + 4 := by
  rcases tables_over hpages hn with ⟨T, hTcard, hT⟩
  have hvacant : (vacant k place T).card ≤ T.card := Finset.card_le_card fun q hq => (mem_vacant.mp hq).1
  rcases takeAndMap_of flags h hk hmode hslots hpages hT hvac (by omega) with ⟨l, s₁, s', he, hrun, hused⟩
  exact ⟨l, s₁, s', he, hrun, by omega⟩

/-- A reserved run of at most 128 vacant pages is mapped and returned. -/
theorem allocateAndMapRegion_ok {kernel : Kernel} (h : Owned (tablePolicy k) F c place held kernel.mem)
    (hk : place k = some (k, [])) (hmode : kernel.mem.isBootstrapping = false) (hroot : kernel.rootPml4 = ⟨k⟩)
    (hslots : UpperSlots k kernel.mem) (hcur : CursorOk kernel.vmm) {size : U64} {permissions : VirtPermissions}
    {purpose : RegionPurpose} {region : VirtRegion} {vmm' : VirtualMemoryManager}
    (hres : reserveVirtualRegion size permissions purpose kernel.vmm = (.ok region, vmm'))
    (hn : size.toNat / pageSize ≤ 128)
    (hvac : ∀ v ∈ pagesFrom region.start.addr (size.toNat / pageSize), reach kernel.mem.tables k v.path = none)
    (hfree : size.toNat / pageSize + 4 ≤ kernel.mem.pmm.freeFrames.card) :
    ∃ kernel', allocateAndMapRegion size permissions purpose kernel =
      (.ok { region with ownsPhysicalPages := true }, kernel') ∧
      kernel.mem.pmm.freeFrames.card ≤ kernel'.mem.pmm.freeFrames.card + size.toNat / pageSize + 4 := by
  rcases reserve_ok hres with ⟨hregion, -, hal, hend, -, -, -, -⟩
  have hstart : region.start.addr = kernel.vmm.nextDynamicAddr := by rw [hregion]
  have hpages := upperPages_reserved hcur hal hend
  rw [← hstart] at hpages
  rcases takeAndMap_ok permissions.toPageFlags h hk hmode hslots hpages hn hvac hfree with
    ⟨l, s₁, s', hframes, hmap, hused⟩
  unfold allocateAndMapRegion
  rw [hres]
  simp only
  rw [if_neg (by unfold maxFrames; omega), hframes]
  simp only
  rw [hroot, hmap]
  exact ⟨_, rfl, hused⟩

end Batches
end VenturaOS.Vmm
