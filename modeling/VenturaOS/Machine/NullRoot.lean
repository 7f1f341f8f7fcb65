import VenturaOS.Machine.Destroy
import VenturaOS.Machine.HeapGrowth
import VenturaOS.Vmm.NullPage

/-!
# A mapping below a destroyed handle

`destroy` leaves a handle with root page 0. `activate` refuses it, the mapping
calls do not: they build tables below page 0, where no root leads, and the
frames of these tables are lost.
-/
namespace VenturaOS.Machine
open Library Memory Pmm Paging Vmm AddressSpaces

/-- The tables of a walk that starts at a table placed nowhere: they stand below no root, with the frames in `held'`. -/
structure Stray (pol : Policy) (F : Finset U64) (c : ℕ) (place : Placement) (held held' : Finset U64)
    (s s' : PageMemory) : Prop where
  owned : Owned pol F c place held' s'
  kept : held ⊆ held'
  managed : ∀ f ∈ held', f ∈ held ∨ f ∈ F
  placed : ∀ {a x}, place a = some x → s'.tables a = s.tables a
  boot : SameBoot s s'

theorem Stray.trans {pol : Policy} {F : Finset U64} {c : ℕ} {place : Placement} {held held' held'' : Finset U64}
    {s s' s'' : PageMemory} (h : Stray pol F c place held held' s s') (h' : Stray pol F c place held' held'' s' s'') :
    Stray pol F c place held held'' s s'' :=
  ⟨h'.owned, h.kept.trans h'.kept, fun f hf => (h'.managed f hf).elim (h.managed f) .inr, fun ha => (h'.placed ha).trans (h.placed ha), h.boot.trans h'.boot⟩

section Walks

variable {pol : Policy} {F : Finset U64} {c : ℕ} {place : Placement} {held : Finset U64} {s : PageMemory} {a : U64}

theorem writeTable_stray (h : Owned pol F c place held s) (ha : place a = none) (t : PageTable) :
    Stray pol F c place held held s (s.writeTable a t) := by
  refine ⟨h.writeTable_unplaced ha t, subset_rfl, fun _ => .inl, fun {b x} hb => ?_, ⟨rfl, rfl, rfl⟩⟩
  apply Function.update_of_ne
  rintro rfl
  rw [ha] at hb
  cases hb

/-- One new table below an empty one that is placed nowhere. -/
theorem getOrCreateTable_stray (h : Owned pol F c place held s) (hmode : s.isBootstrapping = false) (ha : place a = none)
    (hout : a ∉ s.pmm.freeFrames) (hzero : s.tables a = .zero) (hsome : s.pmm.freeFrames.Nonempty) (i : Fin 512) :
    ∃ f s', getOrCreateTable a i s = (.ok f, s') ∧ Stray pol F c place held (insert f held) s s' ∧ f ∉ held ∧
      place f = none ∧ f ∉ s'.pmm.freeFrames ∧ s'.tables f = .zero ∧
      s'.pmm.freeFrames.card + 1 = s.pmm.freeFrames.card := by
  rcases h.newTableFrame_cases with ⟨-, hempty, -⟩ | ⟨f, s₁, he, ho, hheld, hplace, htab, hsame, -, hfree⟩
  · rw [hempty hmode] at hsome
    exact absurd hsome Finset.not_nonempty_empty
  · obtain ⟨hF, hf, herase⟩ := hfree hmode
    have hne : a ≠ f := by
      rintro rfl
      exact hout hf
    have hget : getOrCreateTable a i s =
        (.ok f, (s₁.writeTable f .zero).writeEntry a i (.set f PageTableFlags.table)) := by
      rw [getOrCreateTable, hzero]
      simp only [PageTable.zero, PageTableEntry.empty_isPresent, Bool.false_eq_true, if_false, he]
    have htaken : Stray pol F c place held (insert f held) s s₁ := by
      refine ⟨ho, Finset.subset_insert f held, fun g hg => ?_, fun {b x} hb => htab b ?_, hsame⟩
      · rcases Finset.mem_insert.mp hg with rfl | hg
        · exact .inr hF
        · exact .inl hg
      · rintro rfl
        rw [hplace] at hb
        cases hb
    have hcleared := writeTable_stray ho hplace .zero
    have hlinked := writeTable_stray hcleared.owned ha
      (Function.update ((s₁.writeTable f .zero).tables a) i (.set f PageTableFlags.table))
    refine ⟨f, _, hget, (htaken.trans hcleared).trans hlinked, hheld, hplace, ?_, ?_, ?_⟩
    · change f ∉ s₁.pmm.freeFrames
      rw [herase]
      exact Finset.notMem_erase f _
    · rw [Owned.linked_tables hne, if_neg (Ne.symm hne), if_pos rfl]
    · change s₁.pmm.freeFrames.card + 1 = _
      rw [herase, Finset.card_erase_add_one hf]

theorem walkCreate_stray (path : List (Fin 512)) (h : Owned pol F c place held s) (hmode : s.isBootstrapping = false)
    (ha : place a = none) (hout : a ∉ s.pmm.freeFrames) (hzero : s.tables a = .zero)
    (hcard : path.length ≤ s.pmm.freeFrames.card) :
    ∃ b s' held', walkCreate a path s = (.ok b, s') ∧ Stray pol F c place held held' s s' ∧
      held'.card = held.card + path.length ∧ place b = none ∧ s'.tables b = .zero := by
  induction path generalizing a held s with
  | nil => exact ⟨a, s, held, rfl, ⟨h, subset_rfl, fun _ => .inl, fun _ => rfl, .refl s⟩, rfl, ha, hzero⟩
  | cons i path ih =>
    rw [List.length_cons] at hcard
    obtain ⟨f, s₁, he, hs, hheld, hf, hfout, hfzero, hless⟩ :=
      getOrCreateTable_stray h hmode ha hout hzero (Finset.card_pos.mp (by omega)) i
    obtain ⟨b, s₂, held₂, hwalk, hs₂, hcard₂, hb, hbzero⟩ :=
      ih hs.owned (hs.boot.mode.trans hmode) hf hfout hfzero (by omega)
    refine ⟨b, s₂, held₂, ?_, hs.trans hs₂, ?_, hb, hbzero⟩
    · rw [walkCreate, he]
      exact hwalk
    · rw [hcard₂, Finset.card_insert_of_notMem hheld, List.length_cons]
      omega

/-- `map_page` below page 0 succeeds and takes three frames. -/
theorem mapPage_stray (h : Owned pol F c place held s) (hmode : s.isBootstrapping = false) (ha : place 0 = none)
    (hout : 0 ∉ s.pmm.freeFrames) (hzero : s.tables 0 = .zero) (hcard : 3 ≤ s.pmm.freeFrames.card) {v : VirtAddr}
    {phys : PhysPage} (hc : isCanonical v.addr = true) (hal : v.isAligned = true) (hp : phys.addr.toNat % pageSize = 0)
    (flags : PageTableFlags) :
    ∃ s' held', Paging.mapPage .null v phys flags s = (.ok (), s') ∧ Stray pol F c place held held' s s' ∧
      held'.card = held.card + 3 := by
  obtain ⟨pt, s₁, held', hwalk, hs, hheld, hpt, hptzero⟩ := walkCreate_stray v.tablePath h hmode ha hout hzero hcard
  refine ⟨_, held', ?_, hs.trans (writeTable_stray hs.owned hpt (Function.update (s₁.tables pt) v.ptIndex
    (.set phys.addr flags))), hheld⟩
  have hnull : walkCreate PhysPage.null.addr v.tablePath s = (.ok pt, s₁) := hwalk
  rw [mapPage_eq .null v phys flags s hc hal hp, hnull]
  have habsent : (s₁.tables pt v.ptIndex).isPresent = false := by
    rw [hptzero]
    exact PageTableEntry.empty_isPresent
  simp only [habsent, Bool.false_eq_true, if_false]
  rfl

end Walks

section Systems

variable {info : BootInfo} {place : Placement} {y : System} {held' : Finset U64} {s' : PageMemory}

/-- The trees of the system stand as before when the stray frames are counted as held. -/
theorem Orderly.stray (h : Orderly info place y)
    (hs : Stray (kernelPolicy y.kernel.rootPml4.addr info.frames) info.frames info.count place y.clients held'
      y.kernel.mem s') :
    Orderly info place { y with kernel := { y.kernel with mem := s' }, clients := held' } := by
  have hstep : KernelStep y.kernel.rootPml4.addr place place y.kernel.mem s' :=
    { pool := hs.boot.pool
      mode := hs.boot.mode
      kept := fun ha _ => ha
      fresh := fun ha _ => .inl ha
      spaces := fun ha _ => hs.placed ha
      upper := fun i ha _ _ => congrFun (hs.placed ha) i }
  refine ⟨⟨h.inv.tables.kernelStep hs.owned hstep, h.inv.nonnull, h.inv.handles,
    fun f hf => (hs.managed f hf).elim (h.inv.clients f) id, h.inv.regions, h.inv.cursor,
    h.inv.heapEnd, h.inv.active⟩, ⟨h.extents.occupied, h.extents.apart, h.extents.heapApart, h.extents.returned,
    h.extents.range⟩, ?_⟩
  change ∀ result ∈ s'.discarded, _
  rw [hs.boot.log]
  exact h.log

/-- Frames that would have to be held for the books to balance have no owner. -/
theorem Orderly.unowned {held : Finset U64} (h : Orderly info place { y with clients := held }) {f : U64} (hf : f ∈ held)
    (hout : f ∉ y.clients) (o : Owner) : ¬ Owns y f o := by
  intro ho
  have hplace := (h.inv.tables.owned.held_inUse hf).2
  cases o with
  | client => exact hout ho
  | table root path =>
    have hspot := h.place_of_owns (h.inv.clients f hf) (o := .table root path) ho
    rw [hplace] at hspot
    cases hspot
  | region region page =>
    have hspot := h.place_of_owns (h.inv.clients f hf) (o := .region region page) ho
    rw [hplace] at hspot
    cases hspot
  | heap page =>
    have hspot := h.place_of_owns (h.inv.clients f hf) (o := .heap page) ho
    rw [hplace] at hspot
    cases hspot

theorem Orderly.short {held : Finset U64} (h : Orderly info place { y with clients := held }) (hsub : y.clients ⊆ held)
    {f : U64} (hf : f ∈ held) (hout : f ∉ y.clients) :
    y.kernel.mem.pmm.stats.freePages + (ownedFrames info y).ncard < info.count := by
  have hmore : ownedFrames info y ⊂ ownedFrames info { y with clients := held } := by
    refine ⟨fun g ⟨hg, o, ho⟩ => ⟨hg, o, ?_⟩, fun hall => ?_⟩
    · cases o with
      | client => exact hsub ho
      | _ => exact ho
    · obtain ⟨-, o, ho⟩ := hall ⟨h.inv.clients f hf, .client, hf⟩
      exact h.unowned hf hout o ho
  have hfinite : (ownedFrames info { y with clients := held }).Finite := by
    rw [h.ownedFrames_eq]
    exact Finset.finite_toSet _
  have hlt := Set.ncard_lt_ncard hmore hfinite
  have hsum := h.conserved
  change y.kernel.mem.pmm.stats.freePages + _ = _ at hsum
  omega

end Systems

section Sample

variable {info : BootInfo} {k k' : Kernel} {space : AddressSpace}

/-- A new root holds copies of entries, none of which leads to page 0. -/
theorem newSpace_nullApart (h : NullApart k.mem) (hrun : AddressSpaces.new k = (.ok space, k')) : NullApart k'.mem := by
  unfold AddressSpaces.new at hrun
  rcases hpage : allocatePage k.mem with ⟨_ | root, mem⟩
  · rw [hpage] at hrun
    cases hrun
  · rw [hpage] at hrun
    cases hrun
    obtain ⟨h₁, hroot⟩ := h.allocatePage hpage
    have hz := (hroot root rfl).2
    have hcleared := h₁.writeTable hz NullApart.zero_link
    refine hcleared.writeTable hz fun i => ?_
    split_ifs <;> exact hcleared.unlinked _ i

/-- What the calls of a client find after a space was created and destroyed: page 0 is empty, no root leads
there, and the handle does. -/
structure Abandoned (info : BootInfo) (place : Placement) (y : System) : Prop where
  orderly : Orderly info place y
  handle : ∃ dead, y.spaces[0]? = some dead ∧ dead.rootPage = .null
  unplaced : place 0 = none
  empty : y.kernel.mem.tables 0 = .zero
  free : 3 ≤ y.kernel.mem.pmm.freeFrames.card

theorem Orderly.abandon {place : Placement} {y : System} (h : Orderly info place y) (hnull : NullApart y.kernel.mem)
    (hspaces : y.spaces = []) (hfree : 4 ≤ y.kernel.mem.pmm.freeFrames.card) :
    ∃ place' y₁ y₂, TimelyStep y .newSpace y₁ ∧ TimelyStep y₁ (.destroy 0) y₂ ∧ y₂.clients = y.clients ∧
      Abandoned info place' y₂ := by
  obtain ⟨space, k₁, hnew, hcard⟩ := h.inv.newSpace_ok (Finset.card_pos.mp (by omega))
  have hnull₁ := newSpace_nullApart hnull hnew
  obtain ⟨-, -, hl, -⟩ := h.inv.newSpace hnew
  have hstep₁ : TimelyStep y .newSpace { y with kernel := k₁, spaces := y.spaces ++ [space] } :=
    ⟨⟨.newSpace hnew, trivial⟩, trivial⟩
  obtain ⟨place₁, h₁, -⟩ := h.call hstep₁
  have hi : (y.spaces ++ [space])[0]? = some space := by
    rw [hspaces]
    rfl
  have hm : space ∈ y.spaces ++ [space] := List.mem_of_getElem? hi
  have hnz := (h₁.inv.tables.live_frame hm hl).2.2
  have hstep₂ := Step.destroy (y := { y with kernel := k₁, spaces := y.spaces ++ [space] }) hi
  obtain ⟨place₂, h₂, -⟩ := h₁.call ⟨⟨hstep₂, trivial⟩, trivial⟩
  obtain ⟨hpool, hoff⟩ := h₁.inv.destroy_elsewhere (List.mem_of_getElem? hi) hl
  refine ⟨place₂, _, _, hstep₁, ⟨⟨hstep₂, trivial⟩, trivial⟩, rfl, h₂, ?_, ?_, ?_, ?_⟩
  · refine ⟨(AddressSpaces.destroy space k₁).1, ?_, ?_⟩
    · rw [hspaces]
      rfl
    · rw [destroy_live hl hnz]
      rfl
  · cases hplace : place₂ 0 with
    | none => rfl
    | some x =>
      rcases h₂.inv.tables.owned.placed (r := x.1) (p := x.2) hplace with ⟨hF, -⟩ | ⟨n, hn, he⟩
      · have hpos := (h₂.inv.tables.owned.frames.address hF).2.1
        simp at hpos
      · have hlt := lt_of_lt_of_le hn h₂.inv.tables.owned.pool.index_le
        change 0 = (AddressSpaces.destroy space k₁).2.mem.poolTable n at he
        rw [PageMemory.poolTable, hpool] at he
        exact absurd he.symm (hnull₁.pool n hlt).2
  · exact (hoff 0 (Ne.symm hnz)).trans hnull₁.empty
  · obtain ⟨T, hT, -⟩ := h₁.inv.exactTeardown hi hl
    have hsub : k₁.mem.pmm.freeFrames ⊆ (AddressSpaces.destroy space k₁).2.mem.pmm.freeFrames := by
      rw [hT.freed]
      exact Finset.subset_union_left
    have hle := Finset.card_le_card hsub
    change 3 ≤ (AddressSpaces.destroy space k₁).2.mem.pmm.freeFrames.card
    omega

/-- The mapping call then takes three frames that belong to nobody. -/
theorem Abandoned.mapPage {place : Placement} {y : System} (h : Abandoned info place y) (v : VirtAddr) (phys : PhysPage)
    (hv : isPrivateAddr v = true) (hc : isCanonical v.addr = true) (hal : v.isAligned = true)
    (hp : phys.addr.toNat % pageSize = 0) (flags : PageTableFlags) :
    ∃ y', Step y (.mapPage 0 v phys flags) y' ∧ y'.clients = y.clients ∧
      (∃ f ∈ info.frames, f ∉ y'.kernel.mem.pmm.freeFrames ∧ ∀ o, ¬ Owns y' f o) ∧
      y'.kernel.mem.pmm.stats.freePages + (ownedFrames info y').ncard < info.count := by
  obtain ⟨dead, hi, hdead⟩ := h.handle
  have howned := h.orderly.inv.tables.owned
  have hout : (0 : U64) ∉ y.kernel.mem.pmm.freeFrames := by
    intro hfree
    have hpos := (howned.frames.address (howned.frames.free_subset hfree)).2.1
    simp at hpos
  obtain ⟨s', held', hmap, hs, hcard⟩ :=
    mapPage_stray howned h.orderly.inv.tables.mode h.unplaced hout h.empty h.free hc hal hp flags
  have hcall : (AddressSpaces.mapPage dead v phys flags y.kernel).2 = { y.kernel with mem := s' } := by
    rw [AddressSpaces.mapPage, if_neg (by simp [hv]), hdead, hmap]
  have hmore := h.orderly.stray hs
  obtain ⟨f, hf, hnew⟩ := Finset.exists_mem_notMem_of_card_lt_card (show y.clients.card < held'.card by omega)
  have hstep : Step y (.mapPage 0 v phys flags) _ := .mapPage hi
  rw [hcall] at hstep
  have hbooks : Orderly info place { ({ y with kernel := { y.kernel with mem := s' } } : System) with clients := held' } :=
    hmore
  refine ⟨_, hstep, rfl, ⟨f, hbooks.inv.clients f hf, fun hfree => ?_, hbooks.unowned hf hnew⟩,
    hbooks.short hs.kept hf hnew⟩
  exact (hbooks.inv.tables.owned.free_unplaced hfree).2 hf

/-- Some frame the page allocator handed out has no owner, and the frames no longer add up. -/
theorem destroyed_handle_loses_frames : ∃ k₀ k y page, Vmm.init sampleInfo sampleInfo.kernel = some k₀ ∧
    Heap.init k₀ = some k ∧ Run (fun y op y' => Step y op y' ∧ Timely y op) (System.start k)
      [.takeFrame, .newSpace, .destroy 0, .mapPage 0 ⟨0x8000000000⟩ page .table] y ∧ page.addr ∈ y.clients ∧
    (∃ f ∈ sampleInfo.frames, f ∉ y.kernel.mem.pmm.freeFrames ∧ ∀ o, ¬ Owns y f o) ∧
    y.kernel.mem.pmm.stats.freePages + (ownedFrames sampleInfo y).ncard <
      k.mem.pmm.stats.freePages + (ownedFrames sampleInfo (System.start k)).ncard := by
  obtain ⟨k₀, k, hsample⟩ := sample_start
  have hspare := hsample.spare
  have hboot := init_booted sampleInfo_loaded hsample.boot
  obtain ⟨place₀, h₀⟩ := Orderly.start hboot
  obtain ⟨place, h, -⟩ := h₀.call ⟨⟨.heapInit hsample.heap, trivial⟩, trivial⟩
  change Orderly sampleInfo place (System.start k) at h
  have hnull : NullApart k.mem := by
    obtain ⟨region, k₁, hmap, rfl⟩ := Heap.init_cases hsample.heap (by rw [hboot.heap]; rfl)
    have hmapped := (init_nullApart sampleInfo_loaded sampleInfo_aboveNull hsample.boot).allocateAndMapRegion
      hboot.nonnull hmap
    exact hmapped
  rcases h.inv.tables.owned.allocatePage_cases with ⟨-, hempty⟩ | ⟨f, pmm, htake, hf, hless, -⟩
  · change k.mem.pmm.freeFrames = ∅ at hempty
    rw [hempty] at hspare
    simp at hspare
  · have hstep : TimelyStep (System.start k) .takeFrame _ := ⟨⟨.takeFrame htake, trivial⟩, trivial⟩
    obtain ⟨place₁, h₁, -⟩ := h.call hstep
    have hnull₁ := (hnull.allocatePage htake).1
    have hcard : 731 ≤ pmm.freeFrames.card := by
      have herase := Finset.card_erase_add_one hf
      rw [← hless] at herase
      change _ = k.mem.pmm.freeFrames.card at herase
      omega
    obtain ⟨place₃, y₂, y₃, hstep₂, hstep₃, hclients, h₃⟩ := h₁.abandon hnull₁ rfl (le_trans (by decide) hcard)
    have hframe := h.inv.tables.owned.frames.address (h.inv.tables.owned.frames.free_subset hf)
    obtain ⟨y, hstep₄, hkept, hlost, hsum⟩ := h₃.mapPage ⟨0x8000000000⟩ ⟨f⟩ (by decide) (by decide) (by decide)
      hframe.1 .table
    refine ⟨k₀, k, y, ⟨f⟩, hsample.boot, hsample.heap, .cons ⟨hstep.1.1, trivial⟩ (.cons ⟨hstep₂.1.1, trivial⟩
      (.cons ⟨hstep₃.1.1, trivial⟩ (.single ⟨hstep₄, trivial⟩))), ?_, hlost, ?_⟩
    · rw [hkept, hclients]
      exact Finset.mem_insert_self f _
    · rw [← h.conserved] at hsum
      exact hsum

end Sample
end VenturaOS.Machine
