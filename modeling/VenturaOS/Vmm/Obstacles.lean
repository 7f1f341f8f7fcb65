import VenturaOS.Vmm.RegionFailure

/-!
# What stops a batch of mappings

Whatever state the page tables are in, a batch fails when it meets a page
that is mapped already, as long as the tables on the way there are not free
frames. While the tables are in order it also fails when a page lacks more
tables than there are free frames.
-/
namespace VenturaOS.Vmm
open Library Pmm Paging Memory

/-- A leaf is present at the end of the path, and no table on the way is a free frame. -/
def MappedBelow (s : PageMemory) : U64 → Path → Prop
  | _, [] => False
  | a, i :: is => a ∉ s.pmm.freeFrames ∧
      ((is = [] ∧ (s.tables a i).isPresent = true) ∨ ∃ b, (s.tables a i).link = some b ∧ MappedBelow s b is)

/-- Nothing but free frames was written, except for entries that were not present. -/
structure Spares (s s' : PageMemory) : Prop where
  mode : s'.isBootstrapping = s.isBootstrapping
  free : s'.pmm.freeFrames ⊆ s.pmm.freeFrames
  entries : ∀ a i, a ∉ s.pmm.freeFrames → (s.tables a i).isPresent = true → s'.tables a i = s.tables a i

section Spares

variable {s s' s'' : PageMemory} {a : U64} {i : Fin 512} {is : Path}

theorem Spares.refl (s : PageMemory) : Spares s s := ⟨rfl, Finset.Subset.refl _, fun _ _ _ _ => rfl⟩

theorem Spares.trans (h : Spares s s') (h' : Spares s' s'') : Spares s s'' where
  mode := h'.mode.trans h.mode
  free := h'.free.trans h.free
  entries a i ha hp := by
    have he := h.entries a i ha hp
    rw [h'.entries a i (fun hf => ha (h.free hf)) (by rw [he]; exact hp), he]

theorem MappedBelow.spares (h : MappedBelow s a is) (hs : Spares s s') : MappedBelow s' a is := by
  induction is generalizing a with
  | nil => exact h
  | cons i is ih =>
    obtain ⟨ha, hrest⟩ := h
    refine ⟨fun hf => ha (hs.free hf), ?_⟩
    cases hrest with
    | inl hleaf =>
      obtain ⟨hnil, hpres⟩ := hleaf
      exact .inl ⟨hnil, by rw [hs.entries a i ha hpres]; exact hpres⟩
    | inr hdown =>
      obtain ⟨b, hlink, hb⟩ := hdown
      have hpres := (PageTableEntry.link_eq_some.mp hlink).1
      exact .inr ⟨b, by rw [hs.entries a i ha hpres]; exact hlink, ih hb⟩

/-- `allocate_physical_page` hands out a free frame. -/
theorem allocatePage_spares (s : PageMemory) :
    allocatePage s = (none, s) ∨ ∃ f pmm, allocatePage s = (some ⟨f⟩, { s with pmm := pmm }) ∧
      f ∈ s.pmm.freeFrames ∧ pmm.freeSet.card + 1 = s.pmm.freeSet.card ∧ Spares s { s with pmm := pmm } := by
  rcases allocate_cases s.pmm with ⟨he, -⟩ | ⟨i, hi, -, he⟩
  · exact .inl (by simp only [allocatePage, he])
  · have hset := s.pmm.take_freeSet i
    refine .inr ⟨frame i, s.pmm.take i, by simp only [allocatePage, he]; rfl, Finset.mem_image_of_mem _ hi, ?_, rfl, ?_,
      fun _ _ _ _ => rfl⟩
    · rw [hset]
      exact Finset.card_erase_add_one hi
    · rw [Allocator.freeFrames, Allocator.freeFrames]
      apply Finset.image_subset_image
      rw [hset]
      exact Finset.erase_subset _ _

theorem getOrCreateTable_spares (hmode : s.isBootstrapping = false) (a : U64) (i : Fin 512) :
    Spares s (getOrCreateTable a i s).2 := by
  unfold getOrCreateTable
  by_cases hpres : (s.tables a i).isPresent = true
  · simp only [hpres, if_true]
    split_ifs
    · exact .refl s
    · exact .refl s
  · simp only [hpres, newTableFrame, hmode, Bool.false_eq_true, if_false]
    rcases allocatePage_spares s with he | ⟨f, pmm, he, hf, -, hs⟩
    · rw [he]
      exact .refl s
    · rw [he]
      refine ⟨rfl, hs.free, fun b j hb hp => ?_⟩
      -- the new table was free, and the entry that leads to it was not present
      have hbf : b ≠ f := by
        rintro rfl
        exact hb hf
      have hslot : ¬(b = a ∧ j = i) := by
        rintro ⟨rfl, rfl⟩
        exact hpres hp
      rw [writeEntry_tables, if_neg hslot]
      change Function.update s.tables f PageTable.zero b j = _
      rw [Function.update_of_ne hbf]

theorem walkCreate_spares (hmode : s.isBootstrapping = false) (a : U64) (is : Path) : Spares s (walkCreate a is s).2 := by
  induction is generalizing a s with
  | nil => exact .refl s
  | cons i is ih =>
    have hfirst := getOrCreateTable_spares hmode a i
    rw [walkCreate]
    generalize getOrCreateTable a i s = result at hfirst
    rcases result with ⟨e | b, s₁⟩
    · exact hfirst
    · exact hfirst.trans (ih (hfirst.mode.trans hmode) b)

theorem writeLeaf_spares (habs : (s.tables a i).isPresent = false) (e : PageTableEntry) : Spares s (s.writeEntry a i e) := by
  refine ⟨rfl, Finset.Subset.refl _, fun b j _ hp => ?_⟩
  rw [writeEntry_tables, if_neg]
  rintro ⟨rfl, rfl⟩
  rw [habs] at hp
  cases hp

theorem mapPage_spares (hmode : s.isBootstrapping = false) (root : PhysPage) (v : VirtAddr) (phys : PhysPage)
    (flags : PageTableFlags) : Spares s (mapPage root v phys flags s).2 := by
  by_cases hargs : isCanonical v.addr = true ∧ v.isAligned = true ∧ phys.addr.toNat % pageSize = 0
  · rw [mapPage_eq root v phys flags s hargs.1 hargs.2.1 hargs.2.2]
    have hwalk := walkCreate_spares hmode root.addr v.tablePath
    generalize walkCreate root.addr v.tablePath s = result at hwalk
    rcases result with ⟨e | pt, s₁⟩
    · exact hwalk
    · dsimp only at hwalk ⊢
      split_ifs with hpres
      · exact hwalk
      · exact hwalk.trans (writeLeaf_spares (by simpa using hpres) _)
  · obtain ⟨e, he⟩ := mapPage_refused root flags s hargs
    rw [he]
    exact .refl s

end Spares

section Mapped

variable {s s' : PageMemory} {a : U64} {is : Path}

/-- The walk to a mapped page creates nothing. -/
theorem walkCreate_mapped {j : Fin 512} (h : MappedBelow s a (is ++ [j])) :
    ∃ b, walkCreate a is s = (.ok b, s) ∧ (s.tables b j).isPresent = true := by
  induction is generalizing a with
  | nil =>
    obtain ⟨-, ⟨-, hpres⟩ | ⟨b, -, hb⟩⟩ := h
    · exact ⟨a, rfl, hpres⟩
    · exact absurd hb id
  | cons i is ih =>
    obtain ⟨-, ⟨hnil, -⟩ | ⟨b, hlink, hb⟩⟩ := h
    · simp at hnil
    · obtain ⟨hpres, hsmall, rfl⟩ := PageTableEntry.link_eq_some.mp hlink
      obtain ⟨c, hwalk, hleaf⟩ := ih hb
      refine ⟨c, ?_, hleaf⟩
      rw [walkCreate, getOrCreateTable]
      simp only [hpres, hsmall, if_true, Bool.false_eq_true, if_false]
      exact hwalk

theorem mapPage_mapped {root : PhysPage} {v : VirtAddr} (h : MappedBelow s root.addr v.path) (phys : PhysPage)
    (flags : PageTableFlags) : ∃ e, mapPage root v phys flags s = (.error e, s) := by
  by_cases hargs : isCanonical v.addr = true ∧ v.isAligned = true ∧ phys.addr.toNat % pageSize = 0
  · obtain ⟨pt, hwalk, hleaf⟩ := walkCreate_mapped (show MappedBelow s root.addr (v.tablePath ++ [v.ptIndex]) from h)
    refine ⟨.alreadyMapped, ?_⟩
    rw [mapPage_eq root v phys flags s hargs.1 hargs.2.1 hargs.2.2, hwalk]
    simp only [hleaf, if_true]
  · exact mapPage_refused root flags s hargs

/-- A batch that goes through met no mapped page. -/
theorem mapPages_unmapped {root : PhysPage} {flags : PageTableFlags} {todo : List (VirtAddr × PhysPage)}
    {done : List VirtAddr} (hmode : s.isBootstrapping = false) (h : mapPages root flags done todo s = (true, s')) :
    ∀ x ∈ todo, ¬ MappedBelow s root.addr x.1.path := by
  induction todo generalizing done s with
  | nil => simp
  | cons x todo ih =>
    obtain ⟨v, phys⟩ := x
    have hspares := mapPage_spares hmode root v phys flags
    rw [mapPages] at h
    intro x hx hmapped
    cases hx with
    | head =>
      obtain ⟨e, he⟩ := mapPage_mapped hmapped phys flags
      rw [he] at h
      cases h
    | tail _ hx =>
      generalize mapPage root v phys flags s = result at h hspares
      rcases result with ⟨e | ⟨⟩, s₁⟩
      · cases h
      · exact ih (hspares.mode.trans hmode) h x hx (hmapped.spares hspares)

theorem allocateFrames_spares {n : ℕ} {l l' : List PhysPage} (h : allocateFrames n l s = (some l', s')) :
    Spares s s' ∧ s'.tables = s.tables ∧ l'.length = l.length + n ∧ s'.pmm.freeSet.card + n = s.pmm.freeSet.card := by
  induction n generalizing l s with
  | zero =>
    cases h
    exact ⟨.refl _, rfl, rfl, rfl⟩
  | succ n ih =>
    rw [allocateFrames] at h
    rcases allocatePage_spares s with he | ⟨f, pmm, he, -, hcard, hs⟩
    · rw [he] at h
      cases h
    · rw [he] at h
      obtain ⟨hs', htab, hlen, hcard'⟩ := ih h
      rw [List.length_append, List.length_singleton] at hlen
      dsimp only at hcard'
      exact ⟨hs.trans hs', htab, by omega, by omega⟩

end Mapped

section Placed

variable {pol : Policy} {F : Finset U64} {c : ℕ} {r a pt : U64} {place : Placement} {held : Finset U64} {s : PageMemory}
  {v : VirtAddr} {p is : Path} {j : Fin 512}

/-- A table that stands below another is reached over tables that are in use. -/
theorem mappedBelow_of_placed (h : Owned pol F c place held s) (ha : place a = some (r, p))
    (hpt : place pt = some (r, p ++ is)) (hlen : (p ++ is).length = 3) (hslot : pol.Owns r p ((is ++ [j]).headD j))
    (hleaf : (s.tables pt j).isPresent = true) : MappedBelow s a (is ++ [j]) := by
  have hused {b : U64} {q : Path} (hb : place b = some (r, q)) : b ∉ s.pmm.freeFrames := by
    intro hf
    rw [(h.free_unplaced hf).1] at hb
    cases hb
  induction is generalizing a p with
  | nil =>
    rw [List.append_nil] at hpt
    rw [h.forest.place_inj hpt ha] at hleaf
    exact ⟨hused ha, .inl ⟨rfl, hleaf⟩⟩
  | cons i is ih =>
    rw [List.append_cons] at hpt hlen
    obtain ⟨b, hb⟩ := h.forest.ancestor hpt
    obtain ⟨a', ha', he⟩ := h.forest.parent hb
    rw [h.forest.place_inj ha' ha] at he
    rw [List.length_append, List.length_append, List.length_singleton] at hlen
    have hlink := (Policy.edge_table (by omega) hslot (s.tables a i)).symm.trans he
    refine ⟨hused ha, .inr ⟨b, hlink, ih hb hpt ?_ ?_⟩⟩
    · rw [List.length_append, List.length_append, List.length_singleton]
      omega
    · intro hnil
      simp at hnil

/-- Above the low memory no entry is a large page, so what the code finds is all there is. -/
theorem reach_of_lookup (h : Owned pol F c place held s) (ha : place a = some (r, p)) (hlen : (p ++ is).length = 4)
    (hp : p.length < 4) (hslot : pol.Owns r p (is.headD 0)) (hplain : r = pol.boot → (p ++ is).head? ≠ some 0)
    (hlook : lookup s.tables a is = none) : reach s.tables a is = none := by
  induction is generalizing a p with
  | nil =>
    rw [List.append_nil] at hlen
    omega
  | cons i is ih =>
    by_cases hpres : (s.tables a i).isPresent = true
    · by_cases hnil : is = []
      · subst hnil
        rw [lookup, if_pos rfl, if_pos hpres] at hlook
        cases hlook
      · have hrest := List.length_pos_iff.mpr hnil
        rw [List.length_append, List.length_cons] at hlen
        have hhead : r = pol.boot → p.head? ≠ some 0 := by
          intro hr hzero
          apply hplain hr
          rw [List.head?_append, hzero]
          rfl
        obtain ⟨hlink, hb⟩ := h.follow_present (i := i) ha (by omega) hslot hhead hpres
        obtain ⟨-, hsmall, -⟩ := PageTableEntry.link_eq_some.mp hlink
        rw [lookup, if_neg hnil, hlink, Option.bind_some] at hlook
        have hdown := ih hb (by simp; omega) (by simp; omega) (fun hbad => by simp at hbad)
          (by rwa [List.append_assoc, List.singleton_append]) hlook
        rw [reach, if_pos hpres, if_neg (by simp [hsmall]), hdown, Option.map_none]
    · exact reach_absent (by simpa using hpres) is

end Placed

section Mode

variable {s : PageMemory}

theorem unmapPage_mode (root : PhysPage) (v : VirtAddr) (s : PageMemory) :
    (unmapPage root v s).2.isBootstrapping = s.isBootstrapping := by
  unfold unmapPage
  dsimp only
  split_ifs <;> rfl

theorem unmapPages_mode (root : PhysPage) (pages : List VirtAddr) (s : PageMemory) :
    (unmapPages root pages s).isBootstrapping = s.isBootstrapping := by
  induction pages generalizing s with
  | nil => rfl
  | cons v pages ih => exact (ih _).trans (unmapPage_mode root v s)

theorem discardAll_mode (frames : List PhysPage) (s : PageMemory) :
    (frames.foldl discardFree s).isBootstrapping = s.isBootstrapping := by
  induction frames generalizing s with
  | nil => rfl
  | cons f frames ih => exact ih _

theorem allocateFrames_mode (n : ℕ) (l : List PhysPage) (s : PageMemory) :
    (allocateFrames n l s).2.isBootstrapping = s.isBootstrapping := by
  induction n generalizing l s with
  | zero => rfl
  | succ n ih =>
    rw [allocateFrames]
    rcases allocatePage_spares s with he | ⟨f, pmm, he, -⟩
    · rw [he]
      exact discardAll_mode l s
    · rw [he]
      exact ih _ _

theorem unmapOne_mode (root : PhysPage) (owns : Bool) (pages : List VirtAddr) (s : PageMemory) :
    (pages.foldl (unmapOne root owns) s).isBootstrapping = s.isBootstrapping := by
  induction pages generalizing s with
  | nil => rfl
  | cons v pages ih =>
    refine (ih _).trans ?_
    have hone := unmapPage_mode root v s
    unfold unmapOne
    generalize unmapPage root v s = result at hone
    rcases result with ⟨e | page, s₁⟩
    · exact hone
    · dsimp only at hone ⊢
      split_ifs
      · exact hone
      · exact hone

/-- Booting is over, and no call brings it back. -/
theorem mapPages_mode (root : PhysPage) (flags : PageTableFlags) (todo : List (VirtAddr × PhysPage))
    (done : List VirtAddr) (hmode : s.isBootstrapping = false) :
    (mapPages root flags done todo s).2.isBootstrapping = false := by
  induction todo generalizing done s with
  | nil => exact hmode
  | cons x todo ih =>
    have hspares := mapPage_spares hmode root x.1 x.2 flags
    rw [mapPages]
    generalize mapPage root x.1 x.2 flags s = result at hspares
    rcases result with ⟨e | ⟨⟩, s₁⟩
    · exact (unmapPages_mode root done s₁).trans (hspares.mode.trans hmode)
    · exact ih _ (hspares.mode.trans hmode)

theorem mapRegion_mode {k : Kernel} (region : VirtRegion) (pages : List PhysPage) (hmode : k.mem.isBootstrapping = false) :
    (mapRegion region pages k).2.mem.isBootstrapping = false := by
  have hmap := mapPages_mode k.rootPml4 region.permissions.toPageFlags
    ((pagesFrom region.start.addr region.pageCount).zip pages) [] hmode
  unfold mapRegion
  generalize mapPages k.rootPml4 region.permissions.toPageFlags []
    ((pagesFrom region.start.addr region.pageCount).zip pages) k.mem = result at hmap
  rcases result with ⟨_ | _, mem⟩
  · split_ifs
    · exact hmode
    · exact hmap
  · split_ifs
    · exact hmode
    · exact hmap

theorem allocateAndMapRegion_mode {k : Kernel} (size : U64) (permissions : VirtPermissions) (purpose : RegionPurpose)
    (hmode : k.mem.isBootstrapping = false) :
    (allocateAndMapRegion size permissions purpose k).2.mem.isBootstrapping = false := by
  unfold allocateAndMapRegion
  generalize reserveVirtualRegion size permissions purpose k.vmm = taken
  rcases taken with ⟨e | reserved, vmm'⟩
  · exact hmode
  · dsimp only
    split_ifs
    · exact hmode
    · have htaken := allocateFrames_mode (size.toNat / pageSize) [] k.mem
      generalize allocateFrames (size.toNat / pageSize) [] k.mem = got at htaken
      rcases got with ⟨_ | frames, s₁⟩
      · exact htaken.trans hmode
      · have hmap := mapPages_mode k.rootPml4 permissions.toPageFlags
          ((pagesFrom reserved.start.addr (size.toNat / pageSize)).zip frames) [] (htaken.trans hmode)
        dsimp only at hmap ⊢
        generalize mapPages k.rootPml4 permissions.toPageFlags []
          ((pagesFrom reserved.start.addr (size.toNat / pageSize)).zip frames) s₁ = result at hmap
        rcases result with ⟨_ | _, s₂⟩
        · exact (discardAll_mode frames s₂).trans hmap
        · exact hmap

end Mode

section Shortage

variable {F : Finset U64} {c : ℕ} {k b : U64} {place place' : Placement} {held : Finset U64} {s s' : PageMemory}
  {p q : Path} {v : VirtAddr}

/-- Counting from the root or from a table on the way is the same. -/
theorem missing_placed (h : Owned (tablePolicy k) F c place held s) (hb : place b = some (k, p)) (hp : p.length ≤ 3)
    (q : Path) : missing s.tables k (p ++ q) = missing s.tables b q := by
  induction p using List.reverseRecOn generalizing b q with
  | nil => rw [h.forest.root_self hb, List.nil_append]
  | append_singleton p i ih =>
    rw [List.length_append, List.length_singleton] at hp
    obtain ⟨a, ha, he⟩ := h.forest.parent hb
    rw [Policy.edge_table (by omega) (table_owns _ _)] at he
    rw [List.append_assoc, List.singleton_append, ih ha (by omega), missing, he]

/-- Tables for one page are tables another may lack, but no more than the first lacked. -/
theorem missing_grows (h : Owned (tablePolicy k) F c place held s) (h' : Owned (tablePolicy k) F c place' held s')
    (hg : Grows (tablePolicy k) k place place' s s')
    (hnew : ∀ {b r' q}, place' b = some (r', q) → place b = some (r', q) ∨ q <+: v.tablePath)
    (hb : place b = some (k, p)) (hlen : p.length + q.length ≤ 3) :
    missing s.tables b q ≤ missing s'.tables b q + missing s.tables k v.tablePath := by
  induction q generalizing b p with
  | nil => simp [missing]
  | cons j q ih =>
    rw [List.length_cons] at hlen
    have hlt : p.length < 3 := by omega
    cases hlink : (s.tables b j).link with
    | some d =>
      have hd := h.follow hb hlt (table_owns _ _) hlink
      have hsame := hg.present j hb (PageTableEntry.link_eq_some.mp hlink).1
      rw [missing, missing, hsame, hlink]
      exact ih hd (by rw [List.length_append, List.length_singleton]; omega)
    | none =>
      cases hlink' : (s'.tables b j).link with
      | none =>
        rw [missing, missing, hlink, hlink']
        exact Nat.le_add_right _ _
      | some d =>
        have hd := h'.follow (hg.kept hb) hlt (table_owns _ _) hlink'
        rcases hnew hd with hold | hpre
        · obtain ⟨a, ha, he⟩ := h.forest.parent hold
          rw [h.forest.place_inj ha hb, Policy.edge_table hlt (table_owns _ _), hlink] at he
          cases he
        · -- the new table is on the way to `v`, which lacked it and all below it
          obtain ⟨rest, hrest⟩ := hpre
          have hthree := v.tablePath_length
          rw [← hrest, List.length_append, List.length_append, List.length_singleton] at hthree
          have hcount : missing s.tables k v.tablePath = rest.length + 1 := by
            rw [← hrest, List.append_assoc, missing_placed h hb (by omega), List.singleton_append, missing, hlink]
          rw [missing, hlink, hcount]
          dsimp only
          omega

theorem missing_writeLeaf (h : Owned (tablePolicy k) F c place held s) {pt : U64} (hpt : place pt = some (k, v.tablePath))
    (e : PageTableEntry) (hb : place b = some (k, p)) (hlen : p.length + q.length ≤ 3) :
    missing (s.writeEntry pt v.ptIndex e).tables b q = missing s.tables b q := by
  induction q generalizing b p with
  | nil => rfl
  | cons j q ih =>
    rw [List.length_cons] at hlen
    have hne : ¬(b = pt ∧ j = v.ptIndex) := by
      rintro ⟨rfl, -⟩
      rw [hb] at hpt
      have hthree := v.tablePath_length
      rw [← (Prod.mk.inj (Option.some.inj hpt)).2] at hthree
      omega
    rw [missing, missing, writeEntry_tables, if_neg hne]
    cases hlink : (s.tables b j).link with
    | none => rfl
    | some d =>
      exact ih (h.follow hb (by omega) (table_owns _ _) hlink) (by rw [List.length_append, List.length_singleton]; omega)

/-- A batch that goes through found a frame for each table a page lacked. -/
theorem mapPages_supplied {flags : PageTableFlags} {todo : List (VirtAddr × PhysPage)} {done : List VirtAddr}
    (h : Owned (tablePolicy k) F c place held s) (hk : place k = some (k, [])) (hmode : s.isBootstrapping = false)
    (hrun : mapPages ⟨k⟩ flags done todo s = (true, s')) :
    ∀ x ∈ todo, missing s.tables k x.1.tablePath ≤ s.pmm.freeFrames.card := by
  induction todo generalizing done place s with
  | nil => simp
  | cons x todo ih =>
    obtain ⟨v, phys⟩ := x
    rw [mapPages] at hrun
    by_cases hargs : isCanonical v.addr = true ∧ v.isAligned = true ∧ phys.addr.toNat % pageSize = 0
    · obtain ⟨hc, hal, hph⟩ := hargs
      rcases h.mapPage_cases hk (table_owns [] _ rfl) (by simp [hmode]) hc hal hph flags with
        ⟨place', s₁, ho, hg, hnew, ⟨pt, he, hpt, -, -, hcost⟩ | ⟨he, -⟩ | ⟨he, -⟩⟩
      · rw [he] at hrun
        have hcost' := hcost hmode
        have hrest := ih (writeLeaf_tables ho (hg.kept hk) hpt (.set phys.addr flags)).1 (hg.kept hk)
          (hg.boot.mode.trans hmode) hrun
        intro x hx
        cases hx with
        | head => exact Nat.le.intro ((Nat.add_comm _ _).trans hcost')
        | tail _ hx =>
          have hle := hrest x hx
          rw [missing_writeLeaf ho hpt _ (hg.kept hk) (by rw [x.1.tablePath_length]; simp)] at hle
          change _ ≤ s₁.pmm.freeFrames.card at hle
          have hgrow := missing_grows h ho hg hnew hk (q := x.1.tablePath) (by rw [x.1.tablePath_length]; simp)
          omega
      · rw [he] at hrun
        cases hrun
      · rw [he] at hrun
        cases hrun
    · obtain ⟨e, he⟩ := mapPage_refused ⟨k⟩ flags s hargs
      rw [he] at hrun
      cases hrun

/-- A region that was allocated is the only place where the processor finds something new. -/
theorem allocated_walks {kernel kernel' : Kernel} {size : U64} {permissions : VirtPermissions} {purpose : RegionPurpose}
    {region : VirtRegion} (h : InOrder kernel)
    (hrun : allocateAndMapRegion size permissions purpose kernel = (.ok region, kernel')) :
    SameWalksBut kernel.rootPml4.addr (pagesFrom region.start.addr (size.toNat / pageSize)) kernel.mem kernel'.mem := by
  obtain ⟨F, c, place, held, ho, hroot, hmode⟩ := h
  have hflags := (VirtPermissions.toPageFlags_ok permissions).1
  unfold allocateAndMapRegion at hrun
  generalize reserveVirtualRegion size permissions purpose kernel.vmm = taken at hrun
  rcases taken with ⟨e | reserved, vmm'⟩
  · cases hrun
  · dsimp only at hrun
    split_ifs at hrun
    · cases hrun
    · have hsize := size.isLt
      rcases takeAndMap_tables ho hroot hmode hflags reserved.start.addr (n := size.toNat / pageSize) (by
          rw [pageSize]
          omega) with
        ⟨s', he, -⟩ | ⟨l, s₁, he, -, ⟨place', s', hmap, -, -, -, hadds⟩ | ⟨place', s', hmap, -⟩⟩
      · rw [he] at hrun
        cases hrun
      · rw [he] at hrun
        dsimp only at hrun
        rw [hmap] at hrun
        cases hrun
        exact hadds.others
      · rw [he] at hrun
        dsimp only at hrun
        rw [hmap] at hrun
        cases hrun

end Shortage

end VenturaOS.Vmm
