import VenturaOS.Machine.Invariant
import VenturaOS.Tlb.Model
import VenturaOS.Vmm.Rollback

/-!
# One page at a time

`map_page` and `unmap_page` below any root change the walks from the root in
CR3 on their own page only, and name it to the processor. The loops over
pages follow.
-/
namespace VenturaOS.Tlb
open Library Memory Pmm Paging Vmm AddressSpaces Machine

/-- The tables below the kernel root `k` and the root `a` in CR3, which has the kernel's entries where it
has none of its own. -/
structure Layout (F : Finset U64) (c : ℕ) (k a : U64) (place : Placement) (held : Finset U64) (s : PageMemory) : Prop where
  owned : Owned (tablePolicy k) F c place held s
  kernel : place k = some (k, [])
  active : place a = some (a, [])
  low : LowHuge k place s
  mode : s.isBootstrapping = false
  shared : ∀ i, (tablePolicy k).slot a i = false → s.tables a i = s.tables k i ∧ (s.tables k i).isPresent = true

/-- The processor reads the same entries for every page, except those dropped. -/
def SameBut (a : U64) (dropped : Set Path) (s s' : PageMemory) : Prop :=
  ∀ q, q.length = 4 → q ∉ dropped → reach s'.tables a q = reach s.tables a q

abbrev walks (a : U64) (s : PageMemory) : Path → Option (List PageTableEntry) := (Moment.mk s.tables a).entries

section Writes

variable {a : U64} {dropped : Set Path} {s s' s'' : PageMemory} {w : Write} {ws ws' : List Write}

theorem walks_of_tables (h : s'.tables = s.tables) : walks a s' = walks a s := by
  change (Moment.mk s'.tables a).entries = _
  rw [h]

theorem Invalidates.write (hw : SameBut a w.1 s w.2) (h : Invalidates (walks a w.2) (under a ws) (walks a s')) :
    Invalidates (walks a s) (under a (w :: ws)) (walks a s') := by
  apply Invalidates.change _ h
  intro q entries hq hdropped
  simp only [walks, Moment.entries] at hq ⊢
  split_ifs at hq ⊢ with hlen
  rw [hw q hlen hdropped]
  exact hq

theorem SameBut.trans (h : SameBut a ∅ s s') (h' : SameBut a ∅ s' s'') : SameBut a ∅ s s'' :=
  fun q hq hdropped => (h' q hq hdropped).trans (h q hq hdropped)

/-- Writes that leave every walk as it was. -/
theorem Invalidates.silent (ws : List Write) (hws : ∀ w ∈ ws, SameBut a ∅ s w.2) (h : SameBut a ∅ s s') :
    Invalidates (walks a s) (under a ws) (walks a s') := by
  have hsame {t : PageMemory} (ht : SameBut a ∅ s t) : walks a t = walks a s := by
    funext q
    simp only [walks, Moment.entries]
    split_ifs with hlen
    · exact ht q hlen (Set.notMem_empty q)
    · rfl
  rw [hsame h]
  apply Invalidates.constant
  intro c hc
  obtain ⟨w, hw, rfl⟩ := List.mem_map.mp hc
  exact hsame (hws w hw)

theorem Invalidates.appendWrites (h : Invalidates (walks a s) (under a ws) (walks a s'))
    (h' : Invalidates (walks a s') (under a ws') (walks a s'')) :
    Invalidates (walks a s) (under a (ws ++ ws')) (walks a s'') := by
  rw [under, List.map_append]
  exact h.append h'

end Writes

section Pages

variable {F : Finset U64} {c : ℕ} {k a r : U64} {place place' : Placement} {held held' : Finset U64} {s s' : PageMemory}
  {dropped : Set Path} {v : VirtAddr}

namespace Layout

/-- Trees of which every root keeps its walks, and their entries that are there. -/
theorem step (h : Layout F c k a place held s) (ho : Owned (tablePolicy k) F c place' held' s')
    (hmode : s'.isBootstrapping = s.isBootstrapping) (hkept : ∀ {b x}, place b = some x → place' b = some x)
    (hpresent : ∀ {b r p} (i : Fin 512), place b = some (r, p) → p.length < 3 → (s.tables b i).isPresent = true →
      s'.tables b i = s.tables b i)
    (hreach : ∀ {r j q}, place r = some (r, []) → q.length = 3 → (tablePolicy k).slot r j = true → j :: q ∉ dropped →
      reach s'.tables r (j :: q) = reach s.tables r (j :: q)) :
    Layout F c k a place' held' s' ∧ SameBut a dropped s s' := by
  have hshared (i : Fin 512) (hi : (tablePolicy k).slot a i = false) :
      s'.tables a i = s'.tables k i ∧ s'.tables k i = s.tables k i ∧ s'.tables a i = s.tables a i := by
    obtain ⟨he, hp⟩ := h.shared i hi
    have hk := hpresent i h.kernel (by simp) hp
    have ha := hpresent i h.active (by simp) (by rw [he]; exact hp)
    exact ⟨by rw [ha, hk, he], hk, ha⟩
  constructor
  · refine ⟨ho, hkept h.kernel, hkept h.active, ?_, hmode.trans h.mode, fun i hi => ?_⟩
    · intro i3 i2 hi
      obtain ⟨pd, f, hpd, hlarge, hf⟩ := h.low i3 i2 hi
      refine ⟨pd, f, hkept hpd, ?_, hf⟩
      rw [hpresent i2 hpd (by simp) (by rw [hlarge]; exact largeEntry_isPresent f), hlarge]
    · obtain ⟨he, hk, -⟩ := hshared i hi
      exact ⟨he, by rw [hk]; exact (h.shared i hi).2⟩
  · intro q hq hdropped
    cases q with
    | nil => cases hq
    | cons j q =>
      have hlen : q.length = 3 := by simpa using hq
      cases hslot : (tablePolicy k).slot a j with
      | true => exact hreach h.active hlen hslot hdropped
      | false =>
        -- the walk goes on as one from the kernel root
        have hroot {tables : U64 → PageTable} (he : tables a j = tables k j) :
            reach tables a (j :: q) = reach tables k (j :: q) := by
          rw [reach, reach, he]
        rw [hroot (hshared j hslot).1, hroot (h.shared j hslot).1]
        exact hreach h.kernel hlen (by simp [tablePolicy]) hdropped

/-- New tables change no walk. -/
theorem grow (h : Layout F c k a place held s) (ho : Owned (tablePolicy k) F c place' held s')
    (hg : Grows (tablePolicy k) r place place' s s') : Layout F c k a place' held s' ∧ SameBut a ∅ s s' :=
  h.step ho hg.boot.mode hg.kept (fun i hb _ => hg.present i hb) fun hr hq hslot _ =>
    hg.reach_eq hr (by simpa using hq) fun _ => hslot

/-- A leaf changes the walk of its own page. -/
theorem writeLeaf (h : Layout F c k a place held s) {pt : U64} (hpt : place pt = some (r, v.tablePath)) (e : PageTableEntry) :
    Layout F c k a place held (s.writeEntry pt v.ptIndex e) ∧ SameBut a {v.path} s (s.writeEntry pt v.ptIndex e) := by
  have ho := h.owned.writeLeaf (i := v.ptIndex) (e := e) hpt v.tablePath_length (table_edge_leaf v.tablePath_length _)
    (table_edge_leaf v.tablePath_length _) fun _ => trivial
  apply h.step ho rfl id
  · intro b r' p i hb hp _
    rw [writeEntry_tables, if_neg]
    rintro ⟨rfl, -⟩
    rw [hpt] at hb
    cases hb
    exact absurd v.tablePath_length (by omega)
  · intro r' j q hr hq hslot hne
    apply h.owned.reach_writeEntry hpt v.tablePath_length e hr (by simpa using hq) fun _ => hslot
    rintro ⟨-, he⟩
    rw [List.nil_append] at he
    exact hne (by rw [he]; rfl)

theorem clear (h : Layout F c k a place held s) {f : U64} (hf : place f = none) {held₁ : Finset U64} {s₁ : PageMemory}
    (ho : Owned (tablePolicy k) F c place held₁ s₁) (ht : ∀ b, b ≠ f → s₁.tables b = s.tables b)
    (hmode : s₁.isBootstrapping = s.isBootstrapping) : SameBut a ∅ s (s₁.writeTable f .zero) := by
  have hplaced {b : U64} {x} (hb : place b = some x) : (s₁.writeTable f .zero).tables b = s.tables b := by
    have hne : b ≠ f := by
      rintro rfl
      rw [hf] at hb
      cases hb
    exact (Function.update_of_ne hne _ _).trans (ht b hne)
  apply (h.step (ho.writeTable_unplaced hf .zero) hmode id _ _).2
  · intro b r p i hb _ _
    rw [hplaced hb]
  · intro r j q hr hq hslot _
    exact h.owned.reach_of_placed (fun _ _ hb => hplaced hb) hr (by simpa using hq) fun _ => hslot

/-- On the way down the processor reads what it read before, after each write. -/
theorem walk_silent {b : U64} {p : Path} (is : Path) (h : Layout F c k a place held s) (hb : place b = some (r, p))
    (hlen : p.length + is.length ≤ 3) (hown : ∀ i ∈ is.head?, (tablePolicy k).Owns r p i) :
    ∀ w ∈ walkWrites b is s, SameBut a ∅ s w.2 := by
  induction is generalizing b p place s with
  | nil => simp [walkWrites]
  | cons i is ih =>
    rw [List.length_cons] at hlen
    have hp : p.length < 3 := by omega
    have hi : (tablePolicy k).Owns r p i := hown i (by simp)
    rw [walkWrites, tableWrites, getOrCreateTable]
    by_cases hpres : (s.tables b i).isPresent = true
    · by_cases hhuge : (s.tables b i).isHuge = true
      · simp [hpres, hhuge]
      · have hlink : (s.tables b i).link = some (s.tables b i).physAddr :=
          PageTableEntry.link_eq_some.mpr ⟨hpres, by simpa using hhuge, rfl⟩
        simp only [hpres, hhuge, if_true, List.nil_append]
        exact ih h (h.owned.follow hb hp hi hlink) (by simp; omega) (by simp [Policy.Owns])
    · have habsent : (s.tables b i).isPresent = false := by simpa using hpres
      simp only [habsent, Bool.false_eq_true, if_false]
      rcases h.owned.newTableFrame_cases with ⟨he, -⟩ | ⟨f, s₁, he, ho, hf, hplace, ht, hboot, hpmm, hfree⟩
      · simp [he]
      · have hne : b ≠ f := by
          rintro rfl
          rw [hplace] at hb
          cases hb
        obtain ⟨ho', hg⟩ := ho.linkTable hf hb hp hi (by rw [ht b hne]; exact habsent) (.inl (hfree h.mode).1) ht hboot hpmm
        obtain ⟨hl, hlinked⟩ := h.grow ho' hg
        simp only [he, List.cons_append, List.nil_append, List.mem_cons]
        rintro w (rfl | rfl | hw)
        · exact h.clear hplace ho ht hboot.mode
        · exact hlinked
        · exact hlinked.trans (ih hl (Function.update_self _ _ _) (by simp; omega) (by simp [Policy.Owns]) w hw)

/-- No page table stands over the low memory. -/
theorem not_low (h : Layout F c k a place held s) {pt : U64} (hpt : place pt = some (k, v.tablePath)) : ¬ IsLow v := by
  intro hv
  obtain ⟨h4, h3⟩ := hv.index
  obtain ⟨pd, f, hpd, hlarge, -⟩ := h.low v.pdptIndex v.pdIndex h3
  rw [VirtAddr.tablePath, h4] at hpt
  obtain ⟨b, hb, he⟩ := h.owned.forest.parent (show place pt = some (k, [0, v.pdptIndex] ++ [v.pdIndex]) from hpt)
  rw [h.owned.forest.place_inj hb hpd, Policy.edge_table (by simp) (table_owns _ _), PageTableEntry.link_eq_some] at he
  simp [hlarge, largeEntry_isHuge] at he

theorem map (h : Layout F c k a place held s) (hr : place r = some (r, [])) (hslot : (tablePolicy k).slot r v.pml4Index = true)
    (phys : PhysPage) (flags : PageTableFlags) :
    ∃ place', Layout F c k a place' held (Paging.mapPage ⟨r⟩ v phys flags s).2 ∧
      Invalidates (walks a s) (under a (mapWrites ⟨r⟩ v phys flags s)) (walks a (Paging.mapPage ⟨r⟩ v phys flags s).2) ∧
      (r = k → (Paging.mapPage ⟨r⟩ v phys flags s).1 = .ok () → ¬ IsLow v) := by
  unfold mapWrites
  by_cases hargs : isCanonical v.addr = true ∧ v.isAligned = true ∧ phys.addr.toNat % pageSize = 0
  · obtain ⟨hc, hal, hph⟩ := hargs
    obtain ⟨place', s₁, ho, hg, -, hres⟩ := h.owned.mapPage_cases hr hslot (by simp [h.mode]) hc hal hph flags
    obtain ⟨hl, hsame⟩ := h.grow ho hg
    have hdown : Invalidates (walks a s) (under a (walkWrites r v.tablePath s)) (walks a s₁) :=
      Invalidates.silent _ (h.walk_silent v.tablePath hr (by simp [VirtAddr.tablePath])
        (by simpa [VirtAddr.tablePath, Policy.Owns] using hslot)) hsame
    rw [if_pos ⟨hc, hal, hph⟩]
    rcases hres with ⟨pt, he, hpt, -⟩ | ⟨he, -⟩ | ⟨he, -⟩
    · obtain ⟨hl', hsame'⟩ := hl.writeLeaf hpt (.set phys.addr flags)
      rw [he]
      refine ⟨place', hl', Invalidates.appendWrites hdown (Invalidates.write hsame' (.done _)), ?_⟩
      rintro rfl -
      exact hl.not_low hpt
    · rw [he, List.append_nil]
      exact ⟨place', hl, hdown, fun _ hok => by cases hok⟩
    · rw [he, List.append_nil]
      exact ⟨place', hl, hdown, fun _ hok => by cases hok⟩
  · obtain ⟨e, he⟩ := mapPage_refused ⟨r⟩ flags s hargs
    rw [if_neg hargs, he]
    exact ⟨place, h, .done _, fun _ hok => by cases hok⟩

theorem unmap (h : Layout F c k a place held s) (hr : place r = some (r, [])) (hslot : (tablePolicy k).slot r v.pml4Index = true)
    (hplain : r = k → v.pml4Index ≠ 0) : Layout F c k a place held (unmapWrite ⟨r⟩ v s).2 ∧
      SameBut a (unmapWrite ⟨r⟩ v s).1 s (unmapWrite ⟨r⟩ v s).2 := by
  have hfails {e : UnmapError} (he : Paging.unmapPage ⟨r⟩ v s = (.error e, s)) :
      Layout F c k a place held (unmapWrite ⟨r⟩ v s).2 ∧ SameBut a (unmapWrite ⟨r⟩ v s).1 s (unmapWrite ⟨r⟩ v s).2 := by
    simp only [unmapWrite, he]
    exact ⟨h, fun _ _ _ => rfl⟩
  by_cases hargs : isCanonical v.addr = true ∧ v.isAligned = true
  · obtain ⟨hc, hal⟩ := hargs
    rcases h.owned.leaf_cases hr hslot hplain hc with ⟨pt, hpt, -, -, -, he⟩ | ⟨-, -, e, he⟩
    · simp only [unmapWrite, he hal]
      exact h.writeLeaf hpt .empty
    · exact hfails he
  · by_cases hc : isCanonical v.addr = true
    · have hal : v.isAligned = false := by simpa [hc] using hargs
      exact hfails (e := .unalignedVirtualAddress) (by simp [Paging.unmapPage, hc, hal])
    · exact hfails (e := .nonCanonicalAddress) (by simp [Paging.unmapPage, hc])

end Layout

theorem unmapWrite_mem (root : PhysPage) (v : VirtAddr) (s : PageMemory) :
    (unmapWrite root v s).2 = (Paging.unmapPage root v s).2 := by
  unfold unmapWrite
  split <;> rename_i he <;> rw [he]

end Pages

section Loops

variable {F : Finset U64} {c : ℕ} {k a : U64} {place : Placement} {held : Finset U64} {s : PageMemory}

theorem Layout.unmapLoop (vs : List VirtAddr) (h : Layout F c k a place held s) (hvs : ∀ v ∈ vs, v.pml4Index ≠ 0) :
    Invalidates (walks a s) (under a (unmapPagesWrites ⟨k⟩ vs s)) (walks a (unmapPages ⟨k⟩ vs s)) := by
  induction vs generalizing s with
  | nil => exact .done _
  | cons v vs ih =>
    obtain ⟨hl, hsame⟩ := h.unmap (v := v) h.kernel (by simp [tablePolicy]) fun _ => hvs v List.mem_cons_self
    apply Invalidates.write hsame
    rw [unmapWrite_mem] at hl ⊢
    exact ih hl fun w hw => hvs w (List.mem_cons_of_mem v hw)

theorem Layout.mapLoop (todo : List (VirtAddr × PhysPage)) (mapped : List VirtAddr) (flags : PageTableFlags)
    (h : Layout F c k a place held s) (hmapped : ∀ v ∈ mapped, v.pml4Index ≠ 0)
    (htodo : ∀ x ∈ todo, x.1.pml4Index ≠ 0 ∨ IsLow x.1) :
    Invalidates (walks a s) (under a (mapPagesWrites ⟨k⟩ flags mapped todo s))
      (walks a (mapPages ⟨k⟩ flags mapped todo s).2) := by
  induction todo generalizing mapped place s with
  | nil => exact .done _
  | cons x todo ih =>
    rcases x with ⟨v, phys⟩
    obtain ⟨place', hl, hpage, hnot⟩ := h.map (v := v) h.kernel (by simp [tablePolicy]) phys flags
    rw [mapPagesWrites, mapPages]
    apply Invalidates.appendWrites hpage
    generalize Paging.mapPage ⟨k⟩ v phys flags s = result at hl hnot ⊢
    rcases result with ⟨_ | _, s₁⟩
    · exact hl.unmapLoop mapped hmapped
    · apply ih (mapped ++ [v]) hl
      · intro w hw
        rcases List.mem_append.mp hw with hw | hw
        · exact hmapped w hw
        · rw [List.mem_singleton.mp hw]
          exact (htodo (v, phys) List.mem_cons_self).resolve_right (hnot rfl rfl)
      · exact fun y hy => htodo y (List.mem_cons_of_mem _ hy)

end Loops
end VenturaOS.Tlb
