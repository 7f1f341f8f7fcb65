import VenturaOS.Vmm.KernelTables

/-!
# The loops and their rollbacks

Frames are taken, mapped, unmapped and given back in loops whose failure
paths undo the work done so far. Each loop either moves its frames completely
or leaves the caller holding what it held before.
-/
namespace VenturaOS.Vmm
open Library Pmm Paging Memory

/-- The addresses of a list of frames. -/
def addrs (l : List PhysPage) : Finset U64 := (l.map PhysPage.addr).toFinset

@[simp] theorem addrs_nil : addrs [] = ∅ := rfl

@[simp] theorem mem_addrs {l : List PhysPage} {a : U64} : a ∈ addrs l ↔ ⟨a⟩ ∈ l := by
  simp only [addrs, List.mem_toFinset, List.mem_map]
  constructor
  · rintro ⟨p, hp, rfl⟩
    exact hp
  · intro h
    exact ⟨_, h, rfl⟩

/-- Distinct managed frames, none of which is in `held`. -/
structure Batch (F held : Finset U64) (l : List PhysPage) : Prop where
  nodup : l.Nodup
  managed : ∀ p ∈ l, p.addr ∈ F
  apart : ∀ p ∈ l, p.addr ∉ held

theorem Batch.nil (F held : Finset U64) : Batch F held [] := ⟨by simp, by simp, by simp⟩

variable {k : U64} {F : Finset U64} {c : ℕ} {place : Placement} {held : Finset U64} {s : PageMemory}
  {flags : PageTableFlags}

section Frames

variable {pol : Policy}

/-- Giving back a batch of held frames: every ignored result is `Ok`. -/
theorem freeAll (l : List PhysPage) (h : Owned pol F c place (held ∪ addrs l) s) (hl : Batch F held l) :
    Owned pol F c place held (l.foldl discardFree s) ∧ (l.foldl discardFree s).tables = s.tables ∧
      (l.foldl discardFree s).bootstrapPool = s.bootstrapPool ∧
      (l.foldl discardFree s).isBootstrapping = s.isBootstrapping ∧ LogOk s (l.foldl discardFree s) := by
  induction l generalizing s with
  | nil =>
    rw [addrs_nil, Finset.union_empty] at h
    exact ⟨h, rfl, rfl, rfl, .refl s⟩
  | cons p l ih =>
    rcases List.nodup_cons.mp hl.nodup with ⟨hp, hnodup⟩
    have hmem : p.addr ∈ held ∪ addrs (p :: l) := by simp
    rcases h.discardFree_held hmem (hl.managed p (by simp)) with ⟨pmm, he, -, ho⟩
    have hheld : (held ∪ addrs (p :: l)).erase p.addr = held ∪ addrs l := by
      have hap := hl.apart p (by simp)
      ext a
      simp only [Finset.mem_erase, Finset.mem_union, mem_addrs, List.mem_cons]
      constructor
      · rintro ⟨hne, ha | rfl | ha⟩
        · exact .inl ha
        · exact absurd rfl hne
        · exact .inr ha
      · rintro (ha | ha)
        · exact ⟨fun he => hap (he ▸ ha), .inl ha⟩
        · exact ⟨fun he => hp (by subst he; exact ha), .inr (.inr ha)⟩
    rw [hheld] at ho
    rcases ih ho ⟨hnodup, fun q hq => hl.managed q (by simp [hq]), fun q hq => hl.apart q (by simp [hq])⟩ with
      ⟨h1, h2, h3, h4, h5⟩
    rw [List.foldl_cons]
    refine ⟨h1, h2.trans (by rw [he]), h3.trans (by rw [he]), h4.trans (by rw [he]), .trans ⟨[.ok ()], ?_, by simp⟩ h5⟩
    rw [he]

/-- Taking frames: all of them, or none. -/
theorem allocateFrames_cases (n : ℕ) (l : List PhysPage) (h : Owned pol F c place (held ∪ addrs l) s)
    (hl : Batch F held l) :
    (∃ l' s', allocateFrames n l s = (some l', s') ∧ l'.length = l.length + n ∧ Batch F held l' ∧
      Owned pol F c place (held ∪ addrs l') s' ∧ s'.tables = s.tables ∧ SameBoot s s' ∧
      s'.pmm.freeFrames.card + n = s.pmm.freeFrames.card) ∨
    ∃ s', allocateFrames n l s = (none, s') ∧ Owned pol F c place held s' ∧ s'.tables = s.tables ∧
      s'.bootstrapPool = s.bootstrapPool ∧ s'.isBootstrapping = s.isBootstrapping ∧ LogOk s s' ∧
      s.pmm.freeFrames.card < n := by
  induction n generalizing l s with
  | zero => exact .inl ⟨l, s, rfl, rfl, hl, h, rfl, .refl s, rfl⟩
  | succ n ih =>
    rw [allocateFrames]
    rcases h.allocatePage_cases with ⟨he, hempty⟩ | ⟨f, pmm, he, hfree, herase, ho⟩
    · rcases freeAll l h hl with ⟨h1, h2, h3, h4, h5⟩
      exact .inr ⟨_, by rw [he], h1, h2, h3, h4, h5, by rw [hempty]; simp⟩
    · have hnot := (h.free_unplaced hfree).2
      have hF := h.frames.free_subset hfree
      have hbatch : Batch F held (l ++ [⟨f⟩]) := by
        simp only [Finset.mem_union, mem_addrs, not_or] at hnot
        refine ⟨?_, ?_, ?_⟩
        · rw [List.nodup_append]
          refine ⟨hl.nodup, by simp, ?_⟩
          rintro p hp q hq rfl
          rw [List.mem_singleton] at hq
          exact hnot.2 (hq ▸ hp)
        · intro p hp
          rcases List.mem_append.mp hp with hp | hp
          · exact hl.managed p hp
          · rw [List.mem_singleton.mp hp]
            exact hF
        · intro p hp
          rcases List.mem_append.mp hp with hp | hp
          · exact hl.apart p hp
          · rw [List.mem_singleton.mp hp]
            exact hnot.1
      have hheld : insert f (held ∪ addrs l) = held ∪ addrs (l ++ [⟨f⟩]) := by
        ext a
        simp only [Finset.mem_insert, Finset.mem_union, mem_addrs, List.mem_append, List.mem_singleton,
          PhysPage.mk.injEq]
        tauto
      rw [hheld] at ho
      have hcard := Finset.card_erase_add_one hfree
      rw [← herase] at hcard
      rw [he]
      rcases ih _ ho hbatch with ⟨l', s', hrun, hlen, hb', ho', ht, hsame, hc⟩ | ⟨s', hrun, ho', ht, h3, h4, h5, hc⟩
      · refine .inl ⟨l', s', hrun, ?_, hb', ho', ht, ⟨hsame.pool, hsame.mode, hsame.log⟩, ?_⟩
        · rw [hlen, List.length_append, List.length_singleton]
          omega
        · simp only at hc
          omega
      · refine .inr ⟨s', hrun, ho', ht, h3, h4, h5, ?_⟩
        simp only at hc
        omega

end Frames

/-- A page together with the frame its leaf points to. -/
def Mapped (k : U64) (place : Placement) (x : VirtAddr × PhysPage) : Prop :=
  place x.2.addr = some (k, x.1.path) ∧ isCanonical x.1.addr = true ∧ x.1.isAligned = true

/-- Unmapping pages whose leaf frames are known. -/
theorem unmapPages_mapped (l : List (VirtAddr × PhysPage)) (h : Owned (kernelPolicy k F) F c place held s)
    (hl : ∀ x ∈ l, Mapped k place x) (hnodup : (l.map Prod.snd).Nodup) :
    ∃ place', Owned (kernelPolicy k F) F c place' (held ∪ addrs (l.map Prod.snd))
        (unmapPages ⟨k⟩ (l.map Prod.fst) s) ∧
      KernelStep k place place' s (unmapPages ⟨k⟩ (l.map Prod.fst) s) ∧
      (unmapPages ⟨k⟩ (l.map Prod.fst) s).discarded = s.discarded ∧
      ∀ g x, place' g = some x ↔ place g = some x ∧ g ∉ addrs (l.map Prod.snd) := by
  induction l generalizing place held s with
  | nil => exact ⟨place, by simpa [unmapPages] using h, .refl .., rfl, by simp⟩
  | cons x l ih =>
    rcases hl x (by simp) with ⟨hx, hc, hal⟩
    rcases kernelUnmap h hx hc hal with ⟨s₁, he, ho, hstep, hlog⟩
    rw [List.map_cons, List.nodup_cons] at hnodup
    have hrest : ∀ y ∈ l, Mapped k (Function.update place x.2.addr none) y := by
      intro y hy
      rcases hl y (by simp [hy]) with ⟨hp, hyc, hya⟩
      refine ⟨?_, hyc, hya⟩
      rw [Function.update_of_ne, hp]
      intro heq
      apply hnodup.1
      rw [List.mem_map]
      exact ⟨y, hy, PhysPage.ext heq⟩
    rcases ih ho hrest hnodup.2 with ⟨place', ho', hstep', hlog', hleaf⟩
    have hrun : unmapPages ⟨k⟩ ((x :: l).map Prod.fst) s = unmapPages ⟨k⟩ (l.map Prod.fst) s₁ := by
      simp [unmapPages, he]
    have hheld : insert x.2.addr held ∪ addrs (l.map Prod.snd) = held ∪ addrs ((x :: l).map Prod.snd) := by
      ext a
      simp only [Finset.mem_union, Finset.mem_insert, mem_addrs, List.map_cons, List.mem_cons]
      rw [PhysPage.ext_iff]
      tauto
    rw [hheld] at ho'
    rw [hrun]
    refine ⟨place', ho', hstep.trans hstep', hlog'.trans hlog, fun g y => ?_⟩
    rw [hleaf g y]
    have hxe : (⟨g⟩ : PhysPage) = x.2 ↔ g = x.2.addr := PhysPage.ext_iff
    simp only [mem_addrs, List.map_cons, List.mem_cons, not_or, hxe]
    by_cases hg : g = x.2.addr
    · subst hg
      simp
    · rw [Function.update_of_ne hg]
      tauto

/-- Mapping held frames: all of them become leaves, or the caller holds them all again. -/
theorem mapPages_cases (todo : List (VirtAddr × PhysPage)) (done : List (VirtAddr × PhysPage))
    (h : Owned (kernelPolicy k F) F c place held s) (hk : place k = some (k, [])) (hlow : LowHuge k place s)
    (hmode : s.isBootstrapping = false) (hflags : LeafFlags flags)
    (htodo : ∀ x ∈ todo, x.2.addr ∈ held ∧ x.2.addr ∈ F) (hv : ∀ x ∈ todo, 256 ≤ x.1.pml4Index.val ∨ IsLow x.1)
    (hdone : ∀ x ∈ done, Mapped k place x) (hnodup : ((done ++ todo).map Prod.snd).Nodup) :
    (∃ place' s', mapPages ⟨k⟩ flags (done.map Prod.fst) todo s = (true, s') ∧
      Owned (kernelPolicy k F) F c place' (held \ addrs (todo.map Prod.snd)) s' ∧
      KernelStep k place place' s s' ∧ s'.discarded = s.discarded ∧
      (∀ x ∈ todo, isCanonical x.1.addr = true ∧ x.1.isAligned = true ∧ 256 ≤ x.1.pml4Index.val ∧
        ∀ g, place g ≠ some (k, x.1.path)) ∧
      ∀ g q, q.length = 4 →
        (place' g = some (k, q) ↔ place g = some (k, q) ∨ ∃ x ∈ todo, g = x.2.addr ∧ q = x.1.path)) ∨
    ∃ place' s', mapPages ⟨k⟩ flags (done.map Prod.fst) todo s = (false, s') ∧
      Owned (kernelPolicy k F) F c place' (held ∪ addrs (done.map Prod.snd)) s' ∧
      KernelStep k place place' s s' ∧ s'.discarded = s.discarded ∧
      ∀ g q, q.length = 4 →
        (place' g = some (k, q) ↔ place g = some (k, q) ∧ g ∉ addrs (done.map Prod.snd)) := by
  induction todo generalizing done place held s with
  | nil => exact .inl ⟨place, s, rfl, by simpa using h, .refl .., rfl, by simp, by simp⟩
  | cons x todo ih =>
    rw [mapPages]
    rcases htodo x (by simp) with ⟨hheld, hF⟩
    rcases kernelMap h hk hlow hmode hheld hF hflags (hv x (by simp)) with
      ⟨place₁, s₁, he, ho, hstep, hlog, hc, hal, hup, hvacant, hleaf⟩ | ⟨e, place₁, s₁, he, ho, hstep, hlog, hleaf⟩
    · have hfresh : x.2 ∉ (done ++ todo).map Prod.snd := by
        rw [List.map_append, List.map_cons, List.nodup_append] at hnodup
        rw [List.map_append, List.mem_append, not_or]
        exact ⟨fun hm => hnodup.2.2 _ hm _ (by simp) rfl, (List.nodup_cons.mp hnodup.2.1).1⟩
      have hne {y : VirtAddr × PhysPage} (hy : y ∈ done ++ todo) : y.2.addr ≠ x.2.addr := by
        intro heq
        exact hfresh (List.mem_map.mpr ⟨y, hy, PhysPage.ext heq⟩)
      have hdone' : ∀ y ∈ done ++ [x], Mapped k place₁ y := by
        intro y hy
        rcases List.mem_append.mp hy with hy | hy
        · rcases hdone y hy with ⟨hp, hyc, hya⟩
          exact ⟨(hleaf _ _ (VirtAddr.path_length _)).mpr (.inl hp), hyc, hya⟩
        · rw [List.mem_singleton.mp hy]
          exact ⟨(hleaf _ _ (VirtAddr.path_length _)).mpr (.inr ⟨rfl, rfl⟩), hc, hal⟩
      have htodo' : ∀ y ∈ todo, y.2.addr ∈ held.erase x.2.addr ∧ y.2.addr ∈ F := by
        intro y hy
        rcases htodo y (by simp [hy]) with ⟨hm, hyF⟩
        exact ⟨Finset.mem_erase.mpr ⟨hne (by simp [hy]), hm⟩, hyF⟩
      have hxe (g : U64) : (⟨g⟩ : PhysPage) = x.2 ↔ g = x.2.addr := PhysPage.ext_iff
      have hmode₁ : s₁.isBootstrapping = false := hstep.mode.trans hmode
      have hrun : mapPages ⟨k⟩ flags (done.map Prod.fst ++ [x.1]) todo s₁ =
          mapPages ⟨k⟩ flags ((done ++ [x]).map Prod.fst) todo s₁ := by simp
      simp only [he, hrun]
      rcases ih (done ++ [x]) ho (hstep.kept hk (.inr (by simp))) (hlow.kernelStep hstep) hmode₁ htodo'
          (fun y hy => hv y (by simp [hy])) hdone' (by simpa using hnodup) with
        ⟨place', s', hr, ho', hstep', hlog', hok, hleaf'⟩ | ⟨place', s', hr, ho', hstep', hlog', hleaf'⟩
      · refine .inl ⟨place', s', hr, ?_, hstep.trans hstep', hlog'.trans hlog, ?_, ?_⟩
        · have hsets : held.erase x.2.addr \ addrs (todo.map Prod.snd) =
              held \ addrs ((x :: todo).map Prod.snd) := by
            ext a
            simp only [Finset.mem_sdiff, Finset.mem_erase, mem_addrs, List.map_cons, List.mem_cons, hxe]
            tauto
          rw [← hsets]
          exact ho'
        · intro y hy
          rcases List.mem_cons.mp hy with rfl | hy
          · exact ⟨hc, hal, hup, hvacant⟩
          · rcases hok y hy with ⟨hyc, hya, hyu, hyv⟩
            exact ⟨hyc, hya, hyu, fun g hg => hyv g ((hleaf _ _ (VirtAddr.path_length _)).mpr (.inl hg))⟩
        · intro g q hq
          rw [hleaf' g q hq, hleaf g q hq, or_assoc]
          simp only [List.mem_cons, exists_eq_or_imp]
      · refine .inr ⟨place', s', hr, ?_, hstep.trans hstep', hlog'.trans hlog, ?_⟩
        · have hsets : held.erase x.2.addr ∪ addrs ((done ++ [x]).map Prod.snd) =
              held ∪ addrs (done.map Prod.snd) := by
            ext a
            simp only [Finset.mem_union, Finset.mem_erase, mem_addrs, List.map_append, List.map_cons,
              List.map_nil, List.mem_append, List.mem_singleton, hxe]
            by_cases ha : a = x.2.addr
            · subst ha
              simp [hheld]
            · simp [ha]
          rw [← hsets]
          exact ho'
        · intro g q hq
          rw [hleaf' g q hq, hleaf g q hq]
          simp only [mem_addrs, List.map_append, List.map_cons, List.map_nil, List.mem_append,
            List.mem_singleton, not_or, hxe]
          -- the frame just taken was held, so it stood nowhere before
          have hx : place x.2.addr = none := (h.held_inUse hheld).2
          by_cases hg : g = x.2.addr
          · subst hg
            simp [hx]
          · simp [hg]
    · simp only [he]
      have hdone' : ∀ y ∈ done, Mapped k place₁ y := by
        intro y hy
        rcases hdone y hy with ⟨hp, hyc, hya⟩
        exact ⟨(hleaf _ _ (VirtAddr.path_length _)).mpr hp, hyc, hya⟩
      have hnodup' : (done.map Prod.snd).Nodup := by
        rw [List.map_append, List.nodup_append] at hnodup
        exact hnodup.1
      rcases unmapPages_mapped done ho hdone' hnodup' with ⟨place', ho', hstep', hlog', hleaf'⟩
      refine .inr ⟨place', _, rfl, ho', hstep.trans hstep', hlog'.trans hlog, ?_⟩
      intro g q hq
      rw [hleaf' g (k, q), hleaf g q hq]

end VenturaOS.Vmm
