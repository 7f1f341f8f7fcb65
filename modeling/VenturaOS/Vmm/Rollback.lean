import VenturaOS.Vmm.KernelCalls

/-!
# Undoing a mapping

What a batch of mappings below the kernel root leaves behind when it is given
up half way: new tables, and the same translation of every address. Which
frames the leaves point to plays no part, so the policy here owns tables only.
-/
namespace VenturaOS.Vmm
open Library Pmm Paging Memory

/-- The kernel root and its tables, whatever its leaves point to. -/
def tablePolicy (k : U64) : Policy where
  boot := k
  slot r i := decide (r = k ∨ (i ≠ 0 ∧ i.val < kernelPml4Start))
  leaf _ _ _ := false
  allowed _ _ _ := True

/-- New places are tables below the kernel root, old ones stay. -/
structure Extends (k : U64) (place place' : Placement) : Prop where
  kept : ∀ {a x}, place a = some x → place' a = some x
  fresh : ∀ {a r p}, place' a = some (r, p) → place a = some (r, p) ∨ (r = k ∧ p ≠ [] ∧ p.length ≤ 3)

/-- The processor reads the same entries for every page. -/
def SameWalks (k : U64) (s s' : PageMemory) : Prop := ∀ q, q.length = 4 → reach s'.tables k q = reach s.tables k q

/-- The same, except on the pages of the list. -/
def SameWalksBut (k : U64) (vs : List VirtAddr) (s s' : PageMemory) : Prop :=
  ∀ q, q.length = 4 → q ∉ vs.map VirtAddr.path → reach s'.tables k q = reach s.tables k q

/-- The pages of the list were not mapped before, and nothing else has changed. -/
structure AddsWalks (k : U64) (vs : List VirtAddr) (s s' : PageMemory) : Prop where
  vacant : ∀ v ∈ vs, reach s.tables k v.path = none
  others : SameWalksBut k vs s s'

/-- What was mapped is mapped as before. -/
def Keeps (k : U64) (s s' : PageMemory) : Prop :=
  ∀ q, q.length = 4 → reach s.tables k q ≠ none → reach s'.tables k q = reach s.tables k q

/-- The page table entry of `v` is there. -/
def HasLeaf (k : U64) (place : Placement) (s : PageMemory) (v : VirtAddr) : Prop :=
  ∃ pt, place pt = some (k, v.tablePath) ∧ (s.tables pt v.ptIndex).isPresent = true

section Relations

variable {k : U64} {place place' place'' : Placement} {s s' s'' : PageMemory} {vs : List VirtAddr}

theorem Extends.refl (k : U64) (place : Placement) : Extends k place place := ⟨id, .inl⟩

theorem Extends.trans (h : Extends k place place') (h' : Extends k place' place'') : Extends k place place'' where
  kept ha := h'.kept (h.kept ha)
  fresh ha := by
    rcases h'.fresh ha with ha | hnew
    · exact h.fresh ha
    · exact .inr hnew

theorem Extends.of_grows {pol : Policy} (h : Grows pol k place place' s s') : Extends k place place' where
  kept ha := h.kept ha
  fresh ha := (h.fresh ha).imp_right fun hnew => hnew.2

theorem SameWalks.of_tables (h : s'.tables = s.tables) : SameWalks k s s' := fun q _ => by rw [h]

theorem SameWalks.trans (h : SameWalks k s s') (h' : SameWalks k s' s'') : SameWalks k s s'' :=
  fun q hq => (h' q hq).trans (h q hq)

theorem SameWalksBut.trans (h : SameWalksBut k vs s s') (h' : SameWalksBut k vs s' s'') : SameWalksBut k vs s s'' :=
  fun q hq hn => (h' q hq hn).trans (h q hq hn)

theorem AddsWalks.of_tables (h : AddsWalks k vs s' s'') (ht : s'.tables = s.tables) : AddsWalks k vs s s'' where
  vacant := by
    rw [← ht]
    exact h.vacant
  others := by
    unfold SameWalksBut
    rw [← ht]
    exact h.others

theorem SameWalks.walk (h : SameWalks k s s') (v : VirtAddr) : hardwareWalk s'.tables k v = hardwareWalk s.tables k v :=
  hardwareWalk_of_reach (h v.path v.path_length)

theorem Keeps.refl (k : U64) (s : PageMemory) : Keeps k s s := fun _ _ _ => rfl

theorem Keeps.of_tables (h : s'.tables = s.tables) : Keeps k s s' := fun _ _ _ => by rw [h]

theorem SameWalks.keeps (h : SameWalks k s s') : Keeps k s s' := fun q hq _ => h q hq

theorem AddsWalks.keeps (h : AddsWalks k vs s s') : Keeps k s s' := by
  intro q hq hmapped
  apply h.others q hq
  intro hmem
  obtain ⟨v, hv, rfl⟩ := List.mem_map.mp hmem
  exact hmapped (h.vacant v hv)

theorem table_owns (p : Path) (i : Fin 512) : (tablePolicy k).Owns k p i := fun _ => by simp [tablePolicy]

theorem table_edge_leaf {r : U64} {p : Path} {i : Fin 512} (hp : p.length = 3) (e : PageTableEntry) :
    (tablePolicy k).edge r p i e = none := by
  rw [Policy.edge_leaf hp, if_neg (by simp [tablePolicy])]

end Relations

section Pages

variable {k : U64} {F : Finset U64} {c : ℕ} {place : Placement} {held : Finset U64} {s : PageMemory} {v : VirtAddr}

/-- Growing the tables changes no translation. -/
theorem sameWalks_of_grows {pol : Policy} {place' : Placement} {s' : PageMemory} (hk : place k = some (k, []))
    (howns : ∀ p i, pol.Owns k p i) (hg : Grows pol k place place' s s') : SameWalks k s s' := by
  intro q hq
  cases q with
  | nil => cases hq
  | cons j q => exact hg.reach_eq hk (by simpa using hq) (howns _ _)

/-- Writing a page table entry changes the walk of its page only. -/
theorem sameWalksBut_writeLeaf {pol : Policy} (h : Owned pol F c place held s) (hk : place k = some (k, []))
    (howns : ∀ p i, pol.Owns k p i) {pt : U64} (hpt : place pt = some (k, v.tablePath)) (e : PageTableEntry) :
    SameWalksBut k [v] s (s.writeEntry pt v.ptIndex e) := by
  intro q hq hne
  cases q with
  | nil => cases hq
  | cons j q =>
    refine h.reach_writeEntry hpt v.tablePath_length e hk (by simpa using hq) (howns _ _) ?_
    rintro ⟨-, he⟩
    rw [List.nil_append] at he
    exact hne (by rw [he]; simp [VirtAddr.path])

theorem writeLeaf_tables (h : Owned (tablePolicy k) F c place held s) (hk : place k = some (k, [])) {pt : U64}
    (hpt : place pt = some (k, v.tablePath)) (e : PageTableEntry) :
    Owned (tablePolicy k) F c place held (s.writeEntry pt v.ptIndex e) ∧
      SameWalksBut k [v] s (s.writeEntry pt v.ptIndex e) ∧
      ∀ w, w.path ≠ v.path → HasLeaf k place s w → HasLeaf k place (s.writeEntry pt v.ptIndex e) w := by
  refine ⟨h.writeLeaf hpt v.tablePath_length (table_edge_leaf v.tablePath_length _)
    (table_edge_leaf v.tablePath_length _) (fun _ => trivial), sameWalksBut_writeLeaf h hk table_owns hpt e, ?_⟩
  · rintro w hw ⟨pt', hpt', hpres⟩
    refine ⟨pt', hpt', ?_⟩
    rw [writeEntry_tables, if_neg]
    · exact hpres
    · rintro ⟨rfl, hi⟩
      rw [hpt] at hpt'
      have htable : v.tablePath = w.tablePath := (Prod.mk.inj (Option.some.inj hpt')).2
      exact hw (by rw [VirtAddr.path, VirtAddr.path, ← htable, hi])

theorem mapPage_tables (h : Owned (tablePolicy k) F c place held s) (hk : place k = some (k, []))
    (hmode : s.isBootstrapping = false) (phys : PhysPage) {flags : PageTableFlags}
    (hflags : flags.bits.getLsbD 0 = true) :
    ∃ place' s', Owned (tablePolicy k) F c place' held s' ∧ Extends k place place' ∧ s'.isBootstrapping = false ∧
      (∀ b r q, place' b = some (r, q) → place b = some (r, q) ∨ q <+: v.tablePath) ∧
      ((mapPage ⟨k⟩ v phys flags s = (.ok (), s') ∧ isCanonical v.addr = true ∧ v.isAligned = true ∧
          reach s.tables k v.path = none ∧ HasLeaf k place' s' v ∧ SameWalksBut k [v] s s' ∧
          ∀ w, w.path ≠ v.path → HasLeaf k place s w → HasLeaf k place' s' w) ∨
        ∃ e, mapPage ⟨k⟩ v phys flags s = (.error e, s') ∧ SameWalks k s s' ∧
          ∀ w, HasLeaf k place s w → HasLeaf k place' s' w) := by
  by_cases hargs : isCanonical v.addr = true ∧ v.isAligned = true ∧ phys.addr.toNat % pageSize = 0
  · rcases hargs with ⟨hc, hal, hph⟩
    rcases h.mapPage_cases hk (table_owns [] _ rfl) (by simp [hmode]) hc hal hph flags with
      ⟨place', s₁, ho, hg, hnew, hres⟩
    have hwalks := sameWalks_of_grows hk table_owns hg
    have hmode₁ : s₁.isBootstrapping = false := hg.boot.mode.trans hmode
    have hleaf {w : VirtAddr} (hw : HasLeaf k place s w) : HasLeaf k place' s₁ w := by
      rcases hw with ⟨pt, hpt, hpres⟩
      exact ⟨pt, hg.kept hpt, by rw [hg.present _ hpt hpres]; exact hpres⟩
    rcases hres with ⟨pt, he, hpt, habs, -, -⟩ | ⟨he, -⟩ | ⟨he, -⟩
    · rcases writeLeaf_tables ho (hg.kept hk) hpt (.set phys.addr flags) with ⟨ho', hbut, hothers⟩
      refine ⟨place', _, ho', .of_grows hg, hmode₁, fun _ _ _ => hnew, .inl ⟨he, hc, hal, ?_, ⟨pt, hpt, ?_⟩, ?_,
        fun w hw hl => hothers w hw (hleaf hl)⟩⟩
      · rw [← hwalks _ v.path_length]
        exact (ho.reach_leaf hpt).mpr habs
      · rw [writeEntry_tables, if_pos ⟨rfl, rfl⟩, PageTableEntry.set_isPresent]
        exact hflags
      · intro q hq hne
        rw [hbut q hq hne, hwalks q hq]
    · exact ⟨place', s₁, ho, .of_grows hg, hmode₁, fun _ _ _ => hnew, .inr ⟨_, he, hwalks, fun w => hleaf⟩⟩
    · exact ⟨place', s₁, ho, .of_grows hg, hmode₁, fun _ _ _ => hnew, .inr ⟨_, he, hwalks, fun w => hleaf⟩⟩
  · rcases mapPage_refused ⟨k⟩ flags s hargs with ⟨e, he⟩
    exact ⟨place, s, h, .refl _ _, hmode, fun _ _ _ => .inl, .inr ⟨e, he, fun _ _ => rfl, fun _ => id⟩⟩

theorem unmapPage_tables (h : Owned (tablePolicy k) F c place held s) (hk : place k = some (k, []))
    (hc : isCanonical v.addr = true) (hal : v.isAligned = true) (hleaf : HasLeaf k place s v) :
    Owned (tablePolicy k) F c place held (unmapPage ⟨k⟩ v s).2 ∧
      (unmapPage ⟨k⟩ v s).2.isBootstrapping = s.isBootstrapping ∧
      reach (unmapPage ⟨k⟩ v s).2.tables k v.path = none ∧ SameWalksBut k [v] s (unmapPage ⟨k⟩ v s).2 ∧
      ∀ w, w.path ≠ v.path → HasLeaf k place s w → HasLeaf k place (unmapPage ⟨k⟩ v s).2 w := by
  rcases hleaf with ⟨pt, hpt, hpres⟩
  have hun : (unmapPage ⟨k⟩ v s).2 = s.writeEntry pt v.ptIndex .empty := by
    rw [h.unmapPage_placed table_owns hc hal hpt hpres]
  rw [hun]
  rcases writeLeaf_tables h hk hpt .empty with ⟨ho, hbut, hothers⟩
  refine ⟨ho, rfl, ?_, hbut, hothers⟩
  rw [ho.reach_leaf hpt, writeEntry_tables, if_pos ⟨rfl, rfl⟩]
  exact PageTableEntry.empty_isPresent

end Pages

section Batches

variable {k : U64} {F : Finset U64} {c : ℕ} {place : Placement} {held : Finset U64} {s : PageMemory}
  {flags : PageTableFlags}

/-- Unmapping pages that were mapped just before restores every translation. -/
theorem unmapPages_tables (vs : List VirtAddr) (h : Owned (tablePolicy k) F c place held s)
    (hk : place k = some (k, [])) (hnodup : (vs.map VirtAddr.path).Nodup)
    (hvs : ∀ v ∈ vs, isCanonical v.addr = true ∧ v.isAligned = true ∧ HasLeaf k place s v) :
    Owned (tablePolicy k) F c place held (unmapPages ⟨k⟩ vs s) ∧ SameWalksBut k vs s (unmapPages ⟨k⟩ vs s) ∧
      (unmapPages ⟨k⟩ vs s).isBootstrapping = s.isBootstrapping ∧
      ∀ v ∈ vs, reach (unmapPages ⟨k⟩ vs s).tables k v.path = none := by
  induction vs generalizing s with
  | nil => exact ⟨h, fun _ _ _ => rfl, rfl, by simp⟩
  | cons v vs ih =>
    rw [List.map_cons, List.nodup_cons] at hnodup
    rcases hvs v (by simp) with ⟨hc, hal, hleaf⟩
    rcases unmapPage_tables h hk hc hal hleaf with ⟨ho, hmode, hgone, hbut, hothers⟩
    have hne {w : VirtAddr} (hw : w ∈ vs) : w.path ≠ v.path := fun he =>
      hnodup.1 (he ▸ List.mem_map_of_mem hw)
    rcases ih ho hnodup.2 (fun w hw => by
      rcases hvs w (by simp [hw]) with ⟨hcw, halw, hlw⟩
      exact ⟨hcw, halw, hothers w (hne hw) hlw⟩) with ⟨ho', hbut', hmode', hgone'⟩
    refine ⟨ho', fun q hq hn => ?_, hmode'.trans hmode, fun w hw => ?_⟩
    · rw [List.map_cons, List.mem_cons, not_or] at hn
      exact (hbut' q hq hn.2).trans (hbut q hq (by simpa using hn.1))
    · rcases List.mem_cons.mp hw with rfl | hw
      · exact (hbut' _ w.path_length hnodup.1).trans hgone
      · exact hgone' w hw

/-- Distinct page addresses have distinct paths. -/
theorem paths_nodup {vs : List VirtAddr} (hnodup : vs.Nodup)
    (hvs : ∀ v ∈ vs, isCanonical v.addr = true ∧ v.isAligned = true) : (vs.map VirtAddr.path).Nodup := by
  apply List.Nodup.map_on _ hnodup
  intro v hv w hw he
  exact VirtAddr.path_inj (hvs v hv).1 (hvs w hw).1 (hvs v hv).2 (hvs w hw).2 he

/-- A batch of mappings; when it is given up, every address is translated as before. -/
theorem mapPages_tables (todo : List (VirtAddr × PhysPage)) (done : List VirtAddr) {s₀ : PageMemory}
    (h : Owned (tablePolicy k) F c place held s) (hk : place k = some (k, [])) (hmode : s.isBootstrapping = false)
    (hflags : flags.bits.getLsbD 0 = true) (hnodup : (done ++ todo.map Prod.fst).Nodup)
    (hdone : ∀ v ∈ done, isCanonical v.addr = true ∧ v.isAligned = true ∧ HasLeaf k place s v ∧
      reach s₀.tables k v.path = none) (hbut : SameWalksBut k done s₀ s) :
    ∃ ok place' s', mapPages ⟨k⟩ flags done todo s = (ok, s') ∧ Owned (tablePolicy k) F c place' held s' ∧
      Extends k place place' ∧ s'.isBootstrapping = false ∧
      (∀ b r q, place' b = some (r, q) → place b = some (r, q) ∨ ∃ x ∈ todo, q <+: x.1.tablePath) ∧
      (ok = false → SameWalks k s₀ s') ∧ (ok = true → AddsWalks k (done ++ todo.map Prod.fst) s₀ s') := by
  induction todo generalizing done place s with
  | nil =>
    refine ⟨true, place, s, rfl, h, .refl _ _, hmode, fun _ _ _ => .inl, by simp, fun _ => ?_⟩
    rw [List.map_nil, List.append_nil]
    exact ⟨fun v hv => (hdone v hv).2.2.2, hbut⟩
  | cons x todo ih =>
    rcases x with ⟨v, phys⟩
    rw [List.map_cons] at hnodup
    rcases List.nodup_append.mp hnodup with ⟨hnodup₁, -, happart⟩
    rcases mapPage_tables (v := v) h hk hmode phys hflags with
      ⟨place₁, s₁, ho, hext, hmode₁, hnew₁, ⟨he, hc, hal, hvac, hv, hbut₁, hleaf⟩ | ⟨e, he, hwalks, hleaf⟩⟩
    · have hvdone {w : VirtAddr} (hw : w ∈ done) : w.path ≠ v.path := fun hp =>
        happart w hw v List.mem_cons_self (VirtAddr.path_inj (hdone w hw).1 hc (hdone w hw).2.1 hal hp)
      have hdone₁ : ∀ w ∈ done ++ [v], isCanonical w.addr = true ∧ w.isAligned = true ∧ HasLeaf k place₁ s₁ w ∧
          reach s₀.tables k w.path = none := by
        intro w hw
        rcases List.mem_append.mp hw with hw | hw
        · rcases hdone w hw with ⟨hcw, halw, hlw, hnone⟩
          exact ⟨hcw, halw, hleaf w (hvdone hw) hlw, hnone⟩
        · rw [List.mem_singleton.mp hw]
          refine ⟨hc, hal, hv, ?_⟩
          rw [← hbut v.path v.path_length fun hmem => ?_]
          · exact hvac
          · rcases List.mem_map.mp hmem with ⟨w, hw, he⟩
            exact hvdone hw he
      have hbut' : SameWalksBut k (done ++ [v]) s₀ s₁ := by
        intro q hq hn
        rw [List.map_append, List.mem_append, not_or] at hn
        exact (hbut₁ q hq hn.2).trans (hbut q hq hn.1)
      rcases ih (done ++ [v]) ho (hext.kept hk) hmode₁ (by simpa using hnodup) hdone₁ hbut' with
        ⟨ok, place', s', hrun, ho', hext', hmode', hnew', hfail, hadds⟩
      rw [List.append_assoc] at hadds
      refine ⟨ok, place', s', by rw [mapPages, he]; exact hrun, ho', hext.trans hext', hmode', fun b r q hq => ?_, hfail, hadds⟩
      rcases hnew' b r q hq with hmid | ⟨x, hx, hpre⟩
      · exact (hnew₁ b r q hmid).imp_right fun hpre => ⟨(v, phys), List.mem_cons_self, hpre⟩
      · exact .inr ⟨x, List.mem_cons_of_mem _ hx, hpre⟩
    · have hdone₁ : ∀ w ∈ done, isCanonical w.addr = true ∧ w.isAligned = true ∧ HasLeaf k place₁ s₁ w := by
        intro w hw
        rcases hdone w hw with ⟨hcw, halw, hlw, -⟩
        exact ⟨hcw, halw, hleaf w hlw⟩
      have hpaths := paths_nodup hnodup₁ fun w hw => ⟨(hdone w hw).1, (hdone w hw).2.1⟩
      rcases unmapPages_tables done ho (hext.kept hk) hpaths hdone₁ with ⟨ho', hbut', hmode', hgone⟩
      refine ⟨false, place₁, unmapPages ⟨k⟩ done s₁, by rw [mapPages, he], ho', hext, hmode'.trans hmode₁,
        fun b r q hq => (hnew₁ b r q hq).imp_right fun hpre => ⟨(v, phys), List.mem_cons_self, hpre⟩, ?_, by simp⟩
      intro _ q hq
      by_cases hmem : q ∈ done.map VirtAddr.path
      · rcases List.mem_map.mp hmem with ⟨w, hw, rfl⟩
        rw [hgone w hw, (hdone w hw).2.2.2]
      · rw [hbut' q hq hmem, hwalks q hq, hbut q hq hmem]

theorem pagesFrom_nodup (start : U64) {n : ℕ} (hn : n * 4096 ≤ 2 ^ 64) : (pagesFrom start n).Nodup := by
  apply List.Nodup.map_on _ List.nodup_range
  intro i hi j hj he
  rw [List.mem_range] at hi hj
  have hadd := (BitVec.add_right_inj start).mp (VirtAddr.mk.inj he)
  have ht := congrArg BitVec.toNat hadd
  rw [BitVec.toNat_ofNat, BitVec.toNat_ofNat, pageSize] at ht
  omega

theorem mapBatch_tables (h : Owned (tablePolicy k) F c place held s) (hk : place k = some (k, []))
    (hmode : s.isBootstrapping = false) (hflags : flags.bits.getLsbD 0 = true) (start : U64) {n : ℕ}
    (hn : n * 4096 ≤ 2 ^ 64) {frames : List PhysPage} (hframes : n ≤ frames.length) :
    ∃ ok place' s', mapPages ⟨k⟩ flags [] ((pagesFrom start n).zip frames) s = (ok, s') ∧
      Owned (tablePolicy k) F c place' held s' ∧ Extends k place place' ∧ s'.isBootstrapping = false ∧
      (∀ b r q, place' b = some (r, q) → place b = some (r, q) ∨ ∃ v ∈ pagesFrom start n, q <+: v.tablePath) ∧
      (ok = false → SameWalks k s s') ∧ (ok = true → AddsWalks k (pagesFrom start n) s s') := by
  have hpages : [] ++ ((pagesFrom start n).zip frames).map Prod.fst = pagesFrom start n := by
    rw [List.nil_append, List.map_fst_zip (by rw [pagesFrom_length]; exact hframes)]
  rcases mapPages_tables ((pagesFrom start n).zip frames) [] h hk hmode hflags
    (by rw [hpages]; exact pagesFrom_nodup start hn) (by simp) fun _ _ _ => rfl with
    ⟨ok, place', s', hrun, ho', hext, hmode', hnew, hrest⟩
  rw [hpages] at hrest
  refine ⟨ok, place', s', hrun, ho', hext, hmode', fun b r q hq => ?_, hrest⟩
  exact (hnew b r q hq).imp_right fun ⟨x, hx, hpre⟩ => ⟨x.1, (List.of_mem_zip hx).1, hpre⟩

end Batches

section Frames

variable {k : U64} {F : Finset U64} {c : ℕ} {place place' : Placement} {held : Finset U64} {s s' : PageMemory}

/-- A managed frame is free exactly when it is neither placed nor held. -/
theorem free_iff {pol : Policy} (h : Owned pol F c place held s) {f : U64} :
    f ∈ s.pmm.freeFrames ↔ f ∈ F ∧ place f = none ∧ f ∉ held := by
  constructor
  · intro hf
    exact ⟨h.frames.free_subset hf, h.free_unplaced hf⟩
  · rintro ⟨hF, hplace, hheld⟩
    by_contra hnot
    rcases h.inUse (.inl ⟨hF, hnot⟩) with hbad | hbad
    · exact hbad hplace
    · exact hheld hbad

/-- Frames for a run of pages are taken and mapped; when that is given up, they are all given back. -/
theorem takeAndMap_tables {flags : PageTableFlags} (h : Owned (tablePolicy k) F c place held s)
    (hk : place k = some (k, [])) (hmode : s.isBootstrapping = false) (hflags : flags.bits.getLsbD 0 = true)
    (start : U64) {n : ℕ} (hn : n * 4096 ≤ 2 ^ 64) :
    (∃ s', allocateFrames n [] s = (none, s') ∧ Owned (tablePolicy k) F c place held s' ∧
      s'.isBootstrapping = false ∧ SameWalks k s s' ∧ s'.pmm.freeFrames = s.pmm.freeFrames ∧
      s.pmm.freeFrames.card < n) ∨
    ∃ l s₁, allocateFrames n [] s = (some l, s₁) ∧ n ≤ s.pmm.freeFrames.card ∧
      ((∃ place' s', mapPages ⟨k⟩ flags [] ((pagesFrom start n).zip l) s₁ = (true, s') ∧
        Owned (tablePolicy k) F c place' (held ∪ addrs l) s' ∧ Extends k place place' ∧ s'.isBootstrapping = false ∧
        AddsWalks k (pagesFrom start n) s s') ∨
      ∃ place' s', mapPages ⟨k⟩ flags [] ((pagesFrom start n).zip l) s₁ = (false, s') ∧
        Owned (tablePolicy k) F c place' held (l.foldl discardFree s') ∧ Extends k place place' ∧
        (l.foldl discardFree s').isBootstrapping = false ∧ SameWalks k s (l.foldl discardFree s') ∧
        (∀ b r q, place' b = some (r, q) → place b = some (r, q) ∨ ∃ v ∈ pagesFrom start n, q <+: v.tablePath) ∧
        ∀ p ∈ l, p.addr ∈ (l.foldl discardFree s').pmm.freeFrames) := by
  have h₀ : Owned (tablePolicy k) F c place (held ∪ addrs []) s := by simpa using h
  rcases allocateFrames_cases n [] h₀ (.nil F held) with
    ⟨l, s₁, he, hlen, hbatch, ho, ht, hsame, hcard⟩ | ⟨s', he, ho, ht, -, hm, -, hcard⟩
  · refine .inr ⟨l, s₁, he, by omega, ?_⟩
    have hframes : n ≤ l.length := by
      rw [hlen]
      simp
    rcases mapBatch_tables ho hk (hsame.mode.trans hmode) hflags start hn hframes with
      ⟨ok, place', s', hrun, ho', hext, hmode', hnew, hfail, hadds⟩
    cases ok with
    | true => exact .inl ⟨place', s', hrun, ho', hext, hmode', (hadds rfl).of_tables ht⟩
    | false =>
      rcases freeAll l ho' hbatch with ⟨hf, hft, -, hfm, -⟩
      refine .inr ⟨place', s', hrun, hf, hext, hfm.trans hmode',
        ((SameWalks.of_tables ht).trans (hfail rfl)).trans (.of_tables hft), hnew, fun p hp => ?_⟩
      have hheld : p.addr ∈ held ∪ addrs l := Finset.mem_union_right _ (mem_addrs.mpr hp)
      exact (free_iff hf).mpr ⟨hbatch.managed p hp, (ho'.held_inUse hheld).2, hbatch.apart p hp⟩
  · refine .inl ⟨s', he, ho, hm.trans hmode, .of_tables ht, ?_, hcard⟩
    ext f
    rw [free_iff ho, free_iff h]

/-- The tables below the kernel root and the page allocator in good order. -/
def InOrder (kernel : Kernel) : Prop :=
  ∃ F c place held, Owned (tablePolicy kernel.rootPml4.addr) F c place held kernel.mem ∧
    place kernel.rootPml4.addr = some (kernel.rootPml4.addr, []) ∧ kernel.mem.isBootstrapping = false

/-- A placed table is linked into its tree. -/
theorem tableAt_of_placed {pol : Policy} (h : Owned pol F c place held s) {a r : U64} {p : Path}
    (ha : place a = some (r, p)) (hp : p.length ≤ 3) : TableAt s.tables r p.length a := by
  induction p using List.reverseRecOn generalizing a with
  | nil =>
    rw [h.forest.root_self ha]
    exact .root
  | append_singleton p i ih =>
    rw [List.length_append, List.length_singleton] at hp ⊢
    rcases h.forest.parent ha with ⟨b, hb, he⟩
    rw [Policy.edge, if_pos (by omega)] at he
    split_ifs at he
    exact .link i (ih hb (by omega)) (by omega) he

/-- The free frames differ only by frames that became tables below the kernel root. -/
def OnlyNewTables (k : U64) (s s' : PageMemory) : Prop :=
  s'.pmm.freeFrames ⊆ s.pmm.freeFrames ∧
    ∀ f ∈ s.pmm.freeFrames, f ∉ s'.pmm.freeFrames → ∃ d, 0 < d ∧ TableAt s'.tables k d f

theorem Extends.onlyNewTables (hext : Extends k place place') (h : Owned (tablePolicy k) F c place held s)
    (h' : Owned (tablePolicy k) F c place' held s') : OnlyNewTables k s s' := by
  constructor
  · intro f hf
    rcases (free_iff h').mp hf with ⟨hF, hplace, hheld⟩
    refine (free_iff h).mpr ⟨hF, ?_, hheld⟩
    cases hp : place f with
    | none => rfl
    | some x => exact absurd (hext.kept hp) (by simp [hplace])
  · intro f hf hgone
    rcases (free_iff h).mp hf with ⟨hF, hplace, hheld⟩
    have hnow : place' f ≠ none := fun hnone => hgone ((free_iff h').mpr ⟨hF, hnone, hheld⟩)
    rcases Option.ne_none_iff_exists'.mp hnow with ⟨⟨r, p⟩, hp⟩
    rcases hext.fresh hp with hold | ⟨rfl, hne, hlen⟩
    · rw [hplace] at hold
      cases hold
    · exact ⟨p.length, List.length_pos_iff.mpr hne, tableAt_of_placed h' hp hlen⟩

/-- Frames below the kernel root at leaf depth are managed, and stand in the upper half. -/
theorem leaf_managed (h : Owned (kernelPolicy k F) F c place held s) {g r : U64} {q : Path} (hg : place g = some (r, q))
    (hq : q.length = 4) : g ∈ F ∧ r = k ∧ upper q = true := by
  rcases List.eq_nil_or_concat q with rfl | ⟨p, i, rfl⟩
  · cases hq
  rw [List.concat_eq_append] at hq hg ⊢
  have hp : p.length = 3 := by simpa using hq
  rcases h.forest.parent hg with ⟨a, -, he⟩
  rw [Policy.edge_leaf hp] at he
  split_ifs at he with hcond
  cases he
  have hleaf : r = k ∧ upper p = true ∧ _ ∈ F := of_decide_eq_true hcond.2
  refine ⟨hleaf.2.2, hleaf.1, ?_⟩
  cases p with
  | nil => cases hp
  | cons j p => exact hleaf.2.1

/-- Leaf frames as frames held outside the tables. -/
theorem forget_leaves (h : Owned (kernelPolicy k F) F c place held s) :
    ∃ place₀ held₀, Owned (tablePolicy k) F c place₀ held₀ s ∧
      ∀ a r p, place₀ a = some (r, p) ↔ place a = some (r, p) ∧ p.length ≤ 3 := by
  classical
  let place₀ : Placement := fun a => (place a).filter fun x => decide (x.2.length ≤ 3)
  have hplace (a r : U64) (p : Path) : place₀ a = some (r, p) ↔ place a = some (r, p) ∧ p.length ≤ 3 := by
    simp only [place₀, Option.filter_eq_some_iff, decide_eq_true_eq]
  have hedge {r : U64} {p : Path} {i : Fin 512} (hp : p.length < 3) (e : PageTableEntry) :
      (tablePolicy k).edge r p i e = (kernelPolicy k F).edge r p i e := by
    rw [Policy.edge, Policy.edge, if_pos hp, if_pos hp]
    rfl
  refine ⟨place₀, held ∪ F.filter fun a => ∃ r p, place a = some (r, p) ∧ p.length = 4, ?_, hplace⟩
  exact
    { frames := h.frames
      pool := h.pool
      forest :=
        { root_self := fun ha => h.forest.root_self ((hplace _ _ _).mp ha).1
          rooted := fun ha => (hplace _ _ _).mpr ⟨h.forest.rooted ((hplace _ _ _).mp ha).1, by simp⟩
          child := by
            intro a r p i b ha he
            rcases (hplace _ _ _).mp ha with ⟨ha, hp⟩
            rcases Nat.lt_or_ge p.length 3 with hlt | hge
            · rw [hedge hlt] at he
              exact (hplace _ _ _).mpr ⟨h.forest.child ha he, by simpa using hlt⟩
            · rw [table_edge_leaf (by omega)] at he
              cases he
          parent := by
            intro b r p i hb
            rcases (hplace _ _ _).mp hb with ⟨hb, hlen⟩
            rw [List.length_append, List.length_singleton] at hlen
            rcases h.forest.parent hb with ⟨a, ha, he⟩
            exact ⟨a, (hplace _ _ _).mpr ⟨ha, by omega⟩, by rw [hedge (by omega)]; exact he⟩ }
      placed := fun ha => h.placed ((hplace _ _ _).mp ha).1
      held_inUse := by
        intro a ha
        rcases Finset.mem_union.mp ha with ha | ha
        · rcases h.held_inUse ha with ⟨hin, hnone⟩
          exact ⟨hin, by simp [place₀, hnone]⟩
        · rcases (Finset.mem_filter.mp ha).2 with ⟨r, p, hp, hlen⟩
          exact ⟨h.placed hp, by simp [place₀, hp, hlen]⟩
      inUse := by
        intro a ha
        rcases h.inUse ha with hp | hheld
        · rcases Option.ne_none_iff_exists'.mp hp with ⟨⟨r, p⟩, hp⟩
          have hle := h.length_le hp
          by_cases hlen : p.length ≤ 3
          · exact .inl (by rw [(hplace a r p).mpr ⟨hp, hlen⟩]; simp)
          · have hfour : p.length = 4 := by omega
            exact .inr (Finset.mem_union_right _
              (Finset.mem_filter.mpr ⟨(leaf_managed h hp hfour).1, r, p, hp, hfour⟩))
        · exact .inr (Finset.mem_union_left _ hheld)
      managed := fun ha => h.managed ((hplace _ _ _).mp ha).1
      upper := fun ha hp hpres => h.upper ((hplace _ _ _).mp ha).1 hp hpres
      leaves := fun _ _ _ => trivial }

end Frames
end VenturaOS.Vmm
