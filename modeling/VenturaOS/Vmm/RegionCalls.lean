import VenturaOS.Vmm.Transfers

/-!
# Region calls keep ownership

`allocate_and_map_region` and `unmap_region` on the kernel root. A region
that is returned has a leaf frame for each of its pages; a call that fails
moves no leaf; unmapping gives the frames of a region's pages back.
-/
namespace VenturaOS.Vmm
open Library Pmm Paging Memory

/-- Page-aligned pages of the upper half, in order. -/
structure UpperPages (start : U64) (n : ℕ) : Prop where
  aligned : start.toNat % 4096 = 0
  upper : 2 ^ 64 - 2 ^ 47 ≤ start.toNat
  fits : start.toNat + n * 4096 ≤ 2 ^ 64

theorem UpperPages.toNat {start : U64} {n i : ℕ} (h : UpperPages start n) (hi : i < n) :
    (start + BitVec.ofNat 64 (i * pageSize)).toNat = start.toNat + i * 4096 := by
  have hfits := h.fits
  have hlast : i * 4096 + 4096 ≤ n * 4096 := by omega
  rw [BitVec.toNat_add, BitVec.toNat_ofNat, pageSize]
  omega

theorem mem_pagesFrom {start : U64} {n : ℕ} (h : UpperPages start n) {v : VirtAddr} :
    v ∈ pagesFrom start n ↔ ∃ i < n, v.addr.toNat = start.toNat + i * 4096 := by
  simp only [pagesFrom, List.mem_map, List.mem_range]
  constructor
  · rintro ⟨i, hi, rfl⟩
    exact ⟨i, hi, h.toNat hi⟩
  · rintro ⟨i, hi, he⟩
    refine ⟨i, hi, ?_⟩
    cases v with
    | mk a =>
      rw [VirtAddr.mk.injEq]
      exact BitVec.eq_of_toNat_eq ((h.toNat hi).trans he.symm)

theorem pagesFrom_length (start : U64) (n : ℕ) : (pagesFrom start n).length = n := by simp [pagesFrom]

/-- Pages of the upper half are canonical, aligned, and outside slot 0. -/
theorem UpperPages.page {start : U64} {n : ℕ} (h : UpperPages start n) {v : VirtAddr} (hv : v ∈ pagesFrom start n) :
    isCanonical v.addr = true ∧ v.isAligned = true ∧ 256 ≤ v.pml4Index.val := by
  rcases (mem_pagesFrom h).mp hv with ⟨i, hi, he⟩
  have hc : isCanonical v.addr = true := by
    rw [isCanonical_iff]
    have := h.upper
    omega
  have hal := h.aligned
  have hu := h.upper
  refine ⟨hc, ?_, (VirtAddr.kernel_slot_iff hc).mpr (by omega)⟩
  simp only [VirtAddr.isAligned, pageSize, beq_iff_eq]
  omega

theorem UpperPages.paths_nodup {start : U64} {n : ℕ} (h : UpperPages start n) :
    ((pagesFrom start n).map VirtAddr.path).Nodup := by
  have hnodup : (pagesFrom start n).Nodup := by
    apply List.Nodup.map_on _ List.nodup_range
    intro i hi j hj he
    rw [List.mem_range] at hi hj
    have ht := congrArg BitVec.toNat (VirtAddr.mk.inj he)
    rw [h.toNat hi, h.toNat hj] at ht
    omega
  apply List.Nodup.map_on _ hnodup
  intro v hv w hw he
  rcases h.page hv with ⟨hvc, hva, -⟩
  rcases h.page hw with ⟨hwc, hwa, -⟩
  exact VirtAddr.path_inj hvc hwc hva hwa he

variable {k : U64} {F : Finset U64} {c : ℕ} {place : Placement} {held : Finset U64} {s : PageMemory}

/-- A leaf frame stands at path `q` below the kernel root. -/
def Occupied (k : U64) (place : Placement) (q : Path) : Prop := ∃ g, place g = some (k, q)

theorem LeafSame.occupied {place' : Placement} (h : LeafSame k place place') {q : Path} (hq : q.length = 4) :
    Occupied k place' q ↔ Occupied k place q :=
  exists_congr fun g => h g q hq

theorem unmapOne_cases (h : Owned (kernelPolicy k F) F c place held s) (hk : place k = some (k, []))
    {v : VirtAddr} (hc : isCanonical v.addr = true) (hal : v.isAligned = true) (hv : 256 ≤ v.pml4Index.val) :
    ∃ place', Owned (kernelPolicy k F) F c place' held (unmapOne ⟨k⟩ true s v) ∧
      KernelStep k place place' s (unmapOne ⟨k⟩ true s v) ∧
      ((∃ f, place f = some (k, v.path)) → LogOk s (unmapOne ⟨k⟩ true s v)) ∧
      ∀ g q, q.length = 4 → (place' g = some (k, q) ↔ place g = some (k, q) ∧ q ≠ v.path) := by
  by_cases hmapped : ∃ f, place f = some (k, v.path)
  · rcases hmapped with ⟨f, hf⟩
    rcases kernelUnmap h hf hc hal with ⟨s₁, he, ho, hstep, hlog⟩
    have hF : f ∈ F := by
      rcases h.forest.parent (show place f = some (k, v.tablePath ++ [v.ptIndex]) from hf) with ⟨pt, -, hedge⟩
      rw [Policy.edge_leaf v.tablePath_length] at hedge
      split_ifs at hedge with hleaf
      simp only [kernelPolicy, decide_eq_true_eq] at hleaf
      exact Option.some.inj hedge ▸ hleaf.2.2.2
    have hnot : f ∉ held := fun hm => by simp [(h.held_inUse hm).2] at hf
    rcases ho.discardFree_held (Finset.mem_insert_self f held) hF with ⟨pmm, hd, -, ho'⟩
    rw [Finset.erase_insert hnot] at ho'
    have hrun : unmapOne ⟨k⟩ true s v = discardFree s₁ ⟨f⟩ := by simp [unmapOne, he]
    rw [hrun]
    refine ⟨_, ho', hstep.trans (.of_tables ?_ ?_ ?_), fun _ => .trans (.of_eq hlog) ⟨[.ok ()], ?_, by simp⟩, ?_⟩
    · rw [hd]
    · rw [hd]
    · rw [hd]
    · rw [hd]
    · intro g q hq
      by_cases hg : g = f
      · subst hg
        rw [Function.update_self, hf]
        simp [eq_comm]
      · rw [Function.update_of_ne hg]
        refine ⟨fun hp => ⟨hp, ?_⟩, And.left⟩
        rintro rfl
        exact hg (h.forest.place_inj hp hf)
  · have hne : v.pml4Index ≠ 0 := by
      intro he
      rw [he] at hv
      simp at hv
    have hleaf (g : U64) (q : Path) : place g = some (k, q) ↔ place g = some (k, q) ∧ q ≠ v.path := by
      refine ⟨fun hp => ⟨hp, ?_⟩, And.left⟩
      rintro rfl
      exact hmapped ⟨g, hp⟩
    rcases h.leaf_cases hk (kernel_slot _) (fun _ => hne) hc with ⟨pt, hpt, hpres, -, -, he⟩ | ⟨-, -, e, he⟩
    · -- a leaf that owns no managed frame: it was set up at boot, above the managed range
      have hedge : (kernelPolicy k F).edge k v.tablePath v.ptIndex (s.tables pt v.ptIndex) = none := by
        cases hcase : (kernelPolicy k F).edge k v.tablePath v.ptIndex (s.tables pt v.ptIndex) with
        | none => rfl
        | some f => exact absurd ⟨f, h.forest.child hpt hcase⟩ hmapped
      have hhigh : 2 ^ 32 ≤ (s.tables pt v.ptIndex).physAddr.toNat := by
        rcases h.leaves hpt v.tablePath_length hpres rfl (upper_tablePath.mpr hv) with hF | hhigh
        · rw [Policy.edge_leaf v.tablePath_length, if_pos ⟨hpres, by simp [kernelPolicy, hF, upper_tablePath.mpr hv]⟩] at hedge
          cases hedge
        · exact hhigh
      have ho := h.writeLeaf (e := .empty) hpt v.tablePath_length hedge
        (Policy.edge_of_not_present PageTableEntry.empty_isPresent) (by simp)
      rcases ho.frames.free_above hhigh with ⟨err, hfree⟩
      have hrun : unmapOne ⟨k⟩ true s v =
          { s.writeEntry pt v.ptIndex .empty with
            discarded := s.discarded ++ [.error err] } := by
        simp only [unmapOne, he hal, if_true, discardFree, freePage, hfree]
        rfl
      rw [hrun]
      refine ⟨place, ho.relog _, ?_, fun hm => absurd hm hmapped, fun g q _ => hleaf g q⟩
      exact (writeLeaf_step hpt _ (fun ha _ => ha) fun ha _ => ha).trans (.of_tables rfl rfl rfl)
    · have hrun : unmapOne ⟨k⟩ true s v = s := by simp [unmapOne, he]
      rw [hrun]
      exact ⟨place, h, .refl .., fun _ => .refl s, fun g q _ => hleaf g q⟩

theorem unmapAll_cases (vs : List VirtAddr) (h : Owned (kernelPolicy k F) F c place held s)
    (hk : place k = some (k, []))
    (hvs : ∀ v ∈ vs, isCanonical v.addr = true ∧ v.isAligned = true ∧ 256 ≤ v.pml4Index.val) :
    ∃ place', Owned (kernelPolicy k F) F c place' held (vs.foldl (unmapOne ⟨k⟩ true) s) ∧
      KernelStep k place place' s (vs.foldl (unmapOne ⟨k⟩ true) s) ∧
      ((vs.map VirtAddr.path).Nodup → (∀ v ∈ vs, ∃ f, place f = some (k, v.path)) →
        LogOk s (vs.foldl (unmapOne ⟨k⟩ true) s)) ∧
      ∀ g q, q.length = 4 → (place' g = some (k, q) ↔ place g = some (k, q) ∧ q ∉ vs.map VirtAddr.path) := by
  induction vs generalizing place s with
  | nil => exact ⟨place, h, .refl .., fun _ _ => .refl s, by simp⟩
  | cons v vs ih =>
    rcases hvs v (by simp) with ⟨hc, hal, hslot⟩
    rcases unmapOne_cases h hk hc hal hslot with ⟨place₁, ho, hstep, hlog, hleaf⟩
    rcases ih ho (hstep.kept hk (.inr (by simp))) (fun w hw => hvs w (by simp [hw])) with
      ⟨place', ho', hstep', hlog', hleaf'⟩
    rw [List.foldl_cons]
    refine ⟨place', ho', hstep.trans hstep', fun hnd hall => ?_, fun g q hq => ?_⟩
    · rw [List.map_cons, List.nodup_cons] at hnd
      refine (hlog (hall v (by simp))).trans (hlog' hnd.2 fun w hw => ?_)
      rcases hall w (by simp [hw]) with ⟨f, hf⟩
      refine ⟨f, (hleaf _ _ (VirtAddr.path_length _)).mpr ⟨hf, fun he => hnd.1 ?_⟩⟩
      exact he ▸ List.mem_map_of_mem hw
    · rw [hleaf' g q hq, hleaf g q hq, List.map_cons, List.mem_cons, not_or, and_assoc]

/-- The frames a batch call takes: all mapped below the kernel root, or all given back. -/
theorem takeAndMap_cases (h : Owned (kernelPolicy k F) F c place held s) (hk : place k = some (k, []))
    (hlow : LowHuge k place s) (hmode : s.isBootstrapping = false) {flags : PageTableFlags}
    (hflags : LeafFlags flags) {start : U64} {n : ℕ}
    (hpages : ∀ v ∈ pagesFrom start n, 256 ≤ v.pml4Index.val ∨ IsLow v) :
    (∃ s', allocateFrames n [] s = (none, s') ∧ Owned (kernelPolicy k F) F c place held s' ∧
      KernelStep k place place s s' ∧ LogOk s s') ∨
    ∃ l s₁, allocateFrames n [] s = (some l, s₁) ∧
      ((∃ place' s', mapPages ⟨k⟩ flags [] ((pagesFrom start n).zip l) s₁ = (true, s') ∧
          Owned (kernelPolicy k F) F c place' held s' ∧ KernelStep k place place' s s' ∧ LogOk s s' ∧
          (∀ v ∈ pagesFrom start n, isCanonical v.addr = true ∧ v.isAligned = true ∧
            256 ≤ v.pml4Index.val ∧ ¬ Occupied k place v.path) ∧
          ∀ q, q.length = 4 →
            (Occupied k place' q ↔ Occupied k place q ∨ ∃ v ∈ pagesFrom start n, q = v.path)) ∨
        ∃ place' s', mapPages ⟨k⟩ flags [] ((pagesFrom start n).zip l) s₁ = (false, s') ∧
          Owned (kernelPolicy k F) F c place' held (l.foldl discardFree s') ∧
          KernelStep k place place' s (l.foldl discardFree s') ∧ LogOk s (l.foldl discardFree s') ∧
          LeafSame k place place') := by
  have h₀ : Owned (kernelPolicy k F) F c place (held ∪ addrs []) s := by simpa using h
  rcases allocateFrames_cases n [] h₀ (.nil F held) with
    ⟨l, s₁, he, hlen, hbatch, ho, ht, hsame, -⟩ | ⟨s', he, ho, ht, hpool, hm, hlog, -⟩
  · have htake : KernelStep k place place s s₁ := .of_tables hsame.pool hsame.mode ht
    have hzip : (pagesFrom start n).length = l.length := by rw [pagesFrom_length, hlen]; simp
    have hsnd : ((pagesFrom start n).zip l).map Prod.snd = l := List.map_snd_zip (by omega)
    have hfst : ((pagesFrom start n).zip l).map Prod.fst = pagesFrom start n := List.map_fst_zip (by omega)
    have htodo : ∀ x ∈ (pagesFrom start n).zip l, x.2.addr ∈ held ∪ addrs l ∧ x.2.addr ∈ F := by
      intro x hx
      have hmem : x.2 ∈ l := hsnd ▸ List.mem_map_of_mem hx
      exact ⟨Finset.mem_union_right _ (mem_addrs.mpr hmem), hbatch.managed _ hmem⟩
    refine .inr ⟨l, s₁, he, ?_⟩
    have hzv : ∀ x ∈ (pagesFrom start n).zip l, 256 ≤ x.1.pml4Index.val ∨ IsLow x.1 := by
      intro x hx
      exact hpages x.1 (hfst ▸ List.mem_map_of_mem hx)
    rcases mapPages_cases ((pagesFrom start n).zip l) [] ho hk (hlow.kernelStep htake) (hsame.mode.trans hmode) hflags
        htodo hzv (by simp) (by simpa [hsnd] using hbatch.nodup) with
      ⟨place', s', hrun, ho', hstep, hlog, hok, hleaf⟩ | ⟨place', s', hrun, ho', hstep, hlog, hleaf⟩
    · have hheld : (held ∪ addrs l) \ addrs l = held := by
        rw [Finset.union_sdiff_right, Finset.sdiff_eq_self_iff_disjoint, Finset.disjoint_right]
        intro a ha
        exact hbatch.apart _ (mem_addrs.mp ha)
      rw [hsnd, hheld] at ho'
      have hpair {v : VirtAddr} (hv : v ∈ pagesFrom start n) : ∃ x ∈ (pagesFrom start n).zip l, x.1 = v := by
        rw [← hfst] at hv
        exact List.mem_map.mp hv
      refine .inl ⟨place', s', hrun, ho', htake.trans hstep, .of_eq (hlog.trans hsame.log), ?_, ?_⟩
      · intro v hv
        rcases hpair hv with ⟨x, hx, rfl⟩
        rcases hok x hx with ⟨hc, hal, hup, hvac⟩
        exact ⟨hc, hal, hup, fun hocc => hocc.elim hvac⟩
      · intro q hq
        constructor
        · rintro ⟨g, hg⟩
          rcases (hleaf g q hq).mp hg with hg | ⟨x, hx, -, rfl⟩
          · exact .inl ⟨g, hg⟩
          · exact .inr ⟨x.1, hfst ▸ List.mem_map_of_mem hx, rfl⟩
        · rintro (⟨g, hg⟩ | ⟨v, hv, rfl⟩)
          · exact ⟨g, (hleaf g q hq).mpr (.inl hg)⟩
          · rcases hpair hv with ⟨x, hx, rfl⟩
            exact ⟨x.2.addr, (hleaf _ _ hq).mpr (.inr ⟨x, hx, rfl, rfl⟩)⟩
    · rw [List.map_nil, addrs_nil, Finset.union_empty] at ho'
      rcases freeAll l ho' hbatch with ⟨hf, hft, hfp, hfm, hfl⟩
      refine .inr ⟨place', s', hrun, hf, (htake.trans hstep).trans (.of_tables hfp hfm hft), ?_, ?_⟩
      · exact (LogOk.of_eq (hlog.trans hsame.log)).trans hfl
      · intro g q hq
        simpa using hleaf g q hq
  · exact .inl ⟨s', he, ho, .of_tables hpool hm ht, hlog⟩

end VenturaOS.Vmm
