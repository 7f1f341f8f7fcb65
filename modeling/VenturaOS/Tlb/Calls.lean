import VenturaOS.Machine.Isolation
import VenturaOS.Machine.Persistence
import VenturaOS.Tlb.PageCalls

/-!
# Every call names what it changes

The changes of each call, from any state of the system: pages that were
mapped and are mapped differently afterwards, or not at all, have been
dropped by the processor at that change.
-/
namespace VenturaOS.Tlb
open Library Memory Pmm Paging Vmm AddressSpaces Machine

section Regions

variable {F : Finset U64} {c : ℕ} {a : U64} {place : Placement} {held : Finset U64} {s : PageMemory} {k k' : Kernel}

theorem Layout.takeAndMap {root : U64} (h : Layout F c root a place held s) (flags : PageTableFlags) (start : U64) (n : ℕ)
    (hpages : ∀ v ∈ pagesFrom start n, v.pml4Index ≠ 0 ∨ IsLow v) :
    (∃ s', allocateFrames n [] s = (none, s') ∧ takeAndMapWrites ⟨root⟩ flags start n s = [] ∧ s'.tables = s.tables) ∨
    ∃ l s₁, allocateFrames n [] s = (some l, s₁) ∧
      Invalidates (walks a s) (under a (takeAndMapWrites ⟨root⟩ flags start n s))
        (walks a (mapPages ⟨root⟩ flags [] ((pagesFrom start n).zip l) s₁).2) := by
  have h₀ : Owned (tablePolicy root) F c place (held ∪ addrs []) s := by simpa using h.owned
  rcases allocateFrames_cases n [] h₀ (.nil F held) with ⟨l, s₁, he, -, -, ho, ht, hsame, -⟩ | ⟨s', he, -, ht, -⟩
  · right
    have hlow : LowHuge root place s₁ := by
      intro i3 i2 hi
      obtain ⟨pd, f, hpd, hlarge, hf⟩ := h.low i3 i2 hi
      exact ⟨pd, f, hpd, by rw [ht, hlarge], hf⟩
    have h₁ : Layout F c root a place (held ∪ addrs l) s₁ :=
      ⟨ho, h.kernel, h.active, hlow, hsame.mode.trans h.mode, by rw [ht]; exact h.shared⟩
    refine ⟨l, s₁, he, ?_⟩
    rw [takeAndMapWrites, he, ← walks_of_tables ht]
    exact h₁.mapLoop _ [] flags (by simp) fun x hx => hpages x.1 (List.of_mem_zip hx).1
  · exact .inl ⟨s', he, by rw [takeAndMapWrites, he], ht⟩

theorem Layout.allocateAndMap (h : Layout F c k.rootPml4.addr a place held k.mem) (hcur : CursorOk k.vmm) {size : U64}
    {permissions : VirtPermissions} {purpose : RegionPurpose} {result : Except VmmError VirtRegion}
    (hrun : allocateAndMapRegion size permissions purpose k = (result, k')) :
    Invalidates (walks a k.mem) (under a (allocateAndMapWrites size permissions purpose k)) (walks a k'.mem) := by
  unfold allocateAndMapRegion at hrun
  unfold allocateAndMapWrites
  rcases he : reserveVirtualRegion size permissions purpose k.vmm with ⟨e | region, vmm'⟩
  · rw [he] at hrun
    cases hrun
    exact .done _
  · rw [he] at hrun
    obtain ⟨rfl, -, hal, hend, -⟩ := reserve_ok he
    have hpages := upperPages_reserved hcur hal hend
    simp only at hrun ⊢
    split_ifs at hrun ⊢ with hmax
    · cases hrun
      exact .done _
    · have hupper : ∀ v ∈ pagesFrom k.vmm.nextDynamicAddr (size.toNat / pageSize), v.pml4Index ≠ 0 ∨ IsLow v := by
        intro v hv
        left
        intro hz
        have hup := (hpages.page hv).2.2
        rw [hz] at hup
        simp at hup
      rcases h.takeAndMap permissions.toPageFlags k.vmm.nextDynamicAddr (size.toNat / pageSize) hupper with
        ⟨s', ha, hnil, ht⟩ | ⟨l, s₁, ha, hinv⟩
      · rw [ha] at hrun
        cases hrun
        change Invalidates _ (under a (takeAndMapWrites ⟨k.rootPml4.addr⟩ _ _ _ _)) _
        rw [hnil, ← walks_of_tables ht]
        exact .done _
      · rw [ha] at hrun
        simp only at hrun
        change Invalidates _ _ (walks a (mapPages k.rootPml4 _ _ _ _).2) at hinv
        generalize mapPages k.rootPml4 permissions.toPageFlags []
          ((pagesFrom k.vmm.nextDynamicAddr (size.toNat / pageSize)).zip l) s₁ = mapped at hrun hinv
        rcases mapped with ⟨_ | _, mem⟩
        · cases hrun
          rw [walks_of_tables (freeList_tables l mem)]
          exact hinv
        · cases hrun
          exact hinv

theorem Layout.mapFresh {root : U64} (h : Layout F c root a place held s) {flags : PageTableFlags} {start : U64} {n : ℕ}
    (hpages : ∀ v ∈ pagesFrom start n, v.pml4Index ≠ 0 ∨ IsLow v) {grew : Bool} {s' : PageMemory}
    (hrun : Heap.mapFresh ⟨root⟩ flags start n s = (grew, s')) :
    Invalidates (walks a s) (under a (takeAndMapWrites ⟨root⟩ flags start n s)) (walks a s') := by
  unfold Heap.mapFresh at hrun
  rcases h.takeAndMap flags start n hpages with ⟨s₁, ha, hnil, ht⟩ | ⟨l, s₁, ha, hinv⟩
  · rw [ha] at hrun
    cases hrun
    rw [hnil, ← walks_of_tables ht]
    exact .done _
  · rw [ha] at hrun
    simp only at hrun
    generalize mapPages ⟨root⟩ flags [] ((pagesFrom start n).zip l) s₁ = mapped at hrun hinv
    rcases mapped with ⟨_ | _, mem⟩
    · cases hrun
      rw [walks_of_tables (freeList_tables l mem)]
      exact hinv
    · cases hrun
      exact hinv

theorem Layout.expandHeap (h : Layout F c k.rootPml4.addr a place held k.mem) (hend : Heap.EndOk k.heap) {n : ℕ} {grew : Bool}
    (hrun : Heap.expandHeap n k = some (grew, k')) :
    Invalidates (walks a k.mem) (under a (expandHeapWrites n k)) (walks a k'.mem) := by
  unfold Heap.expandHeap at hrun
  unfold expandHeapWrites
  simp only at hrun ⊢
  generalize Heap.pagesToAlloc n = pages at hrun ⊢
  split_ifs at hrun ⊢ with hmax
  · cases hrun
    exact .done _
  · have hpages : ∀ v ∈ pagesFrom (BitVec.ofNat 64 k.heap.currentEnd) pages, v.pml4Index ≠ 0 ∨ IsLow v := by
      intro v hv
      apply (hend.page (not_lt.mp hmax) hv).imp_left
      intro hup hz
      rw [hz] at hup
      simp at hup
    rcases hm : Heap.mapFresh k.rootPml4 VirtPermissions.kernelData.toPageFlags (BitVec.ofNat 64 k.heap.currentEnd) pages
      k.mem with ⟨_ | _, mem⟩
    · rw [hm] at hrun
      cases hrun
      exact h.mapFresh hpages hm
    · rw [hm] at hrun
      obtain ⟨k₁, hreg, he⟩ := Option.map_eq_some_iff.mp hrun
      cases he
      rw [(Heap.registerPages_cases hreg).2.1]
      exact h.mapFresh hpages hm

end Regions

section Trees

variable {F : Finset U64} {c : ℕ} {root a : U64} {spaces : List AddressSpace} {clients : Finset U64} {place : Placement}
  {s : PageMemory}

theorem tables_layout (h : Tables F c root spaces clients place s) (ha : place a = some (a, [])) :
    ∃ place₀ held₀, Layout F c root a place₀ held₀ s ∧ ∀ {r}, place r = some (r, []) → place₀ r = some (r, []) := by
  obtain ⟨place₀, held₀, ho, hplace⟩ := forget_leaves h.owned
  have hroots {r : U64} (hr : place r = some (r, [])) : place₀ r = some (r, []) := (hplace _ _ _).mpr ⟨hr, by simp⟩
  refine ⟨place₀, held₀, ⟨ho, hroots h.rooted, hroots ha, ?_, h.mode, ?_⟩, hroots⟩
  · intro i3 i2 hi
    obtain ⟨pd, f, hpd, hrest⟩ := h.low i3 i2 hi
    exact ⟨pd, f, (hplace _ _ _).mpr ⟨hpd, by simp⟩, hrest⟩
  · intro i hi
    simp only [tablePolicy, decide_eq_false_iff_not, not_or, not_and_or, not_not, not_lt] at hi
    have hshared : isShared i = true := by
      simp only [isShared, Bool.or_eq_true, decide_eq_true_eq]
      exact hi.2
    rcases h.roots ha with rfl | ⟨space, hm, hl, rfl⟩
    · exact absurd rfl hi.1
    · exact ⟨h.agree hm hl i hshared, h.present i hshared⟩

/-- The loop of `unmap_region`, which gives frames back between its pages. -/
theorem unmapRegion_invalidates (h : Tables F c root spaces clients place s) (ha : place a = some (a, [])) {vs : List VirtAddr}
    (hvs : ∀ v ∈ vs, isCanonical v.addr = true ∧ v.isAligned = true ∧ 256 ≤ v.pml4Index.val) :
    Invalidates (walks a s) (under a (unmapRegionWrites ⟨root⟩ true vs s)) (walks a (vs.foldl (unmapOne ⟨root⟩ true) s)) := by
  induction vs generalizing place s with
  | nil => exact .done _
  | cons v vs ih =>
    obtain ⟨hc, hal, hup⟩ := hvs v List.mem_cons_self
    obtain ⟨place', ho, hstep, -⟩ := unmapOne_cases h.owned h.rooted hc hal hup
    obtain ⟨place₀, held₀, hl, hroots⟩ := tables_layout h ha
    have hplain : v.pml4Index ≠ 0 := by
      intro hz
      rw [hz] at hup
      simp at hup
    obtain ⟨-, hsame⟩ := hl.unmap (v := v) hl.kernel (by simp [tablePolicy]) fun _ => hplain
    apply Invalidates.write hsame
    have htables : (unmapOne ⟨root⟩ true s v).tables = (unmapWrite ⟨root⟩ v s).2.tables := by
      rw [unmapWrite_mem, unmapOne]
      rcases Paging.unmapPage ⟨root⟩ v s with ⟨_ | page, s₁⟩
      · rfl
      · exact discardFree_tables s₁ page
    rw [← walks_of_tables htables, List.foldl_cons]
    exact ih (h.kernelStep ho hstep) (hstep.kept ha (.inr (by simp))) fun w hw => hvs w (List.mem_cons_of_mem v hw)

/-- Writes to a table no walk from this root reads. -/
theorem elsewhere_silent (h : Tables F c root spaces clients place s) (ha : place a = some (a, [])) {f : U64}
    (hf : ∀ {r p}, place f = some (r, p) → r = f ∧ r ≠ root ∧ r ≠ a) {t : PageMemory}
    (ht : ∀ b, b ≠ f → t.tables b = s.tables b) : SameBut a ∅ s t := by
  have htable : ∀ d b, TableAt s.tables a d b → t.tables b = s.tables b := by
    intro d b hb
    apply ht
    rintro rfl
    rcases h.roots ha with rfl | ⟨space, hm, hl, rfl⟩
    · obtain ⟨p, -, hp⟩ := h.tableAt_kernel hb
      exact (hf hp).2.1 rfl
    · obtain ⟨p, -, hp | ⟨hp, -⟩⟩ := h.tableAt hm hl hb
      · exact (hf hp).2.2 rfl
      · exact (hf hp).2.1 rfl
  intro q hq _
  exact reach_of_tables htable .root (by rw [hq])

end Trees
end VenturaOS.Tlb
