import VenturaOS.Pmm.Exclusivity

/-!
# The word scan and the count, against single bits

`allocate_physical_page` goes over words and takes the trailing zeros of a
complement, `verify_invariants` adds up population counts. What they find is
what a search and a count bit by bit find.
-/
namespace VenturaOS.Pmm
open Library Memory

/-- The search bit by bit. -/
def naiveScan (s : Allocator) : Option ℕ := (List.range s.total).find? fun i => !s.bit i

section Scan

variable {s : Allocator} {i : ℕ}

theorem naiveScan_eq_none : naiveScan s = none ↔ ∀ i < s.total, s.bit i = true := by
  rw [naiveScan, List.find?_range_eq_none]
  simp

theorem naiveScan_eq_some : naiveScan s = some i ↔ i < s.total ∧ s.bit i = false ∧ ∀ j < i, s.bit j = true := by
  rw [naiveScan, List.find?_range_eq_some, List.mem_range]
  simp only [Bool.not_eq_true', Bool.not_not]
  tauto

/-- The call is decided by the search bit by bit. -/
theorem allocate_eq_naive (s : Allocator) : allocatePhysicalPage s =
    match naiveScan s with
    | none => (none, s)
    | some i => (some (PhysPage.fromPageNumber i), s.take i) := by
  rcases allocate_cases s with ⟨he, hempty⟩ | ⟨i, hi, hleast, he⟩
  · have hnone : naiveScan s = none := by
      rw [naiveScan_eq_none]
      intro i hi
      by_contra hclear
      have hmem := Allocator.mem_freeSet.mpr ⟨hi, by simpa using hclear⟩
      rw [hempty] at hmem
      exact Finset.notMem_empty i hmem
    rw [he, hnone]
  · obtain ⟨hlt, hclear⟩ := Allocator.mem_freeSet.mp hi
    have hsome : naiveScan s = some i := by
      rw [naiveScan_eq_some]
      refine ⟨hlt, hclear, fun j hj => ?_⟩
      by_contra hset
      have hle := hleast j (Allocator.mem_freeSet.mpr ⟨by omega, by simpa using hset⟩)
      omega
    rw [he, hsome]

/-- Freeing the page that was found restores the bitmap and the counters. -/
theorem free_found (h : Accounted s) (hi : naiveScan s = some i) :
    freePhysicalPage (PhysPage.fromPageNumber i) (s.take i) = (.ok (), s) := by
  obtain ⟨hlt, hclear, -⟩ := naiveScan_eq_some.mp hi
  have hnonzero : i ≠ 0 := by
    rintro rfl
    rw [h.pageZero] at hclear
    cases hclear
  have hfree := free_ok (s := s.take i) hnonzero hlt h.bound (by simp)
  have htake : Step s (.allocated (some (PhysPage.fromPageNumber i))) (s.take i) :=
    .allocate (by rw [allocate_eq_naive, hi])
  -- neither call saturates, so the counters go one way and back
  obtain ⟨hfewer, hmore⟩ := step_exact h htake
  obtain ⟨hback, hless⟩ := step_exact (step_accounted _ _ _ h htake) (.free hfree)
  have hbitmap : ((s.take i).giveBack i).bitmap = s.bitmap := Bitmap.clearBit_setBit (by decide) hclear
  have hstats : ((s.take i).giveBack i).stats = s.stats := by
    have hcount : ((s.take i).giveBack i).stats.freePages = s.stats.freePages := hback.trans hfewer
    have hused : ((s.take i).giveBack i).stats.usedPages = s.stats.usedPages := by omega
    change AllocatorStats.mk s.stats.totalManagedPages s.stats.usablePages ((s.take i).giveBack i).stats.freePages
      ((s.take i).giveBack i).stats.usedPages = s.stats
    rw [hcount, hused]
  rw [hfree]
  change (_, Allocator.mk ((s.take i).giveBack i).bitmap ((s.take i).giveBack i).stats) = _
  rw [hbitmap, hstats]

/-- The word scan takes the least clear page, or nothing when there is none; a free undoes it, and the
same page comes again. -/
theorem word_scan_is_naive (h : Accounted s) :
    ((allocatePhysicalPage s).1 = none ↔ ∀ i < s.total, s.bit i = true) ∧
    ((allocatePhysicalPage s).1 = none → (allocatePhysicalPage s).2 = s) ∧
    ∀ page t, allocatePhysicalPage s = (some page, t) →
      (∃ i < s.total, page = PhysPage.fromPageNumber i ∧ s.bit i = false ∧ (∀ j < i, s.bit j = true) ∧
        t.total = s.total ∧ ∀ j, t.bit j = (decide (j = i) || s.bit j)) ∧
      freePhysicalPage page t = (.ok (), s) ∧
      allocatePhysicalPage (freePhysicalPage page t).2 = (some page, t) := by
  cases hscan : naiveScan s with
  | none =>
    have hfull := naiveScan_eq_none.mp hscan
    have hnone : allocatePhysicalPage s = (none, s) := by rw [allocate_eq_naive, hscan]
    rw [hnone]
    refine ⟨iff_of_true rfl hfull, fun _ => rfl, fun page t he => ?_⟩
    cases he
  | some i =>
    obtain ⟨hlt, hclear, hleast⟩ := naiveScan_eq_some.mp hscan
    have hsome : allocatePhysicalPage s = (some (PhysPage.fromPageNumber i), s.take i) := by rw [allocate_eq_naive, hscan]
    have hfree := free_found h hscan
    rw [hsome]
    refine ⟨iff_of_false (Option.some_ne_none _) fun hfull => ?_, fun he => ?_, fun page t he => ?_⟩
    · rw [hfull i hlt] at hclear
      cases hclear
    · cases he
    · cases he
      rw [hfree]
      exact ⟨⟨i, hlt, rfl, hclear, hleast, rfl, s.take_bit i⟩, rfl, hsome⟩

/-- A boot with three usable pages: the first of them is found. -/
theorem word_scan_is_naive_sample : ∃ s t, s = init sampleMap ∧ allocatePhysicalPage s = (some ⟨0x1000⟩, t) ∧
    freePhysicalPage ⟨0x1000⟩ t = (.ok (), s) := by
  have hpage : (allocatePhysicalPage (init sampleMap)).1 = some ⟨0x1000⟩ := by decide +kernel
  have hs := init_accounted sampleMap_wellFormed
  refine ⟨init sampleMap, (allocatePhysicalPage (init sampleMap)).2, rfl, ?_, ?_⟩
  · generalize init sampleMap = s at hpage
    exact Prod.ext hpage rfl
  · generalize init sampleMap = s at hpage hs ⊢
    exact ((word_scan_is_naive hs).2.2 _ _ (Prod.ext hpage rfl)).2.1

end Scan

section Count

/-- What the check counts in a word are the clear bits of managed pages. -/
theorem countedFree_eq (s : Allocator) {w : ℕ} (hw : w < wordsToScan s) :
    countedFree s w = ((Finset.range 64).filter fun k => w * 64 + k < s.total ∧ s.bit (w * 64 + k) = false).card := by
  have hbit (k : ℕ) (hk : k < 64) : s.bit (w * 64 + k) = (s.bitmap w).getLsbD k := by
    rw [Allocator.bit, Bitmap.bit, show (w * 64 + k) / 64 = w by omega, show (w * 64 + k) % 64 = k by omega]
  rw [wordsToScan] at hw
  unfold countedFree
  split_ifs with hlast
  · rw [wordsToScan] at hlast
    rw [Bitmap.cpop_not_masked_eq_card _ (Nat.mod_lt _ (by decide))]
    congr 1
    ext k
    simp only [Finset.mem_filter, Finset.mem_range]
    constructor
    · rintro ⟨hk, hclear⟩
      exact ⟨by omega, by omega, by rw [hbit k (by omega), hclear]⟩
    · rintro ⟨hk, hlt, hclear⟩
      rw [hbit k hk] at hclear
      exact ⟨by omega, hclear⟩
  · rw [wordsToScan] at hlast
    rw [Bitmap.cpop_not_eq_card]
    congr 1
    ext k
    simp only [Finset.mem_filter, Finset.mem_range]
    constructor
    · rintro ⟨hk, hclear⟩
      exact ⟨hk, by omega, by rw [hbit k hk, hclear]⟩
    · rintro ⟨hk, -, hclear⟩
      rw [hbit k hk] at hclear
      exact ⟨hk, hclear⟩

/-- `verify_invariants` accepts a state exactly if the counters and the bitmap agree, and no word's count
has a bit behind the managed pages in it. -/
theorem verify_invariants_exact (s : Allocator) :
    (verifyInvariants s = .ok () ↔
      s.stats.usedPages + s.stats.freePages = s.stats.totalManagedPages ∧ s.bit 0 = true ∧
        s.stats.freePages = ((Finset.range s.total).filter fun i => s.bit i = false).card) ∧
    ∀ w < wordsToScan s, countedFree s w =
      ((Finset.range 64).filter fun k => w * 64 + k < s.total ∧ s.bit (w * 64 + k) = false).card := by
  refine ⟨?_, fun w hw => countedFree_eq s hw⟩
  rw [← pageZero_iff, verifyInvariants, countedFree_sum]
  change _ ↔ _ ∧ _ ∧ s.stats.freePages = s.freeSet.card
  split_ifs with hsum hzero hcount
  · simp [hsum]
  · simp [hzero]
  · simp [Ne.symm hcount]
  · exact iff_of_true rfl ⟨not_not.mp hsum, hzero, (not_not.mp hcount).symm⟩

end Count

end VenturaOS.Pmm
