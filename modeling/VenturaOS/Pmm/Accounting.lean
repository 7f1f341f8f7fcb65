import VenturaOS.Pmm.Calls

/-!
# The counters agree with the bitmap

After `init` the clear bits are the usable pages of the memory map. The
counters match the bitmap then, and the word-wise check of
`verify_invariants` counts exactly the clear bits below the limit.
-/
namespace VenturaOS.Pmm
open Library Memory

/-- Page `i` is one of those that `init` clears. -/
def UsablePage (map : PhysicalMemoryMap) (i : ℕ) : Prop :=
  i ≠ 0 ∧ i < managedPages map ∧
    ∃ r ∈ map.regions, r.isUsable = true ∧ MemoryRegion.startPage r ≤ i ∧ i < MemoryRegion.endPage r

/-- All page indices `init` visits, in order. -/
def visitedPages (map : PhysicalMemoryMap) : List ℕ :=
  (map.regions.filter (fun r => r.isUsable)).flatMap MemoryRegion.pages

theorem mem_pages {r : MemoryRegion} {i : ℕ} :
    i ∈ MemoryRegion.pages r ↔ MemoryRegion.startPage r ≤ i ∧ i < MemoryRegion.endPage r := by
  rw [MemoryRegion.pages, List.mem_range'_1]
  omega

theorem releaseRegion_foldl (rs : List MemoryRegion) (s : Allocator) :
    rs.foldl releaseRegion s =
      ((rs.filter (fun r => r.isUsable)).flatMap MemoryRegion.pages).foldl releasePage s := by
  induction rs generalizing s with
  | nil => rfl
  | cons r rs ih =>
    rw [List.foldl_cons, ih, releaseRegion]
    cases hu : r.isUsable with
    | false => simp [hu]
    | true => simp [hu, List.foldl_append]

@[simp] theorem releasePage_total (s : Allocator) (i : ℕ) : (releasePage s i).total = s.total := by
  unfold releasePage
  split_ifs <;> rfl

theorem releasePage_freeSet (s : Allocator) (i : ℕ) :
    (releasePage s i).freeSet = if i ≠ 0 ∧ i < s.total then insert i s.freeSet else s.freeSet := by
  by_cases hz : i = 0
  · simp [releasePage, hz]
  · by_cases ht : i < s.total
    · rw [if_pos ⟨hz, ht⟩, releasePage, if_neg hz, if_pos ht]
      exact Bitmap.clearBits_clearBit (by decide) _ ht
    · rw [if_neg (by tauto), releasePage, if_neg hz, if_neg ht]

theorem releasePages_total (l : List ℕ) (s : Allocator) : (l.foldl releasePage s).total = s.total := by
  induction l generalizing s with
  | nil => rfl
  | cons i l ih => rw [List.foldl_cons, ih, releasePage_total]

theorem releasePages_freeSet (l : List ℕ) (s : Allocator) (j : ℕ) :
    j ∈ (l.foldl releasePage s).freeSet ↔ j ∈ s.freeSet ∨ (j ∈ l ∧ j ≠ 0 ∧ j < s.total) := by
  induction l generalizing s with
  | nil => simp
  | cons i l ih =>
    rw [List.foldl_cons, ih, releasePage_total, releasePage_freeSet]
    by_cases h : i ≠ 0 ∧ i < s.total
    · rw [if_pos h, Finset.mem_insert, List.mem_cons]
      constructor
      · rintro ((rfl | hs) | hl)
        · exact .inr ⟨.inl rfl, h⟩
        · exact .inl hs
        · exact .inr ⟨.inr hl.1, hl.2⟩
      · rintro (hs | ⟨rfl | hl, hj⟩)
        · exact .inl (.inr hs)
        · exact .inl (.inl rfl)
        · exact .inr ⟨hl, hj⟩
    · rw [if_neg h, List.mem_cons]
      constructor
      · rintro (hs | hl)
        · exact .inl hs
        · exact .inr ⟨.inr hl.1, hl.2⟩
      · rintro (hs | ⟨rfl | hl, hj⟩)
        · exact .inl hs
        · exact absurd hj h
        · exact .inr ⟨hl, hj⟩

/-- Visiting each page at most once keeps the free counter equal to the number of clear bits. -/
theorem releasePages_count (l : List ℕ) (s : Allocator) (hn : l.Nodup)
    (hd : ∀ i ∈ l, i ∉ s.freeSet) (hc : s.stats.freePages = s.freeSet.card) :
    (l.foldl releasePage s).stats.freePages = (l.foldl releasePage s).freeSet.card := by
  induction l generalizing s with
  | nil => exact hc
  | cons i l ih =>
    rw [List.foldl_cons]
    have hfresh := hd i List.mem_cons_self
    apply ih _ hn.of_cons
    · intro j hj
      have hne : j ≠ i := fun he => (List.nodup_cons.mp hn).1 (he ▸ hj)
      have hjs := hd j (List.mem_cons_of_mem _ hj)
      rw [releasePage_freeSet]
      split_ifs
      · simp [hne, hjs]
      · exact hjs
    · rw [releasePage_freeSet]
      by_cases hz : i = 0
      · simp [releasePage, hz, hc]
      · by_cases ht : i < s.total
        · rw [if_pos ⟨hz, ht⟩, Finset.card_insert_of_notMem hfresh, ← hc]
          simp [releasePage, hz, ht]
        · simp [releasePage, hz, ht, hc]

/-- A bitmap of all ones has no free page. -/
theorem allOnes_freeSet (st : AllocatorStats) :
    (Allocator.mk (fun _ => BitVec.allOnes 64) st).freeSet = ∅ := by
  rw [Finset.eq_empty_iff_forall_notMem]
  intro i
  rw [Allocator.mem_freeSet, Allocator.bit, Bitmap.bit, BitVec.getLsbD_allOnes]
  simp [Nat.mod_lt]

/-- The bitmap after boot: clear exactly at the usable pages. -/
theorem init_freeSet (map : PhysicalMemoryMap) (i : ℕ) : i ∈ (init map).freeSet ↔ UsablePage map i := by
  change i ∈ (map.regions.foldl releaseRegion _).freeSet ↔ _
  rw [releaseRegion_foldl, releasePages_freeSet, allOnes_freeSet]
  simp only [Finset.notMem_empty, false_or, UsablePage, List.mem_flatMap, List.mem_filter, mem_pages]
  constructor
  · rintro ⟨⟨r, ⟨hr, hu⟩, hp⟩, hz, ht⟩
    exact ⟨hz, ht, r, hr, hu, hp⟩
  · rintro ⟨hz, ht, r, hr, hu, hp⟩
    exact ⟨⟨r, ⟨hr, hu⟩, hp⟩, hz, ht⟩

@[simp] theorem init_total (map : PhysicalMemoryMap) : (init map).total = managedPages map := by
  change (map.regions.foldl releaseRegion _).total = _
  rw [releaseRegion_foldl, releasePages_total]
  rfl

theorem releasePages_bit_above (l : List ℕ) (s : Allocator) {j : ℕ} (hj : s.total ≤ j) :
    (l.foldl releasePage s).bit j = s.bit j := by
  induction l generalizing s with
  | nil => rfl
  | cons i l ih =>
    rw [List.foldl_cons, ih _ (by simpa using hj), releasePage]
    split_ifs with hz ht
    · rfl
    · have hne : j ≠ i := by omega
      change Bitmap.bit (Bitmap.clearBit s.bitmap i) j = _
      simp [Bitmap.bit_clearBit, hne, Allocator.bit]
    · rfl

theorem init_bit_above {map : PhysicalMemoryMap} {i : ℕ} (hi : (init map).total ≤ i) :
    (init map).bit i = true := by
  rw [init_total] at hi
  change (map.regions.foldl releaseRegion _).bit i = true
  rw [releaseRegion_foldl, releasePages_bit_above _ _ hi, Allocator.bit, Bitmap.bit,
    BitVec.getLsbD_allOnes]
  simp [Nat.mod_lt]

theorem managedPages_le (map : PhysicalMemoryMap) : managedPages map ≤ maxManagedPages := by
  unfold managedPages
  split_ifs <;> omega

/-- Disjoint usable regions are visited without repetition. -/
theorem visitedPages_nodup {map : PhysicalMemoryMap} (hwf : map.UsableWellFormed) :
    (visitedPages map).Nodup := by
  rw [visitedPages, List.nodup_flatMap]
  constructor
  · intro r _
    exact List.nodup_range'
  · rw [List.pairwise_filter]
    apply hwf.disjoint.imp
    intro r q h hr hq i hi hi'
    rw [mem_pages, MemoryRegion.startPage, MemoryRegion.endPage] at hi hi'
    rcases h hr hq with h | h
    · have := Nat.div_le_div_right (c := pageSize) h
      omega
    · have := Nat.div_le_div_right (c := pageSize) h
      omega

theorem init_freePages {map : PhysicalMemoryMap} (hwf : map.UsableWellFormed) :
    (init map).stats.freePages = (init map).freeSet.card := by
  change (map.regions.foldl releaseRegion _).stats.freePages =
    (map.regions.foldl releaseRegion _).freeSet.card
  rw [releaseRegion_foldl]
  apply releasePages_count _ _ (visitedPages_nodup hwf)
  · intro i _
    rw [allOnes_freeSet]
    exact Finset.notMem_empty i
  · rw [allOnes_freeSet, Finset.card_empty]

/-- The word-wise count of `verify_invariants` sees each managed clear bit once and no other. -/
theorem countedFree_sum (s : Allocator) :
    (List.range (wordsToScan s)).foldl (fun acc w => acc + countedFree s w) 0 = s.freeSet.card := by
  have hfold (n : ℕ) : (List.range n).foldl (fun acc w => acc + countedFree s w) 0 =
      ∑ w ∈ Finset.range n, countedFree s w := by
    induction n with
    | zero => rfl
    | succ n ih => rw [List.range_succ, List.foldl_append, ih, Finset.sum_range_succ]; rfl
  rw [hfold, Allocator.freeSet]
  by_cases hr : s.total % 64 = 0
  · have hwords : wordsToScan s * 64 = s.total := by rw [wordsToScan]; omega
    have hfull (w : ℕ) (_ : w ∈ Finset.range (wordsToScan s)) :
        countedFree s w = (~~~s.bitmap w).cpop.toNat := by
      rw [countedFree, if_neg (by simp [hr])]
    rw [Finset.sum_congr rfl hfull, Bitmap.sum_cpop_not (by decide), hwords]
  · have hwords : wordsToScan s = s.total / 64 + 1 := by rw [wordsToScan]; omega
    have hlast : countedFree s (s.total / 64) =
        ((Finset.range (s.total % 64)).filter (fun i => (s.bitmap (s.total / 64)).getLsbD i = false)).card := by
      rw [countedFree, if_pos ⟨by omega, hr⟩]
      exact Bitmap.cpop_not_masked_eq_card _ (Nat.mod_lt _ (by decide))
    have hfull (w : ℕ) (hw : w ∈ Finset.range (s.total / 64)) :
        countedFree s w = (~~~s.bitmap w).cpop.toNat := by
      have hlt := Finset.mem_range.mp hw
      rw [countedFree, if_neg (by omega)]
    rw [hwords, Finset.sum_range_succ, Finset.sum_congr rfl hfull, hlast,
      Bitmap.sum_cpop_not (by decide), ← Bitmap.clearBits_succ_word (by decide) _ _ _ (by omega),
      Nat.div_add_mod']

end VenturaOS.Pmm
