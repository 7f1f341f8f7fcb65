import VenturaOS.Pmm.Allocator

/-!
# What the allocator's calls do

`allocate_physical_page` takes the least clear page or changes nothing;
`free_physical_page` clears one set page or changes nothing. Every later
argument about the allocator goes through these two case analyses.
-/
namespace VenturaOS.Pmm
open Library Memory

namespace Allocator

/-- Effect of handing out page `i`. -/
def take (s : Allocator) (i : ℕ) : Allocator :=
  { bitmap := Bitmap.setBit s.bitmap i
    stats := { s.stats with
      freePages := s.stats.freePages - 1
      usedPages := saturatingAdd s.stats.usedPages 1 } }

/-- Effect of taking page `i` back. -/
def giveBack (s : Allocator) (i : ℕ) : Allocator :=
  { bitmap := Bitmap.clearBit s.bitmap i
    stats := { s.stats with
      freePages := saturatingAdd s.stats.freePages 1
      usedPages := s.stats.usedPages - 1 } }

@[simp] theorem take_total (s : Allocator) (i : ℕ) : (s.take i).total = s.total := rfl
@[simp] theorem giveBack_total (s : Allocator) (i : ℕ) : (s.giveBack i).total = s.total := rfl

@[simp] theorem take_bit (s : Allocator) (i j : ℕ) :
    (s.take i).bit j = (decide (j = i) || s.bit j) := Bitmap.bit_setBit (by decide) _ _ _

@[simp] theorem giveBack_bit (s : Allocator) (i j : ℕ) :
    (s.giveBack i).bit j = (!decide (j = i) && s.bit j) := Bitmap.bit_clearBit (by decide) _ _ _

theorem mem_freeSet {s : Allocator} {i : ℕ} : i ∈ s.freeSet ↔ i < s.total ∧ s.bit i = false :=
  Bitmap.mem_clearBits

theorem freeSet_subset (s : Allocator) : s.freeSet ⊆ Finset.range s.total := Finset.filter_subset _ _

theorem take_freeSet (s : Allocator) (i : ℕ) : (s.take i).freeSet = s.freeSet.erase i :=
  Bitmap.clearBits_setBit (by decide) _ _ _

theorem giveBack_freeSet (s : Allocator) {i : ℕ} (hi : i < s.total) :
    (s.giveBack i).freeSet = insert i s.freeSet :=
  Bitmap.clearBits_clearBit (by decide) _ hi

end Allocator

private theorem bit_word (s : Allocator) (w : ℕ) {k : ℕ} (hk : k < 64) :
    s.bit (w * 64 + k) = (s.bitmap w).getLsbD k := by
  rw [Allocator.bit, Bitmap.bit, show (w * 64 + k) / 64 = w by omega,
    show (w * 64 + k) % 64 = k by omega]

/-- The scan stops at the least clear page of the words it covers. -/
theorem scanWords_some {s : Allocator} {n w w' b : ℕ} (h : scanWords s n w = some (w', b)) :
    b < 64 ∧ w' * 64 + b < s.total ∧ s.bit (w' * 64 + b) = false ∧
      ∀ i, w * 64 ≤ i → i < w' * 64 + b → s.bit i = true := by
  induction n generalizing w with
  | zero => simp [scanWords] at h
  | succ n ih =>
    -- a word passed over has no clear page below the answer, so the answer of the rest stands
    have hskip (hrest : scanWords s n (w + 1) = some (w', b))
        (hfull : ∀ k < 64, w * 64 + k < w' * 64 + b → s.bit (w * 64 + k) = true) (i : ℕ)
        (hi : w * 64 ≤ i) (hi' : i < w' * 64 + b) : s.bit i = true := by
      by_cases hw : (w + 1) * 64 ≤ i
      · exact (ih hrest).2.2.2 i hw hi'
      · have he : i = w * 64 + (i - w * 64) := by omega
        rw [he]
        exact hfull _ (by omega) (by omega)
    simp only [scanWords] at h
    split_ifs at h with hne hin
    · simp only [Option.some.injEq, Prod.mk.injEq] at h
      obtain ⟨rfl, rfl⟩ := h
      obtain ⟨hlt, hclear, hleast⟩ := Bitmap.ctz_not_isLeast hne
      refine ⟨hlt, hin, (bit_word s w hlt).trans hclear, fun i hi hi' => ?_⟩
      have he : i = w * 64 + (i - w * 64) := by omega
      rw [he, bit_word s w (by omega)]
      exact hleast _ (by omega)
    · obtain ⟨hb, hlt, hclear, -⟩ := ih h
      refine ⟨hb, hlt, hclear, hskip h fun k hk hk' => ?_⟩
      rw [bit_word s w hk]
      exact (Bitmap.ctz_not_isLeast hne).2.2 k (by omega)
    · obtain ⟨hb, hlt, hclear, -⟩ := ih h
      have hall : s.bitmap w = BitVec.allOnes 64 := by simpa using hne
      refine ⟨hb, hlt, hclear, hskip h fun k hk _ => ?_⟩
      rw [bit_word s w hk, hall, BitVec.getLsbD_allOnes]
      simpa using hk

theorem scanWords_none {s : Allocator} {n w : ℕ} (h : scanWords s n w = none) (i : ℕ)
    (hi : w * 64 ≤ i) (hi' : i < (w + n) * 64) (ht : i < s.total) : s.bit i = true := by
  induction n generalizing w with
  | zero => omega
  | succ n ih =>
    simp only [scanWords] at h
    by_cases hw : (w + 1) * 64 ≤ i
    · split_ifs at h
      · exact ih h hw (by omega)
      · exact ih h hw (by omega)
    · have he : i = w * 64 + (i - w * 64) := by omega
      rw [he, bit_word s w (by omega)]
      split_ifs at h with hne hin
      · exact (Bitmap.ctz_not_isLeast hne).2.2 _ (by omega)
      · have hall : s.bitmap w = BitVec.allOnes 64 := by simpa using hne
        rw [hall, BitVec.getLsbD_allOnes]
        simp only [decide_eq_true_eq]
        omega

/-- `allocate_physical_page` finds nothing, or hands out the least free page. -/
theorem allocate_cases (s : Allocator) :
    (allocatePhysicalPage s = (none, s) ∧ s.freeSet = ∅) ∨
    ∃ i ∈ s.freeSet, (∀ j ∈ s.freeSet, i ≤ j) ∧
      allocatePhysicalPage s = (some (PhysPage.fromPageNumber i), s.take i) := by
  unfold allocatePhysicalPage
  cases h : scanWords s (wordsToScan s) 0 with
  | none =>
    refine .inl ⟨rfl, Finset.eq_empty_of_forall_notMem fun i hi => ?_⟩
    obtain ⟨ht, hc⟩ := Allocator.mem_freeSet.mp hi
    have hset := scanWords_none h i (by omega) (by rw [wordsToScan]; omega) ht
    simp [hset] at hc
  | some found =>
    obtain ⟨w, b⟩ := found
    obtain ⟨hb, hlt, hclear, hleast⟩ := scanWords_some h
    refine .inr ⟨w * 64 + b, Allocator.mem_freeSet.mpr ⟨hlt, hclear⟩, fun j hj => ?_, ?_⟩
    · by_contra hlt'
      have hset := hleast j (by omega) (by omega)
      simp [(Allocator.mem_freeSet.mp hj).2] at hset
    · simp only [Allocator.take, Bitmap.setBit, show (w * 64 + b) / 64 = w by omega,
        show (w * 64 + b) % 64 = b by omega]

theorem fromPageNumber_addr {i : ℕ} (hi : i < 2 ^ 52) :
    (PhysPage.fromPageNumber i).addr.toNat = i * pageSize := by
  rw [PhysPage.fromPageNumber, BitVec.toNat_ofNat, pageSize]
  omega

theorem fromPageNumber_pageNumber {i : ℕ} (hi : i < 2 ^ 52) :
    (PhysPage.fromPageNumber i).pageNumber = i := by
  rw [PhysPage.pageNumber, fromPageNumber_addr hi, pageSize]
  omega

theorem eq_fromPageNumber {page : PhysPage} (h : page.addr.toNat % pageSize = 0) :
    page = PhysPage.fromPageNumber page.pageNumber := by
  cases page with
  | mk addr =>
    simp only [PhysPage.fromPageNumber, PhysPage.pageNumber, PhysPage.mk.injEq]
    apply BitVec.eq_of_toNat_eq
    have hlt := addr.isLt
    rw [BitVec.toNat_ofNat, Nat.div_mul_cancel (Nat.dvd_of_mod_eq_zero h), Nat.mod_eq_of_lt hlt]

/-- `free_physical_page` refuses and changes nothing, or clears one set managed page. -/
theorem free_cases (page : PhysPage) (s : Allocator) :
    (∃ e, freePhysicalPage page s = (.error e, s)) ∨
    ∃ i, page = PhysPage.fromPageNumber i ∧ page.pageNumber = i ∧ i ≠ 0 ∧ i < s.total ∧
      s.bit i = true ∧ freePhysicalPage page s = (.ok (), s.giveBack i) := by
  unfold freePhysicalPage
  split_ifs with ha hz hb hd
  · exact .inl ⟨_, rfl⟩
  · exact .inl ⟨_, rfl⟩
  · exact .inl ⟨_, rfl⟩
  · exact .inl ⟨_, rfl⟩
  · have ha' : page.addr.toNat % pageSize = 0 := by simpa using ha
    exact .inr ⟨page.pageNumber, eq_fromPageNumber ha', rfl, hz, by omega, by simpa using hd, rfl⟩

theorem free_ok {s : Allocator} {i : ℕ} (hz : i ≠ 0) (ht : i < s.total) (hm : s.total ≤ maxManagedPages)
    (hb : s.bit i = true) :
    freePhysicalPage (PhysPage.fromPageNumber i) s = (.ok (), s.giveBack i) := by
  have hi : i < 2 ^ 52 := by unfold maxManagedPages at hm; omega
  have hmod : i * pageSize % pageSize = 0 := Nat.mul_mod_left _ _
  unfold freePhysicalPage
  rw [fromPageNumber_addr hi, fromPageNumber_pageNumber hi, if_neg (by simp [hmod]), if_neg hz,
    if_neg (by omega), if_neg (by simp [hb])]
  rfl

end VenturaOS.Pmm
