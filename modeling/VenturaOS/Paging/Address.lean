import VenturaOS.Paging.Entry

/-!
# Canonical addresses and their table indices

The four table indices determine the page of a canonical address, so distinct
pages have distinct paths through the tables.
-/
namespace VenturaOS.Paging
open Memory

theorem isCanonical_iff (a : U64) :
    isCanonical a = true ↔ a.toNat < 2 ^ 47 ∨ 2 ^ 64 - 2 ^ 47 ≤ a.toNat := by
  have hlt := a.isLt
  have hint : (a.sshiftRight 47).toInt = a.toInt / 2 ^ 47 := by
    rw [BitVec.toInt_sshiftRight, Int.shiftRight_eq_div_pow]
    rfl
  have hzero : a.sshiftRight 47 = 0#64 ↔ a.toInt / 2 ^ 47 = 0 := by
    rw [← hint, ← BitVec.toInt_inj]
    rfl
  have hones : a.sshiftRight 47 = BitVec.allOnes 64 ↔ a.toInt / 2 ^ 47 = -1 := by
    rw [← hint, ← BitVec.toInt_inj]
    rfl
  simp only [isCanonical, Bool.or_eq_true, beq_iff_eq, hzero, hones, BitVec.toInt_eq_toNat_cond]
  split_ifs <;> omega

namespace VirtAddr

theorem index_val (v : VirtAddr) (shift : ℕ) : (v.index shift).val = v.addr.toNat / 2 ^ shift % 512 := by
  change ((v.addr >>> shift) &&& 0x1FF#64).toNat = _
  rw [BitVec.toNat_and, BitVec.toNat_ushiftRight, Nat.shiftRight_eq_div_pow,
    show (0x1FF#64).toNat = 2 ^ 9 - 1 from rfl, Nat.and_two_pow_sub_one_eq_mod]

/-- Canonical addresses with equal indices lie in one page. -/
theorem page_eq_of_path {v w : VirtAddr} (hv : isCanonical v.addr = true) (hw : isCanonical w.addr = true)
    (h : v.path = w.path) : v.addr.toNat / 4096 = w.addr.toNat / 4096 := by
  rw [isCanonical_iff] at hv hw
  simp only [path, tablePath, List.cons_append, List.nil_append, List.cons.injEq, and_true,
    pml4Index, pdptIndex, pdIndex, ptIndex, Fin.ext_iff, index_val] at h
  rcases h with ⟨h4, h3, h2, h1⟩
  have hvlt := v.addr.isLt
  have hwlt := w.addr.isLt
  omega

theorem path_eq_of_page {v w : VirtAddr} (h : v.addr.toNat / 4096 = w.addr.toNat / 4096) :
    v.path = w.path := by
  have hdiv (a : U64) (k : ℕ) : a.toNat / 2 ^ (12 + k) = a.toNat / 4096 / 2 ^ k := by
    rw [Nat.div_div_eq_div_mul, pow_add, show 2 ^ 12 = 4096 from rfl]
  have hindex (k : ℕ) : v.index (12 + k) = w.index (12 + k) := by
    rw [Fin.ext_iff, index_val, index_val, hdiv, hdiv, h]
  simp only [path, tablePath, pml4Index, pdptIndex, pdIndex, ptIndex]
  rw [hindex 27, hindex 18, hindex 9, hindex 0]

theorem path_inj {v w : VirtAddr} (hv : isCanonical v.addr = true) (hw : isCanonical w.addr = true)
    (hav : v.isAligned = true) (haw : w.isAligned = true) (h : v.path = w.path) : v = w := by
  have hpage := page_eq_of_path hv hw h
  simp only [isAligned, pageSize, beq_iff_eq] at hav haw
  cases v with
  | mk a =>
    cases w with
    | mk b =>
      simp only [mk.injEq]
      apply BitVec.eq_of_toNat_eq
      simp only at hpage hav haw
      omega

/-- The upper half of the canonical range is reached through slots 256 to 511. -/
theorem kernel_slot_iff {v : VirtAddr} (hv : isCanonical v.addr = true) :
    256 ≤ v.pml4Index.val ↔ 2 ^ 47 ≤ v.addr.toNat := by
  rw [isCanonical_iff] at hv
  rw [pml4Index, index_val]
  have hlt := v.addr.isLt
  omega

theorem path_length (v : VirtAddr) : v.path.length = 4 := rfl
theorem tablePath_length (v : VirtAddr) : v.tablePath.length = 3 := rfl

end VirtAddr
end VenturaOS.Paging
