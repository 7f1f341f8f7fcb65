import Mathlib.Data.BitVec
import Mathlib.Data.Finset.Card
import Mathlib.Algebra.BigOperators.Group.Finset.Basic
import Mathlib.Algebra.BigOperators.Intervals
import Mathlib.Tactic

/-!
# Bitmaps kept in machine words

A bitmap is a sequence of `w`-bit words; bit `i` lives in word `i / w`. The
module relates the word operations an allocator performs (or in a bit, mask a
bit out, count trailing zeros, population count) to the set of clear bits.
-/
namespace VenturaOS.Library.Bitmap

variable {w : ℕ}

/-- Bit `i` of the bitmap. -/
def bit (b : ℕ → BitVec w) (i : ℕ) : Bool := (b (i / w)).getLsbD (i % w)

def setBit (b : ℕ → BitVec w) (i : ℕ) : ℕ → BitVec w :=
  Function.update b (i / w) (b (i / w) ||| 1#w <<< (i % w))

def clearBit (b : ℕ → BitVec w) (i : ℕ) : ℕ → BitVec w :=
  Function.update b (i / w) (b (i / w) &&& ~~~(1#w <<< (i % w)))

/-- The indices below `n` whose bit is clear. -/
def clearBits (b : ℕ → BitVec w) (n : ℕ) : Finset ℕ := (Finset.range n).filter (fun i => bit b i = false)

theorem mem_clearBits {b : ℕ → BitVec w} {n i : ℕ} : i ∈ clearBits b n ↔ i < n ∧ bit b i = false := by
  simp [clearBits]

private theorem getLsbD_one_shiftLeft (k j : ℕ) (hj : j < w) :
    (1#w <<< k).getLsbD j = decide (j = k) := by
  rw [BitVec.getLsbD_shiftLeft, BitVec.getLsbD_one]
  by_cases h : j < k
  · have hne : j ≠ k := by omega
    simp [h, hne]
  · by_cases he : j = k
    · have hw : 0 < w := by omega
      simp [he, hw, show k < w by omega]
    · simp [h, he, show j - k ≠ 0 by omega]

private theorem same_word {i j : ℕ} (h : j / w = i / w) : j % w = i % w ↔ j = i := by
  constructor
  · intro hm
    rw [← Nat.div_add_mod j w, ← Nat.div_add_mod i w, h, hm]
  · rintro rfl
    rfl

theorem bit_setBit (hw : 0 < w) (b : ℕ → BitVec w) (i j : ℕ) :
    bit (setBit b i) j = (decide (j = i) || bit b j) := by
  have hj := Nat.mod_lt j hw
  by_cases h : j / w = i / w
  · simp [bit, setBit, h, getLsbD_one_shiftLeft _ _ hj, same_word h, Bool.or_comm]
  · have hne : j ≠ i := fun he => h (he ▸ rfl)
    simp [bit, setBit, Function.update_of_ne h, hne]

theorem bit_clearBit (hw : 0 < w) (b : ℕ → BitVec w) (i j : ℕ) :
    bit (clearBit b i) j = (!decide (j = i) && bit b j) := by
  have hj := Nat.mod_lt j hw
  by_cases h : j / w = i / w
  · simp only [bit, clearBit, h, Function.update_self, BitVec.getLsbD_and, BitVec.getLsbD_not,
      getLsbD_one_shiftLeft _ _ hj, same_word h, hj, decide_true, Bool.true_and, Bool.and_comm]
  · have hne : j ≠ i := fun he => h (he ▸ rfl)
    simp [bit, clearBit, Function.update_of_ne h, hne]

theorem clearBits_setBit (hw : 0 < w) (b : ℕ → BitVec w) (n i : ℕ) :
    clearBits (setBit b i) n = (clearBits b n).erase i := by
  ext j
  simp only [mem_clearBits, Finset.mem_erase, bit_setBit hw, Bool.or_eq_false_iff, decide_eq_false_iff_not]
  tauto

theorem clearBits_clearBit (hw : 0 < w) (b : ℕ → BitVec w) {n i : ℕ} (hi : i < n) :
    clearBits (clearBit b i) n = insert i (clearBits b n) := by
  ext j
  simp only [mem_clearBits, Finset.mem_insert, bit_clearBit hw, Bool.and_eq_false_iff,
    Bool.not_eq_false_eq_eq_true, decide_eq_true_eq]
  constructor
  · rintro ⟨hj, he | hc⟩
    · exact .inl he
    · exact .inr ⟨hj, hc⟩
  · rintro (rfl | ⟨hj, hc⟩)
    · exact ⟨hi, .inl rfl⟩
    · exact ⟨hj, .inr hc⟩

/-- A bitmap is its bits. -/
theorem ext_bit (hw : 0 < w) {b b' : ℕ → BitVec w} (h : ∀ i, bit b i = bit b' i) : b = b' := by
  funext k
  apply BitVec.eq_of_getLsbD_eq
  intro j hj
  have hbit := h (k * w + j)
  have hdiv : (k * w + j) / w = k := by rw [Nat.mul_comm, Nat.mul_add_div hw, Nat.div_eq_of_lt hj, Nat.add_zero]
  have hmod : (k * w + j) % w = j := by rw [Nat.mul_comm, Nat.mul_add_mod, Nat.mod_eq_of_lt hj]
  rw [bit, bit, hdiv, hmod] at hbit
  exact hbit

/-- Setting a clear bit and clearing it again changes nothing. -/
theorem clearBit_setBit (hw : 0 < w) {b : ℕ → BitVec w} {i : ℕ} (hi : bit b i = false) : clearBit (setBit b i) i = b := by
  apply ext_bit hw
  intro j
  rw [bit_clearBit hw, bit_setBit hw]
  by_cases h : j = i
  · rw [h, hi]
    simp
  · simp [h]

/-- A word that is not all ones has its least clear bit at the trailing-zero count of its complement. -/
theorem ctz_not_isLeast {x : BitVec w} (hx : x ≠ BitVec.allOnes w) :
    (~~~x).ctz.toNat < w ∧ x.getLsbD (~~~x).ctz.toNat = false ∧
      ∀ k < (~~~x).ctz.toNat, x.getLsbD k = true := by
  have hne : ~~~x ≠ 0#w := by
    intro h
    apply hx
    have h2 : ~~~(~~~x) = ~~~(0#w) := by rw [h]
    simpa using h2
  have hset := BitVec.getLsbD_true_ctz_of_ne_zero hne
  have hlt : (~~~x).ctz.toNat < w := BitVec.lt_of_getLsbD hset
  refine ⟨hlt, ?_, ?_⟩
  · simpa [BitVec.getLsbD_not, hlt] using hset
  · intro k hk
    have hf := BitVec.getLsbD_false_of_lt_ctz hk
    simpa [BitVec.getLsbD_not, show k < w by omega] using hf

private theorem cpopNatRec_eq_card (x : BitVec w) (n : ℕ) :
    x.cpopNatRec n 0 = ((Finset.range n).filter (fun i => x.getLsbD i = true)).card := by
  induction n with
  | zero => simp
  | succ n ih =>
    rw [BitVec.cpopNatRec_succ, BitVec.cpopNatRec_eq, ih, Finset.range_add_one, Finset.filter_insert]
    by_cases h : x.getLsbD n = true
    · simp [h, Nat.add_comm]
    · simp [h]

/-- The population count of a complemented word counts the word's clear bits. -/
theorem cpop_not_eq_card (x : BitVec w) :
    (~~~x).cpop.toNat = ((Finset.range w).filter (fun i => x.getLsbD i = false)).card := by
  rw [BitVec.toNat_cpop, cpopNatRec_eq_card]
  congr 1
  apply Finset.filter_congr
  intro i hi
  simp [Finset.mem_range.mp hi]

private theorem getLsbD_low_mask {k i : ℕ} (hk : k < w) (hi : i < w) :
    ((1#w <<< k) - 1#w).getLsbD i = decide (i < k) := by
  have hpow : 2 ^ k < 2 ^ w := Nat.pow_lt_pow_right (by omega) hk
  have hpos : 0 < 2 ^ k := Nat.two_pow_pos k
  have hone : (1#w).toNat = 1 := by
    rw [BitVec.toNat_ofNat, Nat.mod_eq_of_lt]
    exact Nat.one_lt_two_pow (by omega)
  have hval : ((1#w <<< k) - 1#w).toNat = 2 ^ k - 1 := by
    rw [BitVec.toNat_sub, BitVec.toNat_shiftLeft, hone, Nat.one_shiftLeft, Nat.mod_eq_of_lt hpow]
    have he : 2 ^ w - 1 + 2 ^ k = 2 ^ w + (2 ^ k - 1) := by omega
    rw [he, Nat.add_mod_left, Nat.mod_eq_of_lt (by omega)]
  rw [BitVec.getLsbD, hval, Nat.testBit_two_pow_sub_one]

/-- Masking the bits from `k` on makes the population count see only the clear bits below `k`. -/
theorem cpop_not_masked_eq_card (x : BitVec w) {k : ℕ} (hk : k < w) :
    (~~~(x ||| ~~~((1#w <<< k) - 1#w))).cpop.toNat =
      ((Finset.range k).filter (fun i => x.getLsbD i = false)).card := by
  rw [cpop_not_eq_card]
  congr 1
  ext i
  simp only [Finset.mem_filter, Finset.mem_range, BitVec.getLsbD_or, Bool.or_eq_false_iff]
  constructor
  · rintro ⟨hi, hx, hm⟩
    rw [BitVec.getLsbD_not, getLsbD_low_mask hk hi] at hm
    simp only [hi, decide_true, Bool.true_and, Bool.not_eq_false_eq_eq_true, decide_eq_true_eq] at hm
    exact ⟨hm, hx⟩
  · rintro ⟨hi, hx⟩
    have hiw : i < w := by omega
    refine ⟨hiw, hx, ?_⟩
    rw [BitVec.getLsbD_not, getLsbD_low_mask hk hiw]
    simp [hi]

theorem clearBits_succ_word (hw : 0 < w) (b : ℕ → BitVec w) (n k : ℕ) (hk : k ≤ w) :
    (clearBits b (n * w + k)).card = (clearBits b (n * w)).card +
      ((Finset.range k).filter (fun i => (b n).getLsbD i = false)).card := by
  induction k with
  | zero => simp
  | succ k ih =>
    have hk' : k < w := by omega
    have hdiv : (n * w + k) / w = n := by
      rw [Nat.mul_comm, Nat.mul_add_div hw, Nat.div_eq_of_lt hk', Nat.add_zero]
    have hmod : (n * w + k) % w = k := by rw [Nat.mul_comm, Nat.mul_add_mod, Nat.mod_eq_of_lt hk']
    have hb : bit b (n * w + k) = (b n).getLsbD k := by rw [bit, hdiv, hmod]
    rw [← Nat.add_assoc, clearBits, Finset.range_add_one, Finset.filter_insert, hb,
      Finset.range_add_one, Finset.filter_insert]
    change (if _ then insert _ (clearBits b (n * w + k)) else clearBits b (n * w + k)).card = _
    have hmem : n * w + k ∉ clearBits b (n * w + k) := by simp [mem_clearBits]
    by_cases h : (b n).getLsbD k = false
    · rw [if_pos h, if_pos h, Finset.card_insert_of_notMem hmem, ih (by omega),
        Finset.card_insert_of_notMem (by simp)]
      omega
    · rw [if_neg h, if_neg h, ih (by omega)]

/-- Summing the words' clear bits counts the clear bits below `n` words. -/
theorem sum_cpop_not (hw : 0 < w) (b : ℕ → BitVec w) (n : ℕ) :
    ∑ k ∈ Finset.range n, (~~~b k).cpop.toNat = (clearBits b (n * w)).card := by
  induction n with
  | zero => simp [clearBits]
  | succ n ih =>
    rw [Finset.sum_range_succ, ih, cpop_not_eq_card, Nat.succ_mul, clearBits_succ_word hw b n w le_rfl]

end VenturaOS.Library.Bitmap
