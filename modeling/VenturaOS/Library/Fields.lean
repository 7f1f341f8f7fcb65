import Mathlib.Data.BitVec
import VenturaOS.Library.ByteMemory

/-!
# Fields of stored words

A word in memory read in part, and a word that is put together from fields
that do not overlap.
-/
namespace VenturaOS.Library

namespace Bytes

variable {m : Bytes} {a j n k v : ℕ}

theorem read_lt (m : Bytes) (a n : ℕ) : m.read a n < 256 ^ n := by
  induction n generalizing a with
  | zero => exact Nat.one_pos
  | succ n ih =>
    have hrest := ih (a := a + 1)
    have hbyte := (m a).toNat_lt
    rw [read, pow_succ]
    omega

theorem read_add (m : Bytes) (a j n : ℕ) : m.read a (j + n) = m.read a j + 256 ^ j * m.read (a + j) n := by
  induction j generalizing a with
  | zero => simp [read]
  | succ j ih =>
    rw [Nat.succ_add, read, read, ih (a := a + 1), pow_succ, show a + 1 + j = a + (j + 1) by omega]
    ring

/-- The bytes `j` to `j + n` of a word. -/
theorem read_field (h : m.read a (j + n + k) = v) : m.read (a + j) n = v / 256 ^ j % 256 ^ n := by
  have hpos : 0 < 256 ^ j := Nat.pow_pos (by norm_num)
  rw [← h, read_add, read_add, Nat.add_assoc, pow_add, Nat.mul_assoc, ← Nat.mul_add,
    Nat.add_mul_div_left _ _ hpos, Nat.div_eq_of_lt (read_lt m a j), Nat.zero_add, Nat.add_mul_mod_self_left,
    Nat.mod_eq_of_lt (read_lt m (a + j) n)]

theorem Holds.get {vs : List ℕ} (h : m.Holds n a vs) {i : ℕ} (hi : i < vs.length) : m.read (a + n * i) n = vs[i] := by
  induction vs generalizing a i with
  | nil => exact absurd hi (Nat.not_lt_zero i)
  | cons v vs ih =>
    cases i with
    | zero =>
      rw [Nat.mul_zero, Nat.add_zero]
      exact h.1
    | succ i =>
      rw [List.length_cons] at hi
      rw [Nat.mul_succ, Nat.add_comm (n * i) n, ← Nat.add_assoc, ih h.2 (Nat.lt_of_succ_lt_succ hi)]
      rfl

end Bytes

section Join

variable {x y : BitVec 64} {n : ℕ}

/-- A field above the bits already there. -/
theorem toNat_or_shift (hx : x.toNat < 2 ^ n) (hy : y.toNat * 2 ^ n < 2 ^ 64) :
    (x ||| y <<< n).toNat = x.toNat + y.toNat * 2 ^ n := by
  rw [BitVec.toNat_or, BitVec.toNat_shiftLeft, Nat.shiftLeft_eq, Nat.mod_eq_of_lt hy, Nat.or_comm, ← Nat.shiftLeft_eq,
    ← Nat.shiftLeft_add_eq_or_of_lt hx, Nat.shiftLeft_eq, Nat.add_comm]

/-- The low `n` bits. -/
theorem toNat_and_mask (h : n < 64) : (x &&& BitVec.ofNat 64 (2 ^ n - 1)).toNat = x.toNat % 2 ^ n := by
  have hlt : 2 ^ n - 1 < 2 ^ 64 := lt_of_le_of_lt (Nat.sub_le _ _) (Nat.pow_lt_pow_right (by norm_num) h)
  rw [BitVec.toNat_and, BitVec.toNat_ofNat, Nat.mod_eq_of_lt hlt, Nat.and_two_pow_sub_one_eq_mod]

theorem toNat_ushiftRight_div : (x >>> n).toNat = x.toNat / 2 ^ n := by
  rw [BitVec.toNat_ushiftRight, Nat.shiftRight_eq_div_pow]

end Join
end VenturaOS.Library
