import Mathlib.Algebra.Ring.Nat
import Mathlib.Data.Nat.Basic
import Mathlib.Data.List.Basic

/-!
# Computations that read a memory

A computation over a fixed memory has a value and the list of cells it looked
at, in order. What it looked at is stated with `Within`, one rule for each way
to build a computation. The words of a byte memory are little-endian.
-/
namespace VenturaOS.Library

variable {A B α β : Type}

/-- A computation over a memory with cells `A` and contents `B`. -/
def Reads (A B α : Type) := (A → B) → α × List A

namespace Reads

def value (x : Reads A B α) (m : A → B) : α := (x m).1
def touched (x : Reads A B α) (m : A → B) : List A := (x m).2

instance : Monad (Reads A B) where
  pure a := fun _ => (a, [])
  bind x f := fun m => ((f (x.value m)).value m, x.touched m ++ (f (x.value m)).touched m)

/-- Look at the cells of a list, in order. -/
def readAll (cells : List A) : Reads A B (List B) := fun m => (cells.map m, cells)

/-- Only cells in `P` are looked at. -/
def Within (x : Reads A B α) (m : A → B) (P : A → Prop) : Prop := ∀ a ∈ x.touched m, P a

variable {m : A → B} {P : A → Prop} {x : Reads A B α} {f : α → Reads A B β}

@[simp] theorem value_pure (a : α) : (pure a : Reads A B α).value m = a := rfl
@[simp] theorem value_bind : (x >>= f).value m = (f (x.value m)).value m := rfl
@[simp] theorem value_map (g : α → β) : (g <$> x).value m = g (x.value m) := rfl
@[simp] theorem value_readAll (cells : List A) : (readAll cells).value m = cells.map m := rfl
@[simp] theorem touched_readAll (cells : List A) : (readAll cells).touched m = cells := rfl
@[simp] theorem touched_map (g : α → β) : (g <$> x).touched m = x.touched m := List.append_nil _

@[simp] theorem within_pure (a : α) : (pure a : Reads A B α).Within m P := fun _ h => absurd h List.not_mem_nil

@[simp] theorem within_readAll {cells : List A} : (readAll cells).Within m P ↔ ∀ a ∈ cells, P a := Iff.rfl

@[simp] theorem within_map (g : α → β) : (g <$> x).Within m P ↔ x.Within m P := by
  rw [Within, touched_map, Within]

@[simp] theorem within_bind : (x >>= f).Within m P ↔ x.Within m P ∧ (f (x.value m)).Within m P := by
  change (∀ a ∈ x.touched m ++ (f (x.value m)).touched m, P a) ↔ _
  rw [List.forall_mem_append]
  rfl

end Reads

/-- The number with the given bytes, the low one first. -/
def littleEndian : List UInt8 → ℕ
  | [] => 0
  | b :: bs => b.toNat + 256 * littleEndian bs

/-- The `n` low bytes of a number. -/
def littleBytes : (n v : ℕ) → List UInt8
  | 0, _ => []
  | n + 1, v => UInt8.ofNat v :: littleBytes n (v / 256)

@[simp] theorem length_littleBytes (n v : ℕ) : (littleBytes n v).length = n := by
  induction n generalizing v with
  | zero => rfl
  | succ n ih => rw [littleBytes, List.length_cons, ih]

theorem littleEndian_lt (bs : List UInt8) : littleEndian bs < 256 ^ bs.length := by
  induction bs with
  | nil => exact Nat.one_pos
  | cons b bs ih =>
    have hb := b.toNat_lt
    rw [littleEndian, List.length_cons, Nat.pow_succ]
    omega

theorem littleEndian_littleBytes {n v : ℕ} (hv : v < 256 ^ n) : littleEndian (littleBytes n v) = v := by
  induction n generalizing v with
  | zero =>
    rw [Nat.pow_zero] at hv
    rw [littleBytes, littleEndian]
    omega
  | succ n ih =>
    rw [Nat.pow_succ] at hv
    rw [littleBytes, littleEndian, ih (by omega), UInt8.toNat_ofNat']
    omega

theorem littleBytes_littleEndian (bs : List UInt8) : littleBytes bs.length (littleEndian bs) = bs := by
  induction bs with
  | nil => rfl
  | cons b bs ih =>
    have hb := b.toNat_lt
    have hdiv : (b.toNat + 256 * littleEndian bs) / 256 = littleEndian bs := by omega
    rw [List.length_cons, littleBytes, littleEndian, hdiv, ih]
    congr 1
    apply UInt8.toNat_inj.mp
    rw [UInt8.toNat_ofNat']
    omega

/-- Enough bytes start with the encoding of a word. -/
theorem exists_word_append (bs : List UInt8) (n w : ℕ) (hn : n ≤ bs.length) (hw : 256 ^ n = 2 ^ w) :
    ∃ v : BitVec w, littleBytes n v.toNat ++ bs.drop n = bs := by
  have hlength : (bs.take n).length = n := List.length_take_of_le hn
  have hlt := littleEndian_lt (bs.take n)
  rw [hlength, hw] at hlt
  have hword := littleBytes_littleEndian (bs.take n)
  rw [hlength] at hword
  refine ⟨BitVec.ofNat w (littleEndian (bs.take n)), ?_⟩
  rw [BitVec.toNat_ofNat, Nat.mod_eq_of_lt hlt, hword, List.take_append_drop]

section Stands

variable {w : ℕ} {m : BitVec w → UInt8} {a : BitVec w} {bs cs : List UInt8}

/-- The bytes of the list are in memory, one after the other. -/
def Stands (m : BitVec w → UInt8) : BitVec w → List UInt8 → Prop
  | _, [] => True
  | a, b :: bs => m a = b ∧ Stands m (a + 1#w) bs

theorem stands_append : Stands m a (bs ++ cs) ↔ Stands m a bs ∧ Stands m (a + BitVec.ofNat w bs.length) cs := by
  induction bs generalizing a with
  | nil => simp [Stands]
  | cons b bs ih =>
    have hadvance : a + 1#w + BitVec.ofNat w bs.length = a + BitVec.ofNat w (b :: bs).length := by
      rw [List.length_cons, Nat.add_comm bs.length 1, BitVec.ofNat_add, BitVec.add_assoc]
    rw [List.cons_append, Stands, Stands, ih, hadvance, and_assoc]

theorem Stands.map_range (h : Stands m a bs) :
    ((List.range bs.length).map fun i => m (a + BitVec.ofNat w i)) = bs := by
  induction bs generalizing a with
  | nil => rfl
  | cons b bs ih =>
    have hadvance (i : ℕ) : a + BitVec.ofNat w (i + 1) = a + 1#w + BitVec.ofNat w i := by
      rw [Nat.add_comm i 1, BitVec.ofNat_add, BitVec.add_assoc]
    rw [List.length_cons, List.range_succ_eq_map, List.map_cons, List.map_map]
    congr 1
    · rw [BitVec.add_zero]
      exact h.1
    · refine Eq.trans (List.map_congr_left fun i _ => ?_) (ih h.2)
      exact congrArg m (hadvance i)

theorem stands_of_getElem (h : ∀ i (hi : i < bs.length), m (a + BitVec.ofNat w i) = bs[i]) : Stands m a bs := by
  induction bs generalizing a with
  | nil => trivial
  | cons b bs ih =>
    have hfirst := h 0 (Nat.succ_pos _)
    rw [BitVec.add_zero] at hfirst
    refine ⟨hfirst, ih fun i hi => ?_⟩
    have hadvance : a + 1#w + BitVec.ofNat w i = a + BitVec.ofNat w (i + 1) := by
      rw [Nat.add_comm i 1, BitVec.ofNat_add, BitVec.add_assoc]
    rw [hadvance]
    exact h (i + 1) (Nat.succ_lt_succ hi)

end Stands

end VenturaOS.Library
