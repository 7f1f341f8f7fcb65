import VenturaOS.Acpi.Model

/-!
# Reads inside a table

An address belongs to a table when its distance from the start, modulo 2^64,
is below the size. Each primitive read stays inside just when the distance of
its first byte leaves room for its width.
-/
namespace VenturaOS.Acpi
open Library Memory

def distance (addr a : U64) : ℕ := (a - addr).toNat

/-- One of the `size` bytes from `addr` on. -/
def InTable (addr : U64) (size : ℕ) (a : U64) : Prop := distance addr a < size

variable {m : U64 → UInt8} {addr a : U64} {size n : ℕ}

theorem distance_add (c : U64) : distance addr (a + c) = (distance addr a + c.toNat) % 2 ^ 64 := by
  have hcomm : a + c - addr = (a - addr) + c := by
    rw [BitVec.sub_eq_add_neg, BitVec.sub_eq_add_neg, BitVec.add_assoc, BitVec.add_comm c, ← BitVec.add_assoc]
  rw [distance, hcomm, BitVec.toNat_add]
  rfl

theorem distance_add_of_lt {c : U64} (h : distance addr a + c.toNat < 2 ^ 64) :
    distance addr (a + c) = distance addr a + c.toNat := by
  rw [distance_add, Nat.mod_eq_of_lt h]

theorem distance_lt (addr a : U64) : distance addr a < 2 ^ 64 := (a - addr).isLt

@[simp] theorem distance_self (addr : U64) : distance addr addr = 0 := by
  rw [distance, BitVec.sub_self]
  rfl

theorem readBytes_within {P : U64 → Prop} : (readBytes a n).Within m P ↔ ∀ k < n, P (a + BitVec.ofNat 64 k) := by
  rw [readBytes, Reads.within_readAll, addressesFrom]
  simp only [List.mem_map, List.mem_range, forall_exists_index, and_imp, forall_apply_eq_imp_iff₂]

/-- A nonempty read is inside just when its last byte is, for tables of at most 4 GiB. -/
theorem readBytes_inside (hsize : size ≤ 2 ^ 32) (hpos : 0 < n) (hn : n ≤ 2 ^ 32) :
    (readBytes a n).Within m (InTable addr size) ↔ distance addr a + n ≤ size := by
  have hvalue (k : ℕ) (hk : k < n) : (BitVec.ofNat 64 k).toNat = k := by
    rw [BitVec.toNat_ofNat]
    omega
  rw [readBytes_within]
  constructor
  · intro h
    have hfirst := h 0 hpos
    have hlast := h (n - 1) (by omega)
    rw [InTable, distance_add, hvalue _ hpos] at hfirst
    rw [InTable, distance_add, hvalue _ (by omega)] at hlast
    have hlt := distance_lt addr a
    omega
  · intro h k hk
    rw [InTable, distance_add, hvalue k hk]
    omega

section Primitives

variable (hsize : size ≤ 2 ^ 32)
include hsize

theorem readU8_inside : (readU8 a).Within m (InTable addr size) ↔ distance addr a + 1 ≤ size := by
  rw [readU8, Reads.within_map, readBytes_inside hsize Nat.one_pos (by decide)]

theorem readU16_inside : (readU16 a).Within m (InTable addr size) ↔ distance addr a + 2 ≤ size := by
  rw [readU16, Reads.within_map, readBytes_inside hsize (by decide) (by decide)]

theorem readU32_inside : (readU32 a).Within m (InTable addr size) ↔ distance addr a + 4 ≤ size := by
  rw [readU32, Reads.within_map, readBytes_inside hsize (by decide) (by decide)]

theorem readU64_inside : (readU64 a).Within m (InTable addr size) ↔ distance addr a + 8 ≤ size := by
  rw [readU64, Reads.within_map, readBytes_inside hsize (by decide) (by decide)]

end Primitives

/-- The header and the bytes of the checksum lie in the table extended to a whole header. -/
theorem readHeader_inside (hsize : sdtHeaderSize ≤ size) : (readHeader addr).Within m (InTable addr size) := by
  rw [readHeader, Reads.within_map, readBytes_within]
  intro k hk
  rw [sdtHeaderSize] at hk hsize
  rw [InTable, distance_add, distance_self, BitVec.toNat_ofNat]
  omega

theorem checksumOk_inside (hn : n ≤ size) : (checksumOk addr n).Within m (InTable addr size) := by
  rw [checksumOk, Reads.within_map, readBytes_within]
  intro k hk
  have hmod := Nat.mod_le k (2 ^ 64)
  have hmod' := Nat.mod_le (k % 2 ^ 64) (2 ^ 64)
  rw [InTable, distance_add, distance_self, BitVec.toNat_ofNat, Nat.zero_add]
  omega

@[simp] theorem value_readU8 : (readU8 a).value m = m a := by
  change m (a + 0#64) = m a
  rw [BitVec.add_zero]

end VenturaOS.Acpi
