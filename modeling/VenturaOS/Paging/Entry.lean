import VenturaOS.Pmm.Allocator

/-!
# Virtual addresses and page-table entries

The bit-level layout used by `vmm.rs`: canonical addresses, the four 9-bit
table indices, and 64-bit entries that hold a frame address and flags.
-/
namespace VenturaOS.Paging
open Memory

structure VirtAddr where
  addr : U64
deriving DecidableEq, Repr

/-- Bits 47..63 of `addr` agree (`(addr as i64) >> 47` is 0 or -1). -/
def isCanonical (addr : U64) : Bool :=
  let signExt := addr.sshiftRight 47
  signExt == 0#64 || signExt == BitVec.allOnes 64

def canonicalVirt (phys : U64) : VirtAddr :=
  if phys &&& (1#64 <<< 47) ≠ 0#64 then ⟨phys ||| 0xFFFF000000000000#64⟩ else ⟨phys &&& 0x0000FFFFFFFFFFFF#64⟩

/-- Every table has an entry 0. -/
instance entries_neZero : NeZero 512 := ⟨by decide⟩

namespace VirtAddr

def isAligned (v : VirtAddr) : Bool := v.addr.toNat % pageSize == 0

/-- A 9-bit field of the address, `(self.0 >> shift) & 0x1FF`. -/
def index (v : VirtAddr) (shift : ℕ) : Fin 512 :=
  ⟨((v.addr >>> shift) &&& 0x1FF#64).toNat, by
    rw [BitVec.toNat_and]
    exact lt_of_le_of_lt Nat.and_le_right (by decide)⟩

def pml4Index (v : VirtAddr) : Fin 512 := v.index 39
def pdptIndex (v : VirtAddr) : Fin 512 := v.index 30
def pdIndex (v : VirtAddr) : Fin 512 := v.index 21
def ptIndex (v : VirtAddr) : Fin 512 := v.index 12
def pageOffset (v : VirtAddr) : U64 := v.addr &&& 0xFFF#64

/-- The indices of the three tables below the root, and of the leaf. -/
def tablePath (v : VirtAddr) : List (Fin 512) := [v.pml4Index, v.pdptIndex, v.pdIndex]
def path (v : VirtAddr) : List (Fin 512) := v.tablePath ++ [v.ptIndex]

end VirtAddr

structure PageTableFlags where
  bits : U64
deriving DecidableEq, Repr

namespace PageTableFlags

def present : PageTableFlags := ⟨1#64 <<< 0⟩
def writable : PageTableFlags := ⟨1#64 <<< 1⟩
def userAccessible : PageTableFlags := ⟨1#64 <<< 2⟩
def writeThrough : PageTableFlags := ⟨1#64 <<< 3⟩
def noCache : PageTableFlags := ⟨1#64 <<< 4⟩
def hugePage : PageTableFlags := ⟨1#64 <<< 7⟩
def noExecute : PageTableFlags := ⟨1#64 <<< 63⟩

def union (f g : PageTableFlags) : PageTableFlags := ⟨f.bits ||| g.bits⟩

def mmio : PageTableFlags :=
  (((present.union writable).union noCache).union writeThrough).union noExecute

/-- The flags a table link carries. -/
def table : PageTableFlags := present.union writable

end PageTableFlags

structure PageTableEntry where
  bits : U64
deriving DecidableEq, Repr

namespace PageTableEntry

def empty : PageTableEntry := ⟨0⟩

def isPresent (e : PageTableEntry) : Bool := e.bits &&& PageTableFlags.present.bits != 0#64

def flags (e : PageTableEntry) : PageTableFlags := ⟨e.bits &&& (0xFFF0000000000FFF#64 ||| 1#64 <<< 63)⟩

def isHuge (e : PageTableEntry) : Bool := e.flags.bits &&& PageTableFlags.hugePage.bits != 0#64

def isWritable (e : PageTableEntry) : Bool := e.bits &&& PageTableFlags.writable.bits != 0#64

def physAddr (e : PageTableEntry) : U64 := e.bits &&& 0x000FFFFFFFFFF000#64

/-- The value `set` stores. -/
def set (phys : U64) (flags : PageTableFlags) : PageTableEntry :=
  ⟨(phys &&& 0x000FFFFFFFFFF000#64) ||| flags.bits⟩

/-- The table an entry leads to, when it is neither absent nor a large page. -/
def link (e : PageTableEntry) : Option U64 := if e.isPresent && !e.isHuge then some e.physAddr else none

end PageTableEntry

/-- An address that fits the frame field of an entry unchanged. -/
def IsFrame (a : U64) : Prop := a.toNat % 4096 = 0 ∧ a.toNat < 2 ^ 52

/-- Flags that leave the frame field of an entry alone. -/
def PageTableFlags.Clear (flags : PageTableFlags) : Prop := flags.bits &&& 0x000FFFFFFFFFF000#64 = 0#64

instance (a : U64) : Decidable (IsFrame a) := by unfold IsFrame; infer_instance
instance (flags : PageTableFlags) : Decidable flags.Clear := by
  unfold PageTableFlags.Clear; infer_instance

section Masks

theorem frameMask_bit {i : ℕ} (hi : i < 64) :
    (0x000FFFFFFFFFF000#64).getLsbD i = (decide (12 ≤ i) && decide (i < 52)) := by
  revert i
  decide

theorem IsFrame.bit_outside {a : U64} (h : IsFrame a) {i : ℕ} (hi : i < 12 ∨ 52 ≤ i) :
    a.getLsbD i = false := by
  rcases h with ⟨hmod, hlt⟩
  rw [BitVec.getLsbD]
  rcases hi with hi | hi
  · have hbit := Nat.testBit_mod_two_pow a.toNat 12 i
    rw [show 2 ^ 12 = 4096 from rfl, hmod] at hbit
    simpa [hi] using hbit.symm
  · exact Nat.testBit_lt_two_pow (lt_of_lt_of_le hlt (Nat.pow_le_pow_right (by decide) hi))

theorem IsFrame.mask {a : U64} (h : IsFrame a) : a &&& 0x000FFFFFFFFFF000#64 = a := by
  apply BitVec.eq_of_getLsbD_eq
  intro i hi
  rw [BitVec.getLsbD_and, frameMask_bit hi]
  by_cases hin : 12 ≤ i ∧ i < 52
  · simp [hin.1, hin.2]
  · rw [h.bit_outside (by omega)]
    rfl

namespace PageTableEntry

theorem set_physAddr {phys : U64} {flags : PageTableFlags} (hp : IsFrame phys) (hf : flags.Clear) :
    (set phys flags).physAddr = phys := by
  rw [physAddr, set, BitVec.and_or_distrib_right, hf, BitVec.or_zero, hp.mask, hp.mask]

/-- Low bits of an entry come from its flags alone. -/
theorem set_bit {phys : U64} {flags : PageTableFlags} {i : ℕ} (hi : i < 64)
    (hout : i < 12 ∨ 52 ≤ i) : (set phys flags).bits.getLsbD i = flags.bits.getLsbD i := by
  rw [set, BitVec.getLsbD_or, BitVec.getLsbD_and, frameMask_bit hi]
  have hnot : (decide (12 ≤ i) && decide (i < 52)) = false := by
    rcases hout with h | h
    · simp [show ¬ 12 ≤ i by omega]
    · simp [show ¬ i < 52 by omega]
  rw [hnot, Bool.and_false, Bool.false_or]

theorem and_pow_ne_zero (x : U64) {i : ℕ} (hi : i < 64) :
    (x &&& (1#64 <<< i) != 0#64) = x.getLsbD i := by
  have hbit (j : ℕ) (hj : j < 64) :
      (x &&& (1#64 <<< i)).getLsbD j = (decide (j = i) && x.getLsbD j) := by
    rw [BitVec.getLsbD_and, BitVec.getLsbD_shiftLeft, BitVec.getLsbD_one]
    by_cases hji : j = i
    · subst hji
      simp [hj]
    · by_cases hlt : j < i
      · simp [hlt, hji]
      · simp [hji, show ¬ j - i = 0 by omega]
  cases hx : x.getLsbD i with
  | true =>
    rw [bne_iff_ne]
    intro h
    have := hbit i hi
    rw [h, hx] at this
    simp at this
  | false =>
    rw [bne_eq_false_iff_eq]
    apply BitVec.eq_of_getLsbD_eq
    intro j hj
    rw [hbit j hj]
    by_cases hji : j = i
    · subst hji
      simp [hx]
    · simp [hji]

theorem isPresent_eq (e : PageTableEntry) : e.isPresent = e.bits.getLsbD 0 :=
  and_pow_ne_zero e.bits (by decide)

theorem isHuge_eq (e : PageTableEntry) : e.isHuge = e.bits.getLsbD 7 := by
  have h := and_pow_ne_zero e.flags.bits (i := 7) (by decide)
  rw [isHuge]
  refine Eq.trans h ?_
  rw [flags, BitVec.getLsbD_and]
  have hmask : (0xFFF0000000000FFF#64 ||| 1#64 <<< 63).getLsbD 7 = true := by decide
  rw [hmask, Bool.and_true]

theorem set_isPresent (phys : U64) (flags : PageTableFlags) :
    (set phys flags).isPresent = flags.bits.getLsbD 0 := by
  rw [isPresent_eq, set_bit (by decide) (by decide)]

theorem set_isHuge (phys : U64) (flags : PageTableFlags) :
    (set phys flags).isHuge = flags.bits.getLsbD 7 := by
  rw [isHuge_eq, set_bit (by decide) (by decide)]

theorem set_isWritable (phys : U64) (flags : PageTableFlags) :
    (set phys flags).isWritable = flags.bits.getLsbD 1 := by
  have h := and_pow_ne_zero (set phys flags).bits (i := 1) (by decide)
  rw [isWritable]
  refine Eq.trans h ?_
  rw [set_bit (by decide) (by decide)]

theorem set_flags {phys : U64} {flags : PageTableFlags} (hf : flags.Clear) :
    (set phys flags).flags = flags := by
  cases flags with
  | mk bits =>
    have hmask {i : ℕ} (hi : i < 64) : (0xFFF0000000000FFF#64 ||| 1#64 <<< 63).getLsbD i =
        (decide (i < 12) || decide (52 ≤ i)) := by
      revert i
      decide
    simp only [PageTableEntry.flags, PageTableFlags.mk.injEq]
    apply BitVec.eq_of_getLsbD_eq
    intro i hi
    rw [BitVec.getLsbD_and, hmask hi]
    by_cases hout : i < 12 ∨ 52 ≤ i
    · rw [set_bit hi hout]
      rcases hout with h | h <;> simp [h]
    · have hclear : bits.getLsbD i = false := by
        have hz : (bits &&& 0x000FFFFFFFFFF000#64).getLsbD i = false := by
          rw [show bits &&& 0x000FFFFFFFFFF000#64 = 0#64 from hf]
          exact BitVec.getLsbD_zero
        rw [BitVec.getLsbD_and, frameMask_bit hi] at hz
        simpa [show 12 ≤ i by omega, show i < 52 by omega] using hz
      simp [hclear, show ¬ i < 12 by omega, show ¬ 52 ≤ i by omega]

@[simp] theorem empty_isPresent : empty.isPresent = false := by decide

@[simp] theorem empty_link : empty.link = none := rfl

theorem link_of_not_present {e : PageTableEntry} (h : e.isPresent = false) : e.link = none := by
  rw [link, h]
  rfl

theorem link_eq_some {e : PageTableEntry} {a : U64} :
    e.link = some a ↔ e.isPresent = true ∧ e.isHuge = false ∧ e.physAddr = a := by
  simp [link, and_assoc]

/-- A table link leads back to the table. -/
theorem set_table_link {phys : U64} (hp : IsFrame phys) :
    (set phys PageTableFlags.table).link = some phys := by
  rw [link_eq_some, set_isPresent, set_isHuge, set_physAddr hp (by decide)]
  exact ⟨by decide, by decide, rfl⟩

end PageTableEntry
end Masks
end VenturaOS.Paging
