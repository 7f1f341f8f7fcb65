import VenturaOS.Library.ByteMemory
import VenturaOS.Memory.PhysicalMap

/-!
# The global descriptor table

`gdt.rs`: seven words, of which the last two describe the task state segment
and are filled in at run time, and a word of padding that nothing writes. The
limit of the table is that of the whole structure. The processor reads a descriptor byte by byte;
what it finds is compared with what was put in.
-/
namespace VenturaOS.Gdt
open Library

def kernelCodeSelector : BitVec 16 := 0x08
def kernelDataSelector : BitVec 16 := 0x10
def userDataSelector : BitVec 16 := 0x18 ||| 3
def userCodeSelector : BitVec 16 := 0x20 ||| 3
def tssSelector : BitVec 16 := 0x28

structure TaskStateSegment where
  reserved0 : BitVec 32
  rsp0 : U64
  rsp1 : U64
  rsp2 : U64
  reserved1 : U64
  ist : Fin 7 → U64
  reserved2 : U64
  reserved3 : BitVec 16
  iomapBase : BitVec 16

namespace TaskStateSegment

/-- Size of the structure, which is `repr(C, packed)`. -/
def bytes : ℕ := 104

def new : TaskStateSegment := ⟨0, 0, 0, 0, 0, fun _ => 0, 0, 0, BitVec.ofNat 16 bytes⟩

end TaskStateSegment

structure DescriptorTablePointer where
  limit : BitVec 16
  base : U64
deriving DecidableEq, Repr

structure GlobalDescriptorTable where
  entries : List U64

namespace GlobalDescriptorTable

/-- Size of the structure: seven words, and one of padding to a multiple of its alignment of 16. -/
def bytes : ℕ := 64

def new : GlobalDescriptorTable :=
  ⟨[0, 0x00AF9A000000FFFF, 0x00CF92000000FFFF, 0x00CFF2000000FFFF, 0x00AFFA000000FFFF, 0, 0]⟩

/-- The low word of the TSS descriptor. -/
def tssLow (base limit : U64) : U64 :=
  (limit &&& 0xFFFF#64) ||| ((base &&& 0x00FFFFFF#64) <<< 16) ||| (0x89#64 <<< 40) |||
    (((limit >>> 16) &&& 0x0F#64) <<< 48) ||| (((base >>> 24) &&& 0xFF#64) <<< 56)

def setTss (gdt : GlobalDescriptorTable) (tss : U64) : GlobalDescriptorTable :=
  let limit := BitVec.ofNat 64 (TaskStateSegment.bytes - 1)
  ⟨(gdt.entries.set 5 (tssLow tss limit)).set 6 (tss >>> 32)⟩

/-- `pointer`, of the table at `self`. -/
def pointer (self : U64) : DescriptorTablePointer := ⟨BitVec.ofNat 16 (bytes - 1), self⟩

/-- The table stands in memory at `a`. -/
def StandsAt (gdt : GlobalDescriptorTable) (m : Bytes) (a : ℕ) : Prop :=
  m.Holds 8 a (gdt.entries.map BitVec.toNat)

end GlobalDescriptorTable

/-- What `init` loads: the table with the address of the TSS in it. -/
def init (tss : U64) : GlobalDescriptorTable := GlobalDescriptorTable.new.setTss tss

inductive SegmentKind
  /-- A code segment, and whether it is for 64-bit code. -/
  | code (long : Bool)
  | data (writable : Bool)
  /-- An available 64-bit task state segment. -/
  | task
deriving DecidableEq, Repr

structure Segment where
  kind : SegmentKind
  dpl : ℕ
  base : ℕ
  limit : ℕ
deriving DecidableEq, Repr

/-- The kind that the access byte and the flags tell. -/
def segmentKind (access flags : ℕ) : Option SegmentKind :=
  if access.testBit 4 then
    if access.testBit 3 then some (.code (flags.testBit 5)) else some (.data (access.testBit 1))
  else if access % 16 = 9 then some .task
  else none

/-- The processor reads the descriptor a selector names: its parts are spread over eight bytes, for a system
segment over sixteen. Nothing is found beyond the limit, in another table, or where the present bit is clear. -/
def readSegment (m : Bytes) (ptr : DescriptorTablePointer) (selector : BitVec 16) : Option Segment :=
  let a := ptr.base.toNat + 8 * (selector.toNat / 8)
  let access := m.read (a + 5) 1
  let flags := m.read (a + 6) 1
  let size := if access.testBit 4 then 8 else 16
  if selector.toNat.testBit 2 ∨ ptr.limit.toNat + 1 < 8 * (selector.toNat / 8) + size then none
  else if !access.testBit 7 then none
  else
    (segmentKind access flags).map fun kind =>
      { kind
        dpl := access / 32 % 4
        base := m.read (a + 2) 3 + 2 ^ 24 * m.read (a + 7) 1 + (if kind = .task then 2 ^ 32 * m.read (a + 8) 4 else 0)
        limit := (m.read a 2 + 2 ^ 16 * (flags % 16)) * (if flags.testBit 7 then 4096 else 1) +
          (if flags.testBit 7 then 4095 else 0) }

end VenturaOS.Gdt
