import VenturaOS.Memory.Uefi

/-!
# The firmware

What `main.rs` calls of UEFI, with the arguments that are values. Every
answer may depend on all the calls made before.
-/
namespace VenturaOS.Boot
open Memory

structure EfiGuid where
  data1 : BitVec 32
  data2 : BitVec 16
  data3 : BitVec 16
  data4 : List UInt8
deriving DecidableEq, Repr

def efiGraphicsOutputProtocolGuid : EfiGuid :=
  ⟨0x9042a9de, 0x23dc, 0x4a38, [0x96, 0xfb, 0x7a, 0xde, 0xd0, 0x80, 0x51, 0x6a]⟩

def efiAcpi20TableGuid : EfiGuid :=
  ⟨0x8868e871, 0xe4f1, 0x11d3, [0xbc, 0x22, 0x00, 0x80, 0xc7, 0x3c, 0x88, 0x81]⟩

def efiAcpi10TableGuid : EfiGuid :=
  ⟨0xeb9d2d30, 0x2d88, 0x11d3, [0x9a, 0x16, 0x00, 0x90, 0x27, 0x3f, 0xc1, 0x4d]⟩

def efiSuccess : U64 := 0

inductive Call
  | reset (this : U64) (extendedVerification : UInt8)
  | outputString (this : U64) (string : List (BitVec 16))
  | locateProtocol (protocol : EfiGuid)
  | getMemoryMap (memoryMapSize : U64)
  | exitBootServices (imageHandle mapKey : U64)
deriving DecidableEq, Repr

/-- What `get_memory_map` returns and stores through its pointers; the version it stores is not looked at. -/
structure MapReply where
  status : U64
  memoryMapSize : U64
  mapKey : U64
  descriptorSize : U64
deriving DecidableEq, Repr

/-- The answers, and the bytes of memory, after a list of calls whose last one is answered. -/
structure Firmware where
  /-- The status and the interface. -/
  locateProtocol : List Call → U64 × U64
  getMemoryMap : List Call → MapReply
  exitBootServices : List Call → U64
  memory : List Call → U64 → UInt8

end VenturaOS.Boot
