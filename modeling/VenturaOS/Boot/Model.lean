import VenturaOS.Acpi.Model
import VenturaOS.Idt.Dispatch
import VenturaOS.Logger.Model

/-!
# From the firmware to the kernel

`efi_main`. The structures of the firmware are read from memory as it is at
that moment.
-/
namespace VenturaOS.Boot
open Library Memory Acpi Logger Outputs Framebuffer

/-- The statics that `efi_main` sets, beside the outputs. -/
structure State where
  outputs : Outputs
  rsdpAddress : U64

/-- Where `efi_main` ends. -/
inductive Outcome
  | halted
  /-- The map is longer than the buffer it was asked for. -/
  | panicked
  | entered (map : CountedMap)
deriving DecidableEq, Repr

/-- `RAW_MMAP_BUFFER`. -/
structure MapBuffer where
  start : U64
  fits : start.toNat + 16384 < 2 ^ 64

def MapBuffer.len : U64 := 16384

/-- `&buf[..n]`. -/
def MapBuffer.slice (buf : MapBuffer) (n : U64) : Option Slice :=
  if h : n.toNat ≤ 16384 then
    some ⟨buf.start, n.toNat, by have := buf.fits; omega, by omega⟩
  else none

def EfiGuid.ofBytes (bytes : List UInt8) : EfiGuid where
  data1 := BitVec.ofNat 32 (field bytes 0 4)
  data2 := BitVec.ofNat 16 (field bytes 4 2)
  data3 := BitVec.ofNat 16 (field bytes 6 2)
  data4 := (bytes.drop 8).take 8

structure EfiConfigurationTable where
  vendorGuid : EfiGuid
  vendorTable : U64
deriving DecidableEq, Repr

namespace EfiConfigurationTable

def size : ℕ := 24

def ofBytes (bytes : List UInt8) : EfiConfigurationTable := ⟨.ofBytes bytes, BitVec.ofNat 64 (field bytes 16 8)⟩

/-- `&*tables.add(i)`. -/
def read (tables : U64) (i : ℕ) : ByteReads EfiConfigurationTable :=
  ofBytes <$> readBytes (tables + BitVec.ofNat 64 (i * size)) size

end EfiConfigurationTable

/-- `con_out` of the system table. -/
def readConOut (systemTable : U64) : ByteReads U64 := readU64 (systemTable + 64)

/-- The mode that a graphics output protocol points to. -/
def readMode (gop : U64) : ByteReads FramebufferInfo := do
  let mode ← readU64 (gop + 24)
  let info ← readU64 (mode + 8)
  let physBase ← readU64 (mode + 24)
  let sizeBytes ← readU64 (mode + 32)
  let width ← readU32 (info + 4)
  let height ← readU32 (info + 8)
  let stride ← readU32 (info + 32)
  let format ← readU32 (info + 12)
  pure ⟨physBase, sizeBytes, width.toNat, height.toNat, stride.toNat, .fromUefi format⟩

/-- The loop of `find_rsdp`, with so many entries left, from entry `i` on. -/
def rsdpLoop (tables : U64) : (left i : ℕ) → U64 → ByteReads U64
  | 0, _, rsdp => pure rsdp
  | left + 1, i, rsdp => do
    let t ← EfiConfigurationTable.read tables i
    if t.vendorGuid = efiAcpi20TableGuid then pure t.vendorTable
    else rsdpLoop tables left (i + 1) (if t.vendorGuid = efiAcpi10TableGuid ∧ rsdp = 0 then t.vendorTable else rsdp)

/-- The address that `find_rsdp` looks for, zero if there is none. -/
def readRsdpAddress (systemTable : U64) : ByteReads U64 := do
  let count ← readU64 (systemTable + 104)
  let tables ← readU64 (systemTable + 112)
  rsdpLoop tables count.toNat 0 0

/-- The loop of `exit_boot_services` with so many attempts left. -/
def exitLoop (fw : Firmware) (imageHandle : U64) : ℕ → List Call → Option (U64 × U64) × List Call
  | 0, calls => (none, calls)
  | left + 1, calls =>
    let calls := calls ++ [.getMemoryMap MapBuffer.len]
    let reply := fw.getMemoryMap calls
    if reply.status ≠ efiSuccess ∨ reply.descriptorSize = 0 then (none, calls)
    else
      let calls := calls ++ [.exitBootServices imageHandle reply.mapKey]
      if fw.exitBootServices calls = efiSuccess then (some (reply.memoryMapSize, reply.descriptorSize), calls)
      else exitLoop fw imageHandle left calls

def exitBootServices (fw : Firmware) (imageHandle : U64) (o : Outputs) : Option (U64 × U64) × Outputs :=
  let ended := exitLoop fw imageHandle 4 o.calls
  (ended.1, { o with calls := ended.2 })

section Main

variable (fw : Firmware) (status : ℕ → UInt8)

def findGop (o : Outputs) : Option Outputs :=
  let o := o.call (.locateProtocol efiGraphicsOutputProtocolGuid)
  let (result, gop) := fw.locateProtocol o.calls
  if result ≠ efiSuccess ∨ gop = 0 then
    klog status ["[BOOT WARN] UEFI GOP not found, screen output stops after ExitBootServices"] o
  else
    let fb := (readMode gop).value (fw.memory o.calls)
    klog status ["[BOOT] GOP framebuffer ", toString fb.width, "x", toString fb.height, " ", fb.format.name, " at ",
      Idt.hex 0 fb.physBase] { o with console := setInfo fb o.console }

def findRsdp (systemTable : U64) (s : State) : Option State :=
  let rsdp := (readRsdpAddress systemTable).value (fw.memory s.outputs.calls)
  if rsdp = 0 then
    (klog status ["[BOOT WARN] ACPI RSDP not found in UEFI configuration table"] s.outputs).map fun o =>
      { s with outputs := o }
  else some { s with rsdpAddress := rsdp }

/-- `efi_main` up to `exit_boot_services`. -/
def prepare (systemTable : U64) (s : State) : Option State := do
  let out := (readConOut systemTable).value (fw.memory s.outputs.calls)
  let o := s.outputs.call (.reset out 0)
  let o := Logger.init out o
  let o ← findGop fw status o
  let s ← findRsdp fw status systemTable { s with outputs := o }
  let o ← klog status ["[BOOT] Exiting UEFI boot services..."] s.outputs
  return { s with outputs := o }

/-- The console, or a warning that there is none. -/
def startScreen (o : Outputs) : Option Outputs := do
  let (linear, console) ← Framebuffer.init o.console
  if linear then some { o with console := console }
  else klog status ["[BOOT WARN] No linear framebuffer, logging to COM1 only"] { o with console := console }

/-- The map in the buffer. -/
def readMap (buf : MapBuffer) (mapSize descSize : U64) (m : U64 → UInt8) : Outcome :=
  match buf.slice mapSize with
  | none => .panicked
  | some raw => .entered ((initFromUefi raw descSize (mapSize / descSize)).value m)

/-- `efi_main` once boot services are gone. -/
def takeOver (buf : MapBuffer) (mapSize descSize : U64) (s : State) : Option (Outcome × State) :=
  (startScreen status (disableUefiConsole s.outputs.cli)).map fun o =>
    (readMap buf mapSize descSize (fw.memory o.calls), { s with outputs := o })

/-- `efi_main` from `exit_boot_services` on. -/
def handOver (imageHandle : U64) (buf : MapBuffer) (s : State) : Option (Outcome × State) :=
  match exitBootServices fw imageHandle s.outputs with
  | (none, o) =>
    (klog status ["[BOOT PANIC] ExitBootServices failed!"] o).map fun o => (.halted, { s with outputs := o })
  | (some (mapSize, descSize), o) => takeOver fw status buf mapSize descSize { s with outputs := o }

def efiMain (imageHandle systemTable : U64) (buf : MapBuffer) (s : State) : Option (Outcome × State) :=
  (prepare fw status systemTable s).bind (handOver fw status imageHandle buf)

end Main
end VenturaOS.Boot
