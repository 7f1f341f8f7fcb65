import VenturaOS.Memory.Uefi

/-!
# ACPI tables

`acpi.rs`: the walk from the RSDP over the root table to the MADT, and the
loop over the entries of the MADT. The sums of addresses are not checked for
overflow. The arrays of `MadtInfo` and their counts are lists; the texts of the
log are left out.
-/
namespace VenturaOS.Acpi
open Library Memory

def maxCpus : ℕ := 64
def maxIoapics : ℕ := 4
def maxOverrides : ℕ := 16

/-- MPS INTI flags. -/
def polarityMask : BitVec 16 := 0x3
def polarityActiveLow : BitVec 16 := 0x3
def triggerMask : BitVec 16 := 0xC
def triggerLevel : BitVec 16 := 0xC

def madtLocalApic : UInt8 := 0
def madtIoApic : UInt8 := 1
def madtInterruptOverride : UInt8 := 2
def madtLocalApicAddressOverride : UInt8 := 5

inductive AcpiError
  | noRsdp
  | badRsdpChecksum
  | badTableChecksum
  | noMadt
deriving DecidableEq, Repr

/-- The fields of the RSDP that are looked at; the structure has 36 bytes. -/
structure Rsdp where
  signature : List UInt8
  revision : UInt8
  rsdtAddress : BitVec 32
  xsdtAddress : U64
deriving DecidableEq, Repr

/-- The fields of a table header that are looked at; the structure has 36 bytes. -/
structure SdtHeader where
  signature : List UInt8
  length : BitVec 32
deriving DecidableEq, Repr

def sdtHeaderSize : ℕ := 36

structure IoApic where
  id : UInt8
  address : U64
  gsiBase : BitVec 32
deriving DecidableEq, Repr

structure InterruptOverride where
  isaIrq : UInt8
  gsi : BitVec 32
  flags : BitVec 16
deriving DecidableEq, Repr

structure MadtInfo where
  lapicAddress : U64
  pcatCompat : Bool
  cpuApicIds : List UInt8
  ioapics : List IoApic
  overrides : List InterruptOverride
deriving DecidableEq, Repr

def MadtInfo.new : MadtInfo := ⟨0, false, [], [], []⟩

/-- The statics of the module. -/
structure AcpiState where
  rsdpAddress : U64
  madt : MadtInfo
  madtValid : Bool
deriving DecidableEq, Repr

def readU8 (a : U64) : ByteReads UInt8 := (fun bytes => bytes.headD 0) <$> readBytes a 1
def readU16 (a : U64) : ByteReads (BitVec 16) := (fun bytes => BitVec.ofNat 16 (littleEndian bytes)) <$> readBytes a 2
def readU32 (a : U64) : ByteReads (BitVec 32) := (fun bytes => BitVec.ofNat 32 (littleEndian bytes)) <$> readBytes a 4
def readU64 (a : U64) : ByteReads U64 := (fun bytes => BitVec.ofNat 64 (littleEndian bytes)) <$> readBytes a 8

def checksumOk (addr : U64) (len : ℕ) : ByteReads Bool :=
  (fun bytes => bytes.foldl (fun acc b => acc + b) 0 == 0) <$> readBytes addr len

def SdtHeader.ofBytes (bytes : List UInt8) : SdtHeader :=
  ⟨bytes.take 4, BitVec.ofNat 32 (field bytes 4 4)⟩

def readHeader (addr : U64) : ByteReads SdtHeader := SdtHeader.ofBytes <$> readBytes addr sdtHeaderSize

def Rsdp.ofBytes (bytes : List UInt8) : Rsdp :=
  ⟨bytes.take 8, UInt8.ofNat (field bytes 15 1), BitVec.ofNat 32 (field bytes 16 4), BitVec.ofNat 64 (field bytes 24 8)⟩

def readRsdp (addr : U64) : ByteReads Rsdp := Rsdp.ofBytes <$> readBytes addr 36

/-- The `match` on the kind of an entry. -/
def madtEntry (kind : UInt8) (entry : U64) (info : MadtInfo) : ByteReads MadtInfo :=
  if kind = madtLocalApic then do
    let apicId ← readU8 (entry + 3)
    let flags ← readU32 (entry + 4)
    pure (if flags.getLsbD 0 && decide (info.cpuApicIds.length < maxCpus) then
      { info with cpuApicIds := info.cpuApicIds ++ [apicId] } else info)
  else if kind = madtIoApic then
    if info.ioapics.length < maxIoapics then do
      let id ← readU8 (entry + 2)
      let address ← readU32 (entry + 4)
      let gsiBase ← readU32 (entry + 8)
      pure { info with ioapics := info.ioapics ++ [⟨id, address.setWidth 64, gsiBase⟩] }
    else pure info
  else if kind = madtInterruptOverride then
    if info.overrides.length < maxOverrides then do
      let isaIrq ← readU8 (entry + 3)
      let gsi ← readU32 (entry + 4)
      let flags ← readU16 (entry + 8)
      pure { info with overrides := info.overrides ++ [⟨isaIrq, gsi, flags⟩] }
    else pure info
  else if kind = madtLocalApicAddressOverride then do
    let address ← readU64 (entry + 4)
    pure { info with lapicAddress := address }
  else pure info

/-- The loop over the entries, `none` when it is still running after that many rounds. -/
def madtLoop (stop : U64) : ℕ → U64 → MadtInfo → ByteReads (Option MadtInfo)
  | 0, _, _ => pure none
  | fuel + 1, entry, info =>
    if (entry + 2).toNat ≤ stop.toNat then do
      let kind ← readU8 entry
      let byte ← readU8 (entry + 1)
      let len := BitVec.ofNat 64 byte.toNat
      if len.toNat < 2 ∨ (entry + len).toNat > stop.toNat then pure (some info)
      else do
        let info ← madtEntry kind entry info
        madtLoop stop fuel (entry + len) info
    else pure (some info)

def parseMadt (fuel : ℕ) (addr : U64) (s : AcpiState) : ByteReads (Option (Except AcpiError Unit × AcpiState)) := do
  let header ← readHeader addr
  let length := header.length.setWidth 64
  let ok ← checksumOk addr length.toNat
  if !ok then pure (some (.error .badTableChecksum, s))
  else do
    let body := addr + BitVec.ofNat 64 sdtHeaderSize
    let lapic ← readU32 body
    let flags ← readU32 (body + 4)
    let info := { s.madt with lapicAddress := lapic.setWidth 64, pcatCompat := flags.getLsbD 0 }
    let parsed ← madtLoop (addr + length) fuel (body + 8) info
    pure (parsed.map fun info => (.ok (), { s with madt := info, madtValid := true }))

def entrySize (useXsdt : Bool) : ℕ := if useXsdt then 8 else 4

/-- The number of entries after the header; the difference is not checked. -/
def entryCount (length : BitVec 32) (useXsdt : Bool) : ℕ :=
  (length.setWidth 64 - BitVec.ofNat 64 sdtHeaderSize).toNat / entrySize useXsdt

/-- The addresses that the loop over the root table reads its entries from. -/
def entryAddresses (rootAddr : U64) (length : BitVec 32) (useXsdt : Bool) : List U64 :=
  (List.range (entryCount length useXsdt)).map fun i =>
    rootAddr + BitVec.ofNat 64 sdtHeaderSize + BitVec.ofNat 64 (i * entrySize useXsdt)

def readEntry (useXsdt : Bool) (a : U64) : ByteReads U64 :=
  if useXsdt then readU64 a else (fun address => address.setWidth 64) <$> readU32 a

/-- The loop over the root table: the last table with the signature of the MADT. -/
def findMadt (useXsdt : Bool) : List U64 → U64 → ByteReads U64
  | [], madtAddr => pure madtAddr
  | a :: entries, madtAddr => do
    let tableAddr ← readEntry useXsdt a
    let header ← readHeader tableAddr
    -- `b"APIC"`
    findMadt useXsdt entries (if header.signature = [0x41, 0x50, 0x49, 0x43] then tableAddr else madtAddr)

def Rsdp.useXsdt (rsdp : Rsdp) : Bool := decide (rsdp.revision ≥ 2) && decide (rsdp.xsdtAddress ≠ 0)

def Rsdp.rootAddr (rsdp : Rsdp) : U64 := if rsdp.useXsdt then rsdp.xsdtAddress else rsdp.rsdtAddress.setWidth 64

/-- `b"RSD PTR "` and the checksum, which is only taken when the signature matches. -/
def rsdpOk (addr : U64) (rsdp : Rsdp) : ByteReads Bool :=
  if rsdp.signature = [0x52, 0x53, 0x44, 0x20, 0x50, 0x54, 0x52, 0x20] then checksumOk addr 20 else pure false

def init (fuel : ℕ) (s : AcpiState) : ByteReads (Option (Except AcpiError Unit × AcpiState)) :=
  if s.rsdpAddress = 0 then pure (some (.error .noRsdp, s))
  else do
    let rsdp ← readRsdp s.rsdpAddress
    let ok ← rsdpOk s.rsdpAddress rsdp
    if !ok then pure (some (.error .badRsdpChecksum, s))
    else do
      let root ← readHeader rsdp.rootAddr
      let ok ← checksumOk rsdp.rootAddr root.length.toNat
      if !ok then pure (some (.error .badTableChecksum, s))
      else do
        let madtAddr ← findMadt rsdp.useXsdt (entryAddresses rsdp.rootAddr root.length rsdp.useXsdt) 0
        if madtAddr = 0 then pure (some (.error .noMadt, s))
        else parseMadt fuel madtAddr s

/-- `acpi::madt`. -/
def madt (s : AcpiState) : Option MadtInfo := if s.madtValid then some s.madt else none

def overrides (s : AcpiState) : List InterruptOverride := ((madt s).map MadtInfo.overrides).getD []

/-- The first override of the IRQ, or the IRQ itself. -/
def isaIrqToGsi (s : AcpiState) (isaIrq : UInt8) : BitVec 32 × BitVec 16 :=
  match (overrides s).find? fun o => o.isaIrq = isaIrq with
  | some o => (o.gsi, o.flags)
  | none => (BitVec.ofNat 32 isaIrq.toNat, 0)

end VenturaOS.Acpi
