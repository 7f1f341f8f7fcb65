import VenturaOS.Acpi.Model
import VenturaOS.Library.Registers

/-!
# The I/O APIC

`apic.rs`: the redirection entries are set up once from the overrides of the
MADT, and later masked and unmasked by ISA IRQ. The registers are reached
through a select register and a window. The chip is as its data sheet has it:
of an entry's low half the vector, the modes and the mask bit can be written,
of its high half the destination, and nothing behind the last entry. Sums and
differences of pins wrap.
-/
namespace VenturaOS.Apic
open Library Memory Acpi

def lapicDefaultBase : U64 := 0xFEE00000
def ioapicDefaultBase : U64 := 0xFEC00000

def ioapicActiveLow : BitVec 32 := 1 <<< 13
def ioapicLevelTriggered : BitVec 32 := 1 <<< 15
def ioapicMasked : BitVec 32 := 1 <<< 16

/-- `((ver >> 16) & 0xFF) + 1`. -/
def maxEntries (ver : BitVec 32) : BitVec 32 := ((ver >>> 16) &&& 0xFF) + 1

/-- The bits of an entry that can be written. -/
def lowBits : BitVec 32 := 0x0001AFFF
def highBits : BitVec 32 := 0xFF000000

/-- Of the registers in front of the entries only the id can be written. -/
def writableBits (entries : ℕ) (reg : BitVec 8) : BitVec 32 :=
  if reg = 0 then 0x0F000000
  else if 0x10 ≤ reg.toNat ∧ reg.toNat < 0x10 + 2 * entries then if reg.toNat % 2 = 0 then lowBits else highBits
  else 0

/-- An I/O APIC; its version register tells the number of its entries. -/
structure Chip where
  select : BitVec 8
  regs : RegisterFile (BitVec 8) 32
  documented : regs.writable = writableBits (maxEntries (regs.value 1)).toNat

namespace Chip

/-- IOREGSEL. -/
def writeSelect (reg : BitVec 8) (c : Chip) : Chip := { c with select := reg }

/-- IOWIN. -/
def readWindow (c : Chip) : BitVec 32 := c.regs.value c.select

theorem writableBits_version (entries : ℕ) : writableBits entries 1 = 0 := by
  rw [writableBits, if_neg (by decide), if_neg]
  rintro ⟨h, -⟩
  exact absurd h (by decide)

theorem version_kept (c : Chip) (reg : BitVec 8) (value : BitVec 32) : (c.regs.write reg value).value 1 = c.regs.value 1 := by
  by_cases h : reg = 1
  · subst h
    rw [RegisterFile.write_self_iff, RegisterFile.Agrees, c.documented, writableBits_version]
    exact BitVec.and_zero.trans BitVec.and_zero.symm
  · exact RegisterFile.write_of_ne (Ne.symm h)

def writeWindow (value : BitVec 32) (c : Chip) : Chip where
  select := c.select
  regs := c.regs.write c.select value
  documented := by rw [RegisterFile.writable_write, version_kept, c.documented]

end Chip

/-- The statics of the module, and the I/O APICs by their addresses. -/
structure ApicState where
  lapicBase : U64
  ioapicBase : U64
  ioapicGsiBase : BitVec 32
  chips : U64 → Chip

def ApicState.new (chips : U64 → Chip) : ApicState := ⟨lapicDefaultBase, ioapicDefaultBase, 0, chips⟩

/-- Access to the I/O APIC in use. -/
def ApicState.onChip (s : ApicState) (f : Chip → Chip) : ApicState :=
  { s with chips := Function.update s.chips s.ioapicBase (f (s.chips s.ioapicBase)) }

/-- The last I/O APIC that owns GSI 0 is taken. -/
def configureFromAcpi (acpi : AcpiState) (s : ApicState) : ApicState :=
  match madt acpi with
  | none => s
  | some info =>
    let s := if info.lapicAddress ≠ 0 then { s with lapicBase := info.lapicAddress } else s
    info.ioapics.foldl (fun s io =>
      if io.gsiBase = 0 then { s with ioapicBase := io.address, ioapicGsiBase := 0 } else s) s

def ioapicRead (reg : BitVec 8) (s : ApicState) : BitVec 32 × ApicState :=
  let s := s.onChip fun c => c.writeSelect reg
  ((s.chips s.ioapicBase).readWindow, s)

def ioapicWrite (reg : BitVec 8) (value : BitVec 32) (s : ApicState) : ApicState :=
  s.onChip fun c => (c.writeSelect reg).writeWindow value

def intiFlags (flags : BitVec 16) : BitVec 32 :=
  let bits := if flags &&& polarityMask = polarityActiveLow then ioapicActiveLow else 0
  if flags &&& triggerMask = triggerLevel then bits ||| ioapicLevelTriggered else bits

/-- `(0x10 + 2 * pin) as u8`. -/
def regLow (pin : BitVec 32) : BitVec 8 := (0x10 + 2 * pin).setWidth 8

/-- `(0x11 + 2 * pin) as u8`. -/
def regHigh (pin : BitVec 32) : BitVec 8 := (0x11 + 2 * pin).setWidth 8

def writeRedirection (pin : BitVec 32) (vector destLapicId : UInt8) (bits : BitVec 32) (s : ApicState) : ApicState :=
  let s := ioapicWrite (regLow pin) (vector.toBitVec.setWidth 32 ||| bits) s
  ioapicWrite (regHigh pin) (destLapicId.toBitVec.setWidth 32 <<< 24) s

/-- Every entry is masked, GSI n with vector 0x20 + n. -/
def maskEntries (entries : ℕ) (s : ApicState) : ApicState :=
  (List.range entries).foldl (fun s i =>
    writeRedirection (BitVec.ofNat 32 i) (0x20 + UInt8.ofNat i) 0 ioapicMasked s) s

/-- An override of a GSI that the I/O APIC has. -/
def applyOverride (gsiBase entries : BitVec 32) (s : ApicState) (o : InterruptOverride) : ApicState :=
  if gsiBase.toNat ≤ o.gsi.toNat ∧ (o.gsi - gsiBase).toNat < entries.toNat then
    writeRedirection (o.gsi - gsiBase) (0x20 + o.isaIrq) 0 (ioapicMasked ||| intiFlags o.flags) s
  else s

def initIoapic (acpi : AcpiState) (s : ApicState) : ApicState :=
  let (ver, s) := ioapicRead 0x01 s
  let entries := maxEntries ver
  let gsiBase := s.ioapicGsiBase
  (overrides acpi).foldl (applyOverride gsiBase entries) (maskEntries entries.toNat s)

def isaIrqPin (acpi : AcpiState) (irq : UInt8) (s : ApicState) : BitVec 32 := (isaIrqToGsi acpi irq).1 - s.ioapicGsiBase

def routeIrq (acpi : AcpiState) (irq vector destLapicId : UInt8) (masked : Bool) (s : ApicState) : ApicState :=
  let bits := intiFlags (isaIrqToGsi acpi irq).2
  let bits := if masked then bits ||| ioapicMasked else bits
  writeRedirection (isaIrqPin acpi irq s) vector destLapicId bits s

def unmaskIrq (acpi : AcpiState) (irq : UInt8) (s : ApicState) : ApicState :=
  let reg := regLow (isaIrqPin acpi irq s)
  let (low, s) := ioapicRead reg s
  ioapicWrite reg (low &&& ~~~ioapicMasked) s

def maskIrq (acpi : AcpiState) (irq : UInt8) (s : ApicState) : ApicState :=
  let reg := regLow (isaIrqPin acpi irq s)
  let (low, s) := ioapicRead reg s
  ioapicWrite reg (low ||| ioapicMasked) s

inductive Call
  | configureFromAcpi
  | initIoapic
  | routeIrq (irq vector destLapicId : UInt8) (masked : Bool)
  | maskIrq (irq : UInt8)
  | unmaskIrq (irq : UInt8)
deriving DecidableEq, Repr

def Call.run (acpi : AcpiState) : Call → ApicState → ApicState
  | configureFromAcpi => Apic.configureFromAcpi acpi
  | initIoapic => Apic.initIoapic acpi
  | routeIrq irq vector destLapicId masked => Apic.routeIrq acpi irq vector destLapicId masked
  | maskIrq irq => Apic.maskIrq acpi irq
  | unmaskIrq irq => Apic.unmaskIrq acpi irq

def run (acpi : AcpiState) (calls : List Call) (s : ApicState) : ApicState := calls.foldl (fun s c => c.run acpi s) s

end VenturaOS.Apic
