import VenturaOS.Acpi.MadtReads

/-!
# Encoded MADTs

A MADT as a value: the header fields, the two fixed words and the records,
each record with all its bytes. Its encoding has the declared length and a
checksum byte that makes the bytes add up to zero.
-/
namespace VenturaOS.Acpi
open Library Memory

/-- The records of the four kinds that are decoded, with the bytes behind their fields, and all others. -/
inductive MadtRecord
  | localApic (processor id : UInt8) (flags : BitVec 32) (rest : List UInt8)
  | ioApic (id reserved : UInt8) (address gsiBase : BitVec 32) (rest : List UInt8)
  | interruptOverride (bus isaIrq : UInt8) (gsi : BitVec 32) (flags : BitVec 16) (rest : List UInt8)
  | lapicAddress (reserved : BitVec 16) (address : U64) (rest : List UInt8)
  | other (kind : UInt8) (body : List UInt8) (hkind : kind ∉ [madtLocalApic, madtIoApic, madtInterruptOverride,
      madtLocalApicAddressOverride])

namespace MadtRecord

def kind : MadtRecord → UInt8
  | localApic .. => madtLocalApic
  | ioApic .. => madtIoApic
  | interruptOverride .. => madtInterruptOverride
  | lapicAddress .. => madtLocalApicAddressOverride
  | other kind _ _ => kind

def body : MadtRecord → List UInt8
  | localApic processor id flags rest => processor :: id :: (littleBytes 4 flags.toNat ++ rest)
  | ioApic id reserved address gsiBase rest =>
    id :: reserved :: (littleBytes 4 address.toNat ++ (littleBytes 4 gsiBase.toNat ++ rest))
  | interruptOverride bus isaIrq gsi flags rest =>
    bus :: isaIrq :: (littleBytes 4 gsi.toNat ++ (littleBytes 2 flags.toNat ++ rest))
  | lapicAddress reserved address rest => littleBytes 2 reserved.toNat ++ (littleBytes 8 address.toNat ++ rest)
  | other _ body _ => body

def bytes (r : MadtRecord) : List UInt8 := r.kind :: UInt8.ofNat (r.body.length + 2) :: r.body

/-- The APIC id of a processor whose enabled bit is set. -/
def enabledId : MadtRecord → Option UInt8
  | localApic _ id flags _ => if flags.getLsbD 0 then some id else none
  | _ => none

def toIoApic : MadtRecord → Option IoApic
  | ioApic id _ address gsiBase _ => some ⟨id, address.setWidth 64, gsiBase⟩
  | _ => none

def toOverride : MadtRecord → Option InterruptOverride
  | interruptOverride _ isaIrq gsi flags _ => some ⟨isaIrq, gsi, flags⟩
  | _ => none

def toLapicAddress : MadtRecord → Option U64
  | lapicAddress _ address _ => some address
  | _ => none

/-- The least length of an entry of a kind. -/
def leastLength (kind : UInt8) : ℕ :=
  if kind = madtLocalApic then 8
  else if kind = madtIoApic then 12
  else if kind = madtInterruptOverride then 10
  else if kind = madtLocalApicAddressOverride then 12
  else 2

end MadtRecord

def sumBytes (bytes : List UInt8) : UInt8 := bytes.foldl (fun acc b => acc + b) 0

structure MadtTable where
  revision : UInt8
  /-- The vendor fields of the header. -/
  oem : List UInt8
  lapicAddress : BitVec 32
  flags : BitVec 32
  records : List MadtRecord
  oem_length : oem.length = 26
  short : ∀ r ∈ records, r.bytes.length ≤ 255
  fits : 44 + (records.flatMap MadtRecord.bytes).length < 2 ^ 32

namespace MadtTable

variable (t : MadtTable)

def entries : List UInt8 := t.records.flatMap MadtRecord.bytes

def size : ℕ := 44 + t.entries.length

/-- The bytes with a given checksum byte. -/
def withChecksum (checksum : UInt8) : List UInt8 :=
  [0x41, 0x50, 0x49, 0x43] ++ (littleBytes 4 t.size ++ (t.revision :: checksum :: (t.oem ++
    (littleBytes 4 t.lapicAddress.toNat ++ (littleBytes 4 t.flags.toNat ++ t.entries)))))

def bytes : List UInt8 := t.withChecksum (0 - sumBytes (t.withChecksum 0))

def decoded : MadtInfo where
  lapicAddress := (t.records.filterMap MadtRecord.toLapicAddress).getLast?.getD (t.lapicAddress.setWidth 64)
  pcatCompat := t.flags.getLsbD 0
  cpuApicIds := (t.records.filterMap MadtRecord.enabledId).take maxCpus
  ioapics := (t.records.filterMap MadtRecord.toIoApic).take maxIoapics
  overrides := (t.records.filterMap MadtRecord.toOverride).take maxOverrides

end MadtTable

/-- Every kind with a body that is long enough is a record. -/
theorem MadtRecord.exists_of_body (kind : UInt8) (body : List UInt8) (h : leastLength kind ≤ body.length + 2) :
    ∃ r : MadtRecord, r.kind = kind ∧ r.body = body := by
  have hhead (n : ℕ) (hn : n + 2 ≤ body.length) : ∃ x y tail, body = x :: y :: tail ∧ n ≤ tail.length := by
    match body, hn with
    | x :: y :: tail, hn => exact ⟨x, y, tail, rfl, Nat.le_of_add_le_add_right hn⟩
  unfold leastLength at h
  split_ifs at h with hlocal hio hover haddress
  · obtain ⟨processor, id, tail, rfl, htail⟩ := hhead 4 (by omega)
    obtain ⟨flags, hflags⟩ := exists_word_append tail 4 32 htail (by decide)
    exact ⟨.localApic processor id flags (tail.drop 4), hlocal.symm, by rw [MadtRecord.body, hflags]⟩
  · obtain ⟨id, reserved, tail, rfl, htail⟩ := hhead 8 (by omega)
    obtain ⟨address, haddress⟩ := exists_word_append tail 4 32 (by omega) (by decide)
    obtain ⟨base, hbase⟩ := exists_word_append (tail.drop 4) 4 32
      (by rw [List.length_drop]; omega) (by decide)
    exact ⟨.ioApic id reserved address base ((tail.drop 4).drop 4), hio.symm, by rw [MadtRecord.body, hbase, haddress]⟩
  · obtain ⟨bus, irq, tail, rfl, htail⟩ := hhead 6 (by omega)
    obtain ⟨gsi, hgsi⟩ := exists_word_append tail 4 32 (by omega) (by decide)
    obtain ⟨flags, hflags⟩ := exists_word_append (tail.drop 4) 2 16
      (by rw [List.length_drop]; omega) (by decide)
    exact ⟨.interruptOverride bus irq gsi flags ((tail.drop 4).drop 2), hover.symm,
      by rw [MadtRecord.body, hflags, hgsi]⟩
  · obtain ⟨reserved, hreserved⟩ := exists_word_append body 2 16 (by omega) (by decide)
    obtain ⟨address, hvalue⟩ := exists_word_append (body.drop 2) 8 64
      (by rw [List.length_drop]; omega) (by decide)
    exact ⟨.lapicAddress reserved address ((body.drop 2).drop 8), haddress.symm,
      by rw [MadtRecord.body, hvalue, hreserved]⟩
  · exact ⟨.other kind body (by simp [hlocal, hio, hover, haddress]), rfl, rfl⟩

end VenturaOS.Acpi
