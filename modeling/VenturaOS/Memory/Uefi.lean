import VenturaOS.Library.Reads
import VenturaOS.Memory.PhysicalMap

/-!
# The memory map of the firmware

`init_from_uefi`: the raw descriptors are read out of a byte slice, and the
offset of the next one is kept in a `usize`.
-/
namespace VenturaOS.Memory
open Library

abbrev ByteReads := Reads U64 UInt8

/-- The `n` addresses from `a`. -/
def addressesFrom (a : U64) (n : ℕ) : List U64 := (List.range n).map fun i => a + BitVec.ofNat 64 i

theorem mem_addressesFrom {a b : U64} {n : ℕ} : b ∈ addressesFrom a n ↔ ∃ k < n, b = a + BitVec.ofNat 64 k := by
  simp only [addressesFrom, List.mem_map, List.mem_range, eq_comm]

def readBytes (a : U64) (n : ℕ) : ByteReads (List UInt8) := Reads.readAll (addressesFrom a n)

/-- The field of `n` bytes at offset `o` of a structure read from memory. -/
def field (bytes : List UInt8) (o n : ℕ) : ℕ := littleEndian ((bytes.drop o).take n)

/-- A byte slice: it ends below the end of the address space, and no slice is longer than `isize::MAX`. -/
structure Slice where
  start : U64
  len : ℕ
  fits : start.toNat + len < 2 ^ 64
  bounded : len < 2 ^ 63

/-- Part of the slice. -/
def Slice.Holds (raw : Slice) (a : U64) : Prop := raw.start.toNat ≤ a.toNat ∧ a.toNat < raw.start.toNat + raw.len

def efiLoaderCode : ℕ := 1
def efiLoaderData : ℕ := 2
def efiBootServicesCode : ℕ := 3
def efiBootServicesData : ℕ := 4
def efiRuntimeServicesCode : ℕ := 5
def efiRuntimeServicesData : ℕ := 6
def efiConventionalMemory : ℕ := 7
def efiAcpiReclaimMemory : ℕ := 9
def efiAcpiMemoryNvs : ℕ := 10
def efiMemoryMappedIo : ℕ := 11
def efiMemoryMappedIoPortSpace : ℕ := 12

/-- The fields of a descriptor that are looked at; the structure has 40 bytes. -/
structure EfiMemoryDescriptor where
  memoryType : BitVec 32
  physicalStart : U64
  numberOfPages : U64
deriving DecidableEq, Repr

namespace EfiMemoryDescriptor

def size : ℕ := 40

def ofBytes (bytes : List UInt8) : EfiMemoryDescriptor where
  memoryType := BitVec.ofNat 32 (field bytes 0 4)
  physicalStart := BitVec.ofNat 64 (field bytes 8 8)
  numberOfPages := BitVec.ofNat 64 (field bytes 24 8)

def read (a : U64) : ByteReads EfiMemoryDescriptor := ofBytes <$> readBytes a size

/-- The type and usability in the kernel's map. -/
def mappedType (memoryType : BitVec 32) : MemoryType × Bool :=
  if memoryType.toNat = efiConventionalMemory then (.usable, true)
  else if memoryType.toNat = efiLoaderCode then (.loaderCode, false)
  else if memoryType.toNat = efiLoaderData then (.loaderData, false)
  else if memoryType.toNat = efiBootServicesCode then (.bootServicesCode, false)
  else if memoryType.toNat = efiBootServicesData then (.bootServicesData, false)
  else if memoryType.toNat = efiRuntimeServicesCode then (.runtimeServicesCode, false)
  else if memoryType.toNat = efiRuntimeServicesData then (.runtimeServicesData, false)
  else if memoryType.toNat = efiAcpiReclaimMemory then (.acpiReclaim, false)
  else if memoryType.toNat = efiAcpiMemoryNvs then (.acpiNvs, false)
  else if memoryType.toNat = efiMemoryMappedIo ∨ memoryType.toNat = efiMemoryMappedIoPortSpace then (.mmio, false)
  else (.reserved, false)

end EfiMemoryDescriptor

/-- The map with its running sums of bytes. -/
structure CountedMap extends PhysicalMemoryMap where
  totalMemoryBytes : U64
  usableMemoryBytes : U64
  reservedMemoryBytes : U64
deriving DecidableEq, Repr

namespace CountedMap

def empty : CountedMap := ⟨⟨[]⟩, 0, 0, 0⟩

/-- One descriptor of the loop; `continue` leaves the map as it is. -/
def record (map : CountedMap) (desc : EfiMemoryDescriptor) : CountedMap :=
  if desc.numberOfPages = 0 then map
  -- `checked_mul`
  else if desc.numberOfPages.toNat * pageSize ≥ 2 ^ 64 then map
  else
    let length := desc.numberOfPages * BitVec.ofNat 64 pageSize
    -- `checked_add`
    if desc.physicalStart.toNat + length.toNat ≥ 2 ^ 64 then map
    else
      let physicalEnd := desc.physicalStart + length
      let (regionType, isUsable) := EfiMemoryDescriptor.mappedType desc.memoryType
      { regions := map.regions ++ [⟨desc.physicalStart, physicalEnd, desc.numberOfPages, regionType, isUsable⟩]
        totalMemoryBytes := map.totalMemoryBytes + length
        usableMemoryBytes := if isUsable then map.usableMemoryBytes + length else map.usableMemoryBytes
        reservedMemoryBytes := if isUsable then map.reservedMemoryBytes else map.reservedMemoryBytes + length }

end CountedMap

/-- The loop with the number of descriptors still to come and the current offset. -/
def decodeFrom (raw : Slice) (descriptorSize : U64) : ℕ → U64 → CountedMap → ByteReads CountedMap
  | 0, _, map => pure map
  | n + 1, offset, map =>
    if (offset + BitVec.ofNat 64 EfiMemoryDescriptor.size).toNat > raw.len then pure map
    else if map.regions.length ≥ maxRegions then pure map
    else do
      let desc ← EfiMemoryDescriptor.read (raw.start + offset)
      decodeFrom raw descriptorSize n (offset + descriptorSize) (map.record desc)

/-- `init_from_uefi`; the static map is cleared first. -/
def initFromUefi (raw : Slice) (descriptorSize descriptorCount : U64) : ByteReads CountedMap :=
  decodeFrom raw descriptorSize descriptorCount.toNat 0 .empty

end VenturaOS.Memory
