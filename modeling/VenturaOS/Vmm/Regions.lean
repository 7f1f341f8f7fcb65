import VenturaOS.Paging.Tables

/-!
# The region table

The bookkeeping half of `vmm.rs`: which ranges of virtual addresses are
spoken for, and the cursor from which new ones are taken. The array and its
`region_count` are a list.
-/
namespace VenturaOS.Vmm
open Memory Paging

def dynamicVirtStart : U64 := 0xFFFF800000000000#64
def dynamicVirtEnd : U64 := 0xFFFFFF8000000000#64
def maxVirtRegions : ℕ := 256
def kernelPml4Start : ℕ := 256

structure VirtPermissions where
  readable : Bool
  writable : Bool
  executable : Bool
  user : Bool
deriving DecidableEq, Repr

namespace VirtPermissions

def kernelData : VirtPermissions := ⟨true, true, false, false⟩
def mmio : VirtPermissions := ⟨true, true, false, false⟩

def toPageFlags (p : VirtPermissions) : PageTableFlags :=
  let flags := PageTableFlags.present
  let flags := if p.writable then flags.union PageTableFlags.writable else flags
  let flags := if p.user then flags.union PageTableFlags.userAccessible else flags
  if !p.executable then flags.union PageTableFlags.noExecute else flags

/-- Permissions always give a present leaf and never touch the frame field. -/
theorem toPageFlags_ok (p : VirtPermissions) :
    p.toPageFlags.bits.getLsbD 0 = true ∧ p.toPageFlags.Clear := by
  rcases p with ⟨_ | _, _ | _, _ | _, _ | _⟩ <;> exact ⟨by decide, by decide⟩

end VirtPermissions

inductive RegionPurpose
  | kernelBinary
  | kernelStack
  | directMappedRam
  | mmio
  | dynamicKernel
  | reserved
deriving DecidableEq, Repr

structure VirtRegion where
  start : VirtAddr
  sizeBytes : U64
  permissions : VirtPermissions
  purpose : RegionPurpose
  ownsPhysicalPages : Bool
deriving DecidableEq, Repr

namespace VirtRegion

/-- `end()`; the sum is not checked for overflow. -/
def stop (r : VirtRegion) : VirtAddr := ⟨r.start.addr + r.sizeBytes⟩

def contains (r : VirtRegion) (addr : VirtAddr) : Bool :=
  decide (r.start.addr.toNat ≤ addr.addr.toNat) && decide (addr.addr.toNat < r.stop.addr.toNat)

def overlaps (r : VirtRegion) (otherStart : VirtAddr) (otherSize : U64) : Bool :=
  decide (r.start.addr.toNat < (otherStart.addr + otherSize).toNat) &&
    decide (otherStart.addr.toNat < r.stop.addr.toNat)

/-- Number of pages, `size_bytes / PAGE_SIZE`. -/
def pageCount (r : VirtRegion) : ℕ := r.sizeBytes.toNat / pageSize

end VirtRegion

inductive VmmError
  | nonCanonicalAddress
  | unalignedVirtualAddress
  | unalignedPhysicalAddress
  | zeroSize
  | regionTableFull
  | regionOverlaps
  | addressOverflow
  | physicalAllocationFailed
  | pageTableMappingFailed
  | regionNotFound
deriving DecidableEq, Repr

structure VirtualMemoryManager where
  regions : List VirtRegion
  nextDynamicAddr : U64
deriving DecidableEq, Repr

def VirtualMemoryManager.new : VirtualMemoryManager := ⟨[], dynamicVirtStart⟩

def advanceDynamicCursor (newEnd : U64) (vmm : VirtualMemoryManager) : VirtualMemoryManager :=
  if newEnd.toNat > vmm.nextDynamicAddr.toNat then { vmm with nextDynamicAddr := newEnd } else vmm

def registerRegion (region : VirtRegion) (vmm : VirtualMemoryManager) :
    Except VmmError Unit × VirtualMemoryManager :=
  if !isCanonical region.start.addr || !isCanonical region.stop.addr then (.error .nonCanonicalAddress, vmm)
  else if !region.start.isAligned then (.error .unalignedVirtualAddress, vmm)
  else if region.sizeBytes.toNat = 0 ∨ region.sizeBytes.toNat % pageSize ≠ 0 then (.error .zeroSize, vmm)
  else if vmm.regions.length ≥ maxVirtRegions then (.error .regionTableFull, vmm)
  else if vmm.regions.any (fun r => r.overlaps region.start region.sizeBytes) then (.error .regionOverlaps, vmm)
  else (.ok (), { vmm with regions := vmm.regions ++ [region] })

def reserveVirtualRegion (sizeBytes : U64) (permissions : VirtPermissions) (purpose : RegionPurpose)
    (vmm : VirtualMemoryManager) : Except VmmError VirtRegion × VirtualMemoryManager :=
  if sizeBytes.toNat = 0 ∨ sizeBytes.toNat % pageSize ≠ 0 then (.error .zeroSize, vmm)
  else
    let startAddr := vmm.nextDynamicAddr
    -- `checked_add`
    if startAddr.toNat + sizeBytes.toNat ≥ 2 ^ 64 then (.error .addressOverflow, vmm)
    else
      let endAddr := startAddr + sizeBytes
      if endAddr.toNat > dynamicVirtEnd.toNat ∨ !isCanonical endAddr then (.error .addressOverflow, vmm)
      else if vmm.regions.any (fun r => r.overlaps ⟨startAddr⟩ sizeBytes) then (.error .regionOverlaps, vmm)
      else
        let region : VirtRegion := ⟨⟨startAddr⟩, sizeBytes, permissions, purpose, false⟩
        if vmm.regions.length ≥ maxVirtRegions then (.error .regionTableFull, vmm)
        else (.ok region, { regions := vmm.regions ++ [region], nextDynamicAddr := endAddr })

/-- Remove entry `i` by moving the last entry into its place. -/
def swapRemove (regions : List VirtRegion) (i : ℕ) : List VirtRegion :=
  match regions.getLast? with
  | none => regions
  | some last => (regions.set i last).dropLast

def unregisterRegion (start : VirtAddr) (vmm : VirtualMemoryManager) :
    Except VmmError Unit × VirtualMemoryManager :=
  match vmm.regions.findIdx? (fun r => r.start = start) with
  | some i => (.ok (), { vmm with regions := swapRemove vmm.regions i })
  | none => (.error .regionOverlaps, vmm)

def findRegionForAddr (addr : VirtAddr) (vmm : VirtualMemoryManager) : Option VirtRegion :=
  vmm.regions.find? (fun r => r.contains addr)

end VenturaOS.Vmm
