import Mathlib.Data.BitVec

/-!
# The physical memory map

The part of `memory.rs` that the page allocator and the page-table builder
read: the list of regions taken from UEFI. The byte totals, which are only
logged, come with the decoder.
-/
namespace VenturaOS

/-- A machine word of the kernel (`u64`; `usize` on this target). -/
abbrev U64 := BitVec 64

namespace Memory

def pageSize : ℕ := 4096
def maxRegions : ℕ := 128

inductive MemoryType
  | usable
  | loaderCode
  | loaderData
  | bootServicesCode
  | bootServicesData
  | runtimeServicesCode
  | runtimeServicesData
  | acpiReclaim
  | acpiNvs
  | mmio
  | reserved
deriving DecidableEq, Repr

structure MemoryRegion where
  physicalStart : U64
  physicalEnd : U64
  pageCount : U64
  regionType : MemoryType
  isUsable : Bool
deriving DecidableEq, Repr

/-- The regions in use; the array's `region_count` is the length of the list. -/
structure PhysicalMemoryMap where
  regions : List MemoryRegion
deriving DecidableEq, Repr

namespace MemoryRegion

def PageAligned (r : MemoryRegion) : Prop :=
  r.physicalStart.toNat % pageSize = 0 ∧ r.physicalEnd.toNat % pageSize = 0

/-- No byte lies in both regions. -/
def Disjoint (r q : MemoryRegion) : Prop :=
  r.physicalEnd.toNat ≤ q.physicalStart.toNat ∨ q.physicalEnd.toNat ≤ r.physicalStart.toNat

/-- The byte range `[addr, addr + pageSize)` lies inside the region. -/
def HoldsPage (r : MemoryRegion) (addr : U64) : Prop :=
  r.physicalStart.toNat ≤ addr.toNat ∧ addr.toNat + pageSize ≤ r.physicalEnd.toNat

instance (r : MemoryRegion) : Decidable r.PageAligned := by unfold PageAligned; infer_instance
instance (r q : MemoryRegion) : Decidable (r.Disjoint q) := by unfold Disjoint; infer_instance
instance (r : MemoryRegion) (addr : U64) : Decidable (r.HoldsPage addr) := by
  unfold HoldsPage; infer_instance

end MemoryRegion

namespace PhysicalMemoryMap

/-- What the firmware promises about conventional memory: whole pages, no overlap. -/
structure UsableWellFormed (map : PhysicalMemoryMap) : Prop where
  aligned : ∀ r ∈ map.regions, r.isUsable = true → r.PageAligned
  disjoint : map.regions.Pairwise (fun r q => r.isUsable = true → q.isUsable = true → r.Disjoint q)

end PhysicalMemoryMap
end Memory
end VenturaOS
