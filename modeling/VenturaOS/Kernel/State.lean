import VenturaOS.Vmm.Regions

/-!
# The kernel's memory-management state

The statics of `vmm.rs`, `heap.rs` and `address_space.rs` as one record. The
heap's own bytes are indexed by virtual address; page tables are reached
through physical addresses and kept apart from them. Address space ids count
up in a `u64` that is taken not to wrap around.
-/
namespace VenturaOS
open Pmm Paging Vmm

namespace Heap

def heapStartAddr : ℕ := dynamicVirtStart.toNat

structure HeapStats where
  totalBytes : ℕ
  allocatedBytes : ℕ
  freeBytes : ℕ
  allocationCount : ℕ
  freeCount : ℕ
  expansionCount : ℕ
deriving DecidableEq, Repr

/-- `HEAP_STATE`; addresses are numbers, the null pointer is 0. -/
structure HeapState where
  start : ℕ
  currentEnd : ℕ
  head : ℕ
  stats : HeapStats
  initialized : Bool
deriving DecidableEq, Repr

def HeapState.new : HeapState := ⟨heapStartAddr, heapStartAddr, 0, ⟨0, 0, 0, 0, 0, 0⟩, false⟩

end Heap

structure Kernel where
  mem : PageMemory
  rootPml4 : PhysPage
  vmm : VirtualMemoryManager
  heap : Heap.HeapState
  bytes : ℕ → UInt8
  cr3 : U64
  nextAsid : ℕ
  currentAsid : ℕ

end VenturaOS
