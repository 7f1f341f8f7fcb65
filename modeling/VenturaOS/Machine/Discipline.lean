import VenturaOS.Heap.Payloads
import VenturaOS.Machine.Steps

/-!
# Well-behaved clients

Clients free live pointers, write to their own payloads, and unmap a region
once. Under that discipline the upper half of the kernel root is exactly the
pages of the live regions and of the heap, all apart from each other, and no
ignored result is an error.
-/
namespace VenturaOS.Machine
open Library Memory Pmm Paging Vmm AddressSpaces

/-- The calls and writes the clients may make. -/
def Disciplined (y : System) : Op → Prop
  | .heapExpand _ => y.kernel.heap.initialized = true
  | .heapDeallocate p layout => layout.size = 0 ∨ p ∈ y.payloads.map Prod.fst
  | .write bytes => ∀ a, bytes a ≠ y.kernel.bytes a →
      (∃ x ∈ y.payloads, x.1 ≤ a ∧ a < x.1 + x.2.size) ∨ a < y.kernel.heap.start ∨ y.kernel.heap.currentEnd ≤ a
  | .unmapRegion region => region ∈ y.live
  | _ => True

def DisciplinedStep (y : System) (op : Op) (y' : System) : Prop := LiveStep y op y' ∧ Disciplined y op

/-- The part of it that concerns frames: no growth before `heap::init`, and a region is unmapped while it is live. -/
def Timely (y : System) : Op → Prop
  | .heapExpand _ => y.kernel.heap.initialized = true
  | .unmapRegion region => region ∈ y.live
  | _ => True

def TimelyStep (y : System) (op : Op) (y' : System) : Prop := LiveStep y op y' ∧ Timely y op

theorem Disciplined.timely {y : System} {op : Op} (h : Disciplined y op) : Timely y op := by
  cases op with
  | heapExpand n => exact h
  | unmapRegion region => exact h
  | _ => trivial

/-- The states of the system after `vmm::init` with well-behaved clients. -/
def Behaved (info : BootInfo) (y : System) : Prop :=
  ∃ k ops, Vmm.init info info.kernel = some k ∧ Run DisciplinedStep (System.start k) ops y

/-- A call or write that concerns the heap. -/
def Op.onHeap : Op → Bool
  | .heapInit | .heapExpand _ | .heapAllocate _ | .heapDeallocate _ _ | .write _ => true
  | _ => false

structure SameHeap (y y' : System) : Prop where
  root : y'.kernel.rootPml4 = y.kernel.rootPml4
  heap : y'.kernel.heap = y.kernel.heap
  bytes : y'.kernel.bytes = y.kernel.bytes
  payloads : y'.payloads = y.payloads

section Others

variable {y y' : System} {op : Op} {k k' : Kernel}

theorem allocateAndMapRegion_outside {size : U64} {permissions : VirtPermissions} {purpose : RegionPurpose}
    {result : Except VmmError VirtRegion} (hrun : allocateAndMapRegion size permissions purpose k = (result, k')) :
    k'.rootPml4 = k.rootPml4 ∧ k'.heap = k.heap ∧ k'.bytes = k.bytes := by
  unfold allocateAndMapRegion at hrun
  generalize reserveVirtualRegion size permissions purpose k.vmm = taken at hrun
  rcases taken with ⟨e | reserved, vmm'⟩
  · cases hrun
    exact ⟨rfl, rfl, rfl⟩
  · simp only at hrun
    split at hrun
    · cases hrun
      exact ⟨rfl, rfl, rfl⟩
    · split at hrun
      · cases hrun
        exact ⟨rfl, rfl, rfl⟩
      · split at hrun <;> cases hrun <;> exact ⟨rfl, rfl, rfl⟩

theorem activate_outside (space : AddressSpace) (k : Kernel) :
    (AddressSpaces.activate space k).rootPml4 = k.rootPml4 ∧ (AddressSpaces.activate space k).heap = k.heap ∧
      (AddressSpaces.activate space k).bytes = k.bytes := by
  unfold AddressSpaces.activate
  split_ifs <;> exact ⟨rfl, rfl, rfl⟩

theorem destroy_outside (space : AddressSpace) (k : Kernel) :
    (AddressSpaces.destroy space k).2.rootPml4 = k.rootPml4 ∧ (AddressSpaces.destroy space k).2.heap = k.heap ∧
      (AddressSpaces.destroy space k).2.bytes = k.bytes := by
  unfold AddressSpaces.destroy
  split_ifs
  · exact ⟨rfl, rfl, rfl⟩
  · exact activate_outside (bootstrap k) k
  · exact ⟨rfl, rfl, rfl⟩

/-- Calls on regions, spaces and frames leave the heap alone. -/
theorem Step.sameHeap (h : Step y op y') (hop : op.onHeap = false) : SameHeap y y' := by
  cases h with
  | heapInit _ => cases hop
  | heapExpand _ => cases hop
  | heapAllocate _ => cases hop
  | heapDeallocate => cases hop
  | write => cases hop
  | mapRegion hrun =>
    rcases allocateAndMapRegion_outside hrun with ⟨hr, hh, hb⟩
    exact ⟨hr, hh, hb, rfl⟩
  | mapRegionFails hrun =>
    rcases allocateAndMapRegion_outside hrun with ⟨hr, hh, hb⟩
    exact ⟨hr, hh, hb, rfl⟩
  | unmapRegion _ => exact ⟨rfl, rfl, rfl, rfl⟩
  | newSpace hrun =>
    unfold AddressSpaces.new at hrun
    split at hrun
    · cases hrun
    · cases hrun
      exact ⟨rfl, rfl, rfl, rfl⟩
  | newSpaceFails hrun =>
    unfold AddressSpaces.new at hrun
    split at hrun
    · cases hrun
      exact ⟨rfl, rfl, rfl, rfl⟩
    · cases hrun
  | bootstrapSpace => exact ⟨rfl, rfl, rfl, rfl⟩
  | activate _ =>
    rcases activate_outside ‹AddressSpace› y.kernel with ⟨hr, hh, hb⟩
    exact ⟨hr, hh, hb, rfl⟩
  | mapPage _ =>
    unfold AddressSpaces.mapPage
    split_ifs
    · exact ⟨rfl, rfl, rfl, rfl⟩
    · split <;> exact ⟨rfl, rfl, rfl, rfl⟩
  | unmapPage _ =>
    unfold AddressSpaces.unmapPage
    split_ifs
    · exact ⟨rfl, rfl, rfl, rfl⟩
    · split <;> exact ⟨rfl, rfl, rfl, rfl⟩
  | destroy _ =>
    rcases destroy_outside ‹AddressSpace› y.kernel with ⟨hr, hh, hb⟩
    exact ⟨hr, hh, hb, rfl⟩
  | takeFrame _ => exact ⟨rfl, rfl, rfl, rfl⟩
  | takeFrameFails _ => exact ⟨rfl, rfl, rfl, rfl⟩
  | freeFrame _ _ => exact ⟨rfl, rfl, rfl, rfl⟩

theorem expandHeap_root {needed : ℕ} {grew : Bool} (hrun : Heap.expandHeap needed k = some (grew, k')) :
    k'.rootPml4 = k.rootPml4 := by
  unfold Heap.expandHeap at hrun
  simp only at hrun
  split_ifs at hrun
  · cases hrun
    rfl
  · split at hrun
    · cases hrun
      rfl
    · rcases Option.map_eq_some_iff.mp hrun with ⟨k₁, hreg, he⟩
      cases he
      exact (Heap.registerPages_cases hreg).1.root

theorem Step.root (h : Step y op y') : y'.kernel.rootPml4 = y.kernel.rootPml4 := by
  cases hop : op.onHeap with
  | false => exact (h.sameHeap hop).root
  | true =>
    cases h with
    | heapInit hrun =>
      cases hinit : y.kernel.heap.initialized with
      | true =>
        rw [Heap.init_initialized hinit] at hrun
        cases hrun
        rfl
      | false =>
        rcases Heap.init_cases hrun hinit with ⟨region, k₁, hmap, rfl⟩
        exact (allocateAndMapRegion_outside hmap).1
    | heapExpand hrun => exact expandHeap_root hrun
    | heapAllocate hrun =>
      rcases Heap.allocate_frames hrun with hf | ⟨grew, k₁, -, hexp, hf⟩
      · exact hf.outside.root
      · exact hf.outside.root.trans (expandHeap_root hexp)
    | heapDeallocate => exact (Heap.deallocate_frames _ _ _).outside.root
    | write => rfl
    | _ => cases hop

end Others
end VenturaOS.Machine
