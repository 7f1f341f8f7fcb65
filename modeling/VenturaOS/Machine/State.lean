import VenturaOS.AddressSpace.Model
import VenturaOS.Heap.Model
import VenturaOS.Library.Runs
import VenturaOS.Vmm.Init

/-!
# The running system

The kernel together with its clients: the handles to address spaces they
hold, the regions they were given, the frames they took, and the heap
payloads they own. A step is one call by one of them.
-/
namespace VenturaOS.Machine
open Library Memory Pmm Paging Vmm AddressSpaces

structure System where
  kernel : Kernel
  /-- Handles to address spaces, the destroyed ones included. -/
  spaces : List AddressSpace
  /-- Regions `allocate_and_map_region` has returned. -/
  returned : List VirtRegion
  /-- Those of them that have not been unmapped since. -/
  live : List VirtRegion
  /-- Frames taken from the page allocator and held by clients. -/
  clients : Finset U64
  /-- Heap payloads in use, with the layouts they were asked for. -/
  payloads : List (ℕ × Heap.Layout)

def System.start (k : Kernel) : System := ⟨k, [], [], [], ∅, []⟩

inductive Op
  | heapInit
  | heapExpand (neededBytes : ℕ)
  | heapAllocate (layout : Heap.Layout)
  | heapDeallocate (ptr : ℕ) (layout : Heap.Layout)
  | write (bytes : Bytes)
  | mapRegion (sizeBytes : U64) (permissions : VirtPermissions) (purpose : RegionPurpose)
  | unmapRegion (region : VirtRegion)
  | newSpace
  | bootstrapSpace
  | activate (i : ℕ)
  | mapPage (i : ℕ) (v : VirtAddr) (phys : PhysPage) (flags : PageTableFlags)
  | unmapPage (i : ℕ) (v : VirtAddr)
  | destroy (i : ℕ)
  | takeFrame
  | freeFrame (f : U64)

/-- A mapping call on the handle at position `i`. -/
def Op.OnSpace (i : ℕ) : Op → Prop
  | .mapPage j _ _ _ => j = i
  | .unmapPage j _ => j = i
  | _ => False

/-- One call. Handles are named by their position; `write` is any change of heap bytes. -/
inductive Step : System → Op → System → Prop
  | heapInit {y : System} {k : Kernel} : Heap.init y.kernel = some k → Step y .heapInit { y with kernel := k }
  | heapExpand {y : System} {n : ℕ} {grew : Bool} {k : Kernel} :
      Heap.expandHeap n y.kernel = some (grew, k) → Step y (.heapExpand n) { y with kernel := k }
  | heapAllocate {y : System} {layout : Heap.Layout} {p : ℕ} {k : Kernel} :
      Heap.allocate layout y.kernel = some (p, k) →
      Step y (.heapAllocate layout)
        { y with kernel := k, payloads := if layout.size = 0 ∨ p = 0 then y.payloads else (p, layout) :: y.payloads }
  | heapDeallocate {y : System} {p : ℕ} {layout : Heap.Layout} :
      Step y (.heapDeallocate p layout)
        { y with
          kernel := Heap.deallocate p layout y.kernel
          payloads := if layout.size = 0 then y.payloads else y.payloads.filter fun x => x.1 ≠ p }
  | write {y : System} {bytes : Bytes} : Step y (.write bytes) { y with kernel := { y.kernel with bytes := bytes } }
  | mapRegion {y : System} {size : U64} {permissions : VirtPermissions} {purpose : RegionPurpose}
      {region : VirtRegion} {k : Kernel} :
      allocateAndMapRegion size permissions purpose y.kernel = (.ok region, k) →
      Step y (.mapRegion size permissions purpose)
        { y with kernel := k, returned := region :: y.returned, live := region :: y.live }
  | mapRegionFails {y : System} {size : U64} {permissions : VirtPermissions} {purpose : RegionPurpose}
      {e : VmmError} {k : Kernel} :
      allocateAndMapRegion size permissions purpose y.kernel = (.error e, k) →
      Step y (.mapRegion size permissions purpose) { y with kernel := k }
  | unmapRegion {y : System} {region : VirtRegion} : region ∈ y.returned →
      Step y (.unmapRegion region)
        { y with kernel := (Vmm.unmapRegion region y.kernel).2, live := y.live.erase region }
  | newSpace {y : System} {space : AddressSpace} {k : Kernel} : AddressSpaces.new y.kernel = (.ok space, k) →
      Step y .newSpace { y with kernel := k, spaces := y.spaces ++ [space] }
  | newSpaceFails {y : System} {e : AddressSpaceError} {k : Kernel} : AddressSpaces.new y.kernel = (.error e, k) →
      Step y .newSpace { y with kernel := k }
  | bootstrapSpace {y : System} : Step y .bootstrapSpace { y with spaces := y.spaces ++ [bootstrap y.kernel] }
  | activate {y : System} {i : ℕ} {space : AddressSpace} : y.spaces[i]? = some space →
      Step y (.activate i) { y with kernel := AddressSpaces.activate space y.kernel }
  | mapPage {y : System} {i : ℕ} {space : AddressSpace} {v : VirtAddr} {phys : PhysPage} {flags : PageTableFlags} :
      y.spaces[i]? = some space →
      Step y (.mapPage i v phys flags) { y with kernel := (AddressSpaces.mapPage space v phys flags y.kernel).2 }
  | unmapPage {y : System} {i : ℕ} {space : AddressSpace} {v : VirtAddr} : y.spaces[i]? = some space →
      Step y (.unmapPage i v) { y with kernel := (AddressSpaces.unmapPage space v y.kernel).2 }
  | destroy {y : System} {i : ℕ} {space : AddressSpace} : y.spaces[i]? = some space →
      Step y (.destroy i)
        { y with
          kernel := (AddressSpaces.destroy space y.kernel).2
          spaces := y.spaces.set i (AddressSpaces.destroy space y.kernel).1 }
  | takeFrame {y : System} {page : PhysPage} {mem : PageMemory} : allocatePage y.kernel.mem = (some page, mem) →
      Step y .takeFrame { y with kernel := { y.kernel with mem := mem }, clients := insert page.addr y.clients }
  | takeFrameFails {y : System} {mem : PageMemory} : allocatePage y.kernel.mem = (none, mem) →
      Step y .takeFrame { y with kernel := { y.kernel with mem := mem } }
  | freeFrame {y : System} {f : U64} {mem : PageMemory} {result : Except PageFreeError Unit} : f ∈ y.clients →
      freePage ⟨f⟩ y.kernel.mem = (result, mem) →
      Step y (.freeFrame f) { y with kernel := { y.kernel with mem := mem }, clients := y.clients.erase f }

/-- No mapping call on a destroyed handle, but for an address it refuses at once. Only `activate` makes this test. -/
def Op.OnLive (y : System) : Op → Prop
  | .mapPage i v _ _ => ∀ space, y.spaces[i]? = some space → isPrivateAddr v = true → space.rootPage.addr ≠ 0
  | .unmapPage i v => ∀ space, y.spaces[i]? = some space → isPrivateAddr v = true → space.rootPage.addr ≠ 0
  | _ => True

def LiveStep (y : System) (op : Op) (y' : System) : Prop := Step y op y' ∧ op.OnLive y

/-- The states of the system after `vmm::init`, with mapping calls on live handles. -/
def Reachable (info : BootInfo) (y : System) : Prop :=
  ∃ k ops, Vmm.init info info.kernel = some k ∧ Run LiveStep (System.start k) ops y

end VenturaOS.Machine
