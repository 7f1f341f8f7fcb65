import VenturaOS.Library.Cache
import VenturaOS.Machine.State
import VenturaOS.Paging.Hardware

/-!
# The translation look-aside buffer

The processor keeps what its walks have read, page by page, and may use it
until `invlpg` names the page or CR3 is written. Global pages and process
contexts are off: nothing in the source turns them on. Each call is taken
apart into its writes to the tables, in order, with what it drops at each.
-/
namespace VenturaOS.Tlb
open Library Memory Pmm Paging Vmm AddressSpaces Machine

/-- What the walks depend on. -/
structure Moment where
  tables : U64 → PageTable
  cr3 : U64

/-- The entries a walk reads for a page, from the root in CR3. -/
def Moment.entries (m : Moment) (page : Path) : Option (List PageTableEntry) :=
  if page.length = 4 then reach m.tables m.cr3 page else none

def moment (k : Kernel) : Moment := ⟨k.mem.tables, k.cr3⟩

/-- What was read for a page. -/
abbrev Buffer := Set (Path × List PageTableEntry)

/-- The physical address of `v` with the entries that allow the access. -/
def translation (v : VirtAddr) (entries : List PageTableEntry) : Option (U64 × List PageTableEntry) :=
  (readAddress v entries).map fun a => (a, entries)

/-- An access through the buffer: a hit, or a walk. -/
inductive Access (tlb : Buffer) (m : Moment) (v : VirtAddr) : Option (U64 × List PageTableEntry) → Prop
  | noncanonical : isCanonical v.addr = false → Access tlb m v none
  | hit {entries : List PageTableEntry} : isCanonical v.addr = true → (v.path, entries) ∈ tlb →
      Access tlb m v (translation v entries)
  | walk : isCanonical v.addr = true → Access tlb m v ((m.entries v.path).bind (translation v))

/-- Pages dropped by a write, and the memory behind it. -/
abbrev Write := Set Path × PageMemory

/-- All the changes of a call, while CR3 stays. -/
def under (cr3 : U64) (writes : List Write) : List (Change Path (List PageTableEntry)) :=
  writes.map fun w => (w.1, (Moment.mk w.2.tables cr3).entries)

/-- `get_or_create_table`: a new table is cleared before an entry leads to it. -/
def tableWrites (a : U64) (i : Fin 512) (s : PageMemory) : List Write :=
  if (s.tables a i).isPresent then []
  else
    match newTableFrame s with
    | (none, _) => []
    | (some frame, s) =>
      let cleared := s.writeTable frame.addr .zero
      [(∅, cleared), (∅, cleared.writeEntry a i (.set frame.addr PageTableFlags.table))]

/-- The tables on the way down. -/
def walkWrites : U64 → Path → PageMemory → List Write
  | _, [], _ => []
  | a, i :: is, s =>
    tableWrites a i s ++
      match getOrCreateTable a i s with
      | (.error _, _) => []
      | (.ok b, s) => walkWrites b is s

/-- `map_page`: the tables, entry by entry, and with the new leaf an `invlpg`. -/
def mapWrites (root : PhysPage) (v : VirtAddr) (phys : PhysPage) (flags : PageTableFlags) (s : PageMemory) : List Write :=
  if isCanonical v.addr ∧ v.isAligned ∧ phys.addr.toNat % pageSize = 0 then
    walkWrites root.addr v.tablePath s ++
      match Paging.mapPage root v phys flags s with
      | (.ok (), s) => [({v.path}, s)]
      | (.error _, _) => []
  else []

/-- `unmap_page`: with a cleared leaf goes an `invlpg`. -/
def unmapWrite (root : PhysPage) (v : VirtAddr) (s : PageMemory) : Write :=
  match Paging.unmapPage root v s with
  | (.ok _, s) => ({v.path}, s)
  | (.error _, s) => (∅, s)

def unmapPagesWrites (root : PhysPage) : List VirtAddr → PageMemory → List Write
  | [], _ => []
  | v :: vs, s => unmapWrite root v s :: unmapPagesWrites root vs (Paging.unmapPage root v s).2

/-- The mapping loop, with its rollback. -/
def mapPagesWrites (root : PhysPage) (flags : PageTableFlags) :
    (mapped : List VirtAddr) → (todo : List (VirtAddr × PhysPage)) → PageMemory → List Write
  | _, [], _ => []
  | mapped, (virt, phys) :: todo, s =>
    mapWrites root virt phys flags s ++
      match Paging.mapPage root virt phys flags s with
      | (.ok (), s) => mapPagesWrites root flags (mapped ++ [virt]) todo s
      | (.error _, s) => unmapPagesWrites root mapped s

/-- Frames are taken and mapped from `start` on. -/
def takeAndMapWrites (root : PhysPage) (flags : PageTableFlags) (start : U64) (pages : ℕ) (s : PageMemory) : List Write :=
  match allocateFrames pages [] s with
  | (none, _) => []
  | (some frames, s) => mapPagesWrites root flags [] ((pagesFrom start pages).zip frames) s

def allocateAndMapWrites (sizeBytes : U64) (permissions : VirtPermissions) (purpose : RegionPurpose) (k : Kernel) :
    List Write :=
  match reserveVirtualRegion sizeBytes permissions purpose k.vmm with
  | (.error _, _) => []
  | (.ok reserved, _) =>
    if sizeBytes.toNat / pageSize > maxFrames then []
    else takeAndMapWrites k.rootPml4 permissions.toPageFlags reserved.start.addr (sizeBytes.toNat / pageSize) k.mem

def unmapRegionWrites (root : PhysPage) (ownsPhysicalPages : Bool) : List VirtAddr → PageMemory → List Write
  | [], _ => []
  | v :: vs, s => unmapWrite root v s :: unmapRegionWrites root ownsPhysicalPages vs (unmapOne root ownsPhysicalPages s v)

def expandHeapWrites (neededBytes : ℕ) (k : Kernel) : List Write :=
  let pages := Heap.pagesToAlloc neededBytes
  if pages > maxFrames then []
  else takeAndMapWrites k.rootPml4 VirtPermissions.kernelData.toPageFlags (BitVec.ofNat 64 k.heap.currentEnd) pages k.mem

def allocateWrites (layout : Heap.Layout) (k : Kernel) : List Write :=
  if layout.size = 0 ∨ !k.heap.initialized then []
  else
    match Heap.findFit true k.bytes layout.requestedSize (Heap.walkLimit k.heap) k.heap.head with
    | some .exhausted => expandHeapWrites layout.requestedSize k
    | _ => []

def heapInitWrites (k : Kernel) : List Write :=
  if k.heap.initialized then []
  else allocateAndMapWrites (BitVec.ofNat 64 Heap.initialBytes) VirtPermissions.kernelData .dynamicKernel k

/-- `AddressSpace::new` clears the new root and copies the shared slots; nothing leads to it yet. -/
def newWrites (k : Kernel) : List Write :=
  match allocatePage k.mem with
  | (none, _) => []
  | (some rootPage, mem) => [(∅, mem.writeTable rootPage.addr .zero), (∅, (AddressSpaces.new k).2.mem)]

/-- `activate` writes CR3 if it has to, which drops everything. -/
def activateChanges (space : AddressSpace) (k : Kernel) : List (Change Path (List PageTableEntry)) :=
  if space.rootPage.addr = 0 ∨ k.cr3 = space.rootPage.addr then [] else [(Set.univ, (moment (activate space k)).entries)]

/-- The loop of `free_private_tables`, which drops nothing. -/
def freeSlotsWrites (root : U64) : List (Fin 512) → Teardown → List Write
  | [], _ => []
  | i :: is, acc => (∅, (freeSlot root acc i).mem) :: freeSlotsWrites root is (freeSlot root acc i)

def destroyChanges (space : AddressSpace) (k : Kernel) : List (Change Path (List PageTableEntry)) :=
  if !space.ownsRoot || space.rootPage.addr = 0 then []
  else
    let active := k.cr3 &&& ~~~0xFFF#64 = space.rootPage.addr
    let k' := if active then activate (bootstrap k) k else k
    (if active then activateChanges (bootstrap k) k else []) ++
      under k'.cr3 (freeSlotsWrites space.rootPage.addr privateSlots ⟨k.mem, 0, 0⟩)

def onSpace (y : System) (i : ℕ) (v : VirtAddr) (writes : AddressSpace → List Write) : List Write :=
  match y.spaces[i]? with
  | some space => if isPrivateAddr v then writes space else []
  | none => []

/-- The changes of a call, in their order. -/
def changes (y : System) (op : Op) (_after : System) : List (Change Path (List PageTableEntry)) :=
  match op with
  | .heapInit => under y.kernel.cr3 (heapInitWrites y.kernel)
  | .heapExpand n => under y.kernel.cr3 (expandHeapWrites n y.kernel)
  | .heapAllocate layout => under y.kernel.cr3 (allocateWrites layout y.kernel)
  | .mapRegion size permissions purpose => under y.kernel.cr3 (allocateAndMapWrites size permissions purpose y.kernel)
  | .unmapRegion region =>
    under y.kernel.cr3 (unmapRegionWrites y.kernel.rootPml4 region.ownsPhysicalPages
      (pagesFrom region.start.addr region.pageCount) y.kernel.mem)
  | .newSpace => under y.kernel.cr3 (newWrites y.kernel)
  | .activate i =>
    match y.spaces[i]? with
    | some space => activateChanges space y.kernel
    | none => []
  | .mapPage i v phys flags =>
    under y.kernel.cr3 (onSpace y i v fun space => mapWrites space.rootPage v phys flags y.kernel.mem)
  | .unmapPage i v => under y.kernel.cr3 (onSpace y i v fun space => [unmapWrite space.rootPage v y.kernel.mem])
  | .destroy i =>
    match y.spaces[i]? with
    | some space => destroyChanges space y.kernel
    | none => []
  | _ => []

end VenturaOS.Tlb
