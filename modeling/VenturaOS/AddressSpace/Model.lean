import VenturaOS.Vmm.Mapping

/-!
# Address spaces

`address_space.rs`: a root table of its own whose slot 0 and upper half are
copies of the kernel root's entries. Teardown walks the private slots and
frees every table below them, then the root; leaf frames belong to whoever
mapped them.
-/
namespace VenturaOS.AddressSpaces
open Memory Pmm Paging Vmm

inductive AddressSpaceError
  | rootPageAllocationFailed
  | mappingFailed (e : MapError)
  | unmappingFailed (e : UnmapError)
  | invalidVirtualAddress
deriving DecidableEq, Repr

structure AddressSpace where
  id : ℕ
  rootPage : PhysPage
  ownsRoot : Bool
deriving DecidableEq, Repr

def bootstrap (k : Kernel) : AddressSpace := ⟨0, k.rootPml4, false⟩

/-- Slots 0 and 256 to 511 are shared with every address space. -/
def isShared (i : Fin 512) : Bool := i = 0 || decide (kernelPml4Start ≤ i.val)

def new (k : Kernel) : Except AddressSpaceError AddressSpace × Kernel :=
  match allocatePage k.mem with
  | (none, mem) => (.error .rootPageAllocationFailed, { k with mem := mem })
  | (some rootPage, mem) =>
    let mem := mem.writeTable rootPage.addr .zero
    let kernelPml4 := mem.tables k.rootPml4.addr
    let copied : PageTable := fun i => if isShared i then kernelPml4 i else mem.tables rootPage.addr i
    (.ok ⟨k.nextAsid, rootPage, true⟩,
      { k with mem := mem.writeTable rootPage.addr copied, nextAsid := k.nextAsid + 1 })

def activate (space : AddressSpace) (k : Kernel) : Kernel :=
  if space.rootPage.addr = 0 then k
  else { k with cr3 := space.rootPage.addr, currentAsid := space.id }

def isPrivateAddr (v : VirtAddr) : Bool :=
  v.pml4Index ≠ 0 && decide (v.pml4Index.val < kernelPml4Start)

def mapPage (space : AddressSpace) (v : VirtAddr) (phys : PhysPage) (flags : PageTableFlags) (k : Kernel) :
    Except AddressSpaceError Unit × Kernel :=
  if !isPrivateAddr v then (.error .invalidVirtualAddress, k)
  else
    match Paging.mapPage space.rootPage v phys flags k.mem with
    | (.ok (), mem) => (.ok (), { k with mem := mem })
    | (.error e, mem) => (.error (.mappingFailed e), { k with mem := mem })

def unmapPage (space : AddressSpace) (v : VirtAddr) (k : Kernel) : Except AddressSpaceError PhysPage × Kernel :=
  if !isPrivateAddr v then (.error .invalidVirtualAddress, k)
  else
    match Paging.unmapPage space.rootPage v k.mem with
    | (.ok page, mem) => (.ok page, { k with mem := mem })
    | (.error e, mem) => (.error (.unmappingFailed e), { k with mem := mem })

/-- Memory with the two counts that teardown reports. -/
structure Teardown where
  mem : PageMemory
  freed : ℕ
  leaves : ℕ

def isTable (e : PageTableEntry) : Bool := e.isPresent && !e.isHuge

def countPresent (t : PageTable) : ℕ := ((List.finRange 512).filter fun i => (t i).isPresent).length

/-- Free a table, counting it. -/
def Teardown.freeTable (acc : Teardown) (table : U64) : Teardown :=
  { acc with mem := discardFree acc.mem ⟨table⟩, freed := acc.freed + 1 }

/-- Innermost loop body: one entry of a page directory. -/
def freePdEntry (pd : U64) (acc : Teardown) (i : Fin 512) : Teardown :=
  let e := acc.mem.tables pd i
  if !isTable e then { acc with leaves := acc.leaves + e.isPresent.toNat }
  else { acc with leaves := acc.leaves + countPresent (acc.mem.tables e.physAddr) }.freeTable e.physAddr

/-- Middle loop body: one entry of a page-directory-pointer table. -/
def freePdptEntry (pdpt : U64) (acc : Teardown) (i : Fin 512) : Teardown :=
  let e := acc.mem.tables pdpt i
  if !isTable e then { acc with leaves := acc.leaves + e.isPresent.toNat }
  else ((List.finRange 512).foldl (freePdEntry e.physAddr) acc).freeTable e.physAddr

/-- Outer loop body: one private slot of the root, which is cleared in the end. -/
def freeSlot (root : U64) (acc : Teardown) (i : Fin 512) : Teardown :=
  let e := acc.mem.tables root i
  if !e.isPresent then acc
  else
    let acc := ((List.finRange 512).foldl (freePdptEntry e.physAddr) acc).freeTable e.physAddr
    { acc with mem := acc.mem.writeEntry root i .empty }

/-- The slots `1..KERNEL_PML4_START`. -/
def privateSlots : List (Fin 512) := (List.finRange 512).filter fun i => !isShared i

def freePrivateTables (root : PhysPage) (mem : PageMemory) : Teardown :=
  privateSlots.foldl (freeSlot root.addr) ⟨mem, 0, 0⟩

def destroy (space : AddressSpace) (k : Kernel) : AddressSpace × Kernel :=
  if !space.ownsRoot || space.rootPage.addr = 0 then (space, k)
  else
    -- switch away before freeing the active page tables
    let k := if k.cr3 &&& ~~~0xFFF#64 = space.rootPage.addr then activate (bootstrap k) k else k
    let mem := discardFree (freePrivateTables space.rootPage k.mem).mem space.rootPage
    ({ space with rootPage := PhysPage.null, ownsRoot := false }, { k with mem := mem })

end VenturaOS.AddressSpaces
