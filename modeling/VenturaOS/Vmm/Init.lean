import VenturaOS.Vmm.Mapping

/-!
# Bringing up virtual memory

`vmm::init`: build the kernel's tables from the static pool (the low 4 GiB
with large pages, then every region of the memory map and the device ranges),
switch to them, and preallocate the upper half of the root. A panic or a halt
is `none`.
-/
namespace VenturaOS.Vmm
open Memory Pmm Paging

/-- What the loader and firmware hand over, and where the kernel image put its table pool. -/
structure BootInfo where
  map : PhysicalMemoryMap
  lapicBase : U64
  ioapicBase : U64
  /-- Base and size of the framebuffer, if there is one. -/
  framebuffer : Option (U64 × U64)
  pool : U64
  /-- Contents of memory, seen as tables and as bytes, and CR3 as left by the loader. -/
  tables : U64 → PageTable
  bytes : ℕ → UInt8
  cr3 : U64

/-- The statics after `pmm::init`, before `vmm::init`. -/
def BootInfo.kernel (info : BootInfo) : Kernel where
  mem :=
    { tables := info.tables
      pmm := Pmm.init info.map
      bootstrapPool := info.pool
      bootstrapIndex := 0
      isBootstrapping := true
      discarded := [] }
  rootPml4 := PhysPage.null
  vmm := .new
  heap := .new
  bytes := info.bytes
  cr3 := info.cr3
  nextAsid := 1
  currentAsid := 0

def pageDown (a : U64) : U64 := a &&& ~~~0xFFF#64

/-- The values of `curr` in `while curr < stop { …; curr += PAGE_SIZE }`, both ends page aligned. -/
def pageRange (start stop : U64) : List U64 :=
  (List.range ((stop.toNat - start.toNat) / pageSize)).map fun i => start + BitVec.ofNat 64 (i * pageSize)

/-- The value of `phys_2mb` in iteration `i` of step 0. -/
def lowPageAddr (i : ℕ) : U64 := BitVec.ofNat 64 (i * 0x200000)

/-- Body of the loop of step 0; the result is ignored. -/
def mapLowPage (root : PhysPage) (s : PageMemory) (phys2mb : U64) : PageMemory :=
  (map2mbHugePage root ⟨phys2mb⟩ ⟨phys2mb⟩ PageTableFlags.table s).2

/-- Step 0: the low 4 GiB in pages of 2 MiB. -/
def mapLowMemory (root : PhysPage) (s : PageMemory) : PageMemory :=
  ((List.range 2048).map lowPageAddr).foldl (mapLowPage root) s

def regionFlags (r : MemoryRegion) : PageTableFlags :=
  match r.regionType with
  | .mmio => PageTableFlags.mmio
  | _ => PageTableFlags.table

/-- Step 1 for one region: errors are logged and skipped. -/
def mapMemoryRegion (root : PhysPage) (k : Kernel) (r : MemoryRegion) : Kernel :=
  let startPage := pageDown r.physicalStart
  let endPage := pageDown (r.physicalEnd + 0xFFF#64)
  let mem := (pageRange startPage endPage).foldl (fun s curr =>
    (mapPage root (canonicalVirt curr) ⟨curr⟩ (regionFlags r) s).2) k.mem
  let region : VirtRegion :=
    { start := canonicalVirt startPage
      sizeBytes := endPage - startPage
      permissions := match r.regionType with | .mmio => .mmio | _ => .kernelData
      purpose := match r.regionType with | .mmio => .mmio | _ => .directMappedRam
      ownsPhysicalPages := false }
  { k with mem := mem, vmm := (registerRegion region k.vmm).2 }

/-- The loop of `identity_map_mmio`; `false` when it returns early. -/
def mapMmioPages (root : PhysPage) : List U64 → PageMemory → Bool × PageMemory
  | [], s => (true, s)
  | curr :: rest, s =>
    match mapPage root ⟨curr⟩ ⟨curr⟩ PageTableFlags.mmio s with
    | (.ok (), s) => mapMmioPages root rest s
    | (.error .alreadyMapped, s) => mapMmioPages root rest s
    | (.error _, s) => (false, s)

def identityMapMmio (root : PhysPage) (physStart sizeBytes : U64) (k : Kernel) : Kernel :=
  let start := pageDown physStart
  let stop := pageDown (physStart + sizeBytes + 0xFFF#64)
  match mapMmioPages root (pageRange start stop) k.mem with
  | (false, mem) => { k with mem := mem }
  | (true, mem) =>
    let region : VirtRegion := ⟨⟨start⟩, stop - start, .mmio, .mmio, false⟩
    { k with mem := mem, vmm := (registerRegion region k.vmm).2 }

/-- Step 5: `get_or_create_table` on each upper-half slot; `none` when one fails. -/
def createKernelHalf (root : PhysPage) : List (Fin 512) → PageMemory → Option PageMemory
  | [], s => some s
  | i :: rest, s =>
    match getOrCreateTable root.addr i s with
    | (.ok _, s) => createKernelHalf root rest s
    | (.error _, _) => none

def kernelSlots : List (Fin 512) := (List.finRange 512).filter fun i => decide (kernelPml4Start ≤ i.val)

/-- Steps 1 and 2: the memory map, then the device ranges. -/
def mapBootRegions (info : BootInfo) (root : PhysPage) (k : Kernel) : Kernel :=
  let k := info.map.regions.foldl (mapMemoryRegion root) k
  let k := identityMapMmio root info.lapicBase (BitVec.ofNat 64 pageSize) k
  let k := identityMapMmio root info.ioapicBase (BitVec.ofNat 64 pageSize) k
  match info.framebuffer with
  | some (physBase, sizeBytes) => identityMapMmio root physBase sizeBytes k
  | none => k

/-- Steps 0 to 4: build the tables below the new root and switch to them. -/
def switchTables (info : BootInfo) (rootPage : PhysPage) (k : Kernel) : Kernel :=
  let k := { k with mem := mapLowMemory rootPage k.mem, rootPml4 := rootPage }
  let k := mapBootRegions info rootPage k
  { k with cr3 := rootPage.addr, mem := { k.mem with isBootstrapping := false } }

def init (info : BootInfo) (k : Kernel) : Option Kernel :=
  match allocateBootstrapTable { k.mem with isBootstrapping := true } with
  | (none, _) => none
  | (some rootPage, mem) =>
    let k := switchTables info rootPage { k with mem := mem }
    match createKernelHalf rootPage kernelSlots k.mem with
    | none => none
    | some mem => some { k with mem := mem }

/-- `shares_kernel_half`. -/
def sharesKernelHalf (root : PhysPage) (k : Kernel) : Bool :=
  kernelSlots.all fun i =>
    (k.mem.tables k.rootPml4.addr i).isPresent &&
      decide ((k.mem.tables root.addr i).physAddr = (k.mem.tables k.rootPml4.addr i).physAddr)

end VenturaOS.Vmm
