import VenturaOS.Kernel.State

/-!
# Mapping and unmapping regions

The calls that move frames between the page allocator and the kernel's page
tables. `allocate_and_map_region` and the heap's growth share their two loops,
each with its rollback, which are stated once here.
-/
namespace VenturaOS.Vmm
open Memory Pmm Paging

/-- The first `n` pages from `start`. -/
def pagesFrom (start : U64) (n : ℕ) : List VirtAddr :=
  (List.range n).map fun i => ⟨start + BitVec.ofNat 64 (i * pageSize)⟩

/-- Take `n` more frames; when one is refused, give back those already taken. -/
def allocateFrames : (n : ℕ) → (frames : List PhysPage) → PageMemory → Option (List PhysPage) × PageMemory
  | 0, frames, s => (some frames, s)
  | n + 1, frames, s =>
    match allocatePage s with
    | (some p, s) => allocateFrames n (frames ++ [p]) s
    | (none, s) => (none, frames.foldl discardFree s)

/-- `let _ = unmap_page(root, virt)` for each page. -/
def unmapPages (root : PhysPage) (pages : List VirtAddr) (s : PageMemory) : PageMemory :=
  pages.foldl (fun s v => (unmapPage root v s).2) s

/-- Map each page to its frame; when one is refused, unmap those already mapped. -/
def mapPages (root : PhysPage) (flags : PageTableFlags) :
    (mapped : List VirtAddr) → (todo : List (VirtAddr × PhysPage)) → PageMemory → Bool × PageMemory
  | _, [], s => (true, s)
  | mapped, (virt, phys) :: todo, s =>
    match mapPage root virt phys flags s with
    | (.ok (), s) => mapPages root flags (mapped ++ [virt]) todo s
    | (.error _, s) => (false, unmapPages root mapped s)

def mapRegion (region : VirtRegion) (physicalPages : List PhysPage) (k : Kernel) : Except VmmError Unit × Kernel :=
  if physicalPages.length < region.pageCount then (.error .physicalAllocationFailed, k)
  else
    match mapPages k.rootPml4 region.permissions.toPageFlags []
        ((pagesFrom region.start.addr region.pageCount).zip physicalPages) k.mem with
    | (true, mem) => (.ok (), { k with mem := mem })
    | (false, mem) => (.error .pageTableMappingFailed, { k with mem := mem })

/-- The most frames one call asks for (the size of its frame array). -/
def maxFrames : ℕ := 128

def allocateAndMapRegion (sizeBytes : U64) (permissions : VirtPermissions) (purpose : RegionPurpose)
    (k : Kernel) : Except VmmError VirtRegion × Kernel :=
  match reserveVirtualRegion sizeBytes permissions purpose k.vmm with
  | (.error e, vmm) => (.error e, { k with vmm := vmm })
  | (.ok reserved, vmm) =>
    let region := { reserved with ownsPhysicalPages := true }
    let pageCount := sizeBytes.toNat / pageSize
    if pageCount > maxFrames then (.error .physicalAllocationFailed, { k with vmm := vmm })
    else
      match allocateFrames pageCount [] k.mem with
      | (none, mem) => (.error .physicalAllocationFailed, { k with vmm := vmm, mem := mem })
      | (some frames, mem) =>
        match mapPages k.rootPml4 permissions.toPageFlags []
            ((pagesFrom region.start.addr pageCount).zip frames) mem with
        | (true, mem) => (.ok region, { k with vmm := vmm, mem := mem })
        | (false, mem) =>
          (.error .pageTableMappingFailed,
            { k with vmm := (unregisterRegion region.start vmm).2, mem := frames.foldl discardFree mem })

/-- Body of the loop of `unmap_region`. -/
def unmapOne (root : PhysPage) (ownsPhysicalPages : Bool) (s : PageMemory) (v : VirtAddr) : PageMemory :=
  match unmapPage root v s with
  | (.ok unmappedPhys, s) => if ownsPhysicalPages then discardFree s unmappedPhys else s
  | (.error _, s) => s

def unmapRegion (region : VirtRegion) (k : Kernel) : Except VmmError Unit × Kernel :=
  let mem := (pagesFrom region.start.addr region.pageCount).foldl
    (unmapOne k.rootPml4 region.ownsPhysicalPages) k.mem
  let result := unregisterRegion region.start k.vmm
  (result.1, { k with mem := mem, vmm := result.2 })

end VenturaOS.Vmm
