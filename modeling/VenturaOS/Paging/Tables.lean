import VenturaOS.Paging.Address

/-!
# Four-level page tables in memory

`vmm.rs` reads and writes tables through their physical addresses, which the
kernel maps one to one. The state holds that memory, the page allocator the
tables come from, and the static pool used while booting. Results of
`free_physical_page` that the code ignores are appended to a log.
-/
namespace VenturaOS.Paging
open Memory Pmm

inductive MapError
  | nonCanonicalAddress
  | unalignedVirtualAddress
  | unalignedPhysicalAddress
  | frameAllocationFailed
  | alreadyMapped
deriving DecidableEq, Repr

inductive UnmapError
  | nonCanonicalAddress
  | unalignedVirtualAddress
  | notMapped
  | parentTableMissing
deriving DecidableEq, Repr

abbrev PageTable := Fin 512 → PageTableEntry

def PageTable.zero : PageTable := fun _ => PageTableEntry.empty

structure PageMemory where
  tables : U64 → PageTable
  pmm : Allocator
  bootstrapPool : U64
  bootstrapIndex : ℕ
  isBootstrapping : Bool
  discarded : List (Except PageFreeError Unit)

def bootstrapTableCount : ℕ := 512

namespace PageMemory

/-- Address of table `n` of the static pool. -/
def poolTable (s : PageMemory) (n : ℕ) : U64 := s.bootstrapPool + BitVec.ofNat 64 (n * 4096)

def writeTable (s : PageMemory) (a : U64) (t : PageTable) : PageMemory :=
  { s with tables := Function.update s.tables a t }

def writeEntry (s : PageMemory) (a : U64) (i : Fin 512) (e : PageTableEntry) : PageMemory :=
  s.writeTable a (Function.update (s.tables a) i e)

end PageMemory

def allocatePage (s : PageMemory) : Option PhysPage × PageMemory :=
  let result := allocatePhysicalPage s.pmm
  (result.1, { s with pmm := result.2 })

def freePage (page : PhysPage) (s : PageMemory) : Except PageFreeError Unit × PageMemory :=
  let result := freePhysicalPage page s.pmm
  (result.1, { s with pmm := result.2 })

/-- `let _ = pmm::free_physical_page(page)`. -/
def discardFree (s : PageMemory) (page : PhysPage) : PageMemory :=
  let result := freePage page s
  { result.2 with discarded := result.2.discarded ++ [result.1] }

def allocateBootstrapTable (s : PageMemory) : Option PhysPage × PageMemory :=
  if s.bootstrapIndex ≥ bootstrapTableCount then (none, s)
  else
    let table := s.poolTable s.bootstrapIndex
    (some ⟨table⟩, { s with bootstrapIndex := s.bootstrapIndex + 1 }.writeTable table .zero)

/-- The frame for a new table: from the pool while booting, else from the page allocator. -/
def newTableFrame (s : PageMemory) : Option PhysPage × PageMemory :=
  if s.isBootstrapping then allocateBootstrapTable s else allocatePage s

/-- `get_or_create_table` on entry `i` of the table at `a`. -/
def getOrCreateTable (a : U64) (i : Fin 512) (s : PageMemory) : Except MapError U64 × PageMemory :=
  let entry := s.tables a i
  if entry.isPresent then
    if entry.isHuge then (.error .alreadyMapped, s) else (.ok entry.physAddr, s)
  else
    match newTableFrame s with
    | (none, s) => (.error .frameAllocationFailed, s)
    | (some frame, s) =>
      (.ok frame.addr,
        (s.writeTable frame.addr .zero).writeEntry a i (.set frame.addr PageTableFlags.table))

def mapPage (rootPml4Phys : PhysPage) (virtAddr : VirtAddr) (physAddr : PhysPage)
    (flags : PageTableFlags) (s : PageMemory) : Except MapError Unit × PageMemory :=
  if !isCanonical virtAddr.addr then (.error .nonCanonicalAddress, s)
  else if !virtAddr.isAligned then (.error .unalignedVirtualAddress, s)
  else if physAddr.addr.toNat % pageSize ≠ 0 then (.error .unalignedPhysicalAddress, s)
  else
    match getOrCreateTable rootPml4Phys.addr virtAddr.pml4Index s with
    | (.error e, s) => (.error e, s)
    | (.ok pdpt, s) =>
      match getOrCreateTable pdpt virtAddr.pdptIndex s with
      | (.error e, s) => (.error e, s)
      | (.ok pd, s) =>
        match getOrCreateTable pd virtAddr.pdIndex s with
        | (.error e, s) => (.error e, s)
        | (.ok pt, s) =>
          if (s.tables pt virtAddr.ptIndex).isPresent then (.error .alreadyMapped, s)
          else (.ok (), s.writeEntry pt virtAddr.ptIndex (.set physAddr.addr flags))

def map2mbHugePage (rootPml4Phys : PhysPage) (virtAddr : VirtAddr) (physAddr : PhysPage)
    (flags : PageTableFlags) (s : PageMemory) : Except MapError Unit × PageMemory :=
  if !isCanonical virtAddr.addr then (.error .nonCanonicalAddress, s)
  else
    match getOrCreateTable rootPml4Phys.addr virtAddr.pml4Index s with
    | (.error e, s) => (.error e, s)
    | (.ok pdpt, s) =>
      match getOrCreateTable pdpt virtAddr.pdptIndex s with
      | (.error e, s) => (.error e, s)
      | (.ok pd, s) =>
        (.ok (), s.writeEntry pd virtAddr.pdIndex
          (.set (physAddr.addr &&& ~~~0x1FFFFF#64) (flags.union PageTableFlags.hugePage)))

def unmapPage (rootPml4Phys : PhysPage) (virtAddr : VirtAddr) (s : PageMemory) :
    Except UnmapError PhysPage × PageMemory :=
  if !isCanonical virtAddr.addr then (.error .nonCanonicalAddress, s)
  else if !virtAddr.isAligned then (.error .unalignedVirtualAddress, s)
  else
    let pml4Entry := s.tables rootPml4Phys.addr virtAddr.pml4Index
    if !pml4Entry.isPresent then (.error .parentTableMissing, s)
    else
      let pdptEntry := s.tables pml4Entry.physAddr virtAddr.pdptIndex
      if !pdptEntry.isPresent then (.error .parentTableMissing, s)
      else
        let pdEntry := s.tables pdptEntry.physAddr virtAddr.pdIndex
        if !pdEntry.isPresent then (.error .parentTableMissing, s)
        else
          let ptEntry := s.tables pdEntry.physAddr virtAddr.ptIndex
          if !ptEntry.isPresent then (.error .notMapped, s)
          else (.ok ⟨ptEntry.physAddr⟩, s.writeEntry pdEntry.physAddr virtAddr.ptIndex .empty)

def translate (tables : U64 → PageTable) (rootPml4Phys : PhysPage) (virtAddr : VirtAddr) :
    Option (PhysPage × PageTableFlags) :=
  if !isCanonical virtAddr.addr then none
  else
    let pml4Entry := tables rootPml4Phys.addr virtAddr.pml4Index
    if !pml4Entry.isPresent then none
    else
      let pdptEntry := tables pml4Entry.physAddr virtAddr.pdptIndex
      if !pdptEntry.isPresent then none
      else
        let pdEntry := tables pdptEntry.physAddr virtAddr.pdIndex
        if !pdEntry.isPresent then none
        else
          let ptEntry := tables pdEntry.physAddr virtAddr.ptIndex
          if !ptEntry.isPresent then none
          else some (⟨ptEntry.physAddr + virtAddr.pageOffset⟩, ptEntry.flags)

/-- Create or follow the tables along a list of indices; the common part of the mapping calls. -/
def walkCreate : U64 → List (Fin 512) → PageMemory → Except MapError U64 × PageMemory
  | a, [], s => (.ok a, s)
  | a, i :: is, s =>
    match getOrCreateTable a i s with
    | (.error e, s) => (.error e, s)
    | (.ok b, s) => walkCreate b is s

theorem mapPage_eq (root : PhysPage) (v : VirtAddr) (phys : PhysPage) (flags : PageTableFlags) (s : PageMemory)
    (hc : isCanonical v.addr = true) (ha : v.isAligned = true) (hp : phys.addr.toNat % pageSize = 0) :
    mapPage root v phys flags s =
      match walkCreate root.addr v.tablePath s with
      | (.error e, s) => (.error e, s)
      | (.ok pt, s) =>
        if (s.tables pt v.ptIndex).isPresent then (.error .alreadyMapped, s)
        else (.ok (), s.writeEntry pt v.ptIndex (.set phys.addr flags)) := by
  rw [mapPage, if_neg (by simp [hc]), if_neg (by simp [ha]), if_neg (by simp [hp]), VirtAddr.tablePath]
  simp only [walkCreate]
  rcases getOrCreateTable root.addr v.pml4Index s with ⟨e | pdpt, s₁⟩
  · rfl
  · simp only
    rcases getOrCreateTable pdpt v.pdptIndex s₁ with ⟨e | pd, s₂⟩
    · rfl
    · simp only
      rcases getOrCreateTable pd v.pdIndex s₂ with ⟨e | pt, s₃⟩
      · rfl
      · rfl

theorem map2mbHugePage_eq (root : PhysPage) (v : VirtAddr) (phys : PhysPage) (flags : PageTableFlags)
    (s : PageMemory) (hc : isCanonical v.addr = true) :
    map2mbHugePage root v phys flags s =
      match walkCreate root.addr [v.pml4Index, v.pdptIndex] s with
      | (.error e, s) => (.error e, s)
      | (.ok pd, s) => (.ok (), s.writeEntry pd v.pdIndex
          (.set (phys.addr &&& ~~~0x1FFFFF#64) (flags.union PageTableFlags.hugePage))) := by
  rw [map2mbHugePage, if_neg (by simp [hc])]
  simp only [walkCreate]
  rcases getOrCreateTable root.addr v.pml4Index s with ⟨e | pdpt, s₁⟩
  · rfl
  · simp only
    rcases getOrCreateTable pdpt v.pdptIndex s₁ with ⟨e | pd, s₂⟩
    · rfl
    · rfl

/-- A call refused by its argument checks changes nothing. -/
theorem mapPage_refused (root : PhysPage) {v : VirtAddr} {phys : PhysPage} (flags : PageTableFlags) (s : PageMemory)
    (h : ¬(isCanonical v.addr = true ∧ v.isAligned = true ∧ phys.addr.toNat % pageSize = 0)) :
    ∃ e, mapPage root v phys flags s = (.error e, s) := by
  unfold mapPage
  by_cases hc : isCanonical v.addr = true
  · by_cases ha : v.isAligned = true
    · have hp : phys.addr.toNat % pageSize ≠ 0 := fun hp => h ⟨hc, ha, hp⟩
      exact ⟨.unalignedPhysicalAddress, by simp [hc, ha, hp]⟩
    · exact ⟨.unalignedVirtualAddress, by simp [hc, ha]⟩
  · exact ⟨.nonCanonicalAddress, by simp [hc]⟩

end VenturaOS.Paging
