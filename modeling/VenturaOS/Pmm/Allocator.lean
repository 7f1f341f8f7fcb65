import VenturaOS.Library.Bitmap
import VenturaOS.Memory.PhysicalMap

/-!
# The physical page allocator

`pmm.rs`: a bitmap of 64-bit words in which a set bit means allocated or
reserved, and counters kept beside it. Calls run with interrupts off, so each
one is a single state change.
-/
namespace VenturaOS.Pmm
open Library Memory

def maxManagedPages : ℕ := 1048576
def usizeMax : ℕ := 2 ^ 64 - 1

def saturatingAdd (a b : ℕ) : ℕ := min (a + b) usizeMax

/-- A physical page, named by its address. -/
@[ext] structure PhysPage where
  addr : U64
deriving DecidableEq, Repr

namespace PhysPage

def null : PhysPage := ⟨0⟩

def pageNumber (page : PhysPage) : ℕ := page.addr.toNat / pageSize

def fromPageNumber (num : ℕ) : PhysPage := ⟨BitVec.ofNat 64 (num * pageSize)⟩

end PhysPage

inductive PageFreeError
  | unalignedAddress
  | outOfBounds
  | doubleFree
  | reservedMemory
deriving DecidableEq, Repr

structure AllocatorStats where
  totalManagedPages : ℕ
  usablePages : ℕ
  freePages : ℕ
  usedPages : ℕ
deriving DecidableEq, Repr

/-- The allocator's two statics, `BITMAP` and `STATS`. -/
structure Allocator where
  bitmap : ℕ → U64
  stats : AllocatorStats

namespace Allocator

def total (s : Allocator) : ℕ := s.stats.totalManagedPages

def bit (s : Allocator) (i : ℕ) : Bool := Bitmap.bit s.bitmap i

/-- The managed pages whose bit is clear. -/
def freeSet (s : Allocator) : Finset ℕ := Bitmap.clearBits s.bitmap s.total

end Allocator

def highestAddr (map : PhysicalMemoryMap) : ℕ :=
  map.regions.foldl (fun highest r =>
    if r.physicalEnd.toNat > highest then r.physicalEnd.toNat else highest) 0

/-- Body of the inner loop of `init`. -/
def releasePage (s : Allocator) (pageIdx : ℕ) : Allocator :=
  if pageIdx = 0 then s
  else if pageIdx < s.total then
    { bitmap := Bitmap.clearBit s.bitmap pageIdx
      stats := { s.stats with
        freePages := s.stats.freePages + 1
        usablePages := s.stats.usablePages + 1 } }
  else s

def MemoryRegion.startPage (r : MemoryRegion) : ℕ := r.physicalStart.toNat / pageSize
def MemoryRegion.endPage (r : MemoryRegion) : ℕ := r.physicalEnd.toNat / pageSize

/-- The page indices `start_page..end_page`. -/
def MemoryRegion.pages (r : MemoryRegion) : List ℕ :=
  List.range' (startPage r) (endPage r - startPage r)

/-- Body of the outer loop of `init`. -/
def releaseRegion (s : Allocator) (r : MemoryRegion) : Allocator :=
  if r.isUsable then (MemoryRegion.pages r).foldl releasePage s else s

def managedPages (map : PhysicalMemoryMap) : ℕ :=
  if highestAddr map / pageSize > maxManagedPages then maxManagedPages else highestAddr map / pageSize

def init (map : PhysicalMemoryMap) : Allocator :=
  let reserved : Allocator :=
    { bitmap := fun _ => BitVec.allOnes 64
      stats := ⟨managedPages map, 0, 0, 0⟩ }
  let released := map.regions.foldl releaseRegion reserved
  { released with stats := { released.stats with
      usedPages := released.stats.totalManagedPages - released.stats.freePages } }

/-- The word scan of `allocate_physical_page`: `n` words left, starting at word `w`. -/
def scanWords (s : Allocator) : (n w : ℕ) → Option (ℕ × ℕ)
  | 0, _ => none
  | n + 1, w =>
    if s.bitmap w ≠ BitVec.allOnes 64 then
      let bitIdx := (~~~s.bitmap w).ctz.toNat
      if w * 64 + bitIdx < s.total then some (w, bitIdx) else scanWords s n (w + 1)
    else scanWords s n (w + 1)

def wordsToScan (s : Allocator) : ℕ := (s.total + 63) / 64

def allocatePhysicalPage (s : Allocator) : Option PhysPage × Allocator :=
  match scanWords s (wordsToScan s) 0 with
  | none => (none, s)
  | some (w, bitIdx) =>
    (some (PhysPage.fromPageNumber (w * 64 + bitIdx)),
      { bitmap := Function.update s.bitmap w (s.bitmap w ||| 1#64 <<< bitIdx)
        stats := { s.stats with
          freePages := s.stats.freePages - 1
          usedPages := saturatingAdd s.stats.usedPages 1 } })

def freePhysicalPage (page : PhysPage) (s : Allocator) : Except PageFreeError Unit × Allocator :=
  if page.addr.toNat % pageSize ≠ 0 then (.error .unalignedAddress, s)
  else if page.pageNumber = 0 then (.error .reservedMemory, s)
  else if page.pageNumber ≥ s.total then (.error .outOfBounds, s)
  else if s.bit page.pageNumber = false then (.error .doubleFree, s)
  else
    (.ok (),
      { bitmap := Bitmap.clearBit s.bitmap page.pageNumber
        stats := { s.stats with
          freePages := saturatingAdd s.stats.freePages 1
          usedPages := s.stats.usedPages - 1 } })

/-- Free bits the check counts in word `w`; the last word is masked to the managed pages. -/
def countedFree (s : Allocator) (w : ℕ) : ℕ :=
  if w = wordsToScan s - 1 ∧ s.total % 64 ≠ 0 then
    let mask := (1#64 <<< (s.total % 64)) - 1#64
    (~~~(s.bitmap w ||| ~~~mask)).cpop.toNat
  else (~~~s.bitmap w).cpop.toNat

def verifyInvariants (s : Allocator) : Except String Unit :=
  if s.stats.usedPages + s.stats.freePages ≠ s.stats.totalManagedPages then
    .error "PMM invariant failure: used_pages + free_pages != total_managed_pages"
  else if s.bitmap 0 &&& 1#64 = 0#64 then
    .error "PMM invariant failure: Page 0 is marked FREE"
  else if (List.range (wordsToScan s)).foldl (fun acc w => acc + countedFree s w) 0 ≠ s.stats.freePages then
    .error "PMM invariant failure: bitmap free bit count mismatch with stats.free_pages"
  else .ok ()

end VenturaOS.Pmm
