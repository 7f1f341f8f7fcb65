import VenturaOS.Library.ByteMemory
import VenturaOS.Vmm.Mapping

/-!
# The kernel heap

`heap.rs` over its bytes: block headers lie in the same memory as the
payloads, 32 bytes each, and are linked both ways. A walk along the list that
takes more steps than the heap has room for blocks does not end; it is `none`.
-/
namespace VenturaOS.Heap
open Library Memory Pmm Paging Vmm

def heapMagic : ℕ := 0x56454E54
def heapInitialPages : ℕ := 32
def heapGrowthStepPages : ℕ := 16
def minBlockPayload : ℕ := 16
def headerSize : ℕ := 32

section Header

variable (m : Bytes) (block : ℕ)

def magic : ℕ := m.read block 4
def isFree : Bool := m.read (block + 4) 1 ≠ 0
def size : ℕ := m.read (block + 8) 8
def prev : ℕ := m.read (block + 16) 8
def next : ℕ := m.read (block + 24) 8

def setMagic : Bytes := m.write block 4 heapMagic
def setFree (free : Bool) : Bytes := m.write (block + 4) 1 free.toNat
def setSize (size : ℕ) : Bytes := m.write (block + 8) 8 size
def setPrev (prev : ℕ) : Bytes := m.write (block + 16) 8 prev
def setNext (next : ℕ) : Bytes := m.write (block + 24) 8 next

def payloadPtr : ℕ := block + headerSize

/-- Write all five fields of a header, in the order of the source. -/
def writeHeader (size prev next : ℕ) : Bytes :=
  setNext (setPrev (setSize (setFree (setMagic m block) block true) block size) block prev) block next

end Header

/-- `core::alloc::Layout` with the guarantees its constructor checks. -/
structure Layout where
  size : ℕ
  align : ℕ
  powerOfTwo : ∃ n, align = 2 ^ n
  fits : (size + align - 1) / align * align < 2 ^ 63

/-- `(layout.size() + 15) & !15`. -/
def Layout.requestedSize (layout : Layout) : ℕ := (layout.size + 15) / 16 * 16

/-- No more blocks than this fit between `start` and `current_end`. -/
def walkLimit (h : HeapState) : ℕ := (h.currentEnd - h.start) / headerSize + 1

inductive Scan
  | found (block : ℕ)
  | exhausted
  | corrupted
deriving DecidableEq, Repr

/-- First block that is free and large enough. Only the first of the two scans checks the magic. -/
def findFit (checkMagic : Bool) (m : Bytes) (requested : ℕ) : (fuel curr : ℕ) → Option Scan
  | _, 0 => some .exhausted
  | 0, _ + 1 => none
  | fuel + 1, curr@(_ + 1) =>
    if checkMagic && magic m curr ≠ heapMagic then some .corrupted
    else if isFree m curr && requested ≤ size m curr then some (.found curr)
    else findFit checkMagic m requested fuel (next m curr)

/-- Cut a block to `requested` bytes; the rest becomes a free block behind it. -/
def splitBlock (m : Bytes) (curr requested : ℕ) : Bytes :=
  let remaining := size m curr - requested
  let nextBlock := curr + headerSize + requested
  let m := writeHeader m nextBlock (remaining - headerSize) curr (next m curr)
  let m := if next m curr ≠ 0 then setPrev m (next m curr) nextBlock else m
  setSize (setNext m curr nextBlock) curr requested

/-- Hand out a free block, splitting it when the rest can hold a block; gives its payload pointer. -/
def takeBlock (curr requested : ℕ) (k : Kernel) : ℕ × Kernel :=
  let split := size k.bytes curr - requested ≥ headerSize + minBlockPayload
  let m := if split then splitBlock k.bytes curr requested else k.bytes
  let freeBytes := if split then k.heap.stats.freeBytes - headerSize else k.heap.stats.freeBytes
  let stats := { k.heap.stats with
    freeBytes := freeBytes - size m curr
    allocatedBytes := k.heap.stats.allocatedBytes + size m curr
    allocationCount := k.heap.stats.allocationCount + 1 }
  (payloadPtr curr, { k with bytes := setFree m curr false, heap := { k.heap with stats := stats } })

/-- The block whose `next` is null, from `curr` on. -/
def lastBlock (m : Bytes) : (fuel curr : ℕ) → Option ℕ
  | 0, _ => none
  | fuel + 1, curr => if next m curr = 0 then some curr else lastBlock m fuel (next m curr)

/-- Put the new block behind the last one, merging the two when they touch and the last is free.
Tells whether they merged. -/
def appendBlock (m : Bytes) (last newBlock : ℕ) : Bool × Bytes :=
  let m := setPrev (setNext m last newBlock) newBlock last
  if isFree m last ∧ last + headerSize + size m last = newBlock then
    let m := setSize m last (size m last + (headerSize + size m newBlock))
    let m := setNext m last (next m newBlock)
    (true, if next m newBlock ≠ 0 then setPrev m (next m newBlock) last else m)
  else (false, m)

/-- The last part of `expand_heap`, once the pages from `current_end` on are mapped. -/
def registerPages (pages : ℕ) (k : Kernel) : Option Kernel :=
  let expandBytes := pages * pageSize
  let newBlock := k.heap.currentEnd
  let newEnd := (newBlock + expandBytes) % 2 ^ 64
  let newPayload := expandBytes - headerSize
  let m := writeHeader k.bytes newBlock newPayload 0 0
  let appended := if k.heap.head = 0 then some (newBlock, false, m)
    else (lastBlock m (walkLimit k.heap) k.heap.head).map fun last =>
      (k.heap.head, appendBlock m last newBlock)
  appended.map fun (head, coalesced, m) =>
    let stats := { k.heap.stats with
      totalBytes := k.heap.stats.totalBytes + expandBytes
      freeBytes := k.heap.stats.freeBytes + (if coalesced then newPayload + headerSize else newPayload)
      expansionCount := k.heap.stats.expansionCount + 1 }
    { k with
      bytes := m
      heap := { k.heap with head := head, currentEnd := newEnd, stats := stats }
      vmm := advanceDynamicCursor (BitVec.ofNat 64 newEnd) k.vmm }

/-- How many pages `expand_heap` asks for. -/
def pagesToAlloc (neededBytes : ℕ) : ℕ :=
  let pagesNeeded := (neededBytes + headerSize + pageSize - 1) / pageSize
  if pagesNeeded > heapGrowthStepPages then pagesNeeded else heapGrowthStepPages

/-- The two loops of `expand_heap`: take frames for the new pages and map them, or undo it all. -/
def mapFresh (root : PhysPage) (flags : PageTableFlags) (start : U64) (pages : ℕ) (s : PageMemory) :
    Bool × PageMemory :=
  match allocateFrames pages [] s with
  | (none, s) => (false, s)
  | (some frames, s) =>
    match mapPages root flags [] ((pagesFrom start pages).zip frames) s with
    | (true, s) => (true, s)
    | (false, s) => (false, frames.foldl discardFree s)

def expandHeap (neededBytes : ℕ) (k : Kernel) : Option (Bool × Kernel) :=
  let pages := pagesToAlloc neededBytes
  if pages > maxFrames then some (false, k)
  else
    match mapFresh k.rootPml4 VirtPermissions.kernelData.toPageFlags (BitVec.ofNat 64 k.heap.currentEnd) pages k.mem with
    | (false, mem) => some (false, { k with mem := mem })
    | (true, mem) => (registerPages pages { k with mem := mem }).map fun k => (true, k)

/-- Scan the list once more after a successful growth. -/
def retry (requested : ℕ) (k : Kernel) : Option (ℕ × Kernel) :=
  (findFit false k.bytes requested (walkLimit k.heap) k.heap.head).map fun scan =>
    match scan with
    | .found block => takeBlock block requested k
    | _ => (0, k)

def allocate (layout : Layout) (k : Kernel) : Option (ℕ × Kernel) :=
  if layout.size = 0 then some (1, k)
  else if !k.heap.initialized then some (0, k)
  else
    match findFit true k.bytes layout.requestedSize (walkLimit k.heap) k.heap.head with
    | none => none
    | some .corrupted => some (0, k)
    | some (.found block) => some (takeBlock block layout.requestedSize k)
    | some .exhausted =>
      match expandHeap layout.requestedSize k with
      | none => none
      | some (false, k) => some (0, k)
      | some (true, k) => retry layout.requestedSize k

/-- Merge a free block with the block behind it, if that one is free. -/
def coalesceNext (header : ℕ) (m : Bytes) (freeBytes : ℕ) : Bytes × ℕ :=
  let next := next m header
  if next ≠ 0 ∧ isFree m next then
    let m := setSize m header (size m header + (headerSize + size m next))
    let m := setNext m header (Heap.next m next)
    (if Heap.next m next ≠ 0 then setPrev m (Heap.next m next) header else m, freeBytes + headerSize)
  else (m, freeBytes)

/-- Merge a free block into the block before it, if that one is free. -/
def coalescePrev (header : ℕ) (m : Bytes) (freeBytes : ℕ) : Bytes × ℕ :=
  let prev := prev m header
  if prev ≠ 0 ∧ isFree m prev then
    let m := setSize m prev (size m prev + (headerSize + size m header))
    let m := setNext m prev (next m header)
    (if next m header ≠ 0 then setPrev m (next m header) prev else m, freeBytes + headerSize)
  else (m, freeBytes)

def deallocate (ptr : ℕ) (layout : Layout) (k : Kernel) : Kernel :=
  if ptr = 0 ∨ layout.size = 0 then k
  else if !k.heap.initialized then k
  else
    let header := ptr - headerSize
    if magic k.bytes header ≠ heapMagic then k
    else if isFree k.bytes header then k
    else
      let blockSize := size k.bytes header
      let m := setFree (Bytes.fill k.bytes (payloadPtr header) blockSize 0xDE) header true
      let merged := coalesceNext header m (k.heap.stats.freeBytes + blockSize)
      let merged := coalescePrev header merged.1 merged.2
      let stats := { k.heap.stats with
        allocatedBytes := k.heap.stats.allocatedBytes - blockSize
        freeBytes := merged.2
        freeCount := k.heap.stats.freeCount + 1 }
      { k with bytes := merged.1, heap := { k.heap with stats := stats } }

/-- The sums `verify_invariants` computes: total, free and allocated bytes. -/
structure Tally where
  total : ℕ
  free : ℕ
  alloc : ℕ
deriving DecidableEq, Repr

/-- The loop of `verify_invariants`. -/
def tally (m : Bytes) : (fuel curr : ℕ) → Tally → Option (Except String Tally)
  | _, 0, acc => some (.ok acc)
  | 0, _ + 1, _ => none
  | fuel + 1, curr@(_ + 1), acc =>
    if magic m curr ≠ heapMagic then some (.error "Heap invariant failure: Block header magic corruption")
    else if next m curr ≠ 0 ∧ prev m (next m curr) ≠ curr then
      some (.error "Heap invariant failure: Doubly-linked list pointer mismatch")
    else if payloadPtr curr % 16 ≠ 0 then
      some (.error "Heap invariant failure: Payload address unaligned to 16 bytes")
    else
      tally m fuel (next m curr)
        { total := acc.total + (headerSize + size m curr)
          free := if isFree m curr then acc.free + size m curr else acc.free
          alloc := if isFree m curr then acc.alloc else acc.alloc + size m curr }

def verifyInvariants (k : Kernel) : Option (Except String Unit) :=
  if !k.heap.initialized then some (.error "Heap is not initialized")
  else
    (tally k.bytes (walkLimit k.heap) k.heap.head ⟨0, 0, 0⟩).map fun result =>
      match result with
      | .error e => .error e
      | .ok sums =>
        if sums.total ≠ k.heap.stats.totalBytes then
          .error "Heap invariant failure: Calculated total bytes mismatch stats"
        else if sums.free ≠ k.heap.stats.freeBytes then
          .error "Heap invariant failure: Calculated free bytes mismatch stats"
        else if sums.alloc ≠ k.heap.stats.allocatedBytes then
          .error "Heap invariant failure: Calculated allocated bytes mismatch stats"
        else .ok ()

def initialBytes : ℕ := heapInitialPages * pageSize

/-- The root block header covers the whole initial region. -/
def initBlock (region : VirtRegion) (k : Kernel) : Kernel :=
  let start := region.start.addr.toNat
  let usablePayload := initialBytes - headerSize
  { k with
    bytes := writeHeader k.bytes start usablePayload 0 0
    heap :=
      { start := start
        currentEnd := region.stop.addr.toNat
        head := start
        stats := { k.heap.stats with totalBytes := initialBytes, freeBytes := usablePayload, allocatedBytes := 0 }
        initialized := true } }

def init (k : Kernel) : Option Kernel :=
  if k.heap.initialized then some k
  else
    match allocateAndMapRegion (BitVec.ofNat 64 initialBytes) VirtPermissions.kernelData .dynamicKernel k with
    | (.error _, _) => none
    | (.ok region, k) => some (initBlock region k)

end VenturaOS.Heap
