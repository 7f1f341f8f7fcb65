import VenturaOS.Machine.Discipline
import VenturaOS.Vmm.Rollback

/-!
# What is mapped in the upper half

The pages of live regions and of the heap, and nothing else, have frames below
the kernel root, and no page belongs to two of them. Since each heap page has
a frame of its own, the heap cannot grow past the end of the address space.
-/
namespace VenturaOS.Machine
open Library Memory Pmm Paging Vmm AddressSpaces

/-- A page the heap spans. -/
def HeapPage (h : Heap.HeapState) (v : VirtAddr) : Prop :=
  h.initialized = true ∧ h.start ≤ v.addr.toNat ∧ v.addr.toNat < h.currentEnd

def regionPages (region : VirtRegion) : List VirtAddr := pagesFrom region.start.addr region.pageCount

/-- A page address of the upper half. -/
structure UpperPage (v : VirtAddr) : Prop where
  canonical : isCanonical v.addr = true
  aligned : v.isAligned = true
  upper : 256 ≤ v.pml4Index.val

/-- The heap lies on page boundaries and starts in the dynamic range. -/
structure HeapRange (h : Heap.HeapState) : Prop where
  aligned : h.start % 4096 = 0
  stop_aligned : h.currentEnd % 4096 = 0
  upper : 2 ^ 64 - 2 ^ 47 ≤ h.start
  limit : h.start ≤ dynamicVirtEnd.toNat
  nonempty : h.start < h.currentEnd
  stop : h.currentEnd < 2 ^ 64

structure Extents (place : Placement) (y : System) : Prop where
  occupied : ∀ {v}, UpperPage v → (Occupied y.kernel.rootPml4.addr place v.path ↔
    (∃ region ∈ y.live, v ∈ regionPages region) ∨ HeapPage y.kernel.heap v)
  apart : y.live.Pairwise fun r q => ∀ v ∈ regionPages r, v ∉ regionPages q
  heapApart : ∀ region ∈ y.live, ∀ v ∈ regionPages region, ¬ HeapPage y.kernel.heap v
  returned : ∀ region ∈ y.live, region ∈ y.returned
  range : y.kernel.heap.initialized = true → HeapRange y.kernel.heap

section Range

variable {h : Heap.HeapState} {v : VirtAddr}

/-- The pages of the heap, as a run of pages of the upper half. -/
theorem HeapRange.pages (hr : HeapRange h) : UpperPages (BitVec.ofNat 64 h.start) ((h.currentEnd - h.start) / 4096) := by
  have hal := hr.aligned
  have hstop := hr.stop
  have hup := hr.upper
  have hlt := hr.nonempty
  have ht : (BitVec.ofNat 64 h.start).toNat = h.start := by
    rw [BitVec.toNat_ofNat]
    omega
  refine ⟨by rw [ht]; exact hal, by rw [ht]; exact hup, ?_⟩
  rw [ht]
  omega

theorem HeapRange.congr {h' : Heap.HeapState} (hr : HeapRange h) (hstart : h'.start = h.start)
    (hstop : h'.currentEnd = h.currentEnd) : HeapRange h' := by
  rcases hr with ⟨hal, hsal, hup, hlimit, hne, hlt⟩
  rw [← hstart] at hal hup hlimit hne
  rw [← hstop] at hsal hne hlt
  exact ⟨hal, hsal, hup, hlimit, hne, hlt⟩

theorem upperPage_aligned (hv : UpperPage v) : v.addr.toNat % 4096 = 0 := by
  have hal := hv.aligned
  simpa [VirtAddr.isAligned, pageSize] using hal

/-- A run of pages of the upper half, by address. -/
theorem mem_pages_iff {start : U64} {n : ℕ} (h : UpperPages start n) (hv : UpperPage v) :
    v ∈ pagesFrom start n ↔ start.toNat ≤ v.addr.toNat ∧ v.addr.toNat < start.toNat + n * 4096 := by
  have hal := h.aligned
  have hva := upperPage_aligned hv
  rw [mem_pagesFrom h]
  constructor
  · rintro ⟨i, hi, he⟩
    omega
  · rintro ⟨hle, hlt⟩
    exact ⟨(v.addr.toNat - start.toNat) / 4096, by omega, by omega⟩

theorem UpperPages.upperPage {start : U64} {n : ℕ} (h : UpperPages start n) (hv : v ∈ pagesFrom start n) : UpperPage v :=
  ⟨(h.page hv).1, (h.page hv).2.1, (h.page hv).2.2⟩

/-- Pages of the upper half are told apart by their paths. -/
theorem mem_pages_path {start : U64} {n : ℕ} (h : UpperPages start n) (hv : UpperPage v) :
    (∃ w ∈ pagesFrom start n, v.path = w.path) ↔ v ∈ pagesFrom start n := by
  constructor
  · rintro ⟨w, hw, hp⟩
    have hup := UpperPages.upperPage h hw
    rw [VirtAddr.path_inj hv.canonical hup.canonical hv.aligned hup.aligned hp]
    exact hw
  · exact fun hw => ⟨v, hw, rfl⟩

theorem HeapRange.mem_pages (hr : HeapRange h) (hinit : h.initialized = true) (hv : UpperPage v) :
    v ∈ pagesFrom (BitVec.ofNat 64 h.start) ((h.currentEnd - h.start) / 4096) ↔ HeapPage h v := by
  have hal := hr.aligned
  have hsal := hr.stop_aligned
  have hstop := hr.stop
  have hlt := hr.nonempty
  have ht : (BitVec.ofNat 64 h.start).toNat = h.start := by
    rw [BitVec.toNat_ofNat]
    omega
  rw [mem_pages_iff hr.pages hv, ht, HeapPage]
  have hsum : h.start + (h.currentEnd - h.start) / 4096 * 4096 = h.currentEnd := by omega
  rw [hsum]
  exact ⟨fun hm => ⟨hinit, hm⟩, fun hm => hm.2⟩

end Range

section Frames

variable {F : Finset U64} {c : ℕ} {root : U64} {place : Placement} {held : Finset U64} {s : PageMemory}

/-- Distinct occupied leaves have distinct frames, so there are no more of them than frames. -/
theorem occupied_le (h : Owned (kernelPolicy root F) F c place held s) {start : U64} {n : ℕ} (hp : UpperPages start n)
    (hocc : ∀ v ∈ pagesFrom start n, Occupied root place v.path) : n ≤ F.card := by
  classical
  have hall : ∀ q ∈ ((pagesFrom start n).map VirtAddr.path).toFinset, ∃ g, place g = some (root, q) := by
    intro q hq
    rw [List.mem_toFinset] at hq
    rcases List.mem_map.mp hq with ⟨v, hv, rfl⟩
    exact hocc v hv
  choose! f hf using hall
  have hcard : ((pagesFrom start n).map VirtAddr.path).toFinset.card = n := by
    rw [List.toFinset_card_of_nodup hp.paths_nodup, List.length_map, pagesFrom_length]
  rw [← hcard]
  refine Finset.card_le_card_of_injOn f ?_ ?_
  · intro q hq
    have hlen : q.length = 4 := by
      rw [Finset.mem_coe, List.mem_toFinset] at hq
      rcases List.mem_map.mp hq with ⟨v, -, rfl⟩
      exact v.path_length
    exact (leaf_managed h (hf q hq) hlen).1
  · intro q hq q' hq' he
    have h₁ := hf q hq
    have h₂ := hf q' hq'
    rw [he, h₂] at h₁
    cases h₁
    rfl

end Frames

section Steps

variable {info : BootInfo} {place place' : Placement} {y y' : System} {op : Op}

/-- The heap has no more pages than there are frames. -/
theorem Extents.bound (he : Extents place y) (hi : Inv info place y) (hinit : y.kernel.heap.initialized = true) :
    y.kernel.heap.currentEnd ≤ y.kernel.heap.start + 2 ^ 32 := by
  have hr := he.range hinit
  have hcard : (y.kernel.heap.currentEnd - y.kernel.heap.start) / 4096 ≤ info.frames.card := by
    refine occupied_le hi.tables.owned hr.pages fun v hv => ?_
    have hup := UpperPages.upperPage hr.pages hv
    exact (he.occupied hup).mpr (.inr ((hr.mem_pages hinit hup).mp hv))
  have hframes := hi.tables.owned.frames.card_le_total
  have hbound := hi.tables.owned.frames.bound
  have hal := hr.aligned
  have hsal := hr.stop_aligned
  unfold maxManagedPages at hbound
  omega

/-- There is always room for a growth in the address space. -/
theorem Extents.room (he : Extents place y) (hi : Inv info place y) (hinit : y.kernel.heap.initialized = true) :
    y.kernel.heap.currentEnd + 0x80000 < 2 ^ 64 := by
  have hbound := he.bound hi hinit
  have hlimit := (he.range hinit).limit
  have hend : dynamicVirtEnd.toNat = 2 ^ 64 - 2 ^ 39 := rfl
  omega

theorem Step.returned (h : Step y op y') : ∀ region ∈ y.returned, region ∈ y'.returned := by
  cases h with
  | mapRegion _ => exact fun region hr => List.mem_cons_of_mem _ hr
  | _ => exact fun _ hr => hr

theorem Step.live_returned (h : Step y op y') (hl : ∀ region ∈ y.live, region ∈ y.returned) :
    ∀ region ∈ y'.live, region ∈ y'.returned := by
  cases h with
  | mapRegion _ =>
    intro region hr
    rcases List.mem_cons.mp hr with rfl | hr
    · exact List.mem_cons_self
    · exact List.mem_cons_of_mem _ (hl region hr)
  | unmapRegion _ => exact fun region hr => hl region (List.mem_of_mem_erase hr)
  | _ => exact hl

/-- While the heap keeps its extent, what is left to see to is the live regions. -/
theorem Extents.of_sameExtent (he : Extents place y) (hstep : Step y op y') (hext : SameExtent y.kernel y'.kernel)
    (hocc : ∀ {v}, UpperPage v → (Occupied y.kernel.rootPml4.addr place' v.path ↔
      (∃ region ∈ y'.live, v ∈ regionPages region) ∨ HeapPage y.kernel.heap v))
    (hapart : y'.live.Pairwise fun r q => ∀ v ∈ regionPages r, v ∉ regionPages q)
    (hheap : ∀ region ∈ y'.live, ∀ v ∈ regionPages region, ¬ HeapPage y.kernel.heap v) : Extents place' y' := by
  obtain ⟨hstart, hstop, hinit⟩ := hext
  have hpage (v : VirtAddr) : HeapPage y'.kernel.heap v ↔ HeapPage y.kernel.heap v := by
    rw [HeapPage, HeapPage, hstart, hstop, hinit]
  constructor
  · intro v hv
    rw [hstep.root, hpage]
    exact hocc hv
  · exact hapart
  · intro region hr v hv hp
    exact hheap region hr v hv ((hpage v).mp hp)
  · exact hstep.live_returned he.returned
  · intro hready
    rw [hinit] at hready
    exact (he.range hready).congr hstart hstop

theorem Extents.same (he : Extents place y) (hstep : Step y op y')
    (hocc : ∀ q, q.length = 4 → (Occupied y.kernel.rootPml4.addr place' q ↔ Occupied y.kernel.rootPml4.addr place q))
    (hlive : y'.live = y.live) (hext : SameExtent y.kernel y'.kernel) : Extents place' y' := by
  apply he.of_sameExtent hstep hext
  · intro v hv
    rw [hocc _ v.path_length, hlive]
    exact he.occupied hv
  · rw [hlive]
    exact he.apart
  · rw [hlive]
    exact he.heapApart

theorem Extents.mapped (he : Extents place y) (hstep : Step y op y') {region : VirtRegion}
    (hret : Returned y.kernel.rootPml4.addr place place' region) (hlive : y'.live = region :: y.live)
    (hext : SameExtent y.kernel y'.kernel) : Extents place' y' := by
  -- the new pages were vacant, so no older region and no heap page is among them
  have hnew {v : VirtAddr} (hv : v ∈ regionPages region) :
      ¬((∃ r ∈ y.live, v ∈ regionPages r) ∨ HeapPage y.kernel.heap v) := fun hbad =>
    hret.vacant v hv ((he.occupied (UpperPages.upperPage hret.pages hv)).mpr hbad)
  apply he.of_sameExtent hstep hext
  · intro v hv
    have hpath : (∃ w ∈ pagesFrom region.start.addr region.pageCount, v.path = w.path) ↔ v ∈ regionPages region :=
      mem_pages_path hret.pages hv
    rw [hret.occupied _ v.path_length, he.occupied hv, hpath, hlive, List.exists_mem_cons_iff]
    exact or_right_comm.trans (or_congr_left or_comm)
  · rw [hlive, List.pairwise_cons]
    exact ⟨fun r hr v hv hv' => hnew hv (.inl ⟨r, hr, hv'⟩), he.apart⟩
  · rw [hlive]
    intro r hr v hv hp
    rcases List.mem_cons.mp hr with rfl | hr
    · exact hnew hv (.inr hp)
    · exact he.heapApart r hr v hv hp

theorem Extents.unmapped (he : Extents place y) (hstep : Step y op y') {region : VirtRegion} (hmem : region ∈ y.live)
    (hpages : UpperPages region.start.addr region.pageCount)
    (hocc : ∀ q, q.length = 4 → (Occupied y.kernel.rootPml4.addr place' q ↔ Occupied y.kernel.rootPml4.addr place q ∧
      ∀ v ∈ pagesFrom region.start.addr region.pageCount, q ≠ v.path))
    (hlive : y'.live = y.live.erase region) (hext : SameExtent y.kernel y'.kernel) : Extents place' y' := by
  have hsymm : ∀ r q : VirtRegion, (∀ v ∈ regionPages r, v ∉ regionPages q) → ∀ v ∈ regionPages q, v ∉ regionPages r :=
    fun r q h v hq hr => h v hr hq
  have hperm := List.perm_cons_erase hmem
  have hapart := (hperm.pairwise_iff fun {r q} => hsymm r q).mp he.apart
  rcases List.pairwise_cons.mp hapart with ⟨hfirst, hrest⟩
  apply he.of_sameExtent hstep hext
  · intro v hv
    have hpath : (∀ w ∈ pagesFrom region.start.addr region.pageCount, v.path ≠ w.path) ↔ v ∉ regionPages region := by
      rw [regionPages, ← mem_pages_path hpages hv]
      simp only [not_exists, not_and, ne_eq]
    have hsplit : (∃ r ∈ y.live, v ∈ regionPages r) ↔
        v ∈ regionPages region ∨ ∃ r ∈ y.live.erase region, v ∈ regionPages r := by
      refine Iff.trans ?_ (List.exists_mem_cons_iff (fun r => v ∈ regionPages r) region (y.live.erase region))
      exact ⟨fun ⟨r, hr, h⟩ => ⟨r, hperm.mem_iff.mp hr, h⟩, fun ⟨r, hr, h⟩ => ⟨r, hperm.mem_iff.mpr hr, h⟩⟩
    rw [hocc _ v.path_length, he.occupied hv, hpath, hlive, hsplit]
    constructor
    · rintro ⟨(h | h) | h, hnot⟩
      · exact absurd h hnot
      · exact .inl h
      · exact .inr h
    · rintro (⟨r, hr, h⟩ | h)
      · exact ⟨.inl (.inr ⟨r, hr, h⟩), fun hbad => hfirst r hr v hbad h⟩
      · exact ⟨.inr h, fun hbad => he.heapApart region hmem v hbad h⟩
  · rw [hlive]
    exact hrest
  · rw [hlive]
    intro r hr
    exact he.heapApart r (List.mem_of_mem_erase hr)

theorem Extents.grown (he : Extents place y) (hi : Inv info place y) (hstep : Step y op y')
    (hinit : y.kernel.heap.initialized = true) {n : ℕ} (hpos : 0 < n)
    (hgrown : Heap.Grown y.kernel.rootPml4.addr place place' y.kernel y'.kernel n) (hlive : y'.live = y.live) :
    Extents place' y' := by
  have hr := he.range hinit
  have hroom := he.room hi hinit
  have hsmall := hgrown.small
  have hal := hr.aligned
  have hsal := hr.stop_aligned
  have hup := hr.upper
  have hne := hr.nonempty
  unfold maxFrames at hsmall
  have hstop : y'.kernel.heap.currentEnd = y.kernel.heap.currentEnd + n * 4096 := by
    rw [hgrown.stop]
    omega
  have ht : (BitVec.ofNat 64 y.kernel.heap.currentEnd).toNat = y.kernel.heap.currentEnd := by
    rw [BitVec.toNat_ofNat]
    omega
  have hpages : UpperPages (BitVec.ofNat 64 y.kernel.heap.currentEnd) n := by
    refine ⟨?_, ?_, ?_⟩
    · rw [ht]
      exact hsal
    · rw [ht]
      omega
    · rw [ht]
      omega
  have hnew {v : VirtAddr} (hv : UpperPage v) : HeapPage y'.kernel.heap v ↔
      HeapPage y.kernel.heap v ∨ v ∈ pagesFrom (BitVec.ofNat 64 y.kernel.heap.currentEnd) n := by
    rw [mem_pages_iff hpages hv, ht, HeapPage, HeapPage, hgrown.start, hgrown.initialized, hstop, hinit]
    simp only [true_and]
    omega
  constructor
  · intro v hv
    rw [hstep.root, hgrown.occupied _ v.path_length, he.occupied hv, mem_pages_path hpages hv, hnew hv, hlive, or_assoc]
  · rw [hlive]
    exact he.apart
  · rw [hlive]
    intro r hr v hv hp
    have hvup : UpperPage v := UpperPages.upperPage (hi.regions r (he.returned r hr)).2 hv
    rcases (hnew hvup).mp hp with hold | hfresh
    · exact he.heapApart r hr v hv hold
    · exact (hgrown.vacant v hfresh).2.2.2 ((he.occupied hvup).mpr (.inl ⟨r, hr, hv⟩))
  · exact hstep.live_returned he.returned
  · intro _
    rw [← hgrown.start] at hal hup hne
    exact ⟨hal, by omega, hup, by rw [hgrown.start]; exact hr.limit, by omega, by omega⟩

theorem Extents.started (he : Extents place y) (hi : Inv info place y) (hstep : Step y op y') {region : VirtRegion} {k : Kernel}
    (hfirst : y.kernel.heap.initialized = false)
    (hret : Returned y.kernel.rootPml4.addr place place' region) (hlive : y'.live = y.live)
    (hblock : y'.kernel = Heap.initBlock region k) (hsize : region.sizeBytes = BitVec.ofNat 64 Heap.initialBytes)
    (hlimit : region.start.addr.toNat + Heap.initialBytes ≤ dynamicVirtEnd.toNat) : Extents place' y' := by
  have hbytes : Heap.initialBytes = 0x20000 := rfl
  have hend : dynamicVirtEnd.toNat = 2 ^ 64 - 2 ^ 39 := rfl
  have hal := hret.pages.aligned
  have hup := hret.pages.upper
  have hcount : region.pageCount = 32 := by
    rw [VirtRegion.pageCount, hsize]
    rfl
  have hstart : y'.kernel.heap.start = region.start.addr.toNat := by
    rw [hblock]
    rfl
  have hinit : y'.kernel.heap.initialized = true := by
    rw [hblock]
    rfl
  have hstop : y'.kernel.heap.currentEnd = region.start.addr.toNat + 0x20000 := by
    rw [hblock]
    change (region.start.addr + region.sizeBytes).toNat = _
    rw [hsize, hbytes, BitVec.toNat_add]
    rw [hbytes, hend] at hlimit
    simp only [BitVec.toNat_ofNat]
    omega
  have hpage {v : VirtAddr} (hv : UpperPage v) : HeapPage y'.kernel.heap v ↔ v ∈ regionPages region := by
    rw [regionPages, mem_pages_iff hret.pages hv, HeapPage, hinit, hstart, hstop, hcount]
    simp only [true_and]
  have hnone (v : VirtAddr) : ¬ HeapPage y.kernel.heap v := by
    rintro ⟨hbad, -⟩
    rw [hfirst] at hbad
    cases hbad
  constructor
  · intro v hv
    have hpath : (∃ w ∈ pagesFrom region.start.addr region.pageCount, v.path = w.path) ↔ v ∈ regionPages region :=
      mem_pages_path hret.pages hv
    have hold := he.occupied hv
    simp only [hnone, or_false] at hold
    rw [hstep.root, hret.occupied _ v.path_length, hold, hpath, hpage hv, hlive]
  · rw [hlive]
    exact he.apart
  · rw [hlive]
    intro r hr v hv hp
    have hmem : v ∈ regionPages region := (hpage (UpperPages.upperPage (hi.regions r (he.returned r hr)).2 hv)).mp hp
    exact hret.vacant v hmem ((he.occupied (UpperPages.upperPage hret.pages hmem)).mpr (.inl ⟨r, hr, hv⟩))
  · exact hstep.live_returned he.returned
  · intro _
    rw [hbytes, hend] at hlimit
    refine ⟨by omega, by omega, by omega, by omega, by omega, by omega⟩

/-- Everything well-behaved clients can rely on: the extents, and that no ignored result was an error. -/
structure Orderly (info : BootInfo) (place : Placement) (y : System) : Prop where
  inv : Inv info place y
  extents : Extents place y
  log : ∀ result ∈ y.kernel.mem.discarded, result = .ok ()

theorem log_append {s s' : PageMemory} (h : LogOk s s') (hlog : ∀ result ∈ s.discarded, result = .ok ()) :
    ∀ result ∈ s'.discarded, result = .ok () := by
  rcases h with ⟨added, he, hok⟩
  intro result hmem
  rw [he] at hmem
  rcases List.mem_append.mp hmem with hold | hnew
  · exact hlog result hold
  · exact hok result hnew

/-- No growth before `heap::init`, and no region is unmapped while its pages are the heap's or another's. -/
def Op.Harmless (y : System) (place : Placement) : Op → Prop
  | .heapExpand _ => y.kernel.heap.initialized = true
  | .unmapRegion region => region ∈ y.live ∨ ∀ v ∈ regionPages region, ¬ Occupied y.kernel.rootPml4.addr place v.path
  | _ => True

/-- A region without a page in use is unmapped. -/
theorem Extents.unmappedTwice (he : Extents place y) (hstep : Step y op y') {region : VirtRegion} (hgone : region ∉ y.live)
    (hfree : ∀ v ∈ regionPages region, ¬ Occupied y.kernel.rootPml4.addr place v.path)
    (hocc : ∀ q, q.length = 4 → (Occupied y.kernel.rootPml4.addr place' q ↔ Occupied y.kernel.rootPml4.addr place q ∧
      ∀ v ∈ pagesFrom region.start.addr region.pageCount, q ≠ v.path))
    (hlive : y'.live = y.live.erase region) (hext : SameExtent y.kernel y'.kernel) : Extents place' y' := by
  rw [List.erase_of_not_mem hgone] at hlive
  refine he.same hstep (fun q hq => ?_) hlive hext
  rw [hocc q hq]
  constructor
  · exact fun h => h.1
  · intro h
    refine ⟨h, fun v hv hp => hfree v hv ?_⟩
    rw [← hp]
    exact h

theorem Extents.call (he : Extents place y) (hi : Inv info place y) (hstep : Step y op y')
    (heff : Effect y.kernel.rootPml4.addr place place' y y' op) (hsafe : op.Harmless y place) : Extents place' y' := by
  cases heff with
  | none leaf log live extent => exact he.same hstep (fun _ hq => leaf.occupied hq) live extent
  | mapped returned log live extent => exact he.mapped hstep returned live extent
  | @unmapped region member log occupied live extent =>
    by_cases hlive : region ∈ y.live
    · exact he.unmapped hstep hlive (hi.regions region member).2 occupied live extent
    · exact he.unmappedTwice hstep hlive (hsafe.resolve_left hlive) occupied live extent
  | @grown op n grown pos ready log live =>
    have hinit : y.kernel.heap.initialized = true := by
      rcases ready with hready | ⟨m, rfl⟩
      · exact hready
      · exact hsafe
    exact he.grown hi hstep hinit pos grown live
  | started first returned log live block size limit =>
    obtain ⟨k, hblock⟩ := block
    exact he.started hi hstep first returned live hblock size limit

theorem Timely.harmless (h : Timely y op) (place : Placement) : op.Harmless y place := by
  cases op with
  | heapExpand n => exact h
  | unmapRegion region => exact .inl h
  | _ => trivial

theorem Orderly.call (h : Orderly info place y) (hstep : TimelyStep y op y') :
    ∃ place', Orderly info place' y' ∧ Effect y.kernel.rootPml4.addr place place' y y' op := by
  obtain ⟨hstep, hdisc⟩ := hstep
  obtain ⟨place', hinv, heff⟩ := h.inv.step hstep
  have hextents := h.extents.call h.inv hstep.1 heff (hdisc.harmless place)
  refine ⟨place', ⟨hinv, hextents, ?_⟩, heff⟩
  cases heff with
  | none leaf log live extent => exact log_append log h.log
  | mapped returned log live extent => exact log_append log h.log
  | @unmapped region member log occupied live extent =>
    refine log_append (log fun v hv => ?_) h.log
    have hpages := (h.inv.regions region member).2
    exact (h.extents.occupied (UpperPages.upperPage hpages hv)).mpr (.inl ⟨region, hdisc, hv⟩)
  | grown grown pos ready log live => exact log_append log h.log
  | started first returned log live block size limit => exact log_append log h.log

theorem Orderly.step (h : Orderly info place y) (hstep : DisciplinedStep y op y') :
    ∃ place', Orderly info place' y' ∧ Effect y.kernel.rootPml4.addr place place' y y' op :=
  h.call ⟨hstep.1, hstep.2.timely⟩

end Steps

section Runs

variable {info : BootInfo} {y y' : System} {op : Op} {k : Kernel}

/-- After `vmm::init` the upper half is empty. -/
theorem Orderly.start (h : Booted info k) : ∃ place, Orderly info place (System.start k) := by
  rcases Inv.start h with ⟨place, hinv, hvacant⟩
  have hready : k.heap.initialized = false := by
    rw [h.heap]
    rfl
  refine ⟨place, hinv, ⟨fun {v} _ => ?_, .nil, by simp [System.start], by simp [System.start], ?_⟩, ?_⟩
  · simp [hvacant _ _ v.path_length, HeapPage, hready, System.start]
  · intro hbad
    exact absurd (hbad.symm.trans hready) (by simp)
  · change ∀ result ∈ k.mem.discarded, _
    rw [h.log]
    simp

theorem Behaved.orderly (hload : info.Loaded) (h : Behaved info y) : ∃ place, Orderly info place y := by
  rcases h with ⟨k, ops, hinit, hrun⟩
  refine hrun.invariant (fun y => ∃ place, Orderly info place y) ?_ (Orderly.start (init_booted hload hinit))
  rintro y op y' ⟨place, h⟩ hstep
  rcases h.step hstep with ⟨place', h', -⟩
  exact ⟨place', h'⟩

end Runs
end VenturaOS.Machine
