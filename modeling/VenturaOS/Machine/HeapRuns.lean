import VenturaOS.Machine.Extents
import VenturaOS.Vmm.BootRegions

/-!
# The heap under well-behaved clients

The blocks of the heap tile its extent in every state, the payloads in use
are those of its used blocks, and no call touches the payload of another.
-/
namespace VenturaOS.Machine
open Library Memory Pmm Paging Vmm AddressSpaces

/-- The blocks of the heap, and the payloads in use among them. -/
structure HeapBlocks (y : System) (l : List Heap.Block) : Prop where
  rep : Heap.Rep y.kernel.heap y.kernel.bytes l
  payloads : Heap.Payloads y.kernel l y.payloads

/-- Before `heap::init` nothing is in use, afterwards the heap is a list of blocks. -/
def HeapOk (y : System) : Prop :=
  (y.kernel.heap.initialized = false ∧ y.payloads = []) ∨ (y.kernel.heap.initialized = true ∧ ∃ l, HeapBlocks y l)

section Steps

variable {info : BootInfo} {place : Placement} {y y' : System} {op : Op} {l : List Heap.Block}

theorem HeapBlocks.same (h : HeapBlocks y l) (hs : SameHeap y y') : HeapBlocks y' l := by
  refine ⟨?_, ?_⟩
  · rw [hs.heap, hs.bytes]
    exact h.rep
  · rw [hs.payloads]
    exact h.payloads.keeps (.of_eq l hs.heap hs.bytes) fun _ _ => id

theorem HeapBlocks.write {bytes : Bytes} (h : HeapBlocks y l) (hdisc : Disciplined y (.write bytes)) :
    HeapBlocks { y with kernel := { y.kernel with bytes := bytes } } l := by
  have hstop := h.rep.stop
  have hheaders : ∀ a, Heap.InHeader y.kernel.heap.start l a → bytes a = y.kernel.bytes a := by
    intro a ha
    by_contra hne
    rcases hdisc a hne with ⟨x, hx, hle, hlt⟩ | hlt | hle
    · exact (h.payloads.inside h.rep hx).2.2 a hle hlt ha
    · have := ha.bounds
      omega
    · have := ha.bounds
      omega
  exact ⟨h.rep.write hheaders, ⟨h.payloads.used, h.payloads.exact, h.payloads.distinct⟩⟩

theorem HeapOk.init (h : HeapOk y) (hi : Inv info place y) {k : Kernel} (hrun : Heap.init y.kernel = some k) :
    HeapOk { y with kernel := k } := by
  rcases h with ⟨hinit, hnone⟩ | ⟨hinit, hblocks⟩
  · rcases Heap.init_cases hrun hinit with ⟨region, k₁, hmap, rfl⟩
    rcases allocated_placed hmap with ⟨hstart, -, -, hstop, -⟩
    rcases hi.cursor with ⟨hcal, hclow⟩
    have hlow : dynamicVirtStart.toNat = 2 ^ 64 - 2 ^ 47 := rfl
    have hrep := Heap.initBlock_rep (by rw [hstart]; omega) (by rw [hstart]; omega) hstop k₁
    refine .inr ⟨rfl, _, hrep, ?_⟩
    dsimp only
    rw [hnone]
    refine ⟨by simp, fun o n hat => ?_, by simp⟩
    exact absurd hat (Heap.not_used_of_free (by simp))
  · rw [Heap.init_initialized hinit] at hrun
    cases hrun
    exact .inr ⟨hinit, hblocks⟩

theorem HeapBlocks.expand (h : HeapBlocks y l) (hend : y.kernel.heap.currentEnd + 0x80000 < 2 ^ 64) {needed : ℕ}
    {grew : Bool} {k : Kernel} (hrun : Heap.expandHeap needed y.kernel = some (grew, k)) :
    ∃ l', HeapBlocks { y with kernel := k } l' ∧ k.heap.initialized = y.kernel.heap.initialized ∧
      Heap.Keeps y.kernel k l l' := by
  rcases h.rep.expandHeap needed hend with
    ⟨k', he, hheap, hbytes⟩ | ⟨k', l', he, hrep, hkeeps, honly, hinit, -⟩
  · rw [hrun] at he
    cases he
    have hkeeps := Heap.Keeps.of_eq (k := y.kernel) l hheap hbytes
    refine ⟨l, ⟨?_, h.payloads.keeps hkeeps fun _ _ => id⟩, by rw [hheap], hkeeps⟩
    dsimp only
    rw [hheap, hbytes]
    exact h.rep
  · rw [hrun] at he
    cases he
    exact ⟨l', ⟨hrep, h.payloads.keeps hkeeps honly⟩, hinit, hkeeps⟩

theorem HeapBlocks.allocate (h : HeapBlocks y l) (hinit : y.kernel.heap.initialized = true)
    (hend : y.kernel.heap.currentEnd + 0x80000 < 2 ^ 64) {layout : Heap.Layout} (hsize : layout.size ≠ 0) {p : ℕ}
    {k : Kernel} (hrun : Heap.allocate layout y.kernel = some (p, k)) :
    ∃ l', HeapBlocks { y with kernel := k, payloads := if layout.size = 0 ∨ p = 0 then y.payloads
      else (p, layout) :: y.payloads } l' ∧ k.heap.initialized = true ∧ Heap.Keeps y.kernel k l l' := by
  have hready : k.heap.initialized = true := by
    rcases Heap.allocate_frames hrun with hf | ⟨grew, k₁, -, hexp, hf⟩
    · exact hf.initialized.trans hinit
    · rcases h.expand hend hexp with ⟨-, -, hi, -⟩
      exact hf.initialized.trans (hi.trans hinit)
  rcases h.rep.allocate hinit hend layout hsize with ⟨p', k', l', he, hrep, hkeeps, hnull, hgives, -⟩
  rw [hrun] at he
  cases he
  refine ⟨l', ⟨hrep, ?_⟩, hready, hkeeps⟩
  dsimp only
  split_ifs with hcase
  · have hl : l' = l := hnull (hcase.resolve_left hsize)
    exact h.payloads.keeps hkeeps fun o n hat => hl ▸ hat
  · exact h.payloads.give hkeeps (hgives fun hp => hcase (.inr hp)) hsize

theorem allocate_unready {k k' : Kernel} {layout : Heap.Layout} {p : ℕ} (hinit : k.heap.initialized = false)
    (hrun : Heap.allocate layout k = some (p, k')) : k' = k ∧ (layout.size = 0 ∨ p = 0) := by
  unfold Heap.allocate at hrun
  rw [hinit] at hrun
  split_ifs at hrun with hsize
  · cases hrun
    exact ⟨rfl, .inl hsize⟩
  · cases hrun
    exact ⟨rfl, .inr rfl⟩
  · exact absurd rfl ‹_›

theorem allocate_empty {k k' : Kernel} {layout : Heap.Layout} {p : ℕ} (hsize : layout.size = 0)
    (hrun : Heap.allocate layout k = some (p, k')) : k' = k := by
  unfold Heap.allocate at hrun
  rw [if_pos hsize] at hrun
  cases hrun
  rfl

theorem deallocate_empty (p : ℕ) {layout : Heap.Layout} (hsize : layout.size = 0) (k : Kernel) :
    Heap.deallocate p layout k = k := by
  unfold Heap.deallocate
  rw [if_pos (.inr hsize)]

/-- Every call of a client that behaves towards the heap keeps it a list of blocks. -/
theorem HeapOk.call (h : HeapOk y) (hi : Inv info place y) (he : Extents place y) (hstep : Step y op y')
    (hheap : op.onHeap = true → Disciplined y op) : HeapOk y' := by
  cases hop : op.onHeap with
  | false =>
    have hs := hstep.sameHeap hop
    rcases h with ⟨hinit, hnone⟩ | ⟨hinit, l, hl⟩
    · exact .inl ⟨by rw [hs.heap]; exact hinit, by rw [hs.payloads]; exact hnone⟩
    · exact .inr ⟨by rw [hs.heap]; exact hinit, l, hl.same hs⟩
  | true =>
    have hdisc := hheap hop
    cases hstep with
    | heapInit hrun => exact h.init hi hrun
    | heapExpand hrun =>
      rcases h with ⟨hinit, -⟩ | ⟨hinit, l, hl⟩
      · have hready : y.kernel.heap.initialized = true := hdisc
        rw [hinit] at hready
        cases hready
      · rcases hl.expand (he.room hi hinit) hrun with ⟨l', hl', hi, -⟩
        exact .inr ⟨hi.trans hinit, l', hl'⟩
    | @heapAllocate layout p k hrun =>
      rcases h with ⟨hinit, hnone⟩ | ⟨hinit, l, hl⟩
      · rcases allocate_unready hinit hrun with ⟨rfl, hcase⟩
        exact .inl ⟨hinit, by dsimp only; rw [if_pos hcase]; exact hnone⟩
      · by_cases hsize : layout.size = 0
        · cases allocate_empty hsize hrun
          exact .inr ⟨hinit, l, hl.rep, by dsimp only; rw [if_pos (.inl hsize)]; exact hl.payloads⟩
        · rcases hl.allocate hinit (he.room hi hinit) hsize hrun with ⟨l', hl', hinit', -⟩
          exact .inr ⟨hinit', l', hl'⟩
    | @heapDeallocate p layout =>
      by_cases hsize : layout.size = 0
      · rw [if_pos hsize, deallocate_empty p hsize]
        exact h
      · rcases h with ⟨hinit, hnone⟩ | ⟨hinit, l, hl⟩
        · have hbad := hdisc.resolve_left hsize
          rw [hnone] at hbad
          cases hbad
        · rcases List.mem_map.mp (hdisc.resolve_left hsize) with ⟨x, hx, rfl⟩
          rcases hl.payloads.free hl.rep hinit hx hsize with ⟨-, l', hrep, hpay, -⟩
          rw [if_neg hsize]
          exact .inr ⟨(Heap.deallocate_frames _ _ _).initialized.trans hinit, l', hrep, hpay⟩
    | write =>
      rcases h with hfirst | ⟨hinit, l, hl⟩
      · exact .inl hfirst
      · exact .inr ⟨hinit, l, hl.write hdisc⟩
    | _ => cases hop

theorem HeapOk.step (h : HeapOk y) (ho : Orderly info place y) (hstep : DisciplinedStep y op y') : HeapOk y' :=
  h.call ho.inv ho.extents hstep.1.1 fun _ => hstep.2

end Steps

section Runs

variable {info : BootInfo} {y y' : System} {op : Op}

theorem Behaved.step (h : Behaved info y) (hstep : DisciplinedStep y op y') : Behaved info y' := by
  rcases h with ⟨k, ops, hinit, hrun⟩
  exact ⟨k, ops ++ [op], hinit, hrun.append (.single hstep)⟩

theorem Behaved.heapOk (hload : info.Loaded) (h : Behaved info y) : HeapOk y := by
  rcases h with ⟨k, ops, hinit, hrun⟩
  have hboot := init_booted hload hinit
  have hstart : (∃ place, Orderly info place (System.start k)) ∧ HeapOk (System.start k) := by
    refine ⟨Orderly.start hboot, .inl ⟨?_, rfl⟩⟩
    change k.heap.initialized = false
    rw [hboot.heap]
    rfl
  refine (hrun.invariant (fun y => (∃ place, Orderly info place y) ∧ HeapOk y) ?_ hstart).2
  rintro y op y' ⟨⟨place, ho⟩, hok⟩ hstep
  rcases ho.step hstep with ⟨place', ho', -⟩
  exact ⟨⟨place', ho'⟩, hok.step ho hstep⟩

/-- The blocks of the heap, with room for one more growth behind them. -/
theorem Behaved.blocks (hload : info.Loaded) (h : Behaved info y) (hinit : y.kernel.heap.initialized = true) :
    y.kernel.heap.currentEnd + 0x80000 < 2 ^ 64 ∧ ∃ l, HeapBlocks y l := by
  rcases h.orderly hload with ⟨place, ho⟩
  refine ⟨ho.extents.room ho.inv hinit, ?_⟩
  rcases h.heapOk hload with ⟨hno, -⟩ | ⟨-, hl⟩
  · rw [hno] at hinit
    cases hinit
  · exact hl

end Runs

section Start

variable {info : BootInfo}

/-- After a boot in low memory with frames to spare, `heap::init` succeeds. -/
theorem heap_starts (hload : info.Loaded) (hlow : info.Low) (hclear : info.Clear (BitVec.ofNat 64 Heap.initialBytes))
    (hfree : 292 ≤ info.frames.card) :
    ∃ k region k₁, Vmm.init info info.kernel = some k ∧
      allocateAndMapRegion (BitVec.ofNat 64 Heap.initialBytes) VirtPermissions.kernelData .dynamicKernel k =
        (.ok region, k₁) ∧ Heap.init k = some (Heap.initBlock region k₁) ∧
      region = ⟨⟨dynamicVirtStart⟩, BitVec.ofNat 64 Heap.initialBytes, VirtPermissions.kernelData, .dynamicKernel, true⟩ ∧
      info.frames.card ≤ k₁.mem.pmm.freeFrames.card + 292 := by
  have hcount : (BitVec.ofNat 64 Heap.initialBytes).toNat / pageSize = 32 := rfl
  rcases first_region hload hlow hclear (by decide) (by decide) (by rw [hcount]; omega) (by rw [hcount]; exact hfree)
    VirtPermissions.kernelData .dynamicKernel with ⟨k, k₁, hk, hmap, hused⟩
  rw [hcount] at hused
  refine ⟨k, _, k₁, hk, hmap, ?_, rfl, by omega⟩
  unfold Heap.init
  rw [(init_booted hload hk).heap, if_neg (by simp [Heap.HeapState.new]), hmap]

theorem fresh_heap (hload : info.Loaded) {k₀ k : Kernel} (hvmm : Vmm.init info info.kernel = some k₀)
    (hheap : Heap.init k₀ = some k) : Behaved info (System.start k) ∧ k.heap.initialized = true ∧
      k.heap.start = dynamicVirtStart.toNat ∧ HeapBlocks (System.start k) [⟨131040, true⟩] := by
  have hboot := init_booted hload hvmm
  have hstep : DisciplinedStep (System.start k₀) .heapInit (System.start k) := ⟨⟨.heapInit hheap, trivial⟩, trivial⟩
  refine ⟨⟨k₀, [.heapInit], hvmm, .single hstep⟩, ?_⟩
  obtain ⟨region, k₁, hmap, rfl⟩ := Heap.init_cases hheap (by rw [hboot.heap]; rfl)
  obtain ⟨hstart, -, -, hstop, -⟩ := allocated_placed hmap
  rw [hboot.cursor] at hstart
  have hrep := Heap.initBlock_rep (by rw [hstart]; decide) (by rw [hstart]; decide) hstop k₁
  refine ⟨rfl, ?_, hrep, by simp [System.start], fun o n hat => ?_, by simp [System.start]⟩
  · rw [← hstart]
    rfl
  · exact absurd hat (Heap.not_used_of_free (by simp))

end Start

theorem sample_boots : ∃ k₀ k, Vmm.init sampleInfo sampleInfo.kernel = some k₀ ∧ Heap.init k₀ = some k := by
  obtain ⟨k₀, region, k₁, hvmm, -, hheap, -⟩ := heap_starts sampleInfo_loaded sampleInfo_low sampleInfo_clear
    (by rw [sampleInfo_frames]; omega)
  exact ⟨k₀, _, hvmm, hheap⟩

end VenturaOS.Machine
