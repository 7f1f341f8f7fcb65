import VenturaOS.Heap.FirstFit
import VenturaOS.Heap.Stale
import VenturaOS.Machine.HeapRuns

/-!
# What clients of the heap can rely on

The list of blocks passes its own check in every state, live payloads are
disjoint and private, and an allocation takes the first block that fits.
-/
namespace VenturaOS.Machine
open Library Memory Pmm Paging Vmm AddressSpaces

section

variable {info : BootInfo} {y y' : System} {op : Op} {l : List Heap.Block}

theorem allocate_returns (h : HeapBlocks y l) (hinit : y.kernel.heap.initialized = true)
    (hend : y.kernel.heap.currentEnd + 0x80000 < 2 ^ 64) (layout : Heap.Layout) :
    ∃ p k, Heap.allocate layout y.kernel = some (p, k) := by
  by_cases hsize : layout.size = 0
  · exact ⟨1, y.kernel, by rw [Heap.allocate, if_pos hsize]⟩
  · rcases h.rep.allocate hinit hend layout hsize with ⟨p, k, -, he, -⟩
    exact ⟨p, k, he⟩

/-- A call other than a free of that payload leaves the bytes of a live payload alone. -/
theorem HeapBlocks.untouched (hl : HeapBlocks y l) (hinit : y.kernel.heap.initialized = true)
    (hend : y.kernel.heap.currentEnd + 0x80000 < 2 ^ 64) (hstep : DisciplinedStep y op y')
    (hwrite : ∀ bytes, op ≠ .write bytes) {x : ℕ × Heap.Layout} (hx : x ∈ y.payloads)
    (hfree : ∀ layout, op = .heapDeallocate x.1 layout → layout.size = 0) {a : ℕ} (ha : x.1 ≤ a)
    (hlt : a < x.1 + x.2.size) : y'.kernel.bytes a = y.kernel.bytes a := by
  rcases hl.payloads.used x hx with ⟨o, n, hat, hp, hs⟩
  have hkept {k : Kernel} {l' : List Heap.Block} (hk : Heap.Keeps y.kernel k l l') : k.bytes a = y.kernel.bytes a :=
    hk.bytes hl.rep hat (by omega) (by omega)
  rcases hstep with ⟨⟨hstep, -⟩, hdisc⟩
  cases hop : op.onHeap with
  | false => rw [(hstep.sameHeap hop).bytes]
  | true =>
    cases hstep with
    | heapInit hrun =>
      rw [Heap.init_initialized hinit] at hrun
      cases hrun
      rfl
    | heapExpand hrun =>
      rcases hl.expand hend hrun with ⟨l', -, -, hk⟩
      exact hkept hk
    | @heapAllocate layout p k hrun =>
      by_cases hsize : layout.size = 0
      · cases allocate_empty hsize hrun
        rfl
      · rcases hl.allocate hinit hend hsize hrun with ⟨l', -, -, hk⟩
        exact hkept hk
    | @heapDeallocate p layout =>
      by_cases hsize : layout.size = 0
      · dsimp only
        rw [deallocate_empty p hsize]
      · rcases List.mem_map.mp (hdisc.resolve_left hsize) with ⟨z, hz, rfl⟩
        rcases hl.payloads.free hl.rep hinit hz hsize with ⟨-, -, -, -, -, hothers, -⟩
        refine hothers x hx (fun he => hsize (hfree layout ?_)) a ha hlt
        rw [he]
    | @write bytes => exact absurd rfl (hwrite bytes)
    | _ => cases hop

end

section Fit

variable {info : BootInfo} {y : System} {l l₁ l₂ : List Heap.Block} {n : ℕ} {layout : Heap.Layout}

theorem HeapBlocks.take (hl : HeapBlocks y l) (hinit : y.kernel.heap.initialized = true)
    (hsize : layout.size ≠ 0) (hf : Heap.FirstFit layout.requestedSize l l₁ n l₂) :
    ∃ y', DisciplinedStep y (.heapAllocate layout) y' ∧ y'.kernel.heap.initialized = true ∧
      y'.kernel.heap.start = y.kernel.heap.start ∧
      Heap.allocate layout y.kernel = some (y.kernel.heap.start + Heap.total l₁ + 32, y'.kernel) ∧
      y'.payloads = (y.kernel.heap.start + Heap.total l₁ + 32, layout) :: y.payloads ∧
      HeapBlocks y' (l₁ ++ (Heap.taken n layout.requestedSize ++ l₂)) := by
  rcases layout.requestedSize_ok hsize with ⟨hal, hmin, -⟩
  have hrun := hl.rep.allocate_fit hinit hsize hf
  rcases hf with ⟨rfl, hfit, -⟩
  rcases hl.rep.takeBlock_keeps hal hmin hfit with ⟨p, k, htake, hp, hrep, hkeeps, hgives⟩
  have hframes := Heap.takeBlock_frames (y.kernel.heap.start + Heap.total l₁) layout.requestedSize y.kernel
  have hptr := (hl.rep.takeBlock hal hmin).1
  rw [htake] at hrun hframes hptr
  dsimp only at hptr hframes
  subst hptr
  have hstep : Step y (.heapAllocate layout) _ := .heapAllocate hrun
  rw [if_neg (by omega)] at hstep
  exact ⟨_, ⟨⟨hstep, trivial⟩, trivial⟩, hframes.initialized.trans hinit, hkeeps.start, hrun, rfl, hrep,
    hl.payloads.give hkeeps hgives hsize⟩

/-- What every non-null pointer is: it lies 32 bytes behind a multiple of 16, before the bytes asked for. -/
theorem HeapBlocks.returned (hl : HeapBlocks y l) (hinit : y.kernel.heap.initialized = true)
    (hend : y.kernel.heap.currentEnd + 0x80000 < 2 ^ 64) (hsize : layout.size ≠ 0) {p : ℕ} {k' : Kernel}
    (hrun : Heap.allocate layout y.kernel = some (p, k')) (hp : p ≠ 0) :
    16 ∣ p ∧ layout.size ≤ Heap.size k'.bytes (p - Heap.headerSize) := by
  rcases hl.rep.allocate hinit hend layout hsize with ⟨p', k₁, l', he, hrep, hkeeps, -, hgives, -⟩
  rw [hrun] at he
  cases he
  rcases (hgives hp).block with ⟨o, m, ⟨l₁, l₂, rfl, rfl⟩, hm, hpo, -⟩
  constructor
  · have hstart := hl.rep.aligned
    have hsum := Heap.total_aligned fun c (hc : c ∈ l₁) => hrep.sized c (by simp [hc])
    omega
  · have hblock : Heap.size k'.bytes (k'.heap.start + Heap.total l₁) = m :=
      (Heap.focus_iff.mpr hrep.seg).header.size
    have hback : p - Heap.headerSize = k'.heap.start + Heap.total l₁ := by
      rw [hpo, hkeeps.start, Heap.headerSize]
      omega
    have hle := (layout.requestedSize_ok hsize).2.2
    rw [hback, hblock]
    omega

end Fit

section Samples

variable {info : BootInfo} {y : System}

/-- A state of the heap with its blocks and payloads, reached by well-behaved clients. -/
structure HeapState (info : BootInfo) (y : System) (l : List Heap.Block) (payloads : List (ℕ × Heap.Layout)) : Prop where
  behaved : Behaved info y
  initialized : y.kernel.heap.initialized = true
  start : y.kernel.heap.start = dynamicVirtStart.toNat
  blocks : HeapBlocks y l
  payloads : y.payloads = payloads

theorem fresh_state (hload : info.Loaded) {k₀ k : Kernel} (hvmm : Vmm.init info info.kernel = some k₀)
    (hheap : Heap.init k₀ = some k) : HeapState info (System.start k) [⟨131040, true⟩] [] := by
  obtain ⟨hb, hinit, hstart, hl⟩ := fresh_heap hload hvmm hheap
  exact ⟨hb, hinit, hstart, hl, rfl⟩

theorem HeapState.take (l₁ l₂ : List Heap.Block) (n : ℕ) {payloads : List (ℕ × Heap.Layout)} {layout : Heap.Layout}
    (h : HeapState info y (l₁ ++ ⟨n, true⟩ :: l₂) payloads) (hsize : layout.size ≠ 0)
    (hf : Heap.FirstFit layout.requestedSize (l₁ ++ ⟨n, true⟩ :: l₂) l₁ n l₂) :
    ∃ y', DisciplinedStep y (.heapAllocate layout) y' ∧
      Heap.allocate layout y.kernel = some (dynamicVirtStart.toNat + Heap.total l₁ + 32, y'.kernel) ∧
      HeapState info y' (l₁ ++ (Heap.taken n layout.requestedSize ++ l₂))
        ((dynamicVirtStart.toNat + Heap.total l₁ + 32, layout) :: payloads) := by
  obtain ⟨y', hstep, hinit, hstart, hrun, hpay, hl⟩ := h.blocks.take h.initialized hsize hf
  rw [h.start] at hrun hpay
  exact ⟨y', hstep, hrun, h.behaved.step hstep, hinit, hstart.trans h.start, hl, by rw [hpay, h.payloads]⟩

def smallLayout : Heap.Layout := ⟨64, 16, ⟨4, rfl⟩, by decide⟩

def lineLayout : Heap.Layout := ⟨64, 64, ⟨6, rfl⟩, by decide⟩

def doubleLayout : Heap.Layout := ⟨128, 16, ⟨4, rfl⟩, by decide⟩

theorem sample_pair : ∃ y y₁ y₂, HeapState sampleInfo y [⟨131040, true⟩] [] ∧
    DisciplinedStep y (.heapAllocate smallLayout) y₁ ∧ DisciplinedStep y₁ (.heapAllocate smallLayout) y₂ ∧
    Heap.allocate smallLayout y.kernel = some (dynamicVirtStart.toNat + 32, y₁.kernel) ∧
    Heap.allocate smallLayout y₁.kernel = some (dynamicVirtStart.toNat + 128, y₂.kernel) ∧
    HeapState sampleInfo y₁ [⟨64, false⟩, ⟨130944, true⟩] [(dynamicVirtStart.toNat + 32, smallLayout)] ∧
    HeapState sampleInfo y₂ [⟨64, false⟩, ⟨64, false⟩, ⟨130848, true⟩]
      [(dynamicVirtStart.toNat + 128, smallLayout), (dynamicVirtStart.toNat + 32, smallLayout)] := by
  obtain ⟨k₀, k, hvmm, hheap⟩ := sample_boots
  have h := fresh_state sampleInfo_loaded hvmm hheap
  have hsize : smallLayout.size ≠ 0 := by decide
  obtain ⟨y₁, hstep₁, hrun₁, h₁⟩ := h.take [] [] _ hsize ⟨rfl, by decide, by simp⟩
  obtain ⟨y₂, hstep₂, hrun₂, h₂⟩ := HeapState.take [⟨64, false⟩] [] 130944 h₁ hsize
    ⟨rfl, by decide, by simp [Heap.Fits]⟩
  exact ⟨_, y₁, y₂, h, hstep₁, hstep₂, hrun₁, hrun₂, h₁, h₂⟩

theorem sample_hole : ∃ y, HeapState sampleInfo y [⟨64, true⟩, ⟨64, false⟩, ⟨130848, true⟩]
    [(dynamicVirtStart.toNat + 128, smallLayout)] := by
  obtain ⟨-, -, y, -, -, -, -, -, -, h⟩ := sample_pair
  have hsize : smallLayout.size ≠ 0 := by decide
  have hmem : (dynamicVirtStart.toNat + 32, smallLayout) ∈ y.payloads := by rw [h.payloads]; simp
  have hstep : DisciplinedStep y (.heapDeallocate (dynamicVirtStart.toNat + 32) smallLayout) _ :=
    ⟨⟨.heapDeallocate, trivial⟩, .inr (List.mem_map.mpr ⟨_, hmem, rfl⟩)⟩
  obtain ⟨-, l, hrep, hpay, hused, -⟩ := h.blocks.payloads.free h.blocks.rep h.initialized hmem hsize
  have hframes := Heap.deallocate_frames (dynamicVirtStart.toNat + 32) smallLayout y.kernel
  have hlist : l = [⟨64, true⟩, ⟨64, false⟩, ⟨130848, true⟩] := by
    refine Heap.Apart.eq_of_used hrep.apart (by simp [Heap.Apart]) ?_ fun o n => ?_
    · have hstop := hrep.stop
      have hstop' := h.blocks.rep.stop
      rw [hframes.start, hframes.stop] at hstop
      have hsame : Heap.total [⟨64, false⟩, ⟨64, false⟩, ⟨130848, true⟩] =
          Heap.total [⟨64, true⟩, ⟨64, false⟩, ⟨130848, true⟩] := rfl
      omega
    · rw [hused, h.start]
      simp only [Heap.at_cons, Heap.at_nil, Heap.Block.mk.injEq, Heap.Block.span, Heap.headerSize, Bool.false_eq_true,
        and_true, and_false, false_and, false_or, or_false, exists_false]
      constructor
      · rintro ⟨⟨-, rfl⟩ | hsecond, hne⟩
        · exact absurd rfl hne
        · exact hsecond
      · rintro ⟨o', ⟨hn, ho'⟩, ho⟩
        exact ⟨.inr ⟨o', ⟨hn, ho'⟩, ho⟩, by omega⟩
  rw [hlist] at hrep hpay
  rw [if_neg hsize] at hstep
  rw [h.payloads] at hpay
  refine ⟨_, h.behaved.step hstep, hframes.initialized.trans h.initialized, hframes.start.trans h.start, ⟨hrep, ?_⟩, ?_⟩
  · dsimp only
    rw [h.payloads]
    exact hpay
  · dsimp only
    rw [h.payloads]
    rfl

end Samples
section Claims

variable {info : BootInfo} {y : System} {layout : Heap.Layout}

/-- In every state the heap is a well-formed list of blocks, every call returns, and no subtraction saturates. -/
theorem heap_well_formed (hload : info.Loaded) (h : Behaved info y) (hinit : y.kernel.heap.initialized = true) :
    (∃ l, Heap.Rep y.kernel.heap y.kernel.bytes l) ∧ Heap.verifyInvariants y.kernel = some (.ok ()) ∧
      (∀ layout, Heap.AllocateExact layout y.kernel ∧ ∃ p k, Heap.allocate layout y.kernel = some (p, k)) ∧
      ∀ x ∈ y.payloads, Heap.DeallocateExact x.1 y.kernel := by
  rcases h.blocks hload hinit with ⟨hend, l, hl⟩
  refine ⟨⟨l, hl.rep⟩, hl.rep.verify hinit, fun layout => ?_, fun x hx => ?_⟩
  · exact ⟨hl.rep.allocateExact hend layout, allocate_returns hl hinit hend layout⟩
  · rcases hl.payloads.used x hx with ⟨o, n, ⟨l₁, l₂, rfl, rfl⟩, hp, -⟩
    rw [hp]
    exact hl.rep.deallocateExact

/-- Two payloads were allocated and one of them freed. -/
theorem sample_heap_well_formed : ∃ y x, Behaved sampleInfo y ∧ y.kernel.heap.initialized = true ∧
    y.payloads = [(x, smallLayout)] ∧ (∃ free, Heap.Rep y.kernel.heap y.kernel.bytes [⟨64, true⟩, ⟨64, false⟩, free]) ∧
    Heap.verifyInvariants y.kernel = some (.ok ()) ∧ Heap.DeallocateExact x y.kernel := by
  obtain ⟨y, h⟩ := sample_hole
  obtain ⟨-, hverify, -, hexact⟩ := heap_well_formed sampleInfo_loaded h.behaved h.initialized
  exact ⟨y, _, h.behaved, h.initialized, h.payloads, ⟨_, h.blocks.rep⟩, hverify,
    hexact (dynamicVirtStart.toNat + 128, smallLayout) (by simp [h.payloads])⟩

/-- Live payloads are disjoint, inside the heap and free of headers; only their owner and their own free touch them. -/
theorem payloads_private (hload : info.Loaded) (h : Behaved info y) (hinit : y.kernel.heap.initialized = true) :
    (y.payloads.Pairwise fun x x' => Heap.Disjoint x.1 x.2.size x'.1 x'.2.size) ∧
      (∃ l, Heap.Rep y.kernel.heap y.kernel.bytes l ∧ ∀ x ∈ y.payloads,
        y.kernel.heap.start ≤ x.1 ∧ x.1 + x.2.size ≤ y.kernel.heap.currentEnd ∧
        ∀ a, x.1 ≤ a → a < x.1 + x.2.size → ¬ Heap.InHeader y.kernel.heap.start l a) ∧
      (∀ op y', DisciplinedStep y op y' → (∀ bytes, op ≠ .write bytes) → ∀ x ∈ y.payloads,
        (∀ layout, op = .heapDeallocate x.1 layout → layout.size = 0) →
        ∀ a, x.1 ≤ a → a < x.1 + x.2.size → y'.kernel.bytes a = y.kernel.bytes a) ∧
      ∀ x ∈ y.payloads, ∀ layout : Heap.Layout, layout.size ≠ 0 →
        x.2.size ≤ Heap.size y.kernel.bytes (x.1 - Heap.headerSize) ∧
        ∀ a, x.1 ≤ a → a < x.1 + Heap.size y.kernel.bytes (x.1 - Heap.headerSize) →
          (Heap.deallocate x.1 layout y.kernel).bytes a = 0xDE := by
  rcases h.blocks hload hinit with ⟨hend, l, hl⟩
  refine ⟨hl.payloads.disjoint, ⟨l, hl.rep, fun x hx => hl.payloads.inside hl.rep hx⟩,
    fun op y' hstep hwrite x hx hfree a ha hlt => hl.untouched hinit hend hstep hwrite hx hfree ha hlt,
    fun x hx layout hsize => ⟨?_, ?_⟩⟩
  · rcases hl.payloads.used x hx with ⟨o, n, ⟨l₁, l₂, rfl, rfl⟩, hp, hs⟩
    have hblock : Heap.size y.kernel.bytes (y.kernel.heap.start + Heap.total l₁) = n :=
      (Heap.focus_iff.mpr hl.rep.seg).header.size
    have hback : x.1 - Heap.headerSize = y.kernel.heap.start + Heap.total l₁ := by
      rw [hp, Heap.headerSize]
      omega
    rw [hback, hblock]
    exact hs
  · rcases hl.payloads.free hl.rep hinit hx hsize with ⟨-, -, -, -, -, -, hpoison⟩
    exact hpoison

theorem sample_payloads_private : ∃ y p q, Behaved sampleInfo y ∧ y.kernel.heap.initialized = true ∧
    y.payloads = [(p, smallLayout), (q, smallLayout)] ∧ Heap.Disjoint p 64 q 64 := by
  obtain ⟨-, -, y, -, -, -, -, -, -, h⟩ := sample_pair
  have hpair := (payloads_private sampleInfo_loaded h.behaved h.initialized).1
  rw [h.payloads, List.pairwise_pair] at hpair
  exact ⟨y, _, _, h.behaved, h.initialized, h.payloads, hpair⟩

/-- First fit, and the exact condition for a null pointer. -/
theorem allocate_first_fit (hload : info.Loaded) (h : Behaved info y) (hinit : y.kernel.heap.initialized = true)
    (hsize : layout.size ≠ 0) :
    ∃ l, Heap.Rep y.kernel.heap y.kernel.bytes l ∧
      (∀ l₁ n l₂, Heap.FirstFit layout.requestedSize l l₁ n l₂ → ∃ k',
        Heap.allocate layout y.kernel = some (y.kernel.heap.start + Heap.total l₁ + 32, k') ∧
        Heap.SameFrames y.kernel k') ∧
      ((∀ b ∈ l, ¬ Heap.Fits layout.requestedSize b) →
        (∃ k₁, Heap.expandHeap layout.requestedSize y.kernel = some (false, k₁) ∧
          Heap.allocate layout y.kernel = some (0, k₁) ∧ k₁.heap = y.kernel.heap ∧ k₁.bytes = y.kernel.bytes) ∨
        ∃ k₁ p k', Heap.expandHeap layout.requestedSize y.kernel = some (true, k₁) ∧ p ≠ 0 ∧
          Heap.allocate layout y.kernel = some (p, k') ∧ Heap.allocate layout k₁ = some (p, k')) ∧
      ∀ k', Heap.allocate layout y.kernel = some (0, k') ↔
        (∀ b ∈ l, ¬ Heap.Fits layout.requestedSize b) ∧
          Heap.expandHeap layout.requestedSize y.kernel = some (false, k') := by
  rcases h.blocks hload hinit with ⟨hend, l, hl⟩
  rcases layout.requestedSize_ok hsize with ⟨hal, hmin, -⟩
  have hfit : ∀ l₁ n l₂, Heap.FirstFit layout.requestedSize l l₁ n l₂ → ∃ k',
      Heap.allocate layout y.kernel = some (y.kernel.heap.start + Heap.total l₁ + 32, k') ∧
        Heap.SameFrames y.kernel k' := by
    intro l₁ n l₂ hf
    have hframes := Heap.takeBlock_frames (y.kernel.heap.start + Heap.total l₁) layout.requestedSize y.kernel
    exact ⟨_, hl.rep.allocate_fit hinit hsize hf, hframes⟩
  refine ⟨l, hl.rep, hfit, fun hnone => ?_, fun k' => ?_⟩
  · rcases hl.rep.allocate_grow hinit hend hsize hnone with
      ⟨k₁, he, hheap, hbytes, hrun⟩ | ⟨k₁, l', l₁, n, l₂, he, hrep, hready, -, hf, hrun⟩
    · exact .inl ⟨k₁, he, hrun, hheap, hbytes⟩
    · refine .inr ⟨k₁, _, _, he, ?_, hrun, hrep.allocate_fit hready hsize hf⟩
      change k₁.heap.start + Heap.total l₁ + Heap.headerSize ≠ 0
      rw [Heap.headerSize]
      omega
  · constructor
    · intro hrun
      have hnone : ∀ b ∈ l, ¬ Heap.Fits layout.requestedSize b := by
        intro b hb hbad
        rcases Heap.FirstFit.exists ⟨b, hb, hbad⟩ with ⟨l₁, n, l₂, hf⟩
        rcases hfit l₁ n l₂ hf with ⟨k₁, he, -⟩
        rw [hrun, Option.some.injEq, Prod.mk.injEq] at he
        omega
      refine ⟨hnone, ?_⟩
      rcases hl.rep.allocate_grow hinit hend hsize hnone with
        ⟨k₁, he, -, -, hrun'⟩ | ⟨k₁, l', l₁, n, l₂, he, hrep, hready, -, hf, hrun'⟩
      · rw [hrun, Option.some.injEq, Prod.mk.injEq] at hrun'
        rw [he, hrun'.2]
      · have hnull : 0 = k₁.heap.start + Heap.total l₁ + Heap.headerSize := by
          rw [hrun] at hrun'
          exact congrArg Prod.fst (Option.some.inj hrun')
        rw [Heap.headerSize] at hnull
        omega
    · rintro ⟨hnone, he⟩
      exact Heap.allocate_stuck hsize hinit (hl.rep.finds_none true hnone) he

/-- With 64 bytes free before the payload in use, 64 bytes go there and 128 bytes behind it. -/
theorem sample_first_fit : ∃ y k₁ k₂, HeapState sampleInfo y [⟨64, true⟩, ⟨64, false⟩, ⟨130848, true⟩]
      [(dynamicVirtStart.toNat + 128, smallLayout)] ∧
    Heap.allocate smallLayout y.kernel = some (dynamicVirtStart.toNat + 32, k₁) ∧
    Heap.allocate doubleLayout y.kernel = some (dynamicVirtStart.toNat + 224, k₂) := by
  obtain ⟨y, h⟩ := sample_hole
  obtain ⟨l, hrep, hfit, -⟩ := allocate_first_fit sampleInfo_loaded h.behaved h.initialized (show smallLayout.size ≠ 0 by decide)
  obtain ⟨l', hrep', hfit', -⟩ := allocate_first_fit sampleInfo_loaded h.behaved h.initialized
    (show doubleLayout.size ≠ 0 by decide)
  cases hrep.unique h.blocks.rep
  cases hrep'.unique h.blocks.rep
  obtain ⟨k₁, hrun₁, -⟩ := hfit [] 64 _ ⟨rfl, by decide, by simp⟩
  obtain ⟨k₂, hrun₂, -⟩ := hfit' [⟨64, true⟩, ⟨64, false⟩] 130848 [] ⟨rfl, by decide, by simp [Heap.Fits]; decide⟩
  rw [h.start] at hrun₁ hrun₂
  exact ⟨y, k₁, k₂, h, hrun₁, hrun₂⟩

def tinyLayout : Heap.Layout := ⟨16, 16, ⟨4, rfl⟩, by decide⟩

theorem exists_layout {align : ℕ} (h : ∃ layout : Heap.Layout, layout.size ≠ 0 ∧ layout.align = align) :
    ∃ layout : Heap.Layout, layout.size = 16 ∧ layout.align = align := by
  obtain ⟨layout, hsize, rfl⟩ := h
  obtain ⟨n, hn⟩ := layout.powerOfTwo
  have hfits := layout.fits
  have hpos : 0 < layout.align := by
    rw [hn]
    exact Nat.two_pow_pos n
  refine ⟨⟨16, layout.align, ⟨n, hn⟩, ?_⟩, rfl, rfl⟩
  have hle := Nat.div_mul_le_self (16 + layout.align - 1) layout.align
  by_cases hsmall : layout.align ≤ 16
  · omega
  · have hone : (16 + layout.align - 1) / layout.align = 1 := Nat.div_eq_of_lt_le (by omega) (by omega)
    have hmore : 1 ≤ (layout.size + layout.align - 1) / layout.align := (Nat.one_le_div_iff hpos).mpr (by omega)
    have hmul := Nat.mul_le_mul_right layout.align hmore
    rw [hone]
    omega

/-- Every block is large enough for what was asked; an alignment is honoured in every state exactly if it is at most 16. -/
theorem allocate_aligned_iff (hload : info.Loaded) {k₀ k : Kernel} (hvmm : Vmm.init info info.kernel = some k₀)
    (hheap : Heap.init k₀ = some k) {align : ℕ} (halign : ∃ layout : Heap.Layout, layout.size ≠ 0 ∧ layout.align = align) :
    (∀ y, Behaved info y → y.kernel.heap.initialized = true → ∀ layout : Heap.Layout, layout.size ≠ 0 → ∀ p k',
      Heap.allocate layout y.kernel = some (p, k') → p ≠ 0 → layout.size ≤ Heap.size k'.bytes (p - Heap.headerSize)) ∧
    ((∀ y, Behaved info y → y.kernel.heap.initialized = true → ∀ layout : Heap.Layout, layout.size ≠ 0 →
      layout.align = align → ∀ p k', Heap.allocate layout y.kernel = some (p, k') → p ≠ 0 → align ∣ p) ↔ align ≤ 16) := by
  refine ⟨fun y hy hinit layout hsize p k' hrun hp => ?_, ?_, ?_⟩
  · obtain ⟨hend, l, hl⟩ := hy.blocks hload hinit
    exact (hl.returned hinit hend hsize hrun hp).2
  · intro hall
    by_contra hgt
    obtain ⟨layout, hsize, hlayout⟩ := exists_layout halign
    obtain ⟨n, hn⟩ := layout.powerOfTwo
    have hreq : layout.requestedSize = 16 := by rw [Heap.Layout.requestedSize, hsize]
    obtain ⟨y₁, -, -, h₁⟩ := (fresh_state hload hvmm hheap).take [] [] _ (show tinyLayout.size ≠ 0 by decide)
      ⟨rfl, by decide, by simp⟩
    obtain ⟨y₂, -, hrun, -⟩ := HeapState.take [⟨16, false⟩] [] 130992 h₁
      (show layout.size ≠ 0 by omega) ⟨rfl, by rw [hreq]; omega, by simp [Heap.Fits]⟩
    have hdvd := hall y₁ h₁.behaved h₁.initialized layout (by omega) hlayout _ _ hrun (by omega)
    have hn5 : 5 ≤ n := by
      by_contra hlt
      have hpow := Nat.pow_le_pow_right (show 0 < 2 by omega) (show n ≤ 4 by omega)
      omega
    have hodd : 32 ∣ dynamicVirtStart.toNat + Heap.total [⟨16, false⟩] + 32 := by
      refine dvd_trans ?_ hdvd
      rw [← hlayout, hn]
      exact pow_dvd_pow 2 hn5
    revert hodd
    decide
  · intro hle y hy hinit layout hsize hlayout p k' hrun hp
    obtain ⟨hend, l, hl⟩ := hy.blocks hload hinit
    obtain ⟨n, hn⟩ := layout.powerOfTwo
    have hn4 : n ≤ 4 := by
      by_contra hgt
      have hpow := Nat.pow_lt_pow_right (a := 2) (by omega) (show 4 < n by omega)
      omega
    rw [← hlayout, hn]
    exact (pow_dvd_pow 2 hn4).trans (hl.returned hinit hend hsize hrun hp).1

/-- The pointer for a layout of 16 bytes on a boundary of 16, behind a first payload. -/
theorem sample_aligned : ∃ y p k', Behaved sampleInfo y ∧ y.payloads ≠ [] ∧
    Heap.allocate tinyLayout y.kernel = some (p, k') ∧ p ≠ 0 ∧ 16 ∣ p := by
  obtain ⟨k₀, k, hvmm, hheap⟩ := sample_boots
  obtain ⟨y₁, -, -, h₁⟩ := (fresh_state sampleInfo_loaded hvmm hheap).take [] [] _
    (show tinyLayout.size ≠ 0 by decide) ⟨rfl, by decide, by simp⟩
  obtain ⟨y₂, -, hrun, -⟩ := HeapState.take [⟨16, false⟩] [] 130992 h₁
    (show tinyLayout.size ≠ 0 by decide) ⟨rfl, by decide, by simp [Heap.Fits]⟩
  have haligned := (allocate_aligned_iff sampleInfo_loaded hvmm hheap ⟨tinyLayout, by decide, rfl⟩).2.mpr (le_refl 16)
  exact ⟨y₁, _, _, h₁.behaved, by simp [h₁.payloads], hrun, by omega,
    haligned y₁ h₁.behaved h₁.initialized tinyLayout (by decide) rfl _ _ hrun (by omega)⟩

/-- A fresh heap returns a pointer that is no multiple of 64 for a layout that asks for that. -/
theorem sample_misaligned : ∃ y p k', Behaved sampleInfo y ∧ y.kernel.heap.initialized = true ∧
    Heap.allocate lineLayout y.kernel = some (p, k') ∧ p ≠ 0 ∧ ¬ lineLayout.align ∣ p := by
  obtain ⟨k₀, k, hvmm, hheap⟩ := sample_boots
  have h := fresh_state sampleInfo_loaded hvmm hheap
  obtain ⟨y₁, -, hrun, -⟩ := h.take [] [] _ (show lineLayout.size ≠ 0 by decide) ⟨rfl, by decide, by simp⟩
  exact ⟨_, _, _, h.behaved, h.initialized, hrun, by omega, by decide⟩

end Claims
end VenturaOS.Machine
