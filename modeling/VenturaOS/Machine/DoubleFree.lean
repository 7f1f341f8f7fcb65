import VenturaOS.Heap.Stale
import VenturaOS.Machine.HeapSafety

/-!
# Freeing twice

A pointer that was returned once and whose header address has become part of
a free block is refused by `deallocate`, whatever has happened to the block
since.
-/
namespace VenturaOS.Machine
open Library Memory Pmm Paging Vmm AddressSpaces

/-- The aligned heap address `h` holds nothing `deallocate` accepts, unless it lies in a used block. -/
structure Watched (info : BootInfo) (h : ℕ) (y : System) (l : List Heap.Block) : Prop where
  behaved : Behaved info y
  initialized : y.kernel.heap.initialized = true
  blocks : HeapBlocks y l
  low : y.kernel.heap.start ≤ h
  high : h < y.kernel.heap.currentEnd
  aligned : h % 16 = 0
  dead : ¬ Heap.InUsed y.kernel.heap.start l h → Heap.Dead y.kernel.bytes h

section

variable {info : BootInfo} {y y' y₀ y₁ : System} {op : Op} {ops : List Op} {l : List Heap.Block} {h p : ℕ}

theorem Watched.write (hw : Watched info h y l) {bytes : Bytes} (hstep : DisciplinedStep y (.write bytes) y') :
    Watched info h y' l := by
  have hb := hw.behaved.step hstep
  rcases hstep with ⟨⟨hstep, -⟩, hdisc⟩
  cases hstep
  refine ⟨hb, hw.initialized, hw.blocks.write hdisc, hw.low, hw.high, hw.aligned, fun hout => ?_⟩
  refine (hw.dead hout).congr fun z hz hlt => ?_
  by_contra hne
  have hstart := hw.blocks.rep.aligned
  have hstop := hw.blocks.rep.stop
  have htotal := Heap.total_aligned hw.blocks.rep.sized
  have hal := hw.aligned
  have hlow := hw.low
  have hhigh := hw.high
  rcases hdisc z hne with ⟨x, hx, hle, hin⟩ | hbad | hbad
  · rcases hw.blocks.payloads.used x hx with ⟨o, n, hat, hp, hs⟩
    refine hout ⟨o, n, hat, ?_⟩
    dsimp only
    rcases hat with ⟨l₁, l₂, rfl, rfl⟩
    have hplace := ((Heap.focus_iff.mpr hw.blocks.rep.seg).aligned hw.blocks.rep.sized hstart).1
    have hn := hw.blocks.rep.sized ⟨n, false⟩ (by simp)
    dsimp only at hn
    omega
  · omega
  · omega

theorem Watched.keeps (hw : Watched info h y l) (hb : Behaved info y') (hinit : y'.kernel.heap.initialized = true)
    {l' : List Heap.Block} (hl : HeapBlocks y' l') (hk : Heap.Keeps y.kernel y'.kernel l l') : Watched info h y' l' where
  behaved := hb
  initialized := hinit
  blocks := hl
  low := by
    rw [hk.start]
    exact hw.low
  high := hw.high.trans_le hk.stop
  aligned := hw.aligned
  dead hout := by
    rw [hk.start] at hout
    exact hk.dead hw.blocks.rep hl.rep hw.aligned hw.low hw.high hw.dead hout

theorem Watched.free (hw : Watched info h y l) (hb : Behaved info y') {x : ℕ × Heap.Layout} (hx : x ∈ y.payloads)
    {layout : Heap.Layout} (hsize : layout.size ≠ 0) (hk : y'.kernel = Heap.deallocate x.1 layout y.kernel)
    (hpay : y'.payloads = y.payloads.filter fun z => z.1 ≠ x.1) : ∃ l', Watched info h y' l' := by
  rcases hw.blocks.payloads.free hw.blocks.rep hw.initialized hx hsize with ⟨-, l', hrep, hpay', hused, -⟩
  have hframes := Heap.deallocate_frames x.1 layout y.kernel
  refine ⟨l', hb, ?_, ⟨?_, ?_⟩, ?_, ?_, hw.aligned, ?_⟩
  · rw [hk]
    exact hframes.initialized.trans hw.initialized
  · rw [hk]
    exact hrep
  · rw [hk, hpay]
    exact hpay'
  · rw [hk, hframes.start]
    exact hw.low
  · rw [hk, hframes.stop]
    exact hw.high
  · rw [hk, hframes.start]
    intro hout
    rcases hw.blocks.payloads.used x hx with ⟨o, n, hat, hp, -⟩
    have hthis := hat
    rcases hat with ⟨l₁, l₂, rfl, rfl⟩
    have hheader := (Heap.focus_iff.mpr hw.blocks.rep.seg).header
    rw [hp, Heap.deallocate_eq hheader hw.initialized layout hsize]
    refine hw.blocks.rep.freed_dead hw.aligned fun hspan => hw.dead ?_
    rintro ⟨o, m, hat', hin⟩
    by_cases hsame : y.kernel.heap.start + o + 32 = x.1
    · have ho : o = Heap.total l₁ := by omega
      subst ho
      rcases hat'.apart hthis with ⟨-, he⟩ | hle | hle
      · cases he
        exact hspan hin
      · dsimp only at hle
        omega
      · dsimp only at hle
        omega
    · exact hout ⟨o, m, (hused o m).mpr ⟨hat', hsame⟩, hin⟩

theorem Watched.step (hload : info.Loaded) (hw : Watched info h y l) (hstep : DisciplinedStep y op y') :
    ∃ l', Watched info h y' l' := by
  have hb := hw.behaved.step hstep
  have hinit := hw.initialized
  rcases hw.behaved.blocks hload hinit with ⟨hend, -⟩
  have hall := hstep
  rcases hstep with ⟨⟨hstep, -⟩, hdisc⟩
  cases hop : op.onHeap with
  | false =>
    have hs := hstep.sameHeap hop
    exact ⟨l, hw.keeps hb (by rw [hs.heap]; exact hinit) (hw.blocks.same hs) (.of_eq l hs.heap hs.bytes)⟩
  | true =>
    cases hstep with
    | heapInit hrun =>
      rw [Heap.init_initialized hinit] at hrun
      cases hrun
      exact ⟨l, hw⟩
    | heapExpand hrun =>
      rcases hw.blocks.expand hend hrun with ⟨l', hl', hi, hk⟩
      exact ⟨l', hw.keeps hb (hi.trans hinit) hl' hk⟩
    | @heapAllocate layout p k hrun =>
      by_cases hsize : layout.size = 0
      · cases allocate_empty hsize hrun
        rw [if_pos (.inl hsize)] at hb ⊢
        exact ⟨l, hw⟩
      · rcases hw.blocks.allocate hinit hend hsize hrun with ⟨l', hl', hi, hk⟩
        exact ⟨l', hw.keeps hb hi hl' hk⟩
    | @heapDeallocate p layout =>
      by_cases hsize : layout.size = 0
      · rw [if_pos hsize, deallocate_empty p hsize]
        exact ⟨l, hw⟩
      · rcases List.mem_map.mp (hdisc.resolve_left hsize) with ⟨x, hx, rfl⟩
        rw [if_neg hsize] at hb ⊢
        exact hw.free hb hx hsize rfl rfl
    | write => exact ⟨l, hw.write hall⟩
    | _ => cases hop

theorem watched_start (hload : info.Loaded) (hy : Behaved info y₀) (hinit : y₀.kernel.heap.initialized = true)
    {layout : Heap.Layout} (hstep : DisciplinedStep y₀ (.heapAllocate layout) y₁)
    (hrun : Heap.allocate layout y₀.kernel = some (h + 32, y₁.kernel)) : ∃ l, Watched info h y₁ l := by
  have hb := hy.step hstep
  rcases hy.blocks hload hinit with ⟨hend, l, hl⟩
  have hsize : layout.size ≠ 0 := by
    intro hzero
    rw [Heap.allocate, if_pos hzero, Option.some.injEq, Prod.mk.injEq] at hrun
    omega
  rcases hstep with ⟨⟨hstep, -⟩, -⟩
  cases hstep with
  | heapAllocate hrun' =>
    dsimp only at hrun
    rw [hrun'] at hrun
    cases hrun
    rcases hl.allocate hinit hend hsize hrun' with ⟨l', hl', hi, -⟩
    rw [if_neg (by omega)] at hb hl' ⊢
    rcases hl'.payloads.used (h + 32, layout) (by simp) with ⟨o, n, hat, hp, -⟩
    dsimp only at hp
    have hbounds := hat.bounds
    have hstop := hl'.rep.stop
    have hthis := hat
    rcases hat with ⟨l₁, l₂, rfl, rfl⟩
    have hplace := ((Heap.focus_iff.mpr hl'.rep.seg).aligned hl'.rep.sized hl'.rep.aligned).1
    dsimp only at hbounds hstop hplace
    refine ⟨_, hb, hi, hl', by dsimp only; omega, by dsimp only; omega, by omega, fun hout => ?_⟩
    exact absurd ⟨_, n, hthis, by dsimp only; omega, by dsimp only; omega⟩ hout

/-- Freeing a pointer again changes nothing once its header address lies in a free block. -/
theorem double_free_ignored (hload : info.Loaded) (hy : Behaved info y₀) (hinit : y₀.kernel.heap.initialized = true)
    {layout : Heap.Layout} (hstep : DisciplinedStep y₀ (.heapAllocate layout) y₁)
    (hret : Heap.allocate layout y₀.kernel = some (h + 32, y₁.kernel)) (hrun : Run DisciplinedStep y₁ ops y) :
    ∃ l, Heap.Rep y.kernel.heap y.kernel.bytes l ∧ ∀ o n, Heap.At l o ⟨n, true⟩ → y.kernel.heap.start + o ≤ h →
      h < y.kernel.heap.start + o + 32 + n → ∀ layout', Heap.deallocate (h + 32) layout' y.kernel = y.kernel := by
  have hstart : ∃ l, Watched info h y₁ l := watched_start hload hy hinit hstep hret
  have hkept : ∀ s op t, (∃ l, Watched info h s l) → DisciplinedStep s op t → ∃ l, Watched info h t l := by
    rintro s op t ⟨l, hl⟩ hs
    exact hl.step hload hs
  rcases hrun.invariant (fun y => ∃ l, Watched info h y l) hkept hstart with ⟨l, hw⟩
  refine ⟨l, hw.blocks.rep, fun o n hat hle hlt layout' => ?_⟩
  refine Heap.deallocate_dead (hw.dead ?_) layout'
  rintro ⟨o', m, hat', hin⟩
  rcases hat'.apart hat with ⟨-, he⟩ | hbad | hbad
  · cases he
  · dsimp only at hbad
    omega
  · dsimp only at hbad
    omega

end

/-- With no payload in use every place of the heap lies in a free block. -/
theorem HeapBlocks.free_at {y : System} {l : List Heap.Block} {h : ℕ} (hl : HeapBlocks y l) (hnone : y.payloads = [])
    (hle : y.kernel.heap.start ≤ h) (hlt : h < y.kernel.heap.currentEnd) :
    ∃ o n, Heap.At l o ⟨n, true⟩ ∧ y.kernel.heap.start + o ≤ h ∧ h < y.kernel.heap.start + o + 32 + n := by
  have hstop := hl.rep.stop
  have hin : h - y.kernel.heap.start < Heap.total l := by omega
  rcases Heap.exists_block hin with ⟨o, ⟨n, free⟩, hat, hlo, hhi⟩
  dsimp only at hhi
  cases free with
  | true => exact ⟨o, n, hat, by omega, by omega⟩
  | false =>
    have hbad := hl.payloads.exact o n hat
    rw [hnone] at hbad
    cases hbad

/-- A block that was freed and merged is not freed a second time. -/
theorem sample_double_free : ∃ y, Behaved sampleInfo y ∧
    (∃ x ∈ y.payloads, x.1 = dynamicVirtStart.toNat + 32) ∧ ∀ k,
    k = Heap.deallocate (dynamicVirtStart.toNat + 32) smallLayout y.kernel →
    Heap.deallocate (dynamicVirtStart.toNat + 32) smallLayout k = k := by
  have hsize : smallLayout.size ≠ 0 := by decide
  obtain ⟨y₀, y₁, -, h₀, hstep, -, hret, -, h₁, -⟩ := sample_pair
  have hy := h₀.behaved
  have hinit := h₀.initialized
  have hpay := h₁.payloads
  have hmem : (dynamicVirtStart.toNat + 32, smallLayout) ∈ y₁.payloads := by simp [hpay]
  have hfree : DisciplinedStep y₁ (.heapDeallocate (dynamicVirtStart.toNat + 32) smallLayout) _ :=
    ⟨⟨.heapDeallocate, trivial⟩, .inr (List.mem_map.mpr ⟨_, hmem, rfl⟩)⟩
  rw [if_neg hsize] at hfree
  refine ⟨y₁, hy.step hstep, ⟨_, hmem, rfl⟩, fun k hk => ?_⟩
  rcases double_free_ignored sampleInfo_loaded hy hinit hstep hret (.single hfree) with ⟨l, hl, hagain⟩
  rcases watched_start sampleInfo_loaded hy hinit hstep hret with ⟨l₁, hw⟩
  rcases hw.step sampleInfo_loaded hfree with ⟨l₂, hw₂⟩
  cases hl.unique hw₂.blocks.rep
  rcases hw₂.blocks.free_at (by simp [hpay]) hw₂.low hw₂.high with ⟨o, n, hat, hle, hlt⟩
  have hgoal := hagain o n hat hle hlt smallLayout
  rw [hk]
  exact hgoal

end VenturaOS.Machine
