import VenturaOS.Machine.HeapSafety

/-!
# Freeing in any order

Allocations that do not grow the heap are undone by freeing what they
returned, in whichever order that happens: the used blocks that remain
determine the whole list.
-/
namespace VenturaOS.Machine
open Library Memory Pmm Paging Vmm AddressSpaces

/-- Successful allocations without a growth, newest first; clients may write meanwhile. -/
inductive Allocations (y : System) : List (ℕ × Heap.Layout) → System → Prop
  | none : Allocations y [] y
  | write {ps : List (ℕ × Heap.Layout)} {y₁ y₂ : System} {bytes : Bytes} :
      Allocations y ps y₁ → DisciplinedStep y₁ (.write bytes) y₂ → Allocations y ps y₂
  | call {ps : List (ℕ × Heap.Layout)} {y₁ : System} {layout : Heap.Layout} {p : ℕ} {k : Kernel} :
      Allocations y ps y₁ → layout.size ≠ 0 → Heap.allocate layout y₁.kernel = some (p, k) → p ≠ 0 →
      k.heap.currentEnd = y₁.kernel.heap.currentEnd →
      Allocations y ((p, layout) :: ps) { y₁ with kernel := k, payloads := (p, layout) :: y₁.payloads }

/-- Calls of `deallocate` with any nonzero layouts, newest first; clients may write meanwhile. -/
inductive Frees (y : System) : List ℕ → System → Prop
  | none : Frees y [] y
  | write {ps : List ℕ} {y₁ y₂ : System} {bytes : Bytes} :
      Frees y ps y₁ → DisciplinedStep y₁ (.write bytes) y₂ → Frees y ps y₂
  | call {ps : List ℕ} {y₁ : System} {layout : Heap.Layout} {p : ℕ} :
      Frees y ps y₁ → layout.size ≠ 0 →
      Frees y (p :: ps)
        { y₁ with
          kernel := Heap.deallocate p layout y₁.kernel
          payloads := y₁.payloads.filter fun x => x.1 ≠ p }

section

variable {info : BootInfo} {y y₁ y₂ : System} {l : List Heap.Block}

/-- A later state with its blocks, over the same extent as in `y`. -/
structure Later (y y₁ : System) (l₁ : List Heap.Block) : Prop where
  behaved : ∃ info : BootInfo, info.Loaded ∧ Behaved info y₁
  initialized : y₁.kernel.heap.initialized = true
  blocks : HeapBlocks y₁ l₁
  start : y₁.kernel.heap.start = y.kernel.heap.start
  stop : y₁.kernel.heap.currentEnd = y.kernel.heap.currentEnd

theorem Later.total_eq {l₁ : List Heap.Block} (h : Later y y₁ l₁) (hl : HeapBlocks y l) :
    Heap.total l₁ = Heap.total l := by
  have hstop := hl.rep.stop
  have hstop₁ := h.blocks.rep.stop
  rw [h.start, h.stop] at hstop₁
  omega

theorem Later.write {l₁ : List Heap.Block} (h : Later y y₁ l₁) {bytes : Bytes}
    (hstep : DisciplinedStep y₁ (.write bytes) y₂) : Later y y₂ l₁ := by
  rcases h with ⟨⟨info, hload, hb⟩, hinit, hl, hstart, hstop⟩
  have hb' := hb.step hstep
  rcases hstep with ⟨⟨hstep, -⟩, hdisc⟩
  cases hstep
  exact ⟨⟨info, hload, hb'⟩, hinit, hl.write hdisc, hstart, hstop⟩

/-- Allocations add used blocks, one for each pointer. -/
theorem Allocations.blocks {ps : List (ℕ × Heap.Layout)} (h : Allocations y ps y₁) (hload : info.Loaded)
    (hy : Behaved info y) (hinit : y.kernel.heap.initialized = true) (hl : HeapBlocks y l) :
    ∃ l₁, Later y y₁ l₁ ∧ y₁.payloads = ps ++ y.payloads ∧
      (∀ o n, Heap.At l o ⟨n, false⟩ → Heap.At l₁ o ⟨n, false⟩) ∧
      ∀ o n, Heap.At l₁ o ⟨n, false⟩ →
        Heap.At l o ⟨n, false⟩ ∨ y.kernel.heap.start + o + 32 ∈ ps.map Prod.fst := by
  induction h with
  | none => exact ⟨l, ⟨⟨info, hload, hy⟩, hinit, hl, rfl, rfl⟩, rfl, fun _ _ => id, fun _ _ => .inl⟩
  | write _ hstep ih =>
    rcases ih with ⟨l₁, hlater, hpay, hkept, hnew⟩
    refine ⟨l₁, hlater.write hstep, ?_, hkept, hnew⟩
    rcases hstep with ⟨⟨hstep, -⟩, -⟩
    cases hstep
    exact hpay
  | @call ps y₁ layout p k _ hsize hrun hp hstop ih =>
    rcases ih with ⟨l₁, hlater, hpay, hkept, hnew⟩
    rcases hlater.behaved with ⟨info, hload, hb⟩
    rcases hb.blocks hload hlater.initialized with ⟨hend, -⟩
    have hstep : Step y₁ (.heapAllocate layout) _ := .heapAllocate hrun
    rw [if_neg (not_or_intro hsize hp)] at hstep
    rcases hlater.blocks.rep.allocate hlater.initialized hend layout hsize with
      ⟨p', k', l₂, he, hrep, hkeeps, -, hgives, -⟩
    rw [hrun] at he
    cases he
    have hgive := hgives hp
    rcases hlater.blocks.allocate hlater.initialized hend hsize hrun with ⟨-, -, hready, -⟩
    refine ⟨l₂, ⟨⟨info, hload, hb.step ⟨⟨hstep, trivial⟩, trivial⟩⟩, hready,
      ⟨hrep, hlater.blocks.payloads.give hkeeps hgive hsize⟩, hkeeps.start.trans hlater.start,
      hstop.trans hlater.stop⟩, ?_, ?_, ?_⟩
    · dsimp only
      rw [hpay]
      rfl
    · exact fun o n hat => hkeeps.used (hkept o n hat)
    · intro o n hat
      rcases hgive.block with ⟨o', m, -, -, hptr, -, honly⟩
      rw [hlater.start] at hptr
      rcases honly o n hat with rfl | hold
      · exact .inr (by simp [hptr])
      · rcases hnew o n hold with hold | hmem
        · exact .inl hold
        · exact .inr (by simp [hmem])

/-- Freeing live pointers takes away their used blocks and nothing else. -/
theorem Frees.blocks {qs : List ℕ} (h : Frees y qs y₁) (hload : info.Loaded) (hy : Behaved info y)
    (hinit : y.kernel.heap.initialized = true) (hl : HeapBlocks y l) (hnodup : qs.Nodup)
    (hlive : ∀ q ∈ qs, q ∈ y.payloads.map Prod.fst) :
    ∃ l₁, Later y y₁ l₁ ∧ (∀ q ∈ y.payloads.map Prod.fst, q ∉ qs → q ∈ y₁.payloads.map Prod.fst) ∧
      ∀ o n, Heap.At l₁ o ⟨n, false⟩ ↔ Heap.At l o ⟨n, false⟩ ∧ y.kernel.heap.start + o + 32 ∉ qs := by
  induction h with
  | none => exact ⟨l, ⟨⟨info, hload, hy⟩, hinit, hl, rfl, rfl⟩, fun q hq _ => hq, by simp⟩
  | write _ hstep ih =>
    rcases ih hnodup hlive with ⟨l₁, hlater, hpay, hused⟩
    refine ⟨l₁, hlater.write hstep, ?_, hused⟩
    rcases hstep with ⟨⟨hstep, -⟩, -⟩
    cases hstep
    exact hpay
  | @call qs y₁ layout p _ hsize ih =>
    rw [List.nodup_cons] at hnodup
    rcases ih hnodup.2 (fun q hq => hlive q (by simp [hq])) with ⟨l₁, hlater, hpay, hused⟩
    rcases hlater.behaved with ⟨info, hload, hb⟩
    have hmem : p ∈ y₁.payloads.map Prod.fst := hpay p (hlive p (by simp)) hnodup.1
    have hstep : Step y₁ (.heapDeallocate p layout) _ := .heapDeallocate
    rw [if_neg hsize] at hstep
    rcases List.mem_map.mp hmem with ⟨x, hx, rfl⟩
    rcases hlater.blocks.payloads.free hlater.blocks.rep hlater.initialized hx hsize with
      ⟨-, l₂, hrep, hpay₂, hused₂, -⟩
    have hframes := Heap.deallocate_frames x.1 layout y₁.kernel
    refine ⟨l₂, ⟨⟨info, hload, hb.step ⟨⟨hstep, trivial⟩, .inr hmem⟩⟩, hframes.initialized.trans hlater.initialized,
      ⟨hrep, hpay₂⟩, hframes.start.trans hlater.start, hframes.stop.trans hlater.stop⟩, ?_, ?_⟩
    · intro q hq hnot
      rw [List.mem_cons, not_or] at hnot
      rcases List.mem_map.mp (hpay q hq hnot.2) with ⟨z, hz, rfl⟩
      exact List.mem_map.mpr ⟨z, List.mem_filter.mpr ⟨hz, by simpa using hnot.1⟩, rfl⟩
    · intro o n
      rw [hused₂, hused, hlater.start, List.mem_cons, not_or]
      tauto

/-- Frees undo allocations in any order; freeing everything leaves one free block. -/
theorem frees_undo_allocations (hload : info.Loaded) (hy : Behaved info y) (hinit : y.kernel.heap.initialized = true) :
    (∀ ps y₁ qs y₂, Allocations y ps y₁ → Frees y₁ qs y₂ → qs.Perm (ps.map Prod.fst) →
      ∃ l, Heap.Rep y.kernel.heap y.kernel.bytes l ∧ Heap.Rep y₂.kernel.heap y₂.kernel.bytes l ∧
        y₂.kernel.heap.head = y.kernel.heap.head ∧ y₂.kernel.heap.start = y.kernel.heap.start ∧
        y₂.kernel.heap.currentEnd = y.kernel.heap.currentEnd ∧
        y₂.kernel.heap.stats.totalBytes = y.kernel.heap.stats.totalBytes ∧
        y₂.kernel.heap.stats.freeBytes = y.kernel.heap.stats.freeBytes ∧
        y₂.kernel.heap.stats.allocatedBytes = y.kernel.heap.stats.allocatedBytes) ∧
    ∀ qs y₂, Frees y qs y₂ → qs.Perm (y.payloads.map Prod.fst) →
      y₂.kernel.heap.start = y.kernel.heap.start ∧ y₂.kernel.heap.currentEnd = y.kernel.heap.currentEnd ∧
        Heap.Rep y₂.kernel.heap y₂.kernel.bytes [⟨y.kernel.heap.currentEnd - y.kernel.heap.start - 32, true⟩] := by
  rcases hy.blocks hload hinit with ⟨-, l, hl⟩
  refine ⟨fun ps y₁ qs y₂ halloc hfree hperm => ?_, fun qs y₂ hfree hperm => ?_⟩
  · rcases halloc.blocks hload hy hinit hl with ⟨l₁, hlater, hpay, hkept, hnew⟩
    rcases hlater.behaved with ⟨info₁, hload₁, hy₁⟩
    have hdistinct := hlater.blocks.payloads.distinct
    rw [hpay, List.map_append, List.nodup_append] at hdistinct
    have hlive : ∀ q ∈ qs, q ∈ y₁.payloads.map Prod.fst := by
      intro q hq
      rw [hpay, List.map_append]
      exact List.mem_append_left _ (hperm.mem_iff.mp hq)
    rcases hfree.blocks hload₁ hy₁ hlater.initialized hlater.blocks (hperm.nodup_iff.mpr hdistinct.1) hlive with
      ⟨l₂, hlater₂, -, hused⟩
    have hsame : l₂ = l := by
      refine Heap.Apart.eq_of_used hlater₂.blocks.rep.apart hl.rep.apart ?_ fun o n => ?_
      · rw [hlater₂.total_eq hlater.blocks, hlater.total_eq hl]
      · rw [hused, hlater.start]
        constructor
        · rintro ⟨hat, hnot⟩
          exact (hnew o n hat).resolve_right fun hmem => hnot (hperm.mem_iff.mpr hmem)
        · intro hat
          refine ⟨hkept o n hat, fun hmem => ?_⟩
          -- the blocks that were in use before belong to other pointers
          exact hdistinct.2.2 _ (hperm.mem_iff.mp hmem) _ (hl.payloads.exact o n hat) rfl
    subst hsame
    have hrep := hlater₂.blocks.rep
    refine ⟨l₂, hl.rep, hrep, ?_, hlater₂.start.trans hlater.start, hlater₂.stop.trans hlater.stop, ?_, ?_, ?_⟩
    · rw [hrep.head, hl.rep.head, hlater₂.start, hlater.start]
    · rw [hrep.totalBytes, hl.rep.totalBytes]
    · rw [hrep.freeBytes, hl.rep.freeBytes]
    · rw [hrep.allocatedBytes, hl.rep.allocatedBytes]
  · have hlive : ∀ q ∈ qs, q ∈ y.payloads.map Prod.fst := fun q hq => hperm.mem_iff.mp hq
    rcases hfree.blocks hload hy hinit hl (hperm.nodup_iff.mpr hl.payloads.distinct) hlive with
      ⟨l₂, hlater, -, hused⟩
    have hlen := Heap.length_le_total l
    have hpos := List.length_pos_iff.mpr hl.rep.nonempty
    have hstop := hl.rep.stop
    have hone : l₂ = [⟨y.kernel.heap.currentEnd - y.kernel.heap.start - 32, true⟩] := by
      refine Heap.Apart.eq_of_used hlater.blocks.rep.apart (by simp [Heap.Apart]) ?_ fun o n => ?_
      · rw [hlater.total_eq hl, Heap.total_cons, Heap.total_nil, Heap.Block.span, Heap.headerSize]
        dsimp only
        omega
      · constructor
        · intro hat
          rcases (hused o n).mp hat with ⟨hat, hnot⟩
          exact absurd (hperm.mem_iff.mpr (hl.payloads.exact o n hat)) hnot
        · exact fun hat => absurd hat (Heap.not_used_of_free (by simp))
    rw [← hone]
    exact ⟨hlater.start, hlater.stop, hlater.blocks.rep⟩

/-- Of two payloads the one allocated first is freed first. -/
theorem sample_frees : ∃ y y₁ y₂ p q, Allocations y [(q, smallLayout), (p, smallLayout)] y₁ ∧ p ≠ q ∧
    Frees y₁ [q, p] y₂ ∧ Heap.Rep y₂.kernel.heap y₂.kernel.bytes [⟨131040, true⟩] := by
  obtain ⟨y, y₁, y₂, h, -, -, hrun₁, hrun₂, h₁, h₂⟩ := sample_pair
  have hsize : smallLayout.size ≠ 0 := by decide
  have hend {y' : System} {l : List Heap.Block} {payloads : List (ℕ × Heap.Layout)} (h' : HeapState sampleInfo y' l payloads)
      (ht : Heap.total l = 131072) : y'.kernel.heap.currentEnd = dynamicVirtStart.toNat + 131072 := by
    rw [← h'.blocks.rep.stop, h'.start, ht]
  have hfirst := Allocations.call .none hsize hrun₁ (by omega) ((hend h₁ rfl).trans (hend h rfl).symm)
  obtain ⟨y', hboth⟩ : ∃ y', Allocations y
      [(dynamicVirtStart.toNat + 128, smallLayout), (dynamicVirtStart.toNat + 32, smallLayout)] y' :=
    ⟨_, .call hfirst hsize hrun₂ (by omega) ((hend h₂ rfl).trans (hend h₁ rfl).symm)⟩
  have hone := Frees.call (p := dynamicVirtStart.toNat + 32) (Frees.none (y := y')) hsize
  have htwo := Frees.call (p := dynamicVirtStart.toNat + 128) hone hsize
  obtain ⟨l, hl, hl', -⟩ := (frees_undo_allocations sampleInfo_loaded h.behaved h.initialized).1 _ _ _ _ hboth htwo (.refl _)
  cases hl.unique h.blocks.rep
  exact ⟨y, _, _, _, _, hboth, by omega, htwo, hl'⟩

end
end VenturaOS.Machine
