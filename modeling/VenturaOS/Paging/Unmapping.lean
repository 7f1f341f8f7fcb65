import VenturaOS.Paging.Translation

/-!
# What `unmap_page` clears

The walk of `unmap_page` never looks at the large-page bit. Below a 2 MiB page
it takes the first frame of that page for a page table, and clears a word of
the mapped memory when that word has its lowest bit set.
-/
namespace VenturaOS.Paging
open Library Pmm Memory

/-- The call fails and writes nothing, or it clears the 4 KiB leaf of `v` and gives back its frame. -/
def ClearsLeafOnly (root : PhysPage) (v : VirtAddr) (s : PageMemory) : Prop :=
  (∃ e, unmapPage root v s = (.error e, s)) ∨
  ∃ a pml4e pdpte pde pte, hardwareWalk s.tables root.addr v = some (a, [pml4e, pdpte, pde, pte]) ∧
    unmapPage root v s = (.ok ⟨pte.physAddr⟩, s.writeEntry pde.physAddr v.ptIndex .empty)

/-- A large page on the walk of `v` holds no present entry where `unmap_page` looks for one. -/
def LargePageReadsAbsent (tables : U64 → PageTable) (root : U64) (v : VirtAddr) : Prop :=
  ∀ e, pdEntry tables root v = some e → e.isPresent = true → e.isHuge = true →
    (tables e.physAddr v.ptIndex).isPresent = false

theorem unmapPage_refused (root : PhysPage) {v : VirtAddr} (s : PageMemory)
    (h : ¬(isCanonical v.addr = true ∧ v.isAligned = true)) : ∃ e, unmapPage root v s = (.error e, s) := by
  unfold unmapPage
  by_cases hc : isCanonical v.addr = true
  · have ha : ¬v.isAligned = true := fun ha => h ⟨hc, ha⟩
    exact ⟨.unalignedVirtualAddress, by simp [hc, ha]⟩
  · exact ⟨.nonCanonicalAddress, by simp [hc]⟩

section Clearing

variable {r : U64} {F held : Finset U64} {c : ℕ} {level : U64 → Option ℕ} {s : PageMemory}

/-- On leveled tables only large pages are taken for page tables. -/
theorem Leveled.clearsLeafOnly_iff (h : Leveled r F c held level s) {v : VirtAddr}
    (hc : isCanonical v.addr = true) (ha : v.isAligned = true) :
    ClearsLeafOnly ⟨r⟩ v s ↔ LargePageReadsAbsent s.tables r v := by
  unfold ClearsLeafOnly LargePageReadsAbsent unmapPage hardwareWalk pageWalk pdEntry
  simp only [hc, ha]
  by_cases h4 : (s.tables r v.pml4Index).isPresent = true
  · have g4 := h.small h.root (by omega) h4
    have l3 := h.next h.root (by omega) (PageTableEntry.link_eq_some.mpr ⟨h4, g4, rfl⟩)
    generalize s.tables r v.pml4Index = e4 at *
    by_cases h3 : (s.tables e4.physAddr v.pdptIndex).isPresent = true
    · have g3 := h.small l3 (by omega) h3
      generalize s.tables e4.physAddr v.pdptIndex = e3 at *
      by_cases h2 : (s.tables e3.physAddr v.pdIndex).isPresent = true
      · generalize s.tables e3.physAddr v.pdIndex = e2 at *
        cases g2 : e2.isHuge with
        | true =>
          -- the processor stops here, and the call reads one word further
          by_cases h1 : (s.tables e2.physAddr v.ptIndex).isPresent = true
          · simp [h4, g4, h3, g3, h2, g2, h1]
          · simp [h4, g4, h3, g3, h2, g2, h1]
        | false =>
          by_cases h1 : (s.tables e2.physAddr v.ptIndex).isPresent = true
          · simp [h4, g4, h3, g3, h2, g2, h1]
          · simp [h4, g4, h3, g3, h2, g2, h1]
      · simp [h4, g4, h3, g3, h2]
    · simp [h4, g4, h3]
  · simp [h4]

end Clearing

/-- Whatever has been mapped from an empty root, with any words in the other frames, `unmap_page` touches
nothing but a small leaf exactly when it finds no present word below a large page. -/
theorem unmap_clears_leaf_iff {r : U64} {F : Finset U64} {c : ℕ} {s t : PageMemory} {calls : List BuildCall}
    (h : EmptyRoot r F c s) (hrun : Run (BuildStep ⟨r⟩) s calls t) (v : VirtAddr) :
    ClearsLeafOnly ⟨r⟩ v t ↔
      (isCanonical v.addr = true → v.isAligned = true → LargePageReadsAbsent t.tables r v) := by
  by_cases hv : isCanonical v.addr = true ∧ v.isAligned = true
  · obtain ⟨F, c, held, level, hl⟩ := h.hasLevels_run hrun
    rw [hl.clearsLeafOnly_iff hv.1 hv.2]
    exact ⟨fun hp _ _ => hp, fun hp => hp hv.1 hv.2⟩
  · refine iff_of_true (.inl (unmapPage_refused ⟨r⟩ t hv)) ?_
    exact fun hc ha => absurd ⟨hc, ha⟩ hv

theorem sample_clears_leaf : ∃ t, Run (BuildStep ⟨0x200000⟩) sampleMemory sampleCalls t ∧
    ClearsLeafOnly ⟨0x200000⟩ ⟨0x40000000⟩ t ∧ (unmapPage ⟨0x200000⟩ ⟨0x40000000⟩ t).1 = .ok ⟨0x5000⟩ := by
  refine ⟨sampleTables, sampleTables_run, ?_, by decide⟩
  have hentry : ∀ e, pdEntry sampleTables.tables 0x200000 ⟨0x40000000⟩ = some e → e.isHuge = false := by decide
  refine (unmap_clears_leaf_iff sampleMemory_root sampleTables_run ⟨0x40000000⟩).mpr ?_
  intro _ _ e he _ hhuge
  rw [hentry e he] at hhuge
  cases hhuge

/-- The same memory with a word at 4 MiB that is not zero. -/
def sampleData : PageMemory :=
  sampleMemory.writeEntry 0x400000 0 ⟨0x12345FFF⟩

theorem sampleData_root : EmptyRoot 0x200000 ∅ 0 sampleData where
  frames := sampleMemory_root.frames
  pool := ⟨by decide, by decide, by simp, by decide⟩
  taken := .inr ⟨0, by decide, by decide⟩
  empty := rfl

/-- `unmap_page` inside a large page clears the first word of the page and returns what it held as a frame. -/
theorem large_page_word_cleared : ∃ t, EmptyRoot 0x200000 ∅ 0 sampleData ∧
    Run (BuildStep ⟨0x200000⟩) sampleData [.map2mbHugePage ⟨0x400000⟩ ⟨0x400000⟩ PageTableFlags.table] t ∧
    (hardwareWalk t.tables 0x200000 ⟨0x400000⟩).map Prod.fst = some 0x400000 ∧
    (unmapPage ⟨0x200000⟩ ⟨0x400000⟩ t).1 = .ok ⟨0x12345000⟩ ∧
    t.tables 0x400000 0 = ⟨0x12345FFF⟩ ∧
    (unmapPage ⟨0x200000⟩ ⟨0x400000⟩ t).2.tables 0x400000 0 = .empty ∧
    ¬ClearsLeafOnly ⟨0x200000⟩ ⟨0x400000⟩ t := by
  refine ⟨_, sampleData_root, .single .map2mbHugePage, by decide, by decide, by decide, by decide, ?_⟩
  have hwalk : (hardwareWalk (map2mbHugePage ⟨0x200000⟩ ⟨0x400000⟩ ⟨0x400000⟩ PageTableFlags.table
      sampleData).2.tables 0x200000 ⟨0x400000⟩).map (fun x => x.2.length) = some 3 := by decide
  have hok : (unmapPage ⟨0x200000⟩ ⟨0x400000⟩ (map2mbHugePage ⟨0x200000⟩ ⟨0x400000⟩ ⟨0x400000⟩
      PageTableFlags.table sampleData).2).1 = .ok ⟨0x12345000⟩ := by decide
  rintro (⟨e, he⟩ | ⟨a, e4, e3, e2, e1, hw, -⟩)
  · rw [he] at hok
    cases hok
  · rw [hw] at hwalk
    cases hwalk

end VenturaOS.Paging
