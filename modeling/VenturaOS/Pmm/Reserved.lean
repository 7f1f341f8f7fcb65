import VenturaOS.Pmm.Exclusivity

/-!
# Reserved pages and stray frees

One bit stands both for "handed out" and for "never to be handed out". The
free path checks alignment, page 0, the upper limit and the bit, so a free of
a reserved page below the limit succeeds and puts that page into the pool.
Runs that free no such page are exactly the runs in which the pool stays
inside the usable regions.
-/
namespace VenturaOS.Pmm
open Library Memory

/-- The whole page lies inside one usable region. -/
def InsideUsable (map : PhysicalMemoryMap) (page : PhysPage) : Prop :=
  ∃ r ∈ map.regions, r.isUsable = true ∧ r.HoldsPage page.addr

instance (map : PhysicalMemoryMap) (page : PhysPage) : Decidable (InsideUsable map page) := by
  unfold InsideUsable; infer_instance

/-- The page was handed out and no free of it succeeded since. -/
def Outstanding (es : List Event) (page : PhysPage) : Prop :=
  ∃ es₁ es₂, es = es₁ ++ .allocated (some page) :: es₂ ∧ .freed page (.ok ()) ∉ es₂

/-- Only usable memory is handed out, and only outstanding pages are taken back. -/
def NeverReserved (map : PhysicalMemoryMap) (es : List Event) : Prop :=
  (∀ page, .allocated (some page) ∈ es → InsideUsable map page) ∧
  ∀ es₁ page es₂, es = es₁ ++ .freed page (.ok ()) :: es₂ → Outstanding es₁ page

/-- A page the allocator manages although it is not usable memory. -/
def ReservedPage (map : PhysicalMemoryMap) (page : PhysPage) : Prop :=
  page.addr.toNat % pageSize = 0 ∧ 0 < page.pageNumber ∧ page.pageNumber < managedPages map ∧
    ¬ InsideUsable map page

theorem usablePage_iff_inside {map : PhysicalMemoryMap} (hwf : map.UsableWellFormed) {i : ℕ}
    (hz : i ≠ 0) (hi : i < managedPages map) :
    UsablePage map i ↔ InsideUsable map (PhysPage.fromPageNumber i) := by
  have hm := managedPages_le map
  unfold maxManagedPages at hm
  have haddr := fromPageNumber_addr (i := i) (by omega)
  constructor
  · rintro ⟨-, -, r, hr, hu, hs, he⟩
    refine ⟨r, hr, hu, ?_⟩
    rcases hwf.aligned r hr hu with ⟨hsa, -⟩
    rw [MemoryRegion.startPage] at hs
    rw [MemoryRegion.endPage] at he
    rw [MemoryRegion.HoldsPage, haddr]
    unfold pageSize at *
    omega
  · rintro ⟨r, hr, hu, hs, he⟩
    rw [haddr] at hs he
    refine ⟨hz, hi, r, hr, hu, ?_, ?_⟩
    · rw [MemoryRegion.startPage]
      unfold pageSize at *
      omega
    · rw [MemoryRegion.endPage]
      unfold pageSize at *
      omega

theorem step_total {s t : Allocator} {e : Event} (h : Step s e t) : t.total = s.total := by
  rcases step_cases h with ⟨-, -, rfl⟩ | ⟨i, -, -, rfl⟩ | ⟨_, _, -, rfl⟩ | ⟨i, -, -, -, -, rfl⟩ <;> rfl

theorem run_total {map : PhysicalMemoryMap} {es : List Event} {s : Allocator}
    (h : Run Step (init map) es s) : s.total = managedPages map :=
  h.invariant (fun u => u.total = managedPages map) (fun _ _ _ hu hstep => (step_total hstep).trans hu)
    (init_total map)

/-- A page that is not usable keeps its bit while no free of it succeeds. -/
theorem reserved_bit {map : PhysicalMemoryMap} {es : List Event} {s : Allocator}
    (h : Run Step (init map) es s) {i : ℕ} (hi : i < managedPages map) (hu : ¬ UsablePage map i)
    (hno : .freed (PhysPage.fromPageNumber i) (.ok ()) ∉ es) : s.bit i = true := by
  apply bit_stays_set h _ hno
  rw [← init_freeSet, Allocator.mem_freeSet, init_total] at hu
  simpa [hi] using hu

/-- A bit found set was set from the start, or its page is outstanding. -/
theorem outstanding_of_bit {s t : Allocator} {es : List Event} (h : Run Step s es t) {i : ℕ}
    (hi : i < 2 ^ 52) (hbound : s.total ≤ maxManagedPages) (hset : t.bit i = true) :
    (s.bit i = true ∧ .freed (PhysPage.fromPageNumber i) (.ok ()) ∉ es) ∨
      Outstanding es (PhysPage.fromPageNumber i) := by
  induction h with
  | nil => exact .inl ⟨hset, List.not_mem_nil⟩
  | @cons s t u e es hstep _ ih =>
    rcases ih (by rw [step_total hstep]; exact hbound) hset with ⟨hb, hno⟩ | ⟨es₁, es₂, rfl, hno⟩
    · have hlt (j : ℕ) (hj : j < s.total) : j < 2 ^ 52 := by unfold maxManagedPages at hbound; omega
      rcases step_cases hstep with ⟨rfl, -, rfl⟩ | ⟨j, hj, rfl, rfl⟩ | ⟨page, err, rfl, rfl⟩ | ⟨j, -, hj, -, rfl, rfl⟩
      · exact .inl ⟨hb, by simpa using hno⟩
      · by_cases hij : i = j
        · subst hij
          exact .inr ⟨[], es, rfl, hno⟩
        · exact .inl ⟨by simpa [hij] using hb, by simpa using hno⟩
      · exact .inl ⟨hb, by simpa using hno⟩
      · have hij : i ≠ j := by
          rintro rfl
          simp at hb
        refine .inl ⟨by simpa [hij] using hb, ?_⟩
        rw [List.mem_cons, not_or]
        refine ⟨fun he => ?_, hno⟩
        injection he with hpage
        exact hij (fromPageNumber_inj hi (hlt j hj) hpage)
    · exact .inr ⟨e :: es₁, es₂, rfl, hno⟩

/-- The pool stays inside usable memory in exactly the runs that free no reserved page. -/
theorem neverReserved_iff {map : PhysicalMemoryMap} (hwf : map.UsableWellFormed)
    {es : List Event} {s : Allocator} (h : Run Step (init map) es s) :
    NeverReserved map es ↔ ∀ page result, .freed page result ∈ es → ¬ ReservedPage map page := by
  have hm := managedPages_le map
  unfold maxManagedPages at hm
  constructor
  · rintro ⟨halloc, hfree⟩ page result hmem ⟨haligned, hpos, hlt, hout⟩
    rcases List.append_of_mem hmem with ⟨es₁, es₂, rfl⟩
    rcases h.split with ⟨s₁, hpre, hrest⟩
    have hpage := eq_fromPageNumber haligned
    -- the page was never given back before: such a free would need it outstanding, hence usable
    have hnot : .freed page (.ok ()) ∉ es₁ := by
      intro hbefore
      rcases List.append_of_mem hbefore with ⟨fs₁, fs₂, rfl⟩
      rcases hfree fs₁ page (fs₂ ++ .freed page result :: es₂) (by simp) with ⟨gs₁, gs₂, rfl, -⟩
      exact hout (halloc page (by simp))
    have hunusable : ¬ UsablePage map page.pageNumber := by
      rw [usablePage_iff_inside hwf (by omega) hlt, ← hpage]
      exact hout
    have hset := reserved_bit hpre hlt hunusable (hpage ▸ hnot)
    have htotal := run_total hpre
    cases hrest with
    | cons hstep _ =>
      cases hstep with
      | free hcall =>
        rw [hpage, free_ok (by omega) (by omega) (by rw [htotal]; exact managedPages_le map) hset] at hcall
        cases hcall
        rcases hfree es₁ page es₂ rfl with ⟨gs₁, gs₂, rfl, -⟩
        exact hout (halloc page (by simp))
  · intro hcond
    have husable {i : ℕ} (hz : i ≠ 0) (hi : i < managedPages map)
        (hf : .freed (PhysPage.fromPageNumber i) (.ok ()) ∈ es) : UsablePage map i := by
      rw [usablePage_iff_inside hwf hz hi]
      by_contra hout
      apply hcond (PhysPage.fromPageNumber i) (.ok ()) hf
      have hn := fromPageNumber_pageNumber (i := i) (by omega)
      refine ⟨?_, by omega, by omega, hout⟩
      rw [fromPageNumber_addr (by omega)]
      exact Nat.mul_mod_left _ _
    constructor
    · intro page hmem
      rcases List.append_of_mem hmem with ⟨es₁, es₂, rfl⟩
      rcases h.split with ⟨s₁, hpre, hrest⟩
      have hs₁ : Accounted s₁ := hpre.invariant _ step_accounted (init_accounted hwf)
      cases hrest with
      | cons hstep _ =>
        rcases step_allocated hstep with ⟨i, hi, rfl, -⟩
        rcases Allocator.mem_freeSet.mp hi with ⟨hlt, hclear⟩
        rw [run_total hpre] at hlt
        have hz : i ≠ 0 := by
          rintro rfl
          simp [hs₁.pageZero] at hclear
        rw [← usablePage_iff_inside hwf hz hlt]
        by_contra hu
        have hset := reserved_bit hpre hlt hu (fun hf => hu (husable hz hlt (by simp [hf])))
        simp [hclear] at hset
    · rintro es₁ page es₂ rfl
      rcases h.split with ⟨s₁, hpre, hrest⟩
      cases hrest with
      | cons hstep _ =>
        rcases step_freed hstep with ⟨i, hz, hlt, hset, rfl, -⟩
        rw [run_total hpre] at hlt
        have hu : UsablePage map i := husable hz hlt (by simp)
        have hclear := (Allocator.mem_freeSet.mp ((init_freeSet map i).mpr hu)).2
        rcases outstanding_of_bit hpre (by omega) (by rw [init_total]; exact managedPages_le map) hset with ⟨hb, -⟩ | hout
        · simp [hclear] at hb
        · exact hout

theorem neverReserved_iff_sample :
    ∃ s, Run Step (init sampleMap) [.allocated (some ⟨0x1000⟩), .freed ⟨0x1000⟩ (.ok ())] s ∧
      NeverReserved sampleMap [.allocated (some ⟨0x1000⟩), .freed ⟨0x1000⟩ (.ok ())] := by
  have ha : (allocatePhysicalPage (init sampleMap)).1 = some ⟨0x1000⟩ := by decide +kernel
  have hf : (freePhysicalPage ⟨0x1000⟩ (allocatePhysicalPage (init sampleMap)).2).1 = .ok () := by
    decide +kernel
  have hrun := Run.cons (Step.of_allocate ha) (.single (Step.of_free hf))
  refine ⟨_, hrun, (neverReserved_iff sampleMap_wellFormed hrun).mpr ?_⟩
  rintro page result hmem ⟨-, -, -, hout⟩
  simp only [List.mem_cons, reduceCtorEq, Event.freed.injEq, List.not_mem_nil, or_false, false_or] at hmem
  rw [hmem.1] at hout
  exact hout (by decide)

/-- Freeing the device page at `0x4000` succeeds, and the fourth allocation hands it out. -/
theorem stray_free_hands_out_reserved :
    sampleMap.UsableWellFormed ∧
    sampleMap.regions.Pairwise (fun r q => r.Disjoint q) ∧
    ∃ s, Run Step (init sampleMap) [.freed ⟨0x4000⟩ (.ok ()), .allocated (some ⟨0x1000⟩),
        .allocated (some ⟨0x2000⟩), .allocated (some ⟨0x3000⟩), .allocated (some ⟨0x4000⟩)] s ∧
      ¬ InsideUsable sampleMap ⟨0x4000⟩ ∧ ¬ Outstanding [] ⟨0x4000⟩ := by
  refine ⟨sampleMap_wellFormed, by decide, ?_⟩
  have hf : (freePhysicalPage ⟨0x4000⟩ (init sampleMap)).1 = .ok () := by decide +kernel
  have h1 : (allocatePhysicalPage (freePhysicalPage ⟨0x4000⟩ (init sampleMap)).2).1 = some ⟨0x1000⟩ := by
    decide +kernel
  have h2 : (allocatePhysicalPage (allocatePhysicalPage
      (freePhysicalPage ⟨0x4000⟩ (init sampleMap)).2).2).1 = some ⟨0x2000⟩ := by decide +kernel
  have h3 : (allocatePhysicalPage (allocatePhysicalPage (allocatePhysicalPage
      (freePhysicalPage ⟨0x4000⟩ (init sampleMap)).2).2).2).1 = some ⟨0x3000⟩ := by decide +kernel
  have h4 : (allocatePhysicalPage (allocatePhysicalPage (allocatePhysicalPage (allocatePhysicalPage
      (freePhysicalPage ⟨0x4000⟩ (init sampleMap)).2).2).2).2).1 = some ⟨0x4000⟩ := by decide +kernel
  have hrun := Run.cons (Step.of_free hf) (.cons (Step.of_allocate h1) (.cons (Step.of_allocate h2)
    (.cons (Step.of_allocate h3) (.single (Step.of_allocate h4)))))
  refine ⟨_, hrun, by decide, ?_⟩
  rintro ⟨es₁, es₂, he, -⟩
  simp at he

end VenturaOS.Pmm
