import VenturaOS.Library.Runs
import VenturaOS.Pmm.Accounting

/-!
# Runs of the page allocator

Arbitrary sequences of allocations and frees, with arbitrary pages passed to
`free_physical_page`. The counters stay exact, and a page is not handed out
again before a free of it succeeded.
-/
namespace VenturaOS.Pmm
open Library Memory

/-- One call together with what it returned. -/
inductive Event
  | allocated (page : Option PhysPage)
  | freed (page : PhysPage) (result : Except PageFreeError Unit)

inductive Step : Allocator → Event → Allocator → Prop
  | allocate {s t : Allocator} {page : Option PhysPage} :
      allocatePhysicalPage s = (page, t) → Step s (.allocated page) t
  | free {s t : Allocator} {page : PhysPage} {result : Except PageFreeError Unit} :
      freePhysicalPage page s = (result, t) → Step s (.freed page result) t

theorem Step.of_allocate {s : Allocator} {page : Option PhysPage} (h : (allocatePhysicalPage s).1 = page) :
    Step s (.allocated page) (allocatePhysicalPage s).2 := by
  subst h
  exact .allocate rfl

theorem Step.of_free {s : Allocator} {page : PhysPage} {result : Except PageFreeError Unit}
    (h : (freePhysicalPage page s).1 = result) : Step s (.freed page result) (freePhysicalPage page s).2 := by
  subst h
  exact .free rfl

theorem step_cases {s t : Allocator} {e : Event} (h : Step s e t) :
    (e = .allocated none ∧ s.freeSet = ∅ ∧ t = s) ∨
    (∃ i ∈ s.freeSet, e = .allocated (some (PhysPage.fromPageNumber i)) ∧ t = s.take i) ∨
    (∃ page err, e = .freed page (.error err) ∧ t = s) ∨
    (∃ i, i ≠ 0 ∧ i < s.total ∧ s.bit i = true ∧
      e = .freed (PhysPage.fromPageNumber i) (.ok ()) ∧ t = s.giveBack i) := by
  cases h with
  | allocate h =>
    rcases allocate_cases s with ⟨h', hempty⟩ | ⟨i, hi, -, h'⟩
    · cases h'.symm.trans h
      exact .inl ⟨rfl, hempty, rfl⟩
    · cases h'.symm.trans h
      exact .inr (.inl ⟨i, hi, rfl, rfl⟩)
  | @free _ page _ h =>
    rcases free_cases page s with ⟨err, h'⟩ | ⟨i, hpage, -, hz, ht, hb, h'⟩
    · cases h'.symm.trans h
      exact .inr (.inr (.inl ⟨page, err, rfl, rfl⟩))
    · cases h'.symm.trans h
      exact .inr (.inr (.inr ⟨i, hz, ht, hb, by rw [hpage], rfl⟩))

/-- A page is handed out only from the free set. -/
theorem step_allocated {s t : Allocator} {page : PhysPage} (h : Step s (.allocated (some page)) t) :
    ∃ i ∈ s.freeSet, page = PhysPage.fromPageNumber i ∧ t = s.take i := by
  rcases step_cases h with ⟨he, -⟩ | ⟨i, hi, he, ht⟩ | ⟨_, _, he, -⟩ | ⟨_, -, -, -, he, -⟩
  · cases he
  · cases he
    exact ⟨i, hi, rfl, ht⟩
  · cases he
  · cases he

/-- A free succeeds only on a managed page whose bit is set. -/
theorem step_freed {s t : Allocator} {page : PhysPage} (h : Step s (.freed page (.ok ())) t) :
    ∃ i, i ≠ 0 ∧ i < s.total ∧ s.bit i = true ∧ page = PhysPage.fromPageNumber i ∧ t = s.giveBack i := by
  rcases step_cases h with ⟨he, -⟩ | ⟨_, -, he, -⟩ | ⟨_, _, he, -⟩ | ⟨i, hz, hlt, hb, he, ht⟩
  · cases he
  · cases he
  · cases he
  · cases he
    exact ⟨i, hz, hlt, hb, rfl, ht⟩

theorem fromPageNumber_inj {i j : ℕ} (hi : i < 2 ^ 52) (hj : j < 2 ^ 52)
    (h : PhysPage.fromPageNumber i = PhysPage.fromPageNumber j) : i = j := by
  rw [← fromPageNumber_pageNumber hi, h, fromPageNumber_pageNumber hj]

/-- The accounting invariant of the allocator. -/
structure Accounted (s : Allocator) : Prop where
  bound : s.total ≤ maxManagedPages
  balance : s.stats.usedPages + s.stats.freePages = s.stats.totalManagedPages
  free : s.stats.freePages = s.freeSet.card
  pageZero : s.bit 0 = true
  above : ∀ i, s.total ≤ i → s.bit i = true

theorem Accounted.freePages_le {s : Allocator} (h : Accounted s) : s.stats.freePages ≤ s.total := by
  have := h.balance
  simp only [Allocator.total]
  omega

theorem Accounted.lt_of_mem {s : Allocator} (h : Accounted s) {i : ℕ} (hi : i ∈ s.freeSet) : i < 2 ^ 52 := by
  have hlt := (Allocator.mem_freeSet.mp hi).1
  have hm := h.bound
  unfold maxManagedPages at hm
  omega

/-- The call changed its counters by exactly one each way: no saturating operation saturated. -/
def Exact (s : Allocator) : Event → Allocator → Prop
  | .allocated (some _), t =>
    t.stats.freePages + 1 = s.stats.freePages ∧ t.stats.usedPages = s.stats.usedPages + 1
  | .freed _ (.ok _), t =>
    t.stats.freePages = s.stats.freePages + 1 ∧ t.stats.usedPages + 1 = s.stats.usedPages
  | _, t => t = s

private theorem saturatingAdd_one {n : ℕ} (h : n ≤ maxManagedPages) : saturatingAdd n 1 = n + 1 := by
  rw [saturatingAdd, usizeMax]
  unfold maxManagedPages at h
  omega

theorem step_exact {s t : Allocator} {e : Event} (hs : Accounted s) (h : Step s e t) : Exact s e t := by
  have hb := hs.balance
  have hm := hs.bound
  rcases step_cases h with ⟨rfl, -, rfl⟩ | ⟨i, hi, rfl, rfl⟩ | ⟨page, err, rfl, rfl⟩ | ⟨i, hz, ht, hset, rfl, rfl⟩
  · rfl
  · have hpos : 0 < s.stats.freePages := by rw [hs.free]; exact Finset.card_pos.mpr ⟨i, hi⟩
    have hle : s.stats.usedPages ≤ maxManagedPages := by simp only [Allocator.total] at hm; omega
    exact ⟨Nat.sub_add_cancel hpos, saturatingAdd_one hle⟩
  · rfl
  · -- page `i` is managed and not free, so fewer than `total` pages are free
    have hlt : s.freeSet.card < s.total := by
      have hsub : s.freeSet ⊂ Finset.range s.total := by
        rw [Finset.ssubset_iff_of_subset s.freeSet_subset]
        refine ⟨i, Finset.mem_range.mpr ht, fun hmem => ?_⟩
        simp [(Allocator.mem_freeSet.mp hmem).2] at hset
      simpa using Finset.card_lt_card hsub
    rw [← hs.free] at hlt
    simp only [Allocator.total] at hlt hm
    exact ⟨saturatingAdd_one (by omega), Nat.sub_add_cancel (by omega)⟩

theorem step_accounted (s : Allocator) (e : Event) (t : Allocator) (hs : Accounted s) (h : Step s e t) :
    Accounted t := by
  have hexact := step_exact hs h
  have hb := hs.balance
  have hf := hs.free
  rcases step_cases h with ⟨rfl, -, rfl⟩ | ⟨i, hi, rfl, rfl⟩ | ⟨page, err, rfl, rfl⟩ | ⟨i, hz, ht, hset, rfl, rfl⟩
  · exact hs
  · rcases hexact with ⟨hfree, hused⟩
    refine ⟨hs.bound, ?_, ?_, ?_, ?_⟩
    · change _ = s.stats.totalManagedPages
      omega
    · rw [s.take_freeSet i, Finset.card_erase_of_mem hi]
      omega
    · simp [hs.pageZero]
    · intro j hj
      simp [hs.above j hj]
  · exact hs
  · rcases hexact with ⟨hfree, hused⟩
    have hnot : i ∉ s.freeSet := fun hmem => by simp [(Allocator.mem_freeSet.mp hmem).2] at hset
    refine ⟨hs.bound, ?_, ?_, ?_, ?_⟩
    · change _ = s.stats.totalManagedPages
      omega
    · rw [s.giveBack_freeSet ht, Finset.card_insert_of_notMem hnot]
      omega
    · simp [hs.pageZero, Ne.symm hz]
    · intro j hj
      have hne : j ≠ i := by
        rintro rfl
        exact absurd hj (by simpa using ht)
      simp [hs.above j hj, hne]

theorem init_accounted {map : PhysicalMemoryMap} (hwf : map.UsableWellFormed) : Accounted (init map) := by
  have hcard : (init map).freeSet.card ≤ (init map).total := by
    simpa only [Finset.card_range] using Finset.card_le_card (init map).freeSet_subset
  refine ⟨?_, ?_, init_freePages hwf, ?_, ?_⟩
  · rw [init_total]
    exact managedPages_le map
  · rw [← init_freePages hwf] at hcard
    exact Nat.sub_add_cancel hcard
  · by_contra h
    by_cases ht : 0 < (init map).total
    · have hmem := Allocator.mem_freeSet.mpr ⟨ht, by simpa using h⟩
      exact ((init_freeSet map 0).mp hmem).1 rfl
    · exact h (init_bit_above (by omega))
  · intro i hi
    exact init_bit_above hi

theorem pageZero_iff (s : Allocator) : s.bitmap 0 &&& 1#64 ≠ 0#64 ↔ s.bit 0 = true := by
  change _ ↔ (s.bitmap 0).getLsbD 0 = true
  rw [← Bool.not_eq_false, ne_eq, not_iff_not]
  constructor
  · intro h
    have hbit : (s.bitmap 0 &&& 1#64).getLsbD 0 = false := by
      rw [h]
      rfl
    rw [BitVec.getLsbD_and] at hbit
    simpa using hbit
  · intro h
    ext j hj
    rw [BitVec.getElem_and]
    by_cases hz : j = 0
    · subst hz
      rw [BitVec.getLsbD_eq_getElem (by decide)] at h
      simp [h]
    · simp [hz]

theorem Accounted.verifyInvariants_ok {s : Allocator} (hs : Accounted s) : verifyInvariants s = .ok () := by
  have hzero := (pageZero_iff s).mpr hs.pageZero
  rw [verifyInvariants, if_neg (by simpa using hs.balance), if_neg hzero, countedFree_sum,
    if_neg (by simpa using hs.free.symm)]

/-- A page whose bit is set stays set while no free of it succeeds. -/
theorem bit_stays_set {s t : Allocator} {es : List Event} (h : Run Step s es t) {i : ℕ} (hi : s.bit i = true)
    (hno : .freed (PhysPage.fromPageNumber i) (.ok ()) ∉ es) : t.bit i = true := by
  refine h.invariant_of_forall (fun u => u.bit i = true)
    (fun e => e ≠ .freed (PhysPage.fromPageNumber i) (.ok ())) ?_ (fun e he heq => hno (heq ▸ he)) hi
  intro u e v hu hne hstep
  rcases step_cases hstep with ⟨rfl, -, rfl⟩ | ⟨j, hj, rfl, rfl⟩ | ⟨page, err, rfl, rfl⟩ | ⟨j, hz, ht, hset, rfl, rfl⟩
  · exact hu
  · simp [hu]
  · exact hu
  · have hij : i ≠ j := by
      rintro rfl
      exact hne rfl
    simp [hu, hij]

/-- Accounting and exclusivity over every run of the allocator on a well-formed map. -/
theorem accounting_and_exclusivity {map : PhysicalMemoryMap} (hwf : map.UsableWellFormed)
    {es : List Event} {s : Allocator} (h : Run Step (init map) es s) :
    (s.stats.usedPages + s.stats.freePages = s.stats.totalManagedPages ∧
      s.stats.freePages = ((Finset.range s.total).filter (fun i => s.bit i = false)).card ∧
      s.bit 0 = true ∧ (∀ i, s.total ≤ i → s.bit i = true) ∧ verifyInvariants s = .ok ()) ∧
    ((init map).stats.freePages ≤ (init map).stats.totalManagedPages ∧
      ∀ e t, Step s e t → Exact s e t) ∧
    (∀ es₁ es₂ es₃ page,
      es = es₁ ++ .allocated (some page) :: (es₂ ++ .allocated (some page) :: es₃) →
        .freed page (.ok ()) ∈ es₂) ∧
    (∀ page err t, Step s (.freed page (.error err)) t → t = s) := by
  have hs : Accounted s := h.invariant _ step_accounted (init_accounted hwf)
  refine ⟨⟨hs.balance, hs.free, hs.pageZero, hs.above, hs.verifyInvariants_ok⟩,
    ⟨(init_accounted hwf).freePages_le, fun e t ht => step_exact hs ht⟩, ?_, ?_⟩
  · rintro es₁ es₂ es₃ page rfl
    rcases h.split with ⟨s₁, hpre, hrest⟩
    have hs₁ : Accounted s₁ := hpre.invariant _ step_accounted (init_accounted hwf)
    cases hrest with
    | cons hfirst hrest =>
      have ht₁ := step_accounted _ _ _ hs₁ hfirst
      rcases hrest.split with ⟨s₂, hmid, hlast⟩
      have hs₂ : Accounted s₂ := hmid.invariant _ step_accounted ht₁
      cases hlast with
      | cons hsecond _ =>
        by_contra hno
        rcases step_allocated hfirst with ⟨i, hi, rfl, rfl⟩
        rcases step_allocated hsecond with ⟨j, hj, he, -⟩
        -- the first allocation set the bit and nothing cleared it, so the second cannot find it clear
        have hset : s₂.bit i = true := bit_stays_set hmid (by simp) hno
        have hij : i = j := fromPageNumber_inj (hs₁.lt_of_mem hi) (hs₂.lt_of_mem hj) he
        subst hij
        simp [(Allocator.mem_freeSet.mp hj).2] at hset
  · intro page err t ht
    exact step_exact hs ht

/-- One usable region of three pages above page 0 and one page of device memory. -/
def sampleMap : PhysicalMemoryMap :=
  ⟨[⟨0x1000, 0x4000, 3, .usable, true⟩, ⟨0x4000, 0x5000, 1, .mmio, false⟩]⟩

theorem sampleMap_wellFormed : sampleMap.UsableWellFormed := ⟨by decide, by decide⟩

theorem accounting_and_exclusivity_sample :
    ∃ s, Run Step (init sampleMap) [.allocated (some ⟨0x1000⟩), .freed ⟨0x1000⟩ (.ok ())] s ∧
      s.stats.usedPages + s.stats.freePages = s.stats.totalManagedPages ∧ verifyInvariants s = .ok () := by
  have ha : (allocatePhysicalPage (init sampleMap)).1 = some ⟨0x1000⟩ := by decide +kernel
  have hf : (freePhysicalPage ⟨0x1000⟩ (allocatePhysicalPage (init sampleMap)).2).1 = .ok () := by
    decide +kernel
  have hrun := Run.cons (Step.of_allocate ha) (.single (Step.of_free hf))
  have h := (accounting_and_exclusivity sampleMap_wellFormed hrun).1
  exact ⟨_, hrun, h.1, h.2.2.2.2⟩

end VenturaOS.Pmm
