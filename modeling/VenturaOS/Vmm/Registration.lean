import Mathlib
import VenturaOS.Vmm.RegionTable

/-!
# What `register_region` accepts

The source tests the two ends of a range, the upper one modulo 2^64. Here the
range is taken as natural numbers, and the requests on which the two readings
part are listed.
-/
namespace VenturaOS.Vmm
open Library Memory Paging

namespace VirtRegion

/-- The first natural number behind the region. -/
def limit (r : VirtRegion) : ℕ := r.start.addr.toNat + r.sizeBytes.toNat

def range (r : VirtRegion) : Set ℕ := Set.Ico r.start.addr.toNat r.limit

def WholePages (r : VirtRegion) : Prop :=
  r.start.addr.toNat % pageSize = 0 ∧ r.sizeBytes.toNat ≠ 0 ∧ r.sizeBytes.toNat % pageSize = 0

/-- The region stays within one canonical half of the address space. -/
def InHalf (r : VirtRegion) : Prop := r.limit ≤ 2 ^ 47 ∨ 2 ^ 64 - 2 ^ 47 ≤ r.start.addr.toNat ∧ r.limit ≤ 2 ^ 64

def Canonical (r : VirtRegion) : Prop := ∀ a ∈ r.range, a < 2 ^ 64 ∧ isCanonical (BitVec.ofNat 64 a) = true

end VirtRegion

/-- No registered region shares an address with this one. -/
def FreeRange (regions : List VirtRegion) (region : VirtRegion) : Prop := ∀ r ∈ regions, Disjoint r.range region.range

/-- With its end taken modulo 2^64, each registered range seems to lie before or behind this one. -/
def Undetected (regions : List VirtRegion) (region : VirtRegion) : Prop :=
  ∀ r ∈ regions, region.limit % 2 ^ 64 ≤ r.start.addr.toNat ∨ r.limit % 2 ^ 64 ≤ region.start.addr.toNat

def OutsideHole (a : ℕ) : Prop := a < 2 ^ 47 ∨ 2 ^ 64 - 2 ^ 47 ≤ a

/-- A region that should be accepted. -/
structure ValidRegion (regions : List VirtRegion) (region : VirtRegion) : Prop where
  pages : region.WholePages
  canonical : region.Canonical
  free : FreeRange regions region

/-- The requests, all of whole pages, that are answered wrongly. -/
inductive Misjudged (regions : List VirtRegion) (region : VirtRegion) : Prop
  -- the end is exclusive, and 2^47 is not canonical itself
  | boundary : region.WholePages → region.limit = 2 ^ 47 → FreeRange regions region → Misjudged regions region
  -- canonical ends, with the hole or the top of the address space between them
  | spanning : region.WholePages → OutsideHole region.start.addr.toNat → OutsideHole (region.limit % 2 ^ 64) →
      ¬region.InHalf → Undetected regions region → Misjudged regions region
  -- an end that wrapped hides the overlap
  | hidden (r : VirtRegion) : region.WholePages → region.InHalf → region.limit ≠ 2 ^ 47 → r ∈ regions →
      ¬Disjoint r.range region.range → 2 ^ 64 ≤ region.limit ∨ 2 ^ 64 ≤ r.limit → Undetected regions region →
      Misjudged regions region
  -- an entry without addresses that starts inside the range
  | empty (r : VirtRegion) : region.WholePages → region.InHalf → region.limit ≠ 2 ^ 47 → r ∈ regions →
      r.sizeBytes.toNat = 0 → region.start.addr.toNat < r.start.addr.toNat →
      r.start.addr.toNat < region.limit % 2 ^ 64 → FreeRange regions region → Misjudged regions region

/-- Registered ranges that are canonical throughout and pairwise disjoint. -/
structure SoundTable (regions : List VirtRegion) : Prop where
  canonical : ∀ r ∈ regions, r.Canonical
  disjoint : regions.Pairwise fun r q => Disjoint r.range q.range

inductive RegionCall
  | register (region : VirtRegion)
  | unregister (start : VirtAddr)

def RegionCall.next (vmm : VirtualMemoryManager) : RegionCall → VirtualMemoryManager
  | .register region => (registerRegion region vmm).2
  | .unregister start => (unregisterRegion start vmm).2

/-- The call is not one of the requests answered wrongly. -/
def RegionCall.Judged (vmm : VirtualMemoryManager) : RegionCall → Prop
  | .register region => ¬Misjudged vmm.regions region
  | .unregister _ => True

/-- Calls of the two functions, in any order. -/
def RegionStep (vmm : VirtualMemoryManager) (call : RegionCall) (vmm' : VirtualMemoryManager) : Prop :=
  vmm' = call.next vmm

def JudgedStep (vmm : VirtualMemoryManager) (call : RegionCall) (vmm' : VirtualMemoryManager) : Prop :=
  RegionStep vmm call vmm' ∧ call.Judged vmm

namespace VirtRegion

variable {r q : VirtRegion}

theorem canonical_ofNat {a : ℕ} (ha : a < 2 ^ 64) :
    isCanonical (BitVec.ofNat 64 a) = true ↔ a < 2 ^ 47 ∨ 2 ^ 64 - 2 ^ 47 ≤ a := by
  rw [isCanonical_iff, BitVec.toNat_ofNat, Nat.mod_eq_of_lt ha]

theorem stop_value (r : VirtRegion) : r.stop.addr.toNat = r.limit % 2 ^ 64 := by
  rw [VirtRegion.stop, BitVec.toNat_add, limit]

theorem stop_le (r : VirtRegion) : r.stop.addr.toNat ≤ r.limit := by
  rw [stop_value]
  exact Nat.mod_le _ _

/-- Every address is canonical just when the range stays within one half. -/
theorem canonical_iff (hne : r.sizeBytes.toNat ≠ 0) : r.Canonical ↔ r.InHalf := by
  have hstart : r.start.addr.toNat < r.limit := Nat.lt_add_of_pos_right (Nat.pos_of_ne_zero hne)
  constructor
  · intro h
    obtain ⟨hlt, hfirst⟩ := h _ ⟨le_rfl, hstart⟩
    obtain ⟨hlast, -⟩ := h (r.limit - 1) ⟨by omega, by omega⟩
    rw [canonical_ofNat hlt] at hfirst
    by_contra hout
    rw [InHalf, not_or] at hout
    cases hfirst with
    | inl hlow =>
      -- a range that leaves the lower half contains the first address of the hole
      obtain ⟨hlt, hhole⟩ := h (2 ^ 47) ⟨by omega, by omega⟩
      rw [canonical_ofNat hlt] at hhole
      omega
    | inr hhigh => exact hout.2 ⟨hhigh, by omega⟩
  · intro h a ha
    obtain ⟨hlow, hhigh⟩ := ha
    have hlt : a < 2 ^ 64 := by
      cases h with
      | inl h => omega
      | inr h => omega
    refine ⟨hlt, ?_⟩
    rw [canonical_ofNat hlt]
    cases h with
    | inl h => exact .inl (by omega)
    | inr h => exact .inr (by omega)

/-- Within one half both ends pass, except for an end at the start of the hole. -/
theorem ends_canonical (h : r.InHalf) (hne : r.sizeBytes.toNat ≠ 0) (hb : r.limit ≠ 2 ^ 47) :
    isCanonical r.start.addr = true ∧ isCanonical r.stop.addr = true := by
  have hstart : r.start.addr.toNat < r.limit := Nat.lt_add_of_pos_right (Nat.pos_of_ne_zero hne)
  rw [isCanonical_iff, isCanonical_iff, stop_value]
  cases h with
  | inl h => exact ⟨.inl (by omega), .inl (by omega)⟩
  | inr h => exact ⟨.inr h.1, by omega⟩

theorem boundary_rejected (hb : r.limit = 2 ^ 47) : isCanonical r.stop.addr = false := by
  rw [← Bool.not_eq_true, isCanonical_iff, stop_value, hb]
  decide

theorem disjoint_range_iff : Disjoint r.range q.range ↔
    min r.limit q.limit ≤ max r.start.addr.toNat q.start.addr.toNat := Set.Ico_disjoint_Ico

theorem overlaps_iff : r.overlaps q.start q.sizeBytes = true ↔
    r.start.addr.toNat < q.stop.addr.toNat ∧ q.start.addr.toNat < r.stop.addr.toNat := by
  rw [overlaps, Bool.and_eq_true, decide_eq_true_eq, decide_eq_true_eq]
  rfl

theorem overlaps_eq_false : r.overlaps q.start q.sizeBytes = false ↔
    q.limit % 2 ^ 64 ≤ r.start.addr.toNat ∨ r.limit % 2 ^ 64 ≤ q.start.addr.toNat := by
  rw [← Bool.not_eq_true, overlaps_iff, stop_value, stop_value, not_and_or, not_lt, not_lt]

/-- An overlap the test misses is one where an end wrapped. -/
theorem wraps_of_missed (hmeet : ¬Disjoint r.range q.range)
    (h : q.limit % 2 ^ 64 ≤ r.start.addr.toNat ∨ r.limit % 2 ^ 64 ≤ q.start.addr.toNat) :
    2 ^ 64 ≤ q.limit ∨ 2 ^ 64 ≤ r.limit := by
  by_contra hwrap
  rw [not_or, not_le, not_le] at hwrap
  rw [Nat.mod_eq_of_lt hwrap.1, Nat.mod_eq_of_lt hwrap.2] at h
  rw [disjoint_range_iff] at hmeet
  omega

/-- An overlap seen where there is none comes from an entry without addresses, inside the range. -/
theorem empty_of_seen (hne : q.sizeBytes.toNat ≠ 0) (hd : Disjoint r.range q.range)
    (h : r.overlaps q.start q.sizeBytes = true) :
    r.sizeBytes.toNat = 0 ∧ q.start.addr.toNat < r.start.addr.toNat ∧ r.start.addr.toNat < q.limit % 2 ^ 64 := by
  have hr := r.stop_le
  have hq := q.stop_le
  have hstop := q.stop_value
  rw [overlaps_iff] at h
  rw [disjoint_range_iff] at hd
  unfold limit at hr hq hd
  omega

theorem seen_of_empty (hempty : r.sizeBytes.toNat = 0) (hlow : q.start.addr.toNat < r.start.addr.toNat)
    (hhigh : r.start.addr.toNat < q.limit % 2 ^ 64) : r.overlaps q.start q.sizeBytes = true := by
  have hlimit : r.limit = r.start.addr.toNat := by rw [limit, hempty, Nat.add_zero]
  rw [overlaps_iff, stop_value, stop_value, hlimit, Nat.mod_eq_of_lt r.start.addr.isLt]
  exact ⟨hhigh, hlow⟩

end VirtRegion

section Requests

variable {region : VirtRegion} {vmm vmm' : VirtualMemoryManager} {regions : List VirtRegion}

theorem undetected_iff : Undetected regions region ↔ ∀ r ∈ regions, r.overlaps region.start region.sizeBytes = false := by
  simp only [Undetected, VirtRegion.overlaps_eq_false]

theorem isCanonical_start : isCanonical region.start.addr = true ↔ OutsideHole region.start.addr.toNat := isCanonical_iff _

theorem isCanonical_stop : isCanonical region.stop.addr = true ↔ OutsideHole (region.limit % 2 ^ 64) := by
  rw [isCanonical_iff, VirtRegion.stop_value]
  rfl

theorem isAligned_iff (v : VirtAddr) : v.isAligned = true ↔ v.addr.toNat % pageSize = 0 := by
  rw [VirtAddr.isAligned, beq_iff_eq]

/-- The tests of the source, one by one. -/
theorem register_ok_iff : (registerRegion region vmm).1 = .ok () ↔
    isCanonical region.start.addr = true ∧ isCanonical region.stop.addr = true ∧ region.WholePages ∧
      vmm.regions.length < maxVirtRegions ∧ Undetected vmm.regions region := by
  unfold registerRegion
  rw [VirtRegion.WholePages, ← isAligned_iff, undetected_iff]
  split_ifs with hcanon hal hsize hfull hany
  · simp at hcanon ⊢
    grind
  · simp at hal ⊢
    grind
  · simp at hsize ⊢
    grind
  · simp at hfull ⊢
    grind
  · simp at hany ⊢
    grind
  · simp at hcanon hal hsize hfull hany ⊢
    grind

theorem register_cases (region : VirtRegion) (vmm : VirtualMemoryManager) :
    (registerRegion region vmm).2 = vmm ∨ (registerRegion region vmm).1 = .ok () ∧
      (registerRegion region vmm).2.regions = vmm.regions ++ [region] := by
  unfold registerRegion
  split_ifs
  · exact .inl rfl
  · exact .inl rfl
  · exact .inl rfl
  · exact .inl rfl
  · exact .inl rfl
  · exact .inr ⟨rfl, rfl⟩

theorem validRegion_iff : ValidRegion regions region ↔
    region.WholePages ∧ region.InHalf ∧ FreeRange regions region := by
  constructor
  · intro h
    exact ⟨h.pages, (VirtRegion.canonical_iff h.pages.2.1).mp h.canonical, h.free⟩
  · rintro ⟨hpages, hhalf, hfree⟩
    exact ⟨hpages, (VirtRegion.canonical_iff hpages.2.1).mpr hhalf, hfree⟩

/-- A range that leaves its half is never valid, so accepting it is the error. -/
theorem register_outside (hroom : vmm.regions.length < maxVirtRegions) (hpages : region.WholePages) (hhalf : ¬region.InHalf) :
    ((registerRegion region vmm).1 = .ok () ↔ ValidRegion vmm.regions region) ↔ ¬Misjudged vmm.regions region := by
  rw [register_ok_iff, validRegion_iff]
  constructor
  · intro h hm
    cases hm with
    | boundary _ hb => exact hhalf (.inl hb.le)
    | spanning _ hs he _ hu =>
      exact hhalf (h.mp ⟨isCanonical_start.mpr hs, isCanonical_stop.mpr he, hpages, hroom, hu⟩).2.1
    | hidden _ _ hin => exact hhalf hin
    | empty _ _ hin => exact hhalf hin
  · intro hm
    constructor
    · rintro ⟨hs, he, -, -, hu⟩
      exact absurd (.spanning hpages (isCanonical_start.mp hs) (isCanonical_stop.mp he) hhalf hu) hm
    · intro h
      exact absurd h.2.1 hhalf

/-- A range up to the hole is refused, whether or not it is free. -/
theorem register_boundary (hpages : region.WholePages) (hb : region.limit = 2 ^ 47) :
    ((registerRegion region vmm).1 = .ok () ↔ ValidRegion vmm.regions region) ↔ ¬Misjudged vmm.regions region := by
  have hrefused : ¬(registerRegion region vmm).1 = .ok () := by
    intro h
    have hend := (register_ok_iff.mp h).2.1
    rw [VirtRegion.boundary_rejected hb] at hend
    cases hend
  rw [validRegion_iff]
  constructor
  · intro h hm
    have hfree : ¬FreeRange vmm.regions region := fun hf => hrefused (h.mpr ⟨hpages, .inl hb.le, hf⟩)
    cases hm with
    | boundary _ _ hf => exact hfree hf
    | spanning _ _ _ hout => exact hout (.inl hb.le)
    | hidden _ _ _ hne => exact hne hb
    | empty _ _ _ hne => exact hne hb
  · intro hm
    constructor
    · intro h
      exact absurd h hrefused
    · intro h
      exact absurd (.boundary hpages hb h.2.2) hm

/-- Elsewhere within one half the ends pass, and the overlap tests decide. -/
theorem register_inside (hroom : vmm.regions.length < maxVirtRegions) (hpages : region.WholePages) (hhalf : region.InHalf)
    (hb : region.limit ≠ 2 ^ 47) :
    ((registerRegion region vmm).1 = .ok () ↔ ValidRegion vmm.regions region) ↔ ¬Misjudged vmm.regions region := by
  have hends := VirtRegion.ends_canonical hhalf hpages.2.1 hb
  rw [register_ok_iff, validRegion_iff]
  constructor
  · intro h hm
    cases hm with
    | boundary _ hlimit => exact hb hlimit
    | spanning _ _ _ hout => exact hout hhalf
    | hidden r _ _ _ hr hmeet _ hu => exact hmeet ((h.mp ⟨hends.1, hends.2, hpages, hroom, hu⟩).2.2 r hr)
    | empty r _ _ _ hr hempty hlow hhigh hfree =>
      have hu := undetected_iff.mp (h.mpr ⟨hpages, hhalf, hfree⟩).2.2.2.2 r hr
      rw [VirtRegion.seen_of_empty hempty hlow hhigh] at hu
      cases hu
  · intro hm
    constructor
    · rintro ⟨-, -, -, -, hu⟩
      refine ⟨hpages, hhalf, fun r hr => ?_⟩
      by_contra hmeet
      exact hm (.hidden r hpages hhalf hb hr hmeet (VirtRegion.wraps_of_missed hmeet (hu r hr)) hu)
    · rintro ⟨-, -, hfree⟩
      refine ⟨hends.1, hends.2, hpages, hroom, undetected_iff.mpr fun r hr => ?_⟩
      by_contra hseen
      rw [Bool.not_eq_false] at hseen
      obtain ⟨hempty, hlow, hhigh⟩ := VirtRegion.empty_of_seen hpages.2.1 (hfree r hr) hseen
      exact hm (.empty r hpages hhalf hb hr hempty hlow hhigh hfree)

theorem Misjudged.wholePages (h : Misjudged regions region) : region.WholePages := by
  cases h with
  | boundary h => exact h
  | spanning h => exact h
  | hidden _ h => exact h
  | empty _ h => exact h

/-- With room in the table, a request is answered rightly just when it is not in the list. -/
theorem register_iff (hroom : vmm.regions.length < maxVirtRegions) :
    ((registerRegion region vmm).1 = .ok () ↔ ValidRegion vmm.regions region) ↔ ¬Misjudged vmm.regions region := by
  by_cases hpages : region.WholePages
  · by_cases hhalf : region.InHalf
    · by_cases hb : region.limit = 2 ^ 47
      · exact register_boundary hpages hb
      · exact register_inside hroom hpages hhalf hb
    · exact register_outside hroom hpages hhalf
  · have hrefused : (registerRegion region vmm).1 = .ok () ↔ ValidRegion vmm.regions region :=
      iff_of_false (fun h => hpages (register_ok_iff.mp h).2.2.1) fun h => hpages h.pages
    exact iff_of_true hrefused fun hm => hpages hm.wholePages

end Requests

section Runs

variable {vmm vmm' : VirtualMemoryManager} {call : RegionCall} {calls : List RegionCall}

theorem SoundTable.unregister (h : SoundTable vmm.regions) (start : VirtAddr) :
    SoundTable (unregisterRegion start vmm).2.regions where
  canonical r hr := h.canonical r ((unregister_subperm start vmm).subset hr)
  disjoint := by
    obtain ⟨l, hp, hl⟩ := unregister_subperm start vmm
    exact (hp.pairwise_iff fun hrq => hrq.symm).mp (h.disjoint.sublist hl)

theorem SoundTable.step (h : SoundTable vmm.regions) (hstep : JudgedStep vmm call vmm') : SoundTable vmm'.regions := by
  obtain ⟨hnext, hjudged⟩ := hstep
  rw [hnext]
  cases call with
  | unregister start => exact h.unregister start
  | register region =>
    change SoundTable (registerRegion region vmm).2.regions
    cases register_cases region vmm with
    | inl hsame =>
      rw [hsame]
      exact h
    | inr hok =>
      have hroom := (register_ok_iff.mp hok.1).2.2.2.1
      have hvalid := ((register_iff hroom).mpr hjudged).mp hok.1
      rw [hok.2]
      constructor
      · intro r hr
        cases List.mem_append.mp hr with
        | inl hr => exact h.canonical r hr
        | inr hr =>
          rw [List.mem_singleton.mp hr]
          exact hvalid.canonical
      · rw [List.pairwise_append]
        refine ⟨h.disjoint, List.pairwise_singleton _ _, fun r hr q hq => ?_⟩
        rw [List.mem_singleton.mp hq]
        exact hvalid.free r hr

theorem SoundTable.run (hrun : Run JudgedStep vmm calls vmm') (h : SoundTable vmm.regions) : SoundTable vmm'.regions :=
  hrun.invariant (fun vmm => SoundTable vmm.regions) (fun _ _ _ h hstep => h.step hstep) h

end Runs

/-- The requests that `register_region` judges rightly, and the tables that only such requests build. -/
theorem registration_iff (vmm vmm' : VirtualMemoryManager) :
    (vmm.regions.length < maxVirtRegions → ∀ region,
      ((registerRegion region vmm).1 = .ok () ↔ ValidRegion vmm.regions region) ↔ ¬Misjudged vmm.regions region) ∧
    (SoundTable vmm.regions → ∀ calls, Run JudgedStep vmm calls vmm' → SoundTable vmm'.regions) :=
  ⟨fun hroom _ => register_iff hroom, fun h _ hrun => h.run hrun⟩

theorem samplePage_valid : ValidRegion [] (samplePage 0) :=
  validRegion_iff.mpr ⟨by unfold VirtRegion.WholePages; decide, .inr (by decide), fun _ hr => by cases hr⟩

/-- The first dynamic page is registered in the table of the boot. -/
theorem registration_iff_sample : ¬Misjudged [] (samplePage 0) ∧
    SoundTable (registerRegion (samplePage 0) .new).2.regions := by
  have hroom : VirtualMemoryManager.new.regions.length < maxVirtRegions := by decide
  have hok : (registerRegion (samplePage 0) .new).1 = .ok () := by decide
  have hjudged : ¬Misjudged [] (samplePage 0) :=
    ((registration_iff .new .new).1 hroom (samplePage 0)).mp ⟨fun _ => samplePage_valid, fun _ => hok⟩
  have hrun : Run JudgedStep .new [.register (samplePage 0)] (registerRegion (samplePage 0) .new).2 :=
    .single ⟨rfl, hjudged⟩
  have hempty : SoundTable VirtualMemoryManager.new.regions :=
    ⟨fun _ hr => absurd hr List.not_mem_nil, List.Pairwise.nil⟩
  exact ⟨hjudged, (registration_iff .new _).2 hempty _ hrun⟩

/-- The last page below the hole, the same page with everything up to the upper half, and the last
page of all. -/
def lastLowPage : VirtRegion := ⟨⟨0x00007FFFFFFFF000⟩, 0x1000, .kernelData, .reserved, false⟩
def acrossHole : VirtRegion := ⟨⟨0x00007FFFFFFFF000⟩, 0xFFFF000000002000, .kernelData, .reserved, false⟩
def topPage : VirtRegion := ⟨⟨0xFFFFFFFFFFFFF000⟩, 0x1000, .kernelData, .reserved, false⟩

/-- A canonical page is refused, a range across the hole accepted, and the last page accepted twice. -/
theorem register_misjudges :
    (ValidRegion VirtualMemoryManager.new.regions lastLowPage ∧
      (registerRegion lastLowPage .new).1 = .error .nonCanonicalAddress) ∧
    (∃ vmm, Run RegionStep .new [.register acrossHole] vmm ∧ (registerRegion acrossHole .new).1 = .ok () ∧
      ¬ValidRegion VirtualMemoryManager.new.regions acrossHole ∧ ¬∀ r ∈ vmm.regions, r.Canonical) ∧
    (∃ vmm, Run RegionStep .new [.register topPage, .register topPage] vmm ∧
      ¬vmm.regions.Pairwise fun r q => Disjoint r.range q.range) := by
  refine ⟨⟨?_, by decide⟩, ⟨_, .single rfl, by decide, fun h => ?_, fun h => ?_⟩, ⟨_, .cons rfl (.single rfl), fun h => ?_⟩⟩
  · exact validRegion_iff.mpr ⟨by unfold VirtRegion.WholePages; decide, .inl (by decide), fun _ hr => by cases hr⟩
  · have hhalf := (validRegion_iff.mp h).2.1
    revert hhalf
    unfold VirtRegion.InHalf
    decide
  · have hhalf := (VirtRegion.canonical_iff (by decide)).mp (h acrossHole (by decide))
    revert hhalf
    unfold VirtRegion.InHalf
    decide
  · have hregions : (RegionCall.next (RegionCall.next .new (.register topPage)) (.register topPage)).regions =
        [topPage, topPage] := by decide
    rw [hregions] at h
    have hd := (List.pairwise_cons.mp h).1 topPage List.mem_cons_self
    rw [VirtRegion.disjoint_range_iff] at hd
    revert hd
    decide

end VenturaOS.Vmm
