import VenturaOS.Pmm.Exclusivity

/-!
# Frames in circulation

The allocator as the rest of the kernel sees it: a fixed finite set of frame
addresses, some of them free. Allocation takes one out of the free ones, a
free of a frame that is out puts it back, and the free counter together with
the number of frames that are out never changes.
-/
namespace VenturaOS.Pmm
open Library Memory

def frame (i : ℕ) : U64 := (PhysPage.fromPageNumber i).addr

namespace Allocator

def freeFrames (s : Allocator) : Finset U64 := s.freeSet.image frame

end Allocator

/-- The frames `F` are the ones in circulation; `c` is the free counter plus the frames out. -/
structure Frames (F : Finset U64) (c : ℕ) (s : Allocator) : Prop where
  bound : s.total ≤ maxManagedPages
  managed : ∀ f ∈ F, ∃ i, f = frame i ∧ i ≠ 0 ∧ i < s.total
  free_subset : s.freeFrames ⊆ F
  counter : s.stats.freePages + (F \ s.freeFrames).card = c
  enough : F.card ≤ c
  limit : c ≤ usizeMax

theorem frame_inj {i j : ℕ} (hi : i < 2 ^ 52) (hj : j < 2 ^ 52) (h : frame i = frame j) : i = j :=
  fromPageNumber_inj hi hj (congrArg PhysPage.mk h)

theorem mem_freeFrames {s : Allocator} (hs : s.total ≤ maxManagedPages) {i : ℕ} (hi : i < s.total) :
    frame i ∈ s.freeFrames ↔ s.bit i = false := by
  unfold maxManagedPages at hs
  rw [Allocator.freeFrames, Finset.mem_image]
  constructor
  · rintro ⟨j, hj, he⟩
    rcases Allocator.mem_freeSet.mp hj with ⟨hlt, hclear⟩
    rwa [← frame_inj (by omega) (by omega) he]
  · intro hclear
    exact ⟨i, Allocator.mem_freeSet.mpr ⟨hi, hclear⟩, rfl⟩

theorem frame_toNat {i : ℕ} (hi : i < maxManagedPages) : (frame i).toNat = i * 4096 := by
  unfold maxManagedPages at hi
  exact fromPageNumber_addr (by omega)

/-- Managed frames are page aligned, lie below 4 GiB and are not page 0. -/
theorem Frames.address {F : Finset U64} {c : ℕ} {s : Allocator} (h : Frames F c s) {f : U64} (hf : f ∈ F) :
    f.toNat % 4096 = 0 ∧ 0 < f.toNat ∧ f.toNat < 2 ^ 32 := by
  rcases h.managed f hf with ⟨i, rfl, hz, hi⟩
  have hb := h.bound
  rw [frame_toNat (by omega)]
  unfold maxManagedPages at hb
  omega

theorem take_freeFrames {s : Allocator} (hs : s.total ≤ maxManagedPages) {i : ℕ} (hi : i < s.total) :
    (s.take i).freeFrames = s.freeFrames.erase (frame i) := by
  unfold maxManagedPages at hs
  rw [Allocator.freeFrames, s.take_freeSet]
  ext f
  simp only [Finset.mem_image, Finset.mem_erase, Allocator.freeFrames]
  constructor
  · rintro ⟨j, ⟨hne, hj⟩, rfl⟩
    have hlt := (Allocator.mem_freeSet.mp hj).1
    exact ⟨fun he => hne (frame_inj (by omega) (by omega) he), j, hj, rfl⟩
  · rintro ⟨hne, j, hj, rfl⟩
    refine ⟨j, ⟨?_, hj⟩, rfl⟩
    rintro rfl
    exact hne rfl

theorem giveBack_freeFrames {s : Allocator} {i : ℕ} (hi : i < s.total) :
    (s.giveBack i).freeFrames = insert (frame i) s.freeFrames := by
  rw [Allocator.freeFrames, s.giveBack_freeSet hi, Finset.image_insert]
  rfl

/-- There is at least one free page by the counter whenever a frame is free. -/
theorem Frames.card_le {F : Finset U64} {c : ℕ} {s : Allocator} (h : Frames F c s) :
    s.freeFrames.card ≤ s.stats.freePages := by
  have hsub := Finset.card_sdiff_add_card_eq_card h.free_subset
  have hc := h.counter
  have he := h.enough
  omega

theorem Frames.card_le_total {F : Finset U64} {c : ℕ} {s : Allocator} (h : Frames F c s) : F.card ≤ s.total := by
  have hsub : F ⊆ (Finset.range s.total).image frame := by
    intro f hf
    rcases h.managed f hf with ⟨i, rfl, -, hi⟩
    exact Finset.mem_image_of_mem frame (Finset.mem_range.mpr hi)
  calc F.card ≤ ((Finset.range s.total).image frame).card := Finset.card_le_card hsub
    _ ≤ (Finset.range s.total).card := Finset.card_image_le
    _ = s.total := Finset.card_range _

theorem Frames.allocate {F : Finset U64} {c : ℕ} {s : Allocator} (h : Frames F c s) :
    (allocatePhysicalPage s = (none, s) ∧ s.freeFrames = ∅) ∨
    ∃ f t, allocatePhysicalPage s = (some ⟨f⟩, t) ∧ f ∈ s.freeFrames ∧
      t.freeFrames = s.freeFrames.erase f ∧ Frames F c t := by
  rcases allocate_cases s with ⟨he, hempty⟩ | ⟨i, hi, -, he⟩
  · exact .inl ⟨he, by rw [Allocator.freeFrames, hempty, Finset.image_empty]⟩
  · have hlt := (Allocator.mem_freeSet.mp hi).1
    have hmem : frame i ∈ s.freeFrames := Finset.mem_image_of_mem _ hi
    have htake := take_freeFrames h.bound hlt
    refine .inr ⟨frame i, s.take i, he, hmem, htake, h.bound, h.managed, ?_, ?_, h.enough, h.limit⟩
    · rw [htake]
      exact (Finset.erase_subset _ _).trans h.free_subset
    · have hpos := Finset.card_pos.mpr ⟨_, hmem⟩
      have hle := h.card_le
      have hsplit : F \ s.freeFrames.erase (frame i) = insert (frame i) (F \ s.freeFrames) := by
        rw [Finset.sdiff_erase (h.free_subset hmem)]
      have hnot : frame i ∉ F \ s.freeFrames := by simp [hmem]
      have hc := h.counter
      rw [htake, hsplit, Finset.card_insert_of_notMem hnot]
      change s.stats.freePages - 1 + _ = c
      omega

theorem Frames.free {F : Finset U64} {c : ℕ} {s : Allocator} (h : Frames F c s) {f : U64} (hf : f ∈ F)
    (hout : f ∉ s.freeFrames) :
    ∃ t, freePhysicalPage ⟨f⟩ s = (.ok (), t) ∧ t.freeFrames = insert f s.freeFrames ∧ Frames F c t := by
  rcases h.managed f hf with ⟨i, rfl, hz, hi⟩
  have hset : s.bit i = true := by
    rw [mem_freeFrames h.bound hi] at hout
    simpa using hout
  have hback := giveBack_freeFrames hi
  refine ⟨s.giveBack i, free_ok hz hi h.bound hset, hback, h.bound, h.managed, ?_, ?_, h.enough, h.limit⟩
  · rw [hback]
    exact Finset.insert_subset hf h.free_subset
  · have hmem : frame i ∈ F \ s.freeFrames := Finset.mem_sdiff.mpr ⟨hf, hout⟩
    have hpos := Finset.card_pos.mpr ⟨_, hmem⟩
    have hsplit : F \ insert (frame i) s.freeFrames = (F \ s.freeFrames).erase (frame i) :=
      Finset.sdiff_insert ..
    have hc := h.counter
    have hl := h.limit
    rw [hback, hsplit, Finset.card_erase_of_mem hmem]
    change saturatingAdd s.stats.freePages 1 + _ = c
    rw [saturatingAdd]
    omega

/-- A free of an address above the managed range is refused. -/
theorem Frames.free_above {F : Finset U64} {c : ℕ} {s : Allocator} (h : Frames F c s) {f : U64}
    (hf : 2 ^ 32 ≤ f.toNat) : ∃ e, freePhysicalPage ⟨f⟩ s = (.error e, s) := by
  rcases free_cases ⟨f⟩ s with herr | ⟨i, -, hi, -, hlt, -⟩
  · exact herr
  · have hb := h.bound
    simp only [PhysPage.pageNumber, pageSize] at hi
    unfold maxManagedPages at hb
    omega

/-- The counter set by `init` is at least the number of clear bits, however the regions overlap. -/
theorem releasePages_card_le (l : List ℕ) (s : Allocator) (h : s.freeSet.card ≤ s.stats.freePages) :
    (l.foldl releasePage s).freeSet.card ≤ (l.foldl releasePage s).stats.freePages := by
  induction l generalizing s with
  | nil => exact h
  | cons i l ih =>
    rw [List.foldl_cons]
    apply ih
    rw [releasePage_freeSet]
    by_cases hz : i = 0
    · simpa [releasePage, hz] using h
    · by_cases ht : i < s.total
      · rw [if_pos ⟨hz, ht⟩]
        apply (Finset.card_insert_le _ _).trans
        simpa [releasePage, hz, ht] using h
      · simpa [releasePage, hz, ht] using h

theorem releasePages_freePages_le (l : List ℕ) (s : Allocator) :
    (l.foldl releasePage s).stats.freePages ≤
      s.stats.freePages + (l.filter (fun i => i < s.total)).length := by
  induction l generalizing s with
  | nil => simp
  | cons i l ih =>
    rw [List.foldl_cons]
    apply (ih _).trans
    rw [releasePage_total, List.filter_cons]
    by_cases hz : i = 0
    · simp only [releasePage, hz, if_true]
      split_ifs <;> simp
    · by_cases ht : i < s.total
      · simp [releasePage, hz, ht]
        omega
      · simp [releasePage, hz, ht]

/-- One region contributes at most one visit to each managed page. -/
theorem visited_length_le (rs : List MemoryRegion) (n : ℕ) :
    ((rs.flatMap MemoryRegion.pages).filter (fun i => i < n)).length ≤ rs.length * n := by
  induction rs with
  | nil => simp
  | cons r rs ih =>
    have hone : ((MemoryRegion.pages r).filter (fun i => i < n)).length ≤ n := by
      have hnodup : ((MemoryRegion.pages r).filter (fun i => i < n)).Nodup := List.Nodup.filter _ List.nodup_range'
      rw [← List.toFinset_card_of_nodup hnodup]
      calc _ ≤ (Finset.range n).card := Finset.card_le_card fun i hi => by simp at hi; simp [hi.2]
        _ = n := Finset.card_range n
    rw [List.flatMap_cons, List.filter_append, List.length_append, List.length_cons, Nat.succ_mul]
    omega

theorem init_frames {map : PhysicalMemoryMap} (hfits : map.regions.length ≤ maxRegions) :
    Frames (init map).freeFrames (init map).stats.freePages (init map) := by
  have hb : (init map).total ≤ maxManagedPages := by
    rw [init_total]
    exact managedPages_le map
  have hbelow : (init map).stats.freePages ≤ map.regions.length * managedPages map := by
    change (map.regions.foldl releaseRegion _).stats.freePages ≤ _
    rw [releaseRegion_foldl]
    apply (releasePages_freePages_le _ _).trans
    have hvisit := visited_length_le (map.regions.filter (fun r => r.isUsable)) (managedPages map)
    have hlen : (map.regions.filter (fun r => r.isUsable)).length ≤ map.regions.length :=
      List.length_filter_le _ _
    have hmul := Nat.mul_le_mul_right (managedPages map) hlen
    rw [Nat.zero_add]
    exact hvisit.trans hmul
  have hcard : (init map).freeSet.card ≤ (init map).stats.freePages := by
    change (map.regions.foldl releaseRegion _).freeSet.card ≤ (map.regions.foldl releaseRegion _).stats.freePages
    rw [releaseRegion_foldl]
    apply releasePages_card_le
    rw [allOnes_freeSet]
    exact Nat.zero_le _
  refine ⟨hb, ?_, Finset.Subset.refl _, by simp, Finset.card_image_le.trans hcard, ?_⟩
  · intro f hf
    rcases Finset.mem_image.mp hf with ⟨i, hi, rfl⟩
    exact ⟨i, rfl, ((init_freeSet map i).mp hi).1, (Allocator.mem_freeSet.mp hi).1⟩
  · have hm := managedPages_le map
    have hmul := Nat.mul_le_mul hfits hm
    unfold maxManagedPages maxRegions at hmul
    unfold usizeMax
    omega

end VenturaOS.Pmm
