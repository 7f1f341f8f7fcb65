import Mathlib
import VenturaOS.Memory.Uefi

/-!
# What the memory map holds

The descriptors that lie inside the slice, with offsets and ends as natural
numbers, and the map they should give. The loop computes this map unless the
stride is so large that the sum with the size of a descriptor wraps.
-/
namespace VenturaOS.Memory
open Library

namespace EfiMemoryDescriptor

def limit (d : EfiMemoryDescriptor) : ℕ := d.physicalStart.toNat + pageSize * d.numberOfPages.toNat

def range (d : EfiMemoryDescriptor) : Set ℕ := Set.Ico d.physicalStart.toNat d.limit

/-- The entry for a descriptor, if it has pages and ends below 2^64. -/
def region (d : EfiMemoryDescriptor) : Option MemoryRegion :=
  if 0 < d.numberOfPages.toNat ∧ d.limit ≤ 2 ^ 64 - 1 then
    some ⟨d.physicalStart, BitVec.ofNat 64 d.limit, d.numberOfPages, (mappedType d.memoryType).1,
      decide (d.memoryType.toNat = efiConventionalMemory)⟩
  else none

end EfiMemoryDescriptor

def descriptorAt (raw : Slice) (m : U64 → UInt8) (o : ℕ) : EfiMemoryDescriptor :=
  .ofBytes ((addressesFrom (raw.start + BitVec.ofNat 64 o) EfiMemoryDescriptor.size).map m)

/-- The descriptors from the `i`-th on that lie inside the slice, among `n`. -/
def descriptorsFrom (raw : Slice) (m : U64 → UInt8) (stride i n : ℕ) : List EfiMemoryDescriptor :=
  ((List.range' i n).filter fun i => i * stride + EfiMemoryDescriptor.size ≤ raw.len).map fun i =>
    descriptorAt raw m (i * stride)

def descriptors (raw : Slice) (m : U64 → UInt8) (stride count : ℕ) : List EfiMemoryDescriptor :=
  descriptorsFrom raw m stride 0 count

namespace MemoryRegion

def bytes (r : MemoryRegion) : ℕ := r.physicalEnd.toNat - r.physicalStart.toNat

end MemoryRegion

def bytesOf (regions : List MemoryRegion) : ℕ := (regions.map MemoryRegion.bytes).sum

/-- What `init_from_uefi` is to do. -/
structure Decodes (raw : Slice) (m : U64 → UInt8) (descriptorSize descriptorCount : U64) : Prop where
  inside : (initFromUefi raw descriptorSize descriptorCount).Within m raw.Holds
  regions : ((initFromUefi raw descriptorSize descriptorCount).value m).regions =
    ((descriptors raw m descriptorSize.toNat descriptorCount.toNat).filterMap EfiMemoryDescriptor.region).take maxRegions
  totals : (descriptors raw m descriptorSize.toNat descriptorCount.toNat).Pairwise (fun d e => Disjoint d.range e.range) →
    let map := (initFromUefi raw descriptorSize descriptorCount).value m
    map.totalMemoryBytes.toNat = bytesOf map.regions ∧
      map.usableMemoryBytes.toNat + map.reservedMemoryBytes.toNat = map.totalMemoryBytes.toNat

section Sums

/-- Pairwise disjoint intervals below `n` have at most `n` elements together. -/
theorem sum_intervals_le {l : List (ℕ × ℕ)} {n : ℕ} (hd : l.Pairwise fun p q => Disjoint (Set.Ico p.1 p.2) (Set.Ico q.1 q.2))
    (hn : ∀ p ∈ l, p.2 ≤ n) : (l.map fun p => p.2 - p.1).sum ≤ n := by
  -- the sum is the size of the union
  have hunion : ∃ s : Finset ℕ, (l.map fun p => p.2 - p.1).sum = s.card ∧ s ⊆ Finset.range n ∧
      ∀ a, a ∈ s ↔ ∃ p ∈ l, a ∈ Set.Ico p.1 p.2 := by
    induction l with
    | nil => exact ⟨∅, by simp, by simp, by simp⟩
    | cons p l ih =>
      obtain ⟨s, hsum, hsub, hmem⟩ := ih (List.pairwise_cons.mp hd).2 fun q hq => hn q (List.mem_cons_of_mem _ hq)
      have hp := hn p List.mem_cons_self
      have hdisj : Disjoint (Finset.Ico p.1 p.2) s := by
        rw [Finset.disjoint_left]
        intro a ha has
        obtain ⟨q, hq, haq⟩ := (hmem a).mp has
        have hapart := (List.pairwise_cons.mp hd).1 q hq
        exact Set.disjoint_left.mp hapart (Finset.mem_Ico.mp ha) haq
      refine ⟨Finset.Ico p.1 p.2 ∪ s, ?_, ?_, fun a => ?_⟩
      · rw [List.map_cons, List.sum_cons, hsum, Finset.card_union_of_disjoint hdisj, Nat.card_Ico]
      · apply Finset.union_subset _ hsub
        intro a ha
        rw [Finset.mem_Ico] at ha
        exact Finset.mem_range.mpr (by omega)
      · rw [Finset.mem_union, Finset.mem_Ico, hmem, List.exists_mem_cons_iff]
        rfl
  obtain ⟨s, hsum, hsub, -⟩ := hunion
  rw [hsum, ← Finset.card_range n]
  exact Finset.card_le_card hsub

end Sums

section Record

variable {d : EfiMemoryDescriptor} {map : CountedMap}

theorem mappedType_usable (memoryType : BitVec 32) : (EfiMemoryDescriptor.mappedType memoryType).2 =
    decide (memoryType.toNat = efiConventionalMemory) := by
  unfold EfiMemoryDescriptor.mappedType
  by_cases h : memoryType.toNat = efiConventionalMemory
  · rw [if_pos h, decide_eq_true h]
  · rw [if_neg h, decide_eq_false h]
    simp only [apply_ite Prod.snd, ite_self]

/-- The checks of the source, on natural numbers. -/
theorem record_eq (map : CountedMap) (d : EfiMemoryDescriptor) : map.record d =
    match d.region with
    | none => map
    | some r =>
      { regions := map.regions ++ [r]
        totalMemoryBytes := map.totalMemoryBytes + BitVec.ofNat 64 r.bytes
        usableMemoryBytes :=
          if r.isUsable then map.usableMemoryBytes + BitVec.ofNat 64 r.bytes else map.usableMemoryBytes
        reservedMemoryBytes :=
          if r.isUsable then map.reservedMemoryBytes else map.reservedMemoryBytes + BitVec.ofNat 64 r.bytes } := by
  have hstart := d.physicalStart.isLt
  have hpages := d.numberOfPages.isLt
  have hzero : d.numberOfPages = 0 ↔ d.numberOfPages.toNat = 0 := by
    rw [BitVec.toNat_eq]
    rfl
  by_cases h : 0 < d.numberOfPages.toNat ∧ d.limit ≤ 2 ^ 64 - 1
  · have hregion : d.region = some _ := if_pos h
    obtain ⟨hpos, hlimit⟩ := h
    rw [EfiMemoryDescriptor.limit, pageSize] at hlimit
    have hlength : (d.numberOfPages * BitVec.ofNat 64 pageSize).toNat = 4096 * d.numberOfPages.toNat := by
      rw [BitVec.toNat_mul, BitVec.toNat_ofNat, pageSize]
      omega
    have hend : d.physicalStart + d.numberOfPages * BitVec.ofNat 64 pageSize = BitVec.ofNat 64 d.limit := by
      apply BitVec.eq_of_toNat_eq
      rw [BitVec.toNat_add, hlength, BitVec.toNat_ofNat, EfiMemoryDescriptor.limit, pageSize]
    have hbytes : d.numberOfPages * BitVec.ofNat 64 pageSize =
        BitVec.ofNat 64 ((BitVec.ofNat 64 d.limit).toNat - d.physicalStart.toNat) := by
      apply BitVec.eq_of_toNat_eq
      rw [hlength, BitVec.toNat_ofNat, BitVec.toNat_ofNat, EfiMemoryDescriptor.limit, pageSize]
      omega
    rw [hregion]
    dsimp only [MemoryRegion.bytes]
    rw [← hbytes, ← mappedType_usable, ← hend, CountedMap.record, if_neg (by rw [hzero]; omega),
      if_neg (by rw [pageSize]; omega)]
    dsimp only
    rw [if_neg (by rw [hlength]; omega)]
  · have hregion : d.region = none := if_neg h
    rw [EfiMemoryDescriptor.limit, pageSize] at h
    rw [hregion, CountedMap.record]
    split_ifs with hnone hmul
    · rfl
    · rfl
    · have hlength : (d.numberOfPages * BitVec.ofNat 64 pageSize).toNat = 4096 * d.numberOfPages.toNat := by
        rw [pageSize] at hmul
        rw [BitVec.toNat_mul, BitVec.toNat_ofNat, pageSize]
        omega
      rw [hzero] at hnone
      dsimp only
      rw [if_pos (by rw [hlength]; omega)]

theorem record_regions : (map.record d).regions = map.regions ++ d.region.toList := by
  rw [record_eq]
  cases d.region with
  | none => rw [Option.toList_none, List.append_nil]
  | some r => rfl

end Record

section Offsets

variable {raw : Slice} {m : U64 → UInt8} {stride i n o : ℕ}

theorem descriptorsFrom_outside (h : ¬i * stride + EfiMemoryDescriptor.size ≤ raw.len) :
    descriptorsFrom raw m stride i n = [] := by
  unfold descriptorsFrom
  rw [List.map_eq_nil_iff, List.filter_eq_nil_iff]
  intro j hj
  have hle := Nat.mul_le_mul_right stride (List.mem_range'_1.mp hj).1
  rw [decide_eq_true_eq]
  omega

theorem descriptorsFrom_inside (h : i * stride + EfiMemoryDescriptor.size ≤ raw.len) :
    descriptorsFrom raw m stride i (n + 1) =
      descriptorAt raw m (i * stride) :: descriptorsFrom raw m stride (i + 1) n := by
  unfold descriptorsFrom
  rw [List.range'_succ, List.filter_cons, if_pos (decide_eq_true h), List.map_cons]

theorem read_inside (h : o + EfiMemoryDescriptor.size ≤ raw.len) :
    (EfiMemoryDescriptor.read (raw.start + BitVec.ofNat 64 o)).Within m raw.Holds := by
  have hfits := raw.fits
  rw [EfiMemoryDescriptor.size] at h
  rw [EfiMemoryDescriptor.read, Reads.within_map, readBytes, Reads.within_readAll]
  intro a ha
  obtain ⟨k, hk, rfl⟩ := mem_addressesFrom.mp ha
  rw [EfiMemoryDescriptor.size] at hk
  have hvalue : (raw.start + BitVec.ofNat 64 o + BitVec.ofNat 64 k).toNat = raw.start.toNat + o + k := by
    rw [BitVec.toNat_add, BitVec.toNat_add, BitVec.toNat_ofNat, BitVec.toNat_ofNat]
    omega
  rw [Slice.Holds, hvalue]
  omega

theorem read_first {a : U64} {P : U64 → Prop} (h : (EfiMemoryDescriptor.read a).Within m P) : P a := by
  rw [EfiMemoryDescriptor.read, Reads.within_map, readBytes, Reads.within_readAll] at h
  exact h a (mem_addressesFrom.mpr ⟨0, Nat.succ_pos _, (BitVec.add_zero a).symm⟩)

end Offsets

section Loop

variable {raw : Slice} {m : U64 → UInt8} {descriptorSize : U64} {map : CountedMap} {i n : ℕ}

/-- The loop from the `i`-th descriptor on, as long as no offset wraps. -/
theorem decodeFrom_regions
    (hsize : n ≤ 1 ∨ raw.len < EfiMemoryDescriptor.size ∨ descriptorSize.toNat + EfiMemoryDescriptor.size < 2 ^ 64)
    (hi : n = 0 ∨ i * descriptorSize.toNat + EfiMemoryDescriptor.size < 2 ^ 64) (hroom : map.regions.length ≤ maxRegions) :
    let loop := decodeFrom raw descriptorSize n (BitVec.ofNat 64 (i * descriptorSize.toNat)) map
    loop.Within m raw.Holds ∧ (loop.value m).regions =
      (map.regions ++ (descriptorsFrom raw m descriptorSize.toNat i n).filterMap EfiMemoryDescriptor.region).take
        maxRegions := by
  induction n generalizing i map with
  | zero =>
    refine ⟨Reads.within_pure _, ?_⟩
    change map.regions = (map.regions ++ []).take maxRegions
    rw [List.append_nil, List.take_of_length_le hroom]
  | succ n ih =>
    have hi := hi.resolve_left (Nat.succ_ne_zero n)
    have hoffset : (BitVec.ofNat 64 (i * descriptorSize.toNat) + BitVec.ofNat 64 EfiMemoryDescriptor.size).toNat =
        i * descriptorSize.toNat + EfiMemoryDescriptor.size := by
      rw [← BitVec.ofNat_add, BitVec.toNat_ofNat, Nat.mod_eq_of_lt hi]
    dsimp only
    rw [decodeFrom, hoffset]
    by_cases hout : i * descriptorSize.toNat + EfiMemoryDescriptor.size > raw.len
    · rw [if_pos hout, descriptorsFrom_outside (not_le.mpr hout)]
      refine ⟨Reads.within_pure _, ?_⟩
      change map.regions = (map.regions ++ []).take maxRegions
      rw [List.append_nil, List.take_of_length_le hroom]
    rw [if_neg hout]
    rw [gt_iff_lt, not_lt] at hout
    by_cases hfull : map.regions.length ≥ maxRegions
    · rw [if_pos hfull]
      refine ⟨Reads.within_pure _, ?_⟩
      have hlength : map.regions.length = maxRegions := le_antisymm hroom hfull
      change map.regions = _
      rw [← hlength, List.take_left]
    rw [if_neg hfull, Reads.within_bind, Reads.value_bind, descriptorsFrom_inside hout]
    -- the next offset does not wrap: it is the stride itself, or at most twice the slice
    have hnext : n = 0 ∨ (i + 1) * descriptorSize.toNat + EfiMemoryDescriptor.size < 2 ^ 64 := by
      have hbound := raw.bounded
      rw [EfiMemoryDescriptor.size] at hout hsize ⊢
      cases i with
      | zero => omega
      | succ i =>
        have hle : descriptorSize.toNat ≤ (i + 1) * descriptorSize.toNat := Nat.le_mul_of_pos_left _ (Nat.succ_pos i)
        rw [Nat.add_mul (i + 1) 1, Nat.one_mul]
        omega
    have hstep : BitVec.ofNat 64 (i * descriptorSize.toNat) + descriptorSize =
        BitVec.ofNat 64 ((i + 1) * descriptorSize.toNat) := by
      rw [Nat.add_mul, Nat.one_mul, BitVec.ofNat_add, BitVec.ofNat_toNat, BitVec.setWidth_eq]
    have hdesc : (EfiMemoryDescriptor.read (raw.start + BitVec.ofNat 64 (i * descriptorSize.toNat))).value m =
        descriptorAt raw m (i * descriptorSize.toNat) := rfl
    have hrecorded : (map.record (descriptorAt raw m (i * descriptorSize.toNat))).regions.length ≤ maxRegions := by
      rw [record_regions, List.length_append]
      have hone := Option.length_toList_le (o := (descriptorAt raw m (i * descriptorSize.toNat)).region)
      omega
    rw [hstep, hdesc]
    obtain ⟨hwithin, hregions⟩ := ih (hsize.imp_left (by omega)) hnext hrecorded
    refine ⟨⟨read_inside hout, hwithin⟩, ?_⟩
    rw [hregions, record_regions, List.filterMap_cons, List.append_assoc]
    cases (descriptorAt raw m (i * descriptorSize.toNat)).region with
    | none => rfl
    | some r => rfl

/-- The running sums, modulo 2^64. -/
structure Counted (map : CountedMap) : Prop where
  total : map.totalMemoryBytes = BitVec.ofNat 64 (bytesOf map.regions)
  usable : map.usableMemoryBytes = BitVec.ofNat 64 (bytesOf (map.regions.filter fun r => r.isUsable))
  reserved : map.reservedMemoryBytes = BitVec.ofNat 64 (bytesOf (map.regions.filter fun r => !r.isUsable))

theorem bytesOf_append (l l' : List MemoryRegion) : bytesOf (l ++ l') = bytesOf l + bytesOf l' := by
  rw [bytesOf, List.map_append, List.sum_append, bytesOf, bytesOf]

theorem bytesOf_split (l : List MemoryRegion) :
    bytesOf (l.filter fun r => r.isUsable) + bytesOf (l.filter fun r => !r.isUsable) = bytesOf l := by
  induction l with
  | nil => rfl
  | cons r l ih =>
    have hcons : bytesOf (r :: l) = r.bytes + bytesOf l := rfl
    cases hu : r.isUsable with
    | true =>
      rw [List.filter_cons_of_pos (by rw [hu]), List.filter_cons_of_neg (by rw [hu]; decide), hcons, ← ih]
      exact Nat.add_assoc _ _ _
    | false =>
      rw [List.filter_cons_of_neg (by rw [hu]; decide), List.filter_cons_of_pos (by rw [hu]; decide), hcons, ← ih]
      exact Nat.add_left_comm _ _ _

theorem Counted.record (h : Counted map) (d : EfiMemoryDescriptor) : Counted (map.record d) := by
  rw [record_eq]
  cases d.region with
  | none => exact h
  | some r =>
    have hone : bytesOf [r] = r.bytes := Nat.add_zero _
    constructor
    · change map.totalMemoryBytes + _ = BitVec.ofNat 64 (bytesOf (map.regions ++ [r]))
      rw [bytesOf_append, hone, BitVec.ofNat_add, ← h.total]
    · change (if r.isUsable then _ else _) = BitVec.ofNat 64 (bytesOf ((map.regions ++ [r]).filter _))
      rw [List.filter_append, bytesOf_append, BitVec.ofNat_add, ← h.usable]
      cases hu : r.isUsable with
      | true => rw [if_pos rfl, List.filter_cons_of_pos (by rw [hu]), List.filter_nil, hone]
      | false =>
        rw [if_neg (by decide), List.filter_cons_of_neg (by rw [hu]; decide), List.filter_nil]
        exact (BitVec.add_zero _).symm
    · change (if r.isUsable then _ else _) = BitVec.ofNat 64 (bytesOf ((map.regions ++ [r]).filter _))
      rw [List.filter_append, bytesOf_append, BitVec.ofNat_add, ← h.reserved]
      cases hu : r.isUsable with
      | true =>
        rw [if_pos rfl, List.filter_cons_of_neg (by rw [hu]; decide), List.filter_nil]
        exact (BitVec.add_zero _).symm
      | false => rw [if_neg (by decide), List.filter_cons_of_pos (by rw [hu]; decide), List.filter_nil, hone]

theorem Counted.decodeFrom (h : Counted map) (offset : U64) :
    Counted ((decodeFrom raw descriptorSize n offset map).value m) := by
  induction n generalizing offset map with
  | zero => exact h
  | succ n ih =>
    rw [Memory.decodeFrom]
    split_ifs
    · exact h
    · exact h
    · rw [Reads.value_bind]
      exact ih (h.record _) _

end Loop

section Totals

variable {raw : Slice} {m : U64 → UInt8} {d e : EfiMemoryDescriptor} {r : MemoryRegion}

theorem EfiMemoryDescriptor.region_bounds (h : d.region = some r) :
    r.physicalStart.toNat = d.physicalStart.toNat ∧ r.physicalEnd.toNat = d.limit ∧ d.limit ≤ 2 ^ 64 - 1 := by
  rw [EfiMemoryDescriptor.region] at h
  split_ifs at h with hd
  cases h
  refine ⟨rfl, ?_, hd.2⟩
  rw [BitVec.toNat_ofNat]
  omega

/-- Disjoint ranges below 2^64 have fewer than 2^64 bytes. -/
theorem bytesOf_lt {l : List EfiMemoryDescriptor} (h : l.Pairwise fun d e => Disjoint d.range e.range) (n : ℕ) :
    bytesOf ((l.filterMap EfiMemoryDescriptor.region).take n) < 2 ^ 64 := by
  have hregions : (l.filterMap EfiMemoryDescriptor.region).Pairwise fun r q =>
      Disjoint (Set.Ico r.physicalStart.toNat r.physicalEnd.toNat) (Set.Ico q.physicalStart.toNat q.physicalEnd.toNat) := by
    apply h.filterMap
    intro d e hde r hr q hq
    obtain ⟨hrs, hre, -⟩ := EfiMemoryDescriptor.region_bounds hr
    obtain ⟨hqs, hqe, -⟩ := EfiMemoryDescriptor.region_bounds hq
    rw [hrs, hre, hqs, hqe]
    exact hde
  have htaken := hregions.sublist (List.take_sublist n _)
  generalize ((l.filterMap EfiMemoryDescriptor.region).take n) = taken at htaken ⊢
  have hsum := sum_intervals_le (l := taken.map fun r => (r.physicalStart.toNat, r.physicalEnd.toNat)) (n := 2 ^ 64 - 1)
    (List.pairwise_map.mpr htaken) (fun p hp => by
      obtain ⟨r, -, rfl⟩ := List.mem_map.mp hp
      have hlt := r.physicalEnd.isLt
      change r.physicalEnd.toNat ≤ 2 ^ 64 - 1
      omega)
  rw [List.map_map] at hsum
  have hbytes : bytesOf taken ≤ 2 ^ 64 - 1 := hsum
  omega

theorem Counted.exact {map : CountedMap} (h : Counted map) (hlt : bytesOf map.regions < 2 ^ 64) :
    map.totalMemoryBytes.toNat = bytesOf map.regions ∧
      map.usableMemoryBytes.toNat + map.reservedMemoryBytes.toNat = map.totalMemoryBytes.toNat := by
  have hsplit := bytesOf_split map.regions
  rw [h.total, h.usable, h.reserved, BitVec.toNat_ofNat, BitVec.toNat_ofNat, BitVec.toNat_ofNat,
    Nat.mod_eq_of_lt hlt, Nat.mod_eq_of_lt (by omega), Nat.mod_eq_of_lt (by omega)]
  exact ⟨rfl, hsplit⟩

theorem Counted.empty : Counted .empty := ⟨rfl, rfl, rfl⟩

end Totals

section Decoding

variable {raw : Slice} {m : U64 → UInt8} {descriptorSize descriptorCount : U64}

theorem decodes_of_no_wrap (hsize : descriptorCount.toNat ≤ 1 ∨ raw.len < EfiMemoryDescriptor.size ∨
    descriptorSize.toNat + EfiMemoryDescriptor.size < 2 ^ 64) : Decodes raw m descriptorSize descriptorCount := by
  have hstart : 0 * descriptorSize.toNat + EfiMemoryDescriptor.size < 2 ^ 64 := by
    rw [Nat.zero_mul, EfiMemoryDescriptor.size]
    decide
  have hroom : CountedMap.empty.regions.length ≤ maxRegions := Nat.zero_le _
  obtain ⟨hwithin, hregions⟩ := decodeFrom_regions (m := m) (i := 0) hsize (.inr hstart) hroom
  rw [Nat.zero_mul] at hwithin hregions
  have hcounted : Counted ((initFromUefi raw descriptorSize descriptorCount).value m) := Counted.empty.decodeFrom 0
  have hlisted : ((initFromUefi raw descriptorSize descriptorCount).value m).regions =
      ((descriptors raw m descriptorSize.toNat descriptorCount.toNat).filterMap EfiMemoryDescriptor.region).take
        maxRegions := hregions
  refine ⟨hwithin, hlisted, fun hd => hcounted.exact ?_⟩
  rw [hlisted]
  exact bytesOf_lt hd maxRegions

/-- A stride that wraps makes the second descriptor start before the slice. -/
theorem reads_before_slice (hcount : 2 ≤ descriptorCount.toNat) (hlen : EfiMemoryDescriptor.size ≤ raw.len)
    (hsize : 2 ^ 64 ≤ descriptorSize.toNat + EfiMemoryDescriptor.size) :
    ¬(initFromUefi raw descriptorSize descriptorCount).Within m raw.Holds := by
  intro h
  have hlt := descriptorSize.isLt
  have hstart := raw.start.isLt
  have hfits := raw.fits
  have hbounded := raw.bounded
  rw [EfiMemoryDescriptor.size] at hlen hsize
  obtain ⟨n, hn⟩ := Nat.exists_eq_add_of_le' hcount
  have hzero : (0 : U64).toNat = 0 := rfl
  have hfirst : ((0 : U64) + BitVec.ofNat 64 EfiMemoryDescriptor.size).toNat = 40 := by decide
  have hsecond : ((0 : U64) + descriptorSize + BitVec.ofNat 64 EfiMemoryDescriptor.size).toNat =
      descriptorSize.toNat + 40 - 2 ^ 64 := by
    rw [EfiMemoryDescriptor.size, BitVec.toNat_add, BitVec.toNat_add, BitVec.toNat_ofNat, hzero]
    omega
  have hroom (desc : EfiMemoryDescriptor) : ¬(CountedMap.empty.record desc).regions.length ≥ maxRegions := by
    have hone := Option.length_toList_le (o := desc.region)
    rw [record_regions, List.length_append, maxRegions]
    change ¬0 + desc.region.toList.length ≥ 128
    omega
  rw [initFromUefi, hn, decodeFrom, hfirst, if_neg (by omega), if_neg (by decide), Reads.within_bind, decodeFrom, hsecond,
    if_neg (by omega), if_neg (hroom _), Reads.within_bind] at h
  have hinside := read_first h.2.1
  rw [Slice.Holds, BitVec.toNat_add, BitVec.toNat_add, hzero] at hinside
  omega

/-- The memory map is decoded as it should unless the second offset wraps. -/
theorem decodes_iff (raw : Slice) (m : U64 → UInt8) (descriptorSize descriptorCount : U64)
    (hsize : EfiMemoryDescriptor.size ≤ descriptorSize.toNat) :
    Decodes raw m descriptorSize descriptorCount ↔
      ¬(2 ≤ descriptorCount.toNat ∧ EfiMemoryDescriptor.size ≤ raw.len ∧
        2 ^ 64 - EfiMemoryDescriptor.size ≤ descriptorSize.toNat) := by
  rw [EfiMemoryDescriptor.size] at hsize ⊢
  constructor
  · rintro h ⟨hcount, hlen, hwrap⟩
    exact reads_before_slice hcount hlen (by rw [EfiMemoryDescriptor.size]; omega) h.inside
  · intro h
    apply decodes_of_no_wrap
    rw [EfiMemoryDescriptor.size]
    omega

/-- `efi_main` asks for as many descriptors as the slice has room for. -/
theorem efi_main_decodes : Decodes raw m descriptorSize (BitVec.ofNat 64 (raw.len / descriptorSize.toNat)) := by
  have hbounded := raw.bounded
  have hlt := descriptorSize.isLt
  apply decodes_of_no_wrap
  by_cases hlarge : descriptorSize.toNat + EfiMemoryDescriptor.size < 2 ^ 64
  · exact .inr (.inr hlarge)
  · have hcount : raw.len / descriptorSize.toNat = 0 := by
      rw [EfiMemoryDescriptor.size] at hlarge
      exact Nat.div_eq_of_lt (by omega)
    rw [hcount]
    exact .inl (by decide)

end Decoding

/-- Two descriptors, 48 bytes apart. -/
def sampleSlice : Slice := ⟨0x1000, 96, by decide, by decide⟩

/-- The first one describes a page of conventional memory at 0x100000, the second one has no pages. -/
def sampleBytes (a : U64) : UInt8 :=
  if a = 0x1000 then 7 else if a = 0x100A then 0x10 else if a = 0x1018 then 1 else 0

theorem decodes_sample : Decodes sampleSlice sampleBytes 48 2 ∧
    ((initFromUefi sampleSlice 48 2).value sampleBytes).regions = [⟨0x100000, 0x101000, 1, .usable, true⟩] :=
  ⟨(decodes_iff sampleSlice sampleBytes 48 2 (by decide)).mpr (by decide), by decide⟩

/-- With a stride of 2^64 - 8 the second descriptor is read from eight bytes before the slice. -/
theorem stride_wraps : EfiMemoryDescriptor.size ≤ (0xFFFFFFFFFFFFFFF8 : U64).toNat ∧
    (0xFF8 : U64) ∈ (initFromUefi sampleSlice 0xFFFFFFFFFFFFFFF8 2).touched sampleBytes ∧ ¬sampleSlice.Holds 0xFF8 ∧
    ¬Decodes sampleSlice sampleBytes 0xFFFFFFFFFFFFFFF8 2 := by
  have hheld : ¬sampleSlice.Holds 0xFF8 := by
    unfold Slice.Holds
    decide
  have htouched : (0xFF8 : U64) ∈ (initFromUefi sampleSlice 0xFFFFFFFFFFFFFFF8 2).touched sampleBytes := by decide
  exact ⟨by decide, htouched, hheld, fun h => hheld (h.inside _ htouched)⟩

end VenturaOS.Memory
