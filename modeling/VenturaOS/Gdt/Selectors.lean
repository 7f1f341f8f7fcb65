import VenturaOS.Gdt.Model
import VenturaOS.Library.Fields

/-!
# What the selectors name

The words of the table are read back by the processor as the segments they
were meant to be, for every address of the task state segment. The padding is
inside the limit, so one more selector reads whatever stands there.
-/
namespace VenturaOS.Gdt
open Library GlobalDescriptorTable

/-- The segment at each index of the table. -/
def segmentAt (tss : U64) : ℕ → Option Segment
  | 1 => some ⟨.code true, 0, 0, 0xFFFFFFFF⟩
  | 2 => some ⟨.data true, 0, 0, 0xFFFFFFFF⟩
  | 3 => some ⟨.data true, 3, 0, 0xFFFFFFFF⟩
  | 4 => some ⟨.code true, 3, 0, 0xFFFFFFFF⟩
  | 5 => some ⟨.task, 0, tss.toNat, TaskStateSegment.bytes - 1⟩
  | _ => none

section

variable {m : Bytes} {a w : ℕ} {base tss : U64} {selector : BitVec 16}

/-- The parts of the address go to three places of the low word. -/
theorem tssLow_toNat (tss : U64) :
    (tssLow tss 103#64).toNat = 103 + tss.toNat % 2 ^ 24 * 2 ^ 16 + 0x89 * 2 ^ 40 + tss.toNat / 2 ^ 24 % 2 ^ 8 * 2 ^ 56 := by
  have hlimit : (103#64 &&& 0xFFFF#64) = 103#64 := by decide
  have hhigh : ((103#64 >>> 16) &&& 0x0F#64) <<< 48 = 0#64 := by decide
  have hlow : (tss &&& 0x00FFFFFF#64).toNat = tss.toNat % 2 ^ 24 := toNat_and_mask (n := 24) (by omega)
  have hmid : ((tss >>> 24) &&& 0xFF#64).toNat = tss.toNat / 2 ^ 24 % 2 ^ 8 := by
    rw [← toNat_ushiftRight_div]
    exact toNat_and_mask (n := 8) (by omega)
  have hone : (103#64 ||| (tss &&& 0x00FFFFFF#64) <<< 16).toNat = 103 + tss.toNat % 2 ^ 24 * 2 ^ 16 := by
    rw [toNat_or_shift (by decide) (by omega), hlow]
    rfl
  have htwo : (103#64 ||| (tss &&& 0x00FFFFFF#64) <<< 16 ||| 0x89#64 <<< 40).toNat =
      103 + tss.toNat % 2 ^ 24 * 2 ^ 16 + 0x89 * 2 ^ 40 := by
    rw [toNat_or_shift (by rw [hone]; omega) (by decide), hone]
    rfl
  rw [tssLow, hlimit, hhigh, BitVec.or_zero, toNat_or_shift (by rw [htwo]; omega) (by omega), htwo, hmid]

/-- A code or data segment, from its descriptor as a number. -/
def segmentOfWord (w : ℕ) : Option Segment :=
  let access := w / 256 ^ 5 % 256
  let flags := w / 256 ^ 6 % 256
  if !access.testBit 7 then none
  else
    (segmentKind access flags).map fun kind =>
      { kind
        dpl := access / 32 % 4
        base := w / 256 ^ 2 % 256 ^ 3 + 2 ^ 24 * (w / 256 ^ 7 % 256)
        limit := (w % 256 ^ 2 + 2 ^ 16 * (flags % 16)) * (if flags.testBit 7 then 4096 else 1) +
          (if flags.testBit 7 then 4095 else 0) }

/-- A word that describes no system segment is read as it stands. -/
theorem readSegment_word (hword : m.read (base.toNat + 8 * (selector.toNat / 8)) 8 = w)
    (hlocal : selector.toNat.testBit 2 = false) (hinside : selector.toNat / 8 < 8)
    (hcode : (w / 256 ^ 5 % 256).testBit 4 = true) : readSegment m (pointer base) selector = segmentOfWord w := by
  have h0 : m.read (base.toNat + 8 * (selector.toNat / 8)) 2 = w % 256 ^ 2 := by
    have hfield := Bytes.read_field (j := 0) (n := 2) (k := 6) hword
    simpa using hfield
  have h2 := Bytes.read_field (j := 2) (n := 3) (k := 3) hword
  have h5 := Bytes.read_field (j := 5) (n := 1) (k := 2) hword
  have h6 := Bytes.read_field (j := 6) (n := 1) (k := 1) hword
  have h7 := Bytes.read_field (j := 7) (n := 1) (k := 0) hword
  rw [pow_one] at h5 h6 h7
  have hbelow : ¬((pointer base).limit.toNat + 1 < 8 * (selector.toNat / 8) + 8) := by
    change ¬(63 + 1 < 8 * (selector.toNat / 8) + 8)
    omega
  have hpointer : (pointer base).base = base := rfl
  have hkind : ∀ flags, segmentKind (w / 256 ^ 5 % 256) flags ≠ some .task := by
    intro flags h
    rw [segmentKind, if_pos hcode] at h
    split_ifs at h <;> cases h
  unfold readSegment segmentOfWord
  simp only [hpointer, h0, h2, h5, h6, h7, hlocal, hcode, hbelow, if_true, if_false, Bool.false_eq_true, false_or]
  refine if_congr Iff.rfl rfl (Option.map_congr fun kind hk => ?_)
  have hne : kind ≠ .task := by
    rintro rfl
    exact hkind _ hk
  simp only [if_neg hne, Nat.add_zero]

theorem readSegment_absent (hword : m.read (base.toNat + 8 * (selector.toNat / 8)) 8 = w)
    (haccess : w / 256 ^ 5 % 256 = 0) : readSegment m (pointer base) selector = none := by
  have h5 := Bytes.read_field (j := 5) (n := 1) (k := 2) hword
  rw [pow_one, haccess] at h5
  have hpointer : (pointer base).base = base := rfl
  unfold readSegment
  simp [hpointer, h5]

theorem readSegment_beyond (hbeyond : 8 ≤ selector.toNat / 8) : readSegment m (pointer base) selector = none := by
  have hlimit : (pointer base).limit.toNat = 63 := rfl
  unfold readSegment
  rw [hlimit]
  simp only
  rw [if_pos]
  right
  split_ifs
  · omega
  · omega

theorem readSegment_task (hlow : m.read (base.toNat + 40) 8 = (tssLow tss 103#64).toNat)
    (hhigh : m.read (base.toNat + 48) 8 = tss.toNat / 2 ^ 32) (hlocal : selector.toNat.testBit 2 = false)
    (hindex : selector.toNat / 8 = 5) : readSegment m (pointer base) selector = some ⟨.task, 0, tss.toNat, 103⟩ := by
  have hlt := tss.isLt
  rw [tssLow_toNat] at hlow
  have h0 : m.read (base.toNat + 40) 2 = 103 := by
    have hfield := Bytes.read_field (j := 0) (n := 2) (k := 6) hlow
    rw [Nat.add_zero] at hfield
    omega
  have h2 : m.read (base.toNat + 40 + 2) 3 = tss.toNat % 2 ^ 24 := by
    have hfield := Bytes.read_field (j := 2) (n := 3) (k := 3) hlow
    omega
  have h5 : m.read (base.toNat + 40 + 5) 1 = 0x89 := by
    have hfield := Bytes.read_field (j := 5) (n := 1) (k := 2) hlow
    omega
  have h6 : m.read (base.toNat + 40 + 6) 1 = 0 := by
    have hfield := Bytes.read_field (j := 6) (n := 1) (k := 1) hlow
    omega
  have h7 : m.read (base.toNat + 40 + 7) 1 = tss.toNat / 2 ^ 24 % 2 ^ 8 := by
    have hfield := Bytes.read_field (j := 7) (n := 1) (k := 0) hlow
    omega
  have h8 : m.read (base.toNat + 40 + 8) 4 = tss.toNat / 2 ^ 32 := by
    have hfield := Bytes.read_field (j := 0) (n := 4) (k := 4) hhigh
    rw [Nat.add_zero] at hfield
    rw [Nat.add_assoc, hfield]
    omega
  have hparts : tss.toNat % 2 ^ 24 + 2 ^ 24 * (tss.toNat / 2 ^ 24 % 2 ^ 8) + 2 ^ 32 * (tss.toNat / 2 ^ 32) = tss.toNat := by
    omega
  have hkind : segmentKind 0x89 0 = some .task := rfl
  have hpointer : (pointer base).base = base := rfl
  have hbelow : ¬((pointer base).limit.toNat + 1 < 8 * 5 + 16) := by
    change ¬(63 + 1 < 8 * 5 + 16)
    omega
  unfold readSegment
  simp only [hpointer, hindex, h0, h2, h5, h6, h7, h8, hkind, hlocal, Option.map_some, if_true, hparts]
  rfl

/-- What the padding describes: a system segment would be longer than it. -/
def paddingSegment (w : ℕ) : Option Segment := if (w / 256 ^ 5 % 256).testBit 4 then segmentOfWord w else none

theorem readSegment_padding (hword : m.read (base.toNat + 56) 8 = w) (hlocal : selector.toNat.testBit 2 = false)
    (hindex : selector.toNat / 8 = 7) : readSegment m (pointer base) selector = paddingSegment w := by
  have h5 := Bytes.read_field (j := 5) (n := 1) (k := 2) hword
  rw [pow_one] at h5
  unfold paddingSegment
  by_cases hcode : (w / 256 ^ 5 % 256).testBit 4 = true
  · rw [if_pos hcode]
    exact readSegment_word (by rw [hindex]; exact hword) hlocal (by omega) hcode
  · have hpointer : (pointer base).base = base := rfl
    have hlimit : (pointer base).limit.toNat = 63 := rfl
    rw [if_neg hcode]
    unfold readSegment
    simp only [hpointer, hlimit, hindex, h5]
    rw [if_neg hcode, if_pos (.inr (by decide))]

/-- Every selector of the table names the segment of its index, and one with the table bit set, or beyond the
limit, none. The one behind the TSS names what the padding happens to describe, nothing while it is zero. -/
theorem selectors_name_segments (h : (init tss).StandsAt m base.toNat) (selector : BitVec 16) :
    readSegment m (pointer base) selector =
      if selector.toNat.testBit 2 then none
      else if selector.toNat / 8 = 7 then paddingSegment (m.read (base.toNat + 56) 8)
      else segmentAt tss (selector.toNat / 8) := by
  obtain ⟨h0, h1, h2, h3, h4, h5, h6, -⟩ := h
  by_cases hlocal : selector.toNat.testBit 2 = true
  · simp [readSegment, hlocal]
  · rw [if_neg hlocal]
    rw [Bool.not_eq_true] at hlocal
    by_cases hinside : selector.toNat / 8 < 8
    · have hword {w : ℕ} {k : ℕ} (hk : selector.toNat / 8 = k) (hread : m.read (base.toNat + 8 * k) 8 = w) :
          m.read (base.toNat + 8 * (selector.toNat / 8)) 8 = w := by rwa [hk]
      have hcases : selector.toNat / 8 = 0 ∨ selector.toNat / 8 = 1 ∨ selector.toNat / 8 = 2 ∨ selector.toNat / 8 = 3 ∨
          selector.toNat / 8 = 4 ∨ selector.toNat / 8 = 5 ∨ selector.toNat / 8 = 6 ∨ selector.toNat / 8 = 7 := by omega
      rcases hcases with hk | hk | hk | hk | hk | hk | hk | hk
      · rw [readSegment_absent (hword hk h0) (by decide), hk]
        rfl
      · rw [readSegment_word (hword hk h1) hlocal hinside (by decide), hk]
        rfl
      · rw [readSegment_word (hword hk h2) hlocal hinside (by decide), hk]
        rfl
      · rw [readSegment_word (hword hk h3) hlocal hinside (by decide), hk]
        rfl
      · rw [readSegment_word (hword hk h4) hlocal hinside (by decide), hk]
        rfl
      · rw [readSegment_task h5 (by rw [h6, toNat_ushiftRight_div]) hlocal hk, hk]
        rfl
      · have hsmall := tss.isLt
        rw [readSegment_absent (hword hk h6) (by rw [toNat_ushiftRight_div]; omega), hk]
        rfl
      · rw [readSegment_padding rfl hlocal hk, if_pos hk]
    · rw [readSegment_beyond (by omega), if_neg (by omega)]
      unfold segmentAt
      split
      all_goals first | omega | rfl

end

/-- The table at `0x1000`, with a TSS in the upper half. -/
def sampleBytes : Bytes :=
  Bytes.writeAll (fun _ => 0) 8 0x1000 ((init 0xFFFF800012345678).entries.map BitVec.toNat)

theorem sampleBytes_stands : (init 0xFFFF800012345678).StandsAt sampleBytes (0x1000 : U64).toNat := by
  apply Bytes.holds_writeAll
  intro v hv
  obtain ⟨w, -, rfl⟩ := List.mem_map.mp hv
  exact w.isLt

theorem selectors_name_segments_sample :
    readSegment sampleBytes (pointer 0x1000) tssSelector = some ⟨.task, 0, 0xFFFF800012345678, 103⟩ ∧
      readSegment sampleBytes (pointer 0x1000) 0x38 = none :=
  ⟨selectors_name_segments sampleBytes_stands tssSelector, selectors_name_segments sampleBytes_stands 0x38⟩

end VenturaOS.Gdt
