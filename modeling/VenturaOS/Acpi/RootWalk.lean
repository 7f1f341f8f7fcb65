import VenturaOS.Acpi.MadtReads

/-!
# The walk over the root table

The number of entries comes from a difference that is not checked. A root
table that declares less than its own header passes an empty or short checksum,
and the loop then runs far behind the table.
-/
namespace VenturaOS.Acpi
open Library Memory

section Model

variable (m : U64 → UInt8) (s : AcpiState)

def rsdpOf : Rsdp := (readRsdp s.rsdpAddress).value m
def rootAddr : U64 := (rsdpOf m s).rootAddr
def rootLength : BitVec 32 := ((readHeader (rootAddr m s)).value m).length

/-- The addresses of the entries in the loop of `init`. -/
def rootEntries : List U64 := entryAddresses (rootAddr m s) (rootLength m s) (rsdpOf m s).useXsdt

/-- The RSDP and the root table pass the checks before the loop. -/
structure Accepted : Prop where
  address : s.rsdpAddress ≠ 0
  rsdp : (rsdpOk s.rsdpAddress (rsdpOf m s)).value m = true
  root : (checksumOk (rootAddr m s) (rootLength m s).toNat).value m = true

/-- The count does not underflow, the loop stays in the root table, and it runs at most once for each
entry behind the header. -/
structure WalkInside : Prop where
  difference : (((rootLength m s).setWidth 64 - BitVec.ofNat 64 sdtHeaderSize : U64).toNat : ℤ) =
    (rootLength m s).toNat - sdtHeaderSize
  inside : ∀ a ∈ rootEntries m s,
    (readEntry (rsdpOf m s).useXsdt a).Within m (InTable (rootAddr m s) (rootLength m s).toNat)
  rounds : (rootEntries m s).length ≤ ((rootLength m s).toNat - sdtHeaderSize) / entrySize (rsdpOf m s).useXsdt

/-- What the walk over the root table is to do. -/
structure RootWalk : Prop where
  inside : Accepted m s → WalkInside m s
  rejected : ¬Accepted m s → ∀ fuel, ∃ e, (init fuel s).value m = some (.error e, s)

end Model

section Loop

variable {m : U64 → UInt8} {s : AcpiState} {P : U64 → Prop} {fuel : ℕ}

/-- With the checks passed, `init` goes through the entries and then on to the MADT. -/
theorem init_accepted (h : Accepted m s) : (init fuel s).value m =
    (if (findMadt (rsdpOf m s).useXsdt (rootEntries m s) 0).value m = 0 then pure (some (.error .noMadt, s))
      else parseMadt fuel ((findMadt (rsdpOf m s).useXsdt (rootEntries m s) 0).value m) s :
        ByteReads (Option (Except AcpiError Unit × AcpiState))).value m := by
  have hrsdp : (rsdpOk s.rsdpAddress ((readRsdp s.rsdpAddress).value m)).value m = true := h.rsdp
  have hroot : (checksumOk ((readRsdp s.rsdpAddress).value m).rootAddr
    ((readHeader ((readRsdp s.rsdpAddress).value m).rootAddr).value m).length.toNat).value m = true := h.root
  rw [init, if_neg h.address, Reads.value_bind, Reads.value_bind, hrsdp, Bool.not_true, if_neg (by decide),
    Reads.value_bind, Reads.value_bind, hroot, Bool.not_true, if_neg (by decide), Reads.value_bind]
  rfl

theorem init_rsdp_rejected (haddress : s.rsdpAddress ≠ 0) (h : (rsdpOk s.rsdpAddress (rsdpOf m s)).value m = false) :
    (init fuel s).value m = some (.error .badRsdpChecksum, s) := by
  have hrsdp : (rsdpOk s.rsdpAddress ((readRsdp s.rsdpAddress).value m)).value m = false := h
  rw [init, if_neg haddress, Reads.value_bind, Reads.value_bind, hrsdp]
  rfl

theorem init_root_rejected (haddress : s.rsdpAddress ≠ 0) (h : (rsdpOk s.rsdpAddress (rsdpOf m s)).value m = true)
    (hroot : (checksumOk (rootAddr m s) (rootLength m s).toNat).value m = false) :
    (init fuel s).value m = some (.error .badTableChecksum, s) := by
  have hrsdp : (rsdpOk s.rsdpAddress ((readRsdp s.rsdpAddress).value m)).value m = true := h
  have hroot' : (checksumOk ((readRsdp s.rsdpAddress).value m).rootAddr
    ((readHeader ((readRsdp s.rsdpAddress).value m).rootAddr).value m).length.toNat).value m = false := hroot
  rw [init, if_neg haddress, Reads.value_bind, Reads.value_bind, hrsdp, Bool.not_true, if_neg (by decide),
    Reads.value_bind, Reads.value_bind, hroot']
  rfl

theorem init_rejected (h : ¬Accepted m s) (fuel : ℕ) : ∃ e, (init fuel s).value m = some (.error e, s) := by
  by_cases haddress : s.rsdpAddress = 0
  · exact ⟨.noRsdp, by rw [init, if_pos haddress, Reads.value_pure]⟩
  cases hrsdp : (rsdpOk s.rsdpAddress (rsdpOf m s)).value m with
  | false => exact ⟨.badRsdpChecksum, init_rsdp_rejected haddress hrsdp⟩
  | true =>
    cases hroot : (checksumOk (rootAddr m s) (rootLength m s).toNat).value m with
    | false => exact ⟨.badTableChecksum, init_root_rejected haddress hrsdp hroot⟩
    | true => exact absurd ⟨haddress, hrsdp, hroot⟩ h

end Loop

section Count

variable {length : BitVec 32} {xsdt : Bool}

theorem entrySize_cases (xsdt : Bool) : entrySize xsdt = 8 ∨ entrySize xsdt = 4 := by
  cases xsdt
  · exact .inr rfl
  · exact .inl rfl

theorem readEntry_inside {m : U64 → UInt8} {addr a : U64} {size : ℕ} (hsize : size ≤ 2 ^ 32) :
    (readEntry xsdt a).Within m (InTable addr size) ↔ distance addr a + entrySize xsdt ≤ size := by
  cases xsdt with
  | true =>
    rw [readEntry, if_pos rfl, readU64_inside hsize]
    rfl
  | false =>
    rw [readEntry, if_neg (by decide), Reads.within_map, readU32_inside hsize]
    rfl

theorem difference_toNat (length : BitVec 32) :
    (length.setWidth 64 - BitVec.ofNat 64 sdtHeaderSize : U64).toNat = (2 ^ 64 - 36 + length.toNat) % 2 ^ 64 := by
  have hwidth : (length.setWidth 64).toNat = length.toNat := BitVec.toNat_setWidth_of_le (by decide)
  rw [BitVec.toNat_sub, hwidth, BitVec.toNat_ofNat, sdtHeaderSize]

/-- The difference is exact as long as the table holds its header. -/
theorem entryCount_eq (h : sdtHeaderSize ≤ length.toNat) :
    entryCount length xsdt = (length.toNat - sdtHeaderSize) / entrySize xsdt := by
  have hlt := length.isLt
  rw [sdtHeaderSize] at h
  rw [entryCount, difference_toNat, sdtHeaderSize]
  congr 1
  omega

/-- Every entry counted lies behind the header and within the length. -/
theorem entry_inside {root a : U64} (h : sdtHeaderSize ≤ length.toNat) (ha : a ∈ entryAddresses root length xsdt) :
    distance root a + entrySize xsdt ≤ length.toNat := by
  have hlt := length.isLt
  obtain ⟨i, hi, rfl⟩ := List.mem_map.mp ha
  rw [List.mem_range, entryCount_eq h] at hi
  have hbound : (i + 1) * entrySize xsdt ≤ length.toNat - sdtHeaderSize :=
    (Nat.mul_le_mul_right _ hi).trans (Nat.div_mul_le_self _ _)
  rw [Nat.add_mul, Nat.one_mul] at hbound
  rw [sdtHeaderSize] at h hbound ⊢
  rw [distance_add, distance_add, distance_self, BitVec.toNat_ofNat, BitVec.toNat_ofNat]
  omega

/-- A length below the header wraps, and already the first entry lies outside. -/
theorem entry_outside {m : U64 → UInt8} (root : U64) (h : length.toNat < sdtHeaderSize) :
    ∃ a ∈ entryAddresses root length xsdt, ¬(readEntry xsdt a).Within m (InTable root length.toNat) := by
  rw [sdtHeaderSize] at h
  have hcount : 0 < entryCount length xsdt := by
    rw [entryCount, difference_toNat]
    apply Nat.div_pos
    · cases entrySize_cases xsdt with
      | inl hsize => omega
      | inr hsize => omega
    · cases entrySize_cases xsdt with
      | inl hsize => omega
      | inr hsize => omega
  refine ⟨_, List.mem_map.mpr ⟨0, List.mem_range.mpr hcount, rfl⟩, fun hinside => ?_⟩
  rw [readEntry_inside (by omega), Nat.zero_mul, distance_add, distance_add, distance_self, BitVec.toNat_ofNat,
    BitVec.toNat_ofNat, sdtHeaderSize] at hinside
  omega

end Count

theorem not_rootWalk {m : U64 → UInt8} {s : AcpiState} (h : Accepted m s)
    (hshort : (rootLength m s).toNat < sdtHeaderSize) : ¬RootWalk m s := by
  intro hwalk
  obtain ⟨a, ha, houtside⟩ := entry_outside (m := m) (rootAddr m s) hshort
  exact houtside ((hwalk.inside h).inside a ha)

/-- The walk over the root table does what it should just when a table that passes the checks has at
least the size of its header. -/
theorem root_walk_iff (m : U64 → UInt8) (s : AcpiState) :
    RootWalk m s ↔ (Accepted m s → sdtHeaderSize ≤ (rootLength m s).toNat) := by
  constructor
  · intro h haccepted
    by_contra hshort
    exact not_rootWalk haccepted (not_le.mp hshort) h
  · intro h
    refine ⟨fun haccepted => ?_, fun hrejected => init_rejected hrejected⟩
    have hheader := h haccepted
    have hlt := (rootLength m s).isLt
    refine ⟨?_, fun a ha => (readEntry_inside hlt.le).mpr (entry_inside hheader ha), ?_⟩
    · rw [sdtHeaderSize] at hheader
      rw [difference_toNat, sdtHeaderSize]
      omega
    · rw [rootEntries, entryAddresses, List.length_map, List.length_range, entryCount_eq hheader]

/-- An RSDP for a root table at 0x2000, where there are only zeros. -/
def sampleRsdp : List UInt8 :=
  [0x52, 0x53, 0x44, 0x20, 0x50, 0x54, 0x52, 0x20, 193, 0, 0, 0, 0, 0, 0, 0, 0x00, 0x20, 0x00, 0x00]

def rsdpState : AcpiState := ⟨0x1000, .new, false⟩

/-- A root table of length zero passes its checksum and is walked from behind its end. -/
theorem empty_root_walked : Accepted (bytesAt 0x1000 sampleRsdp) rsdpState ∧
    rootLength (bytesAt 0x1000 sampleRsdp) rsdpState = 0 ∧
    (rootEntries (bytesAt 0x1000 sampleRsdp) rsdpState).length = 4611686018427387895 ∧
    0x2024 ∈ rootEntries (bytesAt 0x1000 sampleRsdp) rsdpState ∧ ¬RootWalk (bytesAt 0x1000 sampleRsdp) rsdpState := by
  have haddr : rootAddr (bytesAt 0x1000 sampleRsdp) rsdpState = 0x2000 := by decide
  have hlength : rootLength (bytesAt 0x1000 sampleRsdp) rsdpState = 0 := by decide
  have hxsdt : (rsdpOf (bytesAt 0x1000 sampleRsdp) rsdpState).useXsdt = false := by decide
  have haccepted : Accepted (bytesAt 0x1000 sampleRsdp) rsdpState := by
    refine ⟨by decide, by decide, ?_⟩
    rw [haddr, hlength]
    decide
  have hcount : entryCount 0 false = 4611686018427387895 := by decide
  have hwalk : ¬RootWalk (bytesAt 0x1000 sampleRsdp) rsdpState := not_rootWalk haccepted (by rw [hlength]; decide)
  refine ⟨haccepted, hlength, ?_, ?_, hwalk⟩
  · rw [rootEntries, hlength, hxsdt, entryAddresses, List.length_map, List.length_range, hcount]
  · rw [rootEntries, haddr, hlength, hxsdt, entryAddresses, hcount]
    exact List.mem_map.mpr ⟨0, List.mem_range.mpr (by decide), by decide⟩

end VenturaOS.Acpi
