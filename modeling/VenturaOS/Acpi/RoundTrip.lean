import VenturaOS.Acpi.MadtTable

/-!
# Decoding inverts encoding

A table standing in memory is parsed back into what it says. The loop handles
one record a round, and the lists of the info take records while there is room.
-/
namespace VenturaOS.Acpi
open Library Memory

/-- The table stands in memory, and no sum of addresses up to two bytes behind it wraps. -/
structure MadtTable.Placed (t : MadtTable) (m : U64 → UInt8) (addr : U64) : Prop where
  stands : Stands m addr t.bytes
  below : addr.toNat + t.size + 2 < 2 ^ 64

section Words

variable {m : U64 → UInt8} {a : U64} {bs : List UInt8}

theorem value_readBytes (h : Stands m a bs) : (readBytes a bs.length).value m = bs := by
  rw [readBytes, Reads.value_readAll, addressesFrom, List.map_map]
  exact h.map_range

theorem readBytes_word {n v : ℕ} (hv : v < 256 ^ n) (h : Stands m a (littleBytes n v)) :
    littleEndian ((readBytes a n).value m) = v := by
  have hread := value_readBytes h
  rw [length_littleBytes] at hread
  rw [hread, littleEndian_littleBytes hv]

theorem value_readU16 {v : BitVec 16} (h : Stands m a (littleBytes 2 v.toNat)) : (readU16 a).value m = v := by
  rw [readU16, Reads.value_map, readBytes_word v.isLt h, BitVec.ofNat_toNat, BitVec.setWidth_eq]

theorem value_readU32 {v : BitVec 32} (h : Stands m a (littleBytes 4 v.toNat)) : (readU32 a).value m = v := by
  rw [readU32, Reads.value_map, readBytes_word v.isLt h, BitVec.ofNat_toNat, BitVec.setWidth_eq]

theorem value_readU64 {v : U64} (h : Stands m a (littleBytes 8 v.toNat)) : (readU64 a).value m = v := by
  rw [readU64, Reads.value_map, readBytes_word v.isLt h, BitVec.ofNat_toNat, BitVec.setWidth_eq]

theorem stands_littleBytes {n v : ℕ} :
    Stands m a (littleBytes n v ++ bs) ↔ Stands m a (littleBytes n v) ∧ Stands m (a + BitVec.ofNat 64 n) bs := by
  rw [stands_append, length_littleBytes]

theorem stands_four {b₀ b₁ b₂ b₃ : UInt8} : Stands m a (b₀ :: b₁ :: b₂ :: b₃ :: bs) ↔
    m a = b₀ ∧ m (a + 1) = b₁ ∧ m (a + 2) = b₂ ∧ m (a + 3) = b₃ ∧ Stands m (a + 4) bs := by
  have h2 : a + 1#64 + 1#64 = a + 2 := BitVec.add_assoc a 1#64 1#64
  have h3 : a + 2 + 1#64 = a + 3 := BitVec.add_assoc a 2 1#64
  have h4 : a + 3 + 1#64 = a + 4 := BitVec.add_assoc a 3 1#64
  rw [Stands, Stands, Stands, Stands, h2, h3, h4]
  rfl

end Words

def MadtInfo.add (info : MadtInfo) (r : MadtRecord) : MadtInfo where
  lapicAddress := r.toLapicAddress.getD info.lapicAddress
  pcatCompat := info.pcatCompat
  cpuApicIds := if info.cpuApicIds.length < maxCpus then info.cpuApicIds ++ r.enabledId.toList else info.cpuApicIds
  ioapics := if info.ioapics.length < maxIoapics then info.ioapics ++ r.toIoApic.toList else info.ioapics
  overrides := if info.overrides.length < maxOverrides then info.overrides ++ r.toOverride.toList else info.overrides

section Records

variable {m : U64 → UInt8} {entry : U64} {info : MadtInfo} {r : MadtRecord}

attribute [local simp] MadtInfo.add MadtRecord.toIoApic MadtRecord.toOverride MadtRecord.toLapicAddress

/-- A record standing at the entry is read field for field. -/
theorem madtEntry_record (h : Stands m entry r.bytes) :
    (madtEntry r.kind entry info).value m = info.add r := by
  have height : entry + 4 + 4#64 = entry + 8 := BitVec.add_assoc entry 4 4#64
  rw [madtEntry_value]
  cases r with
  | localApic processor id flags rest =>
    obtain ⟨-, -, -, hid, hrest⟩ := stands_four.mp h
    rw [stands_littleBytes] at hrest
    rw [MadtRecord.kind, if_pos rfl, value_readU32 hrest.1, hid]
    cases hflag : flags.getLsbD 0 with
    | true =>
      have henabled : (MadtRecord.localApic processor id flags rest).enabledId = some id := if_pos hflag
      by_cases hroom : info.cpuApicIds.length < maxCpus <;> simp [henabled, hroom]
    | false =>
      have henabled : (MadtRecord.localApic processor id flags rest).enabledId = none := if_neg (by rw [hflag]; decide)
      simp [henabled]
  | ioApic id reserved address gsiBase rest =>
    obtain ⟨-, -, hid, -, hrest⟩ := stands_four.mp h
    rw [stands_littleBytes, stands_littleBytes, height] at hrest
    rw [MadtRecord.kind, if_neg (by decide), if_pos rfl, value_readU32 hrest.1, value_readU32 hrest.2.1, hid]
    by_cases hroom : info.ioapics.length < maxIoapics <;> simp [MadtRecord.enabledId, hroom]
  | interruptOverride bus isaIrq gsi flags rest =>
    obtain ⟨-, -, -, hirq, hrest⟩ := stands_four.mp h
    rw [stands_littleBytes, stands_littleBytes, height] at hrest
    rw [MadtRecord.kind, if_neg (by decide), if_neg (by decide), if_pos rfl, value_readU32 hrest.1,
      value_readU16 hrest.2.1, hirq]
    by_cases hroom : info.overrides.length < maxOverrides <;> simp [MadtRecord.enabledId, hroom]
  | lapicAddress reserved address rest =>
    have hrest : Stands m (entry + 4) (littleBytes 8 address.toNat ++ rest) := (stands_four.mp h).2.2.2.2
    rw [stands_littleBytes] at hrest
    rw [MadtRecord.kind, if_neg (by decide), if_neg (by decide), if_neg (by decide), if_pos rfl, value_readU64 hrest.1]
    simp [MadtRecord.enabledId]
  | other kind body hkind =>
    simp only [List.mem_cons, List.not_mem_nil, or_false, not_or] at hkind
    rw [MadtRecord.kind, if_neg hkind.1, if_neg hkind.2.1, if_neg hkind.2.2.1, if_neg hkind.2.2.2]
    simp [MadtRecord.enabledId]

/-- The loop over the records that stand between the entry and the end of the table. -/
theorem madtLoop_records {records : List MadtRecord} {stop : U64} {fuel : ℕ}
    (h : Stands m entry (records.flatMap MadtRecord.bytes)) (hshort : ∀ r ∈ records, r.bytes.length ≤ 255)
    (hstop : entry.toNat + (records.flatMap MadtRecord.bytes).length = stop.toNat) (hbelow : stop.toNat + 2 < 2 ^ 64)
    (hfuel : records.length < fuel) : (madtLoop stop fuel entry info).value m = some (records.foldl MadtInfo.add info) := by
  induction records generalizing entry info fuel with
  | nil =>
    obtain ⟨fuel, rfl⟩ := Nat.exists_eq_succ_of_ne_zero (Nat.ne_zero_of_lt hfuel)
    -- the end of the table: there is no room for a head
    have hclosed : ¬(Cursor.mk entry 0 0).Open stop := by
      change ¬(entry + 2).toNat ≤ stop.toNat
      have htwo : (2 : U64).toNat = 2 := rfl
      rw [BitVec.toNat_add, htwo]
      change entry.toNat + 0 = _ at hstop
      omega
    rw [madtLoop_closed (c := ⟨entry, 0, 0⟩) hclosed, Reads.value_pure, List.foldl_nil]
  | cons r records ih =>
    obtain ⟨fuel, rfl⟩ := Nat.exists_eq_succ_of_ne_zero (Nat.ne_zero_of_lt hfuel)
    rw [List.flatMap_cons, stands_append] at h
    rw [List.flatMap_cons, List.length_append] at hstop
    have hr := hshort r List.mem_cons_self
    have hbytes : r.bytes.length = r.body.length + 2 := rfl
    have hkind : m entry = r.kind := h.1.1
    have hlen : BitVec.ofNat 64 (m (entry + 1)).toNat = BitVec.ofNat 64 r.bytes.length := by
      have hbyte : m (entry + 1) = UInt8.ofNat (r.body.length + 2) := h.1.2.1
      rw [hbyte, UInt8.toNat_ofNat', ← hbytes, Nat.mod_eq_of_lt (by omega)]
    have hlength : (BitVec.ofNat 64 r.bytes.length).toNat = r.bytes.length := by
      rw [BitVec.toNat_ofNat]
      omega
    have hnext : (entry + BitVec.ofNat 64 r.bytes.length).toNat = entry.toNat + r.bytes.length := by
      rw [BitVec.toNat_add, hlength]
      omega
    have hopen : (Cursor.mk entry 0 0).Open stop := by
      change (entry + 2).toNat ≤ stop.toNat
      have htwo : (2 : U64).toNat = 2 := rfl
      rw [BitVec.toNat_add, htwo]
      omega
    have haccepted : (Cursor.mk entry 0 0).Accepted m stop := by
      change ¬((BitVec.ofNat 64 (m (entry + 1)).toNat).toNat < 2 ∨
        (entry + BitVec.ofNat 64 (m (entry + 1)).toNat).toNat > stop.toNat)
      rw [hlen, hlength, hnext]
      omega
    rw [madtLoop_value (c := ⟨entry, 0, 0⟩) hopen, if_pos haccepted]
    change (madtLoop stop fuel (entry + BitVec.ofNat 64 (m (entry + 1)).toNat)
      ((madtEntry (m entry) entry info).value m)).value m = _
    rw [hlen, hkind, madtEntry_record h.1, List.foldl_cons]
    apply ih h.2 (fun q hq => hshort q (List.mem_cons_of_mem _ hq)) _ (Nat.lt_of_succ_lt_succ hfuel)
    rw [hnext, Nat.add_assoc]
    exact hstop

end Records

section Lists

variable {α : Type} {info : MadtInfo} {records : List MadtRecord}

/-- Filling a list up to a capacity keeps the first elements. -/
theorem foldl_take (n : ℕ) (f : MadtRecord → Option α) (stored : List α) (hn : stored.length ≤ n) :
    records.foldl (fun l r => if l.length < n then l ++ (f r).toList else l) stored =
      (stored ++ records.filterMap f).take n := by
  induction records generalizing stored with
  | nil => rw [List.foldl_nil, List.filterMap_nil, List.append_nil, List.take_of_length_le hn]
  | cons r records ih =>
    rw [List.foldl_cons, List.filterMap_cons]
    by_cases hroom : stored.length < n
    · rw [if_pos hroom]
      cases f r with
      | none =>
        rw [Option.toList_none, List.append_nil]
        exact ih stored hn
      | some x =>
        rw [Option.toList_some, ih _ (by rw [List.length_append]; exact hroom), List.append_assoc]
        rfl
    · have hfull : stored.length = n := le_antisymm hn (not_lt.mp hroom)
      rw [if_neg hroom, ih stored hn, ← hfull, List.take_left, List.take_left]

theorem foldl_field (get : MadtInfo → α) (step : α → MadtRecord → α)
    (h : ∀ info r, get (MadtInfo.add info r) = step (get info) r) (info : MadtInfo) (records : List MadtRecord) :
    get (records.foldl MadtInfo.add info) = records.foldl step (get info) := by
  induction records generalizing info with
  | nil => rfl
  | cons r records ih => rw [List.foldl_cons, List.foldl_cons, ih, h]

theorem foldl_last (f : MadtRecord → Option α) (x : α) :
    records.foldl (fun y r => (f r).getD y) x = (records.filterMap f).getLast?.getD x := by
  induction records generalizing x with
  | nil => rfl
  | cons r records ih =>
    rw [List.foldl_cons, ih, List.filterMap_cons]
    cases f r with
    | none => rfl
    | some y => rw [List.getLast?_cons, Option.getD_some, Option.getD_some]

theorem foldl_add (lapic : U64) (compat : Bool) (records : List MadtRecord) :
    records.foldl MadtInfo.add ⟨lapic, compat, [], [], []⟩ =
      { lapicAddress := (records.filterMap MadtRecord.toLapicAddress).getLast?.getD lapic
        pcatCompat := compat
        cpuApicIds := (records.filterMap MadtRecord.enabledId).take maxCpus
        ioapics := (records.filterMap MadtRecord.toIoApic).take maxIoapics
        overrides := (records.filterMap MadtRecord.toOverride).take maxOverrides } := by
  have hfield {β : Type} (get : MadtInfo → β) (step : β → MadtRecord → β)
      (h : ∀ info r, get (MadtInfo.add info r) = step (get info) r) := foldl_field get step h ⟨lapic, compat, [], [], []⟩ records
  have hlapic := hfield MadtInfo.lapicAddress (fun y r => r.toLapicAddress.getD y) fun _ _ => rfl
  have hcompat := hfield MadtInfo.pcatCompat (fun y _ => y) fun _ _ => rfl
  have hcpus := hfield MadtInfo.cpuApicIds (fun l r => if l.length < maxCpus then l ++ r.enabledId.toList else l)
    fun _ _ => rfl
  have hioapics := hfield MadtInfo.ioapics (fun l r => if l.length < maxIoapics then l ++ r.toIoApic.toList else l)
    fun _ _ => rfl
  have hoverrides := hfield MadtInfo.overrides
    (fun l r => if l.length < maxOverrides then l ++ r.toOverride.toList else l) fun _ _ => rfl
  rw [foldl_last] at hlapic
  rw [List.foldl_fixed] at hcompat
  rw [foldl_take _ _ _ (Nat.zero_le _)] at hcpus hioapics hoverrides
  generalize records.foldl MadtInfo.add ⟨lapic, compat, [], [], []⟩ = info at hlapic hcompat hcpus hioapics hoverrides
  cases info
  dsimp only at hlapic hcompat hcpus hioapics hoverrides
  rw [hlapic, hcompat, hcpus, hioapics, hoverrides, List.nil_append, List.nil_append, List.nil_append]

end Lists

section Checksum

theorem sumBytes_cons (b : UInt8) (l : List UInt8) : sumBytes (b :: l) = b + sumBytes l := by
  have hfold (x : UInt8) (l : List UInt8) : l.foldl (fun acc b => acc + b) x = x + sumBytes l := by
    induction l generalizing x with
    | nil => exact (UInt8.add_zero x).symm
    | cons c l ih =>
      have hcons : sumBytes (c :: l) = c + sumBytes l := (ih (0 + c)).trans (by rw [UInt8.zero_add])
      rw [List.foldl_cons, ih, hcons, UInt8.add_assoc]
  exact (hfold (0 + b) l).trans (by rw [UInt8.zero_add])

theorem sumBytes_append (l l' : List UInt8) : sumBytes (l ++ l') = sumBytes l + sumBytes l' := by
  induction l with
  | nil => exact (UInt8.zero_add _).symm
  | cons b l ih => rw [List.cons_append, sumBytes_cons, sumBytes_cons, ih, UInt8.add_assoc]

/-- The checksum byte makes the bytes add up to zero. -/
theorem MadtTable.sumBytes_bytes (t : MadtTable) : sumBytes t.bytes = 0 := by
  unfold MadtTable.bytes MadtTable.withChecksum
  simp only [sumBytes_append, sumBytes_cons]
  grind

end Checksum

theorem MadtTable.length_bytes (t : MadtTable) : t.bytes.length = t.size := by
  have hoem := t.oem_length
  unfold MadtTable.bytes MadtTable.withChecksum
  simp only [List.length_append, List.length_cons, List.length_nil, length_littleBytes, hoem, MadtTable.size]
  omega

theorem MadtTable.size_lt (t : MadtTable) : t.size < 2 ^ 32 := t.fits

theorem field_readBytes {m : U64 → UInt8} {a : U64} {n o k : ℕ} (h : o + k ≤ n) :
    field ((readBytes a n).value m) o k = littleEndian ((readBytes (a + BitVec.ofNat 64 o) k).value m) := by
  rw [field]
  congr 1
  apply List.ext_getElem
  · simp only [readBytes, addressesFrom, Reads.value_readAll, List.length_take, List.length_drop, List.length_map,
      List.length_range]
    omega
  · intro i hi _
    simp only [readBytes, addressesFrom, Reads.value_readAll, List.getElem_take, List.getElem_drop, List.getElem_map,
      List.getElem_range, BitVec.ofNat_add, BitVec.add_assoc]

namespace MadtTable.Placed

variable {t : MadtTable} {m : U64 → UInt8} {addr : U64}

theorem parts (h : t.Placed m addr) : Stands m (addr + 4) (littleBytes 4 t.size) ∧
    Stands m (addr + BitVec.ofNat 64 sdtHeaderSize) (littleBytes 4 t.lapicAddress.toNat) ∧
    Stands m (addr + BitVec.ofNat 64 sdtHeaderSize + 4) (littleBytes 4 t.flags.toNat) ∧
    Stands m (addr + BitVec.ofNat 64 sdtHeaderSize + 8) t.entries := by
  have hstands := h.stands
  unfold MadtTable.bytes MadtTable.withChecksum at hstands
  obtain ⟨-, hstands⟩ := stands_append.mp hstands
  obtain ⟨hsize, hstands⟩ := stands_littleBytes.mp hstands
  obtain ⟨-, -, hstands⟩ := hstands
  obtain ⟨-, hstands⟩ := stands_append.mp hstands
  obtain ⟨hlapic, hstands⟩ := stands_littleBytes.mp hstands
  obtain ⟨hflags, hentries⟩ := stands_littleBytes.mp hstands
  have hbody : addr + BitVec.ofNat 64 [(0x41 : UInt8), 0x50, 0x49, 0x43].length + BitVec.ofNat 64 4 + 1#64 + 1#64 +
      BitVec.ofNat 64 t.oem.length = addr + BitVec.ofNat 64 sdtHeaderSize := by
    rw [t.oem_length]
    simp only [BitVec.add_assoc]
    rfl
  have height : addr + BitVec.ofNat 64 sdtHeaderSize + BitVec.ofNat 64 4 + BitVec.ofNat 64 4 =
      addr + BitVec.ofNat 64 sdtHeaderSize + 8 := BitVec.add_assoc _ _ _
  rw [hbody] at hlapic hflags hentries
  rw [height] at hentries
  exact ⟨hsize, hlapic, hflags, hentries⟩

theorem tableLength (h : t.Placed m addr) : Acpi.tableLength m addr = BitVec.ofNat 32 t.size := by
  have hsize : t.size < 256 ^ 4 := t.size_lt
  have hfield : field ((readBytes addr sdtHeaderSize).value m) 4 4 = t.size :=
    (field_readBytes (by decide)).trans (readBytes_word hsize h.parts.1)
  exact congrArg (BitVec.ofNat 32) hfield

theorem length_toNat (h : t.Placed m addr) : (Acpi.tableLength m addr).toNat = t.size := by
  rw [h.tableLength, BitVec.toNat_ofNat, Nat.mod_eq_of_lt t.size_lt]

theorem checksum (h : t.Placed m addr) : (checksumOk addr t.size).value m = true := by
  have hbytes := value_readBytes h.stands
  rw [t.length_bytes] at hbytes
  rw [checksumOk, Reads.value_map, hbytes, beq_iff_eq]
  exact t.sumBytes_bytes

theorem loop (h : t.Placed m addr) {fuel : ℕ} (hfuel : t.records.length < fuel) (info : MadtInfo) :
    (madtLoop (tableStop m addr) fuel (addr + BitVec.ofNat 64 sdtHeaderSize + 8) info).value m =
      some (t.records.foldl MadtInfo.add info) := by
  have hbelow := h.below
  have hsize : t.size = 44 + t.entries.length := rfl
  have hstop : (tableStop m addr).toNat = addr.toNat + t.size := by
    rw [tableStop, BitVec.toNat_add, tableLength_setWidth, h.length_toNat]
    omega
  have hentry : (addr + BitVec.ofNat 64 sdtHeaderSize + 8).toNat = addr.toNat + 44 := by
    rw [BitVec.add_assoc, BitVec.toNat_add]
    change (addr.toNat + 44) % 2 ^ 64 = addr.toNat + 44
    omega
  apply madtLoop_records h.parts.2.2.2 t.short _ _ hfuel
  · rw [hentry, hstop, hsize, Nat.add_assoc]
    rfl
  · omega

end MadtTable.Placed

/-- Decoding inverts encoding: a table in memory is parsed back, field for field. -/
theorem madt_round_trip (t : MadtTable) (m : U64 → UInt8) (addr : U64) (h : t.Placed m addr) (s : AcpiState)
    (hfresh : s.madt = .new) (fuel : ℕ) (hfuel : t.records.length < fuel) :
    (parseMadt fuel addr s).value m = some (.ok (), { s with madt := t.decoded, madtValid := true }) := by
  obtain ⟨-, hlapic, hflags, -⟩ := h.parts
  have hlength : (((readHeader addr).value m).length.setWidth 64).toNat = t.size :=
    (tableLength_setWidth m addr).trans h.length_toNat
  rw [parseMadt, Reads.value_bind, Reads.value_bind, hlength, h.checksum, Bool.not_true, if_neg (by decide),
    Reads.value_bind, Reads.value_bind, Reads.value_bind, value_readU32 hlapic, value_readU32 hflags, Reads.value_pure]
  have hloop := h.loop hfuel ⟨t.lapicAddress.setWidth 64, t.flags.getLsbD 0, [], [], []⟩
  rw [foldl_add] at hloop
  rw [hfresh]
  change ((madtLoop (tableStop m addr) fuel (addr + BitVec.ofNat 64 sdtHeaderSize + 8)
    ⟨t.lapicAddress.setWidth 64, t.flags.getLsbD 0, [], [], []⟩).value m).map _ = _
  rw [hloop]
  rfl

theorem stands_bytesAt {addr : U64} {bytes : List UInt8} (h : bytes.length < 2 ^ 64) :
    Stands (bytesAt addr bytes) addr bytes := by
  apply stands_of_getElem
  intro i hi
  have hi' : (BitVec.ofNat 64 i).toNat = i := by
    rw [BitVec.toNat_ofNat]
    omega
  rw [bytesAt, distance_add_of_lt (by rw [distance_self, hi']; omega), distance_self, hi', Nat.zero_add,
    List.getD_eq_getElem?_getD, List.getElem?_eq_getElem hi, Option.getD_some]

/-- Two processors, the second one disabled, an I/O APIC, an override, a record of another kind and an
address for the local APICs. -/
def sampleTable : MadtTable where
  revision := 4
  oem := List.replicate 26 0
  lapicAddress := 0xFEE00000
  flags := 1
  records := [.localApic 0 0 1 [], .localApic 1 2 0 [], .ioApic 2 0 0xFEC00000 0 [], .interruptOverride 0 0 2 0 [],
    .other 4 [0xFF, 5, 0, 1] (by decide), .lapicAddress 0 0xFEE01000 []]
  oem_length := rfl
  short := by decide
  fits := by decide

theorem madt_round_trip_sample :
    (parseMadt 7 0x1000 sampleState).value (bytesAt 0x1000 sampleTable.bytes) = some (.ok (), ⟨0,
      ⟨0xFEE01000, true, [0], [⟨2, 0xFEC00000, 0⟩], [⟨0, 2, 0⟩]⟩, true⟩) := by
  have hsize : sampleTable.size = 100 := by decide
  have hplaced : sampleTable.Placed (bytesAt 0x1000 sampleTable.bytes) 0x1000 := by
    constructor
    · apply stands_bytesAt
      rw [sampleTable.length_bytes, hsize]
      decide
    · rw [hsize]
      decide
  rw [madt_round_trip sampleTable _ 0x1000 hplaced sampleState rfl 7 (by decide)]
  decide

end VenturaOS.Acpi
