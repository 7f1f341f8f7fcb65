import VenturaOS.Acpi.TableReads

/-!
# Which bytes `parse_madt` reads

The loop bounds the declared length of an entry, and reads fields at offsets
that depend on its kind. What an entry is taken to have is followed along the
walk over the entries.
-/
namespace VenturaOS.Acpi
open Library Memory

/-- A position of the walk, with the number of records already stored of the two kinds that are only
read while there is room for them. -/
structure Cursor where
  entry : U64
  ioapics : ℕ
  overrides : ℕ

namespace Cursor

variable (m : U64 → UInt8) (stop : U64) (c : Cursor)

def kind : UInt8 := m c.entry
def len : U64 := BitVec.ofNat 64 (m (c.entry + 1)).toNat

def Open : Prop := (c.entry + 2).toNat ≤ stop.toNat

/-- The entry here is long enough to have a head and ends within the table. -/
def Accepted : Prop := ¬((c.len m).toNat < 2 ∨ (c.entry + c.len m).toNat > stop.toNat)

instance : Decidable (c.Accepted m stop) := by unfold Accepted; infer_instance

def next : Cursor where
  entry := c.entry + c.len m
  ioapics := if c.kind m = madtIoApic ∧ c.ioapics < maxIoapics then c.ioapics + 1 else c.ioapics
  overrides := if c.kind m = madtInterruptOverride ∧ c.overrides < maxOverrides then c.overrides + 1 else c.overrides

end Cursor

/-- How many bytes an accepted entry must have for its fields. -/
def neededBytes (kind : UInt8) (ioapics overrides : ℕ) : ℕ :=
  if kind = madtLocalApic then 8
  else if kind = madtIoApic then if ioapics < maxIoapics then 12 else 2
  else if kind = madtInterruptOverride then if overrides < maxOverrides then 10 else 2
  else if kind = madtLocalApicAddressOverride then 12
  else 2

/-- What the loop takes the entry to have; of one it stops at only the head. -/
def Cursor.extent (m : U64 → UInt8) (stop : U64) (c : Cursor) : ℕ :=
  if c.Accepted m stop then neededBytes (c.kind m) c.ioapics c.overrides else 2

/-- The positions reached from the first entry. -/
inductive Reached (m : U64 → UInt8) (stop : U64) (start : Cursor) : Cursor → Prop
  | start : Reached m stop start start
  | next {c : Cursor} : Reached m stop start c → c.Open stop → c.Accepted m stop → Reached m stop start (c.next m)

def tableLength (m : U64 → UInt8) (addr : U64) : BitVec 32 := ((readHeader addr).value m).length
def tableStop (m : U64 → UInt8) (addr : U64) : U64 := addr + (tableLength m addr).setWidth 64

def firstEntry (addr : U64) (info : MadtInfo) : Cursor :=
  ⟨addr + BitVec.ofNat 64 sdtHeaderSize + 8, info.ioapics.length, info.overrides.length⟩

/-- The fixed fields fit, and every entry reached has room for what its kind needs. -/
structure Roomy (m : U64 → UInt8) (addr : U64) (info : MadtInfo) : Prop where
  fixed : sdtHeaderSize + 8 ≤ (tableLength m addr).toNat
  entries : ∀ c, Reached m (tableStop m addr) (firstEntry addr info) c → c.Open (tableStop m addr) →
    distance addr c.entry + c.extent m (tableStop m addr) ≤ (tableLength m addr).toNat

section Entries

variable {m : U64 → UInt8} {addr : U64} {kind : UInt8} {entry stop : U64} {info : MadtInfo} {size : ℕ}

theorem madtEntry_inside (hsize : size ≤ 2 ^ 32) (hhead : distance addr entry + 2 ≤ size) :
    (madtEntry kind entry info).Within m (InTable addr size) ↔
      distance addr entry + neededBytes kind info.ioapics.length info.overrides.length ≤ size := by
  have hfield (c : U64) (hc : c.toNat ≤ 8) : distance addr (entry + c) = distance addr entry + c.toNat :=
    distance_add_of_lt (by omega)
  have h2 := hfield 2 (by decide)
  have h3 := hfield 3 (by decide)
  have h4 := hfield 4 (by decide)
  have h8 := hfield 8 (by decide)
  rw [show (2 : U64).toNat = 2 from rfl] at h2
  rw [show (3 : U64).toNat = 3 from rfl] at h3
  rw [show (4 : U64).toNat = 4 from rfl] at h4
  rw [show (8 : U64).toNat = 8 from rfl] at h8
  unfold madtEntry neededBytes
  split_ifs
  · simp only [Reads.within_bind, Reads.within_pure, and_true, readU8_inside hsize, readU32_inside hsize, h3, h4]
    omega
  · simp only [Reads.within_bind, Reads.within_pure, and_true, readU8_inside hsize, readU32_inside hsize, h2, h4, h8]
    omega
  · simp only [Reads.within_pure, hhead]
  · simp only [Reads.within_bind, Reads.within_pure, and_true, readU8_inside hsize, readU16_inside hsize, readU32_inside hsize,
      h3, h4, h8]
    omega
  · simp only [Reads.within_pure, hhead]
  · simp only [Reads.within_bind, Reads.within_pure, and_true, readU64_inside hsize, h4, Nat.add_assoc]
  · simp only [Reads.within_pure, hhead]

theorem madtEntry_value : (madtEntry kind entry info).value m =
    if kind = madtLocalApic then
      if ((readU32 (entry + 4)).value m).getLsbD 0 && decide (info.cpuApicIds.length < maxCpus) then
        { info with cpuApicIds := info.cpuApicIds ++ [m (entry + 3)] } else info
    else if kind = madtIoApic then
      if info.ioapics.length < maxIoapics then
        { info with ioapics := info.ioapics ++ [⟨m (entry + 2), ((readU32 (entry + 4)).value m).setWidth 64,
          (readU32 (entry + 8)).value m⟩] }
      else info
    else if kind = madtInterruptOverride then
      if info.overrides.length < maxOverrides then
        { info with overrides := info.overrides ++ [⟨m (entry + 3), (readU32 (entry + 4)).value m,
          (readU16 (entry + 8)).value m⟩] }
      else info
    else if kind = madtLocalApicAddressOverride then { info with lapicAddress := (readU64 (entry + 4)).value m }
    else info := by
  unfold madtEntry
  by_cases hlocal : kind = madtLocalApic
  · rw [if_pos hlocal, if_pos hlocal, Reads.value_bind, Reads.value_bind, Reads.value_pure, value_readU8]
  rw [if_neg hlocal, if_neg hlocal]
  by_cases hioapic : kind = madtIoApic
  · rw [if_pos hioapic, if_pos hioapic]
    split_ifs
    · rw [Reads.value_bind, Reads.value_bind, Reads.value_bind, Reads.value_pure, value_readU8]
    · rw [Reads.value_pure]
  rw [if_neg hioapic, if_neg hioapic]
  by_cases hoverride : kind = madtInterruptOverride
  · rw [if_pos hoverride, if_pos hoverride]
    split_ifs
    · rw [Reads.value_bind, Reads.value_bind, Reads.value_bind, Reads.value_pure, value_readU8]
    · rw [Reads.value_pure]
  rw [if_neg hoverride, if_neg hoverride]
  split_ifs
  · rw [Reads.value_bind, Reads.value_pure]
  · rw [Reads.value_pure]

end Entries

def Cursor.Counts (c : Cursor) (info : MadtInfo) : Prop :=
  info.ioapics.length = c.ioapics ∧ info.overrides.length = c.overrides

section Rounds

variable {m : U64 → UInt8} {stop : U64} {info : MadtInfo} {c : Cursor} {fuel : ℕ}

theorem Cursor.Counts.next (h : c.Counts info) :
    (c.next m).Counts ((madtEntry (c.kind m) c.entry info).value m) := by
  have hlocal : ¬madtLocalApic = madtIoApic ∧ ¬madtLocalApic = madtInterruptOverride := by decide
  have hio : ¬madtIoApic = madtInterruptOverride := by decide
  have haddress : ¬madtLocalApicAddressOverride = madtIoApic ∧
      ¬madtLocalApicAddressOverride = madtInterruptOverride := by decide
  rw [madtEntry_value, Counts, Cursor.next, ← h.1, ← h.2]
  generalize c.kind m = kind
  generalize (readU32 (c.entry + 4)).value m = word
  constructor
  · split_ifs <;> grind
  · split_ifs <;> grind

theorem madtLoop_closed (h : ¬c.Open stop) : madtLoop stop (fuel + 1) c.entry info = pure (some info) := by
  rw [madtLoop]
  exact if_neg h

/-- A round that meets an entry: its head, and, if it is accepted, its fields and the next round. -/
theorem madtLoop_open (h : c.Open stop) : madtLoop stop (fuel + 1) c.entry info = (do
    let kind ← readU8 c.entry
    let byte ← readU8 (c.entry + 1)
    let len := BitVec.ofNat 64 byte.toNat
    if len.toNat < 2 ∨ (c.entry + len).toNat > stop.toNat then pure (some info)
    else do
      let info ← madtEntry kind c.entry info
      madtLoop stop fuel (c.entry + len) info) := by
  rw [madtLoop]
  exact if_pos h

theorem madtLoop_value (h : c.Open stop) : (madtLoop stop (fuel + 1) c.entry info).value m =
    if c.Accepted m stop then
      (madtLoop stop fuel (c.next m).entry ((madtEntry (c.kind m) c.entry info).value m)).value m
    else some info := by
  rw [madtLoop_open h, Reads.value_bind, Reads.value_bind, value_readU8, value_readU8]
  change (if (c.len m).toNat < 2 ∨ (c.entry + c.len m).toNat > stop.toNat then pure (some info)
    else madtEntry (c.kind m) c.entry info >>= fun info => madtLoop stop fuel (c.entry + c.len m) info).value m = _
  by_cases haccepted : c.Accepted m stop
  · rw [if_neg haccepted, if_pos haccepted, Reads.value_bind]
    rfl
  · rw [if_pos (not_not.mp haccepted), if_neg haccepted, Reads.value_pure]

theorem madtLoop_within {P : U64 → Prop} (h : c.Open stop) : (madtLoop stop (fuel + 1) c.entry info).Within m P ↔
    ((readU8 c.entry).Within m P ∧ (readU8 (c.entry + 1)).Within m P) ∧ (c.Accepted m stop →
      (madtEntry (c.kind m) c.entry info).Within m P ∧
        (madtLoop stop fuel (c.next m).entry ((madtEntry (c.kind m) c.entry info).value m)).Within m P) := by
  rw [madtLoop_open h, Reads.within_bind, Reads.within_bind, value_readU8, value_readU8, and_assoc]
  change _ ∧ _ ∧ (if (c.len m).toNat < 2 ∨ (c.entry + c.len m).toNat > stop.toNat then pure (some info)
    else madtEntry (c.kind m) c.entry info >>= fun info => madtLoop stop fuel (c.entry + c.len m) info).Within m P ↔ _
  by_cases haccepted : c.Accepted m stop
  · rw [if_neg haccepted, Reads.within_bind]
    simp only [haccepted, forall_const]
    rfl
  · rw [if_pos (not_not.mp haccepted)]
    simp only [haccepted, IsEmpty.forall_iff, Reads.within_pure]

end Rounds

section Inside

variable {m : U64 → UInt8} {addr stop : U64} {info : MadtInfo} {size : ℕ} {c start : Cursor}

/-- The loop stays in the table however long it runs. -/
def LoopInside (m : U64 → UInt8) (addr : U64) (size : ℕ) (stop entry : U64) (info : MadtInfo) : Prop :=
  ∀ fuel, (madtLoop stop fuel entry info).Within m (InTable addr size)

theorem two_le_neededBytes (kind : UInt8) (ioapics overrides : ℕ) : 2 ≤ neededBytes kind ioapics overrides := by
  unfold neededBytes
  split_ifs <;> decide

theorem head_inside_iff (hsize : size ≤ 2 ^ 32) (hcounts : c.Counts info) :
    ((readU8 c.entry).Within m (InTable addr size) ∧ (readU8 (c.entry + 1)).Within m (InTable addr size)) ∧
      (c.Accepted m stop → (madtEntry (c.kind m) c.entry info).Within m (InTable addr size)) ↔
    distance addr c.entry + c.extent m stop ≤ size := by
  have hhead : ((readU8 c.entry).Within m (InTable addr size) ∧ (readU8 (c.entry + 1)).Within m (InTable addr size)) ↔
      distance addr c.entry + 2 ≤ size := by
    have hlt := distance_lt addr c.entry
    have hone : (1 : U64).toNat = 1 := rfl
    rw [readU8_inside hsize, readU8_inside hsize, distance_add, hone]
    omega
  rw [hhead, Cursor.extent]
  by_cases haccepted : c.Accepted m stop
  · have hneeded := two_le_neededBytes (c.kind m) c.ioapics c.overrides
    rw [if_pos haccepted, ← hcounts.1, ← hcounts.2]
    rw [← hcounts.1, ← hcounts.2] at hneeded
    constructor
    · rintro ⟨hin, hentry⟩
      exact (madtEntry_inside hsize hin).mp (hentry haccepted)
    · intro h
      have hin : distance addr c.entry + 2 ≤ size := by omega
      exact ⟨hin, fun _ => (madtEntry_inside hsize hin).mpr h⟩
  · rw [if_neg haccepted]
    exact ⟨And.left, fun h => ⟨h, fun ha => absurd ha haccepted⟩⟩

/-- Along the walk the loop stays inside, so there is room at each position. -/
theorem LoopInside.reached (hcounts : start.Counts info) (h : LoopInside m addr size stop start.entry info)
    (hreached : Reached m stop start c) : ∃ info, c.Counts info ∧ LoopInside m addr size stop c.entry info := by
  induction hreached with
  | start => exact ⟨info, hcounts, h⟩
  | next _ hopen haccepted ih =>
    obtain ⟨info, hcounts, hinside⟩ := ih
    exact ⟨_, hcounts.next, fun fuel => (((madtLoop_within hopen).mp (hinside (fuel + 1))).2 haccepted).2⟩

theorem LoopInside.extent (hsize : size ≤ 2 ^ 32) (hcounts : start.Counts info)
    (h : LoopInside m addr size stop start.entry info) (hreached : Reached m stop start c) (hopen : c.Open stop) :
    distance addr c.entry + c.extent m stop ≤ size := by
  obtain ⟨info, hcounts, hinside⟩ := h.reached hcounts hreached
  obtain ⟨hhead, hentry⟩ := (madtLoop_within hopen).mp (hinside 1)
  exact (head_inside_iff hsize hcounts).mp ⟨hhead, fun haccepted => (hentry haccepted).1⟩

/-- Room at every position keeps the loop inside, by induction on the rounds still to run. -/
theorem loopInside_of_extent (hsize : size ≤ 2 ^ 32)
    (h : ∀ c, Reached m stop start c → c.Open stop → distance addr c.entry + c.extent m stop ≤ size)
    (hreached : Reached m stop start c) (hcounts : c.Counts info) (fuel : ℕ) :
    (madtLoop stop fuel c.entry info).Within m (InTable addr size) := by
  induction fuel generalizing c info with
  | zero => exact Reads.within_pure _
  | succ fuel ih =>
    by_cases hopen : c.Open stop
    · obtain ⟨hhead, hentry⟩ := (head_inside_iff hsize hcounts).mpr (h c hreached hopen)
      exact (madtLoop_within hopen).mpr ⟨hhead, fun haccepted =>
        ⟨hentry haccepted, ih (hreached.next hopen haccepted) hcounts.next⟩⟩
    · rw [madtLoop_closed hopen]
      exact Reads.within_pure _

def headerInfo (m : U64 → UInt8) (addr : U64) (info : MadtInfo) : MadtInfo :=
  let body := addr + BitVec.ofNat 64 sdtHeaderSize
  { info with
    lapicAddress := ((readU32 body).value m).setWidth 64
    pcatCompat := ((readU32 (body + 4)).value m).getLsbD 0 }

theorem tableLength_setWidth (m : U64 → UInt8) (addr : U64) :
    ((tableLength m addr).setWidth 64).toNat = (tableLength m addr).toNat := BitVec.toNat_setWidth_of_le (by decide)

theorem parseMadt_within {P : U64 → Prop} {s : AcpiState} {fuel : ℕ}
    (hok : (checksumOk addr (tableLength m addr).toNat).value m = true) :
    (parseMadt fuel addr s).Within m P ↔
      ((readHeader addr).Within m P ∧ (checksumOk addr (tableLength m addr).toNat).Within m P) ∧
      ((readU32 (addr + BitVec.ofNat 64 sdtHeaderSize)).Within m P ∧
        (readU32 (addr + BitVec.ofNat 64 sdtHeaderSize + 4)).Within m P) ∧
      (madtLoop (tableStop m addr) fuel (firstEntry addr s.madt).entry (headerInfo m addr s.madt)).Within m P := by
  have hlength : (((readHeader addr).value m).length.setWidth 64).toNat = (tableLength m addr).toNat :=
    tableLength_setWidth m addr
  rw [parseMadt, Reads.within_bind, Reads.within_bind, hlength, hok, Bool.not_true, if_neg (by decide),
    Reads.within_bind, Reads.within_bind, Reads.within_bind, and_assoc, and_assoc]
  simp only [Reads.within_pure, and_true]
  rfl

/-- Everything `parse_madt` reads from a table with a good checksum lies in the table, or in its
header if that is longer, just when there is room for the fixed fields and for each entry reached. -/
theorem parse_madt_inside_iff (m : U64 → UInt8) (addr : U64) (s : AcpiState)
    (hok : (checksumOk addr (tableLength m addr).toNat).value m = true) :
    (∀ fuel, (parseMadt fuel addr s).Within m (InTable addr (max (tableLength m addr).toNat sdtHeaderSize))) ↔
      Roomy m addr s.madt := by
  have hlength := (tableLength m addr).isLt
  have hsize : max (tableLength m addr).toNat sdtHeaderSize ≤ 2 ^ 32 := by
    rw [sdtHeaderSize]
    omega
  have hbody : distance addr (addr + BitVec.ofNat 64 sdtHeaderSize) = 36 := by
    rw [distance_add, distance_self]
    decide
  have hflags : distance addr (addr + BitVec.ofNat 64 sdtHeaderSize + 4) = 40 := by
    rw [distance_add, hbody]
    decide
  have hcounts : (firstEntry addr s.madt).Counts (headerInfo m addr s.madt) := ⟨rfl, rfl⟩
  simp only [parseMadt_within hok, readU32_inside hsize, hbody, hflags]
  constructor
  · intro h
    have hfixed : sdtHeaderSize + 8 ≤ (tableLength m addr).toNat := by
      have hlast := (h 0).2.1.2
      rw [sdtHeaderSize] at hlast ⊢
      omega
    have hmax : max (tableLength m addr).toNat sdtHeaderSize = (tableLength m addr).toNat :=
      max_eq_left ((Nat.le_add_right _ _).trans hfixed)
    rw [hmax] at h hsize
    have hloop : LoopInside m addr (tableLength m addr).toNat (tableStop m addr) (firstEntry addr s.madt).entry
        (headerInfo m addr s.madt) := fun fuel => (h fuel).2.2
    exact ⟨hfixed, fun c hreached hopen => hloop.extent hsize hcounts hreached hopen⟩
  · intro h fuel
    have hmax : max (tableLength m addr).toNat sdtHeaderSize = (tableLength m addr).toNat :=
      max_eq_left ((Nat.le_add_right _ _).trans h.fixed)
    have hfixed := h.fixed
    rw [sdtHeaderSize] at hfixed
    rw [hmax] at hsize ⊢
    refine ⟨⟨readHeader_inside ((Nat.le_add_right _ _).trans h.fixed), checksumOk_inside le_rfl⟩, by omega, ?_⟩
    exact loopInside_of_extent hsize h.entries .start hcounts fuel

end Inside

/-- The bytes of a list, one after the other from an address, with zeros around them. -/
def bytesAt (addr : U64) (bytes : List UInt8) (a : U64) : UInt8 := bytes.getD (distance addr a) 0

/-- A MADT with one processor. -/
def oneCpuTable : List UInt8 :=
  [0x41, 0x50, 0x49, 0x43, 52, 0, 0, 0, 1, 164] ++ List.replicate 34 0 ++ [0, 8, 0, 1, 1, 0, 0, 0]

/-- The same kind of entry with a length of two bytes, at the end of the table. -/
def shortEntryTable : List UInt8 :=
  [0x41, 0x50, 0x49, 0x43, 46, 0, 0, 0, 1, 178] ++ List.replicate 34 0 ++ [0, 2]

def sampleState : AcpiState := ⟨0, .new, false⟩

theorem oneCpuTable_inside : tableLength (bytesAt 0x1000 oneCpuTable) 0x1000 = 52 ∧
    ∀ fuel, (parseMadt fuel 0x1000 sampleState).Within (bytesAt 0x1000 oneCpuTable) (InTable 0x1000 52) := by
  have hlength : tableLength (bytesAt 0x1000 oneCpuTable) 0x1000 = 52 := by decide
  have hok : (checksumOk 0x1000 (tableLength (bytesAt 0x1000 oneCpuTable) 0x1000).toNat).value
      (bytesAt 0x1000 oneCpuTable) = true := by
    rw [hlength]
    decide
  have hclosed : ¬((firstEntry 0x1000 .new).next (bytesAt 0x1000 oneCpuTable)).Open
      (tableStop (bytesAt 0x1000 oneCpuTable) 0x1000) := by
    unfold Cursor.Open
    decide
  have hroomy : Roomy (bytesAt 0x1000 oneCpuTable) 0x1000 sampleState.madt := by
    refine ⟨by rw [hlength]; decide, fun c hreached hopen => ?_⟩
    -- the walk has the entry and the end of the table
    have hwalk : c = firstEntry 0x1000 .new ∨ c = (firstEntry 0x1000 .new).next (bytesAt 0x1000 oneCpuTable) := by
      clear hopen
      induction hreached with
      | start => exact .inl rfl
      | next _ hopen _ ih =>
        cases ih with
        | inl hfirst => exact .inr (by rw [hfirst])
        | inr hlast => exact absurd (hlast ▸ hopen) hclosed
    cases hwalk with
    | inl hfirst =>
      rw [hfirst, hlength]
      decide
    | inr hlast => exact absurd (hlast ▸ hopen) hclosed
  have hinside := (parse_madt_inside_iff (bytesAt 0x1000 oneCpuTable) 0x1000 sampleState hok).mpr hroomy
  rw [hlength] at hinside
  exact ⟨hlength, hinside⟩

/-- The fields of the short entry are read from behind the table. -/
theorem short_entry_outside :
    (checksumOk 0x1000 (tableLength (bytesAt 0x1000 shortEntryTable) 0x1000).toNat).value
      (bytesAt 0x1000 shortEntryTable) = true ∧
    ∃ fuel, (0x102F : U64) ∈ (parseMadt fuel 0x1000 sampleState).touched (bytesAt 0x1000 shortEntryTable) ∧
      ¬InTable 0x1000 (max (tableLength (bytesAt 0x1000 shortEntryTable) 0x1000).toNat sdtHeaderSize) 0x102F := by
  have hlength : tableLength (bytesAt 0x1000 shortEntryTable) 0x1000 = 46 := by decide
  rw [hlength]
  refine ⟨by decide, 1, by decide, ?_⟩
  unfold InTable
  decide

end VenturaOS.Acpi
