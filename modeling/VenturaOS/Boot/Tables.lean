import VenturaOS.Boot.Startup

/-!
# The configuration table

Which of the firmware's tables `find_rsdp` takes for the RSDP, and what it
reads to find out.
-/
namespace VenturaOS.Boot
open Library Memory Acpi Logger Framebuffer

/-- The entries of the table from entry `i` on. -/
def entriesFrom (m : U64 → UInt8) (tables : U64) (i n : ℕ) : List EfiConfigurationTable :=
  (List.range' i n).map fun j => (EfiConfigurationTable.read tables j).value m

def EfiConfigurationTable.isAcpi20 (t : EfiConfigurationTable) : Bool := t.vendorGuid = efiAcpi20TableGuid

/-- An ACPI 1.0 entry that points somewhere. -/
def EfiConfigurationTable.isAcpi10 (t : EfiConfigurationTable) : Bool :=
  t.vendorGuid = efiAcpi10TableGuid ∧ t.vendorTable ≠ 0

/-- The first ACPI 2.0 entry, or else the first ACPI 1.0 entry that points somewhere. -/
def preferred (entries : List EfiConfigurationTable) : U64 :=
  match entries.find? EfiConfigurationTable.isAcpi20 with
  | some t => t.vendorTable
  | none => ((entries.find? EfiConfigurationTable.isAcpi10).map EfiConfigurationTable.vendorTable).getD 0

/-- The entries of the system table's configuration table. -/
def configurationTable (m : U64 → UInt8) (systemTable : U64) : List EfiConfigurationTable :=
  entriesFrom m ((readU64 (systemTable + 112)).value m) 0 ((readU64 (systemTable + 104)).value m).toNat

/-- The fields of the system table from the count on, and the entries of the configuration table. -/
def Looked (systemTable tables : U64) (count : ℕ) (a : U64) : Prop :=
  (∃ k < 16, a = systemTable + 104 + BitVec.ofNat 64 k) ∨
    ∃ j < count, ∃ k < EfiConfigurationTable.size,
      a = tables + BitVec.ofNat 64 (j * EfiConfigurationTable.size) + BitVec.ofNat 64 k

section Loop

variable {m : U64 → UInt8} {tables rsdp systemTable : U64} {P : U64 → Prop} {fw : Firmware} {status : ℕ → UInt8} {s : State}

theorem preferred_cons {t : EfiConfigurationTable} (h : ¬t.isAcpi20 = true) (entries : List EfiConfigurationTable) :
    preferred (t :: entries) = match entries.find? EfiConfigurationTable.isAcpi20 with
      | some u => u.vendorTable
      | none => if t.isAcpi10 then t.vendorTable else preferred entries := by
  rw [preferred, List.find?_cons_of_neg h]
  cases hfind : entries.find? EfiConfigurationTable.isAcpi20 with
  | some u => rfl
  | none =>
    cases hold : t.isAcpi10 with
    | true =>
      rw [List.find?_cons_of_pos hold]
      rfl
    | false =>
      rw [List.find?_cons_of_neg (by rw [hold]; exact Bool.false_ne_true), preferred, hfind]
      rfl

theorem isAcpi20_eq {t : EfiConfigurationTable} : t.isAcpi20 = true ↔ t.vendorGuid = efiAcpi20TableGuid := decide_eq_true_iff

theorem isAcpi10_eq {t : EfiConfigurationTable} :
    t.isAcpi10 = true ↔ t.vendorGuid = efiAcpi10TableGuid ∧ t.vendorTable ≠ 0 := decide_eq_true_iff

/-- An ACPI 1.0 entry counts if it is the first one that points somewhere. -/
theorem next_rsdp (t : EfiConfigurationTable) (rsdp : U64) :
    (if t.vendorGuid = efiAcpi10TableGuid ∧ rsdp = 0 then t.vendorTable else rsdp) =
      if rsdp = 0 then if t.isAcpi10 then t.vendorTable else 0 else rsdp := by
  by_cases hrsdp : rsdp = 0
  · rw [if_pos hrsdp]
    by_cases hold : t.vendorGuid = efiAcpi10TableGuid
    · rw [if_pos ⟨hold, hrsdp⟩]
      by_cases hnull : t.vendorTable = 0
      · rw [if_neg fun h => (isAcpi10_eq.mp h).2 hnull, hnull]
      · rw [if_pos (isAcpi10_eq.mpr ⟨hold, hnull⟩)]
    · rw [if_neg fun h => hold h.1, if_neg fun h => hold (isAcpi10_eq.mp h).1, hrsdp]
  · rw [if_neg hrsdp, if_neg fun h => hrsdp h.2]

/-- The loop with what it found so far. -/
theorem rsdpLoop_value (left i : ℕ) (rsdp : U64) : (rsdpLoop tables left i rsdp).value m =
    match (entriesFrom m tables i left).find? EfiConfigurationTable.isAcpi20 with
    | some t => t.vendorTable
    | none => if rsdp = 0 then preferred (entriesFrom m tables i left) else rsdp := by
  induction left generalizing i rsdp with
  | zero =>
    change rsdp = if rsdp = 0 then 0 else rsdp
    split_ifs with h
    · exact h
    · rfl
  | succ left ih =>
    rw [rsdpLoop, Reads.value_bind, entriesFrom, List.range'_succ, List.map_cons, ← entriesFrom]
    generalize (EfiConfigurationTable.read tables i).value m = t
    by_cases hnew : t.vendorGuid = efiAcpi20TableGuid
    · rw [if_pos hnew, List.find?_cons_of_pos (isAcpi20_eq.mpr hnew)]
      rfl
    · have hother : ¬t.isAcpi20 = true := fun h => hnew (isAcpi20_eq.mp h)
      rw [if_neg hnew, ih, next_rsdp, List.find?_cons_of_neg hother, preferred_cons hother]
      cases hfind : (entriesFrom m tables (i + 1) left).find? EfiConfigurationTable.isAcpi20 with
      | some u => rfl
      | none =>
        simp only
        by_cases hrsdp : rsdp = 0
        · rw [if_pos hrsdp, if_pos hrsdp]
          cases hold : t.isAcpi10 with
          | true => rw [if_pos rfl, if_neg (isAcpi10_eq.mp hold).2, if_pos rfl]
          | false => rw [if_neg Bool.false_ne_true, if_pos rfl, if_neg Bool.false_ne_true]
        · rw [if_neg hrsdp, if_neg hrsdp, if_neg hrsdp]

/-- The loop looks at entries of the table only. -/
theorem rsdpLoop_within (left i : ℕ) (rsdp : U64)
    (hP : ∀ j, i ≤ j → j < i + left → ∀ k < EfiConfigurationTable.size,
      P (tables + BitVec.ofNat 64 (j * EfiConfigurationTable.size) + BitVec.ofNat 64 k)) :
    (rsdpLoop tables left i rsdp).Within m P := by
  induction left generalizing i rsdp with
  | zero => exact Reads.within_pure _
  | succ left ih =>
    rw [rsdpLoop, Reads.within_bind]
    constructor
    · rw [EfiConfigurationTable.read, Reads.within_map, readBytes, Reads.within_readAll]
      intro a ha
      obtain ⟨k, hk, rfl⟩ := mem_addressesFrom.mp ha
      exact hP i (Nat.le_refl i) (by omega) k hk
    · by_cases hnew : ((EfiConfigurationTable.read tables i).value m).vendorGuid = efiAcpi20TableGuid
      · rw [if_pos hnew]
        exact Reads.within_pure _
      · rw [if_neg hnew]
        exact ih _ _ fun j hj hlt => hP j (by omega) (by omega)

theorem fields_within {o : ℕ} (ho : o + 8 ≤ 16) (hP : ∀ k < 16, P (systemTable + 104 + BitVec.ofNat 64 k)) :
    (readU64 (systemTable + 104 + BitVec.ofNat 64 o)).Within m P := by
  rw [readU64, Reads.within_map, readBytes, Reads.within_readAll]
  intro a ha
  obtain ⟨k, hk, rfl⟩ := mem_addressesFrom.mp ha
  rw [BitVec.add_assoc, ← BitVec.ofNat_add]
  exact hP (o + k) (by omega)

theorem readRsdpAddress_value :
    (readRsdpAddress systemTable).value m = preferred (configurationTable m systemTable) := by
  rw [readRsdpAddress, Reads.value_bind, Reads.value_bind, rsdpLoop_value, if_pos rfl, ← configurationTable, preferred]
  cases (configurationTable m systemTable).find? EfiConfigurationTable.isAcpi20 <;> rfl

/-- `find_rsdp` takes the first ACPI 2.0 entry, even a null one, or else the first ACPI 1.0 entry that points
somewhere. It reads the table's entries and the two fields that say where they are. If there is none, it keeps
the old address and logs one line; otherwise it logs nothing. -/
theorem rsdp_is_preferred (fw : Firmware) (status : ℕ → UInt8) (systemTable : U64) {d : Display}
    {t : Option (Terminal d.rows d.cols)} (hscreen : OnScreen d t s.outputs.console) :
    let m := fw.memory s.outputs.calls
    let tables := (readU64 (systemTable + 112)).value m
    let count := (readU64 (systemTable + 104)).value m
    (readRsdpAddress systemTable).Within m (Looked systemTable tables count.toNat) ∧
      ∃ s', findRsdp fw status systemTable s = some s' ∧
        (preferred (configurationTable m systemTable) = 0 → s'.rsdpAddress = s.rsdpAddress ∧
          Written d t ["[BOOT WARN] ACPI RSDP not found in UEFI configuration table", "\r\n"] s.outputs s'.outputs) ∧
        (preferred (configurationTable m systemTable) ≠ 0 →
          s'.rsdpAddress = preferred (configurationTable m systemTable) ∧ s'.outputs = s.outputs) := by
  intro m tables count
  constructor
  · have hfields (k : ℕ) (hk : k < 16) : Looked systemTable tables count.toNat (systemTable + 104 + BitVec.ofNat 64 k) :=
      .inl ⟨k, hk, rfl⟩
    rw [readRsdpAddress, Reads.within_bind, Reads.within_bind]
    refine ⟨?_, ?_, ?_⟩
    · have hcount : (readU64 (systemTable + 104 + BitVec.ofNat 64 0)).Within m _ := fields_within (by decide) hfields
      rw [BitVec.add_zero] at hcount
      exact hcount
    · have htables : (readU64 (systemTable + 104 + BitVec.ofNat 64 8)).Within m _ := fields_within (by decide) hfields
      rw [BitVec.add_assoc] at htables
      exact htables
    · refine rsdpLoop_within _ _ _ fun j _ hj k hk => .inr ⟨j, ?_, k, hk, rfl⟩
      rw [Nat.zero_add] at hj
      exact hj
  · rw [findRsdp]
    simp only [readRsdpAddress_value]
    change ∃ s', (if preferred (configurationTable m systemTable) = 0 then _ else _) = some s' ∧ _
    generalize preferred (configurationTable m systemTable) = rsdp
    by_cases hnone : rsdp = 0
    · obtain ⟨o, hlog, hwritten⟩ := writeAll_written status
        ["[BOOT WARN] ACPI RSDP not found in UEFI configuration table", "\r\n"] hscreen
      rw [if_pos hnone]
      change ∃ s', (writeAll status _ s.outputs).map _ = some s' ∧ _
      rw [List.singleton_append, hlog]
      exact ⟨{ s with outputs := o }, rfl, fun _ => ⟨rfl, hwritten⟩, fun h => absurd hnone h⟩
    · rw [if_neg hnone]
      exact ⟨{ s with rsdpAddress := rsdp }, rfl, fun h => absurd h hnone, fun _ => ⟨rfl, rfl⟩⟩

end Loop

/-- An ACPI 1.0 entry in front of an ACPI 2.0 entry. -/
def sampleEntries : List UInt8 :=
  [0x30, 0x2d, 0x9d, 0xeb, 0x88, 0x2d, 0xd3, 0x11, 0x9a, 0x16, 0x00, 0x90, 0x27, 0x3f, 0xc1, 0x4d] ++
    [0x00, 0x00, 0x0e, 0x00, 0x00, 0x00, 0x00, 0x00] ++
    [0x71, 0xe8, 0x68, 0x88, 0xf1, 0xe4, 0xd3, 0x11, 0xbc, 0x22, 0x00, 0x80, 0xc7, 0x3c, 0x88, 0x81] ++
    [0x00, 0x00, 0x0f, 0x00, 0x00, 0x00, 0x00, 0x00]

/-- Memory with a system table at 0x1000 that counts two entries at 0x3000. -/
def sampleTable (a : U64) : UInt8 :=
  if a = 0x1068 then 2 else if a = 0x1071 then 0x30 else if 0x3000 ≤ a then sampleEntries.getD (a.toNat - 0x3000) 0 else 0

def silentState : State := ⟨⟨0, true, ⟨none, 0, 0, 0, 0, false, fun _ => 0⟩, [], 0, [], true⟩, 0⟩

theorem rsdp_is_preferred_sample : ∃ s', findRsdp ⟨fun _ => (0, 0), fun _ => ⟨0, 0, 0, 48⟩, fun _ => 0, fun _ => sampleTable⟩
    (fun _ => 0x20) 0x1000 silentState = some s' ∧ s'.rsdpAddress = 0xf0000 ∧ s'.outputs.outs = [] := by
  have hscreen : OnScreen default none silentState.outputs.console := rfl
  obtain ⟨-, s', hfind, -, hfound⟩ := rsdp_is_preferred
    ⟨fun _ => (0, 0), fun _ => ⟨0, 0, 0, 48⟩, fun _ => 0, fun _ => sampleTable⟩ (fun _ => 0x20) 0x1000 hscreen
  have hpreferred : preferred (configurationTable sampleTable 0x1000) = 0xf0000 := by decide +kernel
  rw [hpreferred] at hfound
  obtain ⟨hrsdp, houtputs⟩ := hfound (by decide)
  exact ⟨s', hfind, hrsdp, by rw [houtputs]; rfl⟩

end VenturaOS.Boot
