import VenturaOS.Acpi.MadtReads
import VenturaOS.Apic.Routing

/-!
# Which registers a call for an IRQ touches

A register index is the pin taken modulo 128. `init_ioapic` compares a GSI with
the number of entries before it writes; the functions for one IRQ do not, and
with a GSI that the I/O APIC does not have they reach the entry of another one.
-/
namespace VenturaOS.Apic
open Library Memory Acpi

/-- The two registers of the entry for a GSI, if there is one. -/
def ownRegisters (entries gsi : ℕ) : Set (BitVec 8) :=
  {reg | gsi < entries ∧ (reg.toNat = 0x10 + 2 * gsi ∨ reg.toNat = 0x11 + 2 * gsi)}

/-- No other register of any chip is changed. -/
def OnlyOwn (acpi : AcpiState) (irq : UInt8) (s s' : ApicState) : Prop :=
  ∀ a reg, ¬(a = s.ioapicBase ∧ reg ∈ ownRegisters s.entries (gsiOf acpi irq)) →
    (s'.chips a).regs.value reg = (s.chips a).regs.value reg

/-- There is such an entry, and its index fits into a register number. -/
def HasEntry (s : ApicState) (pin : ℕ) : Prop := pin < s.entries ∧ pin < 120

/-- The pin that the truncated index belongs to. -/
def reachedPin (acpi : AcpiState) (irq : UInt8) : ℕ := gsiOf acpi irq % 128

section Frame

variable {acpi : AcpiState} {irq : UInt8} {s s' : ApicState} {ws : List (BitVec 8 × BitVec 32)} {pin gsi : ℕ} {v : BitVec 32}

theorem Writes.onlyOwn_iff (h : Writes s s' ws) (hd : (ws.map Prod.fst).Nodup) : OnlyOwn acpi irq s s' ↔
    ∀ p ∈ ws, p.1 ∈ ownRegisters s.entries (gsiOf acpi irq) ∨ s.regs.Agrees p.1 p.2 := by
  rw [← RegisterFile.writeAll_frame_iff hd]
  have hregs : (s'.chips s.ioapicBase).regs = s.regs.writeAll ws := by
    rw [← h.regs, ApicState.regs, h.base]
  constructor
  · intro hown reg hreg
    rw [← hregs]
    exact hown s.ioapicBase reg fun hin => hreg hin.2
  · intro hframe a reg hout
    by_cases ha : a = s.ioapicBase
    · subst ha
      rw [hregs]
      exact hframe reg fun hin => hout ⟨rfl, hin⟩
    · rw [h.elsewhere a ha]

theorem regLow_own (hgsi : gsi < 2 ^ 32) :
    regLow (BitVec.ofNat 32 gsi) ∈ ownRegisters s.entries gsi ↔ HasEntry s gsi := by
  have hvalue := regLow_toNat (BitVec.ofNat 32 gsi)
  rw [BitVec.toNat_ofNat, Nat.mod_eq_of_lt hgsi] at hvalue
  rw [ownRegisters, HasEntry, Set.mem_ofPred_eq, hvalue]
  omega

theorem regHigh_own (hgsi : gsi < 2 ^ 32) :
    regHigh (BitVec.ofNat 32 gsi) ∈ ownRegisters s.entries gsi ↔ HasEntry s gsi := by
  have hvalue := regHigh_toNat (BitVec.ofNat 32 gsi)
  rw [BitVec.toNat_ofNat, Nat.mod_eq_of_lt hgsi] at hvalue
  rw [ownRegisters, HasEntry, Set.mem_ofPred_eq, hvalue]
  omega

theorem regLow_mod (gsi : ℕ) : regLow (BitVec.ofNat 32 gsi) = regLow (BitVec.ofNat 32 (gsi % 128)) := by
  apply BitVec.eq_of_toNat_eq
  rw [regLow_toNat, regLow_toNat, BitVec.toNat_ofNat, BitVec.toNat_ofNat]
  omega

theorem regHigh_mod (gsi : ℕ) : regHigh (BitVec.ofNat 32 gsi) = regHigh (BitVec.ofNat 32 (gsi % 128)) := by
  apply BitVec.eq_of_toNat_eq
  rw [regHigh_toNat, regHigh_toNat, BitVec.toNat_ofNat, BitVec.toNat_ofNat]
  omega

/-- The bits of the id register that can be written. -/
def idBits : BitVec 32 := 0x0F000000

/-- Without an entry there is at most the id register to write to. -/
theorem writable_absent (h : ¬HasEntry s pin) (hlt : pin < 128) :
    s.regs.writable (regLow (BitVec.ofNat 32 pin)) = (if pin = 120 then idBits else 0) ∧
      s.regs.writable (regHigh (BitVec.ofNat 32 pin)) = 0 := by
  have hlow := regLow_toNat (BitVec.ofNat 32 pin)
  have hhigh := regHigh_toNat (BitVec.ofNat 32 pin)
  rw [BitVec.toNat_ofNat] at hlow hhigh
  rw [HasEntry] at h
  rw [writable_regs, writable_regs]
  constructor
  · by_cases hid : pin = 120
    · subst hid
      rfl
    · have hne : regLow (BitVec.ofNat 32 pin) ≠ 0 := by
        intro he
        rw [he] at hlow
        change 0 = (0x10 + 2 * (pin % 2 ^ 32)) % 256 at hlow
        omega
      rw [writableBits, if_neg hne, if_neg hid, if_neg]
      omega
  · have hne : regHigh (BitVec.ofNat 32 pin) ≠ 0 := by
      intro he
      rw [he] at hhigh
      change 0 = (0x11 + 2 * (pin % 2 ^ 32)) % 256 at hhigh
      omega
    rw [writableBits, if_neg hne, if_neg]
    omega

end Frame

section Bits

/-- Everything `route_irq` writes can be written. -/
theorem routedLow_and (acpi : AcpiState) (irq vector : UInt8) (masked : Bool) :
    routedLow acpi irq vector masked &&& lowBits = routedLow acpi irq vector masked := by
  have hflags : intiFlags (isaIrqToGsi acpi irq).2 &&& lowBits = intiFlags (isaIrqToGsi acpi irq).2 :=
    intiFlags_and _ (by decide) (by decide)
  have hmask : ioapicMasked &&& lowBits = ioapicMasked := by decide
  apply setUp_and
  cases masked with
  | false => exact hflags
  | true =>
    rw [if_pos rfl, BitVec.and_or_distrib_right, hflags, hmask]

theorem dest_and (dest : UInt8) : dest.toBitVec.setWidth 32 <<< 24 &&& highBits = dest.toBitVec.setWidth 32 <<< 24 := by
  have hhigh : highBits = BitVec.allOnes 32 <<< 24 := by decide
  rw [hhigh, ← BitVec.shiftLeft_and_distrib, BitVec.and_allOnes]

/-- And none of it belongs to an id. -/
theorem routedLow_id (acpi : AcpiState) (irq vector : UInt8) (masked : Bool) :
    routedLow acpi irq vector masked &&& idBits = 0 := by
  have hapart : lowBits &&& idBits = 0 := by decide
  rw [← routedLow_and, BitVec.and_assoc, hapart]
  exact BitVec.and_zero

end Bits

section Calls

variable {acpi : AcpiState} {irq : UInt8} {s : ApicState}

theorem gsiOf_lt (acpi : AcpiState) (irq : UInt8) : gsiOf acpi irq < 2 ^ 32 := (isaIrqToGsi acpi irq).1.isLt

theorem reachedPin_lt (acpi : AcpiState) (irq : UInt8) : reachedPin acpi irq < 128 := Nat.mod_lt _ (by decide)

theorem Writes.low_onlyOwn_iff {s' : ApicState} {v : BitVec 32} (hbase : s.ioapicGsiBase = 0)
    (h : Writes s s' [(regLow (isaIrqPin acpi irq s), v)]) : OnlyOwn acpi irq s s' ↔
      HasEntry s (gsiOf acpi irq) ∨ s.regs.Agrees (regLow (BitVec.ofNat 32 (reachedPin acpi irq))) v := by
  rw [isaIrqPin_zero hbase] at h
  rw [h.onlyOwn_iff (List.nodup_singleton _), List.forall_mem_singleton]
  dsimp only
  rw [regLow_own (gsiOf_lt acpi irq), reachedPin, ← regLow_mod]

theorem setMask_onlyOwn_iff (c : UInt8 × Bool) (hbase : s.ioapicGsiBase = 0) : OnlyOwn acpi c.1 s (setMask acpi s c) ↔
    HasEntry s (gsiOf acpi c.1) ∨
      (HasEntry s (reachedPin acpi c.1) → (s.entry (reachedPin acpi c.1)).1.getLsbD 16 = c.2) := by
  rw [(writes_setMask acpi s c).low_onlyOwn_iff hbase, isaIrqPin_zero hbase, regLow_mod (gsiOf acpi c.1), ← reachedPin,
    RegisterFile.Agrees]
  apply or_congr_right
  by_cases h : HasEntry s (reachedPin acpi c.1)
  · rw [writable_low h.1 h.2, withMask_and (by decide), withMask_eq_iff]
    exact ⟨fun hset _ => hset, fun hset => hset h⟩
  · refine iff_of_true ?_ fun hentry => absurd hentry h
    rw [(writable_absent h (reachedPin_lt acpi c.1)).1]
    apply withMask_apart
    split_ifs
    · decide
    · decide

/-- The entry or the id register that is reached holds what is routed. -/
def HoldsRouting (acpi : AcpiState) (irq vector dest : UInt8) (masked : Bool) (s : ApicState) : Prop :=
  (HasEntry s (reachedPin acpi irq) →
    s.entry (reachedPin acpi irq) = (routedLow acpi irq vector masked, dest.toBitVec.setWidth 32 <<< 24)) ∧
  (reachedPin acpi irq = 120 → s.regs.value 0 &&& idBits = 0)

theorem routeIrq_onlyOwn_iff (vector dest : UInt8) (masked : Bool) (hbase : s.ioapicGsiBase = 0) :
    OnlyOwn acpi irq s (routeIrq acpi irq vector dest masked s) ↔
      HasEntry s (gsiOf acpi irq) ∨ HoldsRouting acpi irq vector dest masked s := by
  have hwrites := writes_routeIrq acpi irq vector dest masked s
  rw [isaIrqPin_zero hbase] at hwrites
  rw [hwrites.onlyOwn_iff (nodup_regs _ _ _), List.forall_mem_cons, List.forall_mem_singleton]
  dsimp only
  rw [regLow_own (gsiOf_lt acpi irq), regHigh_own (gsiOf_lt acpi irq), ← or_and_left, regLow_mod, regHigh_mod,
    ← reachedPin, RegisterFile.Agrees, RegisterFile.Agrees]
  apply or_congr_right
  rw [HoldsRouting]
  by_cases h : HasEntry s (reachedPin acpi irq)
  · have hid : reachedPin acpi irq ≠ 120 := by
      have hlt := h.2
      omega
    rw [writable_low h.1 h.2, writable_high h.1 h.2, routedLow_and, dest_and]
    constructor
    · rintro ⟨hlow, hhigh⟩
      exact ⟨fun _ => Prod.ext hlow.symm hhigh.symm, fun he => absurd he hid⟩
    · rintro ⟨hentry, -⟩
      have hboth := hentry h
      exact ⟨(congrArg Prod.fst hboth).symm, (congrArg Prod.snd hboth).symm⟩
  · obtain ⟨hlow, hhigh⟩ := writable_absent h (reachedPin_lt acpi irq)
    rw [hlow, hhigh]
    by_cases hid : reachedPin acpi irq = 120
    · rw [if_pos hid, routedLow_id]
      have hreg : regLow (BitVec.ofNat 32 (reachedPin acpi irq)) = 0 := by
        rw [hid]
        rfl
      rw [hreg]
      constructor
      · rintro ⟨hzero, -⟩
        exact ⟨fun hentry => absurd hentry h, fun _ => hzero.symm⟩
      · rintro ⟨-, hzero⟩
        exact ⟨(hzero hid).symm, BitVec.and_zero.trans BitVec.and_zero.symm⟩
    · rw [if_neg hid]
      exact iff_of_true ⟨BitVec.and_zero.trans BitVec.and_zero.symm, BitVec.and_zero.trans BitVec.and_zero.symm⟩
        ⟨fun hentry => absurd hentry h, fun he => absurd he hid⟩

end Calls

/-- In every state that calls lead to, a call for an IRQ leaves all registers but the ones of its own entry alone
exactly if it has one, or what the truncated index reaches is already as the call makes it. -/
theorem irq_calls_frame_iff (acpi : AcpiState) (chips : U64 → Chip) (before : List Call) (irq : UInt8) :
    let s := run acpi before (ApicState.new chips)
    (OnlyOwn acpi irq s (maskIrq acpi irq s) ↔ HasEntry s (gsiOf acpi irq) ∨
      (HasEntry s (reachedPin acpi irq) → (s.entry (reachedPin acpi irq)).1.getLsbD 16 = true)) ∧
    (OnlyOwn acpi irq s (unmaskIrq acpi irq s) ↔ HasEntry s (gsiOf acpi irq) ∨
      (HasEntry s (reachedPin acpi irq) → (s.entry (reachedPin acpi irq)).1.getLsbD 16 = false)) ∧
    ∀ vector dest masked, OnlyOwn acpi irq s (routeIrq acpi irq vector dest masked s) ↔
      HasEntry s (gsiOf acpi irq) ∨ HoldsRouting acpi irq vector dest masked s := by
  intro s
  have hbase : s.ioapicGsiBase = 0 := gsiBase_run before rfl
  exact ⟨setMask_onlyOwn_iff (irq, true) hbase, setMask_onlyOwn_iff (irq, false) hbase,
    fun vector dest masked => routeIrq_onlyOwn_iff vector dest masked hbase⟩

/-- A MADT with an I/O APIC for GSI 0 and an override of IRQ 5 for GSI 129. -/
def distantTable : List UInt8 :=
  [0x41, 0x50, 0x49, 0x43, 66, 0, 0, 0, 1, 67] ++ List.replicate 34 0 ++
    [1, 12, 0, 0, 0, 0, 0xC0, 0xFE, 0, 0, 0, 0] ++ [2, 10, 0, 5, 129, 0, 0, 0, 0, 0]

def distantAcpi : AcpiState := ⟨0, ⟨0, false, [], [⟨0, 0xFEC00000, 0⟩], [⟨5, 129, 0⟩]⟩, true⟩

/-- With 24 entries IRQ 5 has none, and unmasking it unmasks the entry of IRQ 1. -/
theorem distant_irq_unmasks : (parseMadt 3 0x1000 sampleState).value (bytesAt 0x1000 distantTable) =
      some (.ok (), distantAcpi) ∧ gsiOf distantAcpi 5 = 129 ∧
    ∃ s, s = run distantAcpi [.configureFromAcpi, .initIoapic] (ApicState.new fun _ => sampleChip) ∧ s.entries = 24 ∧
      (s.entry 1).1.getLsbD 16 = true ∧ ((unmaskIrq distantAcpi 5 s).entry 1).1.getLsbD 16 = false ∧
      ¬OnlyOwn distantAcpi 5 s (unmaskIrq distantAcpi 5 s) := by
  have hparsed : (parseMadt 3 0x1000 sampleState).value (bytesAt 0x1000 distantTable) = some (.ok (), distantAcpi) := by
    decide +kernel
  have hgsi : gsiOf distantAcpi 5 = 129 := by decide
  have hpin : reachedPin distantAcpi 5 = 1 := by decide
  have hsingle : ((overrides distantAcpi).map InterruptOverride.gsi).Nodup := by decide
  have hrun (c : ApicState) : c = configureFromAcpi distantAcpi (ApicState.new fun _ => sampleChip) →
      run distantAcpi [.configureFromAcpi, .initIoapic] (ApicState.new fun _ => sampleChip) = initIoapic distantAcpi c := by
    rintro rfl
    rw [run, List.foldl_cons, List.foldl_cons, List.foldl_nil, Call.run, Call.run]
  have hconfigured : ∃ c, c = configureFromAcpi distantAcpi (ApicState.new fun _ => sampleChip) ∧
      c.ioapicGsiBase = 0 ∧ c.entries = 24 := ⟨_, rfl, rfl, by decide⟩
  obtain ⟨c, hc, hbase, hsize⟩ := hconfigured
  obtain ⟨ws, hwrites⟩ := writes_initIoapic distantAcpi c
  have hentry : (initIoapic distantAcpi c).entry 1 = initial distantAcpi 1 :=
    entry_initIoapic hbase (by omega) (by omega) hsingle
  have hentries := hwrites.entries.trans hsize
  have hzero := hwrites.gsiBase.trans hbase
  refine ⟨hparsed, hgsi, _, rfl, ?_⟩
  rw [hrun c hc]
  generalize initIoapic distantAcpi c = s at *
  have hmasked : (s.entry 1).1.getLsbD 16 = true := by
    rw [hentry]
    exact initial_masked distantAcpi 1
  have hunmasks : Writes s (unmaskIrq distantAcpi 5 s) _ := writes_setMask distantAcpi s (5, false)
  rw [isaIrqPin_zero hzero, regLow_mod, ← reachedPin, hpin] at hunmasks
  refine ⟨hentries, hmasked, ?_, fun hown => ?_⟩
  · rw [hunmasks.entry_low (by omega) (by decide), withMask_and (by decide), withMask_bit (by decide), if_pos rfl]
  · have hiff := (setMask_onlyOwn_iff (5, false) hzero).mp hown
    rw [hgsi, hpin] at hiff
    cases hiff with
    | inl hentry =>
      have hlt := hentry.2
      omega
    | inr hclear =>
      have hfalse := hclear ⟨by omega, by decide⟩
      rw [hmasked] at hfalse
      cases hfalse

end VenturaOS.Apic
