import VenturaOS.Apic.Model

/-!
# Redirection entries

Every operation is a list of register writes to the chip in use. As long as
a pin is below 120 its two registers are its own.
-/
namespace VenturaOS.Apic
open Library Memory Acpi

namespace ApicState

variable (s : ApicState)

def regs : RegisterFile (BitVec 8) 32 := (s.chips s.ioapicBase).regs

def entries : ℕ := (maxEntries (s.regs.value 1)).toNat

/-- What can be written of an entry. -/
def entry (pin : ℕ) : BitVec 32 × BitVec 32 :=
  (s.regs.value (regLow (BitVec.ofNat 32 pin)) &&& lowBits, s.regs.value (regHigh (BitVec.ofNat 32 pin)) &&& highBits)

theorem regs_onChip (f : Chip → Chip) : (s.onChip f).regs = (f (s.chips s.ioapicBase)).regs :=
  congrArg Chip.regs (Function.update_self _ _ _)

end ApicState

/-- The second state comes from the first by these writes to the chip in use. -/
structure Writes (s s' : ApicState) (writes : List (BitVec 8 × BitVec 32)) : Prop where
  base : s'.ioapicBase = s.ioapicBase
  gsiBase : s'.ioapicGsiBase = s.ioapicGsiBase
  elsewhere : ∀ a, a ≠ s.ioapicBase → s'.chips a = s.chips a
  regs : s'.regs = s.regs.writeAll writes

section Operations

variable {s t u : ApicState} {ws ws' : List (BitVec 8 × BitVec 32)} (acpi : AcpiState) (irq : UInt8)

theorem Writes.trans (h : Writes s t ws) (h' : Writes t u ws') : Writes s u (ws ++ ws') := by
  refine ⟨h'.base.trans h.base, h'.gsiBase.trans h.gsiBase, fun a ha => ?_, ?_⟩
  · rw [h'.elsewhere a (by rw [h.base]; exact ha), h.elsewhere a ha]
  · rw [h'.regs, h.regs, RegisterFile.writeAll, RegisterFile.writeAll, RegisterFile.writeAll, List.foldl_append]

theorem writes_ioapicWrite (reg : BitVec 8) (value : BitVec 32) (s : ApicState) :
    Writes s (ioapicWrite reg value s) [(reg, value)] := by
  refine ⟨rfl, rfl, fun a ha => Function.update_of_ne ha _ _, ?_⟩
  rw [ioapicWrite, ApicState.regs_onChip]
  rfl

theorem writes_ioapicRead (reg : BitVec 8) (s : ApicState) : Writes s (ioapicRead reg s).2 [] := by
  refine ⟨rfl, rfl, fun a ha => Function.update_of_ne ha _ _, ?_⟩
  change (s.onChip fun c => c.writeSelect reg).regs = _
  rw [ApicState.regs_onChip]
  rfl

theorem ioapicRead_value (reg : BitVec 8) (s : ApicState) : (ioapicRead reg s).1 = s.regs.value reg := by
  have hchip : (s.onChip fun c => c.writeSelect reg).chips s.ioapicBase = (s.chips s.ioapicBase).writeSelect reg :=
    Function.update_self _ _ _
  exact congrArg Chip.readWindow hchip

theorem writes_writeRedirection (pin : BitVec 32) (vector dest : UInt8) (bits : BitVec 32) (s : ApicState) :
    Writes s (writeRedirection pin vector dest bits s)
      [(regLow pin, vector.toBitVec.setWidth 32 ||| bits), (regHigh pin, dest.toBitVec.setWidth 32 <<< 24)] :=
  (writes_ioapicWrite _ _ s).trans (writes_ioapicWrite _ _ _)

/-- What `route_irq` puts into the low register. -/
def routedLow (vector : UInt8) (masked : Bool) : BitVec 32 :=
  vector.toBitVec.setWidth 32 |||
    if masked then intiFlags (isaIrqToGsi acpi irq).2 ||| ioapicMasked else intiFlags (isaIrqToGsi acpi irq).2

theorem writes_foldl {A : Type} (step : ApicState → A → ApicState) (l : List A)
    (hstep : ∀ s x, ∃ ws, Writes s (step s x) ws) (s : ApicState) : ∃ ws, Writes s (l.foldl step s) ws := by
  induction l generalizing s with
  | nil => exact ⟨[], rfl, rfl, fun _ _ => rfl, rfl⟩
  | cons x l ih =>
    obtain ⟨ws, hone⟩ := hstep s x
    obtain ⟨ws', hrest⟩ := ih (step s x)
    exact ⟨ws ++ ws', hone.trans hrest⟩

theorem writes_maskEntries (entries : ℕ) (s : ApicState) : ∃ ws, Writes s (maskEntries entries s) ws :=
  writes_foldl _ _ (fun s _ => ⟨_, writes_writeRedirection _ _ _ _ s⟩) s

theorem writes_applyOverride (gsiBase entries : BitVec 32) (s : ApicState) (o : InterruptOverride) :
    ∃ ws, Writes s (applyOverride gsiBase entries s o) ws := by
  unfold applyOverride
  split_ifs
  · exact ⟨_, writes_writeRedirection _ _ _ _ s⟩
  · exact ⟨[], rfl, rfl, fun _ _ => rfl, rfl⟩

theorem writes_initIoapic (s : ApicState) : ∃ ws, Writes s (initIoapic acpi s) ws := by
  have hread := writes_ioapicRead 0x01 s
  obtain ⟨ws, hmasked⟩ := writes_maskEntries (maxEntries (ioapicRead 0x01 s).1).toNat (ioapicRead 0x01 s).2
  obtain ⟨ws', hover⟩ := writes_foldl _ (overrides acpi)
    (writes_applyOverride (ioapicRead 0x01 s).2.ioapicGsiBase (maxEntries (ioapicRead 0x01 s).1)) _
  exact ⟨_, (hread.trans hmasked).trans hover⟩

theorem writes_routeIrq (vector dest : UInt8) (masked : Bool) (s : ApicState) :
    Writes s (routeIrq acpi irq vector dest masked s) [(regLow (isaIrqPin acpi irq s), routedLow acpi irq vector masked),
      (regHigh (isaIrqPin acpi irq s), dest.toBitVec.setWidth 32 <<< 24)] :=
  writes_writeRedirection _ _ _ _ s

/-- `mask_irq` and `unmask_irq`. -/
def setMask (acpi : AcpiState) (s : ApicState) (c : UInt8 × Bool) : ApicState :=
  if c.2 then maskIrq acpi c.1 s else unmaskIrq acpi c.1 s

/-- A low half with its mask bit set or cleared. -/
def withMask (masked : Bool) (v : BitVec 32) : BitVec 32 := if masked then v ||| ioapicMasked else v &&& ~~~ioapicMasked

theorem writes_setMask (acpi : AcpiState) (s : ApicState) (c : UInt8 × Bool) : Writes s (setMask acpi s c)
    [(regLow (isaIrqPin acpi c.1 s), withMask c.2 (s.regs.value (regLow (isaIrqPin acpi c.1 s))))] := by
  rw [← ioapicRead_value, setMask, withMask]
  split_ifs
  · exact (writes_ioapicRead _ s).trans (writes_ioapicWrite _ _ _)
  · exact (writes_ioapicRead _ s).trans (writes_ioapicWrite _ _ _)

end Operations

section Registers

variable {s s' : ApicState} {ws : List (BitVec 8 × BitVec 32)} {pin : ℕ}

theorem regLow_toNat (pin : BitVec 32) : (regLow pin).toNat = (0x10 + 2 * pin.toNat) % 256 := by
  rw [regLow, BitVec.toNat_setWidth, BitVec.toNat_add, BitVec.toNat_mul]
  change (16 + 2 * pin.toNat % 2 ^ 32) % 2 ^ 32 % 2 ^ 8 = _
  omega

theorem regHigh_toNat (pin : BitVec 32) : (regHigh pin).toNat = (0x11 + 2 * pin.toNat) % 256 := by
  rw [regHigh, BitVec.toNat_setWidth, BitVec.toNat_add, BitVec.toNat_mul]
  change (17 + 2 * pin.toNat % 2 ^ 32) % 2 ^ 32 % 2 ^ 8 = _
  omega

theorem regLow_ne_regHigh (p q : BitVec 32) : regLow p ≠ regHigh q := by
  intro h
  have hvalue := congrArg BitVec.toNat h
  rw [regLow_toNat, regHigh_toNat] at hvalue
  omega

theorem writable_regs (s : ApicState) (reg : BitVec 8) : s.regs.writable reg = writableBits s.entries reg := by
  rw [ApicState.regs, (s.chips s.ioapicBase).documented]
  rfl

theorem Writes.version (h : Writes s s' ws) : s'.regs.value 1 = s.regs.value 1 := by
  rw [h.regs]
  clear h
  induction ws generalizing s with
  | nil => rfl
  | cons p ws ih =>
    have hone := writes_ioapicWrite p.1 p.2 s
    have hregs : (ioapicWrite p.1 p.2 s).regs = s.regs.write p.1 p.2 := hone.regs
    rw [RegisterFile.writeAll_cons, ← hregs, ih, hregs]
    exact Chip.version_kept (s.chips s.ioapicBase) p.1 p.2

theorem Writes.entries (h : Writes s s' ws) : s'.entries = s.entries := by
  rw [ApicState.entries, ApicState.entries, h.version]

end Registers

section Bits

variable {masked : Bool} {v w : BitVec 32} {k : ℕ}

theorem ioapicMasked_bit (k : ℕ) : ioapicMasked.getLsbD k = decide (16 = k) := by
  have hpow : ioapicMasked = BitVec.twoPow 32 16 := by decide
  rw [hpow, BitVec.getLsbD_twoPow, decide_eq_true (by decide : 16 < 32), Bool.true_and]

/-- Only the mask bit is moved. -/
theorem withMask_bit (hk : k < 32) : (withMask masked v).getLsbD k = if 16 = k then masked else v.getLsbD k := by
  rw [withMask]
  cases masked with
  | true =>
    rw [if_pos rfl, BitVec.getLsbD_or, ioapicMasked_bit]
    split_ifs with h
    · rw [decide_eq_true h, Bool.or_true]
    · rw [decide_eq_false h, Bool.or_false]
  | false =>
    rw [if_neg Bool.false_ne_true, BitVec.getLsbD_and, BitVec.getLsbD_not, ioapicMasked_bit, decide_eq_true hk, Bool.true_and]
    split_ifs with h
    · rw [decide_eq_true h, Bool.not_true, Bool.and_false]
    · rw [decide_eq_false h, Bool.not_false, Bool.and_true]

theorem withMask_and (h : w.getLsbD 16 = true) : withMask masked v &&& w = withMask masked (v &&& w) := by
  apply BitVec.eq_of_getLsbD_eq
  intro k hk
  rw [BitVec.getLsbD_and, withMask_bit hk, withMask_bit hk, BitVec.getLsbD_and]
  split_ifs with he
  · rw [← he, h, Bool.and_true]
  · rfl

/-- Where the mask bit is not writable nothing is moved. -/
theorem withMask_apart (h : w.getLsbD 16 = false) : withMask masked v &&& w = v &&& w := by
  apply BitVec.eq_of_getLsbD_eq
  intro k hk
  rw [BitVec.getLsbD_and, withMask_bit hk, BitVec.getLsbD_and]
  split_ifs with he
  · rw [← he, h, Bool.and_false, Bool.and_false]
  · rfl

theorem withMask_eq_iff : withMask masked v = v ↔ v.getLsbD 16 = masked := by
  constructor
  · intro h
    rw [← h, withMask_bit (by decide), if_pos rfl]
  · intro h
    apply BitVec.eq_of_getLsbD_eq
    intro k hk
    rw [withMask_bit hk]
    split_ifs with he
    · rw [← he, h]
    · rfl

end Bits

section Entry

variable {s s' : ApicState} {ws : List (BitVec 8 × BitVec 32)} {pin other : ℕ} {v u : BitVec 32}

theorem regLow_pin (h : pin < 120) : (regLow (BitVec.ofNat 32 pin)).toNat = 0x10 + 2 * pin := by
  rw [regLow_toNat, BitVec.toNat_ofNat]
  omega

theorem regHigh_pin (h : pin < 120) : (regHigh (BitVec.ofNat 32 pin)).toNat = 0x11 + 2 * pin := by
  rw [regHigh_toNat, BitVec.toNat_ofNat]
  omega

theorem writable_low (hpin : pin < s.entries) (h : pin < 120) :
    s.regs.writable (regLow (BitVec.ofNat 32 pin)) = lowBits := by
  have hvalue := regLow_pin h
  have hne : regLow (BitVec.ofNat 32 pin) ≠ 0 := by
    intro he
    rw [he] at hvalue
    change 0 = 0x10 + 2 * pin at hvalue
    omega
  rw [writable_regs, writableBits, if_neg hne, hvalue, if_pos ⟨by omega, by omega⟩, if_pos (by omega)]

theorem writable_high (hpin : pin < s.entries) (h : pin < 120) :
    s.regs.writable (regHigh (BitVec.ofNat 32 pin)) = highBits := by
  have hvalue := regHigh_pin h
  have hne : regHigh (BitVec.ofNat 32 pin) ≠ 0 := by
    intro he
    rw [he] at hvalue
    change 0 = 0x11 + 2 * pin at hvalue
    omega
  rw [writable_regs, writableBits, if_neg hne, hvalue, if_pos ⟨by omega, by omega⟩, if_neg (by omega)]

theorem Writes.entry_low (h : Writes s s' [(regLow (BitVec.ofNat 32 pin), v)]) (hpin : pin < s.entries) (hlt : pin < 120) :
    s'.entry pin = (v &&& lowBits, (s.entry pin).2) := by
  have hwritable := writable_low hpin hlt
  have hregs : s'.regs = s.regs.write (regLow (BitVec.ofNat 32 pin)) v := h.regs
  rw [ApicState.entry, hregs, RegisterFile.write_and (by rw [hwritable, BitVec.and_self]),
    RegisterFile.write_of_ne (regLow_ne_regHigh _ _).symm]
  rfl

theorem Writes.entry_both (h : Writes s s' [(regLow (BitVec.ofNat 32 pin), v), (regHigh (BitVec.ofNat 32 pin), u)])
    (hpin : pin < s.entries) (hlt : pin < 120) : s'.entry pin = (v &&& lowBits, u &&& highBits) := by
  have hlow := writable_low hpin hlt
  have hhigh := writable_high hpin hlt
  have hregs : s'.regs = (s.regs.write (regLow (BitVec.ofNat 32 pin)) v).write (regHigh (BitVec.ofNat 32 pin)) u := h.regs
  rw [ApicState.entry, hregs, RegisterFile.write_of_ne (regLow_ne_regHigh _ _),
    RegisterFile.write_and (by rw [hlow, BitVec.and_self]),
    RegisterFile.write_and (by rw [RegisterFile.writable_write, hhigh, BitVec.and_self])]

theorem nodup_regs (p : BitVec 32) (v u : BitVec 32) : ([(regLow p, v), (regHigh p, u)].map Prod.fst).Nodup := by
  rw [List.map_cons, List.map_cons, List.map_nil, List.nodup_cons]
  exact ⟨fun hmem => regLow_ne_regHigh p p (List.mem_singleton.mp hmem), List.nodup_singleton _⟩

theorem Writes.unchanged (h : Writes s s' ws) (hd : (ws.map Prod.fst).Nodup) (hws : ∀ p ∈ ws, s.regs.Agrees p.1 p.2)
    (a : U64) (reg : BitVec 8) : (s'.chips a).regs.value reg = (s.chips a).regs.value reg := by
  by_cases ha : a = s.ioapicBase
  · subst ha
    have hregs : (s'.chips s.ioapicBase).regs = s.regs.writeAll ws := by
      rw [← h.regs, ApicState.regs, h.base]
    rw [hregs]
    exact (RegisterFile.writeAll_frame_iff hd ∅).mpr (fun p hp => .inr (hws p hp)) reg (Set.notMem_empty reg)
  · rw [h.elsewhere a ha]

theorem Writes.entry_other (h : Writes s s' ws)
    (hws : ∀ reg ∈ ws.map Prod.fst, reg = regLow (BitVec.ofNat 32 pin) ∨ reg = regHigh (BitVec.ofNat 32 pin))
    (hlt : pin < 120) (hother : other < 120) (hne : other ≠ pin) : s'.entry other = s.entry other := by
  have hout (reg : BitVec 8) (hreg : reg.toNat = 0x10 + 2 * other ∨ reg.toNat = 0x11 + 2 * other) : reg ∉ ws.map Prod.fst := by
    intro hmem
    cases hws reg hmem with
    | inl he =>
      rw [he, regLow_pin hlt] at hreg
      omega
    | inr he =>
      rw [he, regHigh_pin hlt] at hreg
      omega
  rw [ApicState.entry, ApicState.entry, h.regs, RegisterFile.writeAll_of_notMem (hout _ (.inl (regLow_pin hother))),
    RegisterFile.writeAll_of_notMem (hout _ (.inr (regHigh_pin hother)))]

end Entry

section Calls

variable {s : ApicState} {acpi : AcpiState} {pin other : ℕ}

theorem entry_writeRedirection (hpin : pin < s.entries) (hlt : pin < 120) (vector dest : UInt8) (bits : BitVec 32) :
    (writeRedirection (BitVec.ofNat 32 pin) vector dest bits s).entry pin =
      ((vector.toBitVec.setWidth 32 ||| bits) &&& lowBits, dest.toBitVec.setWidth 32 <<< 24 &&& highBits) :=
  (writes_writeRedirection _ _ _ _ s).entry_both hpin hlt

theorem entry_writeRedirection_other (hlt : pin < 120) (hother : other < 120) (hne : other ≠ pin) (vector dest : UInt8)
    (bits : BitVec 32) : (writeRedirection (BitVec.ofNat 32 pin) vector dest bits s).entry other = s.entry other := by
  apply (writes_writeRedirection _ _ _ _ s).entry_other _ hlt hother hne
  intro reg hreg
  simpa using hreg

theorem entry_setMask {c : UInt8 × Bool} (hpin : isaIrqPin acpi c.1 s = BitVec.ofNat 32 pin) (hentry : pin < s.entries)
    (hlt : pin < 120) : (setMask acpi s c).entry pin = (withMask c.2 (s.entry pin).1, (s.entry pin).2) := by
  have hwrites := writes_setMask acpi s c
  rw [hpin] at hwrites
  rw [hwrites.entry_low hentry hlt, withMask_and (by decide)]
  rfl

end Calls

section Base

variable {acpi : AcpiState} {s : ApicState}

theorem gsiBase_configure (h : s.ioapicGsiBase = 0) : (configureFromAcpi acpi s).ioapicGsiBase = 0 := by
  unfold configureFromAcpi
  cases madt acpi with
  | none => exact h
  | some info =>
    have hloop (ioapics : List IoApic) (s : ApicState) (h : s.ioapicGsiBase = 0) : (ioapics.foldl (fun s io =>
        if io.gsiBase = 0 then { s with ioapicBase := io.address, ioapicGsiBase := 0 } else s) s).ioapicGsiBase = 0 := by
      induction ioapics generalizing s with
      | nil => exact h
      | cons io ioapics ih =>
        apply ih
        dsimp only
        split_ifs
        · rfl
        · exact h
    apply hloop
    split_ifs
    · exact h
    · exact h

theorem Call.gsiBase (c : Call) (h : s.ioapicGsiBase = 0) : (c.run acpi s).ioapicGsiBase = 0 := by
  cases c with
  | configureFromAcpi => exact gsiBase_configure h
  | initIoapic =>
    obtain ⟨ws, hwrites⟩ := writes_initIoapic acpi s
    exact hwrites.gsiBase.trans h
  | routeIrq irq vector dest masked => exact (writes_routeIrq acpi irq vector dest masked s).gsiBase.trans h
  | maskIrq irq => exact (writes_setMask acpi s (irq, true)).gsiBase.trans h
  | unmaskIrq irq => exact (writes_setMask acpi s (irq, false)).gsiBase.trans h

/-- The I/O APIC in use is always the one that owns GSI 0. -/
theorem gsiBase_run (calls : List Call) (h : s.ioapicGsiBase = 0) : (run acpi calls s).ioapicGsiBase = 0 := by
  induction calls generalizing s with
  | nil => exact h
  | cons c calls ih => exact ih (c.gsiBase h)

end Base

end VenturaOS.Apic
