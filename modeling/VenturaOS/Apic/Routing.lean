import VenturaOS.Apic.Entries

/-!
# The set-up of the entries and the routing by IRQ

`init_ioapic` goes through the overrides by their GSIs, the other functions
look an IRQ up. As long as no GSI is overridden twice they mean the same entry.
-/
namespace VenturaOS.Apic
open Library Memory Acpi

/-- An entry with a vector and no destination. -/
def setUp (vector : UInt8) (bits : BitVec 32) : BitVec 32 × BitVec 32 := (vector.toBitVec.setWidth 32 ||| bits, 0)

/-- The flags of the IRQ's first override; the defaults of its bus without one. -/
def overrideFlags (acpi : AcpiState) (irq : UInt8) : BitVec 16 :=
  (((overrides acpi).find? fun o => o.isaIrq = irq).map InterruptOverride.flags).getD 0

/-- Polarity is bit 13 of an entry and set if it is 3 in the flags, active low. Trigger is bit 15 and set
if it is 3, level. -/
def wired (flags : BitVec 16) : BitVec 32 :=
  (if flags &&& 3 = 3 then 0x2000 else 0) ||| if flags >>> 2 &&& 3 = 3 then 0x8000 else 0

/-- The entry of an IRQ, with its own vector; bit 16 masks it. -/
def routed (acpi : AcpiState) (irq : UInt8) (masked : Bool) : BitVec 32 × BitVec 32 :=
  setUp (0x20 + irq) (wired (overrideFlags acpi irq) ||| if masked then 0x10000 else 0)

/-- What `init_ioapic` makes of an entry: the override of its GSI counts. -/
def initial (acpi : AcpiState) (pin : ℕ) : BitVec 32 × BitVec 32 :=
  match (overrides acpi).find? fun o => o.gsi.toNat = pin with
  | some o => setUp (0x20 + o.isaIrq) (intiFlags o.flags ||| ioapicMasked)
  | none => setUp (0x20 + UInt8.ofNat pin) ioapicMasked

section Bits

theorem trigger_iff (flags : BitVec 16) : flags &&& triggerMask = triggerLevel ↔ flags >>> 2 &&& 3 = 3 := by
  have hmoved : flags &&& triggerMask = (flags >>> 2 &&& 3) <<< 2 := by
    have hmask : triggerMask = (3#16 <<< 2) := by decide
    apply BitVec.eq_of_getLsbD_eq
    intro i hi
    rw [hmask, BitVec.getLsbD_and, BitVec.getLsbD_shiftLeft, BitVec.getLsbD_shiftLeft, BitVec.getLsbD_and,
      BitVec.getLsbD_ushiftRight]
    by_cases hlow : i < 2
    · simp [hlow]
    · have hback : 2 + (i - 2) = i := by omega
      simp [hlow, hback, Bool.and_left_comm]
  have hlt : (flags >>> 2 &&& 3).toNat < 4 := by
    rw [BitVec.toNat_and]
    exact Nat.and_lt_two_pow _ (by decide : (3#16).toNat < 2 ^ 2)
  have hlevel : triggerLevel = 12#16 := rfl
  rw [hmoved, hlevel]
  generalize flags >>> 2 &&& 3 = field at *
  rw [← BitVec.toNat_inj, ← BitVec.toNat_inj, BitVec.toNat_shiftLeft, Nat.shiftLeft_eq]
  change field.toNat * 4 % 65536 = 12 ↔ field.toNat = 3
  omega

theorem intiFlags_eq (flags : BitVec 16) : intiFlags flags = wired flags := by
  unfold intiFlags wired
  dsimp only
  by_cases htrigger : flags &&& triggerMask = triggerLevel
  · rw [if_pos htrigger, if_pos ((trigger_iff flags).mp htrigger)]
    rfl
  · rw [if_neg htrigger, if_neg (mt (trigger_iff flags).mpr htrigger)]
    exact BitVec.or_zero.symm

theorem routed_eq (acpi : AcpiState) (irq : UInt8) (masked : Bool) : routed acpi irq masked =
    setUp (0x20 + irq) (intiFlags (isaIrqToGsi acpi irq).2 ||| if masked then ioapicMasked else 0) := by
  have hflags : (isaIrqToGsi acpi irq).2 = overrideFlags acpi irq := by
    rw [isaIrqToGsi, overrideFlags]
    cases (overrides acpi).find? fun o => o.isaIrq = irq <;> rfl
  rw [hflags, intiFlags_eq]
  rfl

theorem intiFlags_and (flags : BitVec 16) {mask : BitVec 32} (hlow : ioapicActiveLow &&& mask = ioapicActiveLow)
    (hlevel : ioapicLevelTriggered &&& mask = ioapicLevelTriggered) : intiFlags flags &&& mask = intiFlags flags := by
  have hzero : (0 : BitVec 32) &&& mask = 0 := BitVec.zero_and
  unfold intiFlags
  dsimp only
  split_ifs
  · rw [BitVec.and_or_distrib_right, hlow, hlevel]
  · rw [BitVec.and_or_distrib_right, hlevel, hzero]
  · exact hlow
  · exact hzero

theorem vector_and (vector : UInt8) {mask : BitVec 32} (h : mask.setWidth 8 = BitVec.allOnes 8) :
    vector.toBitVec.setWidth 32 &&& mask = vector.toBitVec.setWidth 32 := by
  ext k hk
  rw [BitVec.getElem_and, BitVec.getElem_setWidth]
  by_cases hlow : k < 8
  · have hbit : (mask.setWidth 8).getLsbD k = true := by
      rw [h, BitVec.getLsbD_allOnes, decide_eq_true hlow]
    rw [BitVec.getLsbD_setWidth, Bool.and_eq_true] at hbit
    have hset : mask[k] = true := by
      rw [← BitVec.getLsbD_eq_getElem]
      exact hbit.2
    rw [hset, Bool.and_true]
  · rw [BitVec.getLsbD_of_ge _ _ (Nat.not_lt.mp hlow), Bool.false_and]

theorem setUp_and (vector : UInt8) {bits : BitVec 32} (h : bits &&& lowBits = bits) :
    (vector.toBitVec.setWidth 32 ||| bits) &&& lowBits = vector.toBitVec.setWidth 32 ||| bits := by
  rw [BitVec.and_or_distrib_right, vector_and vector (by decide), h]

theorem routed_bits (flags : BitVec 16) (masked : Bool) :
    (intiFlags flags ||| if masked then ioapicMasked else 0) &&& lowBits =
      intiFlags flags ||| if masked then ioapicMasked else 0 := by
  rw [BitVec.and_or_distrib_right, intiFlags_and flags (by decide) (by decide)]
  cases masked with
  | false => rfl
  | true => rfl

end Bits

section SetUp

variable {acpi : AcpiState} {s : ApicState} {entries : BitVec 32} {n pin : ℕ} {l : List InterruptOverride}

theorem entry_setUp (hpin : pin < s.entries) (hlt : pin < 120) (vector : UInt8) {bits : BitVec 32}
    (hbits : bits &&& lowBits = bits) :
    (writeRedirection (BitVec.ofNat 32 pin) vector 0 bits s).entry pin = setUp vector bits := by
  have hdest : (0 : UInt8).toBitVec.setWidth 32 <<< 24 &&& highBits = 0 := by decide
  rw [entry_writeRedirection hpin hlt, setUp_and vector hbits, hdest]
  rfl

theorem entry_maskEntries (hn : n ≤ s.entries) (hlt : n ≤ 120) (hpin : pin < n) :
    (maskEntries n s).entry pin = setUp (0x20 + UInt8.ofNat pin) ioapicMasked := by
  induction n with
  | zero => exact absurd hpin (Nat.not_lt_zero _)
  | succ n ih =>
    have hsplit : maskEntries (n + 1) s =
        writeRedirection (BitVec.ofNat 32 n) (0x20 + UInt8.ofNat n) 0 ioapicMasked (maskEntries n s) := by
      rw [maskEntries, List.range_succ, List.foldl_append]
      rfl
    obtain ⟨ws, hwrites⟩ := writes_maskEntries n s
    rw [hsplit]
    by_cases he : pin = n
    · subst he
      exact entry_setUp (by rw [hwrites.entries]; omega) (by omega) _ (by decide)
    · rw [entry_writeRedirection_other (by omega) (by omega) he]
      exact ih (by omega) (by omega) (by omega)

theorem applyOverride_zero (s : ApicState) (o : InterruptOverride) : applyOverride 0 entries s o =
    if o.gsi.toNat < entries.toNat then
      writeRedirection (BitVec.ofNat 32 o.gsi.toNat) (0x20 + o.isaIrq) 0 (ioapicMasked ||| intiFlags o.flags) s
    else s := by
  have hsub : o.gsi - 0 = o.gsi := BitVec.sub_zero _
  have hpos : (0 : BitVec 32).toNat ≤ o.gsi.toNat := Nat.zero_le _
  rw [applyOverride, hsub, BitVec.ofNat_toNat, BitVec.setWidth_eq]
  by_cases h : o.gsi.toNat < entries.toNat
  · rw [if_pos h, if_pos ⟨hpos, h⟩]
  · rw [if_neg h, if_neg fun hc => h hc.2]

theorem entry_overrides (hentries : entries.toNat = s.entries) (hsize : s.entries ≤ 120) (hpin : pin < s.entries)
    (hsingle : (l.map InterruptOverride.gsi).Nodup) : (l.foldl (applyOverride 0 entries) s).entry pin =
      match l.find? fun o => o.gsi.toNat = pin with
      | some o => setUp (0x20 + o.isaIrq) (intiFlags o.flags ||| ioapicMasked)
      | none => s.entry pin := by
  induction l generalizing s with
  | nil => rfl
  | cons o l ih =>
    rw [List.map_cons, List.nodup_cons] at hsingle
    obtain ⟨ws, hwrites⟩ := writes_applyOverride 0 entries s o
    have hkept := hwrites.entries
    rw [List.foldl_cons, ih (by rw [hkept]; exact hentries) (by rw [hkept]; exact hsize) (by rw [hkept]; exact hpin) hsingle.2]
    by_cases he : o.gsi.toNat = pin
    · have hnone : l.find? (fun o => o.gsi.toNat = pin) = none := by
        rw [List.find?_eq_none]
        intro o' ho' hsame
        have hgsi : o'.gsi = o.gsi := BitVec.eq_of_toNat_eq ((of_decide_eq_true hsame).trans he.symm)
        exact hsingle.1 (hgsi ▸ List.mem_map_of_mem ho')
      have hfound : (o :: l).find? (fun o => o.gsi.toNat = pin) = some o := List.find?_cons_of_pos (decide_eq_true he)
      rw [hnone, hfound]
      dsimp only
      rw [applyOverride_zero, if_pos (by omega), he, BitVec.or_comm ioapicMasked]
      exact entry_setUp hpin (by omega) _ (routed_bits o.flags true)
    · have hother : (applyOverride 0 entries s o).entry pin = s.entry pin := by
        rw [applyOverride_zero]
        split_ifs with hin
        · exact entry_writeRedirection_other (by omega) (by omega) (Ne.symm he) _ _ _
        · rfl
      rw [List.find?_cons_of_neg (by simpa using he), hother]

theorem entry_initIoapic (hbase : s.ioapicGsiBase = 0) (hsize : s.entries ≤ 120) (hpin : pin < s.entries)
    (hsingle : ((overrides acpi).map InterruptOverride.gsi).Nodup) :
    (initIoapic acpi s).entry pin = initial acpi pin := by
  have hread := writes_ioapicRead 0x01 s
  have hcount : (maxEntries (ioapicRead 0x01 s).1).toNat = s.entries := by
    rw [ioapicRead_value]
    rfl
  obtain ⟨ws, hmasked⟩ := writes_maskEntries s.entries (ioapicRead 0x01 s).2
  have hentries := hmasked.entries.trans hread.entries
  change ((overrides acpi).foldl (applyOverride (ioapicRead 0x01 s).2.ioapicGsiBase (maxEntries (ioapicRead 0x01 s).1))
    (maskEntries (maxEntries (ioapicRead 0x01 s).1).toNat (ioapicRead 0x01 s).2)).entry pin = _
  rw [hread.gsiBase, hbase, hcount, entry_overrides (hcount.trans hentries.symm) (by omega) (by omega) hsingle,
    entry_maskEntries hread.entries.ge hsize hpin, initial]

end SetUp

def gsiOf (acpi : AcpiState) (irq : UInt8) : ℕ := (isaIrqToGsi acpi irq).1.toNat

/-- The GSI of the IRQ has an entry, and no override of another IRQ is for it. -/
structure Served (acpi : AcpiState) (entries : ℕ) (irq : UInt8) : Prop where
  entry : gsiOf acpi irq < entries
  own : ∀ o ∈ overrides acpi, o.gsi.toNat = gsiOf acpi irq → o.isaIrq = irq

section Lookup

variable {acpi : AcpiState} {entries : ℕ} {irq other : UInt8}

/-- The looked up GSI and flags come from an override of the IRQ, or there is none. -/
theorem isaIrqToGsi_cases (acpi : AcpiState) (irq : UInt8) :
    (∃ o ∈ overrides acpi, o.isaIrq = irq ∧ isaIrqToGsi acpi irq = (o.gsi, o.flags)) ∨
      (∀ o ∈ overrides acpi, o.isaIrq ≠ irq) ∧ isaIrqToGsi acpi irq = (BitVec.ofNat 32 irq.toNat, 0) := by
  rw [isaIrqToGsi]
  cases hfind : (overrides acpi).find? fun o => o.isaIrq = irq with
  | some o =>
    have hirq := List.find?_some hfind
    exact .inl ⟨o, List.mem_of_find?_eq_some hfind, of_decide_eq_true hirq, rfl⟩
  | none =>
    refine .inr ⟨fun o ho hirq => ?_, rfl⟩
    exact List.find?_eq_none.mp hfind o ho (decide_eq_true hirq)

theorem gsiOf_identity (h : isaIrqToGsi acpi irq = (BitVec.ofNat 32 irq.toNat, 0)) : gsiOf acpi irq = irq.toNat := by
  have hlt := irq.toNat_lt
  rw [gsiOf, h, BitVec.toNat_ofNat]
  omega

theorem initial_served (hsingle : ((overrides acpi).map InterruptOverride.gsi).Nodup) (h : Served acpi entries irq) :
    initial acpi (gsiOf acpi irq) = routed acpi irq true := by
  rw [initial, routed_eq]
  cases hfind : (overrides acpi).find? fun o => o.gsi.toNat = gsiOf acpi irq with
  | some o =>
    have hmem := List.mem_of_find?_eq_some hfind
    have hmatch := List.find?_some hfind
    have hgsi : o.gsi.toNat = gsiOf acpi irq := of_decide_eq_true hmatch
    have hown := h.own o hmem hgsi
    cases isaIrqToGsi_cases acpi irq with
    | inl hover =>
      obtain ⟨o', hmem', hirq', hlookup⟩ := hover
      have hsame : o'.gsi = o.gsi := by
        apply BitVec.eq_of_toNat_eq
        rw [hgsi, gsiOf, hlookup]
      have heq : o' = o := List.inj_on_of_nodup_map hsingle hmem' hmem hsame
      rw [hlookup, heq, ← hown]
      rfl
    | inr hnone => exact absurd hown (hnone.1 o hmem)
  | none =>
    have hout := List.find?_eq_none.mp hfind
    cases isaIrqToGsi_cases acpi irq with
    | inl hover =>
      obtain ⟨o, hmem, -, hlookup⟩ := hover
      have hgsi : o.gsi.toNat = gsiOf acpi irq := by rw [gsiOf, hlookup]
      exact absurd (decide_eq_true hgsi) (hout o hmem)
    | inr hnone =>
      have hbits : ioapicMasked = intiFlags 0 ||| ioapicMasked := by decide
      rw [hnone.2, gsiOf_identity hnone.2, UInt8.ofNat_toNat]
      exact congrArg (setUp (0x20 + irq)) hbits

/-- Different IRQs have different entries. -/
theorem Served.gsiOf_ne (h : Served acpi entries irq) (h' : Served acpi entries other) (hne : other ≠ irq) :
    gsiOf acpi other ≠ gsiOf acpi irq := by
  intro he
  cases isaIrqToGsi_cases acpi other with
  | inl hover =>
    obtain ⟨o, hmem, hirq, hlookup⟩ := hover
    have hgsi : o.gsi.toNat = gsiOf acpi irq := by rw [← he, gsiOf, hlookup]
    exact hne (hirq.symm.trans (h.own o hmem hgsi))
  | inr hnone =>
    cases isaIrqToGsi_cases acpi irq with
    | inl hover =>
      obtain ⟨o, hmem, hirq, hlookup⟩ := hover
      have hgsi : o.gsi.toNat = gsiOf acpi other := by rw [he, gsiOf, hlookup]
      exact hne ((h'.own o hmem hgsi).symm.trans hirq)
    | inr hnone' =>
      rw [gsiOf_identity hnone.2, gsiOf_identity hnone'.2] at he
      exact hne (UInt8.toNat_inj.mp he)

end Lookup

section Masking

variable {acpi : AcpiState} {s : ApicState} {irq other : UInt8} {pin : ℕ} {masks : UInt8 → Bool}

theorem isaIrqPin_zero (hbase : s.ioapicGsiBase = 0) :
    isaIrqPin acpi irq s = BitVec.ofNat 32 (gsiOf acpi irq) := by
  have hsub : (isaIrqToGsi acpi irq).1 - 0 = (isaIrqToGsi acpi irq).1 := BitVec.sub_zero _
  rw [isaIrqPin, hbase, hsub, gsiOf, BitVec.ofNat_toNat, BitVec.setWidth_eq]

/-- Masking moves between the two forms of an entry. -/
theorem withMask_routed (acpi : AcpiState) (irq : UInt8) (masked masked' : Bool) :
    withMask masked (routed acpi irq masked').1 = (routed acpi irq masked).1 := by
  have hvector : ((0x20 + irq).toBitVec.setWidth 32).getLsbD 16 = false := by
    rw [BitVec.getLsbD_setWidth, BitVec.getLsbD_of_ge _ _ (by decide), Bool.and_false]
  have hflags : (intiFlags (isaIrqToGsi acpi irq).2).getLsbD 16 = false := by
    rw [← intiFlags_and (isaIrqToGsi acpi irq).2 (by decide : ioapicActiveLow &&& ~~~ioapicMasked = _) (by decide),
      BitVec.getLsbD_and, BitVec.getLsbD_not, ioapicMasked_bit, decide_eq_true rfl, Bool.not_true, Bool.and_false,
      Bool.and_false]
  apply BitVec.eq_of_getLsbD_eq
  intro k hk
  have hbit (b : Bool) : (routed acpi irq b).1.getLsbD k = (((0x20 + irq).toBitVec.setWidth 32).getLsbD k ||
      ((intiFlags (isaIrqToGsi acpi irq).2).getLsbD k || (b && decide (16 = k)))) := by
    rw [routed_eq, setUp, BitVec.getLsbD_or, BitVec.getLsbD_or]
    cases b with
    | true => rw [if_pos rfl, ioapicMasked_bit, Bool.true_and]
    | false => rw [if_neg Bool.false_ne_true, Bool.false_and, BitVec.ofNat_eq_ofNat, BitVec.getLsbD_zero]
  rw [withMask_bit hk, hbit, hbit]
  split_ifs with he
  · rw [← he, hvector, hflags, Bool.false_or, Bool.false_or, decide_eq_true rfl, Bool.and_true]
  · rw [decide_eq_false he, Bool.and_false, Bool.and_false]

/-- Whether the last call for the IRQ masked it; it is masked from the start. -/
def lastMasked (calls : List (UInt8 × Bool)) (irq : UInt8) : Bool :=
  calls.foldl (fun masked c => if c.1 = irq then c.2 else masked) true

variable {c : UInt8 × Bool} {calls : List (UInt8 × Bool)}

theorem entry_setMask_other (hbase : s.ioapicGsiBase = 0) (hlt : gsiOf acpi c.1 < 120) (hpin : pin < 120)
    (hne : pin ≠ gsiOf acpi c.1) : (setMask acpi s c).entry pin = s.entry pin := by
  have hwrites := writes_setMask acpi s c
  rw [isaIrqPin_zero hbase] at hwrites
  apply hwrites.entry_other _ hlt hpin hne
  intro reg hreg
  exact .inl (List.mem_singleton.mp hreg)

theorem routed_setMask (hbase : s.ioapicGsiBase = 0) (hentry : gsiOf acpi c.1 < s.entries) (hlt : gsiOf acpi c.1 < 120)
    {masked : Bool} (h : s.entry (gsiOf acpi c.1) = routed acpi c.1 masked) :
    (setMask acpi s c).entry (gsiOf acpi c.1) = routed acpi c.1 c.2 := by
  rw [entry_setMask (isaIrqPin_zero hbase) hentry hlt, h, withMask_routed]
  rfl

/-- Every served IRQ has its own entry, masked or not as recorded. -/
structure Routed (acpi : AcpiState) (entries : ℕ) (masks : UInt8 → Bool) (s : ApicState) : Prop where
  base : s.ioapicGsiBase = 0
  size : s.entries = entries
  entry : ∀ irq, Served acpi entries irq → s.entry (gsiOf acpi irq) = routed acpi irq (masks irq)

theorem Routed.step {entries : ℕ} (h : Routed acpi entries masks s) (hsize : entries ≤ 120)
    (hc : Served acpi entries c.1) :
    Routed acpi entries (fun irq => if c.1 = irq then c.2 else masks irq) (setMask acpi s c) := by
  have hwrites := writes_setMask acpi s c
  have hlt := hc.entry.trans_le hsize
  refine ⟨hwrites.gsiBase.trans h.base, hwrites.entries.trans h.size, fun irq hirq => ?_⟩
  by_cases he : c.1 = irq
  · subst he
    rw [if_pos rfl]
    exact routed_setMask h.base (by rw [h.size]; exact hc.entry) hlt (h.entry _ hc)
  · rw [if_neg he, entry_setMask_other h.base hlt (hirq.entry.trans_le hsize) (hc.gsiOf_ne hirq (Ne.symm he))]
    exact h.entry irq hirq

theorem Routed.run {entries : ℕ} (h : Routed acpi entries masks s) (hsize : entries ≤ 120)
    (hcalls : ∀ c ∈ calls, Served acpi entries c.1) :
    Routed acpi entries (fun irq => calls.foldl (fun masked c => if c.1 = irq then c.2 else masked) (masks irq))
        (calls.foldl (setMask acpi) s) ∧
      ∀ pin < entries, (∀ c ∈ calls, gsiOf acpi c.1 ≠ pin) → (calls.foldl (setMask acpi) s).entry pin = s.entry pin := by
  induction calls generalizing s masks with
  | nil => exact ⟨h, fun _ _ _ => rfl⟩
  | cons c calls ih =>
    have hc := hcalls c List.mem_cons_self
    obtain ⟨hrouted, hothers⟩ := ih (h.step hsize hc) fun c' hc' => hcalls c' (List.mem_cons_of_mem c hc')
    refine ⟨hrouted, fun pin hpin hne => ?_⟩
    rw [List.foldl_cons, hothers pin hpin fun c' hc' => hne c' (List.mem_cons_of_mem c hc')]
    exact entry_setMask_other h.base (hc.entry.trans_le hsize) (by omega) (hne c List.mem_cons_self).symm

end Masking

section Main

variable (acpi : AcpiState)

theorem routed_initIoapic {s : ApicState} (hbase : s.ioapicGsiBase = 0) (hsize : s.entries ≤ 120)
    (hsingle : ((overrides acpi).map InterruptOverride.gsi).Nodup) :
    Routed acpi s.entries (fun _ => true) (initIoapic acpi s) := by
  obtain ⟨ws, hwrites⟩ := writes_initIoapic acpi s
  refine ⟨hwrites.gsiBase.trans hbase, hwrites.entries, fun irq hirq => ?_⟩
  rw [entry_initIoapic hbase hsize hirq.entry hsingle, initial_served hsingle hirq]

theorem initial_masked (pin : ℕ) : (initial acpi pin).1.getLsbD 16 = true := by
  have hmask : ioapicMasked.getLsbD 16 = true := by decide
  rw [initial]
  cases (overrides acpi).find? fun o => o.gsi.toNat = pin with
  | some o =>
    change (_ ||| (_ ||| ioapicMasked)).getLsbD 16 = true
    rw [BitVec.getLsbD_or, BitVec.getLsbD_or, hmask, Bool.or_true, Bool.or_true]
  | none =>
    change (_ ||| ioapicMasked).getLsbD 16 = true
    rw [BitVec.getLsbD_or, hmask, Bool.or_true]

/-- Routing a masked IRQ again to its own vector writes what is there. -/
theorem routeIrq_unchanged {entries : ℕ} {s : ApicState} {irq : UInt8} (h : Routed acpi entries (fun _ => true) s)
    (hsize : entries ≤ 120) (hirq : Served acpi entries irq) (a : U64) (reg : BitVec 8) :
    ((routeIrq acpi irq (0x20 + irq) 0 true s).chips a).regs.value reg = (s.chips a).regs.value reg := by
  have hwrites := writes_routeIrq acpi irq (0x20 + irq) 0 true s
  have hpin : gsiOf acpi irq < s.entries := by
    rw [h.size]
    exact hirq.entry
  have hlt := hirq.entry.trans_le hsize
  have hentry := h.entry irq hirq
  rw [routed_eq] at hentry
  have hlow : s.regs.value (regLow (BitVec.ofNat 32 (gsiOf acpi irq))) &&& lowBits = routedLow acpi irq (0x20 + irq) true :=
    congrArg Prod.fst hentry
  have hhigh : s.regs.value (regHigh (BitVec.ofNat 32 (gsiOf acpi irq))) &&& highBits = 0 := congrArg Prod.snd hentry
  have hdest : (0 : UInt8).toBitVec.setWidth 32 <<< 24 &&& highBits = 0 := by decide
  rw [isaIrqPin_zero h.base] at hwrites
  apply hwrites.unchanged (nodup_regs _ _ _)
  rw [List.forall_mem_cons, List.forall_mem_singleton]
  constructor
  · rw [RegisterFile.Agrees, writable_low hpin hlt, hlow, ← hlow, BitVec.and_assoc, BitVec.and_self]
  · rw [RegisterFile.Agrees, writable_high hpin hlt, hhigh, hdest]

/-- The set-up and the routing by IRQ agree. After `init_ioapic` every IRQ with an entry of its own is routed there,
masked; routing it once more changes no register of any chip. However such IRQs are masked and unmasked after that,
each of their entries is masked as in the last call for it, and all other entries still are. -/
theorem routing_agrees (chips : U64 → Chip) (before : List Call)
    (hsize : (run acpi before (ApicState.new chips)).entries ≤ 120)
    (hsingle : ((overrides acpi).map InterruptOverride.gsi).Nodup) :
    let s := run acpi before (ApicState.new chips)
    (∀ irq, Served acpi s.entries irq → (initIoapic acpi s).entry (gsiOf acpi irq) = routed acpi irq true ∧
      ∀ a reg, ((routeIrq acpi irq (0x20 + irq) 0 true (initIoapic acpi s)).chips a).regs.value reg =
        ((initIoapic acpi s).chips a).regs.value reg) ∧
    ∀ calls, (∀ c ∈ calls, Served acpi s.entries c.1) →
      (∀ irq, Served acpi s.entries irq →
        (calls.foldl (setMask acpi) (initIoapic acpi s)).entry (gsiOf acpi irq) = routed acpi irq (lastMasked calls irq)) ∧
      ∀ pin < s.entries, (∀ c ∈ calls, gsiOf acpi c.1 ≠ pin) →
        ((calls.foldl (setMask acpi) (initIoapic acpi s)).entry pin).1.getLsbD 16 = true := by
  intro s
  have hbase : s.ioapicGsiBase = 0 := gsiBase_run before rfl
  have hrouted := routed_initIoapic acpi hbase hsize hsingle
  constructor
  · intro irq hirq
    exact ⟨hrouted.entry irq hirq, routeIrq_unchanged acpi hrouted hsize hirq⟩
  · intro calls hcalls
    obtain ⟨hrun, hothers⟩ := hrouted.run hsize hcalls
    refine ⟨hrun.entry, fun pin hpin hne => ?_⟩
    rw [hothers pin hpin hne, entry_initIoapic hbase hsize hpin hsingle]
    exact initial_masked acpi pin

end Main

def sampleChip : Chip where
  select := 0
  regs := ⟨writableBits 24, fun reg => if reg = 1 then 0x00170020 else 0⟩
  documented := rfl

/-- IRQ 0 arrives at GSI 2, and IRQ 9 is level triggered and active low. -/
def sampleAcpi : AcpiState := ⟨0, ⟨0xFEE00000, true, [0], [⟨0, 0xFEC00000, 0⟩], [⟨0, 2, 0⟩, ⟨9, 9, 0xF⟩]⟩, true⟩

theorem routing_agrees_sample :
    let s := run sampleAcpi [.configureFromAcpi] (ApicState.new fun _ => sampleChip)
    (initIoapic sampleAcpi s).entry 2 = (0x10020, 0) ∧ (initIoapic sampleAcpi s).entry 9 = (0x1A029, 0) ∧
      ([(9, false), (0, false), (0, true)].foldl (setMask sampleAcpi) (initIoapic sampleAcpi s)).entry 9 = (0x0A029, 0) := by
  have hzero : Served sampleAcpi 24 0 := ⟨by decide, by decide⟩
  have hnine : Served sampleAcpi 24 9 := ⟨by decide, by decide⟩
  obtain ⟨hinit, hcalls⟩ := routing_agrees sampleAcpi (fun _ => sampleChip) [.configureFromAcpi] (by decide) (by decide)
  have hrun := (hcalls [(9, false), (0, false), (0, true)] fun c hc => by
    simp only [List.mem_cons, List.not_mem_nil, or_false] at hc
    obtain rfl | rfl | rfl := hc
    · exact hnine
    · exact hzero
    · exact hzero).1 9 hnine
  exact ⟨(hinit 0 hzero).1, (hinit 9 hnine).1, hrun⟩

end VenturaOS.Apic
