import VenturaOS.Timer.Model

/-!
# Starting the timer

Whatever the PIT and the counter answer, the timer is silent until the last
register is written, and then runs with a count that is not zero. The count is
the measured one if the PIT's output went high in time.
-/
namespace VenturaOS.Timer
open Idt

section Wait

variable {gate : ℕ → BitVec 8} {left n : ℕ} {r : TimerRegs}

/-- The loop ends with a high output exactly if one of the reads that are allowed is high. -/
theorem waitPit_high : (waitPit gate left n).1 = true ↔ ∃ i ≤ left, gate (n + i) &&& 0x20 ≠ 0 := by
  induction left generalizing n with
  | zero =>
    rw [waitPit, decide_eq_true_iff]
    constructor
    · intro h
      exact ⟨0, le_rfl, h⟩
    · rintro ⟨i, hi, h⟩
      rw [Nat.le_zero.mp hi] at h
      exact h
  | succ left ih =>
    rw [waitPit]
    split_ifs with hgate
    · exact iff_of_true rfl ⟨0, Nat.zero_le _, hgate⟩
    · simp only
      rw [ih]
      constructor
      · rintro ⟨i, hi, h⟩
        rw [Nat.add_right_comm, Nat.add_assoc] at h
        exact ⟨i + 1, by omega, h⟩
      · rintro ⟨i, hi, h⟩
        cases i with
        | zero => exact absurd h hgate
        | succ i =>
          refine ⟨i, by omega, ?_⟩
          rw [Nat.add_right_comm, Nat.add_assoc]
          exact h

theorem waitPit_reads : ∀ io ∈ (waitPit gate left n).2, ∃ value, io = .inb pitGatePort value := by
  induction left generalizing n with
  | zero =>
    intro io hio
    exact ⟨_, List.mem_singleton.mp hio⟩
  | succ left ih =>
    rw [waitPit]
    split_ifs
    · intro io hio
      exact ⟨_, List.mem_singleton.mp hio⟩
    · intro io hio
      cases List.mem_cons.mp hio with
      | inl heq => exact ⟨_, heq⟩
      | inr hmem => exact ih io hmem

end Wait

namespace TimerRegs

variable {r : TimerRegs} {ios ios' : List Io}

theorem silent_append : r.Silent (ios ++ ios') ↔ r.Silent ios ∧ (ios.foldl apply r).Silent ios' := by
  induction ios generalizing r with
  | nil => exact (Iff.of_eq (true_and _)).symm
  | cons io ios ih =>
    change (¬r.Fires ∧ (r.apply io).Silent (ios ++ ios')) ↔ (¬r.Fires ∧ (r.apply io).Silent ios) ∧ _
    rw [ih, and_assoc]
    rfl

/-- Reads of ports change no register. -/
theorem foldl_reads (h : ∀ io ∈ ios, ∃ port value, io = .inb port value) : ios.foldl apply r = r := by
  induction ios with
  | nil => rfl
  | cons io ios ih =>
    obtain ⟨port, value, rfl⟩ := h io List.mem_cons_self
    exact ih fun io hio => h io (List.mem_cons_of_mem _ hio)

theorem silent_reads (h : ∀ io ∈ ios, ∃ port value, io = .inb port value) (hr : ¬r.Fires) : r.Silent ios := by
  induction ios with
  | nil => trivial
  | cons io ios ih =>
    obtain ⟨port, value, rfl⟩ := h io List.mem_cons_self
    exact ⟨hr, ih fun io hio => h io (List.mem_cons_of_mem _ hio)⟩

end TimerRegs

section Calibrate

variable {h : Hardware} {r : TimerRegs}

/-- The registers while the loop waits: the timer counts down from the top, and its entry is masked. -/
def calibrating : TimerRegs := ⟨timerDivide16, 0x00010020, 0xFFFFFFFF⟩

theorem foldl_startCalibration : (startCalibration h).foldl TimerRegs.apply r = calibrating := rfl

theorem silent_startCalibration (hr : ¬r.Fires) : r.Silent (startCalibration h) := by
  have hdivided : ¬({ r with dcr := timerDivide16 } : TimerRegs).Fires := hr
  have hmasked : ¬(TimerRegs.mk timerDivide16 0x00010020 r.icr).Fires := by
    rintro ⟨-, hmask⟩
    change (0x00010020#32).getLsbD 16 = false at hmask
    exact absurd hmask (by decide)
  exact ⟨hr, hr, hr, hr, hr, hr, hr, hr, hr, hdivided, hmasked, trivial⟩

/-- What the calibration does, given whether the output went high. -/
theorem calibrateLapicTimer_io (h : Hardware) : ∃ polls last, (calibrateLapicTimer h).2 =
    startCalibration h ++ polls ++ last ++ [.lapicWrite lapicTimerIcr 0] ∧
      (∀ io ∈ polls, ∃ port value, io = Io.inb port value) ∧ (last = [] ∨ last = [.lapicRead lapicTimerCcr h.ccr]) := by
  have hpolls : ∀ io ∈ (waitPit h.gate pitWaitLimit 2).2, ∃ port value, io = Io.inb port value := by
    intro io hio
    obtain ⟨value, hvalue⟩ := waitPit_reads io hio
    exact ⟨_, value, hvalue⟩
  refine ⟨(waitPit h.gate pitWaitLimit 2).2, if (waitPit h.gate pitWaitLimit 2).1 then [.lapicRead lapicTimerCcr h.ccr] else [],
    ?_, hpolls, ?_⟩
  · unfold calibrateLapicTimer
    generalize waitPit h.gate pitWaitLimit 2 = waited
    simp only
    split_ifs
    · rw [List.append_assoc _ _ [Io.lapicWrite lapicTimerIcr 0]]
      rfl
    · rw [List.append_assoc _ _ [Io.lapicWrite lapicTimerIcr 0]]
      rfl
    · rw [List.append_nil]
  · split_ifs
    · exact .inr rfl
    · exact .inl rfl

/-- The registers behind the calibration: the count is stopped. -/
def calibrated : TimerRegs := ⟨timerDivide16, 0x00010020, 0⟩

theorem foldl_calibrate (h : Hardware) : (calibrateLapicTimer h).2.foldl TimerRegs.apply r = calibrated := by
  obtain ⟨polls, last, hio, hpolls, hlast⟩ := calibrateLapicTimer_io h
  rw [hio, List.foldl_append, List.foldl_append, List.foldl_append, foldl_startCalibration, TimerRegs.foldl_reads hpolls]
  rcases hlast with rfl | rfl <;> rfl

theorem silent_calibrate (h : Hardware) (hr : ¬r.Fires) : r.Silent (calibrateLapicTimer h).2 := by
  obtain ⟨polls, last, hio, hpolls, hlast⟩ := calibrateLapicTimer_io h
  have hquiet : ¬calibrating.Fires := by decide
  rw [hio, TimerRegs.silent_append, TimerRegs.silent_append, TimerRegs.silent_append, List.foldl_append, List.foldl_append,
    foldl_startCalibration, TimerRegs.foldl_reads hpolls]
  refine ⟨⟨⟨silent_startCalibration hr, TimerRegs.silent_reads hpolls hquiet⟩, ?_⟩, ?_⟩
  · rcases hlast with rfl | rfl
    · trivial
    · exact ⟨hquiet, trivial⟩
  · rw [List.foldl_append, foldl_startCalibration, TimerRegs.foldl_reads hpolls]
    rcases hlast with rfl | rfl
    · exact ⟨hquiet, trivial⟩
    · exact ⟨hquiet, trivial⟩

/-- The output went high within the reads that are allowed, and the counter has moved. -/
def Measured (h : Hardware) : Prop := (∃ i ≤ pitWaitLimit, h.gate (2 + i) &&& 0x20 ≠ 0) ∧ h.ccr ≠ 0xFFFFFFFF

theorem calibrate_none (hm : ¬Measured h) : (calibrateLapicTimer h).1 = none := by
  unfold calibrateLapicTimer
  simp only
  split_ifs with hhigh hzero
  · rfl
  · refine absurd ⟨waitPit_high.mp hhigh, fun hccr => hzero ?_⟩ hm
    rw [hccr]
    rfl
  · rfl

theorem calibrate_some (hm : Measured h) :
    ∃ rate, (calibrateLapicTimer h).1 = some rate ∧ rate.toNat = 20 * (2 ^ 32 - 1 - h.ccr.toNat) := by
  have hlt := h.ccr.isLt
  have helapsed : (0xFFFFFFFF#32 - h.ccr).toNat = 2 ^ 32 - 1 - h.ccr.toNat := by bv_omega
  have hmoved : 0xFFFFFFFF#32 - h.ccr ≠ 0 := by
    intro hzero
    apply hm.2
    rw [hzero] at helapsed
    apply BitVec.eq_of_toNat_eq
    change h.ccr.toNat = 2 ^ 32 - 1
    change 0 = _ at helapsed
    omega
  refine ⟨(0xFFFFFFFF#32 - h.ccr).setWidth 64 * pitCalibrationHz, ?_, ?_⟩
  · unfold calibrateLapicTimer
    simp only
    rw [if_pos (waitPit_high.mpr hm.1), if_neg hmoved]
  · rw [BitVec.toNat_mul, BitVec.toNat_setWidth, helapsed]
    change (2 ^ 32 - 1 - h.ccr.toNat) % 2 ^ 64 * 20 % 2 ^ 64 = _
    omega

/-- A tick takes a fifth of what was counted in the window of a twentieth of a second; the upper bound of the
clamp is never reached. -/
theorem initial_toNat {rate : U64} {elapsed : ℕ} (hrate : rate.toNat = 20 * elapsed) (hlt : elapsed < 2 ^ 32) :
    ((clamp (rate / timerHz) 1 0xFFFFFFFF).setWidth 32).toNat = max 1 (elapsed / 5) := by
  have hdiv : (rate / timerHz).toNat = elapsed / 5 := by
    rw [BitVec.toNat_udiv, hrate]
    change 20 * elapsed / 100 = _
    omega
  have hhigh : ¬(0xFFFFFFFF < rate / timerHz) := by
    rw [BitVec.lt_def, hdiv]
    change ¬(4294967295 < _)
    omega
  have hlow : rate / timerHz < 1 ↔ elapsed / 5 < 1 := by
    rw [BitVec.lt_def, hdiv]
    rfl
  unfold clamp
  rw [if_neg hhigh]
  split_ifs with hone
  · have hsmall := hlow.mp hone
    rw [max_eq_left (by omega)]
    rfl
  · have hbig := mt hlow.mpr hone
    rw [BitVec.toNat_setWidth, hdiv, max_eq_right (by omega)]
    omega

end Calibrate

section Init

variable {E : Type} {h : Hardware} {r : TimerRegs} {k : Interrupts (Statics × E)}

theorem init_state (h : Hardware) (k : Interrupts (Statics × E)) :
    (init h k).2.irqHandlers 0 = some timerIrqHandler ∧ (init h k).2.drivers.1.ticks = k.drivers.1.ticks ∧
      ((Measured h → (init h k).2.drivers.1.initialCount.toNat = max 1 ((2 ^ 32 - 1 - h.ccr.toNat) / 5)) ∧
      (¬Measured h → (init h k).2.drivers.1.initialCount = k.drivers.1.initialCount)) := by
  have hregister : (registerIrq timerIrq timerIrqHandler k).2 =
      { k with irqHandlers := Function.update k.irqHandlers 0 (some timerIrqHandler) } := rfl
  unfold init
  rw [hregister]
  by_cases hm : Measured h
  · obtain ⟨rate, hsome, hrate⟩ := calibrate_some hm
    simp only [hsome]
    refine ⟨?_, rfl, fun _ => ?_, fun hnot => absurd hm hnot⟩
    · change Function.update k.irqHandlers 0 (some timerIrqHandler) 0 = _
      rw [Function.update_self]
    · exact initial_toNat hrate (by omega)
  · simp only [calibrate_none hm]
    refine ⟨?_, rfl, fun h => absurd h hm, fun _ => rfl⟩
    change Function.update k.irqHandlers 0 (some timerIrqHandler) 0 = _
    rw [Function.update_self]

theorem init_io (h : Hardware) (k : Interrupts (Statics × E)) : (init h k).1 = (calibrateLapicTimer h).2 ++
    startLapicTimer timerVector (init h k).2.drivers.1.initialCount timerDivide16 := by
  unfold init
  simp only
  cases (calibrateLapicTimer h).1 <;> rfl

/-- A timer that is silent stays so until the last access of `init`. Then it runs in periodic mode on its vector, with the
measured count or the one there was before, which is not zero; its handler is registered. -/
theorem timer_starts (h : Hardware) (hr : ¬r.Fires) (hcount : k.drivers.1.initialCount ≠ 0) :
    r.Silent (init h k).1 ∧
      (init h k).1.foldl TimerRegs.apply r = ⟨timerDivide16, 0x00020020, (init h k).2.drivers.1.initialCount⟩ ∧
      ((init h k).1.foldl TimerRegs.apply r).Fires ∧ (init h k).2.irqHandlers 0 = some timerIrqHandler ∧
      (Measured h → (init h k).2.drivers.1.initialCount.toNat = max 1 ((2 ^ 32 - 1 - h.ccr.toNat) / 5)) ∧
      (¬Measured h → (init h k).2.drivers.1.initialCount = k.drivers.1.initialCount) := by
  obtain ⟨hhandler, -, hmeasured, hfallback⟩ := init_state h k
  have hio := init_io h k
  generalize (init h k).2 = k' at hhandler hmeasured hfallback hio
  have hlast : (init h k).1.foldl TimerRegs.apply r = ⟨timerDivide16, 0x00020020, k'.drivers.1.initialCount⟩ := by
    rw [hio, List.foldl_append, foldl_calibrate]
    rfl
  have hcount' : k'.drivers.1.initialCount ≠ 0 := by
    by_cases hm : Measured h
    · intro hzero
      have hval := hmeasured hm
      rw [hzero] at hval
      change 0 = _ at hval
      omega
    · rw [hfallback hm]
      exact hcount
  refine ⟨?_, hlast, ?_, hhandler, hmeasured, hfallback⟩
  · rw [hio, TimerRegs.silent_append, foldl_calibrate]
    have hstopped : ¬calibrated.Fires := by decide
    have hunmasked : ¬(TimerRegs.mk timerDivide16 0x00020020 0).Fires := by decide
    exact ⟨silent_calibrate h hr, hstopped, hstopped, hunmasked, trivial⟩
  · rw [hlast]
    have hunmasked : (0x00020020#32).getLsbD 16 = false := by decide
    exact ⟨hcount', hunmasked⟩

end Init

/-- The output goes high at the fourth read, after 500 counts. -/
def sampleHardware : Hardware := ⟨fun n => if n = 5 then 0x20 else 0, 0xFFFFFE0B⟩

theorem timer_starts_sample : (init sampleHardware (.initial (.initial, ()))).2.drivers.1.initialCount.toNat = 100 := by
  obtain ⟨-, -, -, -, hmeasured, -⟩ := timer_starts (r := ⟨0, 0x00010000, 0⟩) (k := .initial (.initial, ())) sampleHardware
    (by decide) (by decide)
  exact hmeasured ⟨⟨3, by decide, by decide⟩, by decide⟩

end VenturaOS.Timer
