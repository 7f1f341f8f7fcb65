import VenturaOS.Idt.Dispatch

/-!
# The timer

`timer.rs`, and from `apic.rs` what starts the timer of the local APIC. What
ports and registers answer is the hardware's; each access is recorded, in the
order of the source.
-/
namespace VenturaOS.Timer
open Idt

def timerIrq : BitVec 8 := 0
def timerVector : BitVec 8 := 32
def timerHz : U64 := 100
def timerDivide16 : BitVec 32 := 0x03
def timerFallbackCount : BitVec 32 := 0x00100000
def pitFrequencyHz : U64 := 1193182
def pitCalibrationHz : U64 := 20
def pitChannel2Data : BitVec 16 := 0x42
def pitCommand : BitVec 16 := 0x43
def pitGatePort : BitVec 16 := 0x61
def pitWaitLimit : ℕ := 50000000

def lapicLvtTimer : BitVec 32 := 0x0320
def lapicTimerIcr : BitVec 32 := 0x0380
def lapicTimerCcr : BitVec 32 := 0x0390
def lapicTimerDcr : BitVec 32 := 0x03E0

structure Statics where
  ticks : U64
  initialCount : BitVec 32
deriving DecidableEq, Repr

def Statics.initial : Statics := ⟨0, timerFallbackCount⟩

def uptimeMs (t : Statics) : U64 := t.ticks * 1000 / timerHz

section Handler

variable {E : Type}

/-- The handler, among other drivers with a state of their own. -/
def timerIrqHandler : IrqHandler (Statics × E) := fun _ d =>
  let ticks := d.1.ticks + 1
  (({ d.1 with ticks := ticks }, d.2), if ticks % 100 = 0 then [s!"[TIMER] tick: {ticks.toNat}"] else [])

end Handler

/-- An access to a port or to a register of the local APIC. -/
inductive Io
  | inb (port : BitVec 16) (value : BitVec 8)
  | outb (port : BitVec 16) (value : BitVec 8)
  | lapicRead (reg : BitVec 32) (value : BitVec 32)
  | lapicWrite (reg : BitVec 32) (value : BitVec 32)
deriving DecidableEq, Repr

/-- What the hardware answers: each read of the gate port, and the timer's count when it is read. -/
structure Hardware where
  gate : ℕ → BitVec 8
  ccr : BitVec 32

/-- The waiting loop, from read `n` on, with `left` more reads allowed after a low one: whether the output went
high, and the reads. -/
def waitPit (gate : ℕ → BitVec 8) : (left n : ℕ) → Bool × List Io
  | 0, n => (gate n &&& 0x20 ≠ 0, [.inb pitGatePort (gate n)])
  | left + 1, n =>
    if gate n &&& 0x20 ≠ 0 then (true, [.inb pitGatePort (gate n)])
    else
      let rest := waitPit gate left (n + 1)
      (rest.1, .inb pitGatePort (gate n) :: rest.2)

/-- Steps 1 to 4 of `calibrate_lapic_timer`, up to the loop. -/
def startCalibration (h : Hardware) : List Io :=
  let gate := (h.gate 0 &&& ~~~0x02) ||| 0x01
  let reload : BitVec 16 := (pitFrequencyHz / pitCalibrationHz).setWidth 16
  let low := h.gate 1 &&& ~~~0x01
  [ .inb pitGatePort (h.gate 0), .outb pitGatePort gate, .outb pitCommand 0xB2,
    .outb pitChannel2Data ((reload &&& 0xFF).setWidth 8), .outb pitChannel2Data ((reload >>> 8).setWidth 8),
    .inb pitGatePort (h.gate 1), .outb pitGatePort low, .outb pitGatePort (low ||| 0x01),
    .lapicWrite lapicTimerDcr timerDivide16, .lapicWrite lapicLvtTimer (0x00010000 ||| timerVector.setWidth 32),
    .lapicWrite lapicTimerIcr 0xFFFFFFFF ]

def calibrateLapicTimer (h : Hardware) : Option U64 × List Io :=
  let waited := waitPit h.gate pitWaitLimit 2
  if waited.1 then
    let elapsed := 0xFFFFFFFF#32 - h.ccr
    let io := startCalibration h ++ waited.2 ++ [.lapicRead lapicTimerCcr h.ccr, .lapicWrite lapicTimerIcr 0]
    if elapsed = 0 then (none, io) else (some (elapsed.setWidth 64 * pitCalibrationHz), io)
  else (none, startCalibration h ++ waited.2 ++ [.lapicWrite lapicTimerIcr 0])

/-- `apic::start_lapic_timer`. -/
def startLapicTimer (vector : BitVec 8) (initialCount divideCfg : BitVec 32) : List Io :=
  [ .lapicWrite lapicTimerDcr divideCfg, .lapicWrite lapicLvtTimer (0x00020000 ||| vector.setWidth 32),
    .lapicWrite lapicTimerIcr initialCount ]

def clamp (x low high : U64) : U64 := if x < low then low else if high < x then high else x

section Init

variable {E : Type}

def storeInitialCount (initial : BitVec 32) (k : Interrupts (Statics × E)) : Interrupts (Statics × E) :=
  { k with drivers := ({ k.drivers.1 with initialCount := initial }, k.drivers.2) }

def init (h : Hardware) (k : Interrupts (Statics × E)) : List Io × Interrupts (Statics × E) :=
  let k := (registerIrq timerIrq timerIrqHandler k).2
  let calibrated := calibrateLapicTimer h
  let k :=
    match calibrated.1 with
    | some rate =>
      (storeInitialCount ((clamp (rate / timerHz) 1 0xFFFFFFFF).setWidth 32) k).klog
        s!"[TIMER] calibrated against PIT: {rate.toNat} LAPIC counts/s (divide 16)"
    | none => k.klog "[TIMER WARN] PIT calibration failed, using fallback count 0x100000"
  let initialCount := k.drivers.1.initialCount
  (calibrated.2 ++ startLapicTimer timerVector initialCount timerDivide16,
    k.klog s!"[TIMER] initialized (Local APIC periodic mode, {timerHz.toNat} Hz, initial count {initialCount.toNat})")

end Init

/-- The timer's registers in the local APIC. -/
structure TimerRegs where
  dcr : BitVec 32
  lvt : BitVec 32
  icr : BitVec 32
deriving DecidableEq, Repr

namespace TimerRegs

def apply (r : TimerRegs) : Io → TimerRegs
  | .lapicWrite reg value =>
    if reg = lapicTimerDcr then { r with dcr := value }
    else if reg = lapicLvtTimer then { r with lvt := value }
    else if reg = lapicTimerIcr then { r with icr := value }
    else r
  | _ => r

/-- The timer counts and may interrupt: it has a count, and its entry is not masked. -/
def Fires (r : TimerRegs) : Prop := r.icr ≠ 0 ∧ r.lvt.getLsbD 16 = false

instance (r : TimerRegs) : Decidable r.Fires := inferInstanceAs (Decidable (_ ∧ _))

/-- It fires at no moment before the last of the accesses. -/
def Silent (r : TimerRegs) : List Io → Prop
  | [] => True
  | io :: ios => ¬r.Fires ∧ Silent (r.apply io) ios

end TimerRegs

end VenturaOS.Timer
