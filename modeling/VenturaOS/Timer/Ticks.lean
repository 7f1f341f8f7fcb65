import VenturaOS.Idt.Accounting
import VenturaOS.Timer.Model

/-!
# Ticks count interrupts

Among any other drivers the timer's statics are changed by its handler alone.
Over a run the ticks are the interrupts of its vector, the console shows every
hundredth, and the uptime is exact until the product overflows.
-/
namespace VenturaOS.Timer
open Library Idt

variable {E : Type} {k k' : Interrupts (Statics × E)} {e : Event (Statics × E)} {es : List (Event (Statics × E))}
  {n : ℕ}

/-- `TICKS` is private to the timer: no other handler changes it. -/
def KeepsTicks (handler : IrqHandler (Statics × E)) : Prop := ∀ irq d, (handler irq d).1.1.ticks = d.1.ticks

/-- Nobody else registers for the timer's IRQ. -/
def Orderly : Event (Statics × E) → Prop
  | .register irq handler => irq ≠ timerIrq ∧ KeepsTicks handler
  | .unregister irq => irq ≠ timerIrq
  | _ => True

/-- The handlers behind `timer::init`. -/
structure Ticking (k : Interrupts (Statics × E)) : Prop where
  timer : k.irqHandlers 0 = some timerIrqHandler
  others : ∀ i handler, i ≠ 0 → k.irqHandlers i = some handler → KeepsTicks handler

/-- What an interrupt of the timer adds to the log. -/
def timerLines (k : Interrupts (Statics × E)) : Event (Statics × E) → Option (List String)
  | .take vector => if vector = 32 then some ((handle k (.take vector)).logged.drop k.logged.length) else none
  | _ => none

def tickLine (n : ℕ) : String := s!"[TIMER] tick: {n}"

section Step

variable {i : Fin 16} {handler : IrqHandler (Statics × E)}

theorem index_ne_zero {irq : BitVec 8} (hirq : irq ≠ timerIrq) (hlt : irq.toNat < 16) : (⟨irq.toNat, hlt⟩ : Fin 16) ≠ 0 := by
  intro h
  have hval : irq.toNat = 0 := congrArg Fin.val h
  exact hirq (BitVec.eq_of_toNat_eq hval)

theorem Ticking.update {o : Option (IrqHandler (Statics × E))} (h : Ticking k) (hi : i ≠ 0)
    (ho : ∀ handler, o = some handler → KeepsTicks handler)
    (hk : k'.irqHandlers = Function.update k.irqHandlers i o) : Ticking k' := by
  constructor
  · rw [hk, Function.update_of_ne hi.symm]
    exact h.timer
  · intro j handler hj hhandler
    rw [hk] at hhandler
    by_cases hij : j = i
    · subst hij
      rw [Function.update_self] at hhandler
      exact ho handler hhandler
    · rw [Function.update_of_ne hij] at hhandler
      exact h.others j handler hj hhandler

theorem Ticking.congr (h : Ticking k) (hk : k'.irqHandlers = k.irqHandlers) : Ticking k' := by
  constructor
  · rw [hk]
    exact h.timer
  · rw [hk]
    exact h.others

theorem handle_take_irqHandlers (v : ℕ) : (handle k (.take v)).irqHandlers = k.irqHandlers := by
  have hgeneric (k : Interrupts (Statics × E)) : (genericInterruptDispatcher k).irqHandlers = k.irqHandlers := by
    unfold genericInterruptDispatcher
    simp only
    split_ifs <;> rfl
  have hirq (irq : U64) (k : Interrupts (Statics × E)) : (irqDispatcher irq k).irqHandlers = k.irqHandlers := by
    unfold irqDispatcher
    split_ifs
    · exact serveIrq_irqHandlers
    · rfl
  rw [handle, serveVector]
  split_ifs
  · exact hirq _ _
  · exact hgeneric _
  · rfl

theorem Ticking.handle (h : Ticking k) (he : Orderly e) : Ticking (handle k e) := by
  cases e with
  | request v => exact h.congr rfl
  | take v => exact h.congr (handle_take_irqHandlers v)
  | spurious => exact h.congr rfl
  | register irq handler =>
    rw [Idt.handle, registerIrq]
    split_ifs with hlt
    · exact h.update (index_ne_zero he.1 hlt) (fun _ hsome => Option.some.inj hsome ▸ he.2) rfl
    · exact h
  | unregister irq =>
    rw [Idt.handle, unregisterIrq]
    split_ifs with hlt
    · exact h.update (index_ne_zero he hlt) (fun _ hsome => by cases hsome) rfl
    · exact h

theorem called_timer (h : Ticking k) : called k (.take 32) = some (0, timerIrqHandler) := by
  have hirq : irqOf 32 = some 0 := rfl
  simp [called, hirq, h.timer]

theorem called_other {v : ℕ} {call : Fin 16 × IrqHandler (Statics × E)} (h : Ticking k) (hv : v ≠ 32)
    (hcall : called k (.take v) = some call) : KeepsTicks call.2 := by
  rw [called, Option.bind_eq_some_iff] at hcall
  obtain ⟨i, hirq, hcall⟩ := hcall
  rw [Option.map_eq_some_iff] at hcall
  obtain ⟨handler, hhandler, rfl⟩ := hcall
  have hval := irqOf_eq_some hirq
  refine h.others i handler (fun hi => ?_) hhandler
  subst hi
  exact hv hval

/-- One tick for an interrupt of the timer, none for anything else. -/
theorem Ticking.ticks (h : Ticking k) (hacc : Accounts k e k') :
    k'.drivers.1.ticks = k.drivers.1.ticks + BitVec.ofNat 64 ((takes [e]).count 32) := by
  rw [hacc.drivers]
  cases e with
  | take v =>
    have htakes : takes [(.take v : Event (Statics × E))] = [v] := rfl
    rw [htakes]
    by_cases hv : v = 32
    · subst hv
      rw [called_timer h, List.count_singleton_self]
      rfl
    · have hnone : [v].count 32 = 0 := by simp [hv]
      rw [hnone]
      cases hcall : called k (.take v) with
      | none => exact (BitVec.add_zero _).symm
      | some call => exact (called_other h hv hcall _ _).trans (BitVec.add_zero _).symm
  | request v => exact (BitVec.add_zero _).symm
  | spurious => exact (BitVec.add_zero _).symm
  | register irq handler => exact (BitVec.add_zero _).symm
  | unregister irq => exact (BitVec.add_zero _).symm

theorem timerLines_take (h : Ticking k) (hroom : k.drivers.1.ticks.toNat + 1 < 2 ^ 64) : timerLines k (.take 32) =
    some (if (k.drivers.1.ticks.toNat + 1) % 100 = 0 then [tickLine (k.drivers.1.ticks.toNat + 1)] else []) := by
  have hval : (k.drivers.1.ticks + 1).toNat = k.drivers.1.ticks.toNat + 1 := by
    rw [BitVec.toNat_add, show (1 : U64).toNat = 1 from rfl, Nat.mod_eq_of_lt hroom]
  have hzero : (k.drivers.1.ticks + 1) % 100 = 0 ↔ (k.drivers.1.ticks.toNat + 1) % 100 = 0 := by
    rw [← BitVec.toNat_inj, BitVec.toNat_umod, hval]
    rfl
  have hlogged : (handle k (.take 32)).logged = k.logged ++ (timerIrqHandler timerIrq k.drivers).2 := by
    have hirq : irqOf 32 = some 0 := rfl
    rw [take_irq hirq, serveIrq_some (k := k.accept 32) h.timer]
    rfl
  rw [timerLines, if_pos rfl, hlogged, List.drop_left, timerIrqHandler]
  simp only [hval, hzero]
  split_ifs <;> rfl

end Step

section Run

/-- The hundreds among the next `n` ticks. -/
def hundreds (from_ n : ℕ) : List ℕ := (List.range' (from_ + 1) n).filter (· % 100 = 0)

theorem hundreds_succ (a n : ℕ) :
    hundreds a (n + 1) = (if (a + 1) % 100 = 0 then [a + 1] else []) ++ hundreds (a + 1) n := by
  rw [hundreds, List.range'_succ, List.filter_cons]
  by_cases h : (a + 1) % 100 = 0
  · simp [h, hundreds]
  · simp [h, hundreds]

theorem timerLines_other (h : e ≠ .take 32) : timerLines k e = none := by
  cases e with
  | take v => exact if_neg fun hv => h (congrArg _ hv)
  | request v => rfl
  | spurious => rfl
  | register irq handler => rfl
  | unregister irq => rfl

theorem takes_other (h : e ≠ .take 32) : (takes [e]).count 32 = 0 := by
  cases e with
  | take v =>
    have hv : v ≠ 32 := fun hv => h (congrArg _ hv)
    change [v].count 32 = 0
    simp [hv]
  | request v => rfl
  | spurious => rfl
  | register irq handler => rfl
  | unregister irq => rfl

theorem run_ticks (hrest : Resting k) (h : Ticking k) (horderly : ∀ e ∈ es, Orderly e)
    (hrun : Run Serving k es k') :
    k'.drivers.1.ticks = k.drivers.1.ticks + BitVec.ofNat 64 ((takes es).count 32) ∧
      (k.drivers.1.ticks.toNat + (takes es).count 32 < 2 ^ 64 →
        (along timerLines k es).flatten = (hundreds k.drivers.1.ticks.toNat ((takes es).count 32)).map tickLine) := by
  induction hrun with
  | nil k => exact ⟨(BitVec.add_zero _).symm, fun _ => rfl⟩
  | @cons k m k' e es hstep _ ih =>
    have hacc := hrest.accounts hstep
    have hone := h.ticks hacc
    obtain ⟨hp, rfl⟩ := hstep
    have he := horderly e List.mem_cons_self
    obtain ⟨hticks, hlines⟩ := ih (hrest.serving ⟨hp, rfl⟩) (h.handle he) fun e he => horderly e (List.mem_cons_of_mem _ he)
    have hcount : (takes (e :: es)).count 32 = (takes [e]).count 32 + (takes es).count 32 := by
      rw [takes_cons, List.count_append]
    rw [hcount]
    refine ⟨by rw [hticks, hone, BitVec.ofNat_add, BitVec.add_assoc], fun hroom => ?_⟩
    have htail : (along timerLines (handle k e) es).flatten =
        (hundreds (k.drivers.1.ticks.toNat + (takes [e]).count 32) ((takes es).count 32)).map tickLine := by
      have hval : (handle k e).drivers.1.ticks.toNat = k.drivers.1.ticks.toNat + (takes [e]).count 32 := by
        rw [hone, BitVec.toNat_add, BitVec.toNat_ofNat, Nat.add_mod_mod, Nat.mod_eq_of_lt (by omega)]
      rw [← hval]
      apply hlines
      omega
    rw [along, List.flatten_append, htail]
    by_cases htimer : e = .take 32
    · subst htimer
      have hself : (takes [(.take 32 : Event (Statics × E))]).count 32 = 1 := rfl
      rw [hself] at hroom ⊢
      rw [timerLines_take h (by omega), Nat.add_comm 1, hundreds_succ, List.map_append]
      by_cases hzero : (k.drivers.1.ticks.toNat + 1) % 100 = 0
      · rw [if_pos hzero, if_pos hzero]
        rfl
      · rw [if_neg hzero, if_neg hzero]
        rfl
    · rw [timerLines_other htimer, takes_other htimer, Nat.add_zero, Nat.zero_add]
      rfl

/-- The uptime is ten milliseconds a tick exactly as long as the product fits. -/
theorem uptimeMs_exact (t : Statics) : (uptimeMs t).toNat = 10 * t.ticks.toNat ↔ t.ticks.toNat * 1000 < 2 ^ 64 := by
  have hval : (uptimeMs t).toNat = t.ticks.toNat * 1000 % 2 ^ 64 / 100 := by
    rw [uptimeMs, BitVec.toNat_udiv, BitVec.toNat_mul]
    rfl
  rw [hval]
  constructor
  · intro h
    by_contra hlarge
    have hmod := Nat.mod_lt (t.ticks.toNat * 1000) (show 0 < 2 ^ 64 by omega)
    generalize t.ticks.toNat * 1000 % 2 ^ 64 = m at h hmod
    omega
  · intro h
    rw [Nat.mod_eq_of_lt h]
    omega

/-- Over a run the ticks are the interrupts taken at the timer's vector. As long as they do not overflow, the lines
they add to the log are those of the hundreds, and the uptime is ten milliseconds a tick exactly if the product fits. -/
theorem ticks_count_interrupts (hrest : Resting k) (h : Ticking k) (horderly : ∀ e ∈ es, Orderly e)
    (hrun : Run Serving k es k') :
    k'.drivers.1.ticks = k.drivers.1.ticks + BitVec.ofNat 64 ((takes es).count 32) ∧
      (k.drivers.1.ticks.toNat + (takes es).count 32 < 2 ^ 64 →
        (along timerLines k es).flatten = (hundreds k.drivers.1.ticks.toNat ((takes es).count 32)).map tickLine ∧
        ((uptimeMs k'.drivers.1).toNat = 10 * (k.drivers.1.ticks.toNat + (takes es).count 32) ↔
          (k.drivers.1.ticks.toNat + (takes es).count 32) * 1000 < 2 ^ 64)) := by
  obtain ⟨hticks, hlines⟩ := run_ticks hrest h horderly hrun
  refine ⟨hticks, fun hroom => ⟨hlines hroom, ?_⟩⟩
  have hval : k'.drivers.1.ticks.toNat = k.drivers.1.ticks.toNat + (takes es).count 32 := by
    rw [hticks, BitVec.toNat_add, BitVec.toNat_ofNat, Nat.add_mod_mod, Nat.mod_eq_of_lt hroom]
  rw [← hval]
  exact uptimeMs_exact _

end Run

/-- The timer alone, after 99 ticks. -/
def sampleTimer : Interrupts (Statics × Unit) := (registerIrq timerIrq timerIrqHandler (.initial (⟨99, 1⟩, ()))).2

theorem sampleTimer_ticking : Ticking sampleTimer where
  timer := rfl
  others i handler hi h := by
    have hnone : sampleTimer.irqHandlers i = none := Function.update_of_ne hi _ _
    rw [hnone] at h
    cases h

theorem ticks_count_interrupts_sample :
    ((handle (handle sampleTimer (.request 32)) (.take 32)).drivers.1.ticks = 100) ∧
      (along timerLines sampleTimer [.request 32, .take 32]).flatten = ["[TIMER] tick: 100"] := by
  have hrest : Resting sampleTimer := ⟨rfl, fun v hv => absurd hv (Finset.notMem_empty v)⟩
  have horderly : ∀ e ∈ ([.request 32, .take 32] : List (Event (Statics × Unit))), Orderly e := by
    intro e he
    rcases List.mem_cons.mp he with rfl | he
    · trivial
    · exact List.mem_singleton.mp he ▸ trivial
  obtain ⟨hticks, hroom⟩ := ticks_count_interrupts hrest sampleTimer_ticking horderly
    (.cons ⟨by decide, rfl⟩ (.cons ⟨by decide, rfl⟩ (.nil _)))
  exact ⟨hticks, (hroom (by decide)).1⟩

end VenturaOS.Timer
