import Mathlib.Algebra.BigOperators.Fin
import VenturaOS.Idt.Dispatch
import VenturaOS.Library.Runs

/-!
# Interrupt service

Devices request interrupts, the processor takes the most urgent one, its
dispatcher runs to the end, and drivers come and go. Every request is served in
its turn, and every interrupt that is taken is either given to the function
registered at that moment or counted.
-/
namespace VenturaOS.Idt
open Library

variable {D : Type}

/-- What happens to the kernel's state between two instructions of a program. -/
inductive Event (D : Type)
  | request (vector : ℕ)
  | take (vector : ℕ)
  | spurious
  | register (irq : BitVec 8) (handler : IrqHandler D)
  | unregister (irq : BitVec 8)

/-- What the dispatcher of a hardware interrupt does. -/
def serveVector (k : Interrupts D) (vector : ℕ) : Interrupts D :=
  if vector < 48 then irqDispatcher (BitVec.ofNat 64 (vector - 32)) k
  else if vector < 255 then genericInterruptDispatcher k
  else k

namespace Interrupts

def request (k : Interrupts D) (vector : ℕ) : Interrupts D := { k with lapic := k.lapic.request vector }

def accept (k : Interrupts D) (vector : ℕ) : Interrupts D := { k with lapic := k.lapic.accept vector }

end Interrupts

def handle (k : Interrupts D) : Event D → Interrupts D
  | .request vector => k.request vector
  | .take vector => serveVector (k.accept vector) vector
  | .spurious => serveVector k 255
  | .register irq handler => (registerIrq irq handler k).2
  | .unregister irq => (unregisterIrq irq k).2

/-- Devices have vectors from 32 to 254, and the processor takes what the local APIC offers. -/
def Possible (k : Interrupts D) : Event D → Prop
  | .request vector => 32 ≤ vector ∧ vector < 255
  | .take vector => k.lapic.pending = some vector
  | _ => True

instance (k : Interrupts D) : (e : Event D) → Decidable (Possible k e)
  | .request vector => inferInstanceAs (Decidable (32 ≤ vector ∧ vector < 255))
  | .take vector => inferInstanceAs (Decidable (k.lapic.pending = some vector))
  | .spurious => .isTrue trivial
  | .register _ _ => .isTrue trivial
  | .unregister _ => .isTrue trivial

def Serving (k : Interrupts D) (e : Event D) (k' : Interrupts D) : Prop := Possible k e ∧ k' = handle k e

/-- The vectors that are taken. -/
def takes (es : List (Event D)) : List ℕ :=
  es.filterMap fun
    | .take vector => some vector
    | _ => none

/-- The requests that are left. -/
def outstanding : Finset ℕ → List (Event D) → Finset ℕ
  | irr, [] => irr
  | irr, .request vector :: es => outstanding (insert vector irr) es
  | irr, .take vector :: es => outstanding (irr.erase vector) es
  | irr, _ :: es => outstanding irr es

/-- Something read off each event in the state in which it happens. -/
def along {β : Type*} (f : Interrupts D → Event D → Option β) : Interrupts D → List (Event D) → List β
  | _, [] => []
  | k, e :: es => (f k e).toList ++ along f (handle k e) es

/-- The IRQ of a vector. -/
def irqOf (vector : ℕ) : Option (Fin 16) := if h : 32 ≤ vector ∧ vector < 48 then some ⟨vector - 32, by omega⟩ else none

/-- The call of a registered function. -/
def called (k : Interrupts D) : Event D → Option (Fin 16 × IrqHandler D)
  | .take vector => (irqOf vector).bind fun irq => (k.irqHandlers irq).map fun handler => (irq, handler)
  | _ => none

/-- An IRQ for which no function is registered. -/
def missed (k : Interrupts D) : Event D → Option (Fin 16)
  | .take vector => (irqOf vector).bind fun irq => if k.irqHandlers irq = none then some irq else none
  | _ => none

/-- The number of lines the called function logs. -/
def reported (k : Interrupts D) (e : Event D) : Option ℕ :=
  (called k e).map fun call => (call.2 (BitVec.ofNat 8 call.1.val) k.drivers).2.length

section

variable {k k' : Interrupts D} {e : Event D} {es : List (Event D)} {v : ℕ} {i : Fin 16} {l : Lapic}

/-- What was accepted last, with nothing in service before, is what the end of interrupt is for. -/
theorem Lapic.eoi_accept (h : l.isr = ∅) : (l.accept v).eoi = ⟨l.irr.erase v, ∅⟩ := by
  have hmax : (insert v l.isr).max = WithBot.some v := by
    rw [h, insert_empty_eq]
    exact Finset.max_singleton
  unfold Lapic.accept Lapic.eoi
  simp only [hmax]
  rw [h, insert_empty_eq, Finset.erase_singleton]

/-- With nothing in service the highest request is offered. -/
theorem Lapic.pending_eq_some (h : l.isr = ∅) : l.pending = some v ↔ v ∈ l.irr ∧ ∀ w ∈ l.irr, w ≤ v := by
  unfold Lapic.pending
  rcases hmax : l.irr.max with _ | u
  · have hnone : l.irr = ∅ := Finset.max_eq_bot.mp hmax
    simp [hnone]
  · have hu : u ∈ l.irr := Finset.mem_of_max hmax
    have hle (w : ℕ) (hw : w ∈ l.irr) : w ≤ u := Finset.le_max_of_eq hw hmax
    have hclass : ∀ w ∈ l.isr, Lapic.priority w < Lapic.priority u := by
      rw [h]
      exact fun w hw => absurd hw (Finset.notMem_empty w)
    change (if ∀ w ∈ l.isr, Lapic.priority w < Lapic.priority u then some u else none) = some v ↔ _
    rw [if_pos hclass, Option.some.injEq]
    constructor
    · rintro rfl
      exact ⟨hu, hle⟩
    · rintro ⟨hv, hv'⟩
      exact le_antisymm (hv' u hu) (hle v hv)

theorem irqOf_eq_some (h : irqOf v = some i) : v = 32 + i.val := by
  unfold irqOf at h
  split_ifs at h with hv
  cases h
  simp only
  omega

theorem irqOf_of_lt (h : v < 16) : irqOf (32 + v) = some ⟨v, h⟩ := by
  rw [irqOf, dif_pos (by omega)]
  congr 2
  omega

theorem take_irq (h : irqOf v = some i) : handle k (.take v) = (serveIrq i (k.accept v)).eoi := by
  have hv := irqOf_eq_some h
  have hlt := i.isLt
  have hval : (BitVec.ofNat 64 (v - 32)).toNat = i.val := by
    rw [BitVec.toNat_ofNat]
    omega
  rw [handle, serveVector, if_pos (by omega), irqDispatcher, dif_pos (by omega)]
  simp only [hval]

theorem irqOf_eq_none (hlow : 32 ≤ v) : irqOf v = none ↔ 48 ≤ v := by
  unfold irqOf
  split_ifs with h
  · simp only [false_iff]
    omega
  · simp only [true_iff]
    omega

theorem take_other (hlow : 48 ≤ v) (hhigh : v < 255) :
    handle k (.take v) = genericInterruptDispatcher (k.accept v) := by
  rw [handle, serveVector, if_neg (by omega), if_pos hhigh]

@[simp] theorem serveIrq_lapic : (serveIrq i k).lapic = k.lapic := by
  unfold serveIrq Interrupts.klog
  cases k.irqHandlers i
  · simp only
    split_ifs <;> rfl
  · rfl

@[simp] theorem serveIrq_irqHandlers : (serveIrq i k).irqHandlers = k.irqHandlers := by
  unfold serveIrq Interrupts.klog
  cases k.irqHandlers i
  · simp only
    split_ifs <;> rfl
  · rfl

@[simp] theorem serveIrq_unexpectedCount : (serveIrq i k).unexpectedCount = k.unexpectedCount := by
  unfold serveIrq Interrupts.klog
  cases k.irqHandlers i
  · simp only
    split_ifs <;> rfl
  · rfl

/-- At rest: nothing is in service, and only devices have requests. -/
structure Resting (k : Interrupts D) : Prop where
  isr : k.lapic.isr = ∅
  devices : ∀ v ∈ k.lapic.irr, 32 ≤ v ∧ v < 255

theorem Resting.pending (h : Resting k) : k.lapic.pending = some v ↔ v ∈ k.lapic.irr ∧ ∀ w ∈ k.lapic.irr, w ≤ v :=
  Lapic.pending_eq_some h.isr

theorem Resting.take_range (h : Resting k) (hp : k.lapic.pending = some v) : 32 ≤ v ∧ v < 255 :=
  h.devices v (h.pending.mp hp).1

/-- The local APIC after an interrupt: its request is gone, and nothing is in service. -/
theorem Resting.take_lapic (h : Resting k) (hp : k.lapic.pending = some v) :
    (handle k (.take v)).lapic = ⟨k.lapic.irr.erase v, ∅⟩ := by
  have hrange := h.take_range hp
  cases hirq : irqOf v with
  | some i =>
    rw [take_irq hirq]
    change (serveIrq i (k.accept v)).lapic.eoi = _
    rw [serveIrq_lapic]
    exact Lapic.eoi_accept h.isr
  | none =>
    rw [take_other ((irqOf_eq_none hrange.1).mp hirq) hrange.2]
    unfold genericInterruptDispatcher Interrupts.klog
    simp only
    split_ifs <;> exact Lapic.eoi_accept h.isr

theorem registerIrq_lapic {irq : BitVec 8} {handler : IrqHandler D} : (registerIrq irq handler k).2.lapic = k.lapic := by
  unfold registerIrq
  split_ifs <;> rfl

theorem unregisterIrq_lapic {irq : BitVec 8} : (unregisterIrq irq k).2.lapic = k.lapic := by
  unfold unregisterIrq
  split_ifs <;> rfl

theorem Resting.handle_lapic (h : Resting k) (hp : Possible k e) :
    (handle k e).lapic = ⟨outstanding k.lapic.irr [e], ∅⟩ := by
  cases e with
  | request v => exact congrArg (Lapic.mk _) h.isr
  | take v => exact h.take_lapic hp
  | spurious => exact congrArg (Lapic.mk _) h.isr
  | register irq handler => exact registerIrq_lapic.trans (congrArg (Lapic.mk _) h.isr)
  | unregister irq => exact unregisterIrq_lapic.trans (congrArg (Lapic.mk _) h.isr)

theorem Resting.serving (h : Resting k) (hs : Serving k e k') : Resting k' := by
  obtain ⟨hp, rfl⟩ := hs
  have hlapic := h.handle_lapic hp
  refine ⟨by rw [hlapic], fun v hv => ?_⟩
  rw [hlapic] at hv
  cases e with
  | request w =>
    cases Finset.mem_insert.mp hv with
    | inl heq =>
      subst heq
      exact hp
    | inr hmem => exact h.devices v hmem
  | take w => exact h.devices v (Finset.mem_of_mem_erase hv)
  | spurious => exact h.devices v hv
  | register irq handler => exact h.devices v hv
  | unregister irq => exact h.devices v hv

theorem Resting.run (h : Resting k) (hrun : Run Serving k es k') : Resting k' :=
  hrun.invariant Resting (fun _ _ _ hs hstep => hs.serving hstep) h

theorem serving_eq_foldl (hrun : Run Serving k es k') : k' = es.foldl handle k := by
  induction hrun with
  | nil k => rfl
  | cons hstep _ ih =>
    rw [ih, hstep.2]
    rfl

theorem outstanding_cons (irr : Finset ℕ) (e : Event D) (es : List (Event D)) :
    outstanding irr (e :: es) = outstanding (outstanding irr [e]) es := by
  cases e <;> rfl

theorem run_outstanding (h : Resting k) (hrun : Run Serving k es k') : k'.lapic.irr = outstanding k.lapic.irr es := by
  induction hrun with
  | nil k => rfl
  | @cons k m k' e es hstep _ ih =>
    rw [ih (h.serving hstep), outstanding_cons]
    obtain ⟨hp, rfl⟩ := hstep
    rw [h.handle_lapic hp]

/-- From rest the processor can take one request after the other, the most urgent first, until none is left. -/
theorem Resting.drains (h : Resting k) : ∃ (vs : List ℕ) (k' : Interrupts D), vs.Pairwise (· > ·) ∧
    vs.toFinset = k.lapic.irr ∧ Run Serving k (vs.map .take) k' ∧ k'.lapic.irr = ∅ := by
  induction hcard : k.lapic.irr.card generalizing k with
  | zero =>
    rw [Finset.card_eq_zero] at hcard
    exact ⟨[], k, .nil, hcard.symm, .nil k, hcard⟩
  | succ n ih =>
    have hne : k.lapic.irr.Nonempty := Finset.card_pos.mp (by omega)
    have hmem := k.lapic.irr.max'_mem hne
    have hmax (w : ℕ) (hw : w ∈ k.lapic.irr) : w ≤ k.lapic.irr.max' hne := Finset.le_max' _ w hw
    generalize k.lapic.irr.max' hne = v at hmem hmax
    have hp : k.lapic.pending = some v := h.pending.mpr ⟨hmem, hmax⟩
    have hstep : Serving k (.take v) (handle k (.take v)) := ⟨hp, rfl⟩
    have hirr : (handle k (.take v)).lapic.irr = k.lapic.irr.erase v := by rw [h.take_lapic hp]
    obtain ⟨vs, k', hsorted, hall, hrun, hnone⟩ := ih (h.serving hstep)
      (by rw [hirr, Finset.card_erase_of_mem hmem, hcard, Nat.add_sub_cancel])
    rw [hirr] at hall
    refine ⟨v :: vs, k', hsorted.cons fun w hw => ?_, ?_, .cons hstep hrun, hnone⟩
    · rw [← List.mem_toFinset, hall, Finset.mem_erase] at hw
      exact lt_of_le_of_ne (hmax w hw.2) hw.1
    · rw [List.toFinset_cons, hall, Finset.insert_erase hmem]

end

end VenturaOS.Idt
