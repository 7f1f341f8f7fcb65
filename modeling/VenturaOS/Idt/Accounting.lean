import VenturaOS.Idt.Service

/-!
# Every interrupt is accounted for

Over any run of requests, interrupts and registrations no request is lost or
stuck, each interrupt is a call of the registered function or one more in a
counter, and the lines the dispatchers log are as many as the counters allow.
-/
namespace VenturaOS.Idt
open Library

variable {D : Type} {k k' : Interrupts D} {e : Event D} {es : List (Event D)} {v : ℕ} {i : Fin 16}

/-- In every state of a run nothing is in service, the requests are those that came and were not taken, the
most urgent of them is offered, and the processor can take them all. -/
theorem interrupts_are_never_lost (h : Resting k) (hrun : Run Serving k es k') :
    k'.lapic.isr = ∅ ∧ k'.lapic.irr = outstanding k.lapic.irr es ∧
      (∀ v, k'.lapic.pending = some v ↔ v ∈ k'.lapic.irr ∧ ∀ w ∈ k'.lapic.irr, w ≤ v) ∧
      ∃ (vs : List ℕ) (k'' : Interrupts D), vs.Pairwise (· > ·) ∧ vs.toFinset = k'.lapic.irr ∧
        Run Serving k' (vs.map .take) k'' ∧ k''.lapic.irr = ∅ := by
  have hrest := h.run hrun
  exact ⟨hrest.isr, run_outstanding h hrun, fun _ => hrest.pending, hrest.drains⟩

/-- An interrupt whose vector is no IRQ's. -/
def strayed (_ : Interrupts D) : Event D → Option Unit
  | .take vector => if 48 ≤ vector then some () else none
  | _ => none

/-- The drivers after a call. -/
def callDriver (drivers : D) (call : Fin 16 × IrqHandler D) : D := (call.2 (BitVec.ofNat 8 call.1.val) drivers).1

section Step

/-- A line that is logged only if `b`. -/
def Interrupts.klogIf (k : Interrupts D) (b : Prop) [Decidable b] (text : String) : Interrupts D :=
  if b then k.klog text else k

section KlogIf

variable {b : Prop} [Decidable b] {text : String}

@[simp] theorem klogIf_drivers : (k.klogIf b text).drivers = k.drivers := by
  unfold Interrupts.klogIf
  split_ifs <;> rfl

@[simp] theorem klogIf_unhandledIrqCount : (k.klogIf b text).unhandledIrqCount = k.unhandledIrqCount := by
  unfold Interrupts.klogIf
  split_ifs <;> rfl

@[simp] theorem klogIf_unexpectedCount : (k.klogIf b text).unexpectedCount = k.unexpectedCount := by
  unfold Interrupts.klogIf
  split_ifs <;> rfl

@[simp] theorem klogIf_logged : (k.klogIf b text).logged.length = k.logged.length + if b then 1 else 0 := by
  unfold Interrupts.klogIf
  split_ifs
  · exact List.length_append
  · rfl

end KlogIf

theorem serveIrq_none (h : k.irqHandlers i = none) : serveIrq i k =
    Interrupts.klogIf { k with unhandledIrqCount := Function.update k.unhandledIrqCount i (k.unhandledIrqCount i + 1) }
      (k.unhandledIrqCount i < 5) s!"[IRQ] Unhandled hardware IRQ {i.val}" := by
  unfold serveIrq
  rw [h]
  rfl

theorem serveIrq_some {handler : IrqHandler D} (h : k.irqHandlers i = some handler) : serveIrq i k =
    { k with
      drivers := (handler (BitVec.ofNat 8 i.val) k.drivers).1
      logged := k.logged ++ (handler (BitVec.ofNat 8 i.val) k.drivers).2 } := by
  unfold serveIrq
  rw [h]

theorem genericInterruptDispatcher_eq : genericInterruptDispatcher k =
    (Interrupts.klogIf { k with unexpectedCount := k.unexpectedCount + 1 } (k.unexpectedCount < 5)
      "[IRQ] Unexpected external interrupt received").eoi := rfl

/-- What an event does outside the local APIC and the table: a call, or one more in one counter, with a line
for the first five. -/
structure Accounts (k : Interrupts D) (e : Event D) (k' : Interrupts D) : Prop where
  drivers : k'.drivers = (called k e).toList.foldl callDriver k.drivers
  unhandled : ∀ i, k'.unhandledIrqCount i = k.unhandledIrqCount i + BitVec.ofNat 32 ((missed k e).toList.count i)
  unexpected : k'.unexpectedCount = k.unexpectedCount + BitVec.ofNat 32 (strayed k e).toList.length
  logged : k'.logged.length = k.logged.length + (reported k e).toList.sum +
    (missed k e).toList.countP (fun i => k.unhandledIrqCount i < 5) +
    (strayed k e).toList.countP (fun _ => k.unexpectedCount < 5)

theorem accounts_called {handler : IrqHandler D} (hirq : irqOf v = some i) (hhandler : k.irqHandlers i = some handler) :
    Accounts k (.take v) (handle k (.take v)) := by
  have hv := irqOf_eq_some hirq
  have hlt := i.isLt
  have hcalled : called k (.take v) = some (i, handler) := by simp [called, hirq, hhandler]
  have hmissed : missed k (.take v) = none := by simp [missed, hirq, hhandler]
  have hstrayed : strayed k (.take v) = none := if_neg (by omega)
  rw [take_irq hirq, serveIrq_some (k := k.accept v) hhandler]
  constructor
  · rw [hcalled]
    rfl
  · intro j
    rw [hmissed]
    exact (BitVec.add_zero _).symm
  · rw [hstrayed]
    exact (BitVec.add_zero _).symm
  · rw [reported, hcalled, hmissed, hstrayed]
    simp [Interrupts.eoi, Interrupts.accept]

theorem accounts_missed (hirq : irqOf v = some i) (hhandler : k.irqHandlers i = none) :
    Accounts k (.take v) (handle k (.take v)) := by
  have hv := irqOf_eq_some hirq
  have hlt := i.isLt
  have hcalled : called k (.take v) = none := by simp [called, hirq, hhandler]
  have hmissed : missed k (.take v) = some i := by simp [missed, hirq, hhandler]
  have hstrayed : strayed k (.take v) = none := if_neg (by omega)
  rw [take_irq hirq, serveIrq_none (k := k.accept v) hhandler]
  constructor
  · rw [hcalled]
    exact klogIf_drivers
  · intro j
    change (Interrupts.klogIf _ _ _).unhandledIrqCount j = _
    rw [klogIf_unhandledIrqCount, hmissed, Option.toList_some]
    change Function.update k.unhandledIrqCount i (k.unhandledIrqCount i + 1) j = _
    by_cases hj : j = i
    · subst hj
      rw [Function.update_self, List.count_singleton_self]
      rfl
    · have hnone : [i].count j = 0 := by simp [Ne.symm hj]
      rw [Function.update_of_ne hj, hnone]
      exact (BitVec.add_zero _).symm
  · rw [hstrayed]
    exact klogIf_unexpectedCount.trans (BitVec.add_zero _).symm
  · rw [reported, hcalled, hmissed, hstrayed]
    refine klogIf_logged.trans ?_
    by_cases hfew : k.unhandledIrqCount i < 5#32
    · simp [Interrupts.accept, hfew]
    · simp [Interrupts.accept, hfew]

theorem accounts_strayed (hlow : 48 ≤ v) (hhigh : v < 255) : Accounts k (.take v) (handle k (.take v)) := by
  have hirq : irqOf v = none := (irqOf_eq_none (by omega)).mpr hlow
  have hcalled : called k (.take v) = none := by simp [called, hirq]
  have hmissed : missed k (.take v) = none := by simp [missed, hirq]
  have hstrayed : strayed k (.take v) = some () := if_pos hlow
  rw [take_other hlow hhigh, genericInterruptDispatcher_eq]
  constructor
  · rw [hcalled]
    exact klogIf_drivers
  · intro j
    rw [hmissed]
    exact (congrFun klogIf_unhandledIrqCount j).trans (BitVec.add_zero _).symm
  · rw [hstrayed]
    exact klogIf_unexpectedCount
  · rw [reported, hcalled, hmissed, hstrayed]
    refine klogIf_logged.trans ?_
    by_cases hfew : k.unexpectedCount < 5#32
    · simp [Interrupts.accept, hfew]
    · simp [Interrupts.accept, hfew]

theorem handle_register {irq : BitVec 8} {handler : IrqHandler D} :
    (handle k (.register irq handler)).drivers = k.drivers ∧
      (handle k (.register irq handler)).unhandledIrqCount = k.unhandledIrqCount ∧
      (handle k (.register irq handler)).unexpectedCount = k.unexpectedCount ∧
      (handle k (.register irq handler)).logged = k.logged := by
  rw [handle, registerIrq]
  split_ifs <;> exact ⟨rfl, rfl, rfl, rfl⟩

theorem handle_unregister {irq : BitVec 8} :
    (handle k (.unregister irq)).drivers = k.drivers ∧
      (handle k (.unregister irq)).unhandledIrqCount = k.unhandledIrqCount ∧
      (handle k (.unregister irq)).unexpectedCount = k.unexpectedCount ∧ (handle k (.unregister irq)).logged = k.logged := by
  rw [handle, unregisterIrq]
  split_ifs <;> exact ⟨rfl, rfl, rfl, rfl⟩

theorem accounts_nothing (hcalled : called k e = none) (hmissed : missed k e = none) (hstrayed : strayed k e = none)
    (hsame : k'.drivers = k.drivers ∧ k'.unhandledIrqCount = k.unhandledIrqCount ∧
      k'.unexpectedCount = k.unexpectedCount ∧ k'.logged = k.logged) : Accounts k e k' := by
  obtain ⟨hdrivers, hcount, hgeneric, hlogged⟩ := hsame
  constructor
  · rw [hcalled, hdrivers]
    rfl
  · intro i
    rw [hmissed, hcount]
    exact (BitVec.add_zero _).symm
  · rw [hstrayed, hgeneric]
    exact (BitVec.add_zero _).symm
  · rw [reported, hcalled, hmissed, hstrayed, hlogged]
    rfl

theorem Resting.accounts (h : Resting k) (hs : Serving k e k') : Accounts k e k' := by
  obtain ⟨hp, rfl⟩ := hs
  cases e with
  | request v => exact accounts_nothing rfl rfl rfl ⟨rfl, rfl, rfl, rfl⟩
  | take v =>
    have hrange := h.take_range hp
    cases hirq : irqOf v with
    | some i =>
      cases hhandler : k.irqHandlers i with
      | some handler => exact accounts_called hirq hhandler
      | none => exact accounts_missed hirq hhandler
    | none => exact accounts_strayed ((irqOf_eq_none hrange.1).mp hirq) hrange.2
  | spurious => exact accounts_nothing rfl rfl rfl ⟨rfl, rfl, rfl, rfl⟩
  | register irq handler => exact accounts_nothing rfl rfl rfl handle_register
  | unregister irq => exact accounts_nothing rfl rfl rfl handle_unregister

end Step

section Run

/-- An IRQ that is taken is either called or missed. -/
theorem called_or_missed (k : Interrupts D) (e : Event D) (i : Fin 16) :
    (takes [e]).count (32 + i.val) = (called k e).toList.countP (fun call => call.1 = i) + (missed k e).toList.count i := by
  cases e with
  | take v =>
    have htakes : takes [(.take v : Event D)] = [v] := rfl
    rw [htakes]
    cases hirq : irqOf v with
    | some j =>
      have hv := irqOf_eq_some hirq
      have hiff : v = 32 + i.val ↔ j = i := by
        rw [Fin.ext_iff]
        omega
      have hcount : [v].count (32 + i.val) = if j = i then 1 else 0 := by
        by_cases hj : j = i
        · rw [if_pos hj, hiff.mpr hj, List.count_singleton_self]
        · have hne : v ≠ 32 + i.val := fun h => hj (hiff.mp h)
          simp [hne, hj]
      rw [hcount]
      cases hhandler : k.irqHandlers j with
      | some handler =>
        by_cases hj : j = i
        · subst hj
          simp [called, missed, hirq, hhandler]
        · simp [called, missed, hirq, hhandler, hj]
      | none =>
        by_cases hj : j = i
        · subst hj
          simp [called, missed, hirq, hhandler]
        · simp [called, missed, hirq, hhandler, hj]
    | none =>
      have hne : v ≠ 32 + i.val := by
        rintro rfl
        rw [irqOf_of_lt i.isLt] at hirq
        cases hirq
      simp [called, missed, hirq, hne]
  | request v => rfl
  | spurious => rfl
  | register irq handler => rfl
  | unregister irq => rfl

theorem takes_cons (e : Event D) (es : List (Event D)) : takes (e :: es) = takes [e] ++ takes es := by
  cases e <;> rfl

/-- The calls of a run act on the drivers in their order, every other interrupt is one more in its counter, and
each IRQ that was taken is one or the other. -/
theorem interrupts_are_accounted (h : Resting k) (hrun : Run Serving k es k') :
    k'.drivers = (along called k es).foldl callDriver k.drivers ∧
      (∀ i, k'.unhandledIrqCount i = k.unhandledIrqCount i + BitVec.ofNat 32 ((along missed k es).count i)) ∧
      k'.unexpectedCount = k.unexpectedCount + BitVec.ofNat 32 ((takes es).countP (48 ≤ ·)) ∧
      ∀ i : Fin 16, (takes es).count (32 + i.val) =
        (along called k es).countP (fun call => call.1 = i) + (along missed k es).count i := by
  induction hrun with
  | nil k => exact ⟨rfl, fun i => (BitVec.add_zero _).symm, (BitVec.add_zero _).symm, fun i => rfl⟩
  | @cons k m k' e es hstep _ ih =>
    have hacc := h.accounts hstep
    obtain ⟨hdrivers, hmissed, hstrayed, hall⟩ := ih (h.serving hstep)
    obtain ⟨hp, rfl⟩ := hstep
    have hone : (strayed k e).toList.length = (takes [e]).countP (48 ≤ ·) := by
      cases e with
      | take v =>
        change (if 48 ≤ v then some () else none).toList.length = [v].countP (48 ≤ ·)
        by_cases hv : 48 ≤ v
        · simp [hv]
        · simp [hv]
      | request v => rfl
      | spurious => rfl
      | register irq handler => rfl
      | unregister irq => rfl
    refine ⟨?_, fun i => ?_, ?_, fun i => ?_⟩
    · rw [hdrivers, hacc.drivers, along, List.foldl_append]
    · rw [hmissed i, hacc.unhandled i, along, List.count_append, BitVec.ofNat_add, BitVec.add_assoc]
    · rw [hstrayed, hacc.unexpected, takes_cons, List.countP_append, hone, BitVec.ofNat_add, BitVec.add_assoc]
    · rw [takes_cons, List.count_append, hall i, called_or_missed k e i, along, along, List.countP_append, List.count_append]
      omega

/-- How many of `n` interrupts of a kind are reported: the first five, and again five whenever the 32-bit
counter has come round to zero. -/
def reports (n : ℕ) : ℕ := 5 * (n / 2 ^ 32) + min (n % 2 ^ 32) 5

theorem ofNat_lt_five {n : ℕ} : BitVec.ofNat 32 n < 5 ↔ n % 2 ^ 32 < 5 := by
  rw [BitVec.lt_def, BitVec.toNat_ofNat, show (5 : BitVec 32).toNat = 5 from rfl]

theorem reports_succ (n : ℕ) : reports (n + 1) = reports n + if BitVec.ofNat 32 n < 5 then 1 else 0 := by
  rw [reports, reports]
  by_cases hfew : n % 2 ^ 32 < 5
  · rw [if_pos (ofNat_lt_five.mpr hfew)]
    omega
  · rw [if_neg (mt ofNat_lt_five.mp hfew)]
    omega

theorem reports_few {n : ℕ} (h : n ≤ 2 ^ 32) : reports n = min n 5 := by
  rw [reports]
  omega

theorem reports_step {m : Fin 16 → ℕ} (hm : ∀ i, k.unhandledIrqCount i = BitVec.ofNat 32 (m i)) (o : Option (Fin 16)) :
    ∑ i, reports (m i + o.toList.count i) =
      ∑ i, reports (m i) + o.toList.countP fun i => k.unhandledIrqCount i < 5 := by
  cases o with
  | none => simp only [Option.toList_none, List.count_nil, List.countP_nil, Nat.add_zero]
  | some j =>
    have hterm (i : Fin 16) : reports (m i + (some j).toList.count i) =
        reports (m i) + if j = i then (if BitVec.ofNat 32 (m i) < 5 then 1 else 0) else 0 := by
      rw [Option.toList_some]
      by_cases hj : j = i
      · rw [if_pos hj, hj, List.count_singleton_self, reports_succ]
      · rw [if_neg hj]
        simp [hj]
    have hlast : [j].countP (fun i => k.unhandledIrqCount i < 5) = if BitVec.ofNat 32 (m j) < 5 then 1 else 0 := by
      rw [← hm j]
      by_cases hfew : k.unhandledIrqCount j < 5#32
      · simp [hfew]
      · simp [hfew]
    rw [Finset.sum_congr rfl fun i _ => hterm i, Finset.sum_add_distrib, Finset.sum_ite_eq, if_pos (Finset.mem_univ j),
      Option.toList_some, hlast]

theorem run_logs (h : Resting k) (hrun : Run Serving k es k') {m : Fin 16 → ℕ} {u : ℕ}
    (hm : ∀ i, k.unhandledIrqCount i = BitVec.ofNat 32 (m i)) (hu : k.unexpectedCount = BitVec.ofNat 32 u) :
    k'.logged.length + ∑ i, reports (m i) + reports u = k.logged.length + (along reported k es).sum +
      ∑ i, reports (m i + (along missed k es).count i) + reports (u + (along strayed k es).length) := by
  induction hrun generalizing m u with
  | nil k => rfl
  | @cons k k₁ k' e es hstep _ ih =>
    have hacc := h.accounts hstep
    have hm₁ (i : Fin 16) : k₁.unhandledIrqCount i = BitVec.ofNat 32 (m i + (missed k e).toList.count i) := by
      rw [hacc.unhandled i, hm i, BitVec.ofNat_add]
    have hu₁ : k₁.unexpectedCount = BitVec.ofNat 32 (u + (strayed k e).toList.length) := by
      rw [hacc.unexpected, hu, BitVec.ofNat_add]
    have hlater := ih (h.serving hstep) hm₁ hu₁
    have hone := hacc.logged
    have hsum := reports_step hm (missed k e)
    have hstray : reports (u + (strayed k e).toList.length) =
        reports u + (strayed k e).toList.countP (fun _ => k.unexpectedCount < 5) := by
      cases strayed k e with
      | none => rfl
      | some _ =>
        change reports (u + 1) = _
        rw [reports_succ, ← hu]
        by_cases hfew : k.unexpectedCount < 5#32
        · simp [hfew]
        · simp [hfew]
    obtain ⟨hp, rfl⟩ := hstep
    rw [along, along, along, List.sum_append, List.length_append, ← Nat.add_assoc u]
    have hsplit (i : Fin 16) : m i + ((missed k e).toList ++ along missed (handle k e) es).count i =
        m i + (missed k e).toList.count i + (along missed (handle k e) es).count i := by
      rw [List.count_append, Nat.add_assoc]
    rw [Finset.sum_congr rfl fun i _ => congrArg reports (hsplit i)]
    omega

/-- From fresh counters on, the log grows by what the registered functions log and, for each IRQ and for all
stray interrupts, by one line for each of the first five; after `2 ^ 32` of a kind its count starts again. -/
theorem log_is_not_flooded (h : Resting k) (hrun : Run Serving k es k') (hm : ∀ i, k.unhandledIrqCount i = 0)
    (hu : k.unexpectedCount = 0) :
    k'.logged.length = k.logged.length + (along reported k es).sum + ∑ i, reports ((along missed k es).count i) +
        reports (along strayed k es).length ∧
      ((∀ i, (along missed k es).count i ≤ 2 ^ 32) → (along strayed k es).length ≤ 2 ^ 32 →
        k'.logged.length = k.logged.length + (along reported k es).sum + ∑ i, min ((along missed k es).count i) 5 +
          min (along strayed k es).length 5) := by
  have hlogs := run_logs h hrun (m := fun _ => 0) (u := 0) hm hu
  have hzero : reports 0 = 0 := rfl
  simp only [hzero, Finset.sum_const_zero, Nat.zero_add, Nat.add_zero] at hlogs
  refine ⟨hlogs, fun hmissed hstrayed => ?_⟩
  rw [hlogs, Finset.sum_congr rfl fun i _ => reports_few (hmissed i), reports_few hstrayed]

end Run

section Sample

theorem initial_resting (drivers : D) : Resting (Interrupts.initial drivers) := ⟨rfl, fun _ hv => absurd hv (Finset.notMem_empty _)⟩

/-- A function for IRQ 0 is registered, IRQs 0 and 1 are requested, and both are taken. -/
def sampleEvents : List (Event ℕ) :=
  [.register 0 fun _ n => (n + 1, ["tick"]), .request 32, .request 33, .take 33, .take 32]

theorem sampleEvents_run : Run Serving (Interrupts.initial 0) sampleEvents (sampleEvents.foldl handle (Interrupts.initial 0)) :=
  .cons ⟨trivial, rfl⟩ (.cons ⟨⟨by decide, by decide⟩, rfl⟩ (.cons ⟨⟨by decide, by decide⟩, rfl⟩
    (.cons ⟨by decide, rfl⟩ (.cons ⟨by decide, rfl⟩ (.nil _)))))

theorem interrupts_are_never_lost_sample :
    (sampleEvents.foldl handle (Interrupts.initial 0)).lapic.irr = outstanding ∅ sampleEvents :=
  (interrupts_are_never_lost (initial_resting 0) sampleEvents_run).2.1

theorem interrupts_are_accounted_sample :
    (sampleEvents.foldl handle (Interrupts.initial 0)).drivers = 1 :=
  (interrupts_are_accounted (initial_resting 0) sampleEvents_run).1

theorem sample_missed {k : Interrupts ℕ} (h : Resting k) (hirr : k.lapic.irr = ∅) :
    ∃ k', Run Serving k [.request 33, .take 33] k' ∧ Resting k' ∧ k'.lapic.irr = ∅ := by
  have hrequest : Serving k (.request 33) (handle k (.request 33)) := ⟨⟨by decide, by decide⟩, rfl⟩
  have hpending : (handle k (.request 33)).lapic.pending = some 33 := by
    have hset : (handle k (.request 33)).lapic.irr = {33} := by
      change insert 33 k.lapic.irr = _
      rw [hirr, insert_empty_eq]
    rw [(h.serving hrequest).pending, hset]
    decide
  have hrun : Run Serving k [.request 33, .take 33] (handle (handle k (.request 33)) (.take 33)) :=
    .cons hrequest (.cons ⟨hpending, rfl⟩ (.nil _))
  refine ⟨_, hrun, h.run hrun, ?_⟩
  rw [run_outstanding h hrun, hirr]
  decide

/-- Of seven interrupts of IRQ 1 five are reported. -/
theorem log_is_not_flooded_sample : ∃ k', Run Serving (Interrupts.initial 0)
    (List.replicate 7 [.request 33, .take 33]).flatten k' ∧ k'.logged.length = 5 := by
  have hall (n : ℕ) : ∃ k', Run Serving (Interrupts.initial 0) (List.replicate n [.request 33, .take 33]).flatten k' ∧
      Resting k' ∧ k'.lapic.irr = ∅ := by
    induction n with
    | zero => exact ⟨_, .nil _, initial_resting 0, rfl⟩
    | succ n ih =>
      obtain ⟨k', hrun, hrest, hirr⟩ := ih
      obtain ⟨k'', hone, hrest', hirr'⟩ := sample_missed hrest hirr
      refine ⟨k'', ?_, hrest', hirr'⟩
      rw [List.replicate_succ', List.flatten_append, List.flatten_singleton]
      exact hrun.append hone
  obtain ⟨k', hrun, -, -⟩ := hall 7
  refine ⟨k', hrun, ?_⟩
  rw [(log_is_not_flooded (initial_resting 0) hrun (fun _ => rfl) rfl).1]
  decide

end Sample

end VenturaOS.Idt
