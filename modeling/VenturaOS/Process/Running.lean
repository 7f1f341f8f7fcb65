import Mathlib.Data.Set.Basic
import VenturaOS.Context.Switch
import VenturaOS.Process.Model
import VenturaOS.Vmm.Boot

/-!
# The running thread

Threads stand in the lists of processes or with the code that made them. One
of them executes, and calls `switch_to` with itself as the current thread.
Whatever the others are, they do not run: neither by the state in the thread
nor by the one in its context.
-/
namespace VenturaOS.Processes
open Library Memory Context Thread

inductive Place
  | member (p i : ℕ)
  | loose (i : ℕ)
deriving DecidableEq

structure Roster where
  kernel : Kernel
  counters : Counters
  processes : List Process
  /-- Threads from `KernelThread::new` that belong to no process. -/
  loose : List KernelThread
  executing : Place

namespace Roster

def thread (z : Roster) : Place → Option KernelThread
  | .member p i => (z.processes[p]?).bind fun q => q.threads[i]?
  | .loose i => z.loose[i]?

def setThread (z : Roster) (t : KernelThread) : Place → Roster
  | .member p i => { z with processes := z.processes.modify p fun q => { q with threads := q.threads.set i t } }
  | .loose i => { z with loose := z.loose.set i t }

/-- `switch_to` from the executing thread; `rsp` and `rip` are what `switch_context` saves. -/
def switchTo (z : Roster) (target : Place) (current next : KernelThread) (rsp rip : U64) :
    Except SwitchError Unit × Roster :=
  match Thread.switchTo current next rsp rip with
  | .error e => (.error e, z)
  | .ok (current', next') =>
    (.ok (), { (z.setThread current' z.executing).setThread next' target with executing := target })

end Roster

inductive RosterOp
  | newThread (name : String) (entry arg : U64)
  | createThread (p : ℕ) (name : String) (entry arg : U64)
  | terminate (p : ℕ)
  | switchTo (source target : Place) (result : Except SwitchError Unit)
  /-- Anything else the kernel does in between. -/
  | other

inductive RosterStep (initialContextEntry : U64) : Roster → RosterOp → Roster → Prop
  | newThread {z : Roster} {name : String} {entry arg : U64} {t : KernelThread} {k : Kernel} {c : Counters} :
      newRaw initialContextEntry name entry arg z.kernel z.counters = (.ok t, k, c) →
      RosterStep initialContextEntry z (.newThread name entry arg)
        { z with kernel := k, counters := c, loose := z.loose ++ [t] }
  | newThreadFails {z : Roster} {name : String} {entry arg : U64} {e : ThreadError} {k : Kernel} {c : Counters} :
      newRaw initialContextEntry name entry arg z.kernel z.counters = (.error e, k, c) →
      RosterStep initialContextEntry z (.newThread name entry arg) { z with kernel := k, counters := c }
  | createThread {z : Roster} {i : ℕ} {name : String} {entry arg : U64} {p p' : Process}
      {result : Except ProcessError ℕ} {k : Kernel} {c : Counters} : z.processes[i]? = some p →
      p.createThread initialContextEntry name entry arg z.kernel z.counters = (result, p', k, c) →
      RosterStep initialContextEntry z (.createThread i name entry arg)
        { z with kernel := k, counters := c, processes := z.processes.set i p' }
  | terminate {z : Roster} {i : ℕ} :
      RosterStep initialContextEntry z (.terminate i) { z with processes := z.processes.modify i Process.terminate }
  | switchTo {z z' : Roster} {target : Place} {current next : KernelThread} {rsp rip : U64}
      {result : Except SwitchError Unit} : z.thread z.executing = some current → z.thread target = some next →
      z.switchTo target current next rsp rip = (result, z') →
      RosterStep initialContextEntry z (.switchTo z.executing target result) z'
  | other {z : Roster} {k : Kernel} : RosterStep initialContextEntry z .other { z with kernel := k }

/-- A thread as `KernelThread::new` makes it. -/
def Fresh (t : KernelThread) : Prop := t.state = .created ∧ t.context.state = .initialized

/-- A running thread executes, and all other threads are fresh. -/
structure Start (z : Roster) : Prop where
  running : ∃ t, z.thread z.executing = some t ∧ t.state = .running
  fresh : ∀ {pos t}, pos ≠ z.executing → z.thread pos = some t → Fresh t

section Fresh

variable {entry : U64} {name : String} {start arg : U64} {k k' : Kernel} {c c' : Counters} {t : KernelThread}

theorem newRaw_fresh (h : newRaw entry name start arg k c = (.ok t, k', c')) : Fresh t := by
  unfold newRaw at h
  split_ifs at h
  · cases h
  · generalize KernelStack.allocate k = got at h
    rcases got with ⟨_ | stack, k₁⟩
    · cases h
    · simp only at h
      have hctx : ∀ ctx bytes, createContextRaw entry start stack c.nextContextId k₁.bytes = .ok (ctx, bytes) →
          ctx.state = .initialized := by
        intro ctx bytes hmade
        unfold createContextRaw at hmade
        split_ifs at hmade
        cases hmade
        rfl
      rcases hmade : createContextRaw entry start stack c.nextContextId k₁.bytes with _ | ⟨ctx, bytes⟩
      · rw [hmade] at h
        cases h
      · rw [hmade] at h
        cases h
        exact ⟨rfl, hctx ctx bytes hmade⟩

theorem createThread_fresh {p p' : Process} {result : Except ProcessError ℕ}
    (h : p.createThread entry name start arg k c = (result, p', k', c')) :
    p' = p ∨ ∃ t, p' = { p with threads := p.threads ++ [t] } ∧ Fresh t := by
  unfold Process.createThread at h
  split_ifs at h
  · cases h
    exact .inl rfl
  · rcases hnew : newRaw entry name start arg k c with ⟨e | t, k₁, c₁⟩
    · rw [hnew] at h
      cases h
      exact .inl rfl
    · rw [hnew] at h
      cases h
      obtain ⟨hstate, hctx⟩ := newRaw_fresh hnew
      exact .inr ⟨_, rfl, hstate, hctx⟩

end Fresh

section Lookup

variable {z : Roster} {pos pos' : Place} {t u : KernelThread}

theorem Roster.setThread_self (h : z.thread pos = some u) : (z.setThread t pos).thread pos = some t := by
  cases pos with
  | member p i =>
    rw [Roster.thread, Option.bind_eq_some_iff] at h
    obtain ⟨q, hq, hi⟩ := h
    rw [Roster.setThread, Roster.thread]
    simp only
    rw [modify_same hq, Option.bind_some, List.getElem?_set_self (List.getElem?_eq_some_iff.mp hi).1]
  | loose i => exact List.getElem?_set_self (List.getElem?_eq_some_iff.mp h).1

theorem Roster.setThread_other (h : pos' ≠ pos) : (z.setThread t pos).thread pos' = z.thread pos' := by
  cases pos with
  | member p i =>
    cases pos' with
    | member q j =>
      rw [Roster.setThread, Roster.thread, Roster.thread]
      simp only
      by_cases hpq : p = q
      · subst hpq
        have hij : i ≠ j := by
          rintro rfl
          exact h rfl
        cases hr : z.processes[p]? with
        | none => rw [List.getElem?_modify_eq, hr]; rfl
        | some r =>
          rw [modify_same hr, Option.bind_some, Option.bind_some]
          exact List.getElem?_set_ne hij
      · rw [modify_other hpq]
    | loose j => rfl
  | loose i =>
    cases pos' with
    | member q j => rfl
    | loose j =>
      apply List.getElem?_set_ne
      rintro rfl
      exact h rfl

end Lookup

/-- Threads so far, when those in `R` have executed: the ones that do not execute now are suspended if
they have, and as they were made if they have not. -/
structure Settled (R : Set Place) (z : Roster) : Prop where
  executing : z.executing ∈ R
  exist : ∀ {pos}, pos ∈ R → z.thread pos ≠ none
  idle : ∀ {pos t}, pos ≠ z.executing → z.thread pos = some t → t.state ≠ .running
  suspended : ∀ {pos t}, pos ≠ z.executing → pos ∈ R → z.thread pos = some t → t.context.state = .suspended
  initialized : ∀ {pos t}, pos ∉ R → z.thread pos = some t → t.context.state = .initialized

section Steps

variable {entry : U64} {R : Set Place} {z z' : Roster} {op : RosterOp}

theorem Start.settled (h : Start z) : Settled {z.executing} z where
  executing := rfl
  exist := by
    rintro pos rfl
    obtain ⟨t, ht, -⟩ := h.running
    rw [ht]
    exact Option.some_ne_none t
  idle := by
    intro pos t hpos ht
    rw [(h.fresh hpos ht).1]
    decide
  suspended hpos hR := absurd hR hpos
  initialized hR ht := (h.fresh hR ht).2

/-- Threads keep their places and what they are; what is new is fresh. -/
theorem Settled.grown (h : Settled R z) (he : z'.executing = z.executing)
    (hthread : ∀ pos, z'.thread pos = z.thread pos ∨
      z.thread pos = none ∧ ∃ t, z'.thread pos = some t ∧ Fresh t) : Settled R z' where
  executing := he ▸ h.executing
  exist := by
    intro pos hR
    rcases hthread pos with hsame | ⟨hnone, -⟩
    · rw [hsame]
      exact h.exist hR
    · exact absurd hnone (h.exist hR)
  idle := by
    intro pos t hpos ht
    rw [he] at hpos
    rcases hthread pos with hsame | ⟨-, u, hu, hfresh⟩
    · exact h.idle hpos (hsame ▸ ht)
    · cases ht.symm.trans hu
      rw [hfresh.1]
      decide
  suspended := by
    intro pos t hpos hR ht
    rw [he] at hpos
    rcases hthread pos with hsame | ⟨hnone, -⟩
    · exact h.suspended hpos hR (hsame ▸ ht)
    · exact absurd hnone (h.exist hR)
  initialized := by
    intro pos t hR ht
    rcases hthread pos with hsame | ⟨-, u, hu, hfresh⟩
    · exact h.initialized hR (hsame ▸ ht)
    · cases ht.symm.trans hu
      exact hfresh.2

theorem Settled.terminate (h : Settled R z) (i : ℕ) :
    Settled R { z with processes := z.processes.modify i Process.terminate } := by
  generalize hz : ({ z with processes := z.processes.modify i Process.terminate } : Roster) = z'
  have he : z'.executing = z.executing := by rw [← hz]
  have hthread (pos : Place) : z'.thread pos = z.thread pos ∨
      z'.thread pos = (z.thread pos).map fun t => { t with state := .terminated } := by
    rw [← hz]
    cases pos with
    | loose j => exact .inl rfl
    | member p j =>
      rw [Roster.thread, Roster.thread]
      simp only
      by_cases hp : i = p
      · subst hp
        cases hq : z.processes[i]? with
        | none => exact .inl (by rw [List.getElem?_modify_eq, hq]; rfl)
        | some q =>
          refine .inr ?_
          rw [modify_same hq, Option.bind_some, Option.bind_some, Process.terminate, List.getElem?_map]
      · rw [modify_other hp]
        exact .inl rfl
  have hcases {pos : Place} {t : KernelThread} (ht : z'.thread pos = some t) :
      z.thread pos = some t ∨ ∃ u, z.thread pos = some u ∧ t = { u with state := .terminated } := by
    rcases hthread pos with hsame | hmap
    · exact .inl (hsame ▸ ht)
    · rw [hmap, Option.map_eq_some_iff] at ht
      obtain ⟨u, hu, rfl⟩ := ht
      exact .inr ⟨u, hu, rfl⟩
  refine
    { executing := he ▸ h.executing
      exist := ?_
      idle := ?_
      suspended := ?_
      initialized := ?_ }
  · intro pos hR
    rcases hthread pos with hsame | hmap
    · rw [hsame]
      exact h.exist hR
    · rw [hmap, ne_eq, Option.map_eq_none_iff]
      exact h.exist hR
  · intro pos t hpos ht
    rw [he] at hpos
    rcases hcases ht with ht | ⟨u, -, rfl⟩
    · exact h.idle hpos ht
    · exact fun hbad => by cases hbad
  · intro pos t hpos hR ht
    rw [he] at hpos
    rcases hcases ht with ht | ⟨u, hu, rfl⟩
    · exact h.suspended hpos hR ht
    · have hctx := h.suspended hpos hR hu
      exact hctx
  · intro pos t hR ht
    rcases hcases ht with ht | ⟨u, hu, rfl⟩
    · exact h.initialized hR ht
    · have hctx := h.initialized hR hu
      exact hctx

/-- The contexts an accepted switch records are what the instructions of `switch_context` leave in memory. -/
theorem switchTo_in_memory {c : Cpu} {prev target : ℕ} {current next current' next' : KernelThread} {ret : U64}
    (h : SwitchReady c prev target) (hcur : InMemory c.mem prev current.context)
    (hnext : InMemory c.mem target next.context)
    (hswitch : Thread.switchTo current next (c.regs .rsp - 80#64) ret = .ok (current', next')) :
    InMemory (callSwitchContext ret c).mem prev current'.context ∧
      InMemory (callSwitchContext ret c).mem target next'.context := by
  obtain ⟨-, rfl, rfl⟩ := switchTo_ok hswitch
  exact callSwitchContext_contexts ret h hcur hnext

theorem switchTo_refused {target : Place} {current next : KernelThread} {rsp rip : U64} {e : SwitchError}
    (h : z.switchTo target current next rsp rip = (.error e, z')) : z' = z := by
  unfold Roster.switchTo at h
  rcases hswitch : Thread.switchTo current next rsp rip with e | ⟨current', next'⟩
  · rw [hswitch] at h
    cases h
    rfl
  · rw [hswitch] at h
    cases h

theorem Settled.switched (h : Settled R z) {target : Place} {current next : KernelThread} {rsp rip : U64}
    (hcur : z.thread z.executing = some current) (hnext : z.thread target = some next)
    (hswitch : z.switchTo target current next rsp rip = (.ok (), z')) : Settled (R ∪ {target}) z' := by
  unfold Roster.switchTo at hswitch
  rcases hto : Thread.switchTo current next rsp rip with e | ⟨current', next'⟩
  · rw [hto] at hswitch
    cases hswitch
  rw [hto] at hswitch
  cases hswitch
  obtain ⟨hcheck, hcurrent', -⟩ := switchTo_ok hto
  have hids := (switchCheck_none hcheck).1
  have hready : current'.state = .ready := by rw [hcurrent']
  have hsuspended : current'.context.state = .suspended := by rw [hcurrent']
  have hpos : target ≠ z.executing := by
    rintro rfl
    rw [hcur] at hnext
    cases hnext
    exact hids rfl
  have hnext' : (z.setThread current' z.executing).thread target = some next := by
    rw [Roster.setThread_other hpos, hnext]
  have htarget : ((z.setThread current' z.executing).setThread next' target).thread target = some next' :=
    Roster.setThread_self hnext'
  have hsource : ((z.setThread current' z.executing).setThread next' target).thread z.executing = some current' := by
    rw [Roster.setThread_other hpos.symm, Roster.setThread_self hcur]
  have hother {pos : Place} (h1 : pos ≠ target) (h2 : pos ≠ z.executing) :
      ((z.setThread current' z.executing).setThread next' target).thread pos = z.thread pos := by
    rw [Roster.setThread_other h1, Roster.setThread_other h2]
  generalize (z.setThread current' z.executing).setThread next' target = y at htarget hsource hother
  refine
    { executing := .inr rfl
      exist := ?_
      idle := ?_
      suspended := ?_
      initialized := ?_ }
  · intro pos hR
    change y.thread pos ≠ none
    by_cases h1 : pos = target
    · rw [h1, htarget]
      exact Option.some_ne_none next'
    · by_cases h2 : pos = z.executing
      · rw [h2, hsource]
        exact Option.some_ne_none current'
      · rw [hother h1 h2]
        exact h.exist (hR.resolve_right h1)
  · intro pos t h1 ht
    change y.thread pos = some t at ht
    by_cases h2 : pos = z.executing
    · rw [h2, hsource] at ht
      cases ht
      rw [hready]
      decide
    · rw [hother h1 h2] at ht
      exact h.idle h2 ht
  · intro pos t h1 hR ht
    change y.thread pos = some t at ht
    by_cases h2 : pos = z.executing
    · rw [h2, hsource] at ht
      cases ht
      exact hsuspended
    · rw [hother h1 h2] at ht
      exact h.suspended h2 (hR.resolve_right h1) ht
  · intro pos t hR ht
    change y.thread pos = some t at ht
    have h1 : pos ≠ target := fun hbad => hR (.inr hbad)
    have h2 : pos ≠ z.executing := fun hbad => hR (.inl (hbad ▸ h.executing))
    rw [hother h1 h2] at ht
    exact h.initialized (fun hin => hR (.inl hin)) ht

/-- The threads that some accepted switch has switched to. -/
def entered (ops : List RosterOp) : Set Place := {pos | ∃ source, .switchTo source pos (.ok ()) ∈ ops}

theorem entered_cons (op : RosterOp) (ops : List RosterOp) : entered (op :: ops) = entered [op] ∪ entered ops := by
  ext pos
  simp only [entered, Set.mem_ofPred_eq, Set.mem_union, List.mem_cons, List.not_mem_nil, or_false, exists_or]

theorem Settled.step (h : Settled R z) (hstep : RosterStep entry z op z') : Settled (R ∪ entered [op]) z' := by
  have hnone (hop : ∀ source target, op ≠ .switchTo source target (.ok ())) : R ∪ entered [op] = R := by
    rw [Set.union_eq_left]
    rintro pos ⟨source, hmem⟩
    exact absurd (List.mem_singleton.mp hmem).symm (hop source pos)
  cases hstep with
  | @newThread _ _ _ t k c hnew =>
    rw [hnone (by simp)]
    refine h.grown rfl fun pos => ?_
    cases pos with
    | member p i => exact .inl rfl
    | loose i =>
      simp only [Roster.thread]
      rcases lt_trichotomy i z.loose.length with hlt | rfl | hgt
      · exact .inl (List.getElem?_append_left hlt)
      · exact .inr ⟨List.getElem?_eq_none le_rfl, t, List.getElem?_concat_length, newRaw_fresh hnew⟩
      · refine .inl ?_
        rw [List.getElem?_eq_none (by rw [List.length_append, List.length_singleton]; omega),
          List.getElem?_eq_none (by omega)]
  | newThreadFails =>
    rw [hnone (by simp)]
    exact h.grown rfl fun _ => .inl rfl
  | @createThread p name start arg q q' result k c hq hmade =>
    rw [hnone (by simp)]
    refine h.grown rfl fun pos => ?_
    cases pos with
    | loose i => exact .inl rfl
    | member p' i =>
      simp only [Roster.thread]
      by_cases hp : p = p'
      · subst hp
        rw [List.getElem?_set_self (List.getElem?_eq_some_iff.mp hq).1, hq, Option.bind_some, Option.bind_some]
        rcases createThread_fresh hmade with rfl | ⟨t, rfl, hfresh⟩
        · exact .inl rfl
        · rcases lt_trichotomy i q.threads.length with hlt | rfl | hgt
          · exact .inl (List.getElem?_append_left hlt)
          · exact .inr ⟨List.getElem?_eq_none le_rfl, t, List.getElem?_concat_length, hfresh⟩
          · refine .inl ?_
            rw [List.getElem?_eq_none (by rw [List.length_append, List.length_singleton]; omega),
              List.getElem?_eq_none (by omega)]
      · exact .inl (by rw [List.getElem?_set_ne hp])
  | terminate =>
    rw [hnone (by simp)]
    exact h.terminate _
  | @switchTo _ target current next rsp rip result hcur hnext hswitch =>
    cases result with
    | error e =>
      rw [hnone (by simp), switchTo_refused hswitch]
      exact h
    | ok =>
      have hentered : entered [.switchTo z.executing target (.ok ())] = {target} := by
        ext pos
        simp [entered]
      rw [hentered]
      exact h.switched hcur hnext hswitch
  | other =>
    rw [hnone (by simp)]
    exact h.grown rfl fun _ => .inl rfl

/-- Over a run: what has executed is known from the switches, and only such threads were switched from. -/
theorem Settled.run {ops : List RosterOp} (h : Settled R z) (hrun : Run (RosterStep entry) z ops z') :
    Settled (R ∪ entered ops) z' ∧
      ∀ source target, .switchTo source target (.ok ()) ∈ ops → source ∈ R ∪ entered ops := by
  induction hrun generalizing R with
  | nil =>
    have hempty : R ∪ entered [] = R := by
      rw [Set.union_eq_left]
      rintro pos ⟨source, hmem⟩
      cases hmem
    rw [hempty]
    exact ⟨h, fun _ _ hmem => by cases hmem⟩
  | @cons z y z' op ops hstep _ ih =>
    obtain ⟨hend, hsources⟩ := ih (h.step hstep)
    rw [Set.union_assoc, ← entered_cons] at hend hsources
    refine ⟨hend, fun source target hmem => ?_⟩
    rcases List.mem_cons.mp hmem with rfl | hmem
    · cases hstep
      exact .inl h.executing
    · exact hsources source target hmem

end Steps

/-- In every run of switches by the executing thread, creations and terminations, the other threads do not run:
one that was switched from is suspended, one that never ran is as it was made. A refused switch changes nothing. -/
theorem one_running_thread {entry : U64} {z₀ z : Roster} {ops : List RosterOp} (h : Start z₀)
    (hrun : Run (RosterStep entry) z₀ ops z) :
    (∀ pos t, pos ≠ z.executing → z.thread pos = some t → t.state ≠ .running ∧ t.context.state ≠ .running ∧
      ((∃ target, .switchTo pos target (.ok ()) ∈ ops) → t.context.state = .suspended) ∧
      ((pos ≠ z₀.executing ∧ ∀ source, .switchTo source pos (.ok ()) ∉ ops) → t.context.state = .initialized)) ∧
    ∀ source target e z', RosterStep entry z (.switchTo source target (.error e)) z' → z' = z := by
  obtain ⟨hend, hsources⟩ := h.settled.run hrun
  refine ⟨fun pos t hpos ht => ⟨hend.idle hpos ht, ?_, ?_, ?_⟩, ?_⟩
  · by_cases hR : pos ∈ {z₀.executing} ∪ entered ops
    · rw [hend.suspended hpos hR ht]
      decide
    · rw [hend.initialized hR ht]
      decide
  · rintro ⟨target, hmem⟩
    exact hend.suspended hpos (hsources pos target hmem) ht
  · rintro ⟨hstart, hnever⟩
    refine hend.initialized ?_ ht
    rintro (rfl | ⟨source, hmem⟩)
    · exact hstart rfl
    · exact hnever source hmem
  · intro source target e z' hstep
    cases hstep with
    | switchTo hcur hnext hswitch => exact switchTo_refused hswitch

/-- A thread that has been created and not run yet. -/
def freshThread : KernelThread :=
  { Thread.bootstrap with
    id := 1
    name := "thread_a1"
    state := .created
    context := { ExecutionContext.empty with rsp := 0xFFFF800000003FB0, rip := 0x300000, state := .initialized } }

/-- The bootstrap thread in its process, and one thread outside it. -/
def sampleRoster (a b : KernelThread) (executing : Place) : Roster where
  kernel := Vmm.sampleInfo.kernel
  counters := ⟨2, 2⟩
  processes := [⟨0, "kernel_bootstrap", .running, [a], ⟨0, ⟨0x800000⟩, false⟩⟩]
  loose := [b]
  executing := executing

theorem sampleRoster_start : Start (sampleRoster Thread.bootstrap freshThread (.member 0 0)) where
  running := ⟨Thread.bootstrap, rfl, rfl⟩
  fresh := by
    intro pos t hpos ht
    rcases pos with ⟨p, i⟩ | i
    · rcases p with _ | p
      · rcases i with _ | i
        · exact absurd rfl hpos
        · cases ht
      · cases ht
    · rcases i with _ | i
      · cases ht
        exact ⟨rfl, rfl⟩
      · cases ht

/-- The new thread is entered, ends the bootstrap process and cannot switch back. -/
theorem sample_one_running : ∃ a z, Run (RosterStep 0x300000)
      (sampleRoster Thread.bootstrap freshThread (.member 0 0))
      [.switchTo (.member 0 0) (.loose 0) (.ok ()), .terminate 0,
        .switchTo (.loose 0) (.member 0 0) (.error .targetTerminated)] z ∧
    z.thread (.member 0 0) = some a ∧ a.state ≠ .running ∧ a.context.state = .suspended := by
  have hforth : Roster.switchTo (sampleRoster Thread.bootstrap freshThread (.member 0 0)) (.loose 0)
    Thread.bootstrap freshThread 0x12000 0x5000 = (.ok (), _) := rfl
  have hback (z : Roster) (a b : KernelThread) (hids : b.id ≠ a.id) (hended : a.state = .terminated) :
      z.switchTo (.member 0 0) b a 0xFFFF800000003000 0x301000 = (.error .targetTerminated, z) := by
    simp [Roster.switchTo, Thread.switchTo, switchCheck, hids, hended]
  have hfirst : RosterStep 0x300000 _ _ _ := .switchTo rfl rfl hforth
  have hrun := Run.cons hfirst
    (.cons (.terminate (i := 0)) (.single (.switchTo rfl rfl (hback _ _ _ (by decide) rfl))))
  obtain ⟨hidle, -⟩ := one_running_thread sampleRoster_start hrun
  have hsample := hidle (.member 0 0) _ (by decide) rfl
  exact ⟨_, _, hrun, rfl, hsample.1, hsample.2.2.1 ⟨.loose 0, by simp [sampleRoster]⟩⟩

end VenturaOS.Processes
