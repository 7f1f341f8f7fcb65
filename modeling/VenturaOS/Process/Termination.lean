import VenturaOS.Process.Model
import VenturaOS.Vmm.Boot

/-!
# Terminated threads

A thread of a terminated process stays terminated as long as it does not
itself call `switch_to`: that call makes the calling thread ready again
whatever its state was.
-/
namespace VenturaOS.Processes
open Library Thread

/-- A process passes its own check, and its threads ended with it. -/
structure Process.Sound (p : Process) (nextThreadId : ℕ) : Prop where
  named : p.id = 0 → p.name = "kernel_bootstrap"
  owned : ∀ t ∈ p.threads, t.processId = p.id
  fresh : ∀ t ∈ p.threads, t.id < nextThreadId
  distinct : (p.threads.map KernelThread.id).Nodup
  ended : p.state = .terminated → ∀ t ∈ p.threads, t.state = .terminated

def Sound (y : Table) : Prop := ∀ p ∈ y.processes, p.Sound y.counters.nextThreadId

/-- The executing thread, if terminated, only makes calls of `switch_to` that are refused. -/
def Guarded (y : Table) : Op → Prop
  | .switchTo target => ∀ current next, y.thread y.executing = some current → y.thread target = some next →
      current.state = .terminated → switchCheck current next ≠ none
  | _ => True

def GuardedStep (entry : U64) (y : Table) (op : Op) (y' : Table) : Prop := Step entry y op y' ∧ Guarded y op

section Verify

theorem repeatsId_eq_false {ts : List KernelThread} (h : (ts.map KernelThread.id).Nodup) :
    Process.repeatsId ts = false := by
  induction ts with
  | nil => rfl
  | cons t ts ih =>
    rw [List.map_cons, List.nodup_cons] at h
    rw [Process.repeatsId, ih h.2, Bool.or_false, List.any_eq_false]
    intro u hu
    simp only [decide_eq_true_eq]
    intro he
    exact h.1 (List.mem_map.mpr ⟨u, hu, he.symm⟩)

theorem Process.Sound.verify {p : Process} {n : ℕ} (h : p.Sound n) : p.verify = .ok () := by
  have hnamed : ¬(p.id = 0 ∧ p.name ≠ "kernel_bootstrap") := fun hn => hn.2 (h.named hn.1)
  have hended : ¬(p.state = .terminated ∧ (p.threads.any fun t => t.state = .running) = true) := by
    rintro ⟨hs, hany⟩
    rcases List.any_eq_true.mp hany with ⟨t, ht, hrun⟩
    rw [decide_eq_true_eq, h.ended hs t ht] at hrun
    cases hrun
  have howned : ¬(p.threads.any fun t => t.processId ≠ p.id) = true := by
    intro hany
    rcases List.any_eq_true.mp hany with ⟨t, ht, hne⟩
    exact (of_decide_eq_true hne) (h.owned t ht)
  rw [Process.verify, if_neg hnamed, if_neg hended, if_neg howned, repeatsId_eq_false h.distinct,
    if_neg Bool.false_ne_true]

end Verify

section Threads

variable {y : Table} {pos pos' : ℕ × ℕ} {t u : KernelThread}

theorem thread_eq_some : y.thread pos = some t ↔ ∃ p, y.processes[pos.1]? = some p ∧ p.threads[pos.2]? = some t := by
  rw [Table.thread, Option.bind_eq_some_iff]

theorem setThread_other (h : pos' ≠ pos) : (y.setThread pos t).thread pos' = y.thread pos' := by
  rcases pos with ⟨i, a⟩
  rcases pos' with ⟨j, b⟩
  simp only [Table.thread, Table.setThread]
  by_cases hij : i = j
  · subst hij
    have hab : a ≠ b := by
      rintro rfl
      exact h rfl
    cases hp : y.processes[i]? with
    | none => rw [List.getElem?_modify_eq, hp]; rfl
    | some p =>
      rw [modify_same hp, Option.bind_some, Option.bind_some]
      exact List.getElem?_set_ne hab
  · rw [modify_other hij]

/-- A thread that is not terminated may be replaced by one of the same identity. -/
theorem Sound.setThread (h : Sound y) (ht : y.thread pos = some t) (hlive : t.state ≠ .terminated) (hid : u.id = t.id)
    (hpid : u.processId = t.processId) : Sound (y.setThread pos u) := by
  rcases thread_eq_some.mp ht with ⟨p, hp, hpt⟩
  have hsound := h p (List.mem_of_getElem? hp)
  have hmem : t ∈ p.threads := List.mem_of_getElem? hpt
  intro q hq
  rcases List.mem_iff_getElem?.mp hq with ⟨j, hj⟩
  simp only [Table.setThread] at hj
  by_cases hij : pos.1 = j
  · subst hij
    rw [modify_same hp, Option.some.injEq] at hj
    subst hj
    have hin : ∀ v ∈ p.threads.set pos.2 u, v ∈ p.threads ∨ v = u := fun v hv => List.mem_or_eq_of_mem_set hv
    have hids : (p.threads.set pos.2 u).map KernelThread.id = p.threads.map KernelThread.id := by
      rw [List.map_set, hid]
      apply List.ext_getElem?
      intro k
      rw [List.getElem?_set]
      split_ifs with hk hlt
      · rw [← hk, List.getElem?_map, hpt, Option.map_some]
      · rw [← hk, eq_comm, List.getElem?_eq_none_iff]
        omega
      · rfl
    refine ⟨hsound.named, fun v hv => ?_, fun v hv => ?_, by rw [hids]; exact hsound.distinct, fun hs => ?_⟩
    · rcases hin v hv with hv | rfl
      · exact hsound.owned v hv
      · rw [hpid]
        exact hsound.owned t hmem
    · rcases hin v hv with hv | rfl
      · exact hsound.fresh v hv
      · rw [hid]
        exact hsound.fresh t hmem
    · exact absurd (hsound.ended hs t hmem) hlive
  · rw [modify_other hij] at hj
    exact h q (List.mem_of_getElem? hj)

end Threads

section Steps

variable {entry : U64} {y y' : Table} {op : Op}

theorem createThread_cases {name : String} {start arg : U64} {p p' : Process} {k k' : Kernel} {c c' : Counters}
    {result : Except ProcessError ℕ}
    (h : p.createThread entry name start arg k c = (result, p', k', c')) :
    (p' = p ∧ c' = c) ∨ ∃ t, p' = { p with threads := p.threads ++ [t] } ∧ p.state ≠ .terminated ∧ t.processId = p.id ∧
      t.id = c.nextThreadId ∧ c'.nextThreadId = c.nextThreadId + 1 := by
  unfold Process.createThread at h
  split_ifs at h with hs
  · cases h
    exact .inl ⟨rfl, rfl⟩
  · have hcount : ∀ e k₁ c₁, newRaw entry name start arg k c = (.error e, k₁, c₁) → c₁ = c := by
      intro e k₁ c₁ hnew
      unfold newRaw at hnew
      split_ifs at hnew
      · cases hnew
        rfl
      · generalize Context.KernelStack.allocate k = got at hnew
        rcases got with ⟨_ | stack, k₂⟩
        · cases hnew
          rfl
        · simp only at hnew
          generalize Context.createContextRaw entry start stack c.nextContextId k₂.bytes = made at hnew
          rcases made with _ | ⟨ctx, bytes⟩
          · cases hnew
            rfl
          · cases hnew
    have hthread : ∀ t k₁ c₁, newRaw entry name start arg k c = (.ok t, k₁, c₁) →
        t.id = c.nextThreadId ∧ c₁.nextThreadId = c.nextThreadId + 1 := by
      intro t k₁ c₁ hnew
      unfold newRaw at hnew
      split_ifs at hnew
      · cases hnew
      · generalize Context.KernelStack.allocate k = got at hnew
        rcases got with ⟨_ | stack, k₂⟩
        · cases hnew
        · simp only at hnew
          generalize Context.createContextRaw entry start stack c.nextContextId k₂.bytes = made at hnew
          rcases made with _ | ⟨ctx, bytes⟩
          · cases hnew
          · cases hnew
            exact ⟨rfl, rfl⟩
    rcases hnew : newRaw entry name start arg k c with ⟨e | t, k₁, c₁⟩
    · rw [hnew] at h
      cases h
      exact .inl ⟨rfl, hcount e _ _ hnew⟩
    · rw [hnew] at h
      cases h
      rcases hthread t _ _ hnew with ⟨hid, hnext⟩
      exact .inr ⟨_, rfl, hs, rfl, hid, hnext⟩

theorem Sound.createThread (h : Sound y) {i : ℕ} {name : String} {start arg : U64} {p p' : Process} {k : Kernel}
    {c : Counters} {result : Except ProcessError ℕ} (hp : y.processes[i]? = some p)
    (hrun : p.createThread entry name start arg y.kernel y.counters = (result, p', k, c)) :
    Sound { y with kernel := k, counters := c, processes := y.processes.set i p' } := by
  have hsound := h p (List.mem_of_getElem? hp)
  rcases createThread_cases hrun with ⟨rfl, rfl⟩ | ⟨t, rfl, hs, hpid, hid, hnext⟩
  · intro q hq
    rcases List.mem_or_eq_of_mem_set hq with hq | rfl
    · exact h q hq
    · exact hsound
  · intro q hq
    rcases List.mem_or_eq_of_mem_set hq with hq | rfl
    · have hq' := h q hq
      exact { hq' with fresh := fun v hv => by simp only [hnext]; exact Nat.lt_succ_of_lt (hq'.fresh v hv) }
    · refine ⟨hsound.named, fun v hv => ?_, fun v hv => ?_, ?_, fun he => absurd he hs⟩
      · rcases List.mem_append.mp hv with hv | hv
        · exact hsound.owned v hv
        · rw [List.mem_singleton.mp hv, hpid]
      · simp only [hnext]
        rcases List.mem_append.mp hv with hv | hv
        · exact Nat.lt_succ_of_lt (hsound.fresh v hv)
        · rw [List.mem_singleton.mp hv, hid]
          exact Nat.lt_succ_self _
      · -- the new id is above all the old ones
        rw [List.map_append, List.nodup_append]
        refine ⟨hsound.distinct, List.nodup_singleton _, fun a ha b hb => ?_⟩
        rcases List.mem_map.mp ha with ⟨v, hv, rfl⟩
        rw [List.map_singleton, List.mem_singleton] at hb
        have := hsound.fresh v hv
        omega

theorem terminate_thread (y : Table) (i : ℕ) (pos : ℕ × ℕ) {t : KernelThread} (ht : y.thread pos = some t)
    (hs : t.state = .terminated) :
    Table.thread { y with processes := y.processes.modify i Process.terminate } pos = some t := by
  rcases thread_eq_some.mp ht with ⟨p, hp, hpt⟩
  have hsame : { t with state := ThreadState.terminated } = t := by
    rw [← hs]
  rw [Table.thread]
  simp only
  by_cases hi : i = pos.1
  · rw [hi, modify_same hp, Option.bind_some, Process.terminate, List.getElem?_map, hpt, Option.map_some, hsame]
  · rw [modify_other hi, hp, Option.bind_some, hpt]

theorem Sound.terminate (h : Sound y) (i : ℕ) :
    Sound { y with processes := y.processes.modify i Process.terminate } := by
  intro q hq
  rcases List.mem_iff_getElem?.mp hq with ⟨j, hj⟩
  simp only at hj
  by_cases hij : i = j
  · subst hij
    have hlt : i < y.processes.length := by
      have hl := (List.getElem?_eq_some_iff.mp hj).1
      rwa [List.length_modify] at hl
    have hp := List.getElem?_eq_getElem hlt
    generalize y.processes[i] = p at hp
    rw [modify_same hp, Option.some.injEq] at hj
    subst hj
    have hsound := h p (List.mem_of_getElem? hp)
    refine ⟨hsound.named, fun v hv => ?_, fun v hv => ?_, ?_, fun _ v hv => ?_⟩
    · rcases List.mem_map.mp hv with ⟨u, hu, rfl⟩
      exact hsound.owned u hu
    · rcases List.mem_map.mp hv with ⟨u, hu, rfl⟩
      exact hsound.fresh u hu
    · rw [Process.terminate, List.map_map]
      exact hsound.distinct
    · rcases List.mem_map.mp hv with ⟨u, -, rfl⟩
      rfl
  · rw [modify_other hij] at hj
    exact h q (List.mem_of_getElem? hj)

/-- An accepted switch keeps the identities of the two threads and makes the first one ready. -/
theorem switchTo_identities {current next current' next' : KernelThread} {rsp rip : U64}
    (h : Thread.switchTo current next rsp rip = .ok (current', next')) :
    switchCheck current next = none ∧ (current'.id = current.id ∧ current'.processId = current.processId ∧
      current'.state = .ready) ∧ next'.id = next.id ∧ next'.processId = next.processId := by
  obtain ⟨hcheck, rfl, rfl⟩ := switchTo_ok h
  exact ⟨hcheck, ⟨rfl, rfl, rfl⟩, rfl, rfl⟩

/-- A guarded step keeps the table sound and leaves terminated threads as they are. -/
theorem Sound.step (h : Sound y) (hstep : GuardedStep entry y op y') :
    Sound y' ∧ ∀ pos t, y.thread pos = some t → t.state = .terminated → y'.thread pos = some t := by
  rcases hstep with ⟨hstep, hguard⟩
  cases hstep with
  | @createThread i name start arg p p' result k c hp hrun =>
    refine ⟨h.createThread hp hrun, fun pos t ht _ => ?_⟩
    rcases thread_eq_some.mp ht with ⟨q, hq, hqt⟩
    rw [Table.thread]
    simp only
    by_cases hi : i = pos.1
    · subst hi
      rw [hp] at hq
      cases hq
      have hlt := (List.getElem?_eq_some_iff.mp hp).1
      rw [List.getElem?_set_self hlt, Option.bind_some]
      rcases createThread_cases hrun with ⟨rfl, -⟩ | ⟨u, rfl, -⟩
      · exact hqt
      · exact (List.getElem?_append_left (List.getElem?_eq_some_iff.mp hqt).1).trans hqt
    · rw [List.getElem?_set_ne hi, hq, Option.bind_some, hqt]
  | terminate => exact ⟨h.terminate _, fun pos t ht hs => terminate_thread y _ pos ht hs⟩
  | @switchTo target current next current' next' rsp rip hcur hnext hrun =>
    rcases switchTo_identities hrun with ⟨hcheck, ⟨hcid, hcpid, -⟩, hnid, hnpid⟩
    rcases switchCheck_none hcheck with ⟨hids, hlive⟩
    have hcurLive : current.state ≠ .terminated := fun hs => hguard current next hcur hnext hs hcheck
    have hpos : target ≠ y.executing := by
      rintro rfl
      rw [hcur] at hnext
      cases hnext
      exact hids rfl
    have hfirst := h.setThread hcur hcurLive hcid hcpid
    have hnext' : (y.setThread y.executing current').thread target = some next := by
      rw [setThread_other hpos, hnext]
    refine ⟨hfirst.setThread hnext' hlive hnid hnpid, fun pos t ht hs => ?_⟩
    have hne : pos ≠ y.executing := by
      rintro rfl
      rw [hcur] at ht
      cases ht
      exact hcurLive hs
    have hne' : pos ≠ target := by
      rintro rfl
      rw [hnext] at ht
      cases ht
      exact hlive hs
    change ((y.setThread y.executing current').setThread target next').thread pos = some t
    rw [setThread_other hne', setThread_other hne, ht]
  | switchFails => exact ⟨h, fun pos t ht _ => ht⟩
  | other => exact ⟨h, fun pos t ht _ => ht⟩

/-- An accepted switch by a terminated thread makes it ready again. -/
theorem unguarded_revives {target : ℕ × ℕ} {current next : KernelThread} (hstep : Step entry y (.switchTo target) y')
    (hcur : y.thread y.executing = some current) (hnext : y.thread target = some next)
    (hcheck : switchCheck current next = none) :
    ∃ t, y'.thread y.executing = some t ∧ t.state = .ready := by
  cases hstep with
  | @switchTo _ cur nxt current' next' rsp rip hcur' hnext' hrun =>
    rw [hcur] at hcur'
    rw [hnext] at hnext'
    cases hcur'
    cases hnext'
    rcases switchTo_identities hrun with ⟨-, ⟨-, -, hready⟩, -, -⟩
    have hpos : y.executing ≠ target := by
      intro he
      rw [← he, hcur] at hnext
      cases hnext
      exact (switchCheck_none hcheck).1 rfl
    refine ⟨current', ?_, hready⟩
    change ((y.setThread y.executing current').setThread target next').thread y.executing = some current'
    rw [setThread_other hpos]
    rcases thread_eq_some.mp hcur with ⟨p, hp, hpt⟩
    simp only [Table.thread, Table.setThread]
    rw [modify_same hp, Option.bind_some, List.getElem?_set_self (List.getElem?_eq_some_iff.mp hpt).1]
  | @switchFails _ cur nxt rsp rip e hcur' hnext' hrun =>
    rw [hcur] at hcur'
    rw [hnext] at hnext'
    cases hcur'
    cases hnext'
    rw [Thread.switchTo, hcheck] at hrun
    cases hrun

/-- Terminated is final and every process verifies in the runs whose steps are guarded; any other step
revives a terminated thread. -/
theorem terminated_final_iff_guarded {y₀ : Table} (h : Sound y₀) :
    (∀ ops y ops' y', Run (GuardedStep entry) y₀ ops y → Run (GuardedStep entry) y ops' y' →
      (∀ pos t, y.thread pos = some t → t.state = .terminated → y'.thread pos = some t) ∧
        ∀ p ∈ y'.processes, p.verify = .ok ()) ∧
      ∀ ops y target y', Run (Step entry) y₀ ops y → Step entry y (.switchTo target) y' →
        ¬ Guarded y (.switchTo target) →
        ∃ t t', y.thread y.executing = some t ∧ t.state = .terminated ∧ y'.thread y.executing = some t' ∧
          t'.state ≠ .terminated := by
  constructor
  · intro ops y ops' y' hrun hrest
    have hsound : Sound y := hrun.invariant Sound (fun _ _ _ hs hst => (hs.step hst).1) h
    have hboth := hrest.invariant (fun z => Sound z ∧
        ∀ pos t, y.thread pos = some t → t.state = .terminated → z.thread pos = some t)
      (fun z _ _ hz hst =>
        ⟨(hz.1.step hst).1, fun pos t ht hs => (hz.1.step hst).2 pos t (hz.2 pos t ht hs) hs⟩)
      ⟨hsound, fun pos t ht _ => ht⟩
    exact ⟨hboth.2, fun p hp => (hboth.1 p hp).verify⟩
  · intro ops y target y' hrun hstep hguard
    simp only [Guarded, not_forall, not_not] at hguard
    rcases hguard with ⟨current, next, hcur, hnext, hs, hcheck⟩
    rcases unguarded_revives hstep hcur hnext hcheck with ⟨t', ht', hready⟩
    exact ⟨current, t', hcur, hs, ht', by rw [hready]; decide⟩

end Steps

/-- A thread that has been created and not run yet. -/
def sampleThread : KernelThread :=
  { bootstrap with
    id := 1
    processId := 1
    name := "thread_a1"
    state := .created
    context := { Context.ExecutionContext.empty with rsp := 0xFFFF800000003FB0, rip := 0x300000 } }

/-- The bootstrap process and one more, with a thread each. -/
def sampleStage (a b : KernelThread) (state : ProcessState) (executing : ℕ × ℕ) : Table where
  kernel := Vmm.sampleInfo.kernel
  counters := ⟨2, 2⟩
  processes := [⟨0, "kernel_bootstrap", .running, [a], ⟨0, ⟨0x800000⟩, false⟩⟩,
    ⟨1, "proc_a", state, [b], ⟨1, ⟨0x100000⟩, true⟩⟩]
  executing := executing

def sampleTable : Table := sampleStage bootstrap sampleThread .created (0, 0)

theorem sampleTable_sound : Sound sampleTable := by
  intro p hp
  simp only [sampleTable, sampleStage, List.mem_cons, List.not_mem_nil, or_false] at hp
  rcases hp with rfl | rfl
  · exact ⟨fun _ => rfl, by decide, by decide, by decide, by decide⟩
  · exact ⟨by decide, by decide, by decide, by decide, by decide⟩

theorem sample_forth {a b a' b' : KernelThread} {state : ProcessState} {rsp rip : U64}
    (h : Thread.switchTo a b rsp rip = .ok (a', b')) :
    Step 0x300000 (sampleStage a b state (0, 0)) (.switchTo (1, 0)) (sampleStage a' b' state (1, 0)) :=
  .switchTo rfl rfl h

theorem sample_back {a b a' b' : KernelThread} {state : ProcessState} {rsp rip : U64}
    (h : Thread.switchTo b a rsp rip = .ok (b', a')) :
    Step 0x300000 (sampleStage a b state (1, 0)) (.switchTo (0, 0)) (sampleStage a' b' state (0, 0)) :=
  .switchTo rfl rfl h

theorem sample_refused {a b : KernelThread} (state : ProcessState) {rsp rip : U64} {e : SwitchError}
    (h : Thread.switchTo a b rsp rip = .error e) :
    Step 0x300000 (sampleStage a b state (0, 0)) (.switchTo (1, 0)) (sampleStage a b state (0, 0)) :=
  .switchFails rfl rfl h

theorem sample_guarded {y y' : Table} {target : ℕ × ℕ} {current : KernelThread} (hstep : Step 0x300000 y (.switchTo target) y')
    (h : y.thread y.executing = some current) (hlive : current.state ≠ .terminated) :
    GuardedStep 0x300000 y (.switchTo target) y' := by
  refine ⟨hstep, fun current' next hcur _ hs => ?_⟩
  rw [h] at hcur
  cases hcur
  exact absurd hs hlive

/-- The new thread runs and switches back, its process is terminated, and no switch to it succeeds any more. -/
theorem terminated_final_iff_guarded_sample : ∃ y y' t,
    Run (GuardedStep 0x300000) sampleTable [.switchTo (1, 0), .switchTo (0, 0), .terminate 1] y ∧
      Run (GuardedStep 0x300000) y [.switchTo (1, 0)] y' ∧ t.state = .terminated ∧ y'.thread (1, 0) = some t ∧
      ∀ p ∈ y'.processes, p.verify = .ok () := by
  have haway : Thread.switchTo bootstrap sampleThread 0x12000 0x5000 = .ok (_, _) := rfl
  have hback : Thread.switchTo { sampleThread with
      state := .running
      context := { sampleThread.context with state := .running } }
    { bootstrap with
      state := .ready
      context := { bootstrap.context with rsp := 0x12000, rip := 0x5000, state := .suspended } }
    0xFFFF800000003000 0x301000 = .ok (_, _) := rfl
  have hrefused : Thread.switchTo { bootstrap with
      state := .running
      context := { bootstrap.context with rsp := 0x12000, rip := 0x5000, state := .running } }
    { sampleThread with
      state := .terminated
      context :=
        { sampleThread.context with rsp := 0xFFFF800000003000, rip := 0x301000, state := .suspended } }
    0x12000 0x5000 = .error .targetTerminated := rfl
  have hrun : Run (GuardedStep 0x300000) sampleTable [.switchTo (1, 0), .switchTo (0, 0), .terminate 1] _ :=
    .cons (sample_guarded (sample_forth haway) rfl (by decide))
      (.cons (sample_guarded (sample_back hback) rfl (by decide)) (.single ⟨.terminate, trivial⟩))
  have hlast : Run (GuardedStep 0x300000) _ [.switchTo (1, 0)] _ :=
    .single (sample_guarded (sample_refused .terminated hrefused) rfl (by decide))
  obtain ⟨hfinal, hverify⟩ := (terminated_final_iff_guarded sampleTable_sound).1 _ _ _ _ hrun hlast
  exact ⟨_, _, _, hrun, hlast, rfl, hfinal (1, 0) _ rfl rfl, hverify⟩

/-- A thread terminates its own process, switches away and is switched to again. -/
theorem terminated_thread_runs_again : Sound sampleTable ∧
    ∃ y, Run (Step 0x300000) sampleTable [.switchTo (1, 0), .terminate 1, .switchTo (0, 0), .switchTo (1, 0)] y ∧
      ∃ p, y.processes[1]? = some p ∧ p.state = .terminated ∧ p.verify = .error .invariantViolation := by
  have hfirst : Thread.switchTo bootstrap sampleThread 0x12000 0x5000 = .ok (_, _) := rfl
  have hback : Thread.switchTo { sampleThread with
      state := .terminated
      context := { sampleThread.context with state := .running } }
    { bootstrap with
      state := .ready
      context := { bootstrap.context with rsp := 0x12000, rip := 0x5000, state := .suspended } }
    0xFFFF800000003000 0x301000 = .ok (_, _) := rfl
  have hagain : Thread.switchTo { bootstrap with
      state := .running
      context := { bootstrap.context with rsp := 0x12000, rip := 0x5000, state := .running } }
    { sampleThread with
      state := .ready
      context :=
        { sampleThread.context with rsp := 0xFFFF800000003000, rip := 0x301000, state := .suspended } }
    0x12000 0x5000 = .ok (_, _) := rfl
  exact ⟨sampleTable_sound, _, .cons (sample_forth hfirst) (.cons .terminate (.cons (sample_back hback)
    (.single (sample_forth hagain)))), _, rfl, rfl, rfl⟩

end VenturaOS.Processes
