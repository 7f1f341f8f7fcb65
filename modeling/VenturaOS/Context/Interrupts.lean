import VenturaOS.Context.Coroutines

/-!
# The interrupt flag during initialization

`kernel_main` clears IF and relies on it staying clear. Sections of
`without_interrupts` restore what they found, a resumed context restores the
flags it was suspended with, but the first frame of a new context holds
`0x202`, with IF set.
-/
namespace VenturaOS.Context
open Library

section

variable {ι : Type*} [DecidableEq ι] {L : Layout ι} {entry : U64} {w w' : World ι} {op : Op ι}

/-- A step of initialization code: outside sections and switches nothing touches IF. -/
def InitStep (L : Layout ι) (entry : U64) (w : World ι) (op : Op ι) (w' : World ι) : Prop :=
  Step L entry w op w' ∧ (op = .compute → w'.cpu.interrupts = w.cpu.interrupts)

/-- Such a step that is no first switch to a context. -/
def SeasonedStep (L : Layout ι) (entry : U64) (w : World ι) (op : Op ι) (w' : World ι) : Prop :=
  InitStep L entry w op w' ∧ ∀ i ret, op = .switch i ret → (w.status i).isFresh = false

/-- IF is clear, no open section will set it, and no suspended context has it set. -/
structure Quiet (w : World ι) : Prop where
  off : w.cpu.interrupts = false
  sections : ∀ i, ∀ enabled ∈ w.sections i, enabled = false
  suspended : ∀ i cpu ret, w.status i = .suspended cpu ret → cpu.interrupts = false

theorem Quiet.start {boot : ι} {cpu : Cpu} (h : cpu.interrupts = false) : Quiet (World.start boot cpu) where
  off := h
  sections := by simp [World.start]
  suspended i c ret hs := by
    simp only [World.start] at hs
    by_cases hi : i = boot
    · rw [hi, Function.update_self] at hs
      cases hs
    · rw [Function.update_of_ne hi] at hs
      cases hs

theorem update_suspended {status : ι → Status} {i j : ι} {s : Status} {cpu : Cpu} {ret : U64}
    (h : Function.update status i s j = .suspended cpu ret) (hs : ∀ c r, s ≠ .suspended c r) :
    status j = .suspended cpu ret := by
  by_cases hj : j = i
  · rw [hj, Function.update_self] at h
    exact absurd h (hs cpu ret)
  · rwa [Function.update_of_ne hj] at h

theorem Quiet.step (hinv : Inv L entry w) (h : Quiet w) (hstep : SeasonedStep L entry w op w') : Quiet w' := by
  rcases hstep with ⟨⟨hstep, hkeep⟩, hold⟩
  cases op with
  | compute =>
    have hoff := hkeep rfl
    cases hstep with
    | compute hmem => exact ⟨hoff.trans h.off, h.sections, h.suspended⟩
  | create i entryAddr =>
    cases hstep with
    | create hi hrun =>
      refine ⟨h.off, fun j enabled hj => ?_, fun j cpu ret hj => ?_⟩
      · by_cases hji : j = i
        · subst hji
          simp only [Function.update_self, List.not_mem_nil] at hj
        · simp only [Function.update_of_ne hji] at hj
          exact h.sections j enabled hj
      · exact h.suspended j cpu ret (update_suspended hj (by simp))
    | createFails => exact h
  | switch i ret =>
    have hfresh := hold i ret rfl
    have hres := hinv.switch hstep
    cases hstep with
    | switch hi hstatus hrcx hrdx hlow hhigh =>
      have hsusp : ∀ j cpu r, Function.update (Function.update w.status w.running (.suspended w.cpu ret)) i .active j =
          .suspended cpu r → cpu.interrupts = false := by
        intro j cpu r hj
        have hj' := update_suspended hj (by simp)
        by_cases hrun : j = w.running
        · rw [hrun, Function.update_self] at hj'
          cases hj'
          exact h.off
        · rw [Function.update_of_ne hrun] at hj'
          exact h.suspended j cpu r hj'
      refine ⟨?_, h.sections, hsusp⟩
      -- the target was suspended with IF clear, which is what `popfq` restores
      have hkept := hinv i hi
      cases hs : w.status i with
      | absent => exact absurd hs hstatus
      | active =>
        rw [hs] at hkept
        exact False.elim hkept
      | fresh entryAddr id =>
        rw [hs] at hfresh
        cases hfresh
      | suspended cpu r =>
        have hflags := (hres.2.1 cpu r hs).rflags
        have hoff := h.suspended i cpu r hs
        unfold Cpu.interrupts at hoff ⊢
        rw [hflags, hoff]
  | enter =>
    cases hstep with
    | enter =>
      refine ⟨?_, fun j enabled hj => ?_, h.suspended⟩
      · simp only [h.off, Bool.false_eq_true, if_false]
      · by_cases hji : j = w.running
        · subst hji
          simp only [Function.update_self, List.mem_cons, h.off] at hj
          rcases hj with hj | hj
          · exact hj
          · exact h.sections _ enabled hj
        · simp only [Function.update_of_ne hji] at hj
          exact h.sections j enabled hj
  | leave =>
    cases hstep with
    | @leave enabled rest hsec =>
      have hclear : enabled = false := h.sections w.running enabled (by rw [hsec]; exact List.mem_cons_self)
      subst hclear
      refine ⟨h.off, fun j b hj => ?_, h.suspended⟩
      by_cases hji : j = w.running
      · subst hji
        simp only [Function.update_self] at hj
        exact h.sections _ b (by rw [hsec]; exact List.mem_cons_of_mem _ hj)
      · simp only [Function.update_of_ne hji] at hj
        exact h.sections j b hj

/-- Exactly the first switch to a context sets IF: runs without one keep it clear, and after one it is set. -/
theorem interrupts_off_until_fresh {boot : ι} {cpu : Cpu} (hoff : cpu.interrupts = false) :
    (∀ ops w, Run (SeasonedStep L entry) (World.start boot cpu) ops w → w.cpu.interrupts = false) ∧
      ∀ ops w i ret w', Run (InitStep L entry) (World.start boot cpu) ops w → InitStep L entry w (.switch i ret) w' →
        (w.status i).isFresh = true → w'.cpu.interrupts = true := by
  constructor
  · intro ops w hrun
    have hboth := hrun.invariant (fun w => Inv L entry w ∧ Quiet w)
      (fun _ _ _ h hs => ⟨h.1.step hs.1.1, h.2.step h.1 hs⟩) ⟨Inv.start boot cpu, Quiet.start hoff⟩
    exact hboth.2.off
  · intro ops w i ret w' hrun hstep hfresh
    have hinv := hrun.invariant (Inv L entry) (fun _ _ _ h hs => h.step hs.1) (Inv.start boot cpu)
    cases hs : w.status i with
    | fresh entryAddr id =>
      have hflags := ((hinv.switch hstep.1).2.2 entryAddr id hs).rflags
      unfold Cpu.interrupts
      rw [hflags]
      decide
    | absent =>
      rw [hs] at hfresh
      cases hfresh
    | active =>
      rw [hs] at hfresh
      cases hfresh
    | suspended c r =>
      rw [hs] at hfresh
      cases hfresh

end

/-- A run that only creates a context. -/
theorem interrupts_off_until_fresh_sample : ∃ w,
    Run (SeasonedStep sampleLayout 0x300000) (World.start false sampleCpu) [.create true 0x400000] w ∧
      w.cpu.interrupts = false := by
  rcases sample_created with ⟨w, h, -⟩
  have hrun : Run (SeasonedStep sampleLayout 0x300000) (World.start false sampleCpu) [.create true 0x400000] w :=
    .single ⟨⟨h, fun he => by cases he⟩, fun i ret he => by cases he⟩
  have hoff : sampleCpu.interrupts = false := by decide
  exact ⟨w, hrun, (interrupts_off_until_fresh hoff).1 _ w hrun⟩

/-- From IF clear: create a context, switch to it, and IF is set. -/
theorem first_switch_sets_interrupts : sampleCpu.interrupts = false ∧ ∃ w,
    Run (InitStep sampleLayout 0x300000) (World.start false sampleCpu) [.create true 0x400000, .switch true 0x5000] w ∧
      w.cpu.interrupts = true := by
  refine ⟨by decide, ?_⟩
  rcases sample_created with ⟨w₁, h₁, hrun₁, hregs₁, -, hfresh⟩
  rcases sample_switch 0x5000 hrun₁ hregs₁ (by rw [Bool.not_false, hfresh]; simp) with ⟨w₂, h₂, -, -⟩
  have hinv : Inv sampleLayout 0x300000 w₁ := (Inv.start false sampleCpu).step h₁
  refine ⟨w₂, .cons ⟨h₁, fun he => by cases he⟩ (.single ⟨h₂, fun he => by cases he⟩), ?_⟩
  have hflags := ((hinv.switch h₂).2.2 _ _ hfresh).rflags
  unfold Cpu.interrupts
  rw [hflags]
  decide

end VenturaOS.Context
