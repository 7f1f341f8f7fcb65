import VenturaOS.Context.Coroutines
import VenturaOS.Machine.Discipline
import VenturaOS.Thread.Model
import VenturaOS.Vmm.BootRegions

/-!
# From `new_raw` to the entry of a thread

The first switch to a thread ends in `initial_context_entry`, which calls
`kernel_context_trampoline` with the entry address and the context id. The
trampoline is Rust and calls the entry as a `fn()`: the source says where
control goes, and nothing about the registers there.
-/
namespace VenturaOS.Thread
open Library Memory Paging Vmm Context

/-- `initial_context_entry`: the two arguments, the shadow space and the call; `ret` is the address
behind the call. -/
def initialContextEntry (trampoline ret : U64) (c : Cpu) : Cpu :=
  let c := c.set .rcx (c.regs .r12)
  let c := c.set .rdx (c.regs .r13)
  let c := c.set .rsp (c.regs .rsp - 32#64)
  { c.pushWord ret with rip := trampoline }

/-- Where control is, from the start of `kernel_context_trampoline(entry_raw, id)` on. -/
inductive Control
  | trampoline (cpu : Cpu)
  | entry (cpu : Cpu)
  /-- `kernel_context_exit`, which halts forever. -/
  | exit

/-- The label is the state in which the entry is called. -/
inductive ControlStep : Control → Option Cpu → Control → Prop
  /-- `entry_fn()`, with `entry_raw` in `rcx` at the start; compiled code has run in between. -/
  | callEntry {cpu cpu' : Cpu} : cpu'.rip = cpu.regs .rcx → ControlStep (.trampoline cpu) (some cpu') (.entry cpu')
  | entryReturns {cpu : Cpu} : ControlStep (.entry cpu) none .exit
  | halt : ControlStep .exit none .exit

/-- The states in which the entry was called, in order. -/
def entered (labels : List (Option Cpu)) : List Cpu := labels.filterMap id

/-- Control reaches the entry, once, with the argument in the first argument register. -/
structure EntryReceives (cpu : Cpu) (entryAddr arg : U64) : Prop where
  reached : ∃ labels control, Run ControlStep (.trampoline cpu) labels control ∧ entered labels ≠ []
  once : ∀ labels control, Run ControlStep (.trampoline cpu) labels control → (entered labels).length ≤ 1
  address : ∀ labels control, Run ControlStep (.trampoline cpu) labels control →
    ∀ cpu' ∈ entered labels, cpu'.rip = entryAddr
  argument : ∀ labels control, Run ControlStep (.trampoline cpu) labels control →
    ∀ cpu' ∈ entered labels, cpu'.regs .rcx = arg

section Creation

variable {contextEntry entryAddr arg : U64} {name : String} {k k' : Kernel} {c c' : Counters} {thread : KernelThread}

/-- A successful `new_raw` builds the first frame on the new stack. -/
theorem newRaw_ok (h : newRaw contextEntry name entryAddr arg k c = (.ok thread, k', c')) :
    createContextRaw contextEntry entryAddr thread.stack c.nextContextId k.bytes = .ok (thread.context, k'.bytes) ∧
      thread.entry = entryAddr ∧ thread.arg = arg := by
  unfold newRaw at h
  split_ifs at h with hentry
  · cases h
  generalize hstack : KernelStack.allocate k = taken at h
  obtain ⟨result, k₁⟩ := taken
  cases result with
  | error e => cases h
  | ok stack =>
    have hbytes : k₁.bytes = k.bytes := by
      unfold KernelStack.allocate at hstack
      generalize hmap : allocateAndMapRegion stackSizeBytes .kernelData .dynamicKernel k = mapped at hstack
      obtain ⟨result, k₂⟩ := mapped
      cases result with
      | error e => cases hstack
      | ok region =>
        cases hstack
        exact (Machine.allocateAndMapRegion_outside hmap).2.2
    dsimp only at h
    generalize hcontext : createContextRaw contextEntry entryAddr stack c.nextContextId k₁.bytes = created at h
    cases created with
    | error e => cases h
    | ok built =>
      obtain ⟨context, bytes⟩ := built
      cases h
      rw [hbytes] at hcontext
      exact ⟨hcontext, rfl, rfl⟩

/-- The argument is kept in the thread and nowhere else. -/
theorem newRaw_arg (h : newRaw contextEntry name entryAddr arg k c = (.ok thread, k', c')) (arg' : U64) :
    newRaw contextEntry name entryAddr arg' k c = (.ok { thread with arg := arg' }, k', c') := by
  unfold newRaw at h ⊢
  split_ifs at h ⊢ with hentry
  · cases h
  generalize KernelStack.allocate k = taken at h ⊢
  obtain ⟨result, k₁⟩ := taken
  cases result with
  | error e => cases h
  | ok stack =>
    dsimp only at h ⊢
    generalize createContextRaw contextEntry entryAddr stack c.nextContextId k₁.bytes = created at h ⊢
    cases created with
    | error e => cases h
    | ok built =>
      cases h
      rfl

end Creation

section Runs

variable {ι : Type*} [DecidableEq ι] {L : Layout ι} {contextEntry : U64} {i : ι} {w w' : World ι} {ops : List (Op ι)}

/-- A step that neither creates this context nor switches to it. -/
def Spares (i : ι) : Op ι → Prop
  | .create j _ => j ≠ i
  | .switch j _ => j ≠ i
  | _ => True

/-- The world with a new thread in the slot of a context. -/
def place (L : Layout ι) (i : ι) (thread : KernelThread) (k : Kernel) (w : World ι) : World ι where
  cpu := { w.cpu with mem := thread.context.store k.bytes (L.slot i).context }
  running := w.running
  status := Function.update w.status i (.fresh thread.entry w.nextId)
  nextId := w.nextId + 1
  sections := Function.update w.sections i []

theorem Spares.step {op : Op ι} (hop : Spares i op) (hstep : Step L contextEntry w op w') {entryAddr id : U64}
    (h : i ≠ w.running ∧ w.status i = .fresh entryAddr id) : i ≠ w'.running ∧ w'.status i = .fresh entryAddr id := by
  cases hstep with
  | compute => exact h
  | create _ _ => exact ⟨h.1, (Function.update_of_ne (Ne.symm hop) _ _).trans h.2⟩
  | createFails => exact h
  | switch =>
    exact ⟨Ne.symm hop,
      (Function.update_of_ne (Ne.symm hop) _ _).trans ((Function.update_of_ne h.1 _ _).trans h.2)⟩
  | enter => exact h
  | leave => exact h

theorem entered_trampoline {cpu : Cpu} {labels : List (Option Cpu)} {control : Control}
    (hrun : Run ControlStep (.trampoline cpu) labels control) :
    entered labels = [] ∨ ∃ cpu', entered labels = [cpu'] ∧ cpu'.rip = cpu.regs .rcx := by
  -- behind the call nothing is labelled
  have hsilent : ∀ {start control labels}, Run ControlStep start labels control →
      (∀ cpu, start ≠ .trampoline cpu) → entered labels = [] := by
    intro start control labels hrun
    induction hrun with
    | nil => exact fun _ => rfl
    | cons hstep _ ih =>
      intro hstart
      cases hstep with
      | callEntry => exact absurd rfl (hstart _)
      | entryReturns => exact ih fun _ h => by cases h
      | halt => exact ih fun _ h => by cases h
  cases hrun with
  | nil => exact .inl rfl
  | cons hstep hrest =>
    cases hstep with
    | callEntry hrip =>
      refine .inr ⟨_, ?_, hrip⟩
      exact congrArg (List.cons _) (hsilent hrest fun _ h => by cases h)

/-- Whatever value the register is to have, the entry may be called with it. -/
theorem entered_with (cpu : Cpu) (value : U64) : ∃ labels control, Run ControlStep (.trampoline cpu) labels control ∧
    ∃ cpu', entered labels = [cpu'] ∧ cpu'.rip = cpu.regs .rcx ∧ cpu'.regs .rcx = value := by
  have hstep : ControlStep (.trampoline cpu) (some { cpu.set .rcx value with rip := cpu.regs .rcx })
      (.entry { cpu.set .rcx value with rip := cpu.regs .rcx }) := .callEntry rfl
  exact ⟨_, _, .single hstep, _, rfl, rfl, Cpu.set_self cpu .rcx value⟩

theorem not_receives (cpu : Cpu) (entryAddr arg : U64) : ¬EntryReceives cpu entryAddr arg := by
  intro h
  obtain ⟨labels, control, hrun, cpu', hentered, -, hvalue⟩ := entered_with cpu (arg + 1)
  have harg := h.argument labels control hrun cpu' (by rw [hentered]; exact List.mem_singleton_self _)
  rw [harg] at hvalue
  have hone : (1 : U64) = 0 := BitVec.self_eq_add_right.mp hvalue
  exact absurd hone (by decide)

/-- A context between its creation and its first switch. -/
theorem stays_fresh {entryAddr id : U64} (hrun : Run (Step L contextEntry) w ops w') (hspares : ∀ op ∈ ops, Spares i op)
    (h : i ≠ w.running ∧ w.status i = .fresh entryAddr id) : i ≠ w'.running ∧ w'.status i = .fresh entryAddr id :=
  hrun.invariant_of_forall (fun w => i ≠ w.running ∧ w.status i = .fresh entryAddr id) (Spares i)
    (fun _ _ _ h hop hstep => Spares.step hop hstep h) hspares h

section First

variable {boot : ι} {cpu : Cpu} {w₀ : World ι} {ops₀ : List (Op ι)} {name : String} {entryAddr arg ret : U64}
  {k k' : Kernel} {c c' : Counters} {thread : KernelThread}

/-- The first switch to a new thread, up to the call of the trampoline. -/
theorem first_switch (hrun₀ : Run (Step L contextEntry) (World.start boot cpu) ops₀ w₀)
    (hbytes : k.bytes = w₀.cpu.mem) (hid : c.nextContextId = w₀.nextId) (hi : i ≠ w₀.running)
    (hnew : newRaw contextEntry name entryAddr arg k c = (.ok thread, k', c')) (hslot : (L.slot i).stack = thread.stack)
    (hrun : Run (Step L contextEntry) (place L i thread k' w₀) ops w) (hspares : ∀ op ∈ ops, Spares i op)
    (hswitch : Step L contextEntry w (.switch i ret) w') (trampoline behind : U64) :
    w'.cpu.rip = contextEntry ∧ (initialContextEntry trampoline behind w'.cpu).rip = trampoline ∧
      (initialContextEntry trampoline behind w'.cpu).regs .rcx = thread.entry ∧
      (initialContextEntry trampoline behind w'.cpu).regs .rdx = w₀.nextId := by
  obtain ⟨hcontext, hentry, -⟩ := newRaw_ok hnew
  rw [hid, hbytes, ← hslot] at hcontext
  have hcreate : Step L contextEntry w₀ (.create i entryAddr) (place L i thread k' w₀) := by
    rw [place, hentry]
    exact .create hi hcontext
  have hfresh : i ≠ w.running ∧ w.status i = .fresh thread.entry w₀.nextId :=
    stays_fresh hrun hspares ⟨hi, Function.update_self _ _ _⟩
  have hresumed := (faithful_coroutines (hrun₀.append (.cons hcreate hrun)) hswitch).2 _ _ hfresh.2
  refine ⟨hresumed.rip, rfl, ?_, ?_⟩
  · exact hresumed.regs .r12 (by decide)
  · exact hresumed.regs .r13 (by decide)

/-- The argument reaches neither the memory nor the first frame: the world a thread is placed in, and with it the
whole run, is the same for all arguments. The entry is called once, with any value in the register for its
argument, so no thread receives it. -/
theorem argument_never_passed (hrun₀ : Run (Step L contextEntry) (World.start boot cpu) ops₀ w₀)
    (hbytes : k.bytes = w₀.cpu.mem) (hid : c.nextContextId = w₀.nextId) (hi : i ≠ w₀.running)
    (hnew : newRaw contextEntry name entryAddr arg k c = (.ok thread, k', c')) (hslot : (L.slot i).stack = thread.stack)
    (hrun : Run (Step L contextEntry) (place L i thread k' w₀) ops w) (hspares : ∀ op ∈ ops, Spares i op)
    (hswitch : Step L contextEntry w (.switch i ret) w') (trampoline behind : U64) :
    (∀ arg', ∃ thread', newRaw contextEntry name entryAddr arg' k c = (.ok thread', k', c') ∧ thread'.arg = arg' ∧
      place L i thread' k' w₀ = place L i thread k' w₀) ∧
    (w'.cpu.rip = contextEntry ∧ (initialContextEntry trampoline behind w'.cpu).rip = trampoline) ∧
    (∀ labels control, Run ControlStep (.trampoline (initialContextEntry trampoline behind w'.cpu)) labels control →
      entered labels = [] ∨ ∃ entryCpu, entered labels = [entryCpu] ∧ entryCpu.rip = entryAddr) ∧
    (∀ value, ∃ labels control,
      Run ControlStep (.trampoline (initialContextEntry trampoline behind w'.cpu)) labels control ∧
        ∃ entryCpu, entered labels = [entryCpu] ∧ entryCpu.rip = entryAddr ∧ entryCpu.regs .rcx = value) ∧
    ¬EntryReceives (initialContextEntry trampoline behind w'.cpu) entryAddr arg := by
  obtain ⟨hrip, htrampoline, hrcx, -⟩ :=
    first_switch hrun₀ hbytes hid hi hnew hslot hrun hspares hswitch trampoline behind
  rw [(newRaw_ok hnew).2.1] at hrcx
  refine ⟨fun arg' => ⟨_, newRaw_arg hnew arg', rfl, rfl⟩, ⟨hrip, htrampoline⟩, fun labels control hcontrol => ?_,
    fun value => ?_, not_receives _ _ _⟩
  · have hentered := entered_trampoline hcontrol
    rwa [hrcx] at hentered
  · have hwith := entered_with (initialContextEntry trampoline behind w'.cpu) value
    rwa [hrcx] at hwith

end First

end Runs

section Sample

theorem sampleInfo_clearStack : sampleInfo.Clear stackSizeBytes := ⟨by decide, by decide⟩

theorem sample_thread (arg : U64) : ∃ k thread k' c',
    newRaw 0x300000 "thread_a" 0x400000 arg k ⟨1, 1⟩ = (.ok thread, k', c') ∧
      (sampleLayout.slot true).stack = thread.stack := by
  obtain ⟨k, k₁, -, hmap, -⟩ := first_region sampleInfo_loaded sampleInfo_low sampleInfo_clearStack
    (by decide) (by decide) (by decide) (by rw [sampleInfo_frames]; decide) .kernelData .dynamicKernel
  have hstack : KernelStack.allocate k = (.ok (sampleSlot true).stack, k₁) := by
    unfold KernelStack.allocate
    rw [hmap]
    rfl
  obtain ⟨context, bytes, hcontext⟩ := sample_create k₁.bytes
  have hnew : newRaw 0x300000 "thread_a" 0x400000 arg k ⟨1, 1⟩ =
      (.ok ⟨1, 0, "thread_a", .created, context, (sampleSlot true).stack, 0x400000, arg⟩, { k₁ with bytes := bytes },
        ⟨2, 2⟩) := by
    unfold newRaw
    rw [if_neg (by decide), hstack]
    dsimp only
    rw [hcontext]
    rfl
  exact ⟨k, _, _, _, hnew, rfl⟩

theorem sample_first_switch (arg : U64) : ∃ w₀ k thread k' c' w', w₀ = World.start false { sampleCpu with mem := k.bytes } ∧
    newRaw 0x300000 "thread_a" 0x400000 arg k ⟨1, 1⟩ = (.ok thread, k', c') ∧
      (sampleLayout.slot true).stack = thread.stack ∧
      Step sampleLayout 0x300000 (place sampleLayout true thread k' w₀) (.switch true 0x5000) w' := by
  obtain ⟨k, thread, k', c', hnew, hslot⟩ := sample_thread arg
  have hstatus : (place sampleLayout true thread k' (World.start false { sampleCpu with mem := k.bytes })).status (!false) ≠
      .absent := by
    simp [place]
  obtain ⟨w', hswitch, -⟩ := sample_switch (i := false)
    (w := place sampleLayout true thread k' (World.start false { sampleCpu with mem := k.bytes })) 0x5000 rfl rfl hstatus
  exact ⟨_, k, thread, k', c', w', rfl, hnew, hslot, hswitch⟩

/-- The thread is made with argument 7; with argument 8 it would be placed in the same world, and its entry may be
called with any value. -/
theorem argument_never_passed_sample : ∃ w₀ k thread thread' k' c' cpu,
    newRaw 0x300000 "thread_a" 0x400000 7 k ⟨1, 1⟩ = (.ok thread, k', c') ∧
      newRaw 0x300000 "thread_a" 0x400000 8 k ⟨1, 1⟩ = (.ok thread', k', c') ∧
      place sampleLayout true thread' k' w₀ = place sampleLayout true thread k' w₀ ∧
      ¬EntryReceives cpu 0x400000 7 ∧ ∀ value, ∃ labels control, Run ControlStep (.trampoline cpu) labels control ∧
        ∃ entryCpu, entered labels = [entryCpu] ∧ entryCpu.rip = 0x400000 ∧ entryCpu.regs .rcx = value := by
  obtain ⟨w₀, k, thread, k', c', w', rfl, hnew, hslot, hswitch⟩ := sample_first_switch 7
  obtain ⟨hsame, -, -, hany, hnever⟩ := argument_never_passed (.nil _) rfl rfl (show true ≠ false by decide) hnew hslot (.nil _)
    (fun _ h => absurd h List.not_mem_nil) hswitch 0x310000 0x300010
  obtain ⟨thread', hnew', -, hplace⟩ := hsame 8
  exact ⟨_, k, thread, thread', k', c', _, hnew, hnew', hplace, hnever, hany⟩

/-- `KernelThread::new("thread_a", entry, 100)` and the first switch to it: the entry can be called with zero. -/
theorem argument_lost : ∃ w₀ k thread k' c' w' labels control entryCpu,
    newRaw 0x300000 "thread_a" 0x400000 100 k ⟨1, 1⟩ = (.ok thread, k', c') ∧
      Step sampleLayout 0x300000 (place sampleLayout true thread k' w₀) (.switch true 0x5000) w' ∧
      w'.cpu.rip = 0x300000 ∧
      Run ControlStep (.trampoline (initialContextEntry 0x310000 0x300010 w'.cpu)) labels control ∧
      entered labels = [entryCpu] ∧ entryCpu.rip = 0x400000 ∧ entryCpu.regs .rcx = 0 ∧
      ¬EntryReceives (initialContextEntry 0x310000 0x300010 w'.cpu) 0x400000 100 := by
  obtain ⟨w₀, k, thread, k', c', w', rfl, hnew, hslot, hswitch⟩ := sample_first_switch 100
  obtain ⟨hrip, -, hrcx, -⟩ := first_switch (.nil _) rfl rfl (show true ≠ false by decide) hnew hslot (.nil _)
    (fun _ h => absurd h List.not_mem_nil) hswitch 0x310000 0x300010
  obtain ⟨labels, control, hrun, entryCpu, hentered, haddr, hzero⟩ :=
    entered_with (initialContextEntry 0x310000 0x300010 w'.cpu) 0
  rw [hrcx, (newRaw_ok hnew).2.1] at haddr
  exact ⟨_, k, thread, k', c', w', labels, control, entryCpu, hnew, hswitch, hrip, hrun, hentered, haddr, hzero,
    not_receives _ _ _⟩

end Sample

end VenturaOS.Thread
