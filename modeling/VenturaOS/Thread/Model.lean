import VenturaOS.Context.Model

/-!
# Kernel threads

`thread.rs`: a thread is a context with a stack of its own and a state.
`switch_to` checks its arguments, moves the two states along and switches
contexts. Thread ids come from a counter that is taken not to wrap around.
-/
namespace VenturaOS.Thread
open Memory Paging Vmm Context

inductive ThreadState
  | created
  | ready
  | running
  | blocked
  | terminated
deriving DecidableEq, Repr

inductive ThreadError
  | invalidEntryPoint
  | stackAllocationFailed
  | contextCreationFailed
  | registryFull
deriving DecidableEq, Repr

inductive SwitchError
  | nullContext
  | sameThread
  | targetTerminated
  | invalidState
  | invalidStackPointer
  | invalidInstructionPointer
deriving DecidableEq, Repr

structure KernelThread where
  id : ℕ
  processId : ℕ
  name : String
  state : ThreadState
  context : ExecutionContext
  stack : KernelStack
  entry : U64
  arg : U64
deriving DecidableEq, Repr

/-- `NEXT_THREAD_ID` and `NEXT_CONTEXT_ID`. -/
structure Counters where
  nextThreadId : ℕ
  nextContextId : U64
deriving DecidableEq, Repr

/-- `KernelThread::new_raw`; `initialContextEntry` is the address of that function. -/
def newRaw (initialContextEntry : U64) (name : String) (entryAddr arg : U64) (k : Kernel) (c : Counters) :
    Except ThreadError KernelThread × Kernel × Counters :=
  if entryAddr = 0 ∨ !isCanonical entryAddr then (.error .invalidEntryPoint, k, c)
  else
    match KernelStack.allocate k with
    | (.error _, k) => (.error .stackAllocationFailed, k, c)
    | (.ok stack, k) =>
      match createContextRaw initialContextEntry entryAddr stack c.nextContextId k.bytes with
      | .error _ => (.error .contextCreationFailed, (unmapRegion stack.region k).2, c)
      | .ok (context, bytes) =>
        (.ok ⟨c.nextThreadId, 0, name, .created, context, stack, entryAddr, arg⟩, { k with bytes := bytes },
          ⟨c.nextThreadId + 1, c.nextContextId + 1⟩)

def bootstrap : KernelThread :=
  ⟨0, 0, "bootstrap", .running, .empty, ⟨⟨⟨dynamicVirtStart⟩, 0x4000, .kernelData, .dynamicKernel, false⟩⟩, 0, 0⟩

/-- The checks `switch_to` makes before it changes anything. -/
def switchCheck (current target : KernelThread) : Option SwitchError :=
  if current.id = target.id then some .sameThread
  else if target.state = .terminated then some .targetTerminated
  else if target.context.rsp = 0 ∨ !isCanonical target.context.rsp then some .invalidStackPointer
  else if target.context.rip = 0 ∨ !isCanonical target.context.rip then some .invalidInstructionPointer
  else none

/-- `switch_to`, up to the moment the target runs; `rsp` and `rip` are what `switch_context` saves. -/
def switchTo (current target : KernelThread) (rsp rip : U64) : Except SwitchError (KernelThread × KernelThread) :=
  match switchCheck current target with
  | some e => .error e
  | none =>
    .ok ({ current with state := .ready, context := { current.context with rsp := rsp, rip := rip, state := .suspended } },
      { target with state := .running, context := { target.context with state := .running } })

/-- An accepted switch is between different threads and not to a terminated one. -/
theorem switchCheck_none {current target : KernelThread} (h : switchCheck current target = none) :
    current.id ≠ target.id ∧ target.state ≠ .terminated := by
  unfold switchCheck at h
  split_ifs at h with hid hstate
  exact ⟨hid, hstate⟩

theorem switchTo_ok {current target current' target' : KernelThread} {rsp rip : U64}
    (h : switchTo current target rsp rip = .ok (current', target')) :
    switchCheck current target = none ∧
      current' =
        { current with state := .ready, context := { current.context with rsp := rsp, rip := rip, state := .suspended } } ∧
      target' = { target with state := .running, context := { target.context with state := .running } } := by
  unfold switchTo at h
  cases hcheck : switchCheck current target with
  | some e =>
    rw [hcheck] at h
    cases h
  | none =>
    rw [hcheck] at h
    cases h
    exact ⟨rfl, rfl, rfl⟩

end VenturaOS.Thread
