import VenturaOS.AddressSpace.Model
import VenturaOS.Library.Runs
import VenturaOS.Thread.Model

/-!
# Processes

`process.rs`: threads grouped under an address space, with the consistency
check `verify`. A table of processes changes by thread creation, termination
and switches of the executing thread. Process ids count up in a `u64` that is
taken not to wrap around.
-/
namespace VenturaOS.Processes
open Memory Paging Vmm Thread AddressSpaces

inductive ProcessState
  | created
  | ready
  | running
  | terminating
  | terminated
deriving DecidableEq, Repr

inductive ProcessError
  | invalidPid
  | registryFull
  | threadCreationFailed (e : ThreadError)
  | addressSpaceCreationFailed
  | processTerminated
  | invariantViolation
deriving DecidableEq, Repr

structure Process where
  id : ℕ
  name : String
  state : ProcessState
  threads : List KernelThread
  addressSpace : AddressSpace
deriving DecidableEq, Repr

namespace Process

/-- `Process::new`, given the next process id. -/
def new (name : String) (nextPid : ℕ) (k : Kernel) : Except ProcessError Process × Kernel × ℕ :=
  match AddressSpaces.new k with
  | (.error _, k) => (.error .addressSpaceCreationFailed, k, nextPid)
  | (.ok addressSpace, k) => (.ok ⟨nextPid, name, .created, [], addressSpace⟩, k, nextPid + 1)

/-- Dropping a process drops its fields. Of these only the address space has a `drop` of its own; threads, their
stacks and the regions of the stacks have none. -/
def drop (p : Process) (k : Kernel) : Kernel := (AddressSpaces.destroy p.addressSpace k).2

def createThread (initialContextEntry : U64) (name : String) (entry arg : U64) (p : Process) (k : Kernel) (c : Counters) :
    Except ProcessError ℕ × Process × Kernel × Counters :=
  if p.state = .terminated then (.error .processTerminated, p, k, c)
  else
    match newRaw initialContextEntry name entry arg k c with
    | (.error e, k, c) => (.error (.threadCreationFailed e), p, k, c)
    | (.ok thread, k, c) =>
      (.ok thread.id, { p with threads := p.threads ++ [{ thread with processId := p.id }] }, k, c)

def terminate (p : Process) : Process :=
  { p with threads := p.threads.map fun t => { t with state := .terminated }, state := .terminated }

/-- Two threads of the list share an id. -/
def repeatsId : List KernelThread → Bool
  | [] => false
  | t :: ts => ts.any (fun u => t.id = u.id) || repeatsId ts

def verify (p : Process) : Except ProcessError Unit :=
  if p.id = 0 ∧ p.name ≠ "kernel_bootstrap" then .error .invariantViolation
  else if p.state = .terminated ∧ p.threads.any (fun t => t.state = .running) then .error .invariantViolation
  else if p.threads.any (fun t => t.processId ≠ p.id) then .error .invariantViolation
  else if repeatsId p.threads then .error .invariantViolation
  else .ok ()

end Process

/-- The processes, and the position of the executing thread among them. -/
structure Table where
  kernel : Kernel
  counters : Counters
  processes : List Process
  executing : ℕ × ℕ

namespace Table

def thread (y : Table) (pos : ℕ × ℕ) : Option KernelThread := (y.processes[pos.1]?).bind fun p => p.threads[pos.2]?

def setThread (y : Table) (pos : ℕ × ℕ) (t : KernelThread) : Table :=
  { y with processes := y.processes.modify pos.1 fun p => { p with threads := p.threads.set pos.2 t } }

end Table

inductive Op
  | createThread (p : ℕ) (name : String) (entry arg : U64)
  | terminate (p : ℕ)
  | switchTo (target : ℕ × ℕ)
  /-- Anything else the kernel does in between. -/
  | other

inductive Step (initialContextEntry : U64) : Table → Op → Table → Prop
  | createThread {y : Table} {i : ℕ} {name : String} {entry arg : U64} {p p' : Process}
      {result : Except ProcessError ℕ} {k : Kernel} {c : Counters} : y.processes[i]? = some p →
      p.createThread initialContextEntry name entry arg y.kernel y.counters = (result, p', k, c) →
      Step initialContextEntry y (.createThread i name entry arg)
        { y with kernel := k, counters := c, processes := y.processes.set i p' }
  | terminate {y : Table} {i : ℕ} :
      Step initialContextEntry y (.terminate i) { y with processes := y.processes.modify i Process.terminate }
  | switchTo {y : Table} {target : ℕ × ℕ} {current next current' next' : KernelThread} {rsp rip : U64} :
      y.thread y.executing = some current → y.thread target = some next →
      Thread.switchTo current next rsp rip = .ok (current', next') →
      Step initialContextEntry y (.switchTo target)
        { (y.setThread y.executing current').setThread target next' with executing := target }
  | switchFails {y : Table} {target : ℕ × ℕ} {current next : KernelThread} {rsp rip : U64} {e : SwitchError} :
      y.thread y.executing = some current → y.thread target = some next →
      Thread.switchTo current next rsp rip = .error e → Step initialContextEntry y (.switchTo target) y
  | other {y : Table} {k : Kernel} : Step initialContextEntry y .other { y with kernel := k }

theorem modify_same {l : List Process} {f : Process → Process} {i : ℕ} {p : Process} (h : l[i]? = some p) :
    (l.modify i f)[i]? = some (f p) := by
  rw [List.getElem?_modify_eq, h]
  rfl

theorem modify_other {l : List Process} {f : Process → Process} {i j : ℕ} (h : i ≠ j) :
    (l.modify i f)[j]? = l[j]? := by
  rw [List.getElem?_modify_ne _ _ h]

end VenturaOS.Processes
