import VenturaOS.Process.Model
import VenturaOS.Vmm.Outcome

/-!
# The life of a process

From `Process::new` to the drop: threads are created, pages of its own
address space are mapped and unmapped, the space is activated. What the drop
should give back is all that was taken since, apart from tables of the shared
kernel half. The list of threads stands for itself here; its room on the heap
is the heap's.
-/
namespace VenturaOS.Processes
open Memory Pmm Paging Vmm Thread AddressSpaces

/-- A process and the kernel around it. -/
structure Situation where
  process : Process
  kernel : Kernel
  counters : Counters

theorem Process.new_ok {name : String} {pid pid' : ℕ} {p : Process} {k k' : Kernel}
    (h : Process.new name pid k = (.ok p, k', pid')) :
    AddressSpaces.new k = (.ok p.addressSpace, k') ∧ p.threads = [] ∧ p.state = .created := by
  unfold Process.new at h
  generalize hspace : AddressSpaces.new k = made at h
  obtain ⟨e | space, k₁⟩ := made
  · cases h
  · cases h
    exact ⟨rfl, rfl, rfl⟩

/-- What is done with a process. -/
inductive Call
  | createThread (name : String) (entry arg : U64)
  | mapPage (v : VirtAddr) (phys : PhysPage) (flags : PageTableFlags)
  | unmapPage (v : VirtAddr)
  | activate

def Call.run (initialContextEntry : U64) (x : Situation) : Call → Situation
  | .createThread name entry arg =>
    let result := x.process.createThread initialContextEntry name entry arg x.kernel x.counters
    ⟨result.2.1, result.2.2.1, result.2.2.2⟩
  | .mapPage v phys flags => { x with kernel := (AddressSpaces.mapPage x.process.addressSpace v phys flags x.kernel).2 }
  | .unmapPage v => { x with kernel := (AddressSpaces.unmapPage x.process.addressSpace v x.kernel).2 }
  | .activate => { x with kernel := AddressSpaces.activate x.process.addressSpace x.kernel }

def Situation.after (initialContextEntry : U64) (x : Situation) (calls : List Call) : Situation :=
  calls.foldl (Call.run initialContextEntry) x

/-- A call that leaves nothing behind: a thread is refused for its entry point, or its stack is undone. -/
def Call.Clean (x : Situation) : Call → Prop
  | .createThread _ entry _ => entry = 0 ∨ isCanonical entry = false ∨ Undone Context.stackSizeBytes x.kernel
  | _ => True

/-- Every call of the list is clean in the situation it is made in. -/
def CleanRun (initialContextEntry : U64) : Situation → List Call → Prop
  | _, [] => True
  | x, call :: calls => call.Clean x ∧ CleanRun initialContextEntry (call.run initialContextEntry x) calls

/-- A page table of the kernel half that is linked below the kernel root. -/
def SharedTable (k : Kernel) (f : U64) : Prop :=
  ∃ p : Path, p.length ≤ 3 ∧ upper p = true ∧ tableOn k.mem.tables k.rootPml4.addr p = some f

/-- In `k'` everything the process had taken since `k` is given back. -/
structure Restored (k k' : Kernel) (threads : List KernelThread) : Prop where
  count : k'.vmm.regions.length = k.vmm.regions.length
  regions : ∀ r, r ∈ k'.vmm.regions ↔ r ∈ k.vmm.regions
  unmapped : ∀ t ∈ threads, ∀ v ∈ pagesFrom t.stack.region.start.addr t.stack.region.pageCount,
    hardwareWalk k'.mem.tables k'.rootPml4.addr v = none
  frames : ∀ f ∈ k.mem.pmm.freeFrames, f ∈ k'.mem.pmm.freeFrames ∨ SharedTable k' f

end VenturaOS.Processes
