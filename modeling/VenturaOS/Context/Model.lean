import VenturaOS.Library.ByteMemory
import VenturaOS.Vmm.Mapping

/-!
# Execution contexts

`context.rs`: the saved state of a thread of control, the first stack frame
that `create_context_raw` builds, and `switch_context`, instruction by
instruction, on a processor with the registers it touches. Contexts and
stacks are bytes of one memory.
-/
namespace VenturaOS.Context
open Library Memory Paging Vmm

/-- `STACK_SIZE_BYTES`, four pages. -/
def stackSizeBytes : U64 := 0x4000#64

inductive ContextState
  | uninitialized
  | initialized
  | ready
  | running
  | suspended
  | terminated
deriving DecidableEq, Repr

/-- The discriminant, one byte. -/
def ContextState.code : ContextState → ℕ
  | uninitialized => 0
  | initialized => 1
  | ready => 2
  | running => 3
  | suspended => 4
  | terminated => 5

inductive ContextError
  | invalidEntryPoint
  | invalidStackPointer
  | stackAllocationFailed
deriving DecidableEq, Repr

structure KernelStack where
  region : VirtRegion
deriving DecidableEq, Repr

namespace KernelStack

def allocate (k : Kernel) : Except VmmError KernelStack × Kernel :=
  match allocateAndMapRegion stackSizeBytes .kernelData .dynamicKernel k with
  | (.ok region, k) => (.ok ⟨region⟩, k)
  | (.error e, k) => (.error e, k)

def top (stack : KernelStack) : U64 := stack.region.stop.addr
def bottom (stack : KernelStack) : U64 := stack.region.start.addr

end KernelStack

structure ExecutionContext where
  rsp : U64
  r15 : U64
  r14 : U64
  r13 : U64
  r12 : U64
  rbx : U64
  rbp : U64
  rip : U64
  rflags : U64
  state : ContextState
  id : U64
deriving DecidableEq, Repr

namespace ExecutionContext

def empty : ExecutionContext := ⟨0, 0, 0, 0, 0, 0, 0, 0, 0x202, .uninitialized, 0⟩

/-- Size of the structure, which is `repr(C)`. -/
def bytes : ℕ := 88

/-- The nine words at offsets 0 to 64. -/
def words (ctx : ExecutionContext) : List U64 :=
  [ctx.rsp, ctx.r15, ctx.r14, ctx.r13, ctx.r12, ctx.rbx, ctx.rbp, ctx.rip, ctx.rflags]

/-- Write the structure to memory: the words, the state byte at 72, the id at 80. -/
def store (ctx : ExecutionContext) (m : Bytes) (a : ℕ) : Bytes :=
  ((m.writeAll 8 a (ctx.words.map BitVec.toNat)).write (a + 72) 1 ctx.state.code).write (a + 80) 8 ctx.id.toNat

end ExecutionContext

/-- What the first switch to a context pops, from the lowest address up. -/
def initialFrame (initialContextEntry entryAddr id : U64) : List U64 :=
  [0, 0, 0, 0, id, entryAddr, 0, 0, 0x202, initialContextEntry]

/-- `create_context_raw`, given the next context id. -/
def createContextRaw (initialContextEntry entryAddr : U64) (stack : KernelStack) (id : U64) (m : Bytes) :
    Except ContextError (ExecutionContext × Bytes) :=
  if entryAddr = 0 ∨ !isCanonical entryAddr then .error .invalidEntryPoint
  else if stack.top = 0 ∨ !isCanonical stack.top then .error .invalidStackPointer
  else
    let initialSp := (stack.top &&& ~~~0xF#64) - 80#64
    .ok (⟨initialSp, 0, 0, id, entryAddr, 0, 0, initialContextEntry, 0x202, .initialized, id⟩,
      m.writeAll 8 initialSp.toNat ((initialFrame initialContextEntry entryAddr id).map BitVec.toNat))

inductive Reg
  | rax
  | rbx
  | rcx
  | rdx
  | rsi
  | rdi
  | rbp
  | rsp
  | r12
  | r13
  | r14
  | r15
deriving DecidableEq, Repr

structure Cpu where
  regs : Reg → U64
  rflags : U64
  rip : U64
  mem : Bytes

inductive Instr
  /-- `mov dst, [base + offset]` -/
  | load (dst base : Reg) (offset : ℕ)
  /-- `mov [base + offset], src` -/
  | store (base : Reg) (offset : ℕ) (src : Reg)
  /-- `mov byte ptr [base + offset], value` -/
  | storeByte (base : Reg) (offset value : ℕ)
  | push (r : Reg)
  | pop (r : Reg)
  | pushfq
  | popfq
  | ret
deriving DecidableEq, Repr

namespace Cpu

def set (c : Cpu) (r : Reg) (v : U64) : Cpu := { c with regs := Function.update c.regs r v }

def address (c : Cpu) (base : Reg) (offset : ℕ) : ℕ := (c.regs base + BitVec.ofNat 64 offset).toNat

def loadWord (c : Cpu) (a : ℕ) : U64 := BitVec.ofNat 64 (c.mem.read a 8)

def storeWord (c : Cpu) (a : ℕ) (v : U64) : Cpu := { c with mem := c.mem.write a 8 v.toNat }

def pushWord (c : Cpu) (v : U64) : Cpu :=
  let sp := c.regs .rsp - 8#64
  (c.set .rsp sp).storeWord sp.toNat v

/-- The word on top of the stack, and the stack without it. -/
def popWord (c : Cpu) : U64 × Cpu :=
  (c.loadWord (c.regs .rsp).toNat, c.set .rsp (c.regs .rsp + 8#64))

def exec (c : Cpu) : Instr → Cpu
  | .load dst base offset => c.set dst (c.loadWord (c.address base offset))
  | .store base offset src => c.storeWord (c.address base offset) (c.regs src)
  | .storeByte base offset value => { c with mem := c.mem.write (c.address base offset) 1 value }
  | .push r => c.pushWord (c.regs r)
  | .pop r => c.popWord.2.set r c.popWord.1
  | .pushfq => c.pushWord c.rflags
  | .popfq => { c.popWord.2 with rflags := c.popWord.1 }
  | .ret => { c.popWord.2 with rip := c.popWord.1 }

def interrupts (c : Cpu) : Bool := c.rflags.getLsbD 9

def cli (c : Cpu) : Cpu := { c with rflags := c.rflags &&& ~~~0x200#64 }
def sti (c : Cpu) : Cpu := { c with rflags := c.rflags ||| 0x200#64 }

end Cpu

/-- `switch_context(prev, next)` with `rcx = prev` and `rdx = next`. -/
def switchContext : List Instr :=
  [ .load .rax .rsp 0,
    .store .rcx 56 .rax,
    .pushfq,
    .push .rbx,
    .push .rbp,
    .push .r12,
    .push .r13,
    .push .r14,
    .push .r15,
    .push .rdi,
    .push .rsi,
    .store .rcx 0 .rsp,
    .storeByte .rcx 72 4,
    .storeByte .rdx 72 3,
    .load .rsp .rdx 0,
    .pop .rsi,
    .pop .rdi,
    .pop .r15,
    .pop .r14,
    .pop .r13,
    .pop .r12,
    .pop .rbp,
    .pop .rbx,
    .popfq,
    .ret ]

/-- The call instruction, then the body; `ret` is the address behind the call. -/
def callSwitchContext (ret : U64) (c : Cpu) : Cpu := switchContext.foldl Cpu.exec (c.pushWord ret)

end VenturaOS.Context
