import VenturaOS.Idt.Dispatch
import VenturaOS.Idt.Table
import VenturaOS.Library.Stack

/-!
# The interrupt stubs

The assembly of `idt.rs`, instruction by instruction, on a processor with all
of its registers. The dispatchers are compiled code: what they do to the
registers and the memory is a parameter, what they do to the kernel's state is
the source's. Delivery and return are those of 64-bit mode within ring 0.
-/
namespace VenturaOS.Idt
open Library Gdt

/-- The general registers but the stack pointer. -/
inductive Reg
  | rax
  | rbx
  | rcx
  | rdx
  | rsi
  | rdi
  | rbp
  | r8
  | r9
  | r10
  | r11
  | r12
  | r13
  | r14
  | r15
deriving DecidableEq, Repr

/-- What an interrupted program has of the processor. -/
structure Core where
  regs : Reg → U64
  rsp : U64
  rip : U64
  rflags : U64
  cs : BitVec 16
  ss : BitVec 16

structure Cpu extends Core where
  mem : Bytes
  cr2 : U64

namespace Cpu

def stack (c : Cpu) : Stack := ⟨c.rsp, c.mem⟩

/-- The processor with another stack. -/
def withStack (c : Cpu) (s : Stack) : Cpu := { c with rsp := s.rsp, mem := s.mem }

def withRegs (c : Cpu) (regs : Reg → U64) : Cpu := { c with regs := regs }

def set (c : Cpu) (r : Reg) (v : U64) : Cpu := c.withRegs (Function.update c.regs r v)

def setRsp (c : Cpu) (rsp : U64) : Cpu := { c with rsp := rsp }

def interrupts (c : Core) : Bool := c.rflags.getLsbD 9

end Cpu

/-- The functions the stubs call. -/
inductive Dispatcher
  | exception
  | irq
  | generic
deriving DecidableEq, Repr

inductive Instr
  | push (r : Reg)
  | pushImm (v : U64)
  | pop (r : Reg)
  /-- `mov dst, rsp` -/
  | movRsp (dst : Reg)
  /-- `mov dst, v` -/
  | movImm (dst : Reg) (v : U64)
  | addRsp (n : ℕ)
  | call (d : Dispatcher)
  | iretq
deriving DecidableEq, Repr

/-- The registers the stubs save, in the order they are pushed. -/
def saved : List Reg := [.rax, .rbx, .rcx, .rdx, .rsi, .rdi, .rbp, .r8, .r9, .r10, .r11, .r12, .r13, .r14, .r15]

def pushes : List Instr :=
  [.push .rax, .push .rbx, .push .rcx, .push .rdx, .push .rsi, .push .rdi, .push .rbp, .push .r8, .push .r9,
    .push .r10, .push .r11, .push .r12, .push .r13, .push .r14, .push .r15]

def pops : List Instr :=
  [.pop .r15, .pop .r14, .pop .r13, .pop .r12, .pop .r11, .pop .r10, .pop .r9, .pop .r8, .pop .rbp, .pop .rdi,
    .pop .rsi, .pop .rdx, .pop .rcx, .pop .rbx, .pop .rax]

def commonExceptionEntry : List Instr :=
  pushes ++ [.movRsp .rdi, .call .exception] ++ pops ++ [.addRsp 16, .iretq]

/-- The macros `EXCEPTION_NO_ERR` and `EXCEPTION_ERR`; both jump to the common entry. -/
def exceptionNoErr (vector : ℕ) : List Instr :=
  [.pushImm 0, .pushImm (BitVec.ofNat 64 vector)] ++ commonExceptionEntry
def exceptionErr (vector : ℕ) : List Instr := [.pushImm (BitVec.ofNat 64 vector)] ++ commonExceptionEntry

/-- The vectors whose stub is an `EXCEPTION_ERR`. -/
def errVectors : List ℕ := [8, 10, 11, 12, 13, 14, 17, 21, 30]

def exceptionStub (vector : ℕ) : List Instr :=
  if vector ∈ errVectors then exceptionErr vector else exceptionNoErr vector

def irqStub (irq : ℕ) : List Instr :=
  pushes ++ [.movImm .rdi (BitVec.ofNat 64 irq), .call .irq] ++ pops ++ [.iretq]

def genericIrqStub : List Instr := pushes ++ [.call .generic] ++ pops ++ [.iretq]

def spuriousIrqStub : List Instr := [.iretq]

/-- The code the table of `init` leads to, by vector. -/
def stub (vector : ℕ) : List Instr :=
  if vector < 32 then exceptionStub vector
  else if vector < 48 then irqStub (vector - 32)
  else if vector < 255 then genericIrqStub
  else spuriousIrqStub

/-- `ExceptionFrame` as it stands in memory. -/
def ExceptionFrame.load (m : Bytes) (a : ℕ) : ExceptionFrame :=
  let word (i : ℕ) : U64 := BitVec.ofNat 64 (m.read (a + 8 * i) 8)
  { regs := ⟨word 0, word 1, word 2, word 3, word 4, word 5, word 6, word 7, word 8, word 9, word 10, word 11, word 12,
      word 13, word 14⟩
    vector := word 15
    errorCode := word 16
    rip := word 17
    cs := word 18
    rflags := word 19
    rsp := word 20
    ss := word 21 }

variable {D : Type}

/-- What the compiled dispatchers do to the processor. -/
abbrev Compiled (D : Type) := Dispatcher → Cpu × Interrupts D → Cpu

/-- What a dispatcher makes of the kernel's state, from its argument. None, if it does not return. -/
def dispatched (d : Dispatcher) (c : Cpu) (k : Interrupts D) : Option (Interrupts D) :=
  match d with
  | .exception => returned (exceptionDispatcher (ExceptionFrame.load c.mem (c.regs .rdi).toNat) c.cr2 k)
  | .irq => some (irqDispatcher (c.regs .rdi) k)
  | .generic => some (genericInterruptDispatcher k)

def callDispatcher (compiled : Compiled D) (d : Dispatcher) (w : Cpu × Interrupts D) : Option (Cpu × Interrupts D) :=
  (dispatched d w.1 w.2).map fun k => (compiled d w, k)

/-- `iretq` takes five words from the stack. -/
def iretq (c : Cpu) : Cpu :=
  { c with
    rip := c.stack.top
    cs := (c.stack.drop 1).top.setWidth 16
    rflags := (c.stack.drop 2).top
    rsp := (c.stack.drop 3).top
    ss := (c.stack.drop 4).top.setWidth 16 }

def exec (compiled : Compiled D) (w : Cpu × Interrupts D) : Instr → Option (Cpu × Interrupts D)
  | .push r => some (w.1.withStack (w.1.stack.push (w.1.regs r)), w.2)
  | .pushImm v => some (w.1.withStack (w.1.stack.push v), w.2)
  | .pop r => some ((w.1.withStack (w.1.stack.drop 1)).set r w.1.stack.top, w.2)
  | .movRsp dst => some (w.1.set dst w.1.rsp, w.2)
  | .movImm dst v => some (w.1.set dst v, w.2)
  | .addRsp n => some (w.1.setRsp (w.1.rsp + BitVec.ofNat 64 n), w.2)
  | .call d => callDispatcher compiled d w
  | .iretq => some (iretq w.1, w.2)

def execAll (compiled : Compiled D) (code : List Instr) (w : Cpu × Interrupts D) : Option (Cpu × Interrupts D) :=
  code.foldlM (exec compiled) w

/-- The flags an interrupt clears: TF, NT, RF and VM, and IF through an interrupt gate. -/
def clearedFlags (isInterrupt : Bool) : U64 := if isInterrupt then 0x34300#64 else 0x34100#64

/-- The exceptions that the processor's manual gives an error code. -/
def errorCodeVectors : List ℕ := [8, 10, 11, 12, 13, 14, 17, 21, 29, 30]

/-- Delivery of an interrupt through a gate: the stack pointer is aligned, five words are pushed, for some
exceptions an error code too. -/
def deliver (gate : Gate) (error : Option U64) (c : Cpu) : Cpu :=
  let aligned : Stack := ⟨c.rsp &&& ~~~0xF#64, c.mem⟩
  let frame := [c.ss.setWidth 64, c.rsp, c.rflags, c.cs.setWidth 64, c.rip] ++ error.toList
  { c.withStack (aligned.pushAll frame) with
    rip := gate.offset
    cs := gate.selector
    rflags := c.rflags &&& ~~~clearedFlags gate.isInterrupt }

/-- An interrupt from its delivery to the return; `code` is the program text. -/
def interrupt (compiled : Compiled D) (code : U64 → List Instr) (idtr : DescriptorTablePointer) (vector : ℕ)
    (error : Option U64) (w : Cpu × Interrupts D) : Option (Cpu × Interrupts D) :=
  match readGate w.1.mem idtr vector with
  | none => none
  | some gate => execAll compiled (code gate.offset) (deliver gate error w.1, w.2)

/-- Every stub stands where its address says. -/
def Linked (stubs : StubAddresses) (code : U64 → List Instr) : Prop :=
  ∀ vector < 256, code (stubs.handler vector) = stub vector

end VenturaOS.Idt
