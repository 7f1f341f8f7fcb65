import Mathlib.Data.Finset.Max
import VenturaOS.Memory.PhysicalMap

/-!
# The dispatchers

`idt.rs`: the table of IRQ handlers, the counters of interrupts nobody
handles, and the functions that the stubs call. A handler is a function on the
state of its driver that also logs. The local APIC is as its manual has it: it
holds requests, marks the one the processor takes as in service, and the end
of an interrupt is that of the highest one in service.
-/
namespace VenturaOS.Idt

/-- The local APIC: interrupts requested, and interrupts in service. -/
structure Lapic where
  irr : Finset ℕ
  isr : Finset ℕ

namespace Lapic

/-- The class of a vector, by which priorities are compared. -/
def priority (v : ℕ) : ℕ := v / 16

def request (v : ℕ) (l : Lapic) : Lapic := { l with irr := insert v l.irr }

/-- The highest request, if its class is above all that is in service. -/
def pending (l : Lapic) : Option ℕ :=
  match l.irr.max with
  | ⊥ => none
  | (v : ℕ) => if ∀ w ∈ l.isr, priority w < priority v then some v else none

/-- The processor takes the request. -/
def accept (v : ℕ) (l : Lapic) : Lapic := ⟨l.irr.erase v, insert v l.isr⟩

/-- A write to the EOI register. -/
def eoi (l : Lapic) : Lapic :=
  match l.isr.max with
  | ⊥ => l
  | (v : ℕ) => { l with isr := l.isr.erase v }

end Lapic

/-- `Registers`, in the order they stand on the stack. -/
structure Registers where
  r15 : U64
  r14 : U64
  r13 : U64
  r12 : U64
  r11 : U64
  r10 : U64
  r9 : U64
  r8 : U64
  rbp : U64
  rdi : U64
  rsi : U64
  rdx : U64
  rcx : U64
  rbx : U64
  rax : U64
deriving DecidableEq, Repr

structure ExceptionFrame where
  regs : Registers
  vector : U64
  errorCode : U64
  rip : U64
  cs : U64
  rflags : U64
  rsp : U64
  ss : U64
deriving DecidableEq, Repr

/-- A function registered for an IRQ: what it does to the state of its driver, and what it logs. -/
abbrev IrqHandler (D : Type) := BitVec 8 → D → D × List String

/-- The statics of `idt.rs`, the console flag, and what was logged. -/
structure Interrupts (D : Type) where
  irqHandlers : Fin 16 → Option (IrqHandler D)
  unhandledIrqCount : Fin 16 → BitVec 32
  unexpectedCount : BitVec 32
  uefiConsoleActive : Bool
  logged : List String
  lapic : Lapic
  drivers : D

namespace Interrupts

variable {D : Type}

def klog (k : Interrupts D) (text : String) : Interrupts D := { k with logged := k.logged ++ [text] }

def eoi (k : Interrupts D) : Interrupts D := { k with lapic := k.lapic.eoi }

/-- The statics as they start out: nobody handles an IRQ, and nothing has happened. -/
def initial (drivers : D) : Interrupts D := ⟨fun _ => none, fun _ => 0, 0, true, [], ⟨∅, ∅⟩, drivers⟩

/-- `logger::disable_uefi_console`. -/
def disableUefiConsole (k : Interrupts D) : Interrupts D := { k with uefiConsoleActive := false }

end Interrupts

variable {D : Type}

def irqOutOfRange : String := "IRQ index out of valid range (0..15)"

def registerIrq (irq : BitVec 8) (handler : IrqHandler D) (k : Interrupts D) : Except String Unit × Interrupts D :=
  if h : irq.toNat < 16 then
    (.ok (), { k with irqHandlers := Function.update k.irqHandlers ⟨irq.toNat, h⟩ (some handler) })
  else (.error irqOutOfRange, k)

def unregisterIrq (irq : BitVec 8) (k : Interrupts D) : Except String Unit × Interrupts D :=
  if h : irq.toNat < 16 then
    (.ok (), { k with irqHandlers := Function.update k.irqHandlers ⟨irq.toNat, h⟩ none })
  else (.error irqOutOfRange, k)

/-- The branch of `irq_dispatcher` for a known IRQ. -/
def serveIrq (irq : Fin 16) (k : Interrupts D) : Interrupts D :=
  match k.irqHandlers irq with
  | some handler =>
    let served := handler (BitVec.ofNat 8 irq.val) k.drivers
    { k with drivers := served.1, logged := k.logged ++ served.2 }
  | none =>
    let count := k.unhandledIrqCount irq
    let k := { k with unhandledIrqCount := Function.update k.unhandledIrqCount irq (count + 1) }
    if count < 5 then k.klog s!"[IRQ] Unhandled hardware IRQ {irq.val}" else k

def irqDispatcher (irq : U64) (k : Interrupts D) : Interrupts D :=
  (if h : irq.toNat < 16 then serveIrq ⟨irq.toNat, h⟩ k else k).eoi

def genericInterruptDispatcher (k : Interrupts D) : Interrupts D :=
  let count := k.unexpectedCount
  let k := { k with unexpectedCount := count + 1 }
  (if count < 5 then k.klog "[IRQ] Unexpected external interrupt received" else k).eoi

def exceptionNames : List String :=
  [ "Divide Error (#DE)", "Debug (#DB)", "Non-Maskable Interrupt (#NMI)", "Breakpoint (#BP)", "Overflow (#OF)",
    "Bound Range Exceeded (#BR)", "Invalid Opcode (#UD)", "Device Not Available (#NM)", "Double Fault (#DF)",
    "Coprocessor Segment Overrun", "Invalid TSS (#TS)", "Segment Not Present (#NP)", "Stack-Segment Fault (#SS)",
    "General Protection Fault (#GP)", "Page Fault (#PF)", "Reserved", "x87 Floating-Point Exception (#MF)",
    "Alignment Check (#AC)", "Machine Check (#MC)", "SIMD Floating-Point Exception (#XM)",
    "Virtualization Exception (#VE)", "Control Protection Exception (#CP)", "Reserved", "Reserved", "Reserved",
    "Reserved", "Reserved", "Reserved", "Hypervisor Injection Exception (#HV)", "VMM Communication Exception (#VC)",
    "Security Exception (#SX)", "Reserved" ]

/-- The name that is logged. -/
def exceptionName (vector : U64) : String := exceptionNames.getD vector.toNat "Unknown Exception"

def errorBit (errorCode : U64) (n : ℕ) : ℕ := ((errorCode >>> n) &&& 1).toNat

/-- A number in hexadecimal, filled with zeros to `width` characters, the `0x` included. -/
def hex (width : ℕ) {w : ℕ} (n : BitVec w) : String :=
  "0x" ++ String.ofList (List.leftpad (width - 2) '0' (Nat.toDigits 16 n.toNat))

/-- What is logged for a breakpoint. -/
def breakpointReport (frame : ExceptionFrame) : List String :=
  [ "\r\n[EXCEPTION] Breakpoint (#BP) trapped successfully",
    s!"  RIP: {hex 18 frame.rip}  CS: {hex 6 frame.cs}",
    s!"  RFLAGS: {hex 18 frame.rflags}  RSP: {hex 18 frame.rsp}" ]

/-- What is logged for any other exception. -/
def exceptionReport (frame : ExceptionFrame) (cr2 : U64) : List String :=
  [ s!"\r\n[CPU EXCEPTION] {exceptionName frame.vector}",
    s!"  Vector:     {frame.vector.toNat}",
    s!"  Error Code: {hex 18 frame.errorCode}",
    s!"  RIP:        {hex 18 frame.rip}  CS: {hex 6 frame.cs}",
    s!"  RFLAGS:     {hex 18 frame.rflags}  SS: {hex 6 frame.ss}",
    s!"  RSP:        {hex 18 frame.rsp}  RBP: {hex 18 frame.regs.rbp}",
    s!"  RAX: {hex 18 frame.regs.rax}  RBX: {hex 18 frame.regs.rbx}",
    s!"  RCX: {hex 18 frame.regs.rcx}  RDX: {hex 18 frame.regs.rdx}",
    s!"  RSI: {hex 18 frame.regs.rsi}  RDI: {hex 18 frame.regs.rdi}" ] ++
  (if frame.vector = 14 then
    [ s!"  CR2 (Faulting Address): {hex 18 cr2}",
      s!"  Page Fault Flags: P={errorBit frame.errorCode 0} W/R={errorBit frame.errorCode 1} U/S={errorBit frame.errorCode 2}" ++
        s!" RSVD={errorBit frame.errorCode 3} I/D={errorBit frame.errorCode 4}" ]
  else []) ++
  ["[CPU EXCEPTION] Halting CPU safely.\r\n"]

/-- `exception_dispatcher`: whether it returns, and the state it leaves. -/
def exceptionDispatcher (frame : ExceptionFrame) (cr2 : U64) (k : Interrupts D) : Bool × Interrupts D :=
  let k := k.disableUefiConsole
  if frame.vector = 3 then (true, { k with logged := k.logged ++ breakpointReport frame })
  else (false, { k with logged := k.logged ++ exceptionReport frame cr2 })

/-- The state behind a call that returns. -/
def returned (r : Bool × Interrupts D) : Option (Interrupts D) := if r.1 then some r.2 else none

end VenturaOS.Idt
