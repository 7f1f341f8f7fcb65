import VenturaOS.Boot.Firmware
import VenturaOS.Framebuffer.Refinement

/-!
# The logger

`logger.rs`: every text goes to the serial port, to the framebuffer console
once it is active, and to the console of the firmware until that is given up.
-/
namespace VenturaOS.Logger
open Boot Framebuffer

def com1Port : BitVec 16 := 0x3F8

/-- `CON_OUT`, `UEFI_CONSOLE_ACTIVE` and the console, what was done to the ports and the firmware, and the
processor's interrupt flag. -/
structure Outputs where
  conOut : U64
  uefiConsoleActive : Bool
  console : Console
  /-- The port writes. -/
  outs : List (BitVec 16 × UInt8)
  /-- How often the line status was read. -/
  polls : ℕ
  calls : List Call
  interruptsEnabled : Bool

namespace Outputs

def outb (port : BitVec 16) (value : UInt8) (o : Outputs) : Outputs := { o with outs := o.outs ++ [(port, value)] }

def call (c : Call) (o : Outputs) : Outputs := { o with calls := o.calls ++ [c] }

def cli (o : Outputs) : Outputs := { o with interruptsEnabled := false }

def sti (o : Outputs) : Outputs := { o with interruptsEnabled := true }

/-- `platform::without_interrupts`. -/
def withoutInterrupts (f : Outputs → Option Outputs) (o : Outputs) : Option Outputs :=
  (f (if o.interruptsEnabled then o.cli else o)).map fun o' => if o.interruptsEnabled then o'.sti else o'

/-- A call of `output_string` with one unit and the zero after it. -/
def outputString (unit : BitVec 16) (o : Outputs) : Outputs := o.call (.outputString o.conOut [unit, 0])

/-- `framebuffer::write_byte` for each byte. -/
def draw (bytes : List UInt8) (o : Outputs) : Option Outputs :=
  (writeBytes bytes o.console).map fun console => { o with console := console }

end Outputs

open Outputs

/-- `logger::init`. -/
def init (out : U64) (o : Outputs) : Outputs :=
  let o := { o with conOut := out }
  let o := o.outb (com1Port + 1) 0x00
  let o := o.outb (com1Port + 3) 0x80
  let o := o.outb (com1Port + 0) 0x03
  let o := o.outb (com1Port + 1) 0x00
  let o := o.outb (com1Port + 3) 0x03
  let o := o.outb (com1Port + 2) 0xC7
  o.outb (com1Port + 4) 0x0B

def disableUefiConsole (o : Outputs) : Outputs := { o with uefiConsoleActive := false }

def utf8 (s : String) : List UInt8 := s.toList.flatMap String.utf8EncodeChar

/-- `ch as u16`. -/
def unit (ch : Char) : BitVec 16 := BitVec.ofNat 16 ch.toNat

section Writing

variable (status : ℕ → UInt8)

/-- The waiting loop with so much of the timeout left, from read `n` of the line status on: the read after it. -/
def await : (timeout n : ℕ) → ℕ
  | 0, n => n + 1
  | timeout + 1, n => if status n &&& 0x20 = 0 then await timeout (n + 1) else n + 1

def writeSerialByte (byte : UInt8) (o : Outputs) : Outputs :=
  { o with polls := await status 10000 o.polls }.outb com1Port byte

def writeStrRaw (s : String) (o : Outputs) : Option Outputs := do
  -- 1. the serial port
  let o := (utf8 s).foldl (fun o byte =>
    writeSerialByte status byte (if byte = 10 then writeSerialByte status 13 o else o)) o
  -- 2. the framebuffer
  let o ← if o.console.active then withoutInterrupts (draw (utf8 s)) o else some o
  -- 3. the firmware
  return if o.uefiConsoleActive ∧ o.conOut ≠ 0 then
    s.toList.foldl (fun o ch => outputString (unit ch) (if ch = '\n' then outputString 13 o else o)) o
  else o

/-- A run of `write_str` calls. -/
def writeAll (pieces : List String) (o : Outputs) : Option Outputs :=
  pieces.foldlM (fun o s => writeStrRaw status s o) o

/-- `_klog`, for the pieces that formatting hands to the writer. -/
def klog (pieces : List String) (o : Outputs) : Option Outputs := writeAll status (pieces ++ ["\r\n"]) o

end Writing

/-- A carriage return before each newline. -/
def crlf (bytes : List UInt8) : List UInt8 := bytes.flatMap fun byte => if byte = 10 then [13, 10] else [byte]

/-- The units for the firmware. -/
def units (s : String) : List (BitVec 16) := s.toList.flatMap fun ch => if ch = '\n' then [13, unit ch] else [unit ch]

def textOf (pieces : List String) : List UInt8 := pieces.flatMap utf8

/-- The registers of the serial port's chip, and the bytes it was handed to send, whether it was ready or not. -/
structure Uart where
  divisorLow : UInt8
  divisorHigh : UInt8
  interruptEnable : UInt8
  fifoControl : UInt8
  lineControl : UInt8
  modemControl : UInt8
  handed : List UInt8
deriving DecidableEq, Repr

/-- A port write as the chip takes it: bit 7 of the line control says what its first two ports are. -/
def Uart.write (u : Uart) (out : BitVec 16 × UInt8) : Uart :=
  if out.1 = com1Port then
    if u.lineControl &&& 0x80 ≠ 0 then { u with divisorLow := out.2 } else { u with handed := u.handed ++ [out.2] }
  else if out.1 = com1Port + 1 then
    if u.lineControl &&& 0x80 ≠ 0 then { u with divisorHigh := out.2 } else { u with interruptEnable := out.2 }
  else if out.1 = com1Port + 2 then { u with fifoControl := out.2 }
  else if out.1 = com1Port + 3 then { u with lineControl := out.2 }
  else if out.1 = com1Port + 4 then { u with modemControl := out.2 }
  else u

end VenturaOS.Logger
