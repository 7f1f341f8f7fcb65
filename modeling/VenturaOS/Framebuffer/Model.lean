import Mathlib.Data.BitVec
import VenturaOS.Framebuffer.Font
import VenturaOS.Library.BoundedMemory

/-!
# The framebuffer console

`framebuffer.rs`: text on a linear framebuffer, drawn pixel by pixel, and
scrolled by moving all lines up. Pixels are numbered from the framebuffer's
base. A pixel access beyond `stride * height` and a subtraction below zero
are failures, `none`. GOP reports 32-bit sizes, so products of two of them
fit in a machine word.
-/
namespace VenturaOS.Framebuffer
open Library

abbrev Pixels := ℕ → BitVec 32

def cellWidth : ℕ := glyphWidth
def cellHeight : ℕ := glyphHeight * 2

def fgColor : BitVec 32 := 0x00CCCCCC
def bgColor : BitVec 32 := 0x00000000

inductive PixelFormat
  | rgb
  | bgr
  | bitmask
  | bltOnly
deriving DecidableEq, Repr

namespace PixelFormat

def fromUefi (value : BitVec 32) : PixelFormat :=
  if value = 0 then .rgb else if value = 1 then .bgr else if value = 2 then .bitmask else .bltOnly

def name : PixelFormat → String
  | .rgb => "RGBX-8888"
  | .bgr => "BGRX-8888"
  | .bitmask => "BITMASK"
  | .bltOnly => "BLT_ONLY"

end PixelFormat

structure FramebufferInfo where
  physBase : BitVec 64
  sizeBytes : BitVec 64
  width : ℕ
  height : ℕ
  /-- Pixels per scan line. -/
  stride : ℕ
  format : PixelFormat
deriving DecidableEq, Repr

/-- Number of pixels the framebuffer spans. -/
def FramebufferInfo.limit (info : FramebufferInfo) : ℕ := info.stride * info.height

/-- `CONSOLE`, `ACTIVE` and the pixels. -/
structure Console where
  info : Option FramebufferInfo
  cols : ℕ
  rows : ℕ
  col : ℕ
  row : ℕ
  active : Bool
  pixels : Pixels

def setInfo (info : FramebufferInfo) (console : Console) : Console := { console with info := some info }

/-- `framebuffer::init`. -/
def init (console : Console) : Option (Bool × Console) :=
  match console.info with
  | none => some (false, console)
  | some info =>
    if info.format ≠ .bltOnly ∧ info.width > 0 ∧ info.height > 0 then do
      let pixels ← (List.range (info.stride * info.height)).foldlM
        (fun fb i => BoundedMemory.write info.limit i bgColor fb) console.pixels
      return (true, { console with
        cols := info.width / cellWidth
        rows := info.height / cellHeight
        col := 0
        row := 0
        active := true
        pixels := pixels })
    else some (false, console)

/-- Colour of pixel `gx` of a glyph row. -/
def glyphColor (bits : UInt8) (gx : ℕ) : BitVec 32 :=
  if (bits >>> UInt8.ofNat gx) &&& 1 ≠ 0 then fgColor else bgColor

def drawGlyph (info : FramebufferInfo) (col row : ℕ) (byte : UInt8) (fb : Pixels) : Option Pixels :=
  let x0 := col * cellWidth
  let y0 := row * cellHeight
  (List.range glyphHeight).foldlM (fun fb gy =>
    (List.range 2).foldlM (fun fb dy =>
      (List.range glyphWidth).foldlM (fun fb gx =>
        BoundedMemory.write info.limit ((y0 + gy * 2 + dy) * info.stride + x0 + gx)
          (glyphColor ((glyph byte).getD gy 0) gx) fb) fb) fb) fb

def scroll (info : FramebufferInfo) (rows : ℕ) (fb : Pixels) : Option Pixels :=
  let rowPixels := info.stride * cellHeight
  let textPixels := rowPixels * rows
  if textPixels < rowPixels then none
  else do
    let fb ← BoundedMemory.copy info.limit rowPixels 0 (textPixels - rowPixels) fb
    (List.range' (textPixels - rowPixels) rowPixels).foldlM
      (fun fb i => BoundedMemory.write info.limit i bgColor fb) fb

/-- `if console.row >= console.rows { scroll; console.row = console.rows - 1 }`. -/
def scrollPast (info : FramebufferInfo) (console : Console) : Option Console :=
  if console.row ≥ console.rows then do
    let fb ← scroll info console.rows console.pixels
    if console.rows = 0 then none else some { console with pixels := fb, row := console.rows - 1 }
  else some console

/-- `framebuffer::write_byte`. -/
def writeByte (byte : UInt8) (console : Console) : Option Console :=
  if !console.active then some console
  else
    match console.info with
    | none => some console
    | some info =>
      if byte = 10 then scrollPast info { console with col := 0, row := console.row + 1 }
      else if byte = 13 then scrollPast info { console with col := 0 }
      else do
        let console ← scrollPast info
          (if console.col ≥ console.cols then { console with col := 0, row := console.row + 1 } else console)
        let fb ← drawGlyph info console.col console.row byte console.pixels
        scrollPast info { console with pixels := fb, col := console.col + 1 }

end VenturaOS.Framebuffer
