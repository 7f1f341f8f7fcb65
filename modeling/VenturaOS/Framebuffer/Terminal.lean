import VenturaOS.Framebuffer.Model

/-!
# The console as a text terminal

A grid of characters with a cursor, and its picture: every cell shows its
glyph with each glyph row doubled, everything else is background. The console
draws exactly that picture, whatever bytes it is sent.
-/
namespace VenturaOS.Framebuffer
open Library BoundedMemory

/-- A grid of characters; the column may stand just past the last one, where the wrap is pending. -/
structure Terminal (rows cols : ℕ) where
  cell : Fin rows → Fin cols → Option UInt8
  row : Fin rows
  col : Fin (cols + 1)

namespace Terminal

variable {rows cols : ℕ}

/-- Drop the top line and append a blank one. -/
def dropTop (t : Terminal rows cols) : Terminal rows cols :=
  { t with cell := fun r c => if h : r.val + 1 < rows then t.cell ⟨r.val + 1, h⟩ c else none }

/-- Column 0 of the next line; past the last line the text moves up instead. -/
def nextLine (t : Terminal rows cols) : Terminal rows cols :=
  if h : t.row.val + 1 < rows then { t with row := ⟨t.row.val + 1, h⟩, col := 0 }
  else { t.dropTop with col := 0 }

def fill (t : Terminal rows cols) (c : Fin cols) (byte : UInt8) : Terminal rows cols :=
  { t with cell := Function.update t.cell t.row (Function.update (t.cell t.row) c (some byte)), col := c.succ }

def put [NeZero cols] (byte : UInt8) (t : Terminal rows cols) : Terminal rows cols :=
  if byte = 10 then t.nextLine
  else if byte = 13 then { t with col := 0 }
  else if h : t.col.val < cols then t.fill ⟨t.col.val, h⟩ byte
  else t.nextLine.fill 0 byte

def blank [NeZero rows] : Terminal rows cols := ⟨fun _ _ => none, 0, 0⟩

/-- Colour of one pixel of a cell: bit `gx` of row `gy` of the glyph, in the foreground if it is set. -/
def cellColor (content : Option UInt8) (gy gx : ℕ) : BitVec 32 :=
  match content with
  | none => bgColor
  | some byte => if ((glyph byte).getD gy 0).toNat.testBit gx then fgColor else bgColor

def pixel (t : Terminal rows cols) (y x : ℕ) : BitVec 32 :=
  if h : y / cellHeight < rows ∧ x / cellWidth < cols then
    cellColor (t.cell ⟨y / cellHeight, h.1⟩ ⟨x / cellWidth, h.2⟩) (y % cellHeight / 2) (x % cellWidth)
  else bgColor

end Terminal

/-- A framebuffer with room for a character, as `init` accepts it and GOP describes it. -/
structure Display where
  info : FramebufferInfo
  linear : info.format ≠ .bltOnly
  width : 8 ≤ info.width
  height : 16 ≤ info.height
  stride : info.width ≤ info.stride

namespace Display

def cols (d : Display) : ℕ := d.info.width / cellWidth
def rows (d : Display) : ℕ := d.info.height / cellHeight

instance : Inhabited Display :=
  ⟨⟨⟨0x80000000#64, 0x300000#64, 1024, 768, 1024, .bgr⟩, by decide, by decide, by decide, by decide⟩⟩

instance (d : Display) : NeZero d.cols := ⟨by
  have h := d.width
  unfold cols cellWidth glyphWidth
  omega⟩

instance (d : Display) : NeZero d.rows := ⟨by
  have h := d.height
  unfold rows cellHeight glyphHeight
  omega⟩

end Display

/-- The pixels are the picture of the terminal. -/
def Pictures (d : Display) (t : Terminal d.rows d.cols) (fb : Pixels) : Prop :=
  ∀ y x, y < d.info.height → x < d.info.stride → fb (y * d.info.stride + x) = t.pixel y x

/-- The console shows the terminal, and its cursor is the terminal's. -/
structure Shows (d : Display) (t : Terminal d.rows d.cols) (c : Console) : Prop where
  info : c.info = some d.info
  active : c.active = true
  cols : c.cols = d.cols
  rows : c.rows = d.rows
  row : c.row = t.row.val
  col : c.col = t.col.val
  picture : Pictures d t c.pixels

section Pixels

variable {d : Display} {t : Terminal d.rows d.cols}

theorem index_line {s y x : ℕ} (hx : x < s) : (y * s + x) / s = y ∧ (y * s + x) % s = x := by
  constructor
  · rw [Nat.mul_comm, Nat.mul_add_div (by omega), Nat.div_eq_of_lt hx, Nat.add_zero]
  · rw [Nat.mul_comm, Nat.mul_add_mod, Nat.mod_eq_of_lt hx]

theorem index_lt {y x : ℕ} (hy : y < d.info.height) (hx : x < d.info.stride) :
    y * d.info.stride + x < d.info.limit := by
  have hle : (y + 1) * d.info.stride ≤ d.info.height * d.info.stride := Nat.mul_le_mul_right _ hy
  rw [FramebufferInfo.limit, Nat.mul_comm d.info.stride]
  rw [Nat.add_mul, Nat.one_mul] at hle
  omega

/-- Lines of text lie on the screen, and so do columns. -/
theorem text_lines {y : ℕ} (h : y / cellHeight < d.rows) : y < d.info.height := by
  unfold Display.rows cellHeight glyphHeight at h
  omega

theorem text_columns {x : ℕ} (h : x / cellWidth < d.cols) : x < d.info.stride := by
  have hs := d.stride
  unfold Display.cols cellWidth glyphWidth at h
  omega

theorem glyphColor_eq (bits : UInt8) {gx : ℕ} (h : gx < 8) :
    glyphColor bits gx = if bits.toNat.testBit gx then fgColor else bgColor := by
  have hbit : (bits >>> UInt8.ofNat gx) &&& 1 ≠ 0 ↔ bits.toNat.testBit gx = true := by
    have hval : ((bits >>> UInt8.ofNat gx) &&& 1).toNat = bits.toNat / 2 ^ gx % 2 := by
      rw [UInt8.toNat_and, UInt8.toNat_shiftRight, UInt8.toNat_ofNat', Nat.mod_eq_of_lt (show gx % 2 ^ 8 < 8 by omega),
        Nat.mod_eq_of_lt (show gx < 2 ^ 8 by omega), Nat.shiftRight_eq_div_pow]
      exact Nat.and_one_is_mod _
    rw [ne_eq, ← UInt8.toNat_inj, hval, Nat.testBit_eq_decide_div_mod_eq, decide_eq_true_iff]
    change ¬bits.toNat / 2 ^ gx % 2 = 0 ↔ _
    omega
  exact if_congr hbit rfl rfl

def cellPixels (d : Display) (col row : ℕ) : Set ℕ :=
  {i | i / d.info.stride / cellHeight = row ∧ i % d.info.stride / cellWidth = col}

/-- The colour of a glyph at a pixel number, wherever its cell is. -/
def glyphAt (d : Display) (byte : UInt8) (i : ℕ) : BitVec 32 :=
  Terminal.cellColor (some byte) (i / d.info.stride % cellHeight / 2) (i % d.info.stride % cellWidth)

/-- `draw_glyph` writes the pixels of its cell, all of them on the screen. -/
theorem drawGlyph_paints {col row : ℕ} (hcol : col < d.cols) (hrow : row < d.rows) (byte : UInt8) :
    Paints (cellPixels d col row) (glyphAt d byte) (drawGlyph d.info col row byte) := by
  have hlimit {gy dy gx : ℕ} (hgy : gy < 8) (hdy : dy < 2) (hgx : gx < 8) :
      row * 16 + gy * 2 + dy < d.info.height ∧ col * 8 + gx < d.info.stride := by
    constructor
    · apply text_lines
      change (row * 16 + gy * 2 + dy) / 16 < d.rows
      omega
    · apply text_columns
      change (col * 8 + gx) / 8 < d.cols
      omega
  have hpixels : Paints {i | ∃ gy ∈ List.range 8, i ∈ {i | ∃ dy ∈ List.range 2, i ∈ {i | ∃ gx ∈ List.range 8,
      i ∈ ({(row * 16 + gy * 2 + dy) * d.info.stride + col * 8 + gx} : Set ℕ)}}}
      (glyphAt d byte) (drawGlyph d.info col row byte) := by
    apply paints_foldlM
    intro gy hgy
    apply paints_foldlM
    intro dy hdy
    apply paints_foldlM
    intro gx hgx
    rw [List.mem_range] at hgy hdy hgx
    change gy < 8 at hgy
    change gx < 8 at hgx
    rcases hlimit hgy hdy hgx with ⟨hy, hx⟩
    rcases index_line (y := row * 16 + gy * 2 + dy) hx with ⟨hdiv, hmod⟩
    -- the value written is the glyph's colour at that pixel
    have hvalue : glyphAt d byte ((row * 16 + gy * 2 + dy) * d.info.stride + (col * 8 + gx)) =
        glyphColor ((glyph byte).getD gy 0) gx := by
      have hline : (row * 16 + gy * 2 + dy) % 16 / 2 = gy := by omega
      have hcolumn : (col * 8 + gx) % 8 = gx := by omega
      rw [glyphAt, hdiv, hmod, glyphColor_eq _ hgx]
      change Terminal.cellColor (some byte) ((row * 16 + gy * 2 + dy) % 16 / 2) ((col * 8 + gx) % 8) = _
      rw [hline, hcolumn]
      rfl
    have hwrite := paints_write (v := glyphAt d byte) (index_lt hy hx)
    rw [hvalue, ← Nat.add_assoc] at hwrite
    exact hwrite
  apply hpixels.congr
  intro i
  simp only [Set.mem_ofPred_eq, Set.mem_singleton_iff, List.mem_range, cellPixels]
  constructor
  · rintro ⟨gy, hgy, dy, hdy, gx, hgx, rfl⟩
    rcases hlimit hgy hdy hgx with ⟨-, hx⟩
    rcases index_line (y := row * 16 + gy * 2 + dy) hx with ⟨hdiv, hmod⟩
    rw [Nat.add_assoc, hdiv, hmod]
    unfold cellHeight cellWidth glyphHeight glyphWidth
    omega
  · rintro ⟨hy, hx⟩
    unfold cellHeight glyphHeight at hy
    unfold cellWidth glyphWidth at hx
    have hsplit := Nat.div_add_mod i d.info.stride
    refine ⟨i / d.info.stride % 16 / 2, by omega, i / d.info.stride % 2, by omega, i % d.info.stride % 8, by omega, ?_⟩
    have hline : row * 16 + i / d.info.stride % 16 / 2 * 2 + i / d.info.stride % 2 = i / d.info.stride := by omega
    rw [hline, Nat.mul_comm, Nat.add_assoc]
    omega

end Pixels
end VenturaOS.Framebuffer
