import Mathlib.Tactic.Ring
import Mathlib.Tactic.Linarith
import VenturaOS.Framebuffer.Terminal

/-!
# The console draws the terminal

Clearing, drawing and scrolling each turn the picture of one terminal into
the picture of the next, so `write_byte` follows `Terminal.put` byte by byte
and never leaves the framebuffer.
-/
namespace VenturaOS.Framebuffer
open Library BoundedMemory

variable {d : Display} {t : Terminal d.rows d.cols} {c : Console} {fb : Pixels}

theorem rows_pos (d : Display) : 0 < d.rows := Nat.pos_of_ne_zero (NeZero.ne d.rows)

theorem text_height (d : Display) : d.rows * 16 ≤ d.info.height := Nat.div_mul_le_self d.info.height 16

section Text

variable {rows cols : ℕ} {t : Terminal rows cols}

/-- Everything below the lines of text is background. -/
theorem Terminal.pixel_below {y x : ℕ} (h : rows * 16 ≤ y) : t.pixel y x = bgColor := by
  rw [pixel, dif_neg]
  rintro ⟨hy, -⟩
  unfold cellHeight glyphHeight at hy
  omega

/-- After dropping the top line, a pixel is the one a text line below it was. -/
theorem Terminal.pixel_dropTop {y x : ℕ} (h : y / 16 + 1 < rows) : t.dropTop.pixel y x = t.pixel (y + 16) x := by
  have hline : (y + 16) / cellHeight = y / cellHeight + 1 := Nat.add_div_right y (by decide)
  have hrow : (y + 16) % cellHeight = y % cellHeight := Nat.add_mod_right y 16
  unfold pixel
  simp only [hline, hrow]
  by_cases hx : x / cellWidth < cols
  · have hy : y / cellHeight + 1 < rows := h
    rw [dif_pos ⟨by omega, hx⟩, dif_pos ⟨hy, hx⟩]
    simp only [dropTop, dif_pos hy]
  · rw [dif_neg fun hc => hx hc.2, dif_neg fun hc => hx hc.2]

theorem Terminal.pixel_dropTop_last {y x : ℕ} (h : rows ≤ y / 16 + 1) : t.dropTop.pixel y x = bgColor := by
  have hy : ¬y / cellHeight + 1 < rows := by
    unfold cellHeight glyphHeight
    omega
  unfold pixel
  split
  · simp only [dropTop, dif_neg hy]
    rfl
  · rfl

theorem Terminal.pixel_blank [NeZero rows] (y x : ℕ) : (blank : Terminal rows cols).pixel y x = bgColor := by
  unfold pixel
  split <;> rfl

end Text

section Drawing

/-- `scroll` moves the text up by one line. -/
theorem scroll_pictures (h : Pictures d t fb) :
    ∃ fb', scroll d.info d.rows fb = some fb' ∧ Pictures d t.dropTop fb' := by
  have hpos := rows_pos d
  have hheight := text_height d
  let s := d.info.stride
  have htext : s * 16 * d.rows = (d.rows * 16) * s := by ring
  have hrest : s * 16 * d.rows - s * 16 = ((d.rows - 1) * 16) * s := by
    rw [← Nat.mul_sub_one]
    ring
  have hsplit : s * 16 * d.rows = s * 16 * d.rows - s * 16 + s * 16 :=
    (Nat.sub_add_cancel (Nat.le_mul_of_pos_right _ hpos)).symm
  have hlimit : s * 16 * d.rows ≤ d.info.limit := by
    rw [htext, FramebufferInfo.limit, Nat.mul_comm d.info.stride]
    exact Nat.mul_le_mul_right _ hheight
  rcases paints_range d.info.limit (s * 16 * d.rows - s * 16) (s * 16) bgColor (by omega)
    (fun i => if 0 ≤ i ∧ i < 0 + (s * 16 * d.rows - s * 16) then fb (i - 0 + s * 16) else fb i)
    with ⟨fb', hclear, hcleared, hkept⟩
  refine ⟨fb', ?_, fun y x hy (hx : x < s) => ?_⟩
  · have hcopy : copy d.info.limit (s * 16) 0 (s * 16 * d.rows - s * 16) fb = some _ :=
      if_pos ⟨by omega, by omega⟩
    have hnot : ¬s * 16 * d.rows < s * 16 := Nat.not_lt.mpr (Nat.le_mul_of_pos_right _ hpos)
    unfold scroll
    change (if s * 16 * d.rows < s * 16 then none else _) = _
    rw [if_neg hnot]
    change (copy d.info.limit (s * 16) 0 (s * 16 * d.rows - s * 16) fb >>= _) = _
    rw [hcopy]
    exact hclear
  · -- the lines moved, the last line of text, and what lies below the text
    have hmoved : y * s + x < s * 16 * d.rows - s * 16 ↔ y < (d.rows - 1) * 16 := by
      rw [hrest]
      exact ⟨fun hlt => by nlinarith, fun hlt => by nlinarith⟩
    have hin : y * s + x < s * 16 * d.rows ↔ y < d.rows * 16 := by
      rw [htext]
      exact ⟨fun hlt => by nlinarith, fun hlt => by nlinarith⟩
    change fb' (y * s + x) = _
    rcases Nat.lt_or_ge y ((d.rows - 1) * 16) with hup | hlast
    · have hindex : y * s + x < s * 16 * d.rows - s * 16 := hmoved.mpr hup
      rw [hkept _ fun hm => by rw [Set.mem_ofPred_eq] at hm; omega, if_pos ⟨Nat.zero_le _, by omega⟩,
        Terminal.pixel_dropTop (by omega), ← h (y + 16) x (by omega) hx, Nat.add_mul]
      congr 1
      change y * s + x - 0 + s * 16 = y * s + 16 * s + x
      omega
    · rcases Nat.lt_or_ge y (d.rows * 16) with hline | hbelow
      · rw [hcleared _ ⟨by omega, by omega⟩, Terminal.pixel_dropTop_last (by omega)]
      · rw [hkept _ fun hm => by rw [Set.mem_ofPred_eq] at hm; omega, if_neg (by omega), h y x hy hx,
          Terminal.pixel_below hbelow, Terminal.pixel_below hbelow]

theorem drawGlyph_pictures (h : Pictures d t fb) (col : Fin d.cols) (byte : UInt8) :
    ∃ fb', drawGlyph d.info col t.row byte fb = some fb' ∧ Pictures d (t.fill col byte) fb' := by
  rcases drawGlyph_paints col.isLt t.row.isLt byte fb with ⟨fb', hdraw, hcell, hkept⟩
  refine ⟨fb', hdraw, fun y x hy hx => ?_⟩
  rcases index_line (y := y) hx with ⟨hdiv, hmod⟩
  have hmem : y * d.info.stride + x ∈ cellPixels d col t.row ↔ y / cellHeight = t.row ∧ x / cellWidth = col := by
    rw [cellPixels, Set.mem_ofPred_eq, hdiv, hmod]
  by_cases hin : y / cellHeight = t.row.val ∧ x / cellWidth = col.val
  · rw [hcell _ (hmem.mpr hin), glyphAt, hdiv, hmod]
    unfold Terminal.pixel
    rw [dif_pos ⟨by rw [hin.1]; exact t.row.isLt, by rw [hin.2]; exact col.isLt⟩]
    have hrow : (⟨y / cellHeight, by rw [hin.1]; exact t.row.isLt⟩ : Fin d.rows) = t.row := Fin.ext hin.1
    have hcol : (⟨x / cellWidth, by rw [hin.2]; exact col.isLt⟩ : Fin d.cols) = col := Fin.ext hin.2
    simp only [Terminal.fill, hrow, hcol, Function.update_self]
  · rw [hkept _ fun hm => hin (hmem.mp hm), h y x hy hx]
    unfold Terminal.pixel
    split
    · rename_i hb
      have hsame : (t.fill col byte).cell ⟨y / cellHeight, hb.1⟩ ⟨x / cellWidth, hb.2⟩ =
          t.cell ⟨y / cellHeight, hb.1⟩ ⟨x / cellWidth, hb.2⟩ := by
        simp only [Terminal.fill]
        by_cases hrow : (⟨y / cellHeight, hb.1⟩ : Fin d.rows) = t.row
        · have hcol : (⟨x / cellWidth, hb.2⟩ : Fin d.cols) ≠ col := fun he =>
            hin ⟨congrArg Fin.val hrow, congrArg Fin.val he⟩
          rw [hrow, Function.update_self, Function.update_of_ne hcol]
        · rw [Function.update_of_ne hrow]
      rw [hsame]
    · rfl

theorem init_started {info : FramebufferInfo} (hlinear : info.format ≠ .bltOnly) (hwidth : 0 < info.width)
    (hheight : 0 < info.height) (c : Console) :
    ∃ fb, init (setInfo info c) =
        some (true, ⟨some info, info.width / cellWidth, info.height / cellHeight, 0, 0, true, fb⟩) ∧
      ∀ i < info.limit, fb i = bgColor := by
  rcases paints_range info.limit 0 info.limit bgColor (by omega) c.pixels with ⟨fb, hclear, hcleared, -⟩
  rw [← List.range_eq_range'] at hclear
  dsimp only at hclear
  refine ⟨fb, ?_, fun i hi => hcleared i ⟨Nat.zero_le _, by omega⟩⟩
  unfold init setInfo
  simp only
  rw [if_pos ⟨hlinear, hwidth, hheight⟩]
  change ((List.range info.limit).foldlM _ c.pixels >>= _) = _
  rw [hclear]
  rfl

theorem init_shows (d : Display) (c : Console) :
    ∃ c', init (setInfo d.info c) = some (true, c') ∧ Shows d Terminal.blank c' := by
  have hwidth : 0 < d.info.width := by have := d.width; omega
  have hheight : 0 < d.info.height := by have := d.height; omega
  rcases init_started d.linear hwidth hheight c with ⟨fb, hinit, hcleared⟩
  refine ⟨_, hinit, rfl, rfl, rfl, rfl, rfl, rfl, fun y x hy hx => ?_⟩
  rw [Terminal.pixel_blank]
  exact hcleared _ (index_lt hy hx)

end Drawing

section Writing

theorem scrollPast_shows (h : Shows d t c) : scrollPast d.info c = some c := by
  have hrow : ¬c.row ≥ c.rows := by
    rw [h.row, h.rows]
    exact Nat.not_le.mpr t.row.isLt
  rw [scrollPast, if_neg hrow]

theorem scrollPast_nextLine (h : Shows d t c) :
    ∃ c', scrollPast d.info { c with col := 0, row := c.row + 1 } = some c' ∧ Shows d t.nextLine c' := by
  have hpos := rows_pos d
  unfold scrollPast Terminal.nextLine
  simp only [h.row, h.rows]
  by_cases hlast : t.row.val + 1 < d.rows
  · rw [if_neg (by omega), dif_pos hlast]
    exact ⟨_, rfl, h.info, h.active, h.cols, rfl, rfl, rfl, h.picture⟩
  · rcases scroll_pictures h.picture with ⟨fb, hscroll, hpicture⟩
    rw [if_pos (by omega), dif_neg hlast, hscroll]
    simp only [Option.bind_eq_bind, Option.bind_some]
    rw [if_neg (by omega)]
    refine ⟨_, rfl, h.info, h.active, h.cols, rfl, ?_, rfl, hpicture⟩
    change d.rows - 1 = t.row.val
    have hrow := t.row.isLt
    omega

/-- Drawing at the cursor and stepping the column fills a cell of the terminal. -/
theorem drawGlyph_shows (h : Shows d t c) (col : Fin d.cols) (hcol : c.col = col) (byte : UInt8) :
    ∃ fb, drawGlyph d.info c.col c.row byte c.pixels = some fb ∧
      Shows d (t.fill col byte) { c with pixels := fb, col := c.col + 1 } := by
  rcases drawGlyph_pictures h.picture col byte with ⟨fb, hdraw, hpicture⟩
  refine ⟨fb, ?_, h.info, h.active, h.cols, h.rows, h.row, ?_, hpicture⟩
  · rw [hcol, h.row]
    exact hdraw
  · rw [hcol]
    rfl

/-- `write_byte` follows the terminal. -/
theorem writeByte_shows (h : Shows d t c) (byte : UInt8) :
    ∃ c', writeByte byte c = some c' ∧ Shows d (t.put byte) c' := by
  have hinactive : ¬(!c.active) = true := by simp [h.active]
  unfold writeByte Terminal.put
  rw [if_neg hinactive]
  split
  · rename_i hnone
    rw [h.info] at hnone
    cases hnone
  rename_i info hinfo
  rw [h.info] at hinfo
  cases hinfo
  by_cases hnewline : byte = 10
  · simp only [if_pos hnewline]
    exact scrollPast_nextLine h
  · by_cases hreturn : byte = 13
    · simp only [if_neg hnewline, if_pos hreturn]
      have hshows : Shows d { t with col := 0 } { c with col := 0 } :=
        ⟨h.info, h.active, h.cols, h.rows, h.row, rfl, h.picture⟩
      exact ⟨_, scrollPast_shows hshows, hshows⟩
    · simp only [if_neg hnewline, if_neg hreturn]
      by_cases hfits : t.col.val < d.cols
      · have hcursor : ¬c.col ≥ c.cols := by
          rw [h.col, h.cols]
          exact Nat.not_le.mpr hfits
        rcases drawGlyph_shows h ⟨t.col.val, hfits⟩ h.col byte with ⟨fb, hdraw, hshows⟩
        rw [if_neg hcursor, dif_pos hfits, scrollPast_shows h]
        simp only [Option.bind_eq_bind, Option.bind_some, hdraw]
        exact ⟨_, scrollPast_shows hshows, hshows⟩
      · -- the deferred wrap: first to the next line, then into its first cell
        have hcursor : c.col ≥ c.cols := by
          rw [h.col, h.cols]
          exact Nat.not_lt.mp hfits
        rcases scrollPast_nextLine h with ⟨w, hwrap, hline⟩
        have hcol : w.col = (0 : Fin d.cols).val := by
          rw [hline.col]
          unfold Terminal.nextLine
          split <;> rfl
        rcases drawGlyph_shows hline 0 hcol byte with ⟨fb, hdraw, hshows⟩
        rw [if_pos hcursor, dif_neg hfits, hwrap]
        simp only [Option.bind_eq_bind, Option.bind_some, hdraw]
        exact ⟨_, scrollPast_shows hshows, hshows⟩

def writeBytes (bytes : List UInt8) (c : Console) : Option Console :=
  bytes.foldlM (fun c byte => writeByte byte c) c

theorem writeBytes_shows (bytes : List UInt8) (h : Shows d t c) :
    ∃ c', writeBytes bytes c = some c' ∧ Shows d (bytes.foldl (fun t byte => t.put byte) t) c' := by
  induction bytes generalizing t c with
  | nil => exact ⟨c, rfl, h⟩
  | cons byte bytes ih =>
    rcases writeByte_shows h byte with ⟨w, hbyte, hshows⟩
    rcases ih hshows with ⟨c', hrest, hlast⟩
    refine ⟨c', ?_, hlast⟩
    rw [writeBytes, List.foldlM_cons, hbyte]
    exact hrest

/-- Whatever is written after `init`, no access leaves the framebuffer and the screen shows the terminal. -/
theorem console_refines_terminal (d : Display) (console : Console) (bytes : List UInt8) :
    ∃ started c, init (setInfo d.info console) = some (true, started) ∧ writeBytes bytes started = some c ∧
      c.row < d.info.height / 16 ∧ c.col ≤ d.info.width / 8 ∧
      Shows d (bytes.foldl (fun t byte => t.put byte) Terminal.blank) c := by
  rcases init_shows d console with ⟨started, hinit, hblank⟩
  rcases writeBytes_shows bytes hblank with ⟨c, hrun, hshows⟩
  refine ⟨started, c, hinit, hrun, ?_, ?_, hshows⟩
  · rw [hshows.row]
    exact Fin.isLt _
  · rw [hshows.col]
    exact Nat.lt_succ_iff.mp (Fin.isLt _)

end Writing
end VenturaOS.Framebuffer
