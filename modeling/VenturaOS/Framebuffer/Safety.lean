import VenturaOS.Framebuffer.Refinement

/-!
# Framebuffers too small for a character

`init` accepts every linear framebuffer that has a pixel. Without room for a
line of text the first byte subtracts below zero. Without room for a column
the glyphs are drawn all the same, and one in the last line can run past the
last pixel.
-/
namespace VenturaOS.Framebuffer
open Library BoundedMemory

/-- What `init` accepts, with lines that are stored whole. -/
structure Accepted (info : FramebufferInfo) : Prop where
  linear : info.format ≠ .bltOnly
  width : 0 < info.width
  height : 0 < info.height
  stride : info.width ≤ info.stride

/-- Nothing is written; or there is a line of text, and the eight pixels of a glyph fit behind the start of its lowest
pixel line, or nothing but newlines is written in the last line. -/
def Drawable (info : FramebufferInfo) (bytes : List UInt8) : Prop :=
  bytes = [] ∨ 16 ≤ info.height ∧ (8 ≤ info.stride * (info.height % 16 + 1) ∨
    ∀ b ∈ (bytes.filter fun b => b ≠ 13).drop (info.height / 16 - 2), b = 10)

/-- The console is on, and its cursor is in line `row`. -/
structure At (info : FramebufferInfo) (row : ℕ) (c : Console) : Prop where
  known : c.info = some info
  active : c.active = true
  cols : c.cols = info.width / 8
  rows : c.rows = info.height / 16
  row : c.row = row

section Drawing

variable {info : FramebufferInfo} {c : Console} {row rows : ℕ} {byte : UInt8}

theorem drawGlyph_defined (info : FramebufferInfo) (col row : ℕ) (byte : UInt8) :
    DefinedWhen ((row * 16 + 15) * info.stride + col * 8 + 7 < info.limit) (drawGlyph info col row byte) := by
  have hloops : DefinedWhen (∀ gy ∈ List.range 8, ∀ dy ∈ List.range 2, ∀ gx ∈ List.range 8,
      (row * 16 + gy * 2 + dy) * info.stride + col * 8 + gx < info.limit) (drawGlyph info col row byte) := by
    apply definedWhen_foldlM
    intro gy
    apply definedWhen_foldlM
    intro dy
    apply definedWhen_foldlM
    intro gx
    exact definedWhen_write _ _ _
  apply hloops.congr
  constructor
  · intro h
    exact h 7 (by decide) 1 (by decide) 7 (by decide)
  · intro h gy hgy dy hdy gx hgx
    rw [List.mem_range] at hgy hdy hgx
    have hline : (row * 16 + gy * 2 + dy) * info.stride ≤ (row * 16 + 15) * info.stride :=
      Nat.mul_le_mul_right _ (by omega)
    omega

theorem scroll_zero (hstride : 0 < info.stride) (fb : Pixels) : scroll info 0 fb = none := by
  unfold scroll
  exact if_pos (Nat.mul_pos hstride (by decide))

theorem scroll_some (hrows : 0 < rows) (hfit : rows * 16 ≤ info.height) (fb : Pixels) :
    ∃ fb', scroll info rows fb = some fb' := by
  have hlimit : info.stride * 16 * rows ≤ info.limit := by
    rw [FramebufferInfo.limit, Nat.mul_assoc, Nat.mul_comm 16]
    exact Nat.mul_le_mul_left _ hfit
  have hle : info.stride * 16 ≤ info.stride * 16 * rows := Nat.le_mul_of_pos_right _ hrows
  have hcopy : copy info.limit (info.stride * 16) 0 (info.stride * 16 * rows - info.stride * 16) fb = some _ :=
    if_pos ⟨by omega, by omega⟩
  obtain ⟨fb', hclear, -⟩ := paints_range info.limit (info.stride * 16 * rows - info.stride * 16) (info.stride * 16) bgColor
    (by omega) (fun i => if 0 ≤ i ∧ i < 0 + (info.stride * 16 * rows - info.stride * 16) then fb (i - 0 + info.stride * 16)
      else fb i)
  refine ⟨fb', ?_⟩
  unfold scroll
  change (if info.stride * 16 * rows < info.stride * 16 then none else _) = _
  rw [if_neg (Nat.not_lt.mpr hle)]
  change (copy info.limit (info.stride * 16) 0 (info.stride * 16 * rows - info.stride * 16) fb >>= _) = _
  rw [hcopy]
  exact hclear

/-- With a line of text the cursor is brought back into the last one. -/
theorem At.scrolled (h : At info row c) (hrows : 0 < info.height / 16) :
    ∃ c', scrollPast info c = some c' ∧ At info (min row (info.height / 16 - 1)) c' ∧ c'.col = c.col := by
  unfold scrollPast
  by_cases hpast : c.row ≥ c.rows
  · rw [if_pos hpast]
    rw [h.row, h.rows] at hpast
    obtain ⟨fb, hscroll⟩ := scroll_some hrows (Nat.div_mul_le_self info.height 16) c.pixels
    rw [h.rows, hscroll]
    change ∃ c', (if info.height / 16 = 0 then none else some _) = some c' ∧ _
    rw [if_neg (by omega)]
    refine ⟨_, rfl, ⟨h.known, h.active, h.cols, rfl, ?_⟩, rfl⟩
    change info.height / 16 - 1 = _
    omega
  · rw [if_neg hpast]
    rw [h.row, h.rows] at hpast
    refine ⟨c, rfl, ⟨h.known, h.active, h.cols, h.rows, ?_⟩, rfl⟩
    rw [h.row]
    omega

theorem At.look (h : At info row c) (byte : UInt8) : writeByte byte c =
    if byte = 10 then scrollPast info { c with col := 0, row := c.row + 1 }
    else if byte = 13 then scrollPast info { c with col := 0 }
    else (scrollPast info (if c.col ≥ c.cols then { c with col := 0, row := c.row + 1 } else c)).bind fun c =>
      (drawGlyph info c.col c.row byte c.pixels).bind fun fb => scrollPast info { c with pixels := fb, col := c.col + 1 } := by
  unfold writeByte
  rw [h.active, Bool.not_true, if_neg Bool.false_ne_true, h.known]
  rfl

theorem At.newline (h : At info row c) (hrows : 0 < info.height / 16) :
    ∃ c', writeByte 10 c = some c' ∧ At info (min (row + 1) (info.height / 16 - 1)) c' := by
  have hnext : At info (row + 1) { c with col := 0, row := c.row + 1 } := ⟨h.known, h.active, h.cols, h.rows, by rw [h.row]⟩
  obtain ⟨c', hscroll, hat, -⟩ := hnext.scrolled hrows
  exact ⟨c', by rw [h.look, if_pos rfl, hscroll], hat⟩

theorem At.carriageReturn (h : At info row c) (hrow : row < info.height / 16) :
    ∃ c', writeByte 13 c = some c' ∧ At info row c' := by
  have hstart : At info row { c with col := 0 } := ⟨h.known, h.active, h.cols, h.rows, h.row⟩
  obtain ⟨c', hscroll, hat, -⟩ := hstart.scrolled (by omega)
  rw [Nat.min_eq_left (by omega)] at hat
  exact ⟨c', by rw [h.look, if_neg (by decide), if_pos rfl, hscroll], hat⟩

/-- Any other byte is drawn at a position on the text screen; without columns it is the start of the next line. -/
theorem At.glyph (h : At info row c) (hrow : row < info.height / 16) (hnewline : byte ≠ 10) (hreturn : byte ≠ 13) :
    ∃ row' col, row' < info.height / 16 ∧ (col < info.width / 8 ∨ col = 0) ∧
      (info.width / 8 = 0 → row' = min (row + 1) (info.height / 16 - 1)) ∧
      ((writeByte byte c).isSome = true ↔ (row' * 16 + 15) * info.stride + col * 8 + 7 < info.limit) ∧
      ∀ c', writeByte byte c = some c' → At info row' c' := by
  have hplace : ∃ row' w, scrollPast info (if c.col ≥ c.cols then { c with col := 0, row := c.row + 1 } else c) =
      some w ∧ At info row' w ∧ row' < info.height / 16 ∧ (w.col < info.width / 8 ∨ w.col = 0) ∧
      (info.width / 8 = 0 → row' = min (row + 1) (info.height / 16 - 1)) := by
    split_ifs with hwrap
    · have hnext : At info (row + 1) { c with col := 0, row := c.row + 1 } :=
        ⟨h.known, h.active, h.cols, h.rows, by rw [h.row]⟩
      obtain ⟨w, hscroll, hat, hcol⟩ := hnext.scrolled (by omega)
      exact ⟨_, w, hscroll, hat, by omega, .inr hcol, fun _ => rfl⟩
    · rw [h.cols] at hwrap
      obtain ⟨w, hscroll, hat, hcol⟩ := h.scrolled (by omega)
      exact ⟨_, w, hscroll, hat, by omega, .inl (by omega), fun hzero => by omega⟩
  obtain ⟨row', w, hscroll, hat, hlt, hcol, hnarrow⟩ := hplace
  have hdefined := drawGlyph_defined info w.col row' byte w.pixels
  have hrun : writeByte byte c = (drawGlyph info w.col row' byte w.pixels).bind fun fb =>
      scrollPast info { w with pixels := fb, col := w.col + 1 } := by
    rw [h.look, if_neg hnewline, if_neg hreturn, hscroll, ← hat.row]
    rfl
  refine ⟨row', w.col, hlt, hcol, hnarrow, ?_⟩
  rw [hrun]
  cases hdraw : drawGlyph info w.col row' byte w.pixels with
  | none =>
    rw [hdraw] at hdefined
    refine ⟨hdefined, fun c' he => ?_⟩
    cases he
  | some fb =>
    rw [hdraw] at hdefined
    have hdrawn : At info row' { w with pixels := fb, col := w.col + 1 } :=
      ⟨hat.known, hat.active, hat.cols, hat.rows, hat.row⟩
    obtain ⟨c', hlast, hend, -⟩ := hdrawn.scrolled (by omega)
    rw [Nat.min_eq_left (by omega)] at hend
    rw [Option.bind_some, hlast]
    refine ⟨hdefined, fun c'' he => ?_⟩
    cases he
    exact hend

end Drawing

section Limits

variable {info : FramebufferInfo} {row col : ℕ}

/-- With eight pixels behind the start of the lowest line, every position of the text screen has room for a glyph. -/
theorem room_for_glyph (hstride : info.width ≤ info.stride) (hroom : 8 ≤ info.stride * (info.height % 16 + 1))
    (hrow : row < info.height / 16) (hcol : col < info.width / 8 ∨ col = 0) :
    (row * 16 + 15) * info.stride + col * 8 + 7 < info.limit := by
  rw [FramebufferInfo.limit, Nat.mul_comm info.stride]
  rcases hcol with hcol | rfl
  · have hline : (row * 16 + 15 + 1) * info.stride ≤ info.height * info.stride := Nat.mul_le_mul_right _ (by omega)
    rw [Nat.add_mul _ 1, Nat.one_mul] at hline
    omega
  · have hline : (row * 16 + 15 + (info.height % 16 + 1)) * info.stride ≤ info.height * info.stride :=
      Nat.mul_le_mul_right _ (by omega)
    rw [Nat.add_mul _ (info.height % 16 + 1), Nat.mul_comm (info.height % 16 + 1)] at hline
    omega

/-- Without them there is room at the start of a line unless it is the last one. -/
theorem room_above (hpos : 0 < info.stride) (hnarrow : info.stride * (info.height % 16 + 1) < 8)
    (hrow : row < info.height / 16) :
    (row * 16 + 15) * info.stride + 0 * 8 + 7 < info.limit ↔ row + 1 < info.height / 16 := by
  rw [FramebufferInfo.limit, Nat.mul_comm info.stride info.height]
  constructor
  · intro h
    by_contra hlast
    have hline : info.height = row * 16 + 15 + (info.height % 16 + 1) := by omega
    have hsplit : info.height * info.stride = (row * 16 + 15) * info.stride + info.stride * (info.height % 16 + 1) := by
      rw [Nat.mul_comm info.stride, ← Nat.add_mul, ← hline]
    omega
  · intro h
    have hline : (row * 16 + 15 + 8) * info.stride ≤ info.height * info.stride := Nat.mul_le_mul_right _ (by omega)
    rw [Nat.add_mul _ 8] at hline
    omega

end Limits

section Runs

variable {info : FramebufferInfo} {c : Console} {row : ℕ}

theorem At.write_room (h : At info row c) (hrow : row < info.height / 16) (hstride : info.width ≤ info.stride)
    (hroom : 8 ≤ info.stride * (info.height % 16 + 1)) (byte : UInt8) :
    ∃ c' row', writeByte byte c = some c' ∧ At info row' c' ∧ row' < info.height / 16 := by
  by_cases hnewline : byte = 10
  · subst hnewline
    obtain ⟨c', hwrite, hat⟩ := h.newline (by omega)
    exact ⟨c', _, hwrite, hat, by omega⟩
  · by_cases hreturn : byte = 13
    · subst hreturn
      obtain ⟨c', hwrite, hat⟩ := h.carriageReturn hrow
      exact ⟨c', _, hwrite, hat, hrow⟩
    · obtain ⟨row', col, hlt, hcol, -, hdefined, hat⟩ := h.glyph hrow hnewline hreturn
      obtain ⟨c', hwrite⟩ := Option.isSome_iff_exists.mp (hdefined.mpr (room_for_glyph hstride hroom hlt hcol))
      exact ⟨c', row', hwrite, hat c' hwrite, hlt⟩

theorem At.run_room (h : At info row c) (hrow : row < info.height / 16) (hstride : info.width ≤ info.stride)
    (hroom : 8 ≤ info.stride * (info.height % 16 + 1)) (bytes : List UInt8) : (writeBytes bytes c).isSome = true := by
  induction bytes generalizing c row with
  | nil => rfl
  | cons byte bytes ih =>
    obtain ⟨c', row', hwrite, hat, hlt⟩ := h.write_room hrow hstride hroom byte
    rw [writeBytes, List.foldlM_cons, hwrite]
    exact ih hat hlt

/-- On a narrow framebuffer each byte but a carriage return moves on by a line, and the last line takes no glyph. -/
theorem At.run_narrow (h : At info row c) (hrow : row < info.height / 16) (hpos : 0 < info.stride)
    (hstride : info.width ≤ info.stride) (hnarrow : info.stride * (info.height % 16 + 1) < 8) (bytes : List UInt8) :
    (writeBytes bytes c).isSome = true ↔
      ∀ b ∈ (bytes.filter fun b => b ≠ 13).drop (info.height / 16 - 2 - row), b = 10 := by
  have hcols : info.width / 8 = 0 := by
    have hle : info.stride ≤ info.stride * (info.height % 16 + 1) := Nat.le_mul_of_pos_right _ (Nat.succ_pos _)
    omega
  induction bytes generalizing c row with
  | nil => exact iff_of_true rfl (by simp)
  | cons byte bytes ih =>
    rw [writeBytes, List.foldlM_cons]
    by_cases hreturn : byte = 13
    · subst hreturn
      obtain ⟨c', hwrite, hat⟩ := h.carriageReturn hrow
      rw [hwrite, List.filter_cons_of_neg (by decide)]
      exact ih hat hrow
    · rw [List.filter_cons_of_pos (by simpa using hreturn)]
      by_cases hnewline : byte = 10
      · subst hnewline
        obtain ⟨c', hwrite, hat⟩ := h.newline (by omega)
        rw [hwrite]
        refine (ih hat (by omega)).trans ?_
        cases hleft : info.height / 16 - 2 - row with
        | zero =>
          rw [show info.height / 16 - 2 - min (row + 1) (info.height / 16 - 1) = 0 by omega]
          simp
        | succ n =>
          rw [show info.height / 16 - 2 - min (row + 1) (info.height / 16 - 1) = n by omega, List.drop_succ_cons]
      · obtain ⟨row', col, hlt, hcol, hline, hdefined, hat⟩ := h.glyph hrow hnewline hreturn
        have hzero : col = 0 := hcol.resolve_left (by omega)
        rw [hzero, room_above hpos hnarrow hlt, hline hcols] at hdefined
        cases hleft : info.height / 16 - 2 - row with
        | zero =>
          -- the glyph would be drawn in the last line
          cases hwrite : writeByte byte c with
          | none => exact iff_of_false Bool.false_ne_true fun hall => hnewline (hall byte List.mem_cons_self)
          | some c' =>
            rw [hwrite] at hdefined
            have hbelow := hdefined.mp rfl
            omega
        | succ n =>
          obtain ⟨c', hwrite⟩ := Option.isSome_iff_exists.mp (hdefined.mpr (by omega))
          rw [hwrite, List.drop_succ_cons]
          refine (ih (hat c' hwrite) hlt).trans ?_
          rw [hline hcols, show info.height / 16 - 2 - min (row + 1) (info.height / 16 - 1) = n by omega]

theorem At.write_flat (h : At info 0 c) (hflat : info.height / 16 = 0) (hpos : 0 < info.stride) (byte : UInt8) :
    writeByte byte c = none := by
  have hfails {row : ℕ} {w : Console} (hat : At info row w) : scrollPast info w = none := by
    unfold scrollPast
    rw [if_pos (by rw [hat.row, hat.rows, hflat]; exact Nat.zero_le row), hat.rows, hflat, scroll_zero hpos]
    rfl
  have hnext : scrollPast info { c with col := 0, row := c.row + 1 } = none := by
    have hat : At info 1 { c with col := 0, row := c.row + 1 } := ⟨h.known, h.active, h.cols, h.rows, by rw [h.row]⟩
    exact hfails hat
  have hreturned : scrollPast info { c with col := 0 } = none := by
    have hat : At info 0 { c with col := 0 } := ⟨h.known, h.active, h.cols, h.rows, h.row⟩
    exact hfails hat
  rw [h.look]
  by_cases hnewline : byte = 10
  · rw [if_pos hnewline, hnext]
  · rw [if_neg hnewline]
    by_cases hreturn : byte = 13
    · rw [if_pos hreturn, hreturned]
    · rw [if_neg hreturn]
      by_cases hwrap : c.col ≥ c.cols
      · rw [if_pos hwrap, hnext]
        rfl
      · rw [if_neg hwrap, hfails h]
        rfl

theorem init_at (h : Accepted info) (console : Console) :
    ∃ started, init (setInfo info console) = some (true, started) ∧ At info 0 started := by
  obtain ⟨fb, hinit, -⟩ := init_started h.linear h.width h.height console
  exact ⟨_, hinit, rfl, rfl, rfl, rfl, rfl⟩

theorem drawable_iff (h : Accepted info) (hstart : At info 0 c) (bytes : List UInt8) :
    (writeBytes bytes c).isSome = true ↔ Drawable info bytes := by
  have hpos : 0 < info.stride := h.width.trans_le h.stride
  rw [Drawable]
  by_cases htext : 16 ≤ info.height
  · by_cases hroom : 8 ≤ info.stride * (info.height % 16 + 1)
    · exact iff_of_true (hstart.run_room (by omega) h.stride hroom bytes) (.inr ⟨htext, .inl hroom⟩)
    · rw [hstart.run_narrow (by omega) hpos h.stride (by omega), Nat.sub_zero]
      constructor
      · exact fun hlast => .inr ⟨htext, .inr hlast⟩
      · rintro (rfl | ⟨-, hbad | hlast⟩)
        · simp
        · exact absurd hbad hroom
        · exact hlast
  · cases bytes with
    | nil => exact iff_of_true rfl (.inl rfl)
    | cons byte bytes =>
      rw [writeBytes, List.foldlM_cons, hstart.write_flat (by omega) hpos]
      exact iff_of_false Bool.false_ne_true (by simp [htext])

/-- On a framebuffer that `init` accepts, what is written stays in it and no subtraction goes below zero
exactly if the bytes are drawable. -/
theorem console_safe_iff (h : Accepted info) (console : Console) (bytes : List UInt8) :
    ∃ started, init (setInfo info console) = some (true, started) ∧
      ((writeBytes bytes started).isSome = true ↔ Drawable info bytes) := by
  obtain ⟨started, hinit, hstart⟩ := init_at h console
  exact ⟨started, hinit, drawable_iff h hstart bytes⟩

/-- A console before any framebuffer is known. -/
def sampleConsole : Console := ⟨none, 0, 0, 0, 0, false, fun _ => 0⟩

theorem console_safe_iff_sample : ∃ started, init (setInfo (default : Display).info sampleConsole) = some (true, started) ∧
    (writeBytes [0x48, 10] started).isSome = true := by
  have haccepted : Accepted (default : Display).info := ⟨by decide, by decide, by decide, by decide⟩
  obtain ⟨started, hinit, hsafe⟩ := console_safe_iff haccepted sampleConsole [0x48, 10]
  exact ⟨started, hinit, hsafe.mpr (.inr ⟨by decide, .inl (by decide)⟩)⟩

/-- A screen of eight lines is accepted, and the first byte fails. -/
theorem flat_screen_fails : ∃ info started, Accepted info ∧ info.height = 8 ∧
    init (setInfo info sampleConsole) = some (true, started) ∧ writeByte 0x48 started = none := by
  have haccepted : Accepted ⟨0x80000000#64, 0x5000#64, 640, 8, 640, .rgb⟩ := ⟨by decide, by decide, by decide, by decide⟩
  obtain ⟨started, hinit, hstart⟩ := init_at haccepted sampleConsole
  exact ⟨_, started, haccepted, rfl, hinit, hstart.write_flat (by decide) (by decide) 0x48⟩

end Runs

end VenturaOS.Framebuffer
