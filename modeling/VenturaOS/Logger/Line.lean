import VenturaOS.Logger.Outputs

/-!
# The log on the serial line

`logger::init` sets the chip to three wires at 38400 baud, and from then on
what is written to its first port is handed to it as data.
-/
namespace VenturaOS.Logger
open Boot Framebuffer Outputs

/-- A run of `_klog` calls. -/
def klogAll (status : ℕ → UInt8) (msgs : List (List String)) (o : Outputs) : Option Outputs :=
  msgs.foldlM (fun o pieces => klog status pieces o) o

/-- The pieces that some messages come to. -/
def written (msgs : List (List String)) : List String := msgs.flatMap fun pieces => pieces ++ ["\r\n"]

/-- The chip as `init` leaves it; interrupts of its own are off unless the first port was the divisor's. -/
def Uart.started (u : Uart) : Uart where
  divisorLow := 3
  divisorHigh := 0
  interruptEnable := if u.lineControl &&& 0x80 ≠ 0 then u.interruptEnable else 0
  fifoControl := 0xC7
  lineControl := 0x03
  modemControl := 0x0B
  handed := u.handed

section Line

variable {status : ℕ → UInt8} {d : Display} {t : Option (Terminal d.rows d.cols)} {o : Outputs} {out : U64}

theorem foldl_handed (bytes : List UInt8) (u : Uart) (h : u.lineControl &&& 0x80 = 0) :
    (bytes.map fun byte => (com1Port, byte)).foldl Uart.write u = { u with handed := u.handed ++ bytes } := by
  induction bytes generalizing u with
  | nil =>
    change u = { u with handed := u.handed ++ [] }
    rw [List.append_nil]
  | cons byte bytes ih =>
    have hwrite : u.write (com1Port, byte) = { u with handed := u.handed ++ [byte] } := by
      rw [Uart.write, if_pos rfl, if_neg (not_not_intro h)]
    rw [List.map_cons, List.foldl_cons, hwrite, ih { u with handed := u.handed ++ [byte] } h]
    simp only [List.append_assoc, List.singleton_append]

theorem init_started (u : Uart) (out : U64) (o : Outputs) :
    (init out o).outs.foldl Uart.write u = (o.outs.foldl Uart.write u).started := by
  have houts : (init out o).outs = o.outs ++ [(com1Port + 1, 0x00), (com1Port + 3, 0x80), (com1Port + 0, 0x03),
      (com1Port + 1, 0x00), (com1Port + 3, 0x03), (com1Port + 2, 0xC7), (com1Port + 4, 0x0B)] := by
    simp [init, outb]
  rw [houts, List.foldl_append]
  generalize o.outs.foldl Uart.write u = v
  have hhigh : (0x80 : UInt8) &&& 0x80 ≠ 0 := by decide
  have hone : ¬com1Port + 1 = com1Port := by decide
  have htwo : ¬com1Port + 2 = com1Port ∧ ¬com1Port + 2 = com1Port + 1 := by decide
  have hthree : ¬com1Port + 3 = com1Port ∧ ¬com1Port + 3 = com1Port + 1 ∧ ¬com1Port + 3 = com1Port + 2 := by decide
  have hfour : ¬com1Port + 4 = com1Port ∧ ¬com1Port + 4 = com1Port + 1 ∧ ¬com1Port + 4 = com1Port + 2 ∧
      ¬com1Port + 4 = com1Port + 3 := by decide
  have hzero : com1Port + 0 = com1Port := by decide
  simp only [List.foldl_cons, List.foldl_nil, Uart.write, Uart.started, hone, htwo, hthree, hfour, hzero, hhigh, if_true,
    if_false, ne_eq, not_false_eq_true]
  by_cases h : v.lineControl &&& 0x80 = 0
  · simp [h]
  · simp [h]

theorem klogAll_eq (msgs : List (List String)) (o : Outputs) : klogAll status msgs o = writeAll status (written msgs) o := by
  induction msgs generalizing o with
  | nil => rfl
  | cons pieces msgs ih =>
    rw [klogAll, List.foldlM_cons, written, List.flatMap_cons, ← written, writeAll, List.foldlM_append]
    change (klog status pieces o >>= klogAll status msgs) = (klog status pieces o >>= writeAll status (written msgs))
    congr 1
    funext o
    exact ih o

theorem units_ascii {s : String} (h : ∀ ch ∈ s.toList, ch.toNat < 128) :
    units s = (crlf (utf8 s)).map fun byte => BitVec.ofNat 16 byte.toNat := by
  unfold units utf8
  generalize s.toList = chars at h
  induction chars with
  | nil => rfl
  | cons ch chars ih =>
    rw [List.flatMap_cons, List.flatMap_cons, crlf_append, List.map_append, ih fun c hc => h c (List.mem_cons_of_mem _ hc)]
    congr 1
    have hch : ch.toNat < 128 := h ch List.mem_cons_self
    have hbyte : String.utf8EncodeChar ch = [UInt8.ofNat ch.toNat] := if_pos (Nat.le_of_lt_succ hch)
    have hval : (UInt8.ofNat ch.toNat).toNat = ch.toNat := by
      rw [UInt8.toNat_ofNat']
      omega
    have hnewline : UInt8.ofNat ch.toNat = 10 ↔ ch = '\n' := by
      constructor
      · intro hb
        rw [hb] at hval
        exact Char.ext (UInt32.toNat_inj.mp hval.symm)
      · rintro rfl
        rfl
    rw [hbyte, crlf, List.flatMap_cons, List.flatMap_nil, List.append_nil]
    by_cases hn : ch = '\n'
    · rw [if_pos hn, if_pos (hnewline.mpr hn), hn]
      rfl
    · rw [if_neg hn, if_neg fun hb => hn (hnewline.mp hb), List.map_cons, List.map_nil, hval, unit]

theorem flatMap_units_ascii {ps : List String} (h : ∀ s ∈ ps, ∀ ch ∈ s.toList, ch.toNat < 128) :
    ps.flatMap units = (crlf (textOf ps)).map fun byte => BitVec.ofNat 16 byte.toNat := by
  induction ps with
  | nil => rfl
  | cons s ps ih =>
    rw [List.flatMap_cons, textOf_cons, crlf_append, List.map_append, units_ascii (h s List.mem_cons_self),
      ih fun s hs => h s (List.mem_cons_of_mem _ hs)]

/-- After `init` every message is handed to the chip, whatever the line status says, with so many reads of it at
most; the screen shows the same text; and so does the firmware's console, for ASCII text. -/
theorem log_reaches_every_output (status : ℕ → UInt8) (u : Uart) (out : U64) (h : OnScreen d t o.console)
    (msgs : List (List String)) :
    ∃ o', klogAll status msgs (init out o) = some o' ∧
      o'.outs.foldl Uart.write u = { (o.outs.foldl Uart.write u).started with
        handed := (o.outs.foldl Uart.write u).handed ++ crlf (textOf (written msgs)) } ∧
      o'.polls ≤ o.polls + 10001 * (crlf (textOf (written msgs))).length ∧
      OnScreen d (t.map (feed (crlf (textOf (written msgs))))) o'.console ∧
      o'.calls = o.calls ++ (if o.uefiConsoleActive ∧ out ≠ 0 then
        ((written msgs).flatMap units).map fun unit => .outputString out [unit, 0] else []) ∧
      ((∀ s ∈ written msgs, ∀ ch ∈ s.toList, ch.toNat < 128) →
        (written msgs).flatMap units = (crlf (textOf (written msgs))).map fun byte => BitVec.ofNat 16 byte.toNat) := by
  have hscreen : OnScreen d t (init out o).console := h
  obtain ⟨o', hrun, hwritten⟩ := writeAll_written status (written msgs) hscreen
  refine ⟨o', (klogAll_eq msgs _).trans hrun, ?_, hwritten.bounded, ?_, hwritten.calls, flatMap_units_ascii⟩
  · rw [hwritten.outs, List.foldl_append, init_started]
    exact foldl_handed _ _ (by decide : (0x03 : UInt8) &&& 0x80 = 0)
  · have hfeed : (feed (crlf (textOf (written msgs))) : Terminal d.rows d.cols → _) = feed (textOf (written msgs)) := by
      funext t
      exact feed_crlf _ t
    rw [hfeed]
    exact hwritten.screen

end Line

/-- One message, with the firmware's console and without a screen. -/
theorem log_reaches_every_output_sample : ∃ o' : Outputs,
    klogAll (fun _ => 0) [["a\n"]] (init 0x1000 ⟨0, true, ⟨none, 0, 0, 0, 0, false, fun _ => 0⟩, [], 0, [], false⟩) = some o' ∧
      (o'.outs.foldl Uart.write ⟨0, 0, 0, 0, 0, 0, []⟩).handed = [97, 13, 10, 13, 13, 10] := by
  have hoff : OnScreen default none (⟨none, 0, 0, 0, 0, false, fun _ => 0⟩ : Console) := rfl
  obtain ⟨o', hrun, hline, -⟩ := log_reaches_every_output (fun _ => 0) ⟨0, 0, 0, 0, 0, 0, []⟩ 0x1000 hoff [["a\n"]]
    (o := ⟨0, true, ⟨none, 0, 0, 0, 0, false, fun _ => 0⟩, [], 0, [], false⟩)
  refine ⟨o', hrun, ?_⟩
  rw [hline]
  decide

end VenturaOS.Logger
