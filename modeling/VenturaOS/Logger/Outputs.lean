import VenturaOS.Logger.Model

/-!
# What a log leaves behind

The serial port gets every text with a carriage return before each
newline, the screen shows the same, and so does the console of the firmware.
-/
namespace VenturaOS.Logger
open Boot Framebuffer Outputs

def feed {rows cols : ℕ} [NeZero cols] (bytes : List UInt8) (t : Terminal rows cols) : Terminal rows cols :=
  bytes.foldl (fun t byte => t.put byte) t

/-- The console is off, or shows the terminal. -/
def OnScreen (d : Display) : Option (Terminal d.rows d.cols) → Console → Prop
  | none, c => c.active = false
  | some t, c => Shows d t c

/-- What is called of the firmware for some pieces. -/
def Outputs.callsFor (o : Outputs) (pieces : List String) : List Call :=
  if o.uefiConsoleActive ∧ o.conOut ≠ 0 then (pieces.flatMap units).map fun unit => .outputString o.conOut [unit, 0] else []

/-- What some pieces leave. -/
structure Written (d : Display) (t : Option (Terminal d.rows d.cols)) (pieces : List String) (o o' : Outputs) : Prop where
  conOut : o'.conOut = o.conOut
  uefiConsoleActive : o'.uefiConsoleActive = o.uefiConsoleActive
  interruptsEnabled : o'.interruptsEnabled = o.interruptsEnabled
  outs : o'.outs = o.outs ++ (crlf (textOf pieces)).map fun byte => (com1Port, byte)
  polls : o.polls + (crlf (textOf pieces)).length ≤ o'.polls
  bounded : o'.polls ≤ o.polls + 10001 * (crlf (textOf pieces)).length
  calls : o'.calls = o.calls ++ o.callsFor pieces
  screen : OnScreen d (t.map (feed (textOf pieces))) o'.console

section Calls

variable {o o' : Outputs}

theorem callsFor_nil (o : Outputs) : o.callsFor [] = [] := by
  rw [callsFor]
  split_ifs <;> rfl

theorem callsFor_append (o : Outputs) (ps qs : List String) : o.callsFor (ps ++ qs) = o.callsFor ps ++ o.callsFor qs := by
  rw [callsFor, callsFor, callsFor]
  split_ifs
  · rw [List.flatMap_append, List.map_append]
  · rfl

theorem callsFor_congr (hout : o'.conOut = o.conOut) (huefi : o'.uefiConsoleActive = o.uefiConsoleActive)
    (ps : List String) : o'.callsFor ps = o.callsFor ps := by
  rw [callsFor, callsFor, hout, huefi]

end Calls

section Texts

variable {rows cols : ℕ} [NeZero cols]

theorem crlf_append (bs cs : List UInt8) : crlf (bs ++ cs) = crlf bs ++ crlf cs := List.flatMap_append

theorem textOf_append (ps qs : List String) : textOf (ps ++ qs) = textOf ps ++ textOf qs := List.flatMap_append

theorem textOf_cons (s : String) (ps : List String) : textOf (s :: ps) = utf8 s ++ textOf ps := List.flatMap_cons

theorem feed_append (bs cs : List UInt8) (t : Terminal rows cols) : feed (bs ++ cs) t = feed cs (feed bs t) :=
  List.foldl_append

/-- The carriage return before a newline makes no difference on the screen. -/
theorem put_return_newline (t : Terminal rows cols) : (t.put 13).put 10 = t.put 10 := rfl

theorem feed_crlf (bytes : List UInt8) (t : Terminal rows cols) : feed (crlf bytes) t = feed bytes t := by
  induction bytes generalizing t with
  | nil => rfl
  | cons byte bytes ih =>
    rw [crlf, List.flatMap_cons, ← crlf, feed_append, ih]
    by_cases h : byte = 10
    · rw [if_pos h, h]
      change feed bytes ((t.put 13).put 10) = _
      rw [put_return_newline]
      rfl
    · rw [if_neg h]
      rfl

end Texts

section Writing

variable {status : ℕ → UInt8} {d : Display} {t : Option (Terminal d.rows d.cols)} {o o' o'' : Outputs} {s : String}
  {pieces rest : List String}

theorem await_bounds (status : ℕ → UInt8) (timeout n : ℕ) : n < await status timeout n ∧ await status timeout n ≤ n + timeout + 1 := by
  induction timeout generalizing n with
  | zero =>
    rw [await]
    omega
  | succ timeout ih =>
    have hnext := ih (n + 1)
    rw [await]
    split_ifs <;> omega

theorem send_byte (status : ℕ → UInt8) (byte : UInt8) (o : Outputs) : ∃ polls,
    writeSerialByte status byte (if byte = 10 then writeSerialByte status 13 o else o) =
        { o with outs := o.outs ++ (crlf [byte]).map fun byte => (com1Port, byte), polls := polls } ∧
      o.polls + (crlf [byte]).length ≤ polls ∧ polls ≤ o.polls + 10001 * (crlf [byte]).length := by
  have hone := await_bounds status 10000 o.polls
  by_cases h : byte = 10
  · have htwo := await_bounds status 10000 (await status 10000 o.polls)
    have hcrlf : crlf [byte] = [13, byte] := by
      rw [h]
      rfl
    rw [if_pos h, hcrlf]
    refine ⟨await status 10000 (await status 10000 o.polls), ?_, ?_, ?_⟩
    · simp [writeSerialByte, outb]
    · simp only [List.length_cons, List.length_nil]
      omega
    · simp only [List.length_cons, List.length_nil]
      omega
  · have hcrlf : crlf [byte] = [byte] := by
      rw [crlf, List.flatMap_singleton, if_neg h]
    rw [if_neg h, hcrlf]
    refine ⟨await status 10000 o.polls, rfl, ?_, ?_⟩
    · simp only [List.length_cons, List.length_nil]
      omega
    · simp only [List.length_cons, List.length_nil]
      omega

theorem foldl_serial (status : ℕ → UInt8) (bytes : List UInt8) (o : Outputs) : ∃ polls,
    bytes.foldl (fun o byte => writeSerialByte status byte (if byte = 10 then writeSerialByte status 13 o else o)) o =
        { o with outs := o.outs ++ (crlf bytes).map fun byte => (com1Port, byte), polls := polls } ∧
      o.polls + (crlf bytes).length ≤ polls ∧ polls ≤ o.polls + 10001 * (crlf bytes).length := by
  induction bytes generalizing o with
  | nil =>
    refine ⟨o.polls, ?_, Nat.le_refl _, Nat.le_refl _⟩
    change o = { o with outs := o.outs ++ [], polls := o.polls }
    rw [List.append_nil]
  | cons byte bytes ih =>
    obtain ⟨sent, hbyte, hmore, hless⟩ := send_byte status byte o
    obtain ⟨polls, hrest, hlow, hhigh⟩ :=
      ih { o with outs := o.outs ++ (crlf [byte]).map fun byte => (com1Port, byte), polls := sent }
    have hcrlf : crlf (byte :: bytes) = crlf [byte] ++ crlf bytes := crlf_append [byte] bytes
    rw [List.foldl_cons, hbyte, hcrlf, List.length_append]
    refine ⟨polls, ?_, ?_, ?_⟩
    · rw [hrest, List.map_append, List.append_assoc]
    · change sent + _ ≤ polls at hlow
      omega
    · change polls ≤ sent + _ at hhigh
      omega

theorem foldl_units (chars : List Char) (o : Outputs) :
    chars.foldl (fun o ch => outputString (unit ch) (if ch = '\n' then outputString 13 o else o)) o =
      { o with
        calls := o.calls ++ (chars.flatMap fun ch => if ch = '\n' then [13, unit ch] else [unit ch]).map
          (fun unit => .outputString o.conOut [unit, 0]) } := by
  induction chars generalizing o with
  | nil =>
    change o = { o with calls := o.calls ++ [] }
    rw [List.append_nil]
  | cons ch chars ih =>
    rw [List.foldl_cons, ih, List.flatMap_cons]
    by_cases h : ch = '\n'
    · simp [if_pos h, outputString, call]
    · simp [if_neg h, outputString, call]

theorem withoutInterrupts_draw (bytes : List UInt8) (o : Outputs) : withoutInterrupts (draw bytes) o = draw bytes o := by
  obtain ⟨conOut, uefi, console, outs, polls, calls, enabled⟩ := o
  cases enabled with
  | true =>
    change Option.map _ (Option.map _ (writeBytes bytes console)) = Option.map _ (writeBytes bytes console)
    rw [Option.map_map]
    rfl
  | false =>
    change Option.map _ (Option.map _ (writeBytes bytes console)) = Option.map _ (writeBytes bytes console)
    rw [Option.map_map]
    rfl

/-- One text: the port writes, the drawing and the calls. -/
theorem writeStrRaw_eq (status : ℕ → UInt8) (s : String) (o : Outputs) : ∃ polls,
    writeStrRaw status s o =
        (if o.console.active then writeBytes (utf8 s) o.console else some o.console).map (fun console =>
          { o with
            console := console
            outs := o.outs ++ (crlf (utf8 s)).map fun byte => (com1Port, byte)
            polls := polls
            calls := o.calls ++ o.callsFor [s] }) ∧
      o.polls + (crlf (utf8 s)).length ≤ polls ∧ polls ≤ o.polls + 10001 * (crlf (utf8 s)).length := by
  obtain ⟨polls, hserial, hbounds⟩ := foldl_serial status (utf8 s) o
  refine ⟨polls, ?_, hbounds⟩
  have hunits : [s].flatMap units = units s := List.append_nil _
  rw [writeStrRaw, hserial]
  simp only [withoutInterrupts_draw, draw, foldl_units, pure, Option.bind_eq_bind, callsFor, hunits, units]
  cases o.console.active with
  | true =>
    simp only [if_true]
    cases writeBytes (utf8 s) o.console with
    | none => rfl
    | some c =>
      simp only [Option.map_some, Option.bind_some]
      split_ifs
      · rfl
      · rw [List.append_nil]
  | false =>
    simp only [Bool.false_eq_true, if_false, Option.map_some, Option.bind_some]
    split_ifs
    · rfl
    · rw [List.append_nil]

theorem writeStrRaw_written (status : ℕ → UInt8) (s : String) (h : OnScreen d t o.console) :
    ∃ o', writeStrRaw status s o = some o' ∧ Written d t [s] o o' := by
  obtain ⟨polls, heq, hlow, hhigh⟩ := writeStrRaw_eq status s o
  have htext : textOf [s] = utf8 s := List.append_nil _
  have hdraw : ∃ c, (if o.console.active then writeBytes (utf8 s) o.console else some o.console) = some c ∧
      OnScreen d (t.map (feed (utf8 s))) c := by
    cases t with
    | none =>
      have hoff : o.console.active = false := h
      rw [hoff]
      exact ⟨o.console, rfl, h⟩
    | some t =>
      have hshows : Shows d t o.console := h
      rw [hshows.active, if_pos rfl]
      exact writeBytes_shows (utf8 s) hshows
  obtain ⟨c, hdraw, hscreen⟩ := hdraw
  rw [hdraw, Option.map_some] at heq
  refine ⟨_, heq, rfl, rfl, rfl, ?_, ?_, ?_, rfl, ?_⟩
  · rw [htext]
  · rwa [htext]
  · rwa [htext]
  · rwa [htext]

/-- Whatever the screen does, the texts go to the port and to the firmware, and the flags stay. -/
theorem writeAll_kept (h : writeAll status pieces o = some o') :
    o'.outs = o.outs ++ (crlf (textOf pieces)).map (fun byte => (com1Port, byte)) ∧
      o'.calls = o.calls ++ o.callsFor pieces ∧ o'.conOut = o.conOut ∧ o'.uefiConsoleActive = o.uefiConsoleActive ∧
      o'.interruptsEnabled = o.interruptsEnabled := by
  induction pieces generalizing o with
  | nil =>
    cases h
    rw [callsFor_nil, List.append_nil]
    exact ⟨(List.append_nil _).symm, rfl, rfl, rfl, rfl⟩
  | cons s pieces ih =>
    rw [writeAll, List.foldlM_cons, Option.bind_eq_bind, Option.bind_eq_some_iff] at h
    obtain ⟨o₁, hone, hrest⟩ := h
    obtain ⟨polls, heq, -⟩ := writeStrRaw_eq status s o
    rw [heq, Option.map_eq_some_iff] at hone
    obtain ⟨c, -, rfl⟩ := hone
    obtain ⟨houts, hcalls, hout, huefi, hif⟩ := ih hrest
    have hcons : o.callsFor (s :: pieces) = o.callsFor [s] ++ o.callsFor pieces := callsFor_append o [s] pieces
    refine ⟨?_, ?_, hout, huefi, hif⟩
    · rw [textOf_cons, crlf_append, List.map_append, ← List.append_assoc]
      exact houts
    · rw [hcons, ← List.append_assoc]
      exact hcalls

theorem Written.refl (h : OnScreen d t o.console) : Written d t [] o o where
  conOut := rfl
  uefiConsoleActive := rfl
  interruptsEnabled := rfl
  outs := (List.append_nil _).symm
  polls := Nat.le_refl _
  bounded := Nat.le_refl _
  calls := by rw [callsFor_nil, List.append_nil]
  screen := by
    cases t with
    | none => exact h
    | some t => exact h

theorem Written.trans (h : Written d t pieces o o') (h' : Written d (t.map (feed (textOf pieces))) rest o' o'') :
    Written d t (pieces ++ rest) o o'' where
  conOut := h'.conOut.trans h.conOut
  uefiConsoleActive := h'.uefiConsoleActive.trans h.uefiConsoleActive
  interruptsEnabled := h'.interruptsEnabled.trans h.interruptsEnabled
  outs := by rw [h'.outs, h.outs, textOf_append, crlf_append, List.map_append, List.append_assoc]
  polls := by
    have hone := h.polls
    have htwo := h'.polls
    rw [textOf_append, crlf_append, List.length_append]
    omega
  bounded := by
    have hone := h.bounded
    have htwo := h'.bounded
    rw [textOf_append, crlf_append, List.length_append]
    omega
  calls := by
    rw [h'.calls, h.calls, callsFor_congr h.conOut h.uefiConsoleActive, callsFor_append, List.append_assoc]
  screen := by
    have hfeed : (feed (textOf (pieces ++ rest)) : Terminal d.rows d.cols → _) = feed (textOf rest) ∘ feed (textOf pieces) := by
      funext t
      rw [textOf_append, feed_append]
      rfl
    have hscreen := h'.screen
    rw [Option.map_map, ← hfeed] at hscreen
    exact hscreen

/-- No text ever fails, and all of them reach the outputs. -/
theorem writeAll_written (status : ℕ → UInt8) (pieces : List String) (h : OnScreen d t o.console) :
    ∃ o', writeAll status pieces o = some o' ∧ Written d t pieces o o' := by
  induction pieces generalizing t o with
  | nil => exact ⟨o, rfl, .refl h⟩
  | cons s pieces ih =>
    obtain ⟨o₁, hone, hwritten⟩ := writeStrRaw_written status s h
    have hscreen := hwritten.screen
    obtain ⟨o₂, hrest, hlast⟩ := ih hscreen
    refine ⟨o₂, ?_, hwritten.trans hlast⟩
    rw [writeAll, List.foldlM_cons, hone]
    exact hrest

end Writing
end VenturaOS.Logger
