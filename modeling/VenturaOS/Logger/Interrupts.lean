import VenturaOS.Library.Runs
import VenturaOS.Logger.Outputs

/-!
# Logging among interrupts

An interrupt may come between any two accesses of `write_str_raw`, unless the
interrupt flag is off, and its handler may log. The screen is drawn with the
flag off, so texts stay whole there; on the serial line they do not.
-/
namespace VenturaOS.Logger
open Boot Framebuffer Library Outputs

/-- One access to an output, or a change of the interrupt flag. -/
inductive Action
  | serial (byte : UInt8)
  | cli
  | draw (byte : UInt8)
  | sti
  | outputString (unit : BitVec 16)
deriving DecidableEq, Repr

def Action.perform (status : ℕ → UInt8) : Action → Outputs → Option Outputs
  | .serial byte, o => some (writeSerialByte status byte o)
  | .cli, o => some o.cli
  | .draw byte, o => o.draw [byte]
  | .sti, o => some o.sti
  | .outputString unit, o => some (o.outputString unit)

/-- `write_str_raw` access by access, with the flags it finds. -/
def actions (o : Outputs) (s : String) : List Action :=
  (crlf (utf8 s)).map .serial ++
    (if o.console.active then
      (if o.interruptsEnabled then [.cli] else []) ++ (utf8 s).map .draw ++ (if o.interruptsEnabled then [.sti] else [])
    else []) ++
    if o.uefiConsoleActive ∧ o.conOut ≠ 0 then (units s).map .outputString else []

/-- The next access, or an interrupt whose handler logs some pieces; the processor turns the flag off for it. -/
inductive Step (status : ℕ → UInt8) :
    List Action × Outputs → Option (List String) → List Action × Outputs → Prop
  | access {a : Action} {todo : List Action} {o o' : Outputs} (h : a.perform status o = some o') :
    Step status (a :: todo, o) none (todo, o')
  | interrupt {todo : List Action} {o o' : Outputs} {pieces : List String} (henabled : o.interruptsEnabled = true)
      (h : writeAll status pieces o.cli = some o') :
    Step status (todo, o) (some pieces) (todo, o'.sti)

/-- Elements in their order, with whole blocks in theirs between them. -/
inductive Woven {α : Type*} : List α → List (List α) → List α → Prop
  | nil : Woven [] [] []
  | own {x : α} {xs ys : List α} {bs : List (List α)} (h : Woven xs bs ys) : Woven (x :: xs) bs (x :: ys)
  | block {b xs ys : List α} {bs : List (List α)} (h : Woven xs bs ys) : Woven xs (b :: bs) (b ++ ys)

/-- What the handlers of a run log. -/
def handled (ls : List (Option (List String))) : List (List String) := ls.filterMap id

/-- The bytes that are still to be sent. -/
def unsent (todo : List Action) : List UInt8 :=
  todo.filterMap fun
    | .serial byte => some byte
    | _ => none

/-- What is left to do: with the flag on, whole pieces; with the flag off, first the rest of the one being drawn. -/
inductive Left : Bool → List UInt8 → List String → List Action → Prop
  | done : Left true [] [] []
  | serial {byte : UInt8} {ps : List String} {todo : List Action} (h : Left true [] ps todo) :
    Left true [] ps (.serial byte :: todo)
  | cli {s : String} {ps : List String} {todo : List Action} (h : Left false (utf8 s) ps todo) :
    Left true [] (s :: ps) (.cli :: todo)
  | draw {byte : UInt8} {bytes : List UInt8} {ps : List String} {todo : List Action} (h : Left false bytes ps todo) :
    Left false (byte :: bytes) ps (.draw byte :: todo)
  | sti {ps : List String} {todo : List Action} (h : Left true [] ps todo) : Left false [] ps (.sti :: todo)

section Actions

variable {status : ℕ → UInt8} {o o' : Outputs} {s : String}

theorem perform_serial (bytes : List UInt8) (o : Outputs) :
    (bytes.map Action.serial).foldlM (fun o a => a.perform status o) o =
      some (bytes.foldl (fun o byte => writeSerialByte status byte o) o) := by
  induction bytes generalizing o with
  | nil => rfl
  | cons byte bytes ih => exact ih _

theorem perform_draw (bytes : List UInt8) (o : Outputs) :
    (bytes.map Action.draw).foldlM (fun o a => a.perform status o) o = o.draw bytes := by
  induction bytes generalizing o with
  | nil => rfl
  | cons byte bytes ih =>
    rw [List.map_cons, List.foldlM_cons]
    change (o.draw [byte] >>= _) = _
    have hone : writeBytes [byte] o.console = writeByte byte o.console := by
      change (writeByte byte o.console >>= pure) = _
      exact bind_pure _
    rw [Outputs.draw, Outputs.draw, hone, writeBytes, List.foldlM_cons]
    cases writeByte byte o.console with
    | none => rfl
    | some c => exact ih { o with console := c }

theorem perform_outputString (us : List (BitVec 16)) (o : Outputs) :
    (us.map Action.outputString).foldlM (fun o a => a.perform status o) o =
      some (us.foldl (fun o unit => o.outputString unit) o) := by
  induction us generalizing o with
  | nil => rfl
  | cons unit us ih => exact ih _

theorem foldl_crlf (bytes : List UInt8) (o : Outputs) :
    (crlf bytes).foldl (fun o byte => writeSerialByte status byte o) o =
      bytes.foldl (fun o byte => writeSerialByte status byte (if byte = 10 then writeSerialByte status 13 o else o)) o := by
  rw [crlf, List.foldl_flatMap]
  congr 1
  funext o byte
  by_cases h : byte = 10
  · rw [if_pos h, if_pos h, h]
    rfl
  · rw [if_neg h, if_neg h]
    rfl

theorem foldl_outputString (s : String) (o : Outputs) : (units s).foldl (fun o unit => o.outputString unit) o =
    s.toList.foldl (fun o ch => outputString (unit ch) (if ch = '\n' then outputString 13 o else o)) o := by
  rw [units, List.foldl_flatMap]
  congr 1
  funext o ch
  by_cases h : ch = '\n'
  · rw [if_pos h, if_pos h]
    rfl
  · rw [if_neg h, if_neg h]
    rfl

theorem perform_guarded (bytes : List UInt8) (o : Outputs) :
    ((if o.interruptsEnabled then [Action.cli] else []) ++ bytes.map Action.draw ++
      (if o.interruptsEnabled then [Action.sti] else [])).foldlM (fun o a => Action.perform status a o) o =
      withoutInterrupts (draw bytes) o := by
  rw [List.foldlM_append, List.foldlM_append, withoutInterrupts]
  cases o.interruptsEnabled with
  | true =>
    change ((bytes.map Action.draw).foldlM (fun o a => a.perform status o) o.cli >>= fun o => pure o.sti) = _
    rw [perform_draw]
    exact bind_pure_comp _ _
  | false =>
    change ((bytes.map Action.draw).foldlM (fun o a => a.perform status o) o >>= fun o => pure o) = _
    rw [perform_draw, bind_pure]
    exact Option.map_id'.symm

theorem perform_firmware (s : String) {o o' : Outputs} (hout : o'.conOut = o.conOut)
    (huefi : o'.uefiConsoleActive = o.uefiConsoleActive) :
    (if o.uefiConsoleActive ∧ o.conOut ≠ 0 then (units s).map Action.outputString else []).foldlM
        (fun o a => Action.perform status a o) o' =
      some (if o'.uefiConsoleActive ∧ o'.conOut ≠ 0 then
        s.toList.foldl (fun o ch => outputString (unit ch) (if ch = '\n' then outputString 13 o else o)) o' else o') := by
  rw [hout, huefi]
  split_ifs
  · rw [perform_outputString, foldl_outputString]
  · rfl

/-- Without interrupts the accesses are `write_str_raw`. -/
theorem perform_actions (s : String) (o : Outputs) :
    (actions o s).foldlM (fun o a => a.perform status o) o = writeStrRaw status s o := by
  obtain ⟨polls, hserial, -⟩ := foldl_serial status (utf8 s) o
  rw [actions, List.foldlM_append, List.foldlM_append, perform_serial, foldl_crlf, writeStrRaw]
  simp only [Option.bind_eq_bind, Option.bind_some]
  generalize (utf8 s).foldl (fun o byte =>
    writeSerialByte status byte (if byte = 10 then writeSerialByte status 13 o else o)) o = o₁ at hserial ⊢
  have hout : o₁.conOut = o.conOut := by rw [hserial]
  have huefi : o₁.uefiConsoleActive = o.uefiConsoleActive := by rw [hserial]
  have hactive : o₁.console.active = o.console.active := by rw [hserial]
  have hen : o₁.interruptsEnabled = o.interruptsEnabled := by rw [hserial]
  rw [← hactive, ← hen]
  by_cases hon : o₁.console.active = true
  · rw [if_pos hon, if_pos hon, perform_guarded, withoutInterrupts_draw, Outputs.draw]
    cases writeBytes (utf8 s) o₁.console with
    | none => rfl
    | some c => exact perform_firmware s hout huefi
  · rw [if_neg hon, if_neg hon]
    exact perform_firmware s hout huefi

end Actions

section Run

variable {status : ℕ → UInt8} {d : Display} {t : Terminal d.rows d.cols} {o o' : Outputs} {x y : List Action × Outputs}
  {ls : List (Option (List String))} {en : Bool} {pend : List UInt8} {ps : List String}

theorem handled_none (ls : List (Option (List String))) : handled (none :: ls) = handled ls := rfl

theorem left_serial (bytes : List UInt8) {todo : List Action} (h : Left true [] ps todo) :
    Left true [] ps (bytes.map .serial ++ todo) := by
  induction bytes with
  | nil => exact h
  | cons byte bytes ih => exact .serial ih

theorem left_draw (bytes : List UInt8) {todo : List Action} (h : Left false [] ps todo) :
    Left false bytes ps (bytes.map .draw ++ todo) := by
  induction bytes with
  | nil => exact h
  | cons byte bytes ih => exact .draw ih

theorem left_actions (hactive : o.console.active = true) (huefi : o.uefiConsoleActive = false)
    (hen : o.interruptsEnabled = true) (ps : List String) : Left true [] ps (ps.flatMap (actions o)) := by
  induction ps with
  | nil => exact .done
  | cons s ps ih =>
    have hactions : actions o s ++ ps.flatMap (actions o) =
        (crlf (utf8 s)).map .serial ++ (.cli :: ((utf8 s).map .draw ++ (.sti :: ps.flatMap (actions o)))) := by
      simp [actions, hactive, huefi, hen]
    rw [List.flatMap_cons, hactions]
    exact left_serial _ (.cli (left_draw _ (.sti ih)))

/-- With the flag on no piece is drawn in part. -/
theorem Left.whole {todo : List Action} (h : Left true pend ps todo) : pend = [] := by
  cases h with
  | done => rfl
  | serial _ => rfl
  | cli _ => rfl

theorem unsent_append (as bs : List Action) : unsent (as ++ bs) = unsent as ++ unsent bs := List.filterMap_append

theorem unsent_serial (bytes : List UInt8) : unsent (bytes.map .serial) = bytes := by
  induction bytes with
  | nil => rfl
  | cons byte bytes ih => exact congrArg (byte :: ·) ih

theorem unsent_draw (bytes : List UInt8) : unsent (bytes.map .draw) = [] := by
  induction bytes with
  | nil => rfl
  | cons byte bytes ih => exact ih

theorem unsent_actions (hactive : o.console.active = true) (huefi : o.uefiConsoleActive = false) (ps : List String) :
    unsent (ps.flatMap (actions o)) = crlf (textOf ps) := by
  induction ps with
  | nil => rfl
  | cons s ps ih =>
    have hguard (b : Bool) (a : Action) (ha : unsent [a] = []) : unsent (if b = true then [a] else []) = [] := by
      cases b with
      | true => exact ha
      | false => rfl
    rw [List.flatMap_cons, textOf_cons, crlf_append, unsent_append, ih, actions, hactive, huefi]
    congr 1
    simp only [if_true, Bool.false_eq_true, false_and, if_false, unsent_append, unsent_serial, unsent_draw,
      hguard _ .cli rfl, hguard _ .sti rfl, List.append_nil]

theorem draw_shows (status : ℕ → UInt8) (byte : UInt8) (hshows : Shows d t o.console) :
    ∃ c, (Action.draw byte).perform status o = some { o with console := c } ∧ Shows d (feed [byte] t) c := by
  obtain ⟨c, hdraw, hc⟩ := writeBytes_shows [byte] hshows
  refine ⟨c, ?_, hc⟩
  change (writeBytes [byte] o.console).map _ = _
  rw [hdraw]
  rfl

/-- A handler feeds the terminal whole texts, and calls nothing. -/
theorem handler_shows {pieces : List String} (huefi : o.uefiConsoleActive = false) (hshows : Shows d t o.console)
    (h : writeAll status pieces o.cli = some o') :
    o'.calls = o.calls ∧ o'.uefiConsoleActive = false ∧ Shows d (feed (textOf pieces) t) o'.console := by
  have hcli : OnScreen d (some t) o.cli.console := hshows
  obtain ⟨o₁, hwrite, hwritten⟩ := writeAll_written status pieces hcli
  rw [h] at hwrite
  cases hwrite
  refine ⟨?_, hwritten.uefiConsoleActive.trans huefi, hwritten.screen⟩
  rw [hwritten.calls, callsFor, if_neg fun h => Bool.false_ne_true (huefi ▸ h.1)]
  exact List.append_nil _

/-- What is on the screen: whole pieces, those of the handlers in between, and of the last one perhaps a part. -/
theorem run_screen (hrun : Run (Step status) x ls y) (hleft : Left en pend ps x.1) (hen : x.2.interruptsEnabled = en)
    (huefi : x.2.uefiConsoleActive = false) (hshows : Shows d t x.2.console) :
    (y.2.uefiConsoleActive = false ∧ y.2.calls = x.2.calls) ∧
      ∃ (en' : Bool) (pend' : List UInt8) (first rest order : List String) (shown : List UInt8),
        ps = first ++ rest ∧ Left en' pend' rest y.1 ∧ y.2.interruptsEnabled = en' ∧ Woven first (handled ls) order ∧
          shown ++ pend' = pend ++ textOf order ∧ Shows d (feed shown t) y.2.console := by
  induction hrun generalizing en pend ps t with
  | nil x => exact ⟨⟨huefi, rfl⟩, en, pend, [], ps, [], [], rfl, hleft, hen, .nil, (List.append_nil _).symm, hshows⟩
  | @cons x z y l ls hstep _ ih =>
    cases hstep with
    | @interrupt todo o o' pieces henabled h =>
      rw [henabled] at hen
      have hpend : pend = [] := Left.whole (hen ▸ hleft)
      obtain ⟨hcalls, hlater, hscreen⟩ := handler_shows huefi hshows h
      obtain ⟨⟨huefi', hcalls'⟩, en', pend', first, rest, order, shown, hps, hleft', hen', hwoven, htext, hshows'⟩ :=
        ih hleft hen hlater hscreen
      refine ⟨⟨huefi', hcalls'.trans hcalls⟩, en', pend', first, rest, pieces ++ order, textOf pieces ++ shown, hps, hleft',
        hen', .block hwoven, ?_, ?_⟩
      · rw [hpend, List.nil_append] at htext ⊢
        rw [List.append_assoc, htext, textOf_append]
      · rw [feed_append]
        exact hshows'
    | @access a todo o o' h =>
      rw [handled_none]
      cases hleft with
      | serial hleft =>
        cases h
        exact ih hleft hen huefi hshows
      | @cli s ps todo hleft =>
        cases h
        obtain ⟨hfirmware, en', pend', first, rest, order, shown, rfl, hleft', hen', hwoven, htext, hshows'⟩ :=
          ih hleft rfl huefi hshows
        refine ⟨hfirmware, en', pend', s :: first, rest, s :: order, shown, rfl, hleft', hen', .own hwoven, ?_, hshows'⟩
        rw [htext, textOf_cons]
        rfl
      | @draw byte bytes ps todo hleft =>
        obtain ⟨c, hnext, hc⟩ := draw_shows status byte hshows
        rw [hnext] at h
        cases h
        obtain ⟨hfirmware, en', pend', first, rest, order, shown, hps, hleft', hen', hwoven, htext, hshows'⟩ :=
          ih hleft hen huefi hc
        refine ⟨hfirmware, en', pend', first, rest, order, byte :: shown, hps, hleft', hen', hwoven, ?_, hshows'⟩
        rw [List.cons_append, htext]
        rfl
      | sti hleft =>
        cases h
        exact ih hleft rfl huefi hshows

/-- What is sent on the line: single bytes, with the texts of the handlers in between. -/
theorem run_line (hrun : Run (Step status) x ls y) :
    ∃ sent line : List UInt8, unsent x.1 = sent ++ unsent y.1 ∧
      Woven sent ((handled ls).map fun pieces => crlf (textOf pieces)) line ∧
      y.2.outs = x.2.outs ++ line.map fun byte => (com1Port, byte) := by
  induction hrun with
  | nil x => exact ⟨[], [], rfl, .nil, (List.append_nil _).symm⟩
  | @cons x z y l ls hstep _ ih =>
    obtain ⟨sent, line, hsent, hwoven, houts⟩ := ih
    cases hstep with
    | @interrupt todo o o' pieces henabled h =>
      refine ⟨sent, crlf (textOf pieces) ++ line, hsent, .block hwoven, ?_⟩
      rw [houts, List.map_append, ← List.append_assoc]
      exact congrArg (· ++ _) (writeAll_kept h).1
    | @access a todo o o' h =>
      rw [handled_none]
      cases a with
      | serial byte =>
        cases h
        refine ⟨byte :: sent, byte :: line, congrArg (byte :: ·) hsent, .own hwoven, ?_⟩
        rw [houts, List.map_cons]
        exact List.append_assoc o.outs [(com1Port, byte)] _
      | cli =>
        cases h
        exact ⟨sent, line, hsent, hwoven, houts⟩
      | sti =>
        cases h
        exact ⟨sent, line, hsent, hwoven, houts⟩
      | outputString unit =>
        cases h
        exact ⟨sent, line, hsent, hwoven, houts⟩
      | draw byte =>
        change Option.map _ _ = _ at h
        rw [Option.map_eq_some_iff] at h
        obtain ⟨c, -, rfl⟩ := h
        exact ⟨sent, line, hsent, hwoven, houts⟩

theorem left_performs {a : Action} {todo : List Action} (hleft : Left en pend ps (a :: todo)) (hshows : Shows d t o.console) :
    ∃ o', a.perform status o = some o' := by
  cases hleft with
  | serial _ => exact ⟨_, rfl⟩
  | cli _ => exact ⟨_, rfl⟩
  | sti _ => exact ⟨_, rfl⟩
  | @draw byte _ _ _ _ =>
    obtain ⟨c, hdraw, -⟩ := draw_shows status byte hshows
    exact ⟨_, hdraw⟩

/-- Texts are written with the screen on and the firmware gone, and interrupts that log come between any two
accesses. The screen shows the beginning of whole texts, to the end of one whenever an interrupt may come. The
line carries every byte, in its order, and the firmware is not called. Nothing that may come next can fail. -/
theorem texts_stay_whole {todo : List Action} (huefi : o.uefiConsoleActive = false) (hen : o.interruptsEnabled = true)
    (hshows : Shows d t o.console) (hrun : Run (Step status) (ps.flatMap (actions o), o) ls (todo, o')) :
    (∃ (first rest order : List String) (shown part : List UInt8), ps = first ++ rest ∧ Woven first (handled ls) order ∧
        shown ++ part = textOf order ∧ Shows d (feed shown t) o'.console ∧ (o'.interruptsEnabled = true → part = []) ∧
        (todo = [] → rest = [] ∧ part = [])) ∧
      (∃ sent line : List UInt8, crlf (textOf ps) = sent ++ unsent todo ∧
        Woven sent ((handled ls).map fun pieces => crlf (textOf pieces)) line ∧
        o'.outs = o.outs ++ line.map fun byte => (com1Port, byte)) ∧
      o'.calls = o.calls ∧ (∀ a rest, todo = a :: rest → ∃ o'', a.perform status o' = some o'') ∧
      ∀ pieces, ∃ o'', writeAll status pieces o'.cli = some o'' := by
  obtain ⟨⟨-, hcalls⟩, en, pend, first, rest, order, shown, hps, hleft, hen', hwoven, htext, hscreen⟩ :=
    run_screen hrun (left_actions hshows.active huefi hen ps) hen huefi hshows
  obtain ⟨sent, line, hsent, hline, houts⟩ := run_line hrun
  rw [unsent_actions hshows.active huefi] at hsent
  refine ⟨⟨first, rest, order, shown, pend, hps, hwoven, htext, hscreen, ?_, ?_⟩, ⟨sent, line, hsent, hline, houts⟩, hcalls,
    ?_, ?_⟩
  · intro hon
    have htrue : en = true := hen'.symm.trans hon
    rw [htrue] at hleft
    exact hleft.whole
  · rintro rfl
    cases hleft
    exact ⟨rfl, rfl⟩
  · rintro a rest rfl
    exact left_performs hleft hscreen
  · intro pieces
    have hcli : OnScreen d (some (feed shown t)) o'.cli.console := hscreen
    obtain ⟨o'', hwrite, -⟩ := writeAll_written status pieces hcli
    exact ⟨o'', hwrite⟩

end Run

/-- The outputs once the firmware is gone. -/
def sampleOutputs (console : Console) : Outputs := ⟨0, false, console, [], 0, [], true⟩

/-- The first byte of a text is sent, then an interrupt comes whose handler logs. -/
theorem texts_stay_whole_sample : ∃ (o o' : Outputs) (todo : List Action),
    Run (Step fun _ => 0x20) (["ab"].flatMap (actions o), o) [none, some ["x"]] (todo, o') ∧
      ∃ sent line : List UInt8, crlf (textOf ["ab"]) = sent ++ unsent todo ∧ Woven sent [crlf (textOf ["x"])] line ∧
        o'.outs = o.outs ++ line.map fun byte => (com1Port, byte) := by
  obtain ⟨console, -, hshows⟩ := init_shows default ⟨none, 0, 0, 0, 0, false, fun _ => 0⟩
  have hscreen : OnScreen default (some Terminal.blank) (writeSerialByte (fun _ => 0x20) 97 (sampleOutputs console)).cli.console :=
    hshows
  obtain ⟨o', hwrite, -⟩ := writeAll_written (fun _ => 0x20) ["x"] hscreen
  have hrun : Run (Step fun _ => 0x20) (["ab"].flatMap (actions (sampleOutputs console)), sampleOutputs console)
      [none, some ["x"]] (_, o'.sti) :=
    .cons (.access rfl) (.single (.interrupt rfl hwrite))
  obtain ⟨-, hline, -⟩ := texts_stay_whole rfl rfl hshows hrun
  exact ⟨_, _, _, hrun, hline⟩

end VenturaOS.Logger
