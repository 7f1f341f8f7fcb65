import VenturaOS.Boot.Model
import VenturaOS.Logger.Outputs

/-!
# Starting without a screen

Before the handoff nothing is drawn, so that no message fails, and `efi_main`
always ends.
-/
namespace VenturaOS.Boot
open Library Memory Logger Outputs Framebuffer

variable {fw : Firmware} {status : ℕ → UInt8} {imageHandle systemTable : U64} {buf : MapBuffer} {s : State} {o o' : Outputs}
  {pieces : List String}

theorem klog_off (status : ℕ → UInt8) (pieces : List String) (hoff : o.console.active = false) :
    ∃ o', klog status pieces o = some o' ∧ o'.console.active = false := by
  have hscreen : OnScreen default none o.console := hoff
  obtain ⟨o', hlog, hwritten⟩ := writeAll_written status (pieces ++ ["\r\n"]) hscreen
  exact ⟨o', hlog, hwritten.screen⟩

theorem findGop_off (fw : Firmware) (status : ℕ → UInt8) (hoff : o.console.active = false) :
    ∃ o', findGop fw status o = some o' ∧ o'.console.active = false := by
  rw [findGop]
  simp only
  split_ifs
  · exact klog_off status _ hoff
  · exact klog_off status _ hoff

theorem findRsdp_off (fw : Firmware) (status : ℕ → UInt8) (systemTable : U64) (hoff : s.outputs.console.active = false) :
    ∃ s', findRsdp fw status systemTable s = some s' ∧ s'.outputs.console.active = false := by
  rw [findRsdp]
  split_ifs
  · obtain ⟨o, hlog, ho⟩ := klog_off status ["[BOOT WARN] ACPI RSDP not found in UEFI configuration table"] hoff
    exact ⟨{ s with outputs := o }, by rw [hlog]; rfl, ho⟩
  · exact ⟨_, rfl, hoff⟩

theorem prepare_off (fw : Firmware) (status : ℕ → UInt8) (systemTable : U64) (hoff : s.outputs.console.active = false) :
    ∃ s', prepare fw status systemTable s = some s' ∧ s'.outputs.console.active = false := by
  have hinit (out : U64) : (Logger.init out (s.outputs.call (.reset out 0))).console.active = false := hoff
  obtain ⟨o, hgop, ho⟩ := findGop_off fw status (hinit ((readConOut systemTable).value (fw.memory s.outputs.calls)))
  have hstate : ({ s with outputs := o } : State).outputs.console.active = false := ho
  obtain ⟨s₁, hrsdp, hs₁⟩ := findRsdp_off fw status systemTable hstate
  obtain ⟨o', hlog, ho'⟩ := klog_off status ["[BOOT] Exiting UEFI boot services..."] hs₁
  refine ⟨{ s₁ with outputs := o' }, ?_, ho'⟩
  rw [prepare]
  simp only [hgop, hrsdp, hlog, Option.bind_eq_bind, Option.bind_some]
  rfl

/-- The framebuffer console starts on every framebuffer, or there is none. -/
theorem init_defined (c : Console) : ∃ linear c', Framebuffer.init c = some (linear, c') ∧
    (linear = false → c' = c) ∧ ∀ d : Display, c.info = some d.info → linear = true ∧ Shows d Terminal.blank c' := by
  cases hinfo : c.info with
  | none =>
    refine ⟨false, c, ?_, fun _ => rfl, fun d h => by cases h⟩
    rw [Framebuffer.init, hinfo]
  | some info =>
    have hset : setInfo info c = c := by
      rw [setInfo, ← hinfo]
    by_cases hlinear : info.format ≠ .bltOnly ∧ info.width > 0 ∧ info.height > 0
    · obtain ⟨fb, hinit, -⟩ := init_started hlinear.1 hlinear.2.1 hlinear.2.2 c
      rw [hset] at hinit
      refine ⟨_, _, hinit, fun h => (by cases h), fun d h => ?_⟩
      cases h
      obtain ⟨c', hshown, hshows⟩ := init_shows d c
      rw [hset, hinit] at hshown
      cases hshown
      exact ⟨rfl, hshows⟩
    · refine ⟨false, c, ?_, fun _ => rfl, fun d h => ?_⟩
      · rw [Framebuffer.init, hinfo]
        exact if_neg hlinear
      · cases h
        have hwidth := d.width
        have hheight := d.height
        exact absurd ⟨d.linear, by omega, by omega⟩ hlinear

theorem startScreen_off (status : ℕ → UInt8) (hoff : o.console.active = false) :
    ∃ o', startScreen status o = some o' ∧ ∀ d : Display, o.console.info = some d.info → Shows d Terminal.blank o'.console := by
  obtain ⟨linear, c, hinit, hsame, hshows⟩ := init_defined o.console
  cases linear with
  | true =>
    refine ⟨{ o with console := c }, ?_, fun d h => (hshows d h).2⟩
    rw [startScreen, hinit]
    rfl
  | false =>
    rw [hsame rfl] at hinit
    obtain ⟨o', hlog, -⟩ := klog_off status ["[BOOT WARN] No linear framebuffer, logging to COM1 only"] hoff
    refine ⟨o', ?_, fun d h => by cases (hshows d h).1⟩
    rw [startScreen, hinit]
    exact hlog

theorem quiet_writeAll (huefi : o.uefiConsoleActive = false) (h : writeAll status pieces o = some o') :
    o'.calls = o.calls ∧ o'.uefiConsoleActive = false ∧ o'.interruptsEnabled = o.interruptsEnabled := by
  obtain ⟨-, hcalls, -, huefi', hif⟩ := writeAll_kept h
  rw [callsFor, if_neg fun hon => Bool.false_ne_true (huefi ▸ hon.1), List.append_nil] at hcalls
  exact ⟨hcalls, huefi'.trans huefi, hif⟩

theorem startScreen_quiet (huefi : o.uefiConsoleActive = false) (h : startScreen status o = some o') :
    o'.calls = o.calls ∧ o'.uefiConsoleActive = false ∧ o'.interruptsEnabled = o.interruptsEnabled := by
  rw [startScreen, Option.bind_eq_bind, Option.bind_eq_some_iff] at h
  obtain ⟨⟨linear, console⟩, -, hlog⟩ := h
  simp only at hlog
  split_ifs at hlog
  · cases hlog
    exact ⟨rfl, huefi, rfl⟩
  · exact quiet_writeAll (o := { o with console := console }) huefi hlog

/-- If no attempt is accepted, `efi_main` says so and stops. -/
theorem handOver_halted (status : ℕ → UInt8) (buf : MapBuffer)
    (hnone : (exitLoop fw imageHandle 4 s.outputs.calls).1 = none) (hoff : s.outputs.console.active = false) :
    ∃ s', handOver fw status imageHandle buf s = some (.halted, s') := by
  rw [handOver, exitBootServices]
  generalize exitLoop fw imageHandle 4 s.outputs.calls = ended at hnone
  obtain ⟨result, calls⟩ := ended
  cases hnone
  have hstate : { s.outputs with calls := calls }.console.active = false := hoff
  obtain ⟨o, hlog, -⟩ := klog_off status ["[BOOT PANIC] ExitBootServices failed!"] hstate
  refine ⟨{ s with outputs := o }, ?_⟩
  simp only
  rw [hlog, Option.map_some]

/-- If one is accepted, the kernel takes over, and reads the map with no further call. -/
theorem handOver_left (status : ℕ → UInt8) (buf : MapBuffer) {sizes : U64 × U64} {calls : List Call}
    (hsome : exitLoop fw imageHandle 4 s.outputs.calls = (some sizes, calls)) (hoff : s.outputs.console.active = false) :
    ∃ s', handOver fw status imageHandle buf s = some (readMap buf sizes.1 sizes.2 (fw.memory calls), s') ∧
      ∀ d : Display, s.outputs.console.info = some d.info → Shows d Terminal.blank s'.outputs.console := by
  have hstate : (disableUefiConsole { s.outputs with calls := calls }.cli).console.active = false := hoff
  obtain ⟨o, hscreen, hshows⟩ := startScreen_off status hstate
  obtain ⟨hcalls, -⟩ := startScreen_quiet rfl hscreen
  change o.calls = calls at hcalls
  refine ⟨{ s with outputs := o }, ?_, hshows⟩
  rw [handOver, exitBootServices, hsome]
  simp only [takeOver]
  rw [hscreen, Option.map_some, hcalls]

theorem handOver_defined (fw : Firmware) (status : ℕ → UInt8) (imageHandle : U64) (buf : MapBuffer)
    (hoff : s.outputs.console.active = false) : ∃ outcome s', handOver fw status imageHandle buf s = some (outcome, s') := by
  cases hended : exitLoop fw imageHandle 4 s.outputs.calls with
  | mk result calls =>
    cases result with
    | none =>
      obtain ⟨s', hover⟩ := handOver_halted status buf (congrArg Prod.fst hended) hoff
      exact ⟨.halted, s', hover⟩
    | some sizes =>
      obtain ⟨s', hover, -⟩ := handOver_left status buf hended hoff
      exact ⟨_, s', hover⟩

theorem efiMain_defined (fw : Firmware) (status : ℕ → UInt8) (imageHandle systemTable : U64) (buf : MapBuffer)
    (hoff : s.outputs.console.active = false) :
    ∃ outcome s', efiMain fw status imageHandle systemTable buf s = some (outcome, s') := by
  obtain ⟨s₁, hprepare, hs₁⟩ := prepare_off fw status systemTable hoff
  rw [efiMain, hprepare, Option.bind_some]
  exact handOver_defined fw status imageHandle buf hs₁

end VenturaOS.Boot
