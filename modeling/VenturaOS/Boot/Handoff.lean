import VenturaOS.Boot.Startup
import VenturaOS.Logger.Line
import VenturaOS.Memory.Decoding

/-!
# The handoff

`ExitBootServices` is tried with a fresh key each time, and once it is
accepted the firmware is never called again.
-/
namespace VenturaOS.Boot
open Library Memory Logger Outputs Framebuffer

def Call.isExit : Call → Bool
  | .exitBootServices _ _ => true
  | _ => false

def exits (calls : List Call) : ℕ := calls.countP Call.isExit

/-- What holds of every attempt to leave, by the calls before it and its arguments. -/
def EachExit (P : List Call → U64 → U64 → Prop) (calls : List Call) : Prop :=
  ∀ before after handle key, calls = before ++ .exitBootServices handle key :: after → P before handle key

/-- The attempt comes right after a memory map, with the key of that map. -/
def Fresh (fw : Firmware) (imageHandle : U64) (before : List Call) (handle key : U64) : Prop :=
  handle = imageHandle ∧ (∃ earlier, before = earlier ++ [.getMemoryMap MapBuffer.len]) ∧
    (fw.getMemoryMap before).status = efiSuccess ∧ (fw.getMemoryMap before).mapKey = key

def Refused (fw : Firmware) (before : List Call) (handle key : U64) : Prop :=
  fw.exitBootServices (before ++ [.exitBootServices handle key]) ≠ efiSuccess

section Calls

variable {fw : Firmware} {imageHandle : U64} {calls more : List Call} {c : Call} {P : List Call → U64 → U64 → Prop}

/-- A call in a list with one more call is in the list, or is that call. -/
theorem snoc_eq_split {before after : List Call} {x : Call} (h : calls ++ [c] = before ++ x :: after) :
    (∃ after', calls = before ++ x :: after' ∧ after = after' ++ [c]) ∨ (calls = before ∧ c = x ∧ after = []) := by
  rcases List.eq_nil_or_concat after with rfl | ⟨after', z, rfl⟩
  · obtain ⟨hcalls, hx⟩ := List.append_inj' h rfl
    exact .inr ⟨hcalls, List.singleton_inj.mp hx, rfl⟩
  · have hassoc : before ++ x :: (after' ++ [z]) = (before ++ x :: after') ++ [z] := by
      rw [List.append_assoc, List.cons_append]
    rw [List.concat_eq_append, hassoc] at h
    obtain ⟨hcalls, hz⟩ := List.append_inj' h rfl
    rw [List.concat_eq_append, List.singleton_inj.mp hz]
    exact .inl ⟨after', hcalls, rfl⟩

theorem eachExit_nil : EachExit P [] := fun before after handle key h => by
  cases before <;> cases h

theorem EachExit.other (h : EachExit P calls) (hc : c.isExit = false) : EachExit P (calls ++ [c]) := by
  intro before after handle key heq
  rcases snoc_eq_split heq with ⟨after', hcalls, -⟩ | ⟨-, rfl, -⟩
  · exact h before after' handle key hcalls
  · cases hc

theorem EachExit.attempt {handle key : U64} (h : EachExit P calls) (hP : P calls handle key) :
    EachExit P (calls ++ [.exitBootServices handle key]) := by
  intro before after handle' key' heq
  rcases snoc_eq_split heq with ⟨after', hcalls, -⟩ | ⟨rfl, hcall, -⟩
  · exact h before after' handle' key' hcalls
  · cases hcall
    exact hP

theorem EachExit.others (h : EachExit P calls) (hmore : ∀ c ∈ more, c.isExit = false) : EachExit P (calls ++ more) := by
  induction more generalizing calls with
  | nil => rwa [List.append_nil]
  | cons c more ih =>
    rw [List.append_cons]
    exact ih (h.other (hmore c List.mem_cons_self)) fun c hc => hmore c (List.mem_cons_of_mem _ hc)

theorem exits_attempt {handle key : U64} : exits (calls ++ [.exitBootServices handle key]) = exits calls + 1 := by
  rw [exits, List.countP_append]
  rfl

theorem exits_others (hmore : ∀ c ∈ more, c.isExit = false) : exits (calls ++ more) = exits calls := by
  have hzero : more.countP Call.isExit = 0 := by
    rw [List.countP_eq_zero]
    intro c hc
    rw [hmore c hc]
    exact Bool.false_ne_true
  rw [exits, List.countP_append, hzero]
  rfl

/-- The loop: all its attempts are made with fresh keys and, but for a last one that is accepted, refused. -/
theorem exitLoop_safe (left : ℕ) (hfresh : EachExit (Fresh fw imageHandle) calls) (hrefused : EachExit (Refused fw) calls) :
    EachExit (Fresh fw imageHandle) (exitLoop fw imageHandle left calls).2 ∧
      exits (exitLoop fw imageHandle left calls).2 ≤ exits calls + left ∧
      ((exitLoop fw imageHandle left calls).1 = none → EachExit (Refused fw) (exitLoop fw imageHandle left calls).2) ∧
      ((exitLoop fw imageHandle left calls).1 ≠ none → ∃ earlier key,
        (exitLoop fw imageHandle left calls).2 = earlier ++ [.exitBootServices imageHandle key] ∧
          EachExit (Refused fw) earlier ∧ fw.exitBootServices (exitLoop fw imageHandle left calls).2 = efiSuccess) := by
  induction left generalizing calls with
  | zero => exact ⟨hfresh, Nat.le_refl _, fun _ => hrefused, fun h => absurd rfl h⟩
  | succ left ih =>
    have hexits : exits (calls ++ [.getMemoryMap MapBuffer.len]) = exits calls :=
      exits_others fun c hc => List.mem_singleton.mp hc ▸ rfl
    have hasked := EachExit.other (c := .getMemoryMap MapBuffer.len) hrefused rfl
    rw [exitLoop]
    simp only
    split_ifs with hfailed haccepted
    · refine ⟨hfresh.other rfl, ?_, fun _ => hasked, fun h => absurd rfl h⟩
      rw [hexits]
      omega
    · rw [not_or, not_not] at hfailed
      have hkey := (hfresh.other rfl).attempt ⟨rfl, ⟨calls, rfl⟩, hfailed.1, rfl⟩
      refine ⟨hkey, ?_, fun h => (by cases h), fun _ => ⟨_, _, rfl, hasked, haccepted⟩⟩
      rw [exits_attempt, hexits]
      omega
    · rw [not_or, not_not] at hfailed
      have hkey := (hfresh.other rfl).attempt ⟨rfl, ⟨calls, rfl⟩, hfailed.1, rfl⟩
      obtain ⟨hkeys, hcount, hnone, hsome⟩ := ih hkey (hasked.attempt haccepted)
      refine ⟨hkeys, hcount.trans ?_, hnone, hsome⟩
      rw [exits_attempt, hexits]
      omega

end Calls

section Main

variable {fw : Firmware} {status : ℕ → UInt8} {imageHandle systemTable : U64} {buf : MapBuffer} {s s' : State}
  {o o' o'' : Outputs} {outcome : Outcome} {pieces : List String}

/-- Calls were added, but none to leave. -/
def Stays (o o' : Outputs) : Prop := ∃ more, o'.calls = o.calls ++ more ∧ ∀ c ∈ more, c.isExit = false

theorem Stays.trans (h : Stays o o') (h' : Stays o' o'') : Stays o o'' := by
  obtain ⟨more, hcalls, hmore⟩ := h
  obtain ⟨rest, hcalls', hrest⟩ := h'
  refine ⟨more ++ rest, ?_, ?_⟩
  · rw [hcalls', hcalls, List.append_assoc]
  · intro c hc
    rcases List.mem_append.mp hc with hc | hc
    · exact hmore c hc
    · exact hrest c hc

theorem stays_klog (h : klog status pieces o = some o') : Stays o o' := by
  refine ⟨_, (writeAll_kept h).2.1, fun c hc => ?_⟩
  rw [callsFor] at hc
  split_ifs at hc
  · obtain ⟨unit, -, rfl⟩ := List.mem_map.mp hc
    rfl
  · cases hc

theorem stays_one {c : Call} (hcalls : o'.calls = o.calls ++ [c]) (hc : c.isExit = false) : Stays o o' :=
  ⟨[c], hcalls, fun _ hx => List.mem_singleton.mp hx ▸ hc⟩

theorem stays_findGop (h : findGop fw status o = some o') : Stays o o' := by
  rw [findGop] at h
  simp only at h
  split_ifs at h
  · exact Stays.trans (stays_one rfl rfl) (stays_klog h)
  · refine Stays.trans ?_ (stays_klog h)
    exact stays_one rfl rfl

theorem stays_findRsdp (h : findRsdp fw status systemTable s = some s') : Stays s.outputs s'.outputs := by
  rw [findRsdp] at h
  split_ifs at h
  · rw [Option.map_eq_some_iff] at h
    obtain ⟨o, hlog, rfl⟩ := h
    exact stays_klog hlog
  · cases h
    exact ⟨[], (List.append_nil _).symm, fun c hc => by cases hc⟩

theorem stays_prepare (h : prepare fw status systemTable s = some s') : Stays s.outputs s'.outputs := by
  simp only [prepare, Option.bind_eq_bind, Option.bind_eq_some_iff, pure, Option.some.injEq] at h
  obtain ⟨o, hgop, s₁, hrsdp, o', hlog, rfl⟩ := h
  have hreset (out : U64) : Stays s.outputs (Logger.init out (s.outputs.call (.reset out 0))) := stays_one rfl rfl
  exact (((hreset _).trans (stays_findGop hgop)).trans (stays_findRsdp hrsdp)).trans (stays_klog hlog)

theorem readMap_ne_halted {mapSize descSize : U64} {m : U64 → UInt8} : readMap buf mapSize descSize m ≠ .halted := by
  rw [readMap]
  cases buf.slice mapSize with
  | none => exact fun h => by cases h
  | some raw => exact fun h => by cases h

/-- After the handoff nothing is called, the firmware's console is off, and so are interrupts. -/
theorem takeOver_quiet {mapSize descSize : U64} (h : takeOver fw status buf mapSize descSize s = some (outcome, s')) :
    outcome ≠ .halted ∧ s'.outputs.calls = s.outputs.calls ∧ s'.outputs.uefiConsoleActive = false ∧
      s'.outputs.interruptsEnabled = false := by
  rw [takeOver, Option.map_eq_some_iff] at h
  obtain ⟨o, hscreen, hend⟩ := h
  cases hend
  exact ⟨readMap_ne_halted, startScreen_quiet rfl hscreen⟩

/-- The kernel tries to leave four times at most, each time with the key of a map asked for right before, and stops
when all are refused. The one that is accepted is the last call ever: no later message makes another one. -/
theorem firmware_is_left_for_good (hcalls : s.outputs.calls = [])
    (hrun : efiMain fw status imageHandle systemTable buf s = some (outcome, s')) :
    EachExit (Fresh fw imageHandle) s'.outputs.calls ∧ exits s'.outputs.calls ≤ 4 ∧
      (outcome = .halted → EachExit (Refused fw) s'.outputs.calls) ∧
      (outcome ≠ .halted →
        (∃ earlier key, s'.outputs.calls = earlier ++ [.exitBootServices imageHandle key] ∧ EachExit (Refused fw) earlier ∧
          fw.exitBootServices s'.outputs.calls = efiSuccess) ∧
        s'.outputs.interruptsEnabled = false ∧
        ∀ msgs o, klogAll status msgs s'.outputs = some o → o.calls = s'.outputs.calls) := by
  rw [efiMain, Option.bind_eq_some_iff] at hrun
  obtain ⟨s₁, hprepare, hrun⟩ := hrun
  obtain ⟨more, hmore, hnone⟩ := stays_prepare hprepare
  rw [hcalls, List.nil_append] at hmore
  have hearlier (P : List Call → U64 → U64 → Prop) : EachExit P s₁.outputs.calls := by
    rw [hmore, ← List.nil_append more]
    exact eachExit_nil.others hnone
  have hzero : exits s₁.outputs.calls = 0 := by
    rw [hmore, ← List.nil_append more, exits_others hnone]
    rfl
  obtain ⟨hkeys, hcount, hall, hleft⟩ := exitLoop_safe 4 (hearlier (Fresh fw imageHandle)) (hearlier (Refused fw))
  rw [hzero] at hcount
  rw [handOver, exitBootServices] at hrun
  generalize exitLoop fw imageHandle 4 s₁.outputs.calls = ended at hkeys hcount hall hleft hrun
  obtain ⟨result, calls⟩ := ended
  cases result with
  | none =>
    obtain ⟨o, hlog, hend⟩ := Option.map_eq_some_iff.mp hrun
    cases hend
    obtain ⟨rest, hrest, hother⟩ := stays_klog hlog
    change o.calls = calls ++ rest at hrest
    change EachExit _ o.calls ∧ exits o.calls ≤ 4 ∧ (_ → EachExit _ o.calls) ∧ _
    rw [hrest, exits_others hother]
    exact ⟨hkeys.others hother, hcount, fun _ => (hall rfl).others hother, fun h => absurd rfl h⟩
  | some sizes =>
    obtain ⟨hnot, hsame, huefi, hif⟩ := takeOver_quiet hrun
    change s'.outputs.calls = calls at hsame
    rw [hsame]
    refine ⟨hkeys, hcount, fun h => absurd h hnot, fun _ => ⟨hleft (fun h => by cases h), hif, fun msgs o hlog => ?_⟩⟩
    rw [klogAll_eq] at hlog
    exact (quiet_writeAll huefi hlog).1.trans hsame

end Main

/-- It has a map of two descriptors, and refuses the first attempt to leave. -/
def sampleFirmware : Firmware where
  locateProtocol _ := (14, 0)
  getMemoryMap calls := ⟨efiSuccess, 96, BitVec.ofNat 64 calls.length, 48⟩
  exitBootServices calls := if exits calls = 2 then efiSuccess else 2
  memory _ _ := 0

/-- The statics as they start out, with no call made. -/
def sampleState : State := ⟨⟨0, true, ⟨none, 0, 0, 0, 0, false, fun _ => 0⟩, [], 0, [], true⟩, 0⟩

def sampleBuffer : MapBuffer := ⟨0x100000, by decide⟩

theorem firmware_is_left_for_good_sample : ∃ outcome s',
    efiMain sampleFirmware (fun _ => 0x20) 0x2000 0x1000 sampleBuffer sampleState = some (outcome, s') ∧
      EachExit (Fresh sampleFirmware 0x2000) s'.outputs.calls ∧ exits s'.outputs.calls ≤ 4 := by
  obtain ⟨outcome, s', hrun⟩ := efiMain_defined (s := sampleState) sampleFirmware (fun _ => 0x20) 0x2000 0x1000 sampleBuffer rfl
  obtain ⟨hfresh, hcount, -⟩ := firmware_is_left_for_good rfl hrun
  exact ⟨outcome, s', hrun, hfresh, hcount⟩

end VenturaOS.Boot
