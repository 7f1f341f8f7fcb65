import VenturaOS.Boot.Handoff

/-!
# How the handoff ends

Whether `efi_main` reaches the kernel depends on the answers to its first
four attempts alone, and with it what the kernel gets.
-/
namespace VenturaOS.Boot
open Library Memory Logger Outputs Framebuffer

section Attempts

variable (fw : Firmware) (imageHandle : U64)

def ask (calls : List Call) : List Call := calls ++ [.getMemoryMap MapBuffer.len]

def attempt (calls : List Call) : List Call :=
  ask calls ++ [.exitBootServices imageHandle (fw.getMemoryMap (ask calls)).mapKey]

def Answered (calls : List Call) : Prop :=
  (fw.getMemoryMap (ask calls)).status = efiSuccess ∧ (fw.getMemoryMap (ask calls)).descriptorSize ≠ 0

def Accepted (calls : List Call) : Prop := fw.exitBootServices (attempt fw imageHandle calls) = efiSuccess

/-- Attempt `n`, counted from zero, is the first one that is accepted, and all up to it got a map. -/
structure ExitsAt (calls : List Call) (n : ℕ) : Prop where
  answered : ∀ i ≤ n, Answered fw ((attempt fw imageHandle)^[i] calls)
  refused : ∀ i < n, ¬Accepted fw imageHandle ((attempt fw imageHandle)^[i] calls)
  accepted : Accepted fw imageHandle ((attempt fw imageHandle)^[n] calls)

end Attempts

section Loop

variable {fw : Firmware} {imageHandle : U64} {calls : List Call} {n left : ℕ}

theorem exitsAt_zero : ExitsAt fw imageHandle calls 0 ↔ Answered fw calls ∧ Accepted fw imageHandle calls := by
  constructor
  · exact fun h => ⟨h.answered 0 (Nat.le_refl 0), h.accepted⟩
  · rintro ⟨hanswered, haccepted⟩
    refine ⟨fun i hi => ?_, fun i hi => absurd hi (Nat.not_lt_zero i), haccepted⟩
    rw [Nat.le_zero.mp hi]
    exact hanswered

theorem exitsAt_succ : ExitsAt fw imageHandle calls (n + 1) ↔
    Answered fw calls ∧ ¬Accepted fw imageHandle calls ∧ ExitsAt fw imageHandle (attempt fw imageHandle calls) n := by
  constructor
  · intro h
    exact ⟨h.answered 0 (Nat.zero_le _), h.refused 0 (Nat.succ_pos n),
      ⟨fun i hi => h.answered (i + 1) (Nat.succ_le_succ hi), fun i hi => h.refused (i + 1) (Nat.succ_lt_succ hi), h.accepted⟩⟩
  · rintro ⟨hanswered, hrefused, h⟩
    refine ⟨fun i hi => ?_, fun i hi => ?_, h.accepted⟩
    · cases i with
      | zero => exact hanswered
      | succ i => exact h.answered i (Nat.le_of_succ_le_succ hi)
    · cases i with
      | zero => exact hrefused
      | succ i => exact h.refused i (Nat.lt_of_succ_lt_succ hi)

theorem ExitsAt.unique {k : ℕ} (h : ExitsAt fw imageHandle calls n) (h' : ExitsAt fw imageHandle calls k) : n = k := by
  rcases Nat.lt_trichotomy n k with hlt | heq | hgt
  · exact absurd h.accepted (h'.refused n hlt)
  · exact heq
  · exact absurd h'.accepted (h.refused k hgt)

theorem exitLoop_succ : exitLoop fw imageHandle (left + 1) calls =
    if (fw.getMemoryMap (ask calls)).status ≠ efiSuccess ∨ (fw.getMemoryMap (ask calls)).descriptorSize = 0 then
      (none, ask calls)
    else if fw.exitBootServices (attempt fw imageHandle calls) = efiSuccess then
      (some ((fw.getMemoryMap (ask calls)).memoryMapSize, (fw.getMemoryMap (ask calls)).descriptorSize),
        attempt fw imageHandle calls)
    else exitLoop fw imageHandle left (attempt fw imageHandle calls) := rfl

theorem exitLoop_of_exitsAt (h : ExitsAt fw imageHandle calls n) (hn : n < left) :
    exitLoop fw imageHandle left calls =
      (some ((fw.getMemoryMap (ask ((attempt fw imageHandle)^[n] calls))).memoryMapSize,
        (fw.getMemoryMap (ask ((attempt fw imageHandle)^[n] calls))).descriptorSize),
      (attempt fw imageHandle)^[n + 1] calls) := by
  induction left generalizing calls n with
  | zero => exact absurd hn (Nat.not_lt_zero n)
  | succ left ih =>
    have hanswered : Answered fw calls := h.answered 0 (Nat.zero_le n)
    rw [exitLoop_succ, if_neg (not_or.mpr ⟨not_not_intro hanswered.1, hanswered.2⟩)]
    cases n with
    | zero =>
      have haccepted : fw.exitBootServices (attempt fw imageHandle calls) = efiSuccess := h.accepted
      rw [if_pos haccepted]
      rfl
    | succ n =>
      obtain ⟨-, hrefused, hrest⟩ := exitsAt_succ.mp h
      have hnot : fw.exitBootServices (attempt fw imageHandle calls) ≠ efiSuccess := hrefused
      rw [if_neg hnot, ih hrest (Nat.lt_of_succ_lt_succ hn)]
      rfl

theorem exitLoop_of_not (h : ∀ n < left, ¬ExitsAt fw imageHandle calls n) :
    (exitLoop fw imageHandle left calls).1 = none := by
  induction left generalizing calls with
  | zero => rfl
  | succ left ih =>
    rw [exitLoop_succ]
    split_ifs with hfailed haccepted
    · rfl
    · rw [not_or, not_not] at hfailed
      exact absurd (exitsAt_zero.mpr ⟨hfailed, haccepted⟩) (h 0 (Nat.succ_pos left))
    · rw [not_or, not_not] at hfailed
      apply ih
      intro n hn hrest
      exact h (n + 1) (Nat.succ_lt_succ hn) (exitsAt_succ.mpr ⟨hfailed, haccepted, hrest⟩)

end Loop

section Outcome

variable {fw : Firmware} {status : ℕ → UInt8} {imageHandle systemTable : U64} {buf : MapBuffer} {s : State} {o : Outputs}

theorem readMap_entered {mapSize descSize : U64} {m : U64 → UInt8} {raw : Slice} (h : buf.slice mapSize = some raw) :
    readMap buf mapSize descSize m = .entered ((initFromUefi raw descSize (mapSize / descSize)).value m) := by
  rw [readMap, h]

theorem readMap_panicked {mapSize descSize : U64} {m : U64 → UInt8} :
    readMap buf mapSize descSize m = .panicked ↔ 16384 < mapSize.toNat := by
  by_cases hfits : mapSize.toNat ≤ 16384
  · rw [readMap_entered (dif_pos hfits)]
    exact iff_of_false (fun h => by cases h) (Nat.not_lt.mpr hfits)
  · have hslice : buf.slice mapSize = none := dif_neg hfits
    rw [readMap, hslice]
    exact iff_of_true rfl (Nat.not_le.mp hfits)

/-- The number of descriptors is the one that the slice has room for. -/
theorem decodes_slice {mapSize : U64} {raw : Slice} (h : buf.slice mapSize = some raw) (m : U64 → UInt8) (descSize : U64) :
    Decodes raw m descSize (mapSize / descSize) := by
  have hlen : raw.len = mapSize.toNat := by
    unfold MapBuffer.slice at h
    split_ifs at h
    cases h
    rfl
  have hcount : mapSize / descSize = BitVec.ofNat 64 (raw.len / descSize.toNat) := by
    apply BitVec.eq_of_toNat_eq
    rw [BitVec.toNat_udiv, BitVec.toNat_ofNat, hlen, Nat.mod_eq_of_lt]
    exact (Nat.div_le_self _ _).trans_lt mapSize.isLt
  rw [hcount]
  exact efi_main_decodes

/-- `efi_main` always ends. It stops exactly if none of four attempts is the first to be accepted with a map for
each. Otherwise it panics if the map is longer than the buffer, and enters the kernel with the map decoded as it
should if it is not; the screen, if it can show a character, is blank. -/
theorem handoff_outcome (fw : Firmware) (status : ℕ → UInt8) (imageHandle systemTable : U64) (buf : MapBuffer)
    (hoff : s.outputs.console.active = false) :
    ∃ s₁ outcome s', prepare fw status systemTable s = some s₁ ∧
      efiMain fw status imageHandle systemTable buf s = some (outcome, s') ∧
      (outcome = .halted ↔ ∀ n < 4, ¬ExitsAt fw imageHandle s₁.outputs.calls n) ∧
      ∀ n < 4, ExitsAt fw imageHandle s₁.outputs.calls n →
        let reply := fw.getMemoryMap (ask ((attempt fw imageHandle)^[n] s₁.outputs.calls))
        let memory := fw.memory ((attempt fw imageHandle)^[n + 1] s₁.outputs.calls)
        (outcome = .panicked ↔ 16384 < reply.memoryMapSize.toNat) ∧
          (∀ raw, buf.slice reply.memoryMapSize = some raw →
            outcome = .entered ((initFromUefi raw reply.descriptorSize (reply.memoryMapSize / reply.descriptorSize)).value
              memory) ∧
            Decodes raw memory reply.descriptorSize (reply.memoryMapSize / reply.descriptorSize)) ∧
          ∀ d : Display, s₁.outputs.console.info = some d.info → Shows d Terminal.blank s'.outputs.console := by
  obtain ⟨s₁, hprepare, hs₁⟩ := prepare_off fw status systemTable hoff
  have hmain : efiMain fw status imageHandle systemTable buf s = handOver fw status imageHandle buf s₁ := by
    rw [efiMain, hprepare, Option.bind_some]
  by_cases hexits : ∃ n < 4, ExitsAt fw imageHandle s₁.outputs.calls n
  · obtain ⟨n, hn, hexit⟩ := hexits
    obtain ⟨s', hover, hshows⟩ := handOver_left status buf (exitLoop_of_exitsAt hexit hn) hs₁
    refine ⟨s₁, _, s', hprepare, hmain.trans hover, ?_, fun k _ hexit' => ?_⟩
    · exact iff_of_false readMap_ne_halted fun h => h n hn hexit
    · cases hexit.unique hexit'
      exact ⟨readMap_panicked, fun raw hraw => ⟨readMap_entered hraw, decodes_slice hraw _ _⟩, hshows⟩
  · have hnot (n : ℕ) (hn : n < 4) (hexit : ExitsAt fw imageHandle s₁.outputs.calls n) : False := hexits ⟨n, hn, hexit⟩
    obtain ⟨s', hover⟩ := handOver_halted status buf (exitLoop_of_not hnot) hs₁
    exact ⟨s₁, _, s', hprepare, hmain.trans hover, iff_of_true rfl hnot, fun n hn hexit => absurd hexit (hnot n hn)⟩

end Outcome

theorem handoff_outcome_sample : ∃ s₁ outcome s', prepare sampleFirmware (fun _ => 0x20) 0x1000 sampleState = some s₁ ∧
    efiMain sampleFirmware (fun _ => 0x20) 0x2000 0x1000 sampleBuffer sampleState = some (outcome, s') ∧
      outcome ≠ .halted ∧ outcome ≠ .panicked := by
  obtain ⟨s₁, outcome, s', hprepare, hrun, hhalted, hends⟩ :=
    handoff_outcome (s := sampleState) sampleFirmware (fun _ => 0x20) 0x2000 0x1000 sampleBuffer rfl
  obtain ⟨more, hmore, hnone⟩ := stays_prepare hprepare
  have hzero : exits s₁.outputs.calls = 0 := by
    rw [hmore, exits_others hnone]
    rfl
  have hask (calls : List Call) : exits (ask calls) = exits calls := exits_others fun c hc => List.mem_singleton.mp hc ▸ rfl
  have hattempt (calls : List Call) : exits (attempt sampleFirmware 0x2000 calls) = exits calls + 1 := by
    rw [attempt, exits_attempt, hask]
  -- the first attempt is refused, the second one is not
  have hrefused : sampleFirmware.exitBootServices (attempt sampleFirmware 0x2000 s₁.outputs.calls) ≠ efiSuccess := by
    change (if exits _ = 2 then efiSuccess else 2) ≠ efiSuccess
    rw [hattempt, hzero, if_neg (by decide)]
    decide
  have haccepted : sampleFirmware.exitBootServices
      (attempt sampleFirmware 0x2000 (attempt sampleFirmware 0x2000 s₁.outputs.calls)) = efiSuccess := by
    change (if exits _ = 2 then efiSuccess else 2) = efiSuccess
    rw [hattempt, hattempt, hzero, if_pos rfl]
  have hanswered (calls : List Call) : Answered sampleFirmware calls := ⟨rfl, by change (48 : U64) ≠ 0; decide⟩
  have hexit : ExitsAt sampleFirmware 0x2000 s₁.outputs.calls 1 :=
    exitsAt_succ.mpr ⟨hanswered _, hrefused, exitsAt_zero.mpr ⟨hanswered _, haccepted⟩⟩
  obtain ⟨hpanicked, -⟩ := hends 1 (by decide) hexit
  refine ⟨s₁, outcome, s', hprepare, hrun, fun h => hhalted.mp h 1 (by decide) hexit, fun h => ?_⟩
  exact absurd (hpanicked.mp h) (by change ¬16384 < (96 : U64).toNat; decide)

end VenturaOS.Boot
