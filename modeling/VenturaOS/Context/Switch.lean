import VenturaOS.Context.Model

/-!
# One context switch

`switch_context` pushes the registers a caller expects to keep and pops
another set of them, in the opposite order, from another stack. Both lists
are treated at once: what a run of pushes leaves on the stack is what a run
of pops takes from it.
-/
namespace VenturaOS.Context
open Library

/-- The registers that are saved, in the order they are pushed. -/
def calleeSaved : List Reg := [.rbx, .rbp, .r12, .r13, .r14, .r15, .rdi, .rsi]

/-- The ten words of a saved context, from the lowest address up. -/
def frameWords (regs : Reg → U64) (rflags rip : U64) : List U64 := calleeSaved.reverse.map regs ++ [rflags, rip]

/-- The words from `rsp` upwards. -/
def Cpu.Stack (c : Cpu) (ws : List U64) : Prop := c.mem.Holds 8 (c.regs .rsp).toNat (ws.map BitVec.toNat)

@[simp] theorem Cpu.set_self (c : Cpu) (r : Reg) (v : U64) : (c.set r v).regs r = v := by
  simp only [Cpu.set, Function.update_self]

@[simp] theorem Cpu.set_of_ne (c : Cpu) {r s : Reg} (v : U64) (h : s ≠ r) : (c.set r v).regs s = c.regs s := by
  simp only [Cpu.set, Function.update_of_ne h]

section Push

variable {c : Cpu} {v : U64} {ws : List U64}

theorem rsp_sub (h : 8 ≤ (c.regs .rsp).toNat) : (c.regs .rsp - 8#64).toNat = (c.regs .rsp).toNat - 8 := by
  bv_omega

theorem Cpu.pushWord_regs (c : Cpu) (v : U64) {r : Reg} (hr : r ≠ .rsp) : (c.pushWord v).regs r = c.regs r :=
  c.set_of_ne _ hr

theorem Cpu.pushWord_rsp (c : Cpu) (v : U64) : (c.pushWord v).regs .rsp = c.regs .rsp - 8#64 :=
  c.set_self .rsp _

theorem Cpu.pushWord_mem (h : 8 ≤ (c.regs .rsp).toNat) :
    (c.pushWord v).mem = c.mem.write ((c.regs .rsp).toNat - 8) 8 v.toNat := by
  change c.mem.write (c.regs .rsp - 8#64).toNat 8 v.toNat = _
  rw [rsp_sub h]

theorem Cpu.Stack.pushWord (h : c.Stack ws) (hroom : 8 ≤ (c.regs .rsp).toNat) : (c.pushWord v).Stack (v :: ws) := by
  unfold Cpu.Stack
  rw [Cpu.pushWord_rsp, Cpu.pushWord_mem hroom, rsp_sub hroom, List.map_cons]
  apply Bytes.Holds.push
  · rw [Nat.sub_add_cancel hroom]
    exact h
  · exact v.isLt

theorem push_all (rs : List Reg) {c : Cpu} {ws : List U64} (h : c.Stack ws) (hsp : .rsp ∉ rs)
    (hroom : 8 * rs.length ≤ (c.regs .rsp).toNat) :
    let d := (rs.map Instr.push).foldl Cpu.exec c
    d.Stack (rs.reverse.map c.regs ++ ws) ∧ (d.regs .rsp).toNat = (c.regs .rsp).toNat - 8 * rs.length ∧
      (∀ r, r ≠ .rsp → d.regs r = c.regs r) ∧ d.rflags = c.rflags ∧ d.rip = c.rip ∧
      ∀ y, y < (c.regs .rsp).toNat - 8 * rs.length ∨ (c.regs .rsp).toNat ≤ y → d.mem y = c.mem y := by
  induction rs generalizing c ws with
  | nil => exact ⟨h, rfl, fun _ _ => rfl, rfl, rfl, fun _ _ => rfl⟩
  | cons r rs ih =>
    rw [List.mem_cons, not_or] at hsp
    rw [List.length_cons] at hroom
    have hroom₁ : 8 ≤ (c.regs .rsp).toNat := by omega
    have hrsp : ((c.pushWord (c.regs r)).regs .rsp).toNat = (c.regs .rsp).toNat - 8 := by
      rw [Cpu.pushWord_rsp, rsp_sub hroom₁]
    rcases ih (h.pushWord (v := c.regs r) hroom₁) hsp.2 (by omega) with ⟨hstack, hsp', hregs, hflags, hrip, hmem⟩
    have hsame : rs.reverse.map (c.pushWord (c.regs r)).regs = rs.reverse.map c.regs := by
      apply List.map_congr_left
      intro s hs
      apply Cpu.pushWord_regs
      rintro rfl
      exact hsp.2 (List.mem_reverse.mp hs)
    refine ⟨?_, ?_, fun s hs => (hregs s hs).trans (Cpu.pushWord_regs c _ hs), hflags, hrip, fun y hy => ?_⟩
    · rw [hsame] at hstack
      rw [List.reverse_cons, List.map_append, List.append_assoc]
      exact hstack
    · rw [List.length_cons]
      rw [hrsp] at hsp'
      exact hsp'.trans (by omega)
    · rw [List.length_cons] at hy
      rw [hrsp] at hmem
      refine (hmem y (by omega)).trans ?_
      rw [Cpu.pushWord_mem hroom₁, Bytes.write_outside (by omega)]

end Push

section Pop

variable {c : Cpu} {v : U64} {ws : List U64}

theorem Cpu.Stack.popWord (h : c.Stack (v :: ws)) (hroom : (c.regs .rsp).toNat + 8 < 2 ^ 64) :
    c.popWord.1 = v ∧ c.popWord.2.Stack ws ∧ (c.popWord.2.regs .rsp).toNat = (c.regs .rsp).toNat + 8 := by
  rcases h with ⟨hv, hws⟩
  have hrsp : c.popWord.2.regs .rsp = c.regs .rsp + 8#64 := c.set_self .rsp _
  have hval : (c.popWord.2.regs .rsp).toNat = (c.regs .rsp).toNat + 8 := by
    rw [hrsp, BitVec.toNat_add]
    exact Nat.mod_eq_of_lt hroom
  refine ⟨?_, ?_, hval⟩
  · change BitVec.ofNat 64 (c.mem.read (c.regs .rsp).toNat 8) = v
    rw [hv, BitVec.ofNat_toNat, BitVec.setWidth_eq]
  · unfold Cpu.Stack
    rw [hval]
    exact hws

theorem Cpu.popWord_regs (c : Cpu) {r : Reg} (hr : r ≠ .rsp) : c.popWord.2.regs r = c.regs r :=
  c.set_of_ne _ hr

theorem pop_all (rs : List Reg) {c : Cpu} {f : Reg → U64} {ws : List U64} (h : c.Stack (rs.map f ++ ws))
    (hsp : .rsp ∉ rs) (hnodup : rs.Nodup) (hroom : (c.regs .rsp).toNat + 8 * rs.length < 2 ^ 64) :
    let d := (rs.map Instr.pop).foldl Cpu.exec c
    d.Stack ws ∧ (d.regs .rsp).toNat = (c.regs .rsp).toNat + 8 * rs.length ∧ (∀ r ∈ rs, d.regs r = f r) ∧
      (∀ r, r ≠ .rsp → r ∉ rs → d.regs r = c.regs r) ∧ d.mem = c.mem := by
  induction rs generalizing c with
  | nil => exact ⟨h, rfl, by simp, fun _ _ _ => rfl, rfl⟩
  | cons r rs ih =>
    rw [List.mem_cons, not_or] at hsp
    rw [List.nodup_cons] at hnodup
    rw [List.length_cons] at hroom
    have hr : r ≠ .rsp := Ne.symm hsp.1
    rcases Cpu.Stack.popWord (v := f r) h (by omega) with ⟨hv, hstack, hrsp⟩
    -- the state after the first pop
    have hset : (c.exec (.pop r)).regs .rsp = c.popWord.2.regs .rsp := Cpu.set_of_ne _ _ hsp.1
    have hone : (c.exec (.pop r)).Stack (rs.map f ++ ws) := by
      unfold Cpu.Stack
      rw [hset]
      exact hstack
    rcases ih hone hsp.2 hnodup.2 (by rw [hset]; omega) with ⟨hstack', hsp', hin, hout, hmem⟩
    refine ⟨hstack', ?_, fun s hs => ?_, fun s hne hs => ?_, hmem⟩
    · rw [hset, hrsp] at hsp'
      rw [List.length_cons]
      exact hsp'.trans (by omega)
    · rcases List.mem_cons.mp hs with rfl | hs
      · refine (hout s hr hnodup.1).trans ?_
        rw [Cpu.exec, Cpu.set_self, hv]
      · exact hin s hs
    · rw [List.mem_cons, not_or] at hs
      refine (hout s hne hs.2).trans ?_
      rw [Cpu.exec, Cpu.set_of_ne _ _ hs.1, Cpu.popWord_regs c hne]

end Pop

/-- The arguments of a switch and the room it needs: the ten words below `rsp` and the two contexts
are apart from each other. -/
structure SwitchReady (c : Cpu) (prev next : ℕ) : Prop where
  rcx : (c.regs .rcx).toNat = prev
  rdx : (c.regs .rdx).toNat = next
  room : 80 ≤ (c.regs .rsp).toNat
  prevBound : prev + 88 ≤ 2 ^ 64
  nextBound : next + 88 ≤ 2 ^ 64
  prevFrame : prev + 88 ≤ (c.regs .rsp).toNat - 80 ∨ (c.regs .rsp).toNat ≤ prev
  nextFrame : next + 88 ≤ (c.regs .rsp).toNat - 80 ∨ (c.regs .rsp).toNat ≤ next
  contexts : prev + 88 ≤ next ∨ next + 88 ≤ prev

/-- The bytes a switch writes: the new frame, the old context and the state byte of the new one. -/
def SwitchWrites (c : Cpu) (prev next y : ℕ) : Prop :=
  ((c.regs .rsp).toNat - 80 ≤ y ∧ y < (c.regs .rsp).toNat) ∨ (prev ≤ y ∧ y < prev + 88) ∨ y = next + 72

theorem Cpu.address_eq {c : Cpu} {r : Reg} {a : ℕ} (h : (c.regs r).toNat = a) {offset : ℕ} (ho : a + offset < 2 ^ 64) :
    c.address r offset = a + offset := by
  rw [Cpu.address, BitVec.toNat_add, BitVec.toNat_ofNat, h, Nat.mod_eq_of_lt (show offset < 2 ^ 64 by omega),
    Nat.mod_eq_of_lt ho]

/-- Everything up to the change of stacks. -/
def saveCode : List Instr :=
  [Instr.load .rax .rsp 0, .store .rcx 56 .rax, .pushfq] ++ calleeSaved.map Instr.push ++
    [Instr.store .rcx 0 .rsp, .storeByte .rcx 72 4, .storeByte .rdx 72 3]

/-- The change of stacks and everything behind it. -/
def restoreCode : List Instr := [Instr.load .rsp .rdx 0] ++ calleeSaved.reverse.map Instr.pop ++ [Instr.popfq, .ret]

theorem switchContext_eq : switchContext = saveCode ++ restoreCode := rfl

def saveContext (ret : U64) (c : Cpu) : Cpu := saveCode.foldl Cpu.exec (c.pushWord ret)
def restoreContext (c : Cpu) : Cpu := restoreCode.foldl Cpu.exec c

theorem callSwitchContext_eq (ret : U64) (c : Cpu) : callSwitchContext ret c = restoreContext (saveContext ret c) := by
  rw [callSwitchContext, switchContext_eq, List.foldl_append, restoreContext, saveContext]

section Spec

variable {c : Cpu} {ret : U64} {prev next : ℕ}

/-- The frame goes to the stack and the return address to the old context; then the stack pointer and the
two state bytes are written. -/
theorem saveContext_mem (ret : U64) (h : SwitchReady c prev next) :
    ∃ m : Bytes, (saveContext ret c).mem =
        ((m.write prev 8 ((c.regs .rsp).toNat - 80)).write (prev + 72) 1 4).write (next + 72) 1 3 ∧
      m.Holds 8 ((c.regs .rsp).toNat - 80) ((frameWords c.regs c.rflags ret).map BitVec.toNat) ∧
      m.read (prev + 56) 8 = ret.toNat ∧
      (∀ y, ¬((c.regs .rsp).toNat - 80 ≤ y ∧ y < (c.regs .rsp).toNat) → ¬(prev + 56 ≤ y ∧ y < prev + 64) →
        m y = c.mem y) ∧
      (saveContext ret c).regs .rdx = c.regs .rdx := by
  rcases h with ⟨hrcx, hrdx, hroom, hpb, hnb, hpf, hnf, hctx⟩
  -- the return address is on the stack, then in the old context
  have hstack₁ : (c.pushWord ret).Stack [ret] := Cpu.Stack.pushWord trivial (by omega)
  have hrsp₁ : ((c.pushWord ret).regs .rsp).toNat = (c.regs .rsp).toNat - 8 := by
    rw [Cpu.pushWord_rsp, rsp_sub (by omega)]
  generalize hc₁ : c.pushWord ret = c₁ at hstack₁ hrsp₁
  have hregs₁ : ∀ r, r ≠ .rsp → c₁.regs r = c.regs r := by
    intro r hr
    rw [← hc₁, Cpu.pushWord_regs c ret hr]
  have hflags₁ : c₁.rflags = c.rflags := by rw [← hc₁]; rfl
  have hmem₁ : ∀ y, ¬((c.regs .rsp).toNat - 80 ≤ y ∧ y < (c.regs .rsp).toNat) → c₁.mem y = c.mem y := by
    intro y hy
    rw [← hc₁, Cpu.pushWord_mem (by omega), Bytes.write_outside (by omega)]
  generalize hc₂ : [Instr.load .rax .rsp 0, .store .rcx 56 .rax].foldl Cpu.exec c₁ = c₂
  have hregs₂ : ∀ r, r ≠ .rax → c₂.regs r = c₁.regs r := by
    intro r hr
    rw [← hc₂]
    exact Cpu.set_of_ne _ _ hr
  have hmem₂ : c₂.mem = c₁.mem.write (prev + 56) 8 ret.toNat := by
    have haddr : (c₁.exec (.load .rax .rsp 0)).address .rcx 56 = prev + 56 := by
      apply Cpu.address_eq _ (by omega)
      rw [← hrcx, ← hregs₁ .rcx (by decide)]
      exact congrArg BitVec.toNat (Cpu.set_of_ne _ _ (by decide))
    have hrax : (c₁.exec (.load .rax .rsp 0)).regs .rax = ret := by
      have htop : c₁.address .rsp 0 = (c₁.regs .rsp).toNat :=
        Cpu.address_eq rfl (by have := (c₁.regs .rsp).isLt; omega)
      rw [Cpu.exec, Cpu.set_self, Cpu.loadWord, htop, hstack₁.1, BitVec.ofNat_toNat, BitVec.setWidth_eq]
    rw [← haddr, ← hrax, ← hc₂]
    rfl
  have hrsp₂ : (c₂.regs .rsp).toNat = (c.regs .rsp).toNat - 8 := by rw [hregs₂ _ (by decide), hrsp₁]
  have hstack₂ : c₂.Stack [ret] := by
    unfold Cpu.Stack at hstack₁ ⊢
    rw [hmem₂, hregs₂ _ (by decide)]
    exact hstack₁.write (by simp only [List.length_map, List.length_singleton]; omega)
  have hflags₂ : c₂.rflags = c.rflags := by rw [← hc₂]; exact hflags₁
  have hstack₃ := hstack₂.pushWord (v := c.rflags) (by omega)
  have hrsp₃ : ((c₂.pushWord c.rflags).regs .rsp).toNat = (c.regs .rsp).toNat - 16 := by
    rw [Cpu.pushWord_rsp, rsp_sub (by omega)]
    omega
  have hpush := push_all calleeSaved hstack₃ (by decide)
    (by rw [hrsp₃]; change 8 * 8 ≤ _; omega)
  rw [hrsp₃, show 8 * calleeSaved.length = 64 from rfl] at hpush
  generalize hc₃ : (calleeSaved.map Instr.push).foldl Cpu.exec (c₂.pushWord c.rflags) = c₃ at hpush
  rcases hpush with ⟨hstack, hrsp, hregs, -, -, hmem⟩
  have hkept : ∀ r, r ≠ .rsp → r ≠ .rax → c₃.regs r = c.regs r := by
    intro r hr hax
    rw [hregs r hr, Cpu.pushWord_regs _ _ hr, hregs₂ r hax, hregs₁ r hr]
  have hframe : calleeSaved.reverse.map (c₂.pushWord c.rflags).regs = calleeSaved.reverse.map c.regs := by
    apply List.map_congr_left
    intro r hr
    have hne : r ≠ .rsp ∧ r ≠ .rax := by revert r; decide
    rw [Cpu.pushWord_regs _ _ hne.1, hregs₂ r hne.2, hregs₁ r hne.1]
  rw [hframe] at hstack
  have hsave : saveContext ret c =
      [Instr.store .rcx 0 .rsp, .storeByte .rcx 72 4, .storeByte .rdx 72 3].foldl Cpu.exec c₃ := by
    have hpushfq : [Instr.pushfq].foldl Cpu.exec c₂ = c₂.pushWord c.rflags := by
      rw [← hflags₂]
      rfl
    rw [saveContext, saveCode, List.foldl_append, List.foldl_append, hc₁,
      show [Instr.load .rax .rsp 0, .store .rcx 56 .rax, .pushfq] =
        [Instr.load .rax .rsp 0, .store .rcx 56 .rax] ++ [.pushfq] from rfl, List.foldl_append, hc₂, hpushfq, hc₃]
  have hr₃ : (c₃.regs .rcx).toNat = prev := by rw [hkept _ (by decide) (by decide), hrcx]
  have hd₃ : (c₃.regs .rdx).toNat = next := by rw [hkept _ (by decide) (by decide), hrdx]
  have hsp₃ : (c₃.regs .rsp).toNat = (c.regs .rsp).toNat - 80 := by omega
  have hfinal : (saveContext ret c).mem =
      ((c₃.mem.write prev 8 ((c.regs .rsp).toNat - 80)).write (prev + 72) 1 4).write (next + 72) 1 3 := by
    have ha : c₃.address .rcx 0 = prev := Cpu.address_eq hr₃ (by omega)
    have hb : c₃.address .rcx 72 = prev + 72 := Cpu.address_eq hr₃ (by omega)
    have hc : c₃.address .rdx 72 = next + 72 := Cpu.address_eq hd₃ (by omega)
    rw [hsave]
    change ((c₃.mem.write (c₃.address .rcx 0) 8 (c₃.regs .rsp).toNat).write (c₃.address .rcx 72) 1 4).write
      (c₃.address .rdx 72) 1 3 = _
    rw [ha, hb, hc, hsp₃]
  have hregsFinal : (saveContext ret c).regs = c₃.regs := by
    rw [hsave]
    rfl
  -- the words pushed behind it do not touch the return address in the old context
  have hmem₃ : ∀ y, ¬((c.regs .rsp).toNat - 80 ≤ y ∧ y < (c.regs .rsp).toNat) → c₃.mem y = c₂.mem y := by
    intro y hy
    rw [hmem y (by omega), Cpu.pushWord_mem (by omega), Bytes.write_outside (by omega)]
  refine ⟨c₃.mem, hfinal, ?_, ?_, fun y hy hret => ?_, ?_⟩
  · unfold Cpu.Stack at hstack
    rw [hsp₃] at hstack
    exact hstack
  · have hsame : Bytes.Same c₂.mem c₃.mem (prev + 56) 8 := fun y hy hlt => hmem₃ y (by omega)
    rw [Bytes.read_congr hsame, hmem₂, Bytes.read_write ret.isLt]
  · rw [hmem₃ y hy, hmem₂, Bytes.write_outside (by omega), hmem₁ y hy]
  · rw [hregsFinal, hkept _ (by decide) (by decide)]

theorem saveContext_spec (ret : U64) (h : SwitchReady c prev next) :
    (saveContext ret c).mem.Holds 8 ((c.regs .rsp).toNat - 80) ((frameWords c.regs c.rflags ret).map BitVec.toNat) ∧
      (saveContext ret c).mem.read prev 8 = (c.regs .rsp).toNat - 80 ∧
      (∀ y, ¬ SwitchWrites c prev next y → (saveContext ret c).mem y = c.mem y) ∧
      (saveContext ret c).regs .rdx = c.regs .rdx := by
  obtain ⟨m, hfinal, hframe, -, hsame, hrdx⟩ := saveContext_mem ret h
  have hroom := h.room
  have hpf := h.prevFrame
  have hnf := h.nextFrame
  have hctx := h.contexts
  refine ⟨?_, ?_, fun y hy => ?_, hrdx⟩
  · have hlen : ((frameWords c.regs c.rflags ret).map BitVec.toNat).length = 10 := rfl
    rw [hfinal]
    apply Bytes.Holds.write
    · apply Bytes.Holds.write
      · apply Bytes.Holds.write
        · exact hframe
        · omega
      · omega
    · omega
  · have hlt := (c.regs .rsp).isLt
    rw [hfinal, Bytes.read_write_of_disjoint (by omega), Bytes.read_write_of_disjoint (by omega),
      Bytes.read_write (by omega)]
  · unfold SwitchWrites at hy
    rw [hfinal, Bytes.write_outside (by omega), Bytes.write_outside (by omega), Bytes.write_outside (by omega),
      hsame y (by omega) (by omega)]

theorem restoreContext_spec {c : Cpu} {next sp : ℕ} {regs : Reg → U64} {rflags rip : U64}
    (hrdx : (c.regs .rdx).toNat = next) (hsp : c.mem.read next 8 = sp) (hbound : sp + 80 < 2 ^ 64)
    (hframe : c.mem.Holds 8 sp ((frameWords regs rflags rip).map BitVec.toNat)) :
    (∀ r ∈ calleeSaved, (restoreContext c).regs r = regs r) ∧ ((restoreContext c).regs .rsp).toNat = sp + 80 ∧
      (restoreContext c).rflags = rflags ∧ (restoreContext c).rip = rip ∧ (restoreContext c).mem = c.mem := by
  have hload : ((c.exec (.load .rsp .rdx 0)).regs .rsp).toNat = sp := by
    have haddr : c.address .rdx 0 = next := Cpu.address_eq hrdx (by have := (c.regs .rdx).isLt; omega)
    rw [Cpu.exec, Cpu.set_self, Cpu.loadWord, haddr, hsp, BitVec.toNat_ofNat]
    exact Nat.mod_eq_of_lt (by omega)
  have hstack : (c.exec (.load .rsp .rdx 0)).Stack (calleeSaved.reverse.map regs ++ [rflags, rip]) := by
    unfold Cpu.Stack
    rw [hload]
    exact hframe
  have hpop := pop_all calleeSaved.reverse hstack (by decide) (by decide)
    (by rw [hload]; change sp + 8 * 8 < _; omega)
  rw [hload, show 8 * calleeSaved.reverse.length = 64 from rfl] at hpop
  have hrest : restoreContext c =
      (((calleeSaved.reverse.map Instr.pop).foldl Cpu.exec (c.exec (.load .rsp .rdx 0))).exec .popfq).exec .ret := by
    rw [restoreContext, restoreCode, List.foldl_append, List.foldl_append]
    rfl
  generalize (calleeSaved.reverse.map Instr.pop).foldl Cpu.exec (c.exec (.load .rsp .rdx 0)) = d at hpop hrest
  rcases hpop with ⟨hstack', hsp', hregs, -, hmem⟩
  rcases Cpu.Stack.popWord hstack' (by omega) with ⟨hflags, hstack'', hsp''⟩
  have hpopf : (d.exec .popfq).Stack [rip] := by
    unfold Cpu.Stack at hstack'' ⊢
    exact hstack''
  have hspf : ((d.exec .popfq).regs .rsp).toNat = sp + 72 := by
    change (d.popWord.2.regs .rsp).toNat = _
    omega
  rcases Cpu.Stack.popWord hpopf (by omega) with ⟨hrip, -, hspr⟩
  have hflagsEnd : ((d.exec .popfq).exec .ret).rflags = d.popWord.1 := rfl
  have hmemEnd : ((d.exec .popfq).exec .ret).mem = d.mem := rfl
  rw [hrest, hflagsEnd, hmemEnd, hmem]
  refine ⟨fun r hr => ?_, ?_, hflags, hrip, rfl⟩
  · have hne : r ≠ .rsp := by revert r; decide
    change (d.exec .popfq).popWord.2.regs r = regs r
    rw [Cpu.popWord_regs _ hne]
    change d.popWord.2.regs r = regs r
    rw [Cpu.popWord_regs _ hne, hregs r (List.mem_reverse.mpr hr)]
  · change ((d.exec .popfq).popWord.2.regs .rsp).toNat = _
    omega

/-- A whole switch: the old context is saved in full, the new one continues from its frame. -/
theorem callSwitchContext_spec (ret : U64) (h : SwitchReady c prev next) {sp : ℕ} {regs : Reg → U64} {rflags rip : U64}
    (hsp : c.mem.read next 8 = sp) (hbound : sp + 80 < 2 ^ 64)
    (hframe : c.mem.Holds 8 sp ((frameWords regs rflags rip).map BitVec.toNat))
    (hapart : ∀ y, sp ≤ y → y < sp + 80 → ¬ SwitchWrites c prev next y) :
    (∀ r ∈ calleeSaved, (callSwitchContext ret c).regs r = regs r) ∧
      ((callSwitchContext ret c).regs .rsp).toNat = sp + 80 ∧ (callSwitchContext ret c).rflags = rflags ∧
      (callSwitchContext ret c).rip = rip ∧
      (callSwitchContext ret c).mem.Holds 8 ((c.regs .rsp).toNat - 80)
        ((frameWords c.regs c.rflags ret).map BitVec.toNat) ∧
      (callSwitchContext ret c).mem.read prev 8 = (c.regs .rsp).toNat - 80 ∧
      ∀ y, ¬ SwitchWrites c prev next y → (callSwitchContext ret c).mem y = c.mem y := by
  rcases saveContext_spec ret h with ⟨hsaved, hprev, hmem, hrdx⟩
  have hnext : (saveContext ret c).mem.read next 8 = sp := by
    rw [← hsp]
    apply Bytes.read_congr
    intro y hy hlt
    apply hmem
    have hf := h.nextFrame
    have hc := h.contexts
    have hroom := h.room
    unfold SwitchWrites
    omega
  have hframe' : (saveContext ret c).mem.Holds 8 sp ((frameWords regs rflags rip).map BitVec.toNat) :=
    hframe.congr fun y hy hlt => hmem y (hapart y hy hlt)
  rcases restoreContext_spec (by rw [hrdx]; exact h.rdx) hnext hbound hframe' with ⟨hregs, hrsp, hflags, hrip, hsame⟩
  rw [callSwitchContext_eq, hsame]
  exact ⟨hregs, hrsp, hflags, hrip, hsaved, hprev, hmem⟩

end Spec

/-- The structure `ctx` stands at address `a`. -/
structure InMemory (m : Bytes) (a : ℕ) (ctx : ExecutionContext) : Prop where
  words : m.Holds 8 a (ctx.words.map BitVec.toNat)
  state : m.read (a + 72) 1 = ctx.state.code
  id : m.read (a + 80) 8 = ctx.id.toNat

theorem restoreContext_mem (c : Cpu) : (restoreContext c).mem = c.mem := rfl

/-- What a switch leaves of the two structures: where the old one continues, and the two states. -/
theorem callSwitchContext_contexts {c : Cpu} {prev next : ℕ} {p n : ExecutionContext} (ret : U64)
    (h : SwitchReady c prev next) (hp : InMemory c.mem prev p) (hn : InMemory c.mem next n) :
    InMemory (callSwitchContext ret c).mem prev
        { p with rsp := c.regs .rsp - 80#64, rip := ret, state := .suspended } ∧
      InMemory (callSwitchContext ret c).mem next { n with state := .running } := by
  obtain ⟨m, hfinal, -, hret, hsame, -⟩ := saveContext_mem ret h
  have hroom := h.room
  have hpf := h.prevFrame
  have hnf := h.nextFrame
  have hctx := h.contexts
  have hrsp : (c.regs .rsp - 80#64).toNat = (c.regs .rsp).toNat - 80 := by bv_omega
  have hlt := (c.regs .rsp).isLt
  rw [callSwitchContext_eq, restoreContext_mem, hfinal]
  constructor
  · -- only the first word, the eighth and the state byte have changed
    have hkeep (k n : ℕ) (hk : 8 ≤ k ∧ k + n ≤ 56 ∨ 64 ≤ k ∧ k + n ≤ 72 ∨ 73 ≤ k ∧ k + n ≤ 88) :
        (((m.write prev 8 ((c.regs .rsp).toNat - 80)).write (prev + 72) 1 4).write (next + 72) 1 3).read
          (prev + k) n = c.mem.read (prev + k) n := by
      rw [Bytes.read_write_of_disjoint (by omega), Bytes.read_write_of_disjoint (by omega),
        Bytes.read_write_of_disjoint (by omega)]
      exact Bytes.read_congr fun y hy hlt => hsame y (by omega) (by omega)
    obtain ⟨-, h15, h14, h13, h12, hbx, hbp, -, hflags, -⟩ := hp.words
    refine ⟨⟨?_, ?_, ?_, ?_, ?_, ?_, ?_, ?_, ?_, trivial⟩, ?_, ?_⟩
    · rw [Bytes.read_write_of_disjoint (by omega), Bytes.read_write_of_disjoint (by omega),
        Bytes.read_write (by omega)]
      exact hrsp.symm
    · exact (hkeep 8 8 (by omega)).trans h15
    · exact (hkeep 16 8 (by omega)).trans h14
    · exact (hkeep 24 8 (by omega)).trans h13
    · exact (hkeep 32 8 (by omega)).trans h12
    · exact (hkeep 40 8 (by omega)).trans hbx
    · exact (hkeep 48 8 (by omega)).trans hbp
    · rw [Bytes.read_write_of_disjoint (by omega), Bytes.read_write_of_disjoint (by omega),
        Bytes.read_write_of_disjoint (by omega)]
      exact hret
    · exact (hkeep 64 8 (by omega)).trans hflags
    · rw [Bytes.read_write_of_disjoint (by omega), Bytes.read_write (by omega)]
      rfl
    · rw [hkeep 80 8 (by omega)]
      exact hp.id
  · have hkeep : Bytes.Same c.mem ((m.write prev 8 ((c.regs .rsp).toNat - 80)).write (prev + 72) 1 4) next 88 := by
      intro y hy hlt
      rw [Bytes.write_outside (by omega), Bytes.write_outside (by omega), hsame y (by omega) (by omega)]
    refine ⟨?_, ?_, ?_⟩
    · refine Bytes.Holds.write ?_ (.inr ?_)
      · exact hn.words.congr fun y hy hlt => hkeep y hy (by change y < next + 8 * 9 at hlt; omega)
      · change next + 8 * 9 ≤ next + 72
        omega
    · rw [Bytes.read_write (by omega)]
      rfl
    · rw [Bytes.read_write_of_disjoint (by omega), Bytes.read_congr fun y hy hlt => hkeep y (by omega) (by omega)]
      exact hn.id

end VenturaOS.Context
