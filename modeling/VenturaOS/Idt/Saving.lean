import VenturaOS.Idt.Stubs

/-!
# What the stubs save

Pushing all registers, calling a dispatcher and popping them again gives the
registers back whatever the dispatcher does to them, as long as it leaves its
caller's stack alone.
-/
namespace VenturaOS.Idt
open Library

variable {D : Type} {compiled : Compiled D} {c : Cpu} {k : Interrupts D} {w : Cpu × Interrupts D}

theorem execAll_append (code code' : List Instr) (w : Cpu × Interrupts D) :
    execAll compiled (code ++ code') w = (execAll compiled code w).bind (execAll compiled code') :=
  List.foldlM_append

theorem execAll_cons (i : Instr) (code : List Instr) (w : Cpu × Interrupts D) :
    execAll compiled (i :: code) w = (exec compiled w i).bind (execAll compiled code) :=
  List.foldlM_cons

@[simp] theorem execAll_nil (w : Cpu × Interrupts D) : execAll compiled [] w = some w := rfl

/-- Of the binary interface only this is needed: the function returns with the stack pointer it was called
with, and of memory it writes what is its own and `depth` bytes below the stack pointer. -/
structure Returning (own : Set ℕ) (depth : ℕ) (compiled : Compiled D) : Prop where
  rsp : ∀ d w, w.1.rsp.toNat % 16 = 0 → (compiled d w).rsp = w.1.rsp
  mem : ∀ d w, w.1.rsp.toNat % 16 = 0 → ∀ y ∉ own, ¬(w.1.rsp.toNat - depth ≤ y ∧ y < w.1.rsp.toNat) →
    (compiled d w).mem y = w.1.mem y

/-- The processor with all registers pushed. -/
def Cpu.saving (c : Cpu) : Cpu := c.withStack (c.stack.pushAll (saved.map c.regs))

theorem Cpu.saving_stack (c : Cpu) : c.saving.stack = c.stack.pushAll (saved.map c.regs) := rfl

theorem Cpu.withStack_stack (c : Cpu) (s : Stack) : (c.withStack s).stack = s := rfl

theorem Cpu.withStack_regs (c : Cpu) (s : Stack) : (c.withStack s).regs = c.regs := rfl

theorem Cpu.withStack_cr2 (c : Cpu) (s : Stack) : (c.withStack s).cr2 = c.cr2 := rfl

theorem Cpu.stack_mem (c : Cpu) : c.stack.mem = c.mem := rfl

theorem Cpu.set_regs (c : Cpu) (r : Reg) (v : U64) : (c.set r v).regs r = v := Function.update_self _ _ _

theorem Cpu.set_cr2 (c : Cpu) (r : Reg) (v : U64) : (c.set r v).cr2 = c.cr2 := rfl

theorem Cpu.set_stack (c : Cpu) (r : Reg) (v : U64) : (c.set r v).stack = c.stack := rfl

theorem execAll_pushes (rs : List Reg) (c : Cpu) (k : Interrupts D) :
    execAll compiled (rs.map Instr.push) (c, k) = some (c.withStack (c.stack.pushAll (rs.map c.regs)), k) := by
  induction rs generalizing c with
  | nil => rfl
  | cons r rs ih =>
    change execAll compiled (rs.map Instr.push) (c.withStack (c.stack.push (c.regs r)), k) = _
    rw [ih]
    rfl

theorem execAll_pops (rs : List Reg) {c : Cpu} {f : Reg → U64} {ws : List U64}
    (hstack : c.stack.Holds (rs.map f ++ ws)) (hnodup : rs.Nodup) (hroom : c.rsp.toNat + 8 * rs.length < 2 ^ 64) :
    execAll compiled (rs.map Instr.pop) (c, k) =
      some ((c.withStack (c.stack.drop rs.length)).withRegs fun r => if r ∈ rs then f r else c.regs r, k) := by
  induction rs generalizing c with
  | nil =>
    rw [List.length_nil, Stack.drop_zero, List.map_nil, execAll_nil]
    simp only [List.not_mem_nil, if_false]
    rfl
  | cons r rs ih =>
    rw [List.nodup_cons] at hnodup
    rw [List.length_cons] at hroom
    have htop : c.stack.top = f r := Stack.Holds.top hstack
    have hrsp : (c.stack.drop 1).rsp.toNat = c.rsp.toNat + 8 := Stack.drop_rsp (by change c.rsp.toNat + 8 * 1 < _; omega)
    have hrest : (c.stack.drop 1).Holds (rs.map f ++ ws) :=
      Stack.Holds.drop [f r] hstack (by change c.rsp.toNat + 8 * 1 < _; omega)
    change execAll compiled (rs.map Instr.pop) ((c.withStack (c.stack.drop 1)).set r c.stack.top, k) = _
    rw [ih (c := (c.withStack (c.stack.drop 1)).set r c.stack.top) hrest hnodup.2
      (by change (c.stack.drop 1).rsp.toNat + _ < _; omega), htop]
    have hregs : (fun s => if s ∈ rs then f s else Function.update c.regs r (f r) s) =
        fun s => if s ∈ r :: rs then f s else c.regs s := by
      funext s
      by_cases hs : s = r
      · subst hs
        simp [Function.update_self]
      · simp [hs]
    have hdrop : (c.stack.drop 1).drop rs.length = c.stack.drop (rs.length + 1) := by
      rw [Stack.drop_drop, Nat.add_comm]
    change some ((c.withStack ((c.stack.drop 1).drop rs.length)).withRegs
      fun s => if s ∈ rs then f s else Function.update c.regs r (f r) s, k) = _
    rw [hregs, hdrop, List.length_cons]

theorem mem_saved (r : Reg) : r ∈ saved.reverse := by
  cases r <;> decide

theorem execAll_restore {c : Cpu} {f : Reg → U64} {ws : List U64} (hstack : c.stack.Holds (saved.reverse.map f ++ ws))
    (hroom : c.rsp.toNat + 120 < 2 ^ 64) :
    execAll compiled pops (c, k) = some ((c.withRegs f).setRsp (c.rsp + 120#64), k) := by
  have hpops : pops = saved.reverse.map Instr.pop := rfl
  rw [hpops, execAll_pops saved.reverse hstack (by decide) hroom]
  have hregs : (fun r => if r ∈ saved.reverse then f r else c.regs r) = f := by
    funext r
    rw [if_pos (mem_saved r)]
  rw [hregs]
  rfl

end VenturaOS.Idt
