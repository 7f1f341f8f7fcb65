import VenturaOS.Context.Coroutines
import VenturaOS.Idt.Gates
import VenturaOS.Idt.Saving

/-!
# From delivery to return

The processor pushes the interrupted state, the stub pushes the registers and
calls its dispatcher, and all of it is taken back by the pops and `iretq`. The
dispatcher is called on an aligned stack, with the frame or the number its
vector asks for, and the interrupted program finds everything as it was.
-/
namespace VenturaOS.Idt
open Library Gdt InterruptDescriptorTable Context

def alignedRsp (c : Core) : U64 := c.rsp &&& ~~~0xF#64

/-- The bytes an interrupt may change: what is the dispatchers' own, and the stack below the interrupted
program's, to the depth of a stub's frame and of the dispatcher's. -/
def scratch (own : Set ℕ) (depth : ℕ) (c : Core) : Set ℕ :=
  {y | y ∈ own ∨ (alignedRsp c).toNat - (176 + depth) ≤ y ∧ y < c.rsp.toNat}

/-- There is room on the stack, and none of the dispatchers' own bytes is in it. -/
structure Roomy (own : Set ℕ) (depth : ℕ) (c : Core) : Prop where
  room : 176 + depth ≤ (alignedRsp c).toNat
  apart : ∀ y ∈ own, ¬((alignedRsp c).toNat - 176 ≤ y ∧ y < c.rsp.toNat)

def Registers.of (regs : Reg → U64) : Registers :=
  ⟨regs .r15, regs .r14, regs .r13, regs .r12, regs .r11, regs .r10, regs .r9, regs .r8, regs .rbp, regs .rdi, regs .rsi,
    regs .rdx, regs .rcx, regs .rbx, regs .rax⟩

/-- The frame of an exception in the program with core `c`. -/
def frameOf (c : Core) (vector : ℕ) (error : Option U64) : ExceptionFrame where
  regs := .of c.regs
  vector := BitVec.ofNat 64 vector
  errorCode := error.getD 0
  rip := c.rip
  cs := c.cs.setWidth 64
  rflags := c.rflags
  rsp := c.rsp
  ss := c.ss.setWidth 64

variable {D : Type}

/-- What becomes of the kernel's state when an interrupt strikes the program with core `c`: the dispatcher of
the vector, applied to the frame or the number of the IRQ. -/
def served (c : Core) (cr2 : U64) (vector : ℕ) (error : Option U64) (k : Interrupts D) : Option (Interrupts D) :=
  if vector < 32 then returned (exceptionDispatcher (frameOf c vector error) cr2 k)
  else if vector < 48 then some (irqDispatcher (BitVec.ofNat 64 (vector - 32)) k)
  else if vector < 255 then some (genericInterruptDispatcher k)
  else some k

/-- The program goes on where it was interrupted, and only scratched bytes differ. -/
structure Resumes (own : Set ℕ) (depth : ℕ) (c c' : Cpu) : Prop where
  core : c'.toCore = c.toCore
  mem : ∀ y ∉ scratch own depth c.toCore, c'.mem y = c.mem y

/-- What an interrupt ends in, given what becomes of the kernel's state: the program is resumed, or the
dispatcher does not return. -/
inductive EndsIn (own : Set ℕ) (depth : ℕ) (c : Cpu) : Option (Cpu × Interrupts D) → Option (Interrupts D) → Prop
  | halts : EndsIn own depth c none none
  | resumes {c' : Cpu} {k : Interrupts D} : Resumes own depth c c' → EndsIn own depth c (some (c', k)) (some k)

section Wrapped

variable {compiled : Compiled D} {own : Set ℕ} {depth : ℕ} {c c₁ : Cpu} {k : Interrupts D} {setup : List Instr}
  {d : Dispatcher}

/-- The registers pushed, an argument set up, a dispatcher called, and the registers popped. -/
theorem execAll_wrapped (habi : Returning own depth compiled) (hroom : 120 ≤ c.rsp.toNat)
    (haligned : c.rsp.toNat % 16 = 8)
    (hown : ∀ y ∈ own, ¬(c.rsp.toNat - 120 ≤ y ∧ y < c.rsp.toNat))
    (hsetup : execAll compiled setup (c.saving, k) = some (c₁, k))
    (hstack : c₁.stack = c.saving.stack) :
    execAll compiled (pushes ++ setup ++ [.call d] ++ pops) (c, k) =
      (dispatched d c₁ k).map fun k' => (((compiled d (c₁, k)).withRegs c.regs).setRsp c.rsp, k') := by
  have hpushes : pushes = saved.map Instr.push := rfl
  have hlen : 8 * (saved.map c.regs).length = 120 := rfl
  have hsmall := c.rsp.isLt
  have hrsp : c₁.rsp.toNat = c.rsp.toNat - 120 := by
    change c₁.stack.rsp.toNat = _
    rw [hstack, Cpu.saving_stack, Stack.pushAll_rsp (by rw [hlen]; exact hroom), hlen]
    rfl
  have hal : c₁.rsp.toNat % 16 = 0 := by omega
  have hfull : c₁.stack.Holds (saved.reverse.map c.regs) := by
    rw [hstack, Cpu.saving_stack]
    have hall := Stack.Holds.pushAll (Stack.holds_nil (s := c.stack)) (saved.map c.regs) (by rw [hlen]; exact hroom)
    rw [List.append_nil, ← List.map_reverse] at hall
    exact hall
  rw [execAll_append, execAll_append, execAll_append, hpushes, execAll_pushes, Option.bind_some, ← Cpu.saving,
    hsetup, Option.bind_some]
  change Option.bind (Option.bind (callDispatcher compiled d (c₁, k)) some) _ = _
  rw [Option.bind_fun_some, callDispatcher]
  cases dispatched d c₁ k with
  | none => rfl
  | some k' =>
    rw [Option.map_some, Option.map_some, Option.bind_some]
    -- the frame is still there when the dispatcher returns
    have hback : (compiled d (c₁, k)).stack.Holds (saved.reverse.map c.regs ++ []) := by
      rw [List.append_nil]
      apply hfull.congr
      · exact habi.rsp d (c₁, k) hal
      · intro y hy hlt
        rw [List.length_map] at hlt
        change c₁.rsp.toNat ≤ y at hy
        change y < c₁.rsp.toNat + 120 at hlt
        refine habi.mem d (c₁, k) hal y (fun hmem => hown y hmem ⟨by omega, by omega⟩) ?_
        change ¬(c₁.rsp.toNat - depth ≤ y ∧ y < c₁.rsp.toNat)
        omega
    have hsame : (compiled d (c₁, k)).rsp = c₁.rsp := habi.rsp d (c₁, k) hal
    rw [execAll_restore hback (by rw [hsame]; omega), hsame]
    have hsum : c₁.rsp + 120#64 = c.rsp := by
      apply BitVec.eq_of_toNat_eq
      rw [BitVec.toNat_add, hrsp]
      change (c.rsp.toNat - 120 + 120) % 2 ^ 64 = _
      omega
    rw [hsum]

theorem wrapped_mem (habi : Returning own depth compiled) (hroom : 120 ≤ c.rsp.toNat) (haligned : c.rsp.toNat % 16 = 8)
    (hstack : c₁.stack = c.saving.stack) {y : ℕ} (hy : y ∉ own)
    (hout : ¬(c.rsp.toNat - (120 + depth) ≤ y ∧ y < c.rsp.toNat)) : (compiled d (c₁, k)).mem y = c.mem y := by
  have hlen : 8 * (saved.map c.regs).length = 120 := rfl
  have hrsp : c₁.rsp.toNat = c.rsp.toNat - 120 := by
    change c₁.stack.rsp.toNat = _
    rw [hstack, Cpu.saving_stack, Stack.pushAll_rsp (by rw [hlen]; exact hroom), hlen]
    rfl
  rw [habi.mem d (c₁, k) (by change c₁.rsp.toNat % 16 = 0; omega) y hy (by change ¬(c₁.rsp.toNat - depth ≤ y ∧ y < c₁.rsp.toNat); omega)]
  change c₁.stack.mem y = c.stack.mem y
  rw [hstack, Cpu.saving_stack]
  apply Stack.pushAll_outside (by rw [hlen]; exact hroom)
  rw [hlen]
  change y < c.rsp.toNat - 120 ∨ c.rsp.toNat ≤ y
  omega

end Wrapped

section Return

variable {compiled : Compiled D} {own : Set ℕ} {depth : ℕ} {c c₀ c₁ o : Cpu} {k : Interrupts D} {d : Dispatcher}
  {extra : List U64}

/-- The words of an interrupted program that the processor pushes, from the top of the stack up. -/
def returnFrame (o : Core) : List U64 := [o.rip, o.cs.setWidth 64, o.rflags, o.rsp, o.ss.setWidth 64]

theorem setWidth_setWidth (x : BitVec 16) : (x.setWidth 64).setWidth 16 = x := by
  apply BitVec.eq_of_toNat_eq
  have hlt := x.isLt
  rw [BitVec.toNat_setWidth, BitVec.toNat_setWidth]
  omega

/-- `iretq` brings back the program whose words are on the stack. -/
theorem iretq_core (hstack : c.stack.Holds (returnFrame o.toCore)) (hroom : c.rsp.toNat + 40 < 2 ^ 64)
    (hregs : c.regs = o.regs) : (iretq c).toCore = o.toCore := by
  have hdrop (vs : List U64) {ws : List U64} (h : returnFrame o.toCore = vs ++ ws) (hlen : vs.length ≤ 5) :
      (c.stack.drop vs.length).Holds ws := by
    rw [h] at hstack
    refine Stack.Holds.drop vs hstack ?_
    change c.rsp.toNat + 8 * vs.length < 2 ^ 64
    omega
  have h0 : c.stack.top = o.rip := hstack.top
  have h1 := (hdrop [o.rip] rfl (by simp)).top
  have h2 := (hdrop [o.rip, o.cs.setWidth 64] rfl (by simp)).top
  have h3 := (hdrop [o.rip, o.cs.setWidth 64, o.rflags] rfl (by simp)).top
  have h4 := (hdrop [o.rip, o.cs.setWidth 64, o.rflags, o.rsp] rfl (by simp)).top
  have hcore : (iretq c).toCore = ⟨c.regs, (c.stack.drop 3).top, c.stack.top, (c.stack.drop 2).top,
      (c.stack.drop 1).top.setWidth 16, (c.stack.drop 4).top.setWidth 16⟩ := rfl
  simp only [List.length_cons, List.length_nil, Nat.zero_add] at h1 h2 h3 h4
  rw [hcore, h0, h1, h2, h3, h4, hregs, setWidth_setWidth, setWidth_setWidth]

theorem alignedRsp_toNat (c : Core) : (alignedRsp c).toNat = c.rsp.toNat / 16 * 16 := aligned_toNat c.rsp

/-- The stack as a stub finds it: the words of the interrupted program, under them an error code and a vector
for an exception. -/
structure Delivered (extra : List U64) (c c₀ : Cpu) : Prop where
  regs : c₀.regs = c.regs
  stack : c₀.stack = (⟨alignedRsp c.toCore, c.mem⟩ : Stack).pushAll ((extra ++ returnFrame c.toCore).reverse)
  extra : extra.length = 0 ∨ extra.length = 2

namespace Delivered

variable (h : Delivered extra c c₀) (hroomy : Roomy own depth c.toCore)
include h hroomy

theorem rsp : c₀.rsp.toNat = (alignedRsp c.toCore).toNat - (40 + 8 * extra.length) := by
  have hlen : 8 * ((extra ++ returnFrame c.toCore).reverse).length = 40 + 8 * extra.length := by
    rw [List.length_reverse, List.length_append, returnFrame]
    simp only [List.length_cons, List.length_nil]
    omega
  have hroom := hroomy.room
  have hextra := h.extra
  change c₀.stack.rsp.toNat = _
  rw [h.stack, Stack.pushAll_rsp (by rw [hlen]; change _ ≤ (alignedRsp c.toCore).toNat; omega), hlen]

theorem holds : c₀.stack.Holds (extra ++ returnFrame c.toCore) := by
  have hroom := hroomy.room
  have hextra := h.extra
  have hall := Stack.Holds.pushAll (Stack.holds_nil (s := ⟨alignedRsp c.toCore, c.mem⟩))
    (extra ++ returnFrame c.toCore).reverse (by
      rw [List.length_reverse, List.length_append, returnFrame]
      simp only [List.length_cons, List.length_nil]
      omega)
  rw [List.reverse_reverse, List.append_nil, ← h.stack] at hall
  exact hall

theorem mem {y : ℕ} (hy : ¬((alignedRsp c.toCore).toNat - 56 ≤ y ∧ y < (alignedRsp c.toCore).toNat)) :
    c₀.mem y = c.mem y := by
  have hroom := hroomy.room
  have hextra := h.extra
  have hlen : 8 * ((extra ++ returnFrame c.toCore).reverse).length = 40 + 8 * extra.length := by
    rw [List.length_reverse, List.length_append, returnFrame]
    simp only [List.length_cons, List.length_nil]
    omega
  change c₀.stack.mem y = _
  rw [h.stack]
  apply Stack.pushAll_outside
  · rw [hlen]
    change _ ≤ (alignedRsp c.toCore).toNat
    omega
  · rw [hlen]
    change y < (alignedRsp c.toCore).toNat - _ ∨ (alignedRsp c.toCore).toNat ≤ y
    omega

/-- Behind the dispatcher, with the registers back and the extra words dropped, `iretq` resumes the program. -/
theorem resumes (habi : Returning own depth compiled) (hstack : c₁.stack = c₀.saving.stack) :
    Resumes own depth c
      (iretq (((compiled d (c₁, k)).withRegs c₀.regs).setRsp (c₀.rsp + BitVec.ofNat 64 (8 * extra.length)))) := by
  have hroom := hroomy.room
  have hextra := h.extra
  have hrsp := h.rsp hroomy
  have hval := alignedRsp_toNat c.toCore
  have hlt := c.rsp.isLt
  have hroom₀ : 120 ≤ c₀.rsp.toNat := by omega
  have haligned : c₀.rsp.toNat % 16 = 8 := by omega
  have hmem {y : ℕ} (hy : y ∉ own) (hout : ¬(c₀.rsp.toNat - (120 + depth) ≤ y ∧ y < c₀.rsp.toNat)) :
      (compiled d (c₁, k)).mem y = c₀.mem y := wrapped_mem habi hroom₀ haligned hstack hy hout
  have hlen : (extra ++ returnFrame c.toCore).length = extra.length + 5 := by
    rw [List.length_append, returnFrame]
    rfl
  -- the words of the program are still on the stack
  have hkept : (⟨c₀.rsp, (compiled d (c₁, k)).mem⟩ : Stack).Holds (extra ++ returnFrame c.toCore) := by
    refine Stack.Holds.congr (t := ⟨c₀.rsp, (compiled d (c₁, k)).mem⟩) (h.holds hroomy) rfl ?_
    intro y hy hend
    change c₀.rsp.toNat ≤ y at hy
    rw [hlen] at hend
    change y < c₀.rsp.toNat + _ at hend
    exact hmem (fun hown => hroomy.apart y hown ⟨by omega, by omega⟩) (by omega)
  constructor
  · apply iretq_core (o := c)
    · exact hkept.drop extra (by change c₀.rsp.toNat + _ < _; omega)
    · change (Stack.drop ⟨c₀.rsp, (compiled d (c₁, k)).mem⟩ extra.length).rsp.toNat + 40 < 2 ^ 64
      rw [Stack.drop_rsp (by change c₀.rsp.toNat + _ < _; omega)]
      change c₀.rsp.toNat + _ + 40 < _
      omega
    · exact h.regs
  · intro y hy
    rw [scratch, Set.mem_ofPred_eq, not_or] at hy
    change (compiled d (c₁, k)).mem y = c.mem y
    rw [hmem hy.1 (by omega), h.mem hroomy (by omega)]

end Delivered

end Return

section Interrupt

variable {compiled : Compiled D} {own : Set ℕ} {depth : ℕ} {c c₀ : Cpu} {k : Interrupts D} {extra : List U64}

/-- A stub that ends with the return: its dispatcher's result, in the resumed program. -/
theorem Delivered.stub_returns (h : Delivered extra c c₀) (hroomy : Roomy own depth c.toCore)
    (habi : Returning own depth compiled) {setup post code : List Instr} {d : Dispatcher} {c₁ : Cpu}
    (hcode : code = pushes ++ setup ++ [.call d] ++ pops ++ post)
    (hsetup : execAll compiled setup (c₀.saving, k) = some (c₁, k))
    (hstack : c₁.stack = c₀.saving.stack)
    (hpost : ∀ w : Cpu × Interrupts D, execAll compiled post w =
      some (iretq (w.1.setRsp (w.1.rsp + BitVec.ofNat 64 (8 * extra.length))), w.2)) :
    EndsIn own depth c (execAll compiled code (c₀, k)) (dispatched d c₁ k) := by
  have hroom := hroomy.room
  have hextra := h.extra
  have hrsp := h.rsp hroomy
  have hval := alignedRsp_toNat c.toCore
  have hresumes := h.resumes (k := k) (d := d) hroomy habi hstack
  rw [hcode, execAll_append, execAll_wrapped habi (by omega) (by omega) (fun y hy hin => ?_) hsetup hstack]
  · cases dispatched d c₁ k with
    | none => exact .halts
    | some k' =>
      simp only [Option.map_some, Option.bind_some, hpost]
      exact .resumes hresumes
  · exact hroomy.apart y hy ⟨by omega, by omega⟩

end Interrupt

end VenturaOS.Idt
