import VenturaOS.Context.Switch
import VenturaOS.Library.Runs

/-!
# Contexts as coroutines

Any number of contexts, each with its own structure and stack. The running
one does what it likes with its registers and its own stack, creates
contexts, and switches to others; what a suspended context finds when it is
resumed is what it left.
-/
namespace VenturaOS.Context
open Library Memory Paging Vmm

/-- Where a context lives: the address of its structure, and its stack. -/
structure Slot where
  context : ℕ
  stack : KernelStack
deriving DecidableEq, Repr

namespace Slot

def InContext (s : Slot) (y : ℕ) : Prop := s.context ≤ y ∧ y < s.context + ExecutionContext.bytes
def InStack (s : Slot) (y : ℕ) : Prop := s.stack.bottom.toNat ≤ y ∧ y < s.stack.top.toNat

/-- Structure or stack. -/
def Holds (s : Slot) (y : ℕ) : Prop := s.InContext y ∨ s.InStack y

end Slot

/-- Objects in memory: structures and stacks of different contexts share no byte, and no structure lies
in a stack. A stack has room for a first frame at an aligned address. -/
structure Layout (ι : Type*) where
  slot : ι → Slot
  bound : ∀ i, (slot i).context + ExecutionContext.bytes ≤ 2 ^ 64
  room : ∀ i, (slot i).stack.bottom.toNat + 96 ≤ (slot i).stack.top.toNat
  apart : ∀ i j y, i ≠ j → (slot i).Holds y → ¬ (slot j).Holds y
  inside : ∀ i y, (slot i).InContext y → ¬ (slot i).InStack y

/-- What is known about a context that is not running. -/
inductive Status
  | absent
  | active
  /-- Created with this entry address and id, never switched to. -/
  | fresh (entryAddr id : U64)
  /-- The processor as it was at the `switch_context` call, and the address behind that call. -/
  | suspended (cpu : Cpu) (ret : U64)

def Status.isFresh : Status → Bool
  | .fresh _ _ => true
  | _ => false

structure World (ι : Type*) where
  cpu : Cpu
  running : ι
  status : ι → Status
  /-- `NEXT_CONTEXT_ID` -/
  nextId : U64
  /-- For each context, what its open `without_interrupts` sections remember, innermost first. -/
  sections : ι → List Bool

/-- The bootstrap context is running, nothing else exists. -/
def World.start {ι : Type*} [DecidableEq ι] (boot : ι) (cpu : Cpu) : World ι where
  cpu := cpu
  running := boot
  status := Function.update (fun _ => .absent) boot .active
  nextId := 1
  sections := fun _ => []

inductive Op (ι : Type*)
  | compute
  | create (i : ι) (entryAddr : U64)
  | switch (i : ι) (ret : U64)
  | enter
  | leave
deriving DecidableEq

/-- The first frame, as registers. -/
def initialRegs (entryAddr id : U64) : Reg → U64
  | .r12 => entryAddr
  | .r13 => id
  | _ => 0

section

variable {ι : Type*} [DecidableEq ι]

/-- One step; `entry` is the address of `initial_context_entry`. -/
inductive Step (L : Layout ι) (entry : U64) : World ι → Op ι → World ι → Prop
  /-- Code of the running context: any registers, any bytes but those of the other contexts. -/
  | compute {w : World ι} {cpu : Cpu} :
      (∀ i, i ≠ w.running → ∀ y, (L.slot i).Holds y → cpu.mem y = w.cpu.mem y) →
      Step L entry w .compute { w with cpu := cpu }
  | create {w : World ι} {i : ι} {entryAddr : U64} {ctx : ExecutionContext} {mem : Bytes} : i ≠ w.running →
      createContextRaw entry entryAddr (L.slot i).stack w.nextId w.cpu.mem = .ok (ctx, mem) →
      Step L entry w (.create i entryAddr)
        { w with
          cpu := { w.cpu with mem := ctx.store mem (L.slot i).context }
          status := Function.update w.status i (.fresh entryAddr w.nextId)
          nextId := w.nextId + 1
          sections := Function.update w.sections i [] }
  | createFails {w : World ι} {i : ι} {entryAddr : U64} {e : ContextError} : i ≠ w.running →
      createContextRaw entry entryAddr (L.slot i).stack w.nextId w.cpu.mem = .error e →
      Step L entry w (.create i entryAddr) w
  /-- `switch_context(running, i)`, called with ten words of room left on the stack. -/
  | switch {w : World ι} {i : ι} {ret : U64} : i ≠ w.running → w.status i ≠ .absent →
      (w.cpu.regs .rcx).toNat = (L.slot w.running).context → (w.cpu.regs .rdx).toNat = (L.slot i).context →
      (L.slot w.running).stack.bottom.toNat + 80 ≤ (w.cpu.regs .rsp).toNat →
      (w.cpu.regs .rsp).toNat ≤ (L.slot w.running).stack.top.toNat →
      Step L entry w (.switch i ret)
        { w with
          cpu := callSwitchContext ret w.cpu
          running := i
          status := Function.update (Function.update w.status w.running (.suspended w.cpu ret)) i .active }
  /-- The start of `without_interrupts`. -/
  | enter {w : World ι} :
      Step L entry w .enter
        { w with
          cpu := if w.cpu.interrupts then w.cpu.cli else w.cpu
          sections := Function.update w.sections w.running (w.cpu.interrupts :: w.sections w.running) }
  /-- Its end, for the innermost open section. -/
  | leave {w : World ι} {enabled : Bool} {rest : List Bool} : w.sections w.running = enabled :: rest →
      Step L entry w .leave
        { w with
          cpu := if enabled then w.cpu.sti else w.cpu
          sections := Function.update w.sections w.running rest }

end

section

variable {ι : Type*}

/-- The frame of a context that is not running starts at `sp`, in its own stack, and its structure says so. -/
structure Saved (L : Layout ι) (m : Bytes) (i : ι) (sp : ℕ) (regs : Reg → U64) (rflags rip : U64) : Prop where
  pointer : m.read (L.slot i).context 8 = sp
  low : (L.slot i).stack.bottom.toNat ≤ sp
  high : sp + 80 ≤ (L.slot i).stack.top.toNat
  frame : m.Holds 8 sp ((frameWords regs rflags rip).map BitVec.toNat)

/-- What memory holds for a context in a given state. -/
def Kept (L : Layout ι) (entry : U64) (m : Bytes) (i : ι) : Status → Prop
  | .absent => True
  | .active => False
  | .fresh entryAddr id =>
    Saved L m i (((L.slot i).stack.top &&& ~~~0xF#64).toNat - 80) (initialRegs entryAddr id) 0x202 entry
  | .suspended cpu ret => Saved L m i ((cpu.regs .rsp).toNat - 80) cpu.regs cpu.rflags ret ∧
      80 ≤ (cpu.regs .rsp).toNat

/-- Every context that is not running is kept. -/
def Inv (L : Layout ι) (entry : U64) (w : World ι) : Prop :=
  ∀ i, i ≠ w.running → Kept L entry w.cpu.mem i (w.status i)

theorem aligned_toNat (a : U64) : (a &&& ~~~0xF#64).toNat = a.toNat / 16 * 16 := by
  have hmask : ∀ i < 64, (~~~0xF#64 : U64).getLsbD i = decide (4 ≤ i) := by decide
  have hshift : a &&& ~~~0xF#64 = (a >>> 4) <<< 4 := by
    apply BitVec.eq_of_getLsbD_eq
    intro i hi
    rw [BitVec.getLsbD_and, hmask i hi, BitVec.getLsbD_shiftLeft, BitVec.getLsbD_ushiftRight]
    by_cases h4 : 4 ≤ i
    · simp [h4, hi, Nat.not_lt.mpr h4, Nat.add_sub_cancel' h4]
    · simp [h4, Nat.not_le.mp h4]
  have hlt := a.isLt
  rw [hshift, BitVec.toNat_shiftLeft, BitVec.toNat_ushiftRight, Nat.shiftRight_eq_div_pow, Nat.shiftLeft_eq]
  exact Nat.mod_eq_of_lt (by omega)

section Store

variable {ctx : ExecutionContext} {m : Bytes} {a y : ℕ}

theorem store_outside (h : y < a ∨ a + ExecutionContext.bytes ≤ y) : ctx.store m a y = m y := by
  have hlen : (ctx.words.map BitVec.toNat).length = 9 := rfl
  unfold ExecutionContext.bytes at h
  rw [ExecutionContext.store, Bytes.write_outside (by omega), Bytes.write_outside (by omega),
    Bytes.writeAll_outside (by omega)]

theorem store_rsp : (ctx.store m a).read a 8 = ctx.rsp.toNat := by
  have hwords : Bytes.Holds (m.writeAll 8 a (ctx.words.map BitVec.toNat)) 8 a (ctx.words.map BitVec.toNat) := by
    apply Bytes.holds_writeAll
    intro v hv
    rcases List.mem_map.mp hv with ⟨u, -, rfl⟩
    exact u.isLt
  rw [ExecutionContext.store, Bytes.read_write_of_disjoint (by omega), Bytes.read_write_of_disjoint (by omega)]
  exact hwords.1

end Store

variable {L : Layout ι} {entry : U64} {m m' : Bytes} {i : ι} {w : World ι}

theorem ranges_apart {a b c d : ℕ} (h : ∀ y, a ≤ y → y < b → ¬(c ≤ y ∧ y < d)) (hab : a < b) (hcd : c < d) :
    b ≤ c ∨ d ≤ a := by
  by_contra hn
  rcases le_total a c with hac | hca
  · exact h c hac (by omega) ⟨le_rfl, hcd⟩
  · exact h a le_rfl hab ⟨hca, by omega⟩

theorem Saved.congr {sp : ℕ} {regs : Reg → U64} {rflags rip : U64} (h : Saved L m i sp regs rflags rip)
    (hs : ∀ y, (L.slot i).Holds y → m' y = m y) : Saved L m' i sp regs rflags rip where
  pointer := by
    rw [← h.pointer]
    apply Bytes.read_congr
    intro y hy hlt
    exact hs y (.inl ⟨hy, by unfold ExecutionContext.bytes; omega⟩)
  low := h.low
  high := h.high
  frame := by
    apply h.frame.congr
    intro y hy hlt
    change y < sp + 8 * 10 at hlt
    have hlow := h.low
    have hhigh := h.high
    exact hs y (.inr ⟨by omega, by omega⟩)

theorem Kept.congr {status : Status} (h : Kept L entry m i status) (hs : ∀ y, (L.slot i).Holds y → m' y = m y) :
    Kept L entry m' i status := by
  cases status with
  | absent => trivial
  | active => exact h
  | fresh entryAddr id => exact Saved.congr h hs
  | suspended cpu ret => exact ⟨h.1.congr hs, h.2⟩

theorem kept_fresh {entryAddr id : U64} {ctx : ExecutionContext} {mem : Bytes}
    (hrun : createContextRaw entry entryAddr (L.slot i).stack id m = .ok (ctx, mem)) :
    Kept L entry (ctx.store mem (L.slot i).context) i (.fresh entryAddr id) ∧
      ∀ y, ¬ (L.slot i).Holds y → ctx.store mem (L.slot i).context y = m y := by
  have hroom := L.room i
  have htop := aligned_toNat (L.slot i).stack.top
  unfold createContextRaw at hrun
  split_ifs at hrun
  simp only [Except.ok.injEq, Prod.mk.injEq] at hrun
  rcases hrun with ⟨hctx, hmem⟩
  have hsp : (((L.slot i).stack.top &&& ~~~0xF#64) - 80#64).toNat =
      ((L.slot i).stack.top &&& ~~~0xF#64).toNat - 80 := by
    rw [BitVec.toNat_sub]
    have hlt := ((L.slot i).stack.top &&& ~~~0xF#64).isLt
    change (2 ^ 64 - 80 + _) % 2 ^ 64 = _
    omega
  have hrsp : ctx.rsp.toNat = ((L.slot i).stack.top &&& ~~~0xF#64).toNat - 80 := by
    rw [← hctx, ← hsp]
  rw [hsp] at hmem
  have hlen : ((initialFrame entry entryAddr id).map BitVec.toNat).length = 10 := rfl
  constructor
  · refine ⟨store_rsp.trans hrsp, by omega, by omega, ?_⟩
    have hframe : mem.Holds 8 (((L.slot i).stack.top &&& ~~~0xF#64).toNat - 80)
        ((initialFrame entry entryAddr id).map BitVec.toNat) := by
      rw [← hmem]
      apply Bytes.holds_writeAll
      intro v hv
      rcases List.mem_map.mp hv with ⟨u, -, rfl⟩
      exact u.isLt
    apply hframe.congr
    intro y hy hlt
    rw [hlen] at hlt
    apply store_outside
    -- a byte of the stack is no byte of the structure
    have hin : ¬ (L.slot i).InContext y := fun hc => L.inside i y hc ⟨by omega, by omega⟩
    unfold Slot.InContext at hin
    omega
  · intro y hy
    unfold Slot.Holds Slot.InContext Slot.InStack at hy
    rw [store_outside (by omega), ← hmem, Bytes.writeAll_outside (by omega)]

/-- A switch is called with room on its own stack, between two contexts that are apart. -/
theorem switchReady (hi : i ≠ w.running) (hrcx : (w.cpu.regs .rcx).toNat = (L.slot w.running).context)
    (hrdx : (w.cpu.regs .rdx).toNat = (L.slot i).context)
    (hlow : (L.slot w.running).stack.bottom.toNat + 80 ≤ (w.cpu.regs .rsp).toNat)
    (hhigh : (w.cpu.regs .rsp).toNat ≤ (L.slot w.running).stack.top.toNat) :
    SwitchReady w.cpu (L.slot w.running).context (L.slot i).context := by
  have hframe {y : ℕ} (hy : (w.cpu.regs .rsp).toNat - 80 ≤ y ∧ y < (w.cpu.regs .rsp).toNat) :
      (L.slot w.running).InStack y := ⟨by omega, by omega⟩
  refine ⟨hrcx, hrdx, by omega, L.bound _, L.bound _, ?_, ?_, ?_⟩
  · apply ranges_apart _ (by omega) (by omega)
    intro y hy hlt hf
    exact L.inside _ y ⟨hy, hlt⟩ (hframe hf)
  · apply ranges_apart _ (by omega) (by omega)
    intro y hy hlt hf
    exact L.apart i w.running y hi (.inl ⟨hy, hlt⟩) (.inr (hframe hf))
  · apply ranges_apart _ (by omega) (by omega)
    intro y hy hlt hc
    exact L.apart i w.running y hi (.inl hc) (.inl ⟨hy, hlt⟩)

/-- What a switch writes belongs to the two contexts; of the new one it is only the state byte. -/
theorem SwitchWrites.owner {y : ℕ} (hlow : (L.slot w.running).stack.bottom.toNat + 80 ≤ (w.cpu.regs .rsp).toNat)
    (hhigh : (w.cpu.regs .rsp).toNat ≤ (L.slot w.running).stack.top.toNat)
    (h : SwitchWrites w.cpu (L.slot w.running).context (L.slot i).context y) :
    (L.slot w.running).Holds y ∨ (L.slot i).InContext y := by
  rcases h with ⟨hl, hh⟩ | hc | he
  · exact .inl (.inr ⟨by omega, by omega⟩)
  · exact .inl (.inl hc)
  · refine .inr ⟨by omega, ?_⟩
    unfold ExecutionContext.bytes
    omega

/-- A context that can be switched to has a frame; where it starts and what it holds. -/
theorem Kept.saved {status : Status} (h : Kept L entry m i status) (ha : status ≠ .absent) :
    ∃ sp regs rflags rip, Saved L m i sp regs rflags rip ∧
      (∀ cpu ret, status = .suspended cpu ret →
        sp + 80 = (cpu.regs .rsp).toNat ∧ regs = cpu.regs ∧ rflags = cpu.rflags ∧ rip = ret) ∧
      (∀ entryAddr id, status = .fresh entryAddr id →
        sp + 80 = ((L.slot i).stack.top &&& ~~~0xF#64).toNat ∧ regs = initialRegs entryAddr id ∧ rflags = 0x202 ∧
          rip = entry) := by
  cases status with
  | absent => exact absurd rfl ha
  | active => exact False.elim h
  | fresh entryAddr id =>
    refine ⟨_, _, _, _, h, fun cpu ret he => (by cases he), fun e d he => ?_⟩
    cases he
    have hroom := L.room i
    have htop := aligned_toNat (L.slot i).stack.top
    exact ⟨by omega, rfl, rfl, rfl⟩
  | suspended cpu ret =>
    refine ⟨_, _, _, _, h.1, fun c r he => ?_, fun e d he => (by cases he)⟩
    cases he
    have hroom := h.2
    exact ⟨by omega, rfl, rfl, rfl⟩

end

/-- What the processor holds right after a switch. -/
structure Resumed (c : Cpu) (regs : Reg → U64) (rsp rflags rip : U64) : Prop where
  regs : ∀ r ∈ calleeSaved, c.regs r = regs r
  rsp : c.regs .rsp = rsp
  rflags : c.rflags = rflags
  rip : c.rip = rip

section

variable {ι : Type*} [DecidableEq ι] {L : Layout ι} {entry : U64} {i : ι} {w w' : World ι} {op : Op ι}

/-- One switch, from any state that keeps its contexts. -/
theorem Inv.switch (h : Inv L entry w) {ret : U64} (hstep : Step L entry w (.switch i ret) w') :
    Inv L entry w' ∧
      (∀ cpu r, w.status i = .suspended cpu r → Resumed w'.cpu cpu.regs (cpu.regs .rsp) cpu.rflags r) ∧
      (∀ entryAddr id, w.status i = .fresh entryAddr id →
        Resumed w'.cpu (initialRegs entryAddr id) ((L.slot i).stack.top &&& ~~~0xF#64) 0x202 entry) := by
  cases hstep with
  | switch hi hstatus hrcx hrdx hlow hhigh =>
    have hready := switchReady hi hrcx hrdx hlow hhigh
    rcases (h i hi).saved hstatus with ⟨sp, regs, rflags, rip, hsaved, hsusp, hfresh⟩
    have hsplow := hsaved.low
    have hsphigh := hsaved.high
    have htop := (L.slot i).stack.top.isLt
    have hapart : ∀ y, sp ≤ y → y < sp + 80 →
        ¬ SwitchWrites w.cpu (L.slot w.running).context (L.slot i).context y := by
      intro y hy hlt hw
      have hin : (L.slot i).InStack y := ⟨by omega, by omega⟩
      rcases SwitchWrites.owner hlow hhigh hw with hown | hctx
      · exact L.apart i w.running y hi (.inr hin) hown
      · exact L.inside i y hctx hin
    rcases callSwitchContext_spec ret hready hsaved.pointer (by omega) hsaved.frame hapart with
      ⟨hregs, hrsp, hflags, hrip, hframe, hpointer, hmem⟩
    refine ⟨fun j hj => ?_, fun cpu r he => ?_, fun entryAddr id he => ?_⟩
    · change j ≠ i at hj
      by_cases hrun : j = w.running
      · subst hrun
        simp only [Function.update_of_ne hj, Function.update_self]
        exact ⟨⟨hpointer, by omega, by omega, hframe⟩, by omega⟩
      · simp only [Function.update_of_ne hj, Function.update_of_ne hrun]
        refine (h j hrun).congr fun y hy => hmem y fun hw => ?_
        rcases SwitchWrites.owner hlow hhigh hw with hown | hctx
        · exact L.apart j w.running y hrun hy hown
        · exact L.apart j i y hj hy (.inl hctx)
    · rcases hsusp cpu r he with ⟨hsp, rfl, rfl, rfl⟩
      exact ⟨hregs, BitVec.eq_of_toNat_eq (hrsp.trans hsp), hflags, hrip⟩
    · rcases hfresh entryAddr id he with ⟨hsp, rfl, rfl, rfl⟩
      exact ⟨hregs, BitVec.eq_of_toNat_eq (hrsp.trans hsp), hflags, hrip⟩

theorem Inv.step (h : Inv L entry w) (hstep : Step L entry w op w') : Inv L entry w' := by
  cases op with
  | switch i ret => exact (h.switch hstep).1
  | compute =>
    cases hstep with
    | compute hmem => exact fun i hi => (h i hi).congr (hmem i hi)
  | create i entryAddr =>
    cases hstep with
    | create hi hrun =>
      rcases kept_fresh hrun with ⟨hkept, hmem⟩
      intro j hj
      by_cases hji : j = i
      · subst hji
        simp only [Function.update_self]
        exact hkept
      · simp only [Function.update_of_ne hji]
        exact (h j hj).congr fun y hy => hmem y fun hyi => L.apart j i y hji hy hyi
    | createFails => exact h
  | enter =>
    cases hstep with
    | enter =>
      intro i hi
      refine (h i hi).congr fun y _ => ?_
      simp only
      split_ifs <;> rfl
  | leave =>
    cases hstep with
    | leave hsec =>
      intro i hi
      refine (h i hi).congr fun y _ => ?_
      simp only
      split_ifs <;> rfl

theorem Inv.start (boot : ι) (cpu : Cpu) : Inv L entry (World.start boot cpu) := by
  intro i hi
  simp only [World.start] at hi ⊢
  rw [Function.update_of_ne hi]
  trivial

/-- Faithful coroutines: in any run, a suspended context resumes behind its call with the registers it
had there, and a new one starts at its entry with its own stack. -/
theorem faithful_coroutines {boot : ι} {cpu : Cpu} {ops : List (Op ι)} {ret : U64}
    (hrun : Run (Step L entry) (World.start boot cpu) ops w) (hstep : Step L entry w (.switch i ret) w') :
    (∀ cpu r, w.status i = .suspended cpu r → Resumed w'.cpu cpu.regs (cpu.regs .rsp) cpu.rflags r) ∧
      (∀ entryAddr id, w.status i = .fresh entryAddr id →
        Resumed w'.cpu (initialRegs entryAddr id) ((L.slot i).stack.top &&& ~~~0xF#64) 0x202 entry) := by
  have hinv := hrun.invariant (Inv L entry) (fun _ _ _ h hs => h.step hs) (Inv.start boot cpu)
  exact (hinv.switch hstep).2

end

/-- Two contexts: the bootstrap context (`false`) and one on a kernel stack. -/
def sampleSlot (i : Bool) : Slot :=
  ⟨if i then 0x2000 else 0x1000,
    ⟨⟨⟨if i then dynamicVirtStart else 0x10000⟩, stackSizeBytes, .kernelData, .dynamicKernel, true⟩⟩⟩

def sampleLayout : Layout Bool where
  slot := sampleSlot
  bound := by decide
  room := by decide
  apart := by
    intro i j y hij hi hj
    have hone : (sampleSlot true).stack.bottom.toNat = 2 ^ 64 - 2 ^ 47 ∧
        (sampleSlot true).stack.top.toNat = 2 ^ 64 - 2 ^ 47 + 0x4000 := by decide
    have hzero : (sampleSlot false).stack.bottom.toNat = 0x10000 ∧ (sampleSlot false).stack.top.toNat = 0x14000 := by
      decide
    have hctx : (sampleSlot true).context = 0x2000 ∧ (sampleSlot false).context = 0x1000 := by decide
    cases i <;> cases j
    · exact hij rfl
    · simp only [Slot.Holds, Slot.InContext, Slot.InStack, ExecutionContext.bytes] at hi hj
      omega
    · simp only [Slot.Holds, Slot.InContext, Slot.InStack, ExecutionContext.bytes] at hi hj
      omega
    · exact hij rfl
  inside := by
    intro i y hc hs
    simp only [Slot.InContext, ExecutionContext.bytes] at hc
    cases i with
    | false =>
      have hlow : (0x10000 : ℕ) ≤ y := hs.1
      change 0x1000 ≤ y ∧ y < 0x1000 + 88 at hc
      omega
    | true =>
      have hlow : (2 ^ 64 - 2 ^ 47 : ℕ) ≤ y := hs.1
      change 0x2000 ≤ y ∧ y < 0x2000 + 88 at hc
      omega

/-- Registers at a call of `switch_context` by context `i`. -/
def sampleRegs (i : Bool) : Reg → U64
  | .rcx => if i then 0x2000 else 0x1000
  | .rdx => if i then 0x1000 else 0x2000
  | .rsp => if i then dynamicVirtStart + 0x1000 else 0x12000
  | .rbx => 7
  | _ => 0

def sampleCpu : Cpu := ⟨sampleRegs false, 0x2, 0x5000, fun _ => 0⟩

theorem sample_create (m : Bytes) : ∃ ctx mem,
    createContextRaw 0x300000 0x400000 (sampleSlot true).stack 1 m = .ok (ctx, mem) := by
  unfold createContextRaw
  rw [if_neg (by decide), if_neg (by decide)]
  exact ⟨_, _, rfl⟩

theorem sample_created : ∃ w, Step sampleLayout 0x300000 (World.start false sampleCpu) (.create true 0x400000) w ∧
    w.running = false ∧ w.cpu.regs = sampleRegs false ∧ w.cpu.rflags = 0x2 ∧ w.status true = .fresh 0x400000 1 := by
  rcases sample_create sampleCpu.mem with ⟨ctx, mem, hcreate⟩
  exact ⟨_, .create (by decide) hcreate, rfl, rfl, rfl, by simp [World.start]⟩

theorem sample_switch {i : Bool} {w : World Bool} (ret : U64) (hrun : w.running = i) (hregs : w.cpu.regs = sampleRegs i)
    (hstatus : w.status (!i) ≠ .absent) :
    ∃ w', Step sampleLayout 0x300000 w (.switch (!i) ret) w' ∧ w'.running = !i ∧
      w'.status i = .suspended w.cpu ret := by
  subst hrun
  have hne : (!w.running) ≠ w.running := by cases w.running <;> decide
  refine ⟨_, .switch hne hstatus ?_ ?_ ?_ ?_, rfl, ?_⟩
  · rw [hregs]
    generalize w.running = i
    revert i
    decide
  · rw [hregs]
    generalize w.running = i
    revert i
    decide
  · rw [hregs]
    generalize w.running = i
    revert i
    decide
  · rw [hregs]
    generalize w.running = i
    revert i
    decide
  · simp only [Function.update_of_ne (Ne.symm hne), Function.update_self]

/-- The bootstrap context creates another one and switches to it; that one switches back. -/
theorem faithful_coroutines_sample : ∃ ops w w', Run (Step sampleLayout 0x300000) (World.start false sampleCpu) ops w ∧
    Step sampleLayout 0x300000 w (.switch false 0x6000) w' ∧ w'.cpu.rip = 0x5000 ∧ w'.cpu.regs .rbx = 7 := by
  rcases sample_created with ⟨w₁, h₁, hrun₁, hregs₁, -, hfresh⟩
  rcases sample_switch 0x5000 hrun₁ hregs₁ (by rw [Bool.not_false, hfresh]; simp) with ⟨w₂, h₂, hrun₂, hsusp⟩
  -- the new context sets its registers for the call
  have h₃ : Step sampleLayout 0x300000 w₂ .compute { w₂ with cpu := { w₂.cpu with regs := sampleRegs true } } :=
    .compute fun _ _ _ _ => rfl
  rcases sample_switch 0x6000 (w := { w₂ with cpu := { w₂.cpu with regs := sampleRegs true } }) hrun₂ rfl
    (by change w₂.status false ≠ .absent; rw [hsusp]; simp) with ⟨w₄, h₄, -, -⟩
  have hrun := Run.cons h₁ (.cons h₂ (.single h₃))
  have hres := (faithful_coroutines hrun h₄).1 w₁.cpu 0x5000 hsusp
  refine ⟨_, _, w₄, hrun, h₄, hres.rip, ?_⟩
  rw [hres.regs .rbx (by decide), hregs₁]
  rfl

end VenturaOS.Context
