import VenturaOS.Idt.Delivery

/-!
# Every interrupt returns to the program

The vector decides which stub runs, the stub which dispatcher, and the
dispatcher alone decides what becomes of the kernel. The interrupted program
is resumed with all of its registers, for each of the 256 vectors. The macros
and the processor disagree on one exception, which halts either way.
-/
namespace VenturaOS.Idt
open Library Gdt InterruptDescriptorTable

variable {D : Type} {compiled : Compiled D} {own : Set ℕ} {depth : ℕ} {c c₀ : Cpu} {k : Interrupts D} {vector : ℕ}
  {error : Option U64} {gate : Gate} {stubs : StubAddresses} {idt : InterruptDescriptorTable} {base : U64}
  {code : U64 → List Instr}

/-- The words of a frame, read back in the order of its fields. -/
theorem load_words {s : Stack} {regs : Reg → U64} {v e rip cs rflags rsp ss : U64} {ws : List U64}
    (h : s.Holds (saved.reverse.map regs ++ (v :: e :: rip :: cs :: rflags :: rsp :: ss :: ws))) :
    ExceptionFrame.load s.mem s.rsp.toNat = ⟨.of regs, v, e, rip, cs, rflags, rsp, ss⟩ := by
  have hlen : (saved.reverse.map regs ++ (v :: e :: rip :: cs :: rflags :: rsp :: ss :: ws)).length = 22 + ws.length := by
    rw [List.length_append, List.length_map, List.length_reverse]
    simp only [saved, List.length_cons, List.length_nil]
    omega
  have hword {i : ℕ} (hi : i < 22) := h.word (i := i) (by omega)
  unfold ExceptionFrame.load
  simp only
  rw [hword (i := 0) (by omega), hword (i := 1) (by omega), hword (i := 2) (by omega), hword (i := 3) (by omega),
    hword (i := 4) (by omega), hword (i := 5) (by omega), hword (i := 6) (by omega), hword (i := 7) (by omega),
    hword (i := 8) (by omega), hword (i := 9) (by omega), hword (i := 10) (by omega), hword (i := 11) (by omega),
    hword (i := 12) (by omega), hword (i := 13) (by omega), hword (i := 14) (by omega), hword (i := 15) (by omega),
    hword (i := 16) (by omega), hword (i := 17) (by omega), hword (i := 18) (by omega), hword (i := 19) (by omega),
    hword (i := 20) (by omega), hword (i := 21) (by omega)]
  rfl

theorem deliver_regs (gate : Gate) (error : Option U64) (c : Cpu) : (deliver gate error c).regs = c.regs := rfl

theorem deliver_cr2 (gate : Gate) (error : Option U64) (c : Cpu) : (deliver gate error c).cr2 = c.cr2 := rfl

theorem deliver_stack (gate : Gate) (error : Option U64) (c : Cpu) :
    (deliver gate error c).stack =
      (⟨alignedRsp c.toCore, c.mem⟩ : Stack).pushAll ((returnFrame c.toCore).reverse ++ error.toList) := rfl

/-- Without an error code the stub finds the five words of the program. -/
theorem deliver_plain (gate : Gate) (c : Cpu) : Delivered [] c (deliver gate none c) where
  regs := deliver_regs gate none c
  stack := by rw [deliver_stack, Option.toList_none, List.append_nil, List.nil_append]
  extra := .inl rfl

/-- Two words more are pushed before the dispatcher is called. -/
theorem deliver_pushed (gate : Gate) (c : Cpu) {words : List U64} {v e : U64}
    (hwords : error.toList ++ words = [e, v]) :
    Delivered [v, e] c ((deliver gate error c).withStack ((deliver gate error c).stack.pushAll words)) where
  regs := by rw [Cpu.withStack_regs, deliver_regs]
  stack := by
    rw [Cpu.withStack_stack, deliver_stack, ← Stack.pushAll_append, List.append_assoc, hwords, List.reverse_append]
    rfl
  extra := .inr rfl

theorem execAll_movRsp (c : Cpu) (k : Interrupts D) (r : Reg) :
    execAll compiled [.movRsp r] (c, k) = some (c.set r c.rsp, k) := rfl

theorem execAll_movImm (c : Cpu) (k : Interrupts D) (r : Reg) (v : U64) :
    execAll compiled [.movImm r v] (c, k) = some (c.set r v, k) := rfl

/-- The end of an exception stub drops the two words under the program's. -/
theorem execAll_leave (v e : U64) (w : Cpu × Interrupts D) : execAll compiled [.addRsp 16, .iretq] w =
    some (iretq (w.1.setRsp (w.1.rsp + BitVec.ofNat 64 (8 * [v, e].length))), w.2) := by
  rw [show 8 * [v, e].length = 16 from rfl]
  rfl

theorem execAll_iretq (w : Cpu × Interrupts D) : execAll compiled [.iretq] w =
    some (iretq (w.1.setRsp (w.1.rsp + BitVec.ofNat 64 (8 * ([] : List U64).length))), w.2) := by
  rw [List.length_nil, Nat.mul_zero, BitVec.add_zero]
  rfl

section Exceptions

/-- The words an exception stub pushes in front of the registers. -/
def stubWords (vector : ℕ) : List U64 :=
  if vector ∈ errVectors then [BitVec.ofNat 64 vector] else [0, BitVec.ofNat 64 vector]

theorem exceptionStub_eq (vector : ℕ) : exceptionStub vector = (stubWords vector).map Instr.pushImm ++
    (pushes ++ [.movRsp .rdi] ++ [.call .exception] ++ pops ++ [.addRsp 16, .iretq]) := by
  rw [exceptionStub, stubWords]
  split_ifs
  · simp only [exceptionErr, commonExceptionEntry, List.map_cons, List.map_nil, List.append_assoc, List.cons_append,
      List.nil_append]
  · simp only [exceptionNoErr, commonExceptionEntry, List.map_cons, List.map_nil, List.append_assoc, List.cons_append,
      List.nil_append]

theorem execAll_pushImms (ws : List U64) (c : Cpu) (k : Interrupts D) :
    execAll compiled (ws.map Instr.pushImm) (c, k) = some (c.withStack (c.stack.pushAll ws), k) := by
  induction ws generalizing c with
  | nil => rfl
  | cons v ws ih =>
    change execAll compiled (ws.map Instr.pushImm) (c.withStack (c.stack.push v), k) = _
    rw [ih]
    rfl

/-- The processor in the common entry. -/
def entered (gate : Gate) (vector : ℕ) (error : Option U64) (c : Cpu) : Cpu :=
  (deliver gate error c).withStack ((deliver gate error c).stack.pushAll (stubWords vector))

/-- And at the call of the dispatcher. -/
def calling (gate : Gate) (vector : ℕ) (error : Option U64) (c : Cpu) : Cpu :=
  (entered gate vector error c).saving.set .rdi (entered gate vector error c).saving.rsp

theorem entered_regs (gate : Gate) (error : Option U64) (c : Cpu) : (entered gate vector error c).regs = c.regs := by
  rw [entered, Cpu.withStack_regs, deliver_regs]

theorem calling_cr2 (gate : Gate) (error : Option U64) (c : Cpu) : (calling gate vector error c).cr2 = c.cr2 := by
  rw [calling, Cpu.set_cr2, Cpu.saving, Cpu.withStack_cr2, entered, Cpu.withStack_cr2, deliver_cr2]

theorem calling_stack (gate : Gate) (error : Option U64) (c : Cpu) : (calling gate vector error c).stack =
    (⟨alignedRsp c.toCore, c.mem⟩ : Stack).pushAll
      ((returnFrame c.toCore).reverse ++ error.toList ++ stubWords vector ++ saved.map c.regs) := by
  rw [calling, Cpu.set_stack, Cpu.saving_stack, entered_regs, entered, Cpu.withStack_stack, deliver_stack,
    ← Stack.pushAll_append, ← Stack.pushAll_append, List.append_assoc _ (stubWords vector)]

theorem execAll_calling (gate : Gate) (error : Option U64) (c : Cpu) (k : Interrupts D) :
    execAll compiled ((stubWords vector).map Instr.pushImm ++ (pushes ++ [.movRsp .rdi])) (deliver gate error c, k) =
      some (calling gate vector error c, k) := by
  have hpushes : pushes = saved.map Instr.push := rfl
  rw [execAll_append, execAll_pushImms, Option.bind_some, execAll_append, hpushes, execAll_pushes, Option.bind_some]
  exact execAll_movRsp _ k .rdi

/-- What is on the stack at the call is the frame, in the order of its fields. -/
theorem calling_frame {v e rip cs rflags rsp ss : U64} (ws : List U64)
    (hwords : (error.toList ++ stubWords vector).reverse ++ returnFrame c.toCore = v :: e :: rip :: cs :: rflags :: rsp :: ss :: ws)
    (hroom : 176 + 8 * ws.length ≤ (alignedRsp c.toCore).toNat) :
    ExceptionFrame.load (calling gate vector error c).mem ((calling gate vector error c).regs .rdi).toNat =
      ⟨.of c.regs, v, e, rip, cs, rflags, rsp, ss⟩ := by
  have hlen := congrArg List.length hwords
  simp only [List.length_append, List.length_reverse, List.length_cons] at hlen
  have hsaved : saved.length = 15 := rfl
  have hall := Stack.Holds.pushAll (Stack.holds_nil (s := ⟨alignedRsp c.toCore, c.mem⟩))
    ((returnFrame c.toCore).reverse ++ error.toList ++ stubWords vector ++ saved.map c.regs) (by
      simp only [List.length_append, List.length_reverse, List.length_map, hsaved]
      omega)
  rw [← calling_stack gate, List.append_nil, List.reverse_append, ← List.map_reverse, List.append_assoc, List.reverse_append,
    List.reverse_reverse, hwords] at hall
  have hrdi : (calling gate vector error c).regs .rdi = (calling gate vector error c).stack.rsp := by
    rw [calling, Cpu.set_regs]
    rfl
  rw [hrdi, ← Cpu.stack_mem]
  exact load_words hall

/-- The frame the dispatcher is called with. The stub of vector 29 expects no error code, so everything behind
the vector is one word further down than it takes it to be. -/
def framePassed (c : Core) (vector : ℕ) (error : Option U64) : ExceptionFrame :=
  if vector = 29 then ⟨.of c.regs, 29, 0, error.getD 0, c.rip, c.cs.setWidth 64, c.rflags, c.rsp⟩ else frameOf c vector error

/-- The macros push a zero exactly where the processor pushes no error code, but for vector 29. -/
theorem mem_errVectors (hne : vector ≠ 29) : vector ∈ errVectors ↔ vector ∈ errorCodeVectors := by
  simp only [errVectors, errorCodeVectors, List.mem_cons, List.not_mem_nil, or_false]
  omega

/-- With the error code of the processor or the zero of the stub two words are under the program's. -/
theorem pushed_words (hne : vector ≠ 29) (herror : error.isSome = decide (vector ∈ errorCodeVectors)) :
    error.toList ++ stubWords vector = [error.getD 0, BitVec.ofNat 64 vector] := by
  rw [stubWords]
  by_cases hmem : vector ∈ errVectors
  · rw [decide_eq_true ((mem_errVectors hne).mp hmem), Option.isSome_iff_exists] at herror
    obtain ⟨e, rfl⟩ := herror
    rw [if_pos hmem]
    rfl
  · rw [decide_eq_false (mt (mem_errVectors hne).mpr hmem), Option.isSome_eq_false_iff, Option.isNone_iff_eq_none] at herror
    subst herror
    rw [if_neg hmem]
    rfl

/-- The frame is the program's, except for vector 29. -/
theorem calling_passed (gate : Gate) (hroom : 176 ≤ (alignedRsp c.toCore).toNat)
    (hfurther : vector = 29 → 184 ≤ (alignedRsp c.toCore).toNat)
    (herror : error.isSome = decide (vector ∈ errorCodeVectors)) :
    ExceptionFrame.load (calling gate vector error c).mem ((calling gate vector error c).regs .rdi).toNat =
      framePassed c.toCore vector error := by
  by_cases he : vector = 29
  · subst he
    have hsome : error.isSome = true := herror
    obtain ⟨e, rfl⟩ := Option.isSome_iff_exists.mp hsome
    exact calling_frame [c.ss.setWidth 64] rfl (hfurther rfl)
  · rw [framePassed, if_neg he]
    refine calling_frame [] ?_ hroom
    rw [pushed_words he herror]
    rfl

theorem exceptionDispatcher_halts {frame : ExceptionFrame} (h : frame.vector = 29) (cr2 : U64) (k : Interrupts D) :
    returned (exceptionDispatcher frame cr2 k) = none := by
  rw [exceptionDispatcher, if_neg (by rw [h]; decide)]
  rfl

theorem exceptionStub_returns (habi : Returning own depth compiled) (hroomy : Roomy own depth c.toCore)
    (hfurther : vector = 29 → 184 ≤ (alignedRsp c.toCore).toNat)
    (herror : error.isSome = decide (vector ∈ errorCodeVectors)) :
    EndsIn own depth c (execAll compiled (exceptionStub vector) (deliver gate error c, k))
      (returned (exceptionDispatcher (framePassed c.toCore vector error) c.cr2 k)) := by
  have hroom := hroomy.room
  have hload := calling_passed gate (by omega) hfurther herror
  have hdispatched : dispatched .exception (calling gate vector error c) k =
      returned (exceptionDispatcher (framePassed c.toCore vector error) c.cr2 k) := by
    rw [dispatched, hload, calling_cr2]
  rw [← hdispatched, exceptionStub_eq]
  by_cases he : vector = 29
  · -- one word too many is on the stack, but the dispatcher never comes back to it
    have hhalts : dispatched .exception (calling gate vector error c) k = none := by
      rw [hdispatched, framePassed, if_pos he]
      exact exceptionDispatcher_halts rfl _ _
    rw [hhalts, List.append_assoc, List.append_assoc, ← List.append_assoc, execAll_append, execAll_calling,
      Option.bind_some, List.cons_append, execAll_cons, exec, callDispatcher, hhalts]
    exact .halts
  · have hdelivered : Delivered [BitVec.ofNat 64 vector, error.getD 0] c (entered gate vector error c) :=
      deliver_pushed gate c (pushed_words he herror)
    rw [execAll_append, execAll_pushImms, Option.bind_some]
    exact hdelivered.stub_returns hroomy habi rfl (execAll_movRsp _ k .rdi) (Cpu.set_stack _ _ _)
      (execAll_leave (BitVec.ofNat 64 vector) (error.getD 0))

end Exceptions

theorem plainStub_returns (habi : Returning own depth compiled) (hroomy : Roomy own depth c.toCore) {setup body : List Instr}
    {d : Dispatcher} {c₁ : Cpu} (hbody : body = pushes ++ setup ++ [.call d] ++ pops ++ [.iretq])
    (hsetup : execAll compiled setup ((deliver gate none c).saving, k) = some (c₁, k))
    (hstack : c₁.stack = (deliver gate none c).saving.stack) :
    EndsIn own depth c (execAll compiled body (deliver gate none c, k)) (dispatched d c₁ k) :=
  (deliver_plain gate c).stub_returns hroomy habi hbody hsetup hstack execAll_iretq

theorem irqStub_eq (irq : ℕ) :
    irqStub irq = pushes ++ [.movImm .rdi (BitVec.ofNat 64 irq)] ++ [.call .irq] ++ pops ++ [.iretq] := by
  rw [irqStub]
  simp only [List.append_assoc, List.cons_append, List.nil_append]

theorem genericIrqStub_eq : genericIrqStub = pushes ++ [] ++ [.call .generic] ++ pops ++ [.iretq] := by
  rw [genericIrqStub, List.append_nil]

theorem spuriousStub_returns (hroomy : Roomy own depth c.toCore) :
    EndsIn own depth c (execAll compiled spuriousIrqStub (deliver gate none c, k)) (some k) := by
  have h := deliver_plain gate c
  generalize deliver gate none c = c₀ at h
  have hroom := hroomy.room
  have hrsp := h.rsp hroomy
  have hholds := h.holds hroomy
  have hlt := (alignedRsp c.toCore).isLt
  rw [List.nil_append] at hholds
  rw [List.length_nil, Nat.mul_zero, Nat.add_zero] at hrsp
  rw [spuriousIrqStub, execAll_cons, exec, Option.bind_some, execAll_nil]
  have hroom' : c₀.rsp.toNat + 40 < 2 ^ 64 := by omega
  refine .resumes ⟨iretq_core hholds hroom' h.regs, fun y hy => ?_⟩
  rw [scratch, Set.mem_ofPred_eq, not_or] at hy
  have hval := alignedRsp_toNat c.toCore
  have hsame := h.mem hroomy (y := y) (by omega)
  change c₀.mem y = c.mem y
  exact hsame

theorem not_errorCode (hlow : 32 ≤ vector) : vector ∉ errorCodeVectors := by
  intro hmem
  simp only [errorCodeVectors, List.mem_cons, List.not_mem_nil, or_false] at hmem
  omega

/-- Where the dispatcher halts it does not matter with which frame. -/
theorem returned_passed (hlt : vector < 32) (core : Core) (error : Option U64) (cr2 : U64) (k : Interrupts D) :
    returned (exceptionDispatcher (framePassed core vector error) cr2 k) = served core cr2 vector error k := by
  rw [served, if_pos hlt, framePassed]
  split_ifs with he
  · subst he
    rw [exceptionDispatcher_halts rfl, exceptionDispatcher_halts rfl]
  · rfl

theorem interrupt_endsIn (hlink : Linked stubs code) (hidt : (init stubs idt).StandsAt c.mem base.toNat)
    (habi : Returning own depth compiled) (hroomy : Roomy own depth c.toCore) (hv : vector < 256)
    (hfurther : vector = 29 → 184 ≤ (alignedRsp c.toCore).toNat)
    (herror : error.isSome = decide (vector ∈ errorCodeVectors)) :
    EndsIn own depth c (interrupt compiled code (pointer base) vector error (c, k))
      (served c.toCore c.cr2 vector error k) := by
  have hgate := readGate_init hidt vector
  rw [if_pos hv] at hgate
  unfold interrupt
  simp only [hgate, hlink vector hv]
  generalize (⟨stubs.handler vector, kernelCodeSelector, 0, true, 0⟩ : Gate) = gate
  have hplain (h32 : ¬vector < 32) : error = none := by
    rw [decide_eq_false (not_errorCode (by omega)), Option.isSome_eq_false_iff, Option.isNone_iff_eq_none] at herror
    exact herror
  by_cases h32 : vector < 32
  · rw [← returned_passed h32, stub, if_pos h32]
    exact exceptionStub_returns habi hroomy hfurther herror
  · rw [served, stub, if_neg h32, if_neg h32, hplain h32]
    by_cases h48 : vector < 48
    · rw [if_pos h48, if_pos h48]
      have hset := (deliver gate none c).saving.set_regs .rdi (BitVec.ofNat 64 (vector - 32))
      have hstack := (deliver gate none c).saving.set_stack .rdi (BitVec.ofNat 64 (vector - 32))
      have hreturns := plainStub_returns (d := .irq) habi hroomy (irqStub_eq (vector - 32)) (execAll_movImm _ k .rdi _) hstack
      rw [dispatched, hset] at hreturns
      exact hreturns
    · rw [if_neg h48, if_neg h48]
      by_cases h255 : vector < 255
      · rw [if_pos h255, if_pos h255]
        exact plainStub_returns (d := .generic) habi hroomy genericIrqStub_eq (execAll_nil _) rfl
      · rw [if_neg h255, if_neg h255]
        exact spuriousStub_returns hroomy

theorem EndsIn.eq_none_iff {out : Option (Cpu × Interrupts D)} {result : Option (Interrupts D)}
    (h : EndsIn own depth c out result) : out = none ↔ result = none := by
  cases h with
  | halts => exact iff_of_true rfl rfl
  | resumes _ => exact iff_of_false (fun h => by cases h) fun h => by cases h

/-- The dispatcher halts for every exception but the breakpoint. -/
theorem served_eq_none {core : Core} {cr2 : U64} (hv : vector < 256) :
    served core cr2 vector error k = none ↔ vector < 32 ∧ vector ≠ 3 := by
  have hthree : (frameOf core vector error).vector = 3 ↔ vector = 3 := by
    change BitVec.ofNat 64 vector = 3 ↔ vector = 3
    rw [← BitVec.toNat_inj, BitVec.toNat_ofNat, Nat.mod_eq_of_lt (by omega)]
    rfl
  unfold served exceptionDispatcher
  split_ifs with h32 hbreak
  · exact iff_of_false (fun h => by cases h) fun h => h.2 (hthree.mp hbreak)
  · exact iff_of_true rfl ⟨h32, fun h => hbreak (hthree.mpr h)⟩
  · exact iff_of_false (fun h => by cases h) fun h => h32 h.1
  · exact iff_of_false (fun h => by cases h) fun h => h32 h.1
  · exact iff_of_false (fun h => by cases h) fun h => h32 h.1

/-- What the exception dispatcher is called with, by the code up to its call. -/
def entryFrame (compiled : Compiled D) (code : List Instr) (w : Cpu × Interrupts D) : Option ExceptionFrame :=
  (execAll compiled (code.takeWhile fun i => i ≠ .call .exception) w).map fun w =>
    ExceptionFrame.load w.1.mem (w.1.regs .rdi).toNat

theorem entryFrame_stub (hlt : vector < 32) (hroom : 176 ≤ (alignedRsp c.toCore).toNat)
    (hfurther : vector = 29 → 184 ≤ (alignedRsp c.toCore).toNat)
    (herror : error.isSome = decide (vector ∈ errorCodeVectors)) :
    entryFrame compiled (stub vector) (deliver gate error c, k) = some (framePassed c.toCore vector error) := by
  have hbefore : (stub vector).takeWhile (fun i => i ≠ .call .exception) =
      (stubWords vector).map Instr.pushImm ++ (pushes ++ [.movRsp .rdi]) := by
    rw [stub, if_pos hlt, exceptionStub_eq, stubWords]
    split_ifs
    · rfl
    · rfl
  rw [entryFrame, hbefore, execAll_calling, Option.map_some, calling_passed gate hroom hfurther herror]

/-- The stubs at the addresses of the sample table. -/
def sampleCode (a : U64) : List Instr := stub (a.toNat - 0x1000)

theorem sampleCode_linked : Linked sampleStubs sampleCode := by
  intro vector hv
  rw [StubAddresses.handler]
  split_ifs with h32 h48 h255
  · have hval : (sampleStubs.exceptionStubs ⟨vector, h32⟩).toNat - 0x1000 = vector := by
      change (BitVec.ofNat 64 (0x1000 + vector)).toNat - 0x1000 = vector
      rw [BitVec.toNat_ofNat]
      omega
    rw [sampleCode, hval]
  · have hval : (sampleStubs.irqStubs ⟨vector - 32, h48⟩).toNat - 0x1000 = vector := by
      change (BitVec.ofNat 64 (0x1020 + (vector - 32))).toNat - 0x1000 = vector
      rw [BitVec.toNat_ofNat]
      omega
    rw [sampleCode, hval]
  · have hval : sampleStubs.genericIrqStub.toNat - 0x1000 = 48 := by decide
    rw [sampleCode, hval, stub, stub, if_neg (by omega), if_neg (by omega), if_pos (by omega), if_neg h32,
      if_neg (by omega), if_pos h255]
  · have hval : sampleStubs.spuriousIrqStub.toNat - 0x1000 = 255 := by decide
    rw [sampleCode, hval, show vector = 255 by omega]

/-- Dispatchers that leave a zero in every register. -/
def sampleCompiled : Compiled D := fun _ w => w.1.withRegs fun _ => 0

theorem sampleCompiled_returning : Returning ∅ 0 (sampleCompiled (D := D)) where
  rsp _ _ _ := rfl
  mem _ _ _ _ _ _ := rfl

/-- A kernel program with interrupts on, its stack below `0x9000`. -/
def sampleCpu : Cpu := ⟨⟨fun _ => 7, 0x8FF0, 0x2000, 0x202, kernelCodeSelector, kernelDataSelector⟩, sampleTable, 0⟩

theorem sampleCpu_roomy : Roomy ∅ 0 sampleCpu.toCore where
  room := by decide
  apart _ hy := absurd hy (Set.notMem_empty _)

theorem sampleCpu_mem : sampleCpu.mem = sampleTable := by rw [sampleCpu]

theorem sampleCpu_table : (init sampleStubs .new).StandsAt sampleCpu.mem (0x4000#64).toNat := by
  rw [sampleCpu_mem, show (0x4000#64).toNat = 0x4000 from rfl]
  exact sampleTable_stands

end VenturaOS.Idt
