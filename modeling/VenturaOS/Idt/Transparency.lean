import VenturaOS.Idt.Accounting
import VenturaOS.Idt.Returns
import VenturaOS.Library.Interference

/-!
# Interrupts are transparent

A program is interrupted at any of its instructions, any number of times, by
whatever the local APIC offers. It computes what it would have computed alone,
and the kernel's state is that of the events, one after the other, as if there
were no program.
-/
namespace VenturaOS.Idt
open Library Gdt InterruptDescriptorTable

def tableBytes (base : U64) : Set ℕ := {y | base.toNat ≤ y ∧ y < base.toNat + 4096}

/-- The interrupts of this machine: they scratch the stack and the dispatchers' own bytes, and rely on the table. -/
def surroundings (own : Set ℕ) (depth : ℕ) (base : U64) : Surroundings Core where
  scratch := scratch own depth
  fixed := tableBytes base
  Fit c := Roomy own depth c ∧ ∀ y ∈ scratch own depth c, y ∉ tableBytes base
  apart h := h.2

variable {D : Type}

def Cpu.view (c : Cpu) : Core × Bytes := (c.toCore, c.mem)

/-- One instruction of the program, an interrupt while the interrupt flag is set, or an event that does not
involve the processor. -/
inductive Step (P : Program Core) (compiled : Compiled D) (code : U64 → List Instr) (idtr : DescriptorTablePointer) :
    Cpu × Interrupts D → Option (Event D) → Cpu × Interrupts D → Prop
  | instruction {c c' : Cpu} {k : Interrupts D} : c'.view = P.step c.view → c'.cr2 = c.cr2 →
      Step P compiled code idtr (c, k) none (c', k)
  | take {c : Cpu} {k : Interrupts D} {vector : ℕ} {w : Cpu × Interrupts D} : Cpu.interrupts c.toCore = true →
      k.lapic.pending = some vector → interrupt compiled code idtr vector none (c, k.accept vector) = some w →
      Step P compiled code idtr (c, k) (some (.take vector)) w
  | spurious {c : Cpu} {k : Interrupts D} {w : Cpu × Interrupts D} : Cpu.interrupts c.toCore = true →
      interrupt compiled code idtr spuriousVector none (c, k) = some w →
      Step P compiled code idtr (c, k) (some .spurious) w
  | aside {c : Cpu} {k : Interrupts D} {e : Event D} : Possible k e → (∀ vector, e ≠ .take vector) → e ≠ .spurious →
      Step P compiled code idtr (c, k) (some e) (c, handle k e)

section

variable {P : Program Core} {compiled : Compiled D} {own : Set ℕ} {depth : ℕ} {c c' : Cpu} {k k' : Interrupts D}
  {vector : ℕ} {stubs : StubAddresses} {idt : InterruptDescriptorTable} {base : U64} {code : U64 → List Instr}
  {m m' : Bytes} {ls : List (Option (Event D))}

theorem standsAt_congr (h : idt.StandsAt m base.toNat) (hsame : ∀ y ∈ tableBytes base, m' y = m y) :
    idt.StandsAt m' base.toNat := by
  intro v hv
  have hread {j n : ℕ} (hj : j + n ≤ 16) : m'.read (base.toNat + 16 * v + j) n = m.read (base.toNat + 16 * v + j) n := by
    apply Bytes.read_congr
    intro y hy hlt
    exact hsame y ⟨by omega, by omega⟩
  obtain ⟨h1, h2, h3, h4, h5, h6⟩ := h v hv
  exact ⟨(hread (j := 0) (by omega)).trans h1, (hread (by omega)).trans h2, (hread (by omega)).trans h3,
    (hread (by omega)).trans h4, (hread (by omega)).trans h5, (hread (by omega)).trans h6⟩

theorem served_hardware (hlow : 32 ≤ vector) (core : Core) (cr2 : U64) (k : Interrupts D) :
    served core cr2 vector none k = some (serveVector k vector) := by
  unfold served serveVector
  rw [if_neg (by omega)]
  split_ifs <;> rfl

theorem hardware_returns (hlink : Linked stubs code) (hidt : (init stubs idt).StandsAt m base.toNat)
    (habi : Returning own depth compiled) (hsup : (surroundings own depth base).Supports m c.view)
    (hlow : 32 ≤ vector) (hv : vector < 256) :
    EndsIn own depth c (interrupt compiled code (pointer base) vector none (c, k)) (some (serveVector k vector)) := by
  have hstands : (init stubs idt).StandsAt c.mem base.toNat := standsAt_congr hidt hsup.2
  have hends : EndsIn own depth c (interrupt compiled code (pointer base) vector none (c, k))
      (served c.toCore c.cr2 vector none k) :=
    interrupt_endsIn hlink hstands habi hsup.1.1 hv (by omega) (decide_eq_false (not_errorCode hlow)).symm
  rw [served_hardware hlow] at hends
  exact hends

/-- An event in a state that supports interrupts: the program goes on, and the kernel's state is served. -/
theorem step_serves {v w : Cpu × Interrupts D} {e : Event D} (hlink : Linked stubs code)
    (hidt : (init stubs idt).StandsAt m base.toNat) (habi : Returning own depth compiled) (hrest : Resting v.2)
    (hsup : (surroundings own depth base).Supports m v.1.view)
    (hstep : Step P compiled code (pointer base) v (some e) w) :
    Program.Agree ((surroundings own depth base).scratch v.1.view.1) v.1.view w.1.view ∧ Serving v.2 e w.2 := by
  cases hstep with
  | @take c k vector w _ hp hw =>
    have hrange := hrest.take_range hp
    have hends := hardware_returns (k := k.accept vector) hlink hidt habi hsup hrange.1 (by omega)
    rw [hw] at hends
    cases hends with
    | resumes hres => exact ⟨⟨hres.core, hres.mem⟩, hp, rfl⟩
  | @spurious c k w _ hw =>
    have hlow : 32 ≤ spuriousVector := by decide
    have hends := hardware_returns (k := k) hlink hidt habi hsup hlow (by decide)
    rw [hw] at hends
    cases hends with
    | resumes hres => exact ⟨⟨hres.core, hres.mem⟩, trivial, rfl⟩
  | aside hp _ _ => exact ⟨Program.Agree.refl _ _, hp, rfl⟩

def events (ls : List (Option (Event D))) : List (Event D) := ls.filterMap id

/-- The kernel's side of a run is a run of its own. -/
theorem run_serves {v w : Cpu × Interrupts D} (hlink : Linked stubs code) (hidt : (init stubs idt).StandsAt m base.toNat)
    (habi : Returning own depth compiled)
    (hrun : Run (fun v l w => (Resting v.2 ∧ (surroundings own depth base).Supports m v.1.view) ∧
      Step P compiled code (pointer base) v l w) v ls w) : Run Serving v.2 (events ls) w.2 := by
  induction hrun with
  | nil s => exact .nil s.2
  | @cons v t w l ls hstep _ ih =>
    obtain ⟨⟨hrest, hsup⟩, hstep⟩ := hstep
    cases l with
    | none =>
      cases hstep with
      | instruction _ _ => exact ih
    | some e => exact .cons (step_serves hlink hidt habi hrest hsup hstep).2 ih

end

/-- A program that counts in the byte at `0x100`. -/
def sampleProgram : Program Core where
  step x := (x.1, Function.update x.2 0x100 (x.2 0x100 + 1))
  reads _ := {0x100}
  writes _ := {0x100}
  core_congr _ := rfl
  mem_congr h y hy := by
    rw [Set.mem_singleton_iff] at hy
    subst hy
    simp only [Function.update_self]
    rw [h 0x100 rfl]
  frame _ _ y hy := Function.update_of_ne hy _ _

theorem sampleProgram_step (x : Core × Bytes) :
    sampleProgram.step x = (x.1, Function.update x.2 0x100 (x.2 0x100 + 1)) := rfl

/-- The processor after a step of the program. -/
def Cpu.count (c : Cpu) : Cpu := { c with mem := (sampleProgram.step c.view).2 }

theorem sample_scratch : scratch ∅ 0 sampleCpu.toCore = {y | 0x8F40 ≤ y ∧ y < 0x8FF0} := by
  have halign : (alignedRsp sampleCpu.toCore).toNat = 0x8FF0 := by decide
  have hrsp : sampleCpu.rsp.toNat = 0x8FF0 := by decide
  ext y
  simp only [scratch, Set.mem_ofPred_eq, halign, hrsp, Set.mem_empty_iff_false, false_or]

theorem sampleProgram_careful (n : ℕ) {x : Core × Bytes} {T : Set ℕ} (hcore : x.1 = sampleCpu.toCore) (hT : 0x100 ∉ T) :
    sampleProgram.Careful (surroundings ∅ 0 0x4000) n x T := by
  have hscratch : (surroundings ∅ 0 0x4000).scratch x.1 = {y | 0x8F40 ≤ y ∧ y < 0x8FF0} := by
    rw [hcore]
    exact sample_scratch
  have htable (y : ℕ) : y ∈ (surroundings ∅ 0 0x4000).fixed ↔ 0x4000 ≤ y ∧ y < 0x4000 + 4096 := Iff.rfl
  have hfit : (surroundings ∅ 0 0x4000).Fit x.1 := by
    refine ⟨by rw [hcore]; exact sampleCpu_roomy, fun y hy => ?_⟩
    change y ∈ (surroundings ∅ 0 0x4000).scratch x.1 at hy
    change ¬ y ∈ (surroundings ∅ 0 0x4000).fixed
    rw [hscratch, Set.mem_ofPred_eq] at hy
    rw [htable]
    omega
  induction n generalizing x T with
  | zero => exact hfit
  | succ n ih =>
    refine ⟨hfit, ?_, ?_, ih hcore (fun hmem => hmem.2 rfl) hscratch hfit⟩
    · rintro y rfl hmem
      rw [hscratch] at hmem
      rcases hmem with hmem | hmem
      · exact hT hmem
      · rw [Set.mem_ofPred_eq] at hmem
        omega
    · rintro y rfl
      rw [htable]
      omega

theorem sample_step {c : Cpu} {k : Interrupts Unit} :
    Step sampleProgram sampleCompiled sampleCode (pointer 0x4000) (c, k) none (c.count, k) := .instruction rfl rfl

end VenturaOS.Idt
