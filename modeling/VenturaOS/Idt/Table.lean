import VenturaOS.Gdt.Model
import VenturaOS.Library.Fields

/-!
# The interrupt descriptor table

`idt.rs`: 256 gates of sixteen bytes, each with the address of a stub split
over three fields. `init` fills every one of them.
-/
namespace VenturaOS.Idt
open Library Gdt

def irqBaseVector : ℕ := 32
def spuriousVector : ℕ := 255

structure IdtEntry where
  offsetLow : BitVec 16
  selector : BitVec 16
  ist : BitVec 8
  typeAttr : BitVec 8
  offsetMid : BitVec 16
  offsetHigh : BitVec 32
  reserved : BitVec 32
deriving DecidableEq, Repr

namespace IdtEntry

/-- Size of an entry, which is `repr(C, packed)`. -/
def bytes : ℕ := 16

def missing : IdtEntry := ⟨0, 0, 0, 0, 0, 0, 0⟩

/-- `set_handler`; every field is overwritten. -/
def setHandler (_ : IdtEntry) (handler : U64) : IdtEntry where
  offsetLow := (handler &&& 0xFFFF#64).setWidth 16
  selector := kernelCodeSelector
  ist := 0
  typeAttr := 0x8E
  offsetMid := ((handler >>> 16) &&& 0xFFFF#64).setWidth 16
  offsetHigh := (handler >>> 32).setWidth 32
  reserved := 0

/-- The entry stands in memory at `a`. -/
structure StandsAt (e : IdtEntry) (m : Bytes) (a : ℕ) : Prop where
  offsetLow : m.read a 2 = e.offsetLow.toNat
  selector : m.read (a + 2) 2 = e.selector.toNat
  ist : m.read (a + 4) 1 = e.ist.toNat
  typeAttr : m.read (a + 5) 1 = e.typeAttr.toNat
  offsetMid : m.read (a + 6) 2 = e.offsetMid.toNat
  offsetHigh : m.read (a + 8) 4 = e.offsetHigh.toNat

/-- The entry as one number. -/
def word (e : IdtEntry) : ℕ :=
  e.offsetLow.toNat + 2 ^ 16 * (e.selector.toNat + 2 ^ 16 * (e.ist.toNat + 2 ^ 8 * (e.typeAttr.toNat +
    2 ^ 8 * (e.offsetMid.toNat + 2 ^ 16 * (e.offsetHigh.toNat + 2 ^ 32 * e.reserved.toNat)))))

variable {e : IdtEntry} {m : Bytes} {a : ℕ}

theorem word_lt (e : IdtEntry) : e.word < 256 ^ 16 := by
  have h1 := e.offsetLow.isLt
  have h2 := e.selector.isLt
  have h3 := e.ist.isLt
  have h4 := e.typeAttr.isLt
  have h5 := e.offsetMid.isLt
  have h6 := e.offsetHigh.isLt
  have h7 := e.reserved.isLt
  unfold word
  omega

theorem standsAt_of_word (h : m.read a 16 = e.word) : e.StandsAt m a := by
  have h1 := e.offsetLow.isLt
  have h2 := e.selector.isLt
  have h3 := e.ist.isLt
  have h4 := e.typeAttr.isLt
  have h5 := e.offsetMid.isLt
  have h6 := e.offsetHigh.isLt
  have hfield (j n k : ℕ) (hjnk : j + n + k = 16) : m.read (a + j) n = e.word / 256 ^ j % 256 ^ n :=
    Bytes.read_field (by rw [hjnk]; exact h)
  unfold word at hfield
  constructor
  · have hlow := hfield 0 2 14 rfl
    rw [Nat.add_zero] at hlow
    omega
  · have hselector := hfield 2 2 12 rfl
    omega
  · have hist := hfield 4 1 11 rfl
    omega
  · have hattr := hfield 5 1 10 rfl
    omega
  · have hmid := hfield 6 2 8 rfl
    omega
  · have hhigh := hfield 8 4 4 rfl
    omega

end IdtEntry

structure InterruptDescriptorTable where
  entries : ℕ → IdtEntry

namespace InterruptDescriptorTable

def new : InterruptDescriptorTable := ⟨fun _ => .missing⟩

def setEntry (idt : InterruptDescriptorTable) (vector : ℕ) (handler : U64) : InterruptDescriptorTable :=
  if vector < 256 then ⟨Function.update idt.entries vector ((idt.entries vector).setHandler handler)⟩ else idt

/-- `pointer`, of the table at `self`. -/
def pointer (self : U64) : DescriptorTablePointer := ⟨BitVec.ofNat 16 (256 * IdtEntry.bytes - 1), self⟩

def StandsAt (idt : InterruptDescriptorTable) (m : Bytes) (a : ℕ) : Prop :=
  ∀ vector < 256, (idt.entries vector).StandsAt m (a + 16 * vector)

def store (idt : InterruptDescriptorTable) (m : Bytes) (a : ℕ) : Bytes :=
  m.writeAll 16 a ((List.range 256).map fun vector => (idt.entries vector).word)

theorem store_standsAt (idt : InterruptDescriptorTable) (m : Bytes) (a : ℕ) : idt.StandsAt (idt.store m a) a := by
  intro vector hv
  have hall : (idt.store m a).Holds 16 a ((List.range 256).map fun vector => (idt.entries vector).word) := by
    apply Bytes.holds_writeAll
    intro w hw
    obtain ⟨v, -, rfl⟩ := List.mem_map.mp hw
    exact (idt.entries v).word_lt
  apply IdtEntry.standsAt_of_word
  rw [hall.get (by rwa [List.length_map, List.length_range]), List.getElem_map, List.getElem_range]

end InterruptDescriptorTable

/-- The addresses of the assembly stubs. -/
structure StubAddresses where
  exceptionStubs : Fin 32 → U64
  irqStubs : Fin 16 → U64
  genericIrqStub : U64
  spuriousIrqStub : U64

/-- `init`, up to loading the table. -/
def init (stubs : StubAddresses) (idt : InterruptDescriptorTable) : InterruptDescriptorTable :=
  let idt := (List.finRange 32).foldl (fun idt vector => idt.setEntry vector.val (stubs.exceptionStubs vector)) idt
  let idt := (List.finRange 16).foldl (fun idt irq => idt.setEntry (irqBaseVector + irq.val) (stubs.irqStubs irq)) idt
  let idt := (List.range' 48 (255 - 48)).foldl (fun idt vector => idt.setEntry vector stubs.genericIrqStub) idt
  idt.setEntry spuriousVector stubs.spuriousIrqStub

/-- A gate as the processor reads it. -/
structure Gate where
  offset : U64
  selector : BitVec 16
  ist : ℕ
  /-- An interrupt gate clears IF, a trap gate does not. -/
  isInterrupt : Bool
  dpl : ℕ
deriving DecidableEq, Repr

/-- The processor reads the gate of a vector: none beyond the limit, where the present bit is clear, or where
the type is neither that of an interrupt gate nor that of a trap gate. -/
def readGate (m : Bytes) (ptr : DescriptorTablePointer) (vector : ℕ) : Option Gate :=
  let a := ptr.base.toNat + 16 * vector
  let attr := m.read (a + 5) 1
  if ptr.limit.toNat < 16 * vector + 15 then none
  else if !attr.testBit 7 then none
  else if attr % 32 ≠ 0xE ∧ attr % 32 ≠ 0xF then none
  else
    some
      { offset := BitVec.ofNat 64 (m.read a 2 + 2 ^ 16 * m.read (a + 6) 2 + 2 ^ 32 * m.read (a + 8) 4)
        selector := BitVec.ofNat 16 (m.read (a + 2) 2)
        ist := m.read (a + 4) 1 % 8
        isInterrupt := attr % 32 = 0xE
        dpl := attr / 32 % 4 }

/-- The stub that handles a vector. -/
def StubAddresses.handler (stubs : StubAddresses) (vector : ℕ) : U64 :=
  if h : vector < 32 then stubs.exceptionStubs ⟨vector, h⟩
  else if h : vector - 32 < 16 then stubs.irqStubs ⟨vector - 32, h⟩
  else if vector < 255 then stubs.genericIrqStub
  else stubs.spuriousIrqStub

namespace InterruptDescriptorTable

variable {idt : InterruptDescriptorTable} {v w : ℕ} {a : U64}

theorem setEntry_self (h : v < 256) : (idt.setEntry v a).entries v = (idt.entries v).setHandler a := by
  rw [setEntry, if_pos h]
  exact Function.update_self _ _ _

theorem setEntry_other (h : w ≠ v) : (idt.setEntry v a).entries w = idt.entries w := by
  unfold setEntry
  split_ifs
  · exact Function.update_of_ne h _ _
  · rfl

/-- A loop that sets the entry of each element: those it passes hold their handler, the others are untouched. -/
theorem foldl_setEntry {ι : Type*} (idt : InterruptDescriptorTable) (l : List ι) {vector : ι → ℕ} (handler : ι → U64) (hinj : Function.Injective vector)
    (hnodup : l.Nodup) (hlt : ∀ i ∈ l, vector i < 256) :
    (∀ i ∈ l, (l.foldl (fun idt i => idt.setEntry (vector i) (handler i)) idt).entries (vector i) =
        (idt.entries (vector i)).setHandler (handler i)) ∧
      ∀ w, (∀ i ∈ l, vector i ≠ w) →
        (l.foldl (fun idt i => idt.setEntry (vector i) (handler i)) idt).entries w = idt.entries w := by
  induction l generalizing idt with
  | nil => exact ⟨by simp, fun _ _ => rfl⟩
  | cons j l ih =>
    rw [List.nodup_cons] at hnodup
    obtain ⟨hin, hout⟩ := ih (idt.setEntry (vector j) (handler j)) hnodup.2
      fun i hi => hlt i (List.mem_cons_of_mem j hi)
    constructor
    · intro i hi
      rw [List.foldl_cons]
      rcases List.mem_cons.mp hi with rfl | hi
      · rw [hout (vector i) fun k hk heq => hnodup.1 (hinj heq ▸ hk)]
        exact setEntry_self (hlt i List.mem_cons_self)
      · rw [hin i hi, setEntry_other]
        intro heq
        exact hnodup.1 (hinj heq ▸ hi)
    · intro w hw
      rw [List.foldl_cons, hout w fun i hi => hw i (List.mem_cons_of_mem j hi), setEntry_other]
      exact (hw j List.mem_cons_self).symm

end InterruptDescriptorTable

end VenturaOS.Idt
