import VenturaOS.Idt.Table

/-!
# Every vector has its stub

The address of a stub survives being split over the fields of an entry, and
the loops of `init` reach all of the 256 vectors.
-/
namespace VenturaOS.Idt
open Library Gdt InterruptDescriptorTable

variable {m : Bytes} {stubs : StubAddresses} {idt : InterruptDescriptorTable} {base : U64} {v : ℕ}

/-- After `init` the entry of a vector holds the handler of that vector, whatever was there before. -/
theorem init_entries (stubs : StubAddresses) (idt : InterruptDescriptorTable) (hv : v < 256) :
    (init stubs idt).entries v = IdtEntry.missing.setHandler (stubs.handler v) := by
  obtain ⟨hexc, hexc'⟩ := foldl_setEntry idt (List.finRange 32) stubs.exceptionStubs Fin.val_injective
    (List.nodup_finRange 32) fun i _ => by omega
  unfold init
  generalize (List.finRange 32).foldl (fun idt vector => idt.setEntry vector.val (stubs.exceptionStubs vector)) idt = one
    at hexc hexc'
  have hinj : Function.Injective fun i : Fin 16 => irqBaseVector + i.val := fun i j h => Fin.ext (Nat.add_left_cancel h)
  obtain ⟨hirq, hirq'⟩ := foldl_setEntry one (List.finRange 16) stubs.irqStubs hinj (List.nodup_finRange 16)
    fun i _ => by unfold irqBaseVector; omega
  simp only
  generalize (List.finRange 16).foldl (fun idt irq => idt.setEntry (irqBaseVector + irq.val) (stubs.irqStubs irq)) one = two
    at hirq hirq'
  obtain ⟨hgen, hgen'⟩ := foldl_setEntry two (List.range' 48 (255 - 48)) (fun _ => stubs.genericIrqStub)
    Function.injective_id List.nodup_range'
    fun i hi => by rw [List.mem_range'_1] at hi; simp only [id]; omega
  simp only [id] at hgen hgen'
  generalize (List.range' 48 (255 - 48)).foldl (fun idt vector => idt.setEntry vector stubs.genericIrqStub) two = three
    at hgen hgen'
  unfold StubAddresses.handler
  split_ifs with h32 h48 h255
  · rw [setEntry_other (by unfold spuriousVector; omega), hgen' v fun i hi => by rw [List.mem_range'_1] at hi; omega,
      hirq' v fun i _ => by unfold irqBaseVector; omega]
    exact hexc ⟨v, h32⟩ (List.mem_finRange _)
  · have hirqv := hirq ⟨v - 32, h48⟩ (List.mem_finRange _)
    simp only [irqBaseVector, Nat.add_sub_cancel' (show 32 ≤ v by omega)] at hirqv
    rw [setEntry_other (by unfold spuriousVector; omega), hgen' v fun i hi => by rw [List.mem_range'_1] at hi; omega, hirqv]
    rfl
  · rw [setEntry_other (by unfold spuriousVector; omega), hgen v (by rw [List.mem_range'_1]; omega)]
    rfl
  · have hv : v = spuriousVector := by unfold spuriousVector; omega
    rw [hv, setEntry_self (by decide)]
    rfl

theorem handler_parts (a : U64) :
    ((a &&& 0xFFFF#64).setWidth 16).toNat + 2 ^ 16 * (((a >>> 16) &&& 0xFFFF#64).setWidth 16).toNat +
      2 ^ 32 * ((a >>> 32).setWidth 32).toNat = a.toNat := by
  have hlow : (a &&& 0xFFFF#64).toNat = a.toNat % 2 ^ 16 := toNat_and_mask (n := 16) (by omega)
  have hmid : ((a >>> 16) &&& 0xFFFF#64).toNat = a.toNat / 2 ^ 16 % 2 ^ 16 := by
    rw [← toNat_ushiftRight_div]
    exact toNat_and_mask (n := 16) (by omega)
  have hlt := a.isLt
  simp only [BitVec.toNat_setWidth, hlow, hmid, toNat_ushiftRight_div]
  omega

theorem readGate_init (h : (init stubs idt).StandsAt m base.toNat) (v : ℕ) :
    readGate m (pointer base) v =
      if v < 256 then some ⟨stubs.handler v, kernelCodeSelector, 0, true, 0⟩ else none := by
  have hlimit : (pointer base).limit.toNat = 4095 := rfl
  have hpointer : (pointer base).base = base := rfl
  by_cases hv : v < 256
  · have hentry := h v hv
    rw [init_entries stubs idt hv] at hentry
    have hattr : m.read (base.toNat + 16 * v + 5) 1 = 0x8E := hentry.typeAttr
    have hist : m.read (base.toNat + 16 * v + 4) 1 = 0 := hentry.ist
    have hselector : m.read (base.toNat + 16 * v + 2) 2 = kernelCodeSelector.toNat := hentry.selector
    have hoffset : m.read (base.toNat + 16 * v) 2 + 2 ^ 16 * m.read (base.toNat + 16 * v + 6) 2 +
        2 ^ 32 * m.read (base.toNat + 16 * v + 8) 4 = (stubs.handler v).toNat := by
      rw [hentry.offsetLow, hentry.offsetMid, hentry.offsetHigh]
      exact handler_parts (stubs.handler v)
    unfold readGate
    simp only [hlimit, hpointer, hattr, hist, hselector, hoffset]
    rw [if_neg (show ¬4095 < 16 * v + 15 by omega), if_pos hv, BitVec.ofNat_toNat, BitVec.setWidth_eq]
    rfl
  · unfold readGate
    simp only [hlimit]
    rw [if_pos (show 4095 < 16 * v + 15 by omega), if_neg hv]

/-- The processor finds for each vector an interrupt gate to its stub, on the current stack, and beyond the
last vector nothing. -/
theorem every_vector_has_its_stub (h : (init stubs idt).StandsAt m base.toNat) :
    (∀ v < 256, readGate m (pointer base) v = some ⟨stubs.handler v, kernelCodeSelector, 0, true, 0⟩) ∧
      ∀ v, 256 ≤ v → readGate m (pointer base) v = none := by
  constructor
  · intro v hv
    rw [readGate_init h, if_pos hv]
  · intro v hv
    rw [readGate_init h, if_neg (by omega)]

/-- Stubs at `0x1000` and above, each at an address that tells its vector. -/
def sampleStubs : StubAddresses where
  exceptionStubs v := BitVec.ofNat 64 (0x1000 + v.val)
  irqStubs irq := BitVec.ofNat 64 (0x1020 + irq.val)
  genericIrqStub := 0x1030
  spuriousIrqStub := 0x10FF

/-- The filled table at `0x4000`. -/
def sampleTable : Bytes := (init sampleStubs .new).store (fun _ => 0) 0x4000

theorem sampleTable_stands : (init sampleStubs .new).StandsAt sampleTable (0x4000 : U64).toNat := store_standsAt _ _ _

theorem every_vector_has_its_stub_sample :
    readGate sampleTable (pointer 0x4000) 33 = some ⟨0x1021, kernelCodeSelector, 0, true, 0⟩ :=
  (every_vector_has_its_stub sampleTable_stands).1 33 (by omega)

end VenturaOS.Idt
