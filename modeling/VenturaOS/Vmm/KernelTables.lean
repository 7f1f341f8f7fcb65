import VenturaOS.Paging.Hardware
import VenturaOS.Vmm.Mapping

/-!
# Kernel mappings under ownership

The policy of the running system: the kernel root owns every slot and the
managed frames its upper-half leaves point to; the root of an address space
owns the tables of slots 1 to 255 and no leaf frame. A kernel-side call may
add tables and move leaf frames below the kernel root. It leaves every other
tree and every present upper-level entry alone.
-/
namespace VenturaOS.Vmm
open Library Pmm Paging Memory

/-- A path through the upper half. -/
def upper : Path → Bool
  | [] => false
  | i :: _ => decide (kernelPml4Start ≤ i.val)

def kernelPolicy (k : U64) (F : Finset U64) : Policy where
  boot := k
  slot r i := decide (r = k ∨ (i ≠ 0 ∧ i.val < kernelPml4Start))
  leaf r p f := decide (r = k ∧ upper p = true ∧ f ∈ F)
  allowed r p f := r = k → upper p = true → f ∈ F ∨ 2 ^ 32 ≤ f.toNat

theorem upper_tablePath {v : VirtAddr} : upper v.tablePath = true ↔ 256 ≤ v.pml4Index.val := by
  rw [VirtAddr.tablePath, upper, decide_eq_true_eq, kernelPml4Start]

/-- The effect of kernel-side calls on everything except which leaf frame is where. -/
structure KernelStep (k : U64) (place place' : Placement) (s s' : PageMemory) : Prop where
  pool : s'.bootstrapPool = s.bootstrapPool
  mode : s'.isBootstrapping = s.isBootstrapping
  kept : ∀ {a r p}, place a = some (r, p) → r ≠ k ∨ p.length ≤ 3 → place' a = some (r, p)
  fresh : ∀ {a r p}, place' a = some (r, p) → r ≠ k ∨ p.length ≤ 3 →
    place a = some (r, p) ∨ (r = k ∧ p ≠ [])
  spaces : ∀ {a r p}, place a = some (r, p) → r ≠ k → s'.tables a = s.tables a
  upper : ∀ {a p} (i : Fin 512), place a = some (k, p) → p.length < 3 → (s.tables a i).isPresent = true →
    s'.tables a i = s.tables a i

/-- The same leaf frames stand below the kernel root. -/
def LeafSame (k : U64) (place place' : Placement) : Prop :=
  ∀ g q, q.length = 4 → (place' g = some (k, q) ↔ place g = some (k, q))

theorem LeafSame.refl (k : U64) (place : Placement) : LeafSame k place place := fun _ _ _ => Iff.rfl

/-- Every ignored result added to the log is `Ok`. -/
def LogOk (s s' : PageMemory) : Prop :=
  ∃ l, s'.discarded = s.discarded ++ l ∧ ∀ x ∈ l, x = Except.ok ()

theorem LogOk.refl (s : PageMemory) : LogOk s s := ⟨[], by simp, by simp⟩

theorem LogOk.of_eq {s s' : PageMemory} (h : s'.discarded = s.discarded) : LogOk s s' := ⟨[], by simp [h], by simp⟩

theorem LogOk.trans {s s' s'' : PageMemory} (h : LogOk s s') (h' : LogOk s' s'') : LogOk s s'' := by
  rcases h with ⟨l, hl, ho⟩
  rcases h' with ⟨l', hl', ho'⟩
  refine ⟨l ++ l', by rw [hl', hl, List.append_assoc], fun x hx => ?_⟩
  rcases List.mem_append.mp hx with hx | hx
  · exact ho x hx
  · exact ho' x hx

namespace KernelStep

variable {k : U64} {place place' place'' : Placement} {s s' s'' : PageMemory}

theorem refl (k : U64) (place : Placement) (s : PageMemory) : KernelStep k place place s s :=
  ⟨rfl, rfl, fun h _ => h, fun h _ => .inl h, fun _ _ => rfl, fun _ _ _ _ => rfl⟩

theorem trans (h : KernelStep k place place' s s') (h' : KernelStep k place' place'' s' s'') :
    KernelStep k place place'' s s'' where
  pool := h'.pool.trans h.pool
  mode := h'.mode.trans h.mode
  kept ha hc := h'.kept (h.kept ha hc) hc
  fresh {a r p} ha hc := by
    rcases h'.fresh ha hc with hmid | hnew
    · exact h.fresh hmid hc
    · exact .inr hnew
  spaces ha hr := (h'.spaces (h.kept ha (.inl hr)) hr).trans (h.spaces ha hr)
  upper i ha hp hpres := by
    have he := h.upper i ha hp hpres
    rw [h'.upper i (h.kept ha (.inr (by omega))) hp (by rw [he]; exact hpres), he]

theorem of_tables (hp : s'.bootstrapPool = s.bootstrapPool) (hm : s'.isBootstrapping = s.isBootstrapping)
    (ht : s'.tables = s.tables) : KernelStep k place place s s' :=
  ⟨hp, hm, fun h _ => h, fun h _ => .inl h, fun _ _ => by rw [ht], fun _ _ _ _ => by rw [ht]⟩

theorem of_grows {pol : Policy} (h : Grows pol k place place' s s') : KernelStep k place place' s s' where
  pool := h.boot.pool
  mode := h.boot.mode
  kept ha _ := h.kept ha
  fresh ha _ := (h.fresh ha).imp_right fun hnew => ⟨hnew.2.1, hnew.2.2.1⟩
  spaces {a r p} ha hr := by
    rcases h.local_writes a with he | ⟨q, hq⟩
    · exact he
    · rw [h.kept ha] at hq
      cases hq
      exact absurd rfl hr
  upper i ha _ hpres := h.present i ha hpres

end KernelStep

theorem LeafSame.of_grows {pol : Policy} {k : U64} {place place' : Placement} {s s' : PageMemory}
    (h : Grows pol k place place' s s') : LeafSame k place place' := by
  intro g q hq
  constructor
  · intro hg
    rcases h.fresh hg with hg | ⟨-, -, -, hlen⟩
    · exact hg
    · omega
  · exact h.kept

section

variable {k : U64} {F : Finset U64} {c : ℕ} {place place' : Placement} {held : Finset U64} {s s' : PageMemory}
  {f : U64} {v : VirtAddr} {flags : PageTableFlags}

theorem kernel_slot (i : Fin 512) : (kernelPolicy k F).slot k i = true := by simp [kernelPolicy]

theorem kernel_owns (p : Path) (i : Fin 512) : (kernelPolicy k F).Owns k p i := fun _ => kernel_slot i

/-- The entry step 0 writes for the large page at `a`. -/
def largeEntry (a : U64) : PageTableEntry :=
  .set (a &&& ~~~0x1FFFFF#64) (PageTableFlags.table.union PageTableFlags.hugePage)

theorem largeEntry_isPresent (a : U64) : (largeEntry a).isPresent = true := by
  rw [largeEntry, PageTableEntry.set_isPresent]
  decide

theorem largeEntry_isHuge (a : U64) : (largeEntry a).isHuge = true := by
  rw [largeEntry, PageTableEntry.set_isHuge]
  decide

theorem largeEntry_isWritable (a : U64) : (largeEntry a).isWritable = true := by
  rw [largeEntry, PageTableEntry.set_isWritable]
  decide

theorem largeEntry_link (a : U64) : (largeEntry a).link = none := by
  simp [PageTableEntry.link, largeEntry_isHuge]

theorem largeEntry_reserved (a : U64) : (largeEntry a).bits &&& 0x1FE000#64 = 0#64 := by
  have hbase : (a &&& ~~~0x1FFFFF#64) &&& 0x000FFFFFFFFFF000#64 &&& 0x1FE000#64 = 0#64 := by
    rw [BitVec.and_assoc, BitVec.and_assoc]
    exact BitVec.and_zero
  have hflags : (PageTableFlags.table.union PageTableFlags.hugePage).bits &&& 0x1FE000#64 = 0#64 := by decide
  rw [largeEntry, PageTableEntry.set, BitVec.and_or_distrib_right, hbase, hflags, BitVec.or_zero]

/-- The physical address a large entry gives to an address inside its 2 MiB. -/
theorem largeEntry_address {a x : U64} (ha : a.toNat = x.toNat / 0x200000 * 0x200000) (hx : x.toNat < 2 ^ 52) :
    ((largeEntry a).bits &&& 0x000FFFFFFFE00000#64) ||| (x &&& 0x1FFFFF#64) = x := by
  have hhigh (i : ℕ) (hi : 21 ≤ i) : a.getLsbD i = x.getLsbD i := by
    rw [BitVec.getLsbD, BitVec.getLsbD, ha, show (0x200000 : ℕ) = 2 ^ 21 from rfl, Nat.testBit_mul_two_pow,
      Nat.testBit_div_two_pow]
    simp [hi]
  have htop (i : ℕ) (hi : 52 ≤ i) : x.getLsbD i = false :=
    Nat.testBit_lt_two_pow (lt_of_lt_of_le hx (Nat.pow_le_pow_right (by omega) hi))
  apply BitVec.eq_of_getLsbD_eq
  intro i hi
  have hpage : ∀ i < 64, (0x000FFFFFFFE00000#64).getLsbD i = (decide (21 ≤ i) && decide (i < 52)) := by decide
  have hoffset : ∀ i < 64, (0x1FFFFF#64).getLsbD i = decide (i < 21) := by decide
  have hflags : ∀ i < 64, (PageTableFlags.table.union PageTableFlags.hugePage).bits.getLsbD i =
    (decide (i < 2) || decide (i = 7)) := by decide
  rw [largeEntry, PageTableEntry.set]
  simp only [BitVec.getLsbD_or, BitVec.getLsbD_and, BitVec.getLsbD_not, hpage i hi, hoffset i hi, hflags i hi,
    frameMask_bit hi, hi, decide_true, Bool.true_and]
  by_cases h21 : 21 ≤ i
  · by_cases h52 : i < 52
    · simp [h21, h52, hhigh i h21, show ¬ i < 21 by omega, show 12 ≤ i by omega]
      intro
      omega
    · simp [h52, htop i (by omega), show ¬ i < 21 by omega]
  · simp [h21, show i < 21 by omega]

/-- The directory below path `[0, i3]` maps its `i2`-th 2 MiB to themselves. -/
def LowPage (k : U64) (place : Placement) (s : PageMemory) (i3 i2 : Fin 512) : Prop :=
  ∃ pd a, place pd = some (k, [0, i3]) ∧ s.tables pd i2 = largeEntry a ∧
    a.toNat = (i3.val * 512 + i2.val) * 0x200000

/-- A large page covers each 2 MiB of the low 4 GiB. -/
def LowHuge (k : U64) (place : Placement) (s : PageMemory) : Prop :=
  ∀ i3 i2 : Fin 512, i3.val < 4 → LowPage k place s i3 i2

theorem LowPage.grows {pol : Policy} {i3 i2 : Fin 512} (h : LowPage k place s i3 i2)
    (hg : Grows pol k place place' s s') : LowPage k place' s' i3 i2 := by
  rcases h with ⟨pd, a, hpd, he, ha⟩
  have hsame := hg.present i2 hpd (by rw [he]; exact largeEntry_isPresent a)
  exact ⟨pd, a, hg.kept hpd, by rw [hsame, he], ha⟩

theorem LowHuge.grows {pol : Policy} (h : LowHuge k place s) (hg : Grows pol k place place' s s') :
    LowHuge k place' s' := fun i3 i2 hi => (h i3 i2 hi).grows hg

/-- An address of the low 4 GiB, up to its sign extension. -/
def IsLow (v : VirtAddr) : Prop := v.addr.toNat % 2 ^ 48 < 2 ^ 32

theorem IsLow.index (h : IsLow v) : v.pml4Index = 0 ∧ v.pdptIndex.val < 4 := by
  unfold IsLow at h
  constructor
  · rw [Fin.ext_iff, VirtAddr.pml4Index, VirtAddr.index_val, Fin.val_zero]
    omega
  · rw [VirtAddr.pdptIndex, VirtAddr.index_val]
    omega

/-- No leaf table stands over the low 4 GiB. -/
theorem LowHuge.not_low (hlow : LowHuge k place s) (h : Owned (kernelPolicy k F) F c place held s) {pt : U64}
    (hpt : place pt = some (k, v.tablePath)) : ¬ IsLow v := by
  intro hv
  rcases hv.index with ⟨h4, h3⟩
  rcases hlow v.pdptIndex v.pdIndex h3 with ⟨pd, a, hpd, hlarge, -⟩
  rw [VirtAddr.tablePath, h4] at hpt
  rcases h.forest.parent (show place pt = some (k, [0, v.pdptIndex] ++ [v.pdIndex]) from hpt) with ⟨b, hb, he⟩
  rw [h.forest.place_inj hb hpd, Policy.edge_table (by simp) (kernel_owns _ _), PageTableEntry.link_eq_some] at he
  simp [hlarge, largeEntry_isHuge] at he

/-- Kernel-side calls leave the large pages alone. -/
theorem LowHuge.kernelStep (hlow : LowHuge k place s) (h : KernelStep k place place' s s') : LowHuge k place' s' := by
  intro i3 i2 hi
  rcases hlow i3 i2 hi with ⟨pd, a, hpd, hlarge, ha⟩
  refine ⟨pd, a, h.kept hpd (.inr (by simp)), ?_, ha⟩
  rw [h.upper i2 hpd (by simp) (by rw [hlarge]; exact largeEntry_isPresent a), hlarge]

/-- Flags of kernel leaves: present, and disjoint from the frame field. -/
def LeafFlags (flags : PageTableFlags) : Prop := flags.bits.getLsbD 0 = true ∧ flags.Clear

theorem kernel_edge_set (h : Owned (kernelPolicy k F) F c place held s) (hF : f ∈ F) (hflags : LeafFlags flags)
    {p : Path} (hp : p.length = 3) (hup : upper p = true) (i : Fin 512) :
    (kernelPolicy k F).edge k p i (.set f flags) = some f := by
  have haddr := h.frames.address hF
  have hframe : IsFrame f := ⟨haddr.1, by omega⟩
  have hphys := PageTableEntry.set_physAddr hframe hflags.2
  rw [Policy.edge_leaf hp, PageTableEntry.set_isPresent, hphys, if_pos]
  exact ⟨hflags.1, by simp [kernelPolicy, hF, hup]⟩

theorem writeLeaf_step {pt : U64} (hpt : place pt = some (k, v.tablePath)) (e : PageTableEntry)
    (hkept : ∀ {a r p}, place a = some (r, p) → r ≠ k ∨ p.length ≤ 3 → place' a = some (r, p))
    (hback : ∀ {a r p}, place' a = some (r, p) → r ≠ k ∨ p.length ≤ 3 → place a = some (r, p)) :
    KernelStep k place place' s (s.writeEntry pt v.ptIndex e) := by
  refine ⟨rfl, rfl, hkept, fun ha hcond => .inl (hback ha hcond), ?_, ?_⟩
  · intro a r p ha hr
    funext j
    rw [writeEntry_tables, if_neg]
    rintro ⟨rfl, -⟩
    rw [hpt] at ha
    cases ha
    exact hr rfl
  · intro a p j ha hp _
    rw [writeEntry_tables, if_neg]
    rintro ⟨rfl, -⟩
    rw [hpt] at ha
    cases ha
    rw [v.tablePath_length] at hp
    omega

/-- Mapping a held frame below the kernel root: the leaf takes the frame over, or nothing is mapped. -/
theorem kernelMap (h : Owned (kernelPolicy k F) F c place held s) (hk : place k = some (k, []))
    (hlow : LowHuge k place s) (hmode : s.isBootstrapping = false) (hf : f ∈ held) (hF : f ∈ F)
    (hflags : LeafFlags flags) (hv : 256 ≤ v.pml4Index.val ∨ IsLow v) :
    (∃ place' s', mapPage ⟨k⟩ v ⟨f⟩ flags s = (.ok (), s') ∧
      Owned (kernelPolicy k F) F c place' (held.erase f) s' ∧ KernelStep k place place' s s' ∧
      s'.discarded = s.discarded ∧ isCanonical v.addr = true ∧ v.isAligned = true ∧ 256 ≤ v.pml4Index.val ∧
      (∀ g, place g ≠ some (k, v.path)) ∧
      ∀ g q, q.length = 4 → (place' g = some (k, q) ↔ place g = some (k, q) ∨ (g = f ∧ q = v.path))) ∨
    ∃ e place' s', mapPage ⟨k⟩ v ⟨f⟩ flags s = (.error e, s') ∧
      Owned (kernelPolicy k F) F c place' held s' ∧ KernelStep k place place' s s' ∧
      s'.discarded = s.discarded ∧ LeafSame k place place' := by
  have haddr := h.frames.address hF
  by_cases hargs : isCanonical v.addr = true ∧ v.isAligned = true ∧ (⟨f⟩ : PhysPage).addr.toNat % pageSize = 0
  · rcases hargs with ⟨hc, hal, hph⟩
    rcases h.mapPage_cases hk (kernel_slot _) (by simp [hmode]) hc hal hph flags with
      ⟨place₁, s₁, ho, hg, -, ⟨pt, he, hpt, habs, hlook, -⟩ | ⟨he, -⟩ | ⟨he, -⟩⟩
    · have hup : upper v.tablePath = true := by
        rcases hv with hv | hv
        · exact upper_tablePath.mpr hv
        · exact absurd hv ((hlow.grows hg).not_low ho hpt)
      have hfplace : place₁ f = none := (ho.held_inUse hf).2
      have hold : (kernelPolicy k F).edge k v.tablePath v.ptIndex (s₁.tables pt v.ptIndex) = none :=
        Policy.edge_of_not_present habs
      have ho' := ho.writeLeaf_take hf hF hpt v.tablePath_length hold
        (kernel_edge_set h hF hflags v.tablePath_length hup _) (fun _ _ _ => by
          rw [PageTableEntry.set_physAddr ⟨haddr.1, by omega⟩ hflags.2]
          exact .inl hF)
      have hvacant : ∀ g, place g ≠ some (k, v.path) := by
        intro g hgp
        rcases ho.forest.parent (show place₁ g = some (k, v.tablePath ++ [v.ptIndex]) from hg.kept hgp) with
          ⟨t, ht, het⟩
        rw [ho.forest.place_inj ht hpt, hold] at het
        cases het
      refine .inl ⟨_, _, he, ho', ?_, hg.boot.log, hc, hal, upper_tablePath.mp hup, hvacant, ?_⟩
      · refine (KernelStep.of_grows hg).trans (writeLeaf_step hpt _ ?_ ?_)
        · intro a r p ha _
          rw [Function.update_of_ne, ha]
          rintro rfl
          simp [hfplace] at ha
        · intro a r p ha hcond
          rcases Forest.placed_cases ha with ⟨-, hx⟩ | ⟨-, ha⟩
          · cases hx
            rcases hcond with hne | hlen
            · exact absurd rfl hne
            · rw [List.length_append, v.tablePath_length] at hlen
              simp at hlen
          · exact ha
      · intro g q hq
        by_cases hgf : g = f
        · subst hgf
          rw [Function.update_self, Option.some.injEq, Prod.mk.injEq]
          constructor
          · rintro ⟨-, rfl⟩
            exact .inr ⟨rfl, rfl⟩
          · rintro (hplace | ⟨-, rfl⟩)
            · rw [hg.kept hplace] at hfplace
              cases hfplace
            · exact ⟨rfl, rfl⟩
        · rw [Function.update_of_ne hgf, LeafSame.of_grows hg g q hq]
          simp [hgf]
    · exact .inr ⟨_, place₁, s₁, he, ho, .of_grows hg, hg.boot.log, .of_grows hg⟩
    · exact .inr ⟨_, place₁, s₁, he, ho, .of_grows hg, hg.boot.log, .of_grows hg⟩
  · rcases mapPage_refused ⟨k⟩ flags s hargs with ⟨e, he⟩
    exact .inr ⟨e, place, s, he, h, .refl .., rfl, fun _ _ _ => Iff.rfl⟩

/-- Unmapping a page whose leaf frame is known hands that frame to the caller. -/
theorem kernelUnmap (h : Owned (kernelPolicy k F) F c place held s) (hf : place f = some (k, v.path))
    (hc : isCanonical v.addr = true) (hal : v.isAligned = true) :
    ∃ s', unmapPage ⟨k⟩ v s = (.ok ⟨f⟩, s') ∧
      Owned (kernelPolicy k F) F c (Function.update place f none) (insert f held) s' ∧
      KernelStep k place (Function.update place f none) s s' ∧ s'.discarded = s.discarded := by
  rcases h.forest.parent (show place f = some (k, v.tablePath ++ [v.ptIndex]) from hf) with ⟨pt, hpt, he⟩
  have hrel := h.clearLeaf_release hpt v.tablePath_length he
  rw [Policy.edge_leaf v.tablePath_length] at he
  split_ifs at he with hleaf
  have hun : unmapPage ⟨k⟩ v s = (.ok ⟨f⟩, s.writeEntry pt v.ptIndex .empty) := by
    rw [h.unmapPage_placed kernel_owns hc hal hpt hleaf.1, Option.some.inj he]
  refine ⟨_, hun, hrel.1, writeLeaf_step hpt _ ?_ ?_, rfl⟩
  · intro a r p ha hcond
    rw [Function.update_of_ne, ha]
    rintro rfl
    rw [hf] at ha
    cases ha
    rcases hcond with hne | hlen
    · exact hne rfl
    · rw [v.path_length] at hlen
      omega
  · intro a r p ha _
    exact (Forest.unplaced_cases ha).2

end
end VenturaOS.Vmm
