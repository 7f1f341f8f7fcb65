import VenturaOS.AddressSpace.Model
import VenturaOS.Vmm.RegionCalls

/-!
# Private trees

What the calls on one address space may touch: a new root copies the shared
entries and owns nothing yet; mapping and unmapping write only tables placed
below that root.
-/
namespace VenturaOS.AddressSpaces
open Library Memory Pmm Paging Vmm

variable {k : U64} {F : Finset U64} {c : ℕ} {place place' : Placement} {held : Finset U64} {s s' : PageMemory}
  {r f : U64} {v : VirtAddr}

section Calls

variable {space : AddressSpace}

/-- On a private page the calls change the page memory alone, as the mapper does. -/
theorem mapPage_state (hv : isPrivateAddr v = true) (phys : PhysPage) (flags : PageTableFlags) (k : Kernel) :
    (mapPage space v phys flags k).2 = { k with mem := (Paging.mapPage space.rootPage v phys flags k.mem).2 } := by
  unfold mapPage
  rw [hv, Bool.not_true, if_neg Bool.false_ne_true]
  split
  · rename_i h
    rw [h]
  · rename_i h
    rw [h]

theorem unmapPage_state (hv : isPrivateAddr v = true) (k : Kernel) :
    (unmapPage space v k).2 = { k with mem := (Paging.unmapPage space.rootPage v k.mem).2 } := by
  unfold unmapPage
  rw [hv, Bool.not_true, if_neg Bool.false_ne_true]
  split
  · rename_i h
    rw [h]
  · rename_i h
    rw [h]

theorem mapPage_foreign (hv : ¬isPrivateAddr v = true) (phys : PhysPage) (flags : PageTableFlags) (k : Kernel) :
    (mapPage space v phys flags k).2 = k := by
  simp [mapPage, hv]

theorem unmapPage_foreign (hv : ¬isPrivateAddr v = true) (k : Kernel) : (unmapPage space v k).2 = k := by
  simp [unmapPage, hv]

end Calls

/-- The effect of a call on the space with root `r`. -/
structure PrivateStep (r : U64) (place place' : Placement) (s s' : PageMemory) : Prop where
  boot : SameBoot s s'
  kept : ∀ {a x}, place a = some x → place' a = some x
  fresh : ∀ {a r' p}, place' a = some (r', p) → place a = some (r', p) ∨ (r' = r ∧ p ≠ [] ∧ p.length ≤ 3)
  local_writes : ∀ a, s'.tables a = s.tables a ∨ ∃ p, place' a = some (r, p)
  upper : ∀ {a p} (i : Fin 512), place a = some (r, p) → p.length < 3 → (s.tables a i).isPresent = true →
    s'.tables a i = s.tables a i

theorem PrivateStep.refl (r : U64) (place : Placement) (s : PageMemory) : PrivateStep r place place s s :=
  ⟨.refl s, id, .inl, fun _ => .inl rfl, fun _ _ _ _ => rfl⟩

theorem PrivateStep.of_grows {pol : Policy} (h : Grows pol r place place' s s') :
    PrivateStep r place place' s s' :=
  ⟨h.boot, h.kept, fun ha => (h.fresh ha).imp_right fun hn => hn.2, h.local_writes,
    fun i ha _ hp => h.present i ha hp⟩

theorem PrivateStep.other (h : PrivateStep r place place' s s') {a r' : U64} {p : Path}
    (ha : place a = some (r', p)) (hr : r' ≠ r) : s'.tables a = s.tables a := by
  rcases h.local_writes a with he | ⟨q, hq⟩
  · exact he
  · rw [h.kept ha] at hq
    cases hq
    exact absurd rfl hr

/-- It moves no leaf frame of the kernel's. -/
theorem PrivateStep.leafSame (h : PrivateStep r place place' s s') : LeafSame k place place' := by
  intro g q hq
  constructor
  · intro hg
    rcases h.fresh hg with hg | ⟨-, -, hlen⟩
    · exact hg
    · omega
  · exact h.kept

theorem private_slot (hv : isPrivateAddr v = true) : (kernelPolicy k F).slot r v.pml4Index = true := by
  simp only [isPrivateAddr, Bool.and_eq_true, decide_eq_true_eq] at hv
  simp only [kernelPolicy, decide_eq_true_eq]
  exact .inr hv

theorem private_edge (hr : r ≠ k) {p : Path} (hp : p.length = 3) (i : Fin 512) (e : PageTableEntry) :
    (kernelPolicy k F).edge r p i e = none := by
  rw [Policy.edge_leaf hp, if_neg (by simp [kernelPolicy, hr])]

theorem private_lower (hv : isPrivateAddr v = true) : upper v.tablePath = false := by
  simp only [isPrivateAddr, Bool.and_eq_true, decide_eq_true_eq] at hv
  rw [VirtAddr.tablePath, upper, decide_eq_false_iff_not]
  omega

/-- Leaves at private addresses own nothing, below any root. -/
theorem private_leaf (hv : isPrivateAddr v = true) (e : PageTableEntry) :
    (kernelPolicy k F).edge r v.tablePath v.ptIndex e = none := by
  rw [Policy.edge_leaf v.tablePath_length, if_neg (by simp [kernelPolicy, private_lower hv])]

theorem private_length (h : Owned (kernelPolicy k F) F c place held s) (hr : r ≠ k) {a : U64} {p : Path}
    (ha : place a = some (r, p)) : p.length ≤ 3 := by
  have hle := h.length_le ha
  by_contra hlt
  rcases List.eq_nil_or_concat p with rfl | ⟨q, i, rfl⟩
  · simp at hlt
  · rw [List.concat_eq_append, List.length_append, List.length_singleton] at hle hlt
    rw [List.concat_eq_append] at ha
    rcases h.forest.parent ha with ⟨b, -, he⟩
    rw [private_edge hr (by omega)] at he
    cases he

/-- A leaf write at a private address moves no frame. -/
theorem private_writeLeaf (h : Owned (kernelPolicy k F) F c place held s) (hv : isPrivateAddr v = true) {pt : U64}
    (hpt : place pt = some (r, v.tablePath)) (e : PageTableEntry) :
    Owned (kernelPolicy k F) F c place held (s.writeEntry pt v.ptIndex e) ∧
      PrivateStep r place place s (s.writeEntry pt v.ptIndex e) := by
  refine ⟨h.writeLeaf hpt v.tablePath_length (private_leaf hv _) (private_leaf hv _)
    (fun _ _ hup => by simp [private_lower hv] at hup), ⟨rfl, rfl, rfl⟩, id, .inl, ?_, ?_⟩
  · intro a
    by_cases ha : a = pt
    · subst ha
      exact .inr ⟨_, hpt⟩
    · exact .inl (Function.update_of_ne ha _ _)
  · intro a p i ha hp _
    rw [writeEntry_tables, if_neg]
    rintro ⟨rfl, -⟩
    rw [hpt] at ha
    cases ha
    rw [v.tablePath_length] at hp
    omega

theorem PrivateStep.trans {place'' : Placement} {s'' : PageMemory} (h : PrivateStep r place place' s s')
    (h' : PrivateStep r place' place'' s' s'') : PrivateStep r place place'' s s'' where
  boot := h.boot.trans h'.boot
  kept ha := h'.kept (h.kept ha)
  fresh ha := by
    rcases h'.fresh ha with ha | hn
    · exact h.fresh ha
    · exact .inr hn
  local_writes a := by
    rcases h'.local_writes a with he | hp
    · rcases h.local_writes a with he' | ⟨p, hp⟩
      · exact .inl (he.trans he')
      · exact .inr ⟨p, h'.kept hp⟩
    · exact .inr hp
  upper i ha hp hpres := by
    have he := h.upper i ha hp hpres
    rw [h'.upper i (h.kept ha) hp (by rw [he]; exact hpres), he]

/-- `map_page` on a private address, whatever the frame and flags and whether or not it succeeds. -/
theorem privateMap (h : Owned (kernelPolicy k F) F c place held s) (hroot : place r = some (r, []))
    (hmode : s.isBootstrapping = false) (hv : isPrivateAddr v = true) (phys : PhysPage) (flags : PageTableFlags) :
    ∃ place', Owned (kernelPolicy k F) F c place' held (Paging.mapPage ⟨r⟩ v phys flags s).2 ∧
      PrivateStep r place place' s (Paging.mapPage ⟨r⟩ v phys flags s).2 := by
  by_cases hargs : isCanonical v.addr = true ∧ v.isAligned = true ∧ phys.addr.toNat % pageSize = 0
  · rcases hargs with ⟨hc, hal, hph⟩
    rcases h.mapPage_cases hroot (private_slot hv) (by simp [hmode]) hc hal hph flags with
      ⟨place₁, s₁, ho, hg, -, ⟨pt, he, hpt, -⟩ | ⟨he, -⟩ | ⟨he, -⟩⟩
    · rw [he]
      rcases private_writeLeaf ho hv hpt (.set phys.addr flags) with ⟨ho', hstep⟩
      exact ⟨place₁, ho', (PrivateStep.of_grows hg).trans hstep⟩
    · rw [he]
      exact ⟨place₁, ho, .of_grows hg⟩
    · rw [he]
      exact ⟨place₁, ho, .of_grows hg⟩
  · rcases mapPage_refused ⟨r⟩ flags s hargs with ⟨e, he⟩
    rw [he]
    exact ⟨place, h, .refl ..⟩

theorem privateUnmap (h : Owned (kernelPolicy k F) F c place held s) (hroot : place r = some (r, []))
    (hv : isPrivateAddr v = true) :
    Owned (kernelPolicy k F) F c place held (Paging.unmapPage ⟨r⟩ v s).2 ∧
      PrivateStep r place place s (Paging.unmapPage ⟨r⟩ v s).2 := by
  by_cases hc : isCanonical v.addr = true
  · by_cases hal : v.isAligned = true
    · have hne : v.pml4Index ≠ 0 := by
        simp only [isPrivateAddr, Bool.and_eq_true, decide_eq_true_eq] at hv
        exact hv.1
      rcases h.leaf_cases hroot (private_slot hv) (fun _ => hne) hc with
        ⟨pt, hpt, -, -, -, he⟩ | ⟨-, -, e, he⟩
      · rw [he hal]
        exact private_writeLeaf h hv hpt .empty
      · rw [he]
        exact ⟨h, .refl ..⟩
    · have he : Paging.unmapPage ⟨r⟩ v s = (.error .unalignedVirtualAddress, s) := by simp [Paging.unmapPage, hc, hal]
      rw [he]
      exact ⟨h, .refl ..⟩
  · have he : Paging.unmapPage ⟨r⟩ v s = (.error .nonCanonicalAddress, s) := by simp [Paging.unmapPage, hc]
    rw [he]
    exact ⟨h, .refl ..⟩

/-- A held frame becomes a root whose private slots are empty. -/
theorem newRoot (h : Owned (kernelPolicy k F) F c place held s) (hk : place k = some (k, [])) (hf : f ∈ held)
    (hF : f ∈ F) {t : PageTable} (hshared : ∀ i, isShared i = true → t i = s.tables k i)
    (hprivate : ∀ i, isShared i = false → t i = .empty) :
    Owned (kernelPolicy k F) F c (Function.update place f (some (f, []))) (held.erase f) (s.writeTable f t) := by
  rcases h.held_inUse hf with ⟨hin, hplace⟩
  have hfk : f ≠ k := by
    rintro rfl
    simp [hplace] at hk
  have hself : (s.writeTable f t).tables f = t := Function.update_self _ _ _
  refine (h.writeTable_unplaced hplace t).addRoot hf (.inl hF) (fun j => ?_) (fun j hpres => ?_)
  · rw [hself]
    cases hs : isShared j with
    | true =>
      rw [Policy.edge, if_pos (by simp), if_pos]
      refine ⟨rfl, ?_⟩
      simp only [isShared, Bool.or_eq_true, decide_eq_true_eq] at hs
      simp only [kernelPolicy, decide_eq_false_iff_not, not_or, not_and_or, not_not, not_lt]
      exact ⟨hfk, hs⟩
    | false =>
      rw [hprivate j hs]
      exact Policy.edge_of_not_present PageTableEntry.empty_isPresent
  · rw [hself] at hpres ⊢
    cases hs : isShared j with
    | true =>
      -- the copied entries are the kernel root's, none of which is large
      rw [hshared j hs] at hpres ⊢
      rcases h.upper hk (by simp) hpres with ⟨hw, hlarge⟩
      refine ⟨hw, fun hhuge => ?_⟩
      rcases hlarge hhuge with ⟨-, hlen, -⟩
      cases hlen
    | false =>
      rw [hprivate j hs] at hpres
      simp at hpres

end VenturaOS.AddressSpaces
