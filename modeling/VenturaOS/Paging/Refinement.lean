import VenturaOS.Library.Runs
import VenturaOS.Paging.Leaves

/-!
# Page tables refine a partial map

Below one root, the pages of slots 1 to 511 form a partial map from pages to
frames with flags. Every call of `map_page` and `unmap_page` is the matching
step of that map, and the frames needed for missing tables decide exactly when
a mapping fails for lack of memory.
-/
namespace VenturaOS.Paging
open Library Pmm Memory

/-- Only the tables below root `r` matter; leaf frames and all other frames are held outside. -/
def treePolicy (r : U64) : Policy where
  boot := r
  slot r' i := decide (r' = r ∧ i ≠ 0)
  leaf _ _ _ := false
  allowed _ _ _ := True

/-- The tables below `r` are a tree that shares no frame with the free pages. -/
def Tree (r : U64) (s : PageMemory) : Prop :=
  ∃ F c place held, Owned (treePolicy r) F c place held s ∧ place r = some (r, []) ∧ s.isBootstrapping = false

structure Covered (v : VirtAddr) : Prop where
  canonical : isCanonical v.addr = true
  slot : v.pml4Index ≠ 0

/-- A call with its result. -/
inductive Call
  | mapped (v : VirtAddr) (phys : PhysPage) (flags : PageTableFlags) (result : Except MapError Unit)
  | unmapped (v : VirtAddr) (result : Except UnmapError PhysPage)

/-- Arguments in the range the map is about. -/
def Call.Valid : Call → Prop
  | .mapped v phys flags _ =>
    Covered v ∧ v.isAligned = true ∧ IsFrame phys.addr ∧ flags.bits.getLsbD 0 = true ∧ flags.Clear
  | .unmapped v _ => Covered v ∧ v.isAligned = true

inductive CallStep (root : PhysPage) : PageMemory → Call → PageMemory → Prop
  | map {s t : PageMemory} {v : VirtAddr} {phys : PhysPage} {flags : PageTableFlags} {result : Except MapError Unit} :
      mapPage root v phys flags s = (result, t) → CallStep root s (.mapped v phys flags result) t
  | unmap {s t : PageMemory} {v : VirtAddr} {result : Except UnmapError PhysPage} :
      unmapPage root v s = (result, t) → CallStep root s (.unmapped v result) t

/-- Translations outside the page of `v` are the same in both states. -/
def SameElsewhere (root : PhysPage) (v : VirtAddr) (s t : PageMemory) : Prop :=
  ∀ w, Covered w → w.addr.toNat / 4096 ≠ v.addr.toNat / 4096 →
    translate t.tables root w = translate s.tables root w

def SameTranslations (root : PhysPage) (s t : PageMemory) : Prop :=
  ∀ w, Covered w → translate t.tables root w = translate s.tables root w

/-- What the map says each call does. -/
def CallSpec (root : PhysPage) (s : PageMemory) : Call → PageMemory → Prop
  | .mapped v phys flags result, t =>
    (result = .error .alreadyMapped ↔ translate s.tables root v ≠ none) ∧
    (result = .error .frameAllocationFailed ↔ translate s.tables root v = none ∧
      s.pmm.freeSet.card < missing s.tables root.addr v.tablePath) ∧
    (result = .ok () ↔ translate s.tables root v = none ∧
      missing s.tables root.addr v.tablePath ≤ s.pmm.freeSet.card) ∧
    (result = .ok () → translate t.tables root v = some (phys, flags)) ∧
    SameElsewhere root v s t ∧ (result ≠ .ok () → SameTranslations root s t)
  | .unmapped v result, t =>
    ((∃ page, result = .ok page) ↔ translate s.tables root v ≠ none) ∧
    (∀ page, result = .ok page → (∃ flags, translate s.tables root v = some (page, flags)) ∧
      translate t.tables root v = none) ∧
    SameElsewhere root v s t ∧ ((∀ page, result ≠ .ok page) → SameTranslations root s t)

theorem freeFrames_card {s : Allocator} (hs : s.total ≤ maxManagedPages) :
    s.freeFrames.card = s.freeSet.card := by
  apply Finset.card_image_of_injOn
  intro i hi j hj he
  have hi' := (Allocator.mem_freeSet.mp hi).1
  have hj' := (Allocator.mem_freeSet.mp hj).1
  unfold maxManagedPages at hs
  exact frame_inj (by omega) (by omega) he

/-- Translation reads the present leaf at the end of the path. -/
def readLeaf (v : VirtAddr) (e : PageTableEntry) : PhysPage × PageTableFlags :=
  (⟨e.physAddr + v.pageOffset⟩, e.flags)

namespace Owned

variable {pol : Policy} {F : Finset U64} {c : ℕ} {place : Placement} {held : Finset U64} {s : PageMemory}
  {r : U64} {v : VirtAddr}

theorem translate_eq (h : Owned pol F c place held s) (hr : place r = some (r, []))
    (hslot : pol.slot r v.pml4Index = true) (hplain : r = pol.boot → v.pml4Index ≠ 0)
    (hc : isCanonical v.addr = true) :
    translate s.tables ⟨r⟩ v = (lookup s.tables r v.path).map (readLeaf v) := by
  rcases h.leaf_cases hr hslot hplain hc with ⟨pt, -, -, hl, ht, -⟩ | ⟨hl, ht, -⟩
  · rw [ht, hl]
    rfl
  · rw [ht, hl]
    rfl

/-- A leaf write is seen through its own path and no other. -/
theorem lookup_writeEntry (h : Owned pol F c place held s) {pt : U64} {is : Path} {i : Fin 512}
    (hpt : place pt = some (r, is)) (hl : is.length = 3) (e : PageTableEntry) {t r' : U64} {p : Path}
    {j : Fin 512} {q : Path} (ht : place t = some (r', p)) (hq : p.length + q.length = 3) (ho : pol.Owns r' p j) :
    lookup (s.writeEntry pt i e).tables t (j :: q) =
      if r' = r ∧ p ++ j :: q = is ++ [i] then (if e.isPresent then some e else none)
      else lookup s.tables t (j :: q) := by
  induction q generalizing t p j with
  | nil =>
    simp only [lookup, if_true, writeEntry_tables]
    by_cases hslot : t = pt ∧ j = i
    · rcases hslot with ⟨rfl, rfl⟩
      rw [hpt] at ht
      cases ht
      simp
    · have hother : ¬(r' = r ∧ p ++ [j] = is ++ [i]) := by
        rintro ⟨rfl, hp⟩
        rcases List.append_inj' hp rfl with ⟨rfl, hj⟩
        cases hj
        exact hslot ⟨h.forest.place_inj ht hpt, rfl⟩
      rw [if_neg hslot, if_neg hother]
  | cons k q ih =>
    simp only [List.length_cons] at hq
    have htp : t ≠ pt := by
      rintro rfl
      rw [hpt] at ht
      cases ht
      omega
    rw [lookup, if_neg (List.cons_ne_nil k q), writeEntry_tables, if_neg (fun hslot => htp hslot.1)]
    rw [lookup.eq_2 s.tables t j (k :: q), if_neg (List.cons_ne_nil k q)]
    cases hb : (s.tables t j).link with
    | none =>
      rw [if_neg]
      · rfl
      · -- the written leaf is reached through placed tables, so its path has no missing link
        rintro ⟨rfl, hp⟩
        have his : is = (p ++ [j]) ++ (k :: q).dropLast := by
          have hdrop := congrArg List.dropLast hp
          rw [List.dropLast_concat, List.dropLast_append_of_ne_nil (by simp)] at hdrop
          rw [← hdrop]
          simp
        rw [his] at hpt
        rcases h.forest.ancestor hpt with ⟨b, hbp⟩
        rcases h.forest.parent hbp with ⟨t', ht', he⟩
        rw [h.forest.place_inj ht' ht, Policy.edge_table (by omega) ho, hb] at he
        cases he
    | some b =>
      have hchild := h.follow ht (by omega) ho hb
      have hrec := ih (j := k) hchild (by rw [List.length_append, List.length_singleton]; omega) (by simp [Policy.Owns])
      rw [List.append_assoc, List.singleton_append] at hrec
      exact hrec

end Owned

theorem pageOffset_aligned {v : VirtAddr} (h : v.isAligned = true) : v.pageOffset = 0#64 := by
  simp only [VirtAddr.isAligned, pageSize, beq_iff_eq] at h
  apply BitVec.eq_of_toNat_eq
  rw [VirtAddr.pageOffset, BitVec.toNat_and, show (0xFFF#64).toNat = 2 ^ 12 - 1 from rfl,
    Nat.and_two_pow_sub_one_eq_mod]
  exact h

theorem readLeaf_set {v : VirtAddr} (hv : v.isAligned = true) {phys : PhysPage} {flags : PageTableFlags}
    (hp : IsFrame phys.addr) (hf : flags.Clear) : readLeaf v (.set phys.addr flags) = (phys, flags) := by
  rw [readLeaf, PageTableEntry.set_physAddr hp hf, PageTableEntry.set_flags hf, pageOffset_aligned hv,
    BitVec.add_zero]

section Tree

variable {F : Finset U64} {c : ℕ} {place place' : Placement} {held : Finset U64} {s t : PageMemory}
  {r : U64} {v w : VirtAddr}

private theorem tree_slot (hw : Covered w) : (treePolicy r).slot r w.pml4Index = true := by
  simp [treePolicy, hw.slot]

private theorem tree_translate (h : Owned (treePolicy r) F c place held s) (hr : place r = some (r, []))
    (hw : Covered w) : translate s.tables ⟨r⟩ w = (lookup s.tables r w.path).map (readLeaf w) :=
  h.translate_eq hr (tree_slot hw) (fun _ => hw.slot) hw.canonical

private theorem tree_edge_leaf {p : Path} (hp : p.length = 3) (i : Fin 512) (e : PageTableEntry) :
    (treePolicy r).edge r p i e = none := by
  rw [Policy.edge_leaf hp, if_neg (by simp [treePolicy])]

/-- Creating tables changes no translation. -/
private theorem tree_grows (h : Owned (treePolicy r) F c place held s) (hr : place r = some (r, []))
    (h' : Owned (treePolicy r) F c place' held t) (hg : Grows (treePolicy r) r place place' s t) :
    SameTranslations ⟨r⟩ s t := by
  intro w hw
  rw [tree_translate h' (hg.kept hr) hw, tree_translate h hr hw]
  congr 1
  exact hg.lookup_eq (j := w.pml4Index) (q := [w.pdptIndex, w.pdIndex, w.ptIndex]) hr rfl
    (fun _ => tree_slot hw)

/-- A leaf write below the root changes the translation of that page alone. -/
private theorem tree_writeLeaf (h : Owned (treePolicy r) F c place held s) (hr : place r = some (r, []))
    {pt : U64} (hpt : place pt = some (r, v.tablePath)) (e : PageTableEntry) :
    Owned (treePolicy r) F c place held (s.writeEntry pt v.ptIndex e) ∧
      ∀ w, Covered w → translate (s.writeEntry pt v.ptIndex e).tables ⟨r⟩ w =
        if w.path = v.path then (if e.isPresent then some (readLeaf w e) else none)
        else translate s.tables ⟨r⟩ w := by
  have ho : Owned (treePolicy r) F c place held (s.writeEntry pt v.ptIndex e) :=
    h.writeLeaf hpt v.tablePath_length (tree_edge_leaf v.tablePath_length _ _)
      (tree_edge_leaf v.tablePath_length _ _) (fun _ => trivial)
  refine ⟨ho, fun w hw => ?_⟩
  have hlook := h.lookup_writeEntry (i := v.ptIndex) hpt v.tablePath_length e (j := w.pml4Index)
    (q := [w.pdptIndex, w.pdIndex, w.ptIndex]) hr rfl (fun _ => tree_slot hw)
  rw [tree_translate ho hr hw, tree_translate h hr hw]
  change lookup _ r w.path = if r = r ∧ w.path = v.path then _ else lookup s.tables r w.path at hlook
  rw [hlook]
  by_cases hp : w.path = v.path
  · rw [if_pos ⟨rfl, hp⟩, if_pos hp]
    split_ifs <;> rfl
  · rw [if_neg (fun hc => hp hc.2), if_neg hp]

theorem map_spec (htree : Tree r s) {phys : PhysPage} {flags : PageTableFlags} {result : Except MapError Unit}
    (hv : (Call.mapped v phys flags result).Valid) (hcall : mapPage ⟨r⟩ v phys flags s = (result, t)) :
    Tree r t ∧ CallSpec ⟨r⟩ s (.mapped v phys flags result) t := by
  rcases htree with ⟨F, c, place, held, h, hr, hmode⟩
  rcases hv with ⟨hcov, hal, hframe, hpres, hclear⟩
  have hcard := freeFrames_card h.frames.bound
  have htrans := tree_translate h hr hcov
  rcases h.mapPage_cases hr (tree_slot hcov) (by simp [hmode]) hcov.canonical hal hframe.1 flags with
    ⟨place', s₁, ho, hg, -, ⟨pt, he, hpt, habs, hlook, hcost⟩ | ⟨he, hwhy⟩ | ⟨he, hcost⟩⟩
  · cases he.symm.trans hcall
    have hgrow := tree_grows h hr ho hg
    rcases tree_writeLeaf ho (hg.kept hr) hpt (.set phys.addr flags) with ⟨ho', hleaf⟩
    have hnone : translate s.tables ⟨r⟩ v = none := by rw [htrans, hlook]; rfl
    have hfit := hcost hmode
    refine ⟨⟨F, c, place', held, ho', hg.kept hr, hg.boot.mode.trans hmode⟩, ?_, ?_, ?_, ?_, ?_, ?_⟩
    · simp [hnone]
    · rw [← hcard]
      constructor
      · intro hbad
        cases hbad
      · rintro ⟨-, hlt⟩
        simp only at hlt
        omega
    · rw [← hcard]
      exact ⟨fun _ => ⟨hnone, by simp only; omega⟩, fun _ => rfl⟩
    · intro _
      rw [hleaf v hcov, if_pos rfl, PageTableEntry.set_isPresent, hpres, if_pos rfl,
        readLeaf_set hal hframe hclear]
    · intro w hw hne
      rw [hleaf w hw, if_neg, hgrow w hw]
      exact fun hp => hne (VirtAddr.page_eq_of_path hw.canonical hcov.canonical hp)
    · intro hbad
      exact absurd rfl hbad
  · cases he.symm.trans hcall
    have hgrow := tree_grows h hr ho hg
    have hsome : translate s.tables ⟨r⟩ v ≠ none := by
      rcases hwhy with ⟨e, hl⟩ | ⟨-, hz⟩
      · rw [htrans, hl]
        simp
      · exact absurd hz hcov.slot
    refine ⟨⟨F, c, place', held, ho, hg.kept hr, hg.boot.mode.trans hmode⟩, ?_, ?_, ?_, ?_, ?_, ?_⟩
    · simp [hsome]
    · simp [hsome]
    · simp [hsome]
    · simp
    · exact fun w hw _ => hgrow w hw
    · exact fun _ => hgrow
  · cases he.symm.trans hcall
    have hgrow := tree_grows h hr ho hg
    have hlt := hcost hmode
    have hnone : translate s.tables ⟨r⟩ v = none := by
      rw [htrans]
      change (lookup s.tables r (v.tablePath ++ [v.ptIndex])).map _ = none
      rw [lookup_of_missing (by omega)]
      rfl
    rw [hcard] at hlt
    refine ⟨⟨F, c, place', held, ho, hg.kept hr, hg.boot.mode.trans hmode⟩, ?_, ?_, ?_, ?_, ?_, ?_⟩
    · simp [hnone]
    · simp [hnone, hlt]
    · simp [hnone, hlt]
    · simp
    · exact fun w hw _ => hgrow w hw
    · exact fun _ => hgrow

theorem unmap_spec (htree : Tree r s) {result : Except UnmapError PhysPage}
    (hv : (Call.unmapped v result).Valid) (hcall : unmapPage ⟨r⟩ v s = (result, t)) :
    Tree r t ∧ CallSpec ⟨r⟩ s (.unmapped v result) t := by
  rcases htree with ⟨F, c, place, held, h, hr, hmode⟩
  rcases hv with ⟨hcov, hal⟩
  rcases h.leaf_cases hr (tree_slot hcov) (fun _ => hcov.slot) hcov.canonical with
    ⟨pt, hpt, -, -, htrans, he⟩ | ⟨-, htrans, e, he⟩
  · cases (he hal).symm.trans hcall
    rcases tree_writeLeaf h hr hpt .empty with ⟨ho', hleaf⟩
    rw [pageOffset_aligned hal, BitVec.add_zero] at htrans
    refine ⟨⟨F, c, place, held, ho', hr, hmode⟩, ?_, ?_, ?_, ?_⟩
    · simp [htrans]
    · rintro page hpage
      cases hpage
      exact ⟨⟨_, htrans⟩, by rw [hleaf v hcov, if_pos rfl]; simp⟩
    · intro w hw hne
      rw [hleaf w hw, if_neg]
      exact fun hp => hne (VirtAddr.page_eq_of_path hw.canonical hcov.canonical hp)
    · intro hbad
      exact absurd rfl (hbad _)
  · cases he.symm.trans hcall
    refine ⟨⟨F, c, place, held, h, hr, hmode⟩, ?_, ?_, ?_, ?_⟩
    · simp [htrans]
    · rintro page hpage
      cases hpage
    · exact fun _ _ _ => rfl
    · exact fun _ _ _ => rfl

/-- Every call keeps the tree and does what the map says. -/
theorem Tree.step (htree : Tree r s) {call : Call} (hv : call.Valid) (hstep : CallStep ⟨r⟩ s call t) :
    Tree r t ∧ CallSpec ⟨r⟩ s call t := by
  cases hstep with
  | map hcall => exact map_spec htree hv hcall
  | unmap hcall => exact unmap_spec htree hv hcall

theorem Tree.run (htree : Tree r s) {calls : List Call} (hrun : Run (CallStep ⟨r⟩) s calls t)
    (hv : ∀ call ∈ calls, call.Valid) : Tree r t :=
  hrun.invariant_of_forall (Tree r) Call.Valid (fun _ _ _ hs hc hstep => (hs.step hc hstep).1) hv htree

end Tree
end VenturaOS.Paging
