import VenturaOS.AddressSpace.Private

/-!
# Teardown frees each private table once

The three nested loops of `free_private_tables` visit the tables below the
root in a fixed order. That order lists every table of the tree exactly once,
so each ignored `free_physical_page` succeeds and nothing is left behind.
-/
namespace VenturaOS.AddressSpaces
open Library Memory Pmm Paging Vmm

/-- The tables reached through an entry, children before parents, `d` levels deep. -/
def through (tables : U64 → PageTable) : ℕ → PageTableEntry → List PhysPage
  | 0, e => e.link.elim [] fun b => [⟨b⟩]
  | d + 1, e => e.link.elim [] fun b =>
      (List.finRange 512).flatMap (fun i => through tables d (tables b i)) ++ [⟨b⟩]

/-- The present leaves counted behind an entry. -/
def leavesThrough (tables : U64 → PageTable) : ℕ → PageTableEntry → ℕ
  | 0, e => if isTable e then countPresent (tables e.physAddr) else e.isPresent.toNat
  | d + 1, e =>
    if isTable e then ((List.finRange 512).map fun i => leavesThrough tables d (tables e.physAddr i)).sum
    else e.isPresent.toNat

section Loops

variable {T : U64 → PageTable}

theorem freeList_tables (l : List PhysPage) (s : PageMemory) : (l.foldl discardFree s).tables = s.tables := by
  induction l generalizing s with
  | nil => rfl
  | cons p l ih =>
    rw [List.foldl_cons, ih]
    rfl

theorem freeList_log (l : List PhysPage) (s : PageMemory) :
    (l.foldl discardFree s).discarded.length = s.discarded.length + l.length := by
  induction l generalizing s with
  | nil => rfl
  | cons p l ih =>
    have hone : (discardFree s p).discarded.length = s.discarded.length + 1 := List.length_append
    rw [List.foldl_cons, ih, hone, List.length_cons]
    omega

/-- The effect of freeing a list of tables and counting leaves on the way. -/
def Teardown.after (acc : Teardown) (l : List PhysPage) (leaves : ℕ) : Teardown :=
  ⟨l.foldl discardFree acc.mem, acc.freed + l.length, acc.leaves + leaves⟩

theorem Teardown.after_tables (acc : Teardown) (l : List PhysPage) (leaves : ℕ) :
    (acc.after l leaves).mem.tables = acc.mem.tables := freeList_tables l acc.mem

theorem Teardown.after_after (acc : Teardown) (l l' : List PhysPage) (m n : ℕ) :
    (acc.after l m).after l' n = acc.after (l ++ l') (m + n) := by
  simp only [Teardown.after, List.foldl_append, List.length_append, Nat.add_assoc]

/-- A loop whose bodies free lists of tables frees the concatenation. -/
theorem foldl_teardown {g : Teardown → Fin 512 → Teardown} {lists : Fin 512 → List PhysPage} {leaves : Fin 512 → ℕ}
    (hg : ∀ acc i, acc.mem.tables = T → g acc i = acc.after (lists i) (leaves i))
    (is : List (Fin 512)) (acc : Teardown) (hT : acc.mem.tables = T) :
    is.foldl g acc = acc.after (is.flatMap lists) (is.map leaves).sum := by
  induction is generalizing acc with
  | nil => rfl
  | cons i is ih =>
    rw [List.foldl_cons, hg acc i hT, ih _ (by rw [Teardown.after_tables, hT]), Teardown.after_after, List.flatMap_cons,
      List.map_cons, List.sum_cons]

theorem isTable_link {e : PageTableEntry} (h : isTable e = true) : e.link = some e.physAddr := by
  simpa [isTable, PageTableEntry.link_eq_some] using h

theorem link_none_of_not_table {e : PageTableEntry} (h : ¬ isTable e = true) : e.link = none := by
  unfold PageTableEntry.link
  exact if_neg h

theorem freePdEntry_eq (pd : U64) (acc : Teardown) (i : Fin 512) (hT : acc.mem.tables = T) :
    freePdEntry pd acc i = acc.after (through T 0 (T pd i)) (leavesThrough T 0 (T pd i)) := by
  subst hT
  unfold freePdEntry
  by_cases ht : isTable (acc.mem.tables pd i) = true
  · simp [ht, isTable_link ht, Teardown.freeTable, through, leavesThrough, Teardown.after]
  · simp [ht, link_none_of_not_table ht, through, leavesThrough, Teardown.after]

theorem freePdptEntry_eq (pdpt : U64) (acc : Teardown) (i : Fin 512) (hT : acc.mem.tables = T) :
    freePdptEntry pdpt acc i = acc.after (through T 1 (T pdpt i)) (leavesThrough T 1 (T pdpt i)) := by
  unfold freePdptEntry
  rw [hT]
  by_cases ht : isTable (T pdpt i) = true
  · have hloop := foldl_teardown (freePdEntry_eq (T pdpt i).physAddr) (List.finRange 512) acc hT
    simp only [ht, Bool.not_true, Bool.false_eq_true, if_false, through.eq_2, leavesThrough.eq_2, if_true,
      isTable_link ht, Option.elim_some]
    rw [hloop]
    generalize (List.finRange 512).flatMap (fun i => through T 0 (T (T pdpt i).physAddr i)) = l
    simp only [Teardown.freeTable, Teardown.after, List.foldl_append, List.foldl_cons, List.foldl_nil,
      List.length_append, List.length_singleton, Nat.add_assoc]
  · simp [ht, link_none_of_not_table ht, through, leavesThrough, Teardown.after]

/-- One private slot: its tables are freed and its entry cleared. -/
theorem freeSlot_eq (root : U64) (acc : Teardown) (i : Fin 512)
    (hplain : (acc.mem.tables root i).isPresent = true → (acc.mem.tables root i).isHuge = false) :
    freeSlot root acc i =
      if (acc.mem.tables root i).isPresent = true then
        let done := acc.after (through acc.mem.tables 2 (acc.mem.tables root i))
          (leavesThrough acc.mem.tables 2 (acc.mem.tables root i))
        { done with mem := done.mem.writeEntry root i .empty }
      else acc := by
  unfold freeSlot
  by_cases hp : (acc.mem.tables root i).isPresent = true
  · have hlink := PageTableEntry.link_eq_some.mpr ⟨hp, hplain hp, rfl⟩
    have htable : isTable (acc.mem.tables root i) = true := by simp [isTable, hp, hplain hp]
    have hloop := foldl_teardown (freePdptEntry_eq (acc.mem.tables root i).physAddr) (List.finRange 512) acc rfl
    rw [if_pos hp, through, leavesThrough, hlink, Option.elim_some, if_pos htable]
    simp only [hp, Bool.not_true, Bool.false_eq_true, if_false]
    rw [hloop]
    generalize (List.finRange 512).flatMap (fun j => through acc.mem.tables 1
      (acc.mem.tables (acc.mem.tables root i).physAddr j)) = l
    simp only [Teardown.freeTable, Teardown.after, List.foldl_append, List.foldl_cons, List.foldl_nil,
      List.length_append, List.length_singleton, Nat.add_assoc]
  · simp [hp]

end Loops

section Enumeration

variable {k : U64} {F : Finset U64} {c : ℕ} {place : Placement} {held : Finset U64} {s : PageMemory}
  {r a : U64} {p : Path} {i : Fin 512}

theorem link_iff_placed (h : Owned (kernelPolicy k F) F c place held s) (ha : place a = some (r, p))
    (hp : p.length < 3) (hs : (kernelPolicy k F).Owns r p i) (t : U64) :
    (s.tables a i).link = some t ↔ place t = some (r, p ++ [i]) := by
  constructor
  · exact h.follow ha hp hs
  · intro ht
    rcases h.forest.parent ht with ⟨a', ha', he⟩
    rwa [h.forest.place_inj ha' ha, Policy.edge_table hp hs] at he

theorem mem_through (h : Owned (kernelPolicy k F) F c place held s) (d : ℕ) (ha : place a = some (r, p))
    (hd : p.length + d = 2) (hs : (kernelPolicy k F).Owns r p i) (b : U64) :
    ⟨b⟩ ∈ through s.tables d (s.tables a i) ↔
      ∃ q, (p ++ i :: q).length ≤ 3 ∧ place b = some (r, p ++ i :: q) := by
  have hlen (p : Path) (i : Fin 512) (q : Path) : (p ++ i :: q).length = p.length + 1 + q.length := by
    rw [List.length_append, List.length_cons]
    omega
  induction d generalizing a p i with
  | zero =>
    have hiff := link_iff_placed h ha (by omega) hs
    constructor
    · intro hmem
      cases hl : (s.tables a i).link with
      | none => simp [through, hl] at hmem
      | some t =>
        simp only [through, hl, Option.elim_some, List.mem_singleton, PhysPage.mk.injEq] at hmem
        subst hmem
        exact ⟨[], by rw [hlen]; simp; omega, (hiff _).mp hl⟩
    · rintro ⟨q, hq, hb⟩
      rw [hlen] at hq
      have hnil : q = [] := List.length_eq_zero_iff.mp (by omega)
      subst hnil
      simp [through, (hiff _).mpr hb]
  | succ d ih =>
    have hiff := link_iff_placed h ha (by omega) hs
    constructor
    · intro hmem
      cases hl : (s.tables a i).link with
      | none => simp [through, hl] at hmem
      | some t =>
        simp only [through, hl, Option.elim_some, List.mem_append, List.mem_flatMap, List.mem_finRange,
          true_and, List.mem_singleton, PhysPage.mk.injEq] at hmem
        rcases hmem with ⟨j, hmem⟩ | rfl
        · rcases (ih ((hiff _).mp hl) (by simp; omega) (by simp [Policy.Owns])).mp hmem with ⟨q, hq, hb⟩
          rw [List.append_assoc, List.singleton_append] at hq hb
          exact ⟨j :: q, hq, hb⟩
        · exact ⟨[], by rw [hlen]; simp; omega, (hiff _).mp hl⟩
    · rintro ⟨q, hq, hb⟩
      cases q with
      | nil => simp [through, (hiff _).mpr hb]
      | cons j q =>
        have hb' : place b = some (r, (p ++ [i]) ++ j :: q) := by rw [hb]; simp
        rcases h.forest.ancestor hb' with ⟨t, ht⟩
        simp only [through, (hiff t).mpr ht, Option.elim_some, List.mem_append, List.mem_flatMap, List.mem_finRange,
          true_and]
        refine .inl ⟨j, (ih ht (by simp; omega) (by simp [Policy.Owns])).mpr ⟨q, ?_, hb'⟩⟩
        rw [List.append_assoc, List.singleton_append]
        exact hq

theorem through_nodup (h : Owned (kernelPolicy k F) F c place held s) (d : ℕ) (ha : place a = some (r, p))
    (hd : p.length + d = 2) (hs : (kernelPolicy k F).Owns r p i) : (through s.tables d (s.tables a i)).Nodup := by
  induction d generalizing a p i with
  | zero =>
    cases hl : (s.tables a i).link with
    | none => simp [through, hl]
    | some t => simp [through, hl]
  | succ d ih =>
    cases hl : (s.tables a i).link with
    | none => simp [through, hl]
    | some t =>
      have ht := h.follow ha (by omega) hs hl
      have hd' : (p ++ [i]).length + d = 2 := by simp; omega
      simp only [through, hl, Option.elim_some]
      rw [List.nodup_append, List.nodup_flatMap]
      refine ⟨⟨fun j _ => ih ht hd' (by simp [Policy.Owns]), ?_⟩, by simp, ?_⟩
      · -- tables below different entries have different paths
        refine (List.nodup_finRange 512).imp ?_
        intro j j' hne x hx hy
        rcases (mem_through h d ht hd' (by simp [Policy.Owns]) x.addr).mp hx with ⟨q, -, hq⟩
        rcases (mem_through h d ht hd' (by simp [Policy.Owns]) x.addr).mp hy with ⟨q', -, hq'⟩
        rw [hq, Option.some.injEq, Prod.mk.injEq] at hq'
        exact hne (List.cons.inj (List.append_cancel_left hq'.2)).1
      · rintro x hx y hy rfl
        rw [List.mem_singleton.mp hy] at hx
        rcases List.mem_flatMap.mp hx with ⟨j, -, hmem⟩
        rcases (mem_through h d ht hd' (by simp [Policy.Owns]) t).mp hmem with ⟨q, -, hq⟩
        rw [ht, Option.some.injEq, Prod.mk.injEq] at hq
        exact absurd (List.self_eq_append_right.mp hq.2) (by simp)

end Enumeration
section Destroy

variable {k : U64} {F : Finset U64} {c : ℕ} {place : Placement} {held : Finset U64} {s : PageMemory} {r : U64}

/-- The listing and the count only read tables below the root, not the root itself. -/
theorem through_congr (h : Owned (kernelPolicy k F) F c place held s) (hroot : place r = some (r, []))
    {T : U64 → PageTable} (hT : ∀ a, a ≠ r → T a = s.tables a) (d : ℕ) {a : U64} {p : Path} {i : Fin 512}
    (ha : place a = some (r, p)) (hd : p.length + d = 2) (hs : (kernelPolicy k F).Owns r p i) :
    through T d (s.tables a i) = through s.tables d (s.tables a i) ∧
      leavesThrough T d (s.tables a i) = leavesThrough s.tables d (s.tables a i) := by
  have hbelow {t : U64} (ht : place t = some (r, p ++ [i])) : T t = s.tables t := by
    apply hT
    rintro rfl
    rw [hroot] at ht
    simp at ht
  induction d generalizing a p i with
  | zero =>
    refine ⟨rfl, ?_⟩
    unfold leavesThrough
    split_ifs with htable
    · rw [hbelow (h.follow ha (by omega) hs (isTable_link htable))]
    · rfl
  | succ d ih =>
    by_cases htable : isTable (s.tables a i) = true
    · have hl := isTable_link htable
      have ht := h.follow ha (by omega) hs hl
      have hlen : (p ++ [i]).length + d = 2 := by simp; omega
      have hbody (j : Fin 512) := ih (i := j) ht hlen (by simp [Policy.Owns]) fun hb => hT _ fun he => by
        rw [he, hroot] at hb
        simp at hb
      simp only [through, leavesThrough, hl, Option.elim_some, htable, if_true, hbelow ht, fun j => (hbody j).1,
        fun j => (hbody j).2, and_self]
    · simp [through, leavesThrough, link_none_of_not_table htable, htable]

/-- Giving up the tree of `r`: its tables are held by the one who tears it down. -/
theorem prune_owned (h : Owned (kernelPolicy k F) F c place held s) (hr : r ≠ k) :
    ∃ P : Finset U64, (∀ a, a ∈ P ↔ ∃ p, place a = some (r, p)) ∧
      Owned (kernelPolicy k F) F c (Forest.prune place r) (held ∪ P) s := by
  classical
  have hmem (a : U64) : a ∈ F.filter (fun a => ∃ p, place a = some (r, p)) ↔ ∃ p, place a = some (r, p) := by
    rw [Finset.mem_filter]
    refine ⟨And.right, fun ha => ⟨?_, ha⟩⟩
    rcases ha with ⟨p, hp⟩
    exact (h.managed hp).resolve_right hr
  have hpruned {a : U64} {x} (ha : Forest.prune place r a = some x) : place a = some x :=
    (Forest.prune_eq_some.mp ha).1
  refine ⟨_, hmem, ?_⟩
  refine
    { frames := h.frames
      pool := h.pool
      forest := h.forest.dropRoot r
      placed := fun ha => h.placed (hpruned ha)
      held_inUse := ?_
      inUse := ?_
      managed := fun ha => h.managed (hpruned ha)
      upper := fun ha => h.upper (hpruned ha)
      leaves := fun ha => h.leaves (hpruned ha) }
  · intro a ha
    rcases Finset.mem_union.mp ha with ha | ha
    · rcases h.held_inUse ha with ⟨hin, hn⟩
      exact ⟨hin, by simp [Forest.prune, hn]⟩
    · rcases (hmem a).mp ha with ⟨p, hp⟩
      exact ⟨h.placed hp, by simp [Forest.prune, hp]⟩
  · intro a ha
    rcases h.inUse ha with hp | hheld
    · rcases Option.ne_none_iff_exists'.mp hp with ⟨⟨r', p⟩, hx⟩
      by_cases hrr : r' = r
      · subst hrr
        exact .inr (Finset.mem_union_right _ ((hmem a).mpr ⟨p, hx⟩))
      · exact .inl (by rw [Forest.prune_eq_some.mpr ⟨hx, hrr⟩]; simp)
    · exact .inr (Finset.mem_union_left _ hheld)

theorem mem_privateSlots {i : Fin 512} : i ∈ privateSlots ↔ isShared i = false := by
  simp [privateSlots]

theorem private_owns {i : Fin 512} (hi : i ∈ privateSlots) : (kernelPolicy k F).Owns r [] i := by
  intro _
  have hshared := mem_privateSlots.mp hi
  simp only [isShared, Bool.or_eq_false_iff, decide_eq_false_iff_not, not_le] at hshared
  simp only [kernelPolicy, decide_eq_true_eq]
  exact .inr hshared

/-- The outer loop, from any point on: what is left to free is what the remaining slots list. -/
theorem freeSlots_cases (h : Owned (kernelPolicy k F) F c place held s) (hroot : place r = some (r, []))
    (hr : r ≠ k) (is : List (Fin 512)) (his : ∀ i ∈ is, i ∈ privateSlots) (hnodup : is.Nodup) (acc : Teardown)
    (ho : Owned (kernelPolicy k F) F c (Forest.prune place r)
      (insert r held ∪ addrs (is.flatMap fun i => through s.tables 2 (s.tables r i))) acc.mem)
    (hoff : ∀ a, a ≠ r → acc.mem.tables a = s.tables a) (hon : ∀ i ∈ is, acc.mem.tables r i = s.tables r i) :
    Owned (kernelPolicy k F) F c (Forest.prune place r) (insert r held) (is.foldl (freeSlot r) acc).mem ∧
      (∀ a, a ≠ r → (is.foldl (freeSlot r) acc).mem.tables a = s.tables a) ∧
      (is.foldl (freeSlot r) acc).mem.bootstrapPool = acc.mem.bootstrapPool ∧
      (is.foldl (freeSlot r) acc).mem.isBootstrapping = acc.mem.isBootstrapping ∧
      LogOk acc.mem (is.foldl (freeSlot r) acc).mem ∧
      (is.foldl (freeSlot r) acc).mem.discarded.length =
        acc.mem.discarded.length + (is.flatMap fun i => through s.tables 2 (s.tables r i)).length ∧
      (is.foldl (freeSlot r) acc).freed = acc.freed + (is.flatMap fun i => through s.tables 2 (s.tables r i)).length ∧
      (is.foldl (freeSlot r) acc).leaves = acc.leaves + (is.map fun i => leavesThrough s.tables 2 (s.tables r i)).sum := by
  induction is generalizing acc with
  | nil => exact ⟨by simpa using ho, hoff, rfl, rfl, .refl _, rfl, rfl, rfl⟩
  | cons i is ih =>
    have hown : (kernelPolicy k F).Owns r [] i := private_owns (his i (by simp))
    have hentry : acc.mem.tables r i = s.tables r i := hon i (by simp)
    have hplain : (acc.mem.tables r i).isPresent = true → (acc.mem.tables r i).isHuge = false := by
      rw [hentry]
      intro hpres
      by_contra hh
      rcases h.huge hroot (by simp) hpres (by simpa using hh) with ⟨-, hlen, -⟩
      simp at hlen
    have hslot := freeSlot_eq r acc i hplain
    rcases through_congr h hroot hoff 2 hroot (by simp) hown with ⟨hthrough, hleaves⟩
    rw [hentry, hthrough, hleaves] at hslot
    have hplace {j : Fin 512} (hj : (kernelPolicy k F).Owns r [] j) {b : U64}
        (hb : ⟨b⟩ ∈ through s.tables 2 (s.tables r j)) : ∃ q, place b = some (r, j :: q) := by
      rcases (mem_through h 2 hroot (by simp) hj b).mp hb with ⟨q, -, hq⟩
      exact ⟨q, hq⟩
    rw [List.nodup_cons] at hnodup
    rw [List.foldl_cons]
    by_cases hpres : (s.tables r i).isPresent = true
    · rw [if_pos hpres] at hslot
      have hbatch : Batch F (insert r held ∪ addrs (is.flatMap fun i => through s.tables 2 (s.tables r i)))
          (through s.tables 2 (s.tables r i)) := by
        refine ⟨through_nodup h 2 hroot (by simp) hown, fun p hp => ?_, fun p hp => ?_⟩
        · rcases hplace hown hp with ⟨q, hq⟩
          exact (h.managed hq).resolve_right hr
        · rcases hplace hown hp with ⟨q, hq⟩
          simp only [Finset.mem_union, Finset.mem_insert, mem_addrs, List.mem_flatMap, not_or, not_exists, not_and]
          refine ⟨⟨?_, ?_⟩, ?_⟩
          · intro he
            rw [he, hroot] at hq
            simp at hq
          · intro hheld
            simp [(h.held_inUse hheld).2] at hq
          · intro j hj hmem
            rcases hplace (private_owns (his j (by simp [hj]))) hmem with ⟨q', hq'⟩
            rw [hq, Option.some.injEq, Prod.mk.injEq] at hq'
            exact hnodup.1 ((List.cons.inj hq'.2).1 ▸ hj)
      have hsets : insert r held ∪ addrs ((i :: is).flatMap fun i => through s.tables 2 (s.tables r i)) =
          (insert r held ∪ addrs (is.flatMap fun i => through s.tables 2 (s.tables r i))) ∪
            addrs (through s.tables 2 (s.tables r i)) := by
        ext a
        simp only [Finset.mem_union, mem_addrs, List.flatMap_cons, List.mem_append]
        tauto
      rw [hsets] at ho
      rcases freeAll _ ho hbatch with ⟨hf, hft, hfp, hfm, hfl⟩
      have hrn : Forest.prune place r r = none := by simp [Forest.prune, hroot]
      have hclear := hf.writeTable_unplaced hrn
        (Function.update (((through s.tables 2 (s.tables r i)).foldl discardFree acc.mem).tables r) i .empty)
      have hmem : (freeSlot r acc i).mem =
          ((through s.tables 2 (s.tables r i)).foldl discardFree acc.mem).writeEntry r i .empty := by rw [hslot]; rfl
      have hfreed : (freeSlot r acc i).freed = acc.freed + (through s.tables 2 (s.tables r i)).length := by rw [hslot]; rfl
      have hleaf : (freeSlot r acc i).leaves = acc.leaves + leavesThrough s.tables 2 (s.tables r i) := by rw [hslot]; rfl
      change Owned _ F c _ _ (((through s.tables 2 (s.tables r i)).foldl discardFree acc.mem).writeEntry r i .empty)
        at hclear
      rw [← hmem] at hclear
      have htab (b : U64) (j : Fin 512) : (freeSlot r acc i).mem.tables b j =
          if b = r ∧ j = i then .empty else acc.mem.tables b j := by
        rw [hmem, writeEntry_tables, hft]
      have hoff' : ∀ a, a ≠ r → (freeSlot r acc i).mem.tables a = s.tables a := by
        intro a ha
        funext j
        rw [htab, if_neg (fun hc => ha hc.1), hoff a ha]
      have hon' : ∀ j ∈ is, (freeSlot r acc i).mem.tables r j = s.tables r j := by
        intro j hj
        rw [htab, if_neg, hon j (by simp [hj])]
        rintro ⟨-, rfl⟩
        exact hnodup.1 hj
      rcases ih (fun j hj => his j (by simp [hj])) hnodup.2 (freeSlot r acc i) hclear hoff' hon' with
        ⟨h1, h2, h3, h4, h5, h6, h7, h8⟩
      refine ⟨h1, h2, ?_, ?_, .trans ?_ h5, ?_, ?_, ?_⟩
      · rw [h3, hmem]
        exact hfp
      · rw [h4, hmem]
        exact hfm
      · rw [hmem]
        exact hfl
      · have hlog := freeList_log (through s.tables 2 (s.tables r i)) acc.mem
        rw [h6, hmem, List.flatMap_cons, List.length_append]
        change ((through s.tables 2 (s.tables r i)).foldl discardFree acc.mem).discarded.length + _ = _
        omega
      · rw [h7, hfreed, List.flatMap_cons, List.length_append, Nat.add_assoc]
      · rw [h8, hleaf, List.map_cons, List.sum_cons, Nat.add_assoc]
    · rw [if_neg hpres] at hslot
      have hempty : isTable (s.tables r i) = false := by simp [isTable, hpres]
      have hnone : through s.tables 2 (s.tables r i) = [] := by
        simp only [through, PageTableEntry.link_of_not_present (by simpa using hpres), Option.elim_none]
      have hzero : leavesThrough s.tables 2 (s.tables r i) = 0 := by simp [leavesThrough, hempty, hpres]
      rw [List.flatMap_cons, hnone, List.nil_append] at ho
      rw [hslot, List.flatMap_cons, hnone, List.nil_append, List.map_cons, hzero, List.sum_cons, Nat.zero_add]
      exact ih (fun j hj => his j (by simp [hj])) hnodup.2 acc ho hoff fun j hj => hon j (by simp [hj])

/-- Tearing an address space down returns its root and all its tables to the allocator. -/
theorem destroy_cases (h : Owned (kernelPolicy k F) F c place held s) (hroot : place r = some (r, []))
    (hr : r ≠ k) :
    Owned (kernelPolicy k F) F c (Forest.prune place r) held
        (discardFree (freePrivateTables ⟨r⟩ s).mem ⟨r⟩) ∧
      (∀ a, a ≠ r → (discardFree (freePrivateTables ⟨r⟩ s).mem ⟨r⟩).tables a = s.tables a) ∧
      (discardFree (freePrivateTables ⟨r⟩ s).mem ⟨r⟩).bootstrapPool = s.bootstrapPool ∧
      (discardFree (freePrivateTables ⟨r⟩ s).mem ⟨r⟩).isBootstrapping = s.isBootstrapping ∧
      LogOk s (discardFree (freePrivateTables ⟨r⟩ s).mem ⟨r⟩) ∧
      (discardFree (freePrivateTables ⟨r⟩ s).mem ⟨r⟩).discarded.length =
        s.discarded.length + (freePrivateTables ⟨r⟩ s).freed + 1 ∧
      (freePrivateTables ⟨r⟩ s).freed = (privateSlots.flatMap fun i => through s.tables 2 (s.tables r i)).length ∧
      (freePrivateTables ⟨r⟩ s).leaves = (privateSlots.map fun i => leavesThrough s.tables 2 (s.tables r i)).sum := by
  rcases prune_owned h hr with ⟨P, hP, ho⟩
  have hsets : held ∪ P =
      insert r held ∪ addrs (privateSlots.flatMap fun i => through s.tables 2 (s.tables r i)) := by
    ext a
    simp only [Finset.mem_union, Finset.mem_insert, mem_addrs, List.mem_flatMap, hP]
    constructor
    · rintro (ha | ⟨p, hp⟩)
      · exact .inl (.inr ha)
      · cases p with
        | nil => exact .inl (.inl (h.forest.root_self hp))
        | cons i q =>
          have hlen := private_length h hr hp
          rcases h.forest.ancestor (show place a = some (r, [i] ++ q) from hp) with ⟨t, ht⟩
          rcases h.forest.parent (show place t = some (r, [] ++ [i]) from ht) with ⟨t', ht', he⟩
          -- the first index is one of the root's own slots
          have hi : i ∈ privateSlots := by
            rw [mem_privateSlots]
            rw [Policy.edge, if_pos (by simp)] at he
            split_ifs at he with hcond
            simp only [kernelPolicy, true_and, decide_eq_false_iff_not, not_not, hr, false_or] at hcond
            simp only [isShared, Bool.or_eq_false_iff, decide_eq_false_iff_not, not_le]
            exact hcond
          exact .inr ⟨i, hi, (mem_through h 2 hroot (by simp) (private_owns hi) a).mpr ⟨q, hlen, hp⟩⟩
    · rintro ((rfl | ha) | ⟨i, hi, hmem⟩)
      · exact .inr ⟨[], hroot⟩
      · exact .inl ha
      · rcases (mem_through h 2 hroot (by simp) (private_owns hi) a).mp hmem with ⟨q, -, hq⟩
        exact .inr ⟨_, hq⟩
  rw [hsets] at ho
  rcases freeSlots_cases h hroot hr privateSlots (fun _ hi => hi) ((List.nodup_finRange 512).filter _)
      ⟨s, 0, 0⟩ ho (fun _ _ => rfl) (fun _ _ => rfl) with
    ⟨h1, h2, h3, h4, h5, h6, h7, h8⟩
  have hfold : freePrivateTables ⟨r⟩ s = privateSlots.foldl (freeSlot r) ⟨s, 0, 0⟩ := by rw [freePrivateTables]
  rw [hfold]
  rw [Nat.zero_add] at h7 h8
  generalize privateSlots.foldl (freeSlot r) ⟨s, 0, 0⟩ = acc at h1 h2 h3 h4 h5 h6 h7 h8 ⊢
  have hF : r ∈ F := (h.managed hroot).resolve_right hr
  have hnot : r ∉ held := fun hm => by simp [(h.held_inUse hm).2] at hroot
  rcases h1.discardFree_held (Finset.mem_insert_self r held) hF with ⟨pmm, hd, -, ho'⟩
  rw [Finset.erase_insert hnot] at ho'
  refine ⟨ho', ?_, ?_, ?_, .trans h5 ⟨[.ok ()], ?_, by simp⟩, ?_, h7, h8⟩
  · intro a ha
    rw [hd]
    exact h2 a ha
  · rw [hd]
    exact h3
  · rw [hd]
    exact h4
  · rw [hd]
  · rw [hd, List.length_append, h6, h7]
    rfl

end Destroy
end VenturaOS.AddressSpaces
