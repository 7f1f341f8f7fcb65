import VenturaOS.AddressSpace.LeafCount
import VenturaOS.Machine.Isolation

/-!
# Exact teardown

Whatever was mapped and unmapped in a space, destroying it returns the root
and each of its tables to the page allocator once, and nothing else.
-/
namespace VenturaOS.Machine
open Library Memory Pmm Paging Vmm AddressSpaces

/-- The tables linked below the given slots of a root, with their depth. -/
inductive TableBelow (tables : U64 → PageTable) (root : U64) (slots : Fin 512 → Bool) : ℕ → U64 → Prop
  | slot {b : U64} (i : Fin 512) : slots i = true → (tables root i).link = some b → TableBelow tables root slots 1 b
  | link {d : ℕ} {a b : U64} (i : Fin 512) : TableBelow tables root slots d a → d < 3 →
      (tables a i).link = some b → TableBelow tables root slots (d + 1) b

def isPrivate (i : Fin 512) : Bool := !isShared i

/-- What `destroy` of a live space comes to; `T` are the root and the tables below slots 1 to 255. -/
structure ExactTeardown (y : System) (space : AddressSpace) (T : Finset U64) : Prop where
  tables : ∀ a, a ∈ T ↔
    a = space.rootPage.addr ∨ ∃ d, TableBelow y.kernel.mem.tables space.rootPage.addr isPrivate d a
  taken : ∀ a ∈ T, a ∉ y.kernel.mem.pmm.freeFrames
  freed : (AddressSpaces.destroy space y.kernel).2.mem.pmm.freeFrames = y.kernel.mem.pmm.freeFrames ∪ T
  log : (AddressSpaces.destroy space y.kernel).2.mem.discarded =
    y.kernel.mem.discarded ++ List.replicate T.card (.ok ())
  pages : (AddressSpaces.destroy space y.kernel).2.mem.pmm.stats.freePages =
    y.kernel.mem.pmm.stats.freePages + T.card
  count : (freePrivateTables space.rootPage y.kernel.mem).freed + 1 = T.card
  leaves : (freePrivateTables space.rootPage y.kernel.mem).leaves =
    Set.ncard {x : U64 × Fin 512 | TableBelow y.kernel.mem.tables space.rootPage.addr isPrivate 3 x.1 ∧
      (y.kernel.mem.tables x.1 x.2).isPresent = true}
  shared : ∀ d a, TableBelow y.kernel.mem.tables space.rootPage.addr isShared d a → a ∉ T
  others : ∀ r, y.IsRoot r → r ≠ space.rootPage.addr → ∀ d a, TableAt y.kernel.mem.tables r d a → a ∉ T
  clients : ∀ f ∈ y.clients, f ∉ T
  again : ∀ k, AddressSpaces.destroy (AddressSpaces.destroy space y.kernel).1 k =
    ((AddressSpaces.destroy space y.kernel).1, k)

section

variable {F : Finset U64} {c : ℕ} {k r : U64} {place : Placement} {held : Finset U64} {s : PageMemory}

theorem isPrivate_eq {i : Fin 512} : isPrivate i = true ↔ i ∈ privateSlots := by
  rw [mem_privateSlots, isPrivate, Bool.not_eq_true']

/-- The tables of a space are those placed below its root. -/
theorem tableBelow_iff (h : Owned (kernelPolicy k F) F c place held s) (hroot : place r = some (r, [])) (hr : r ≠ k)
    {d : ℕ} {a : U64} :
    TableBelow s.tables r isPrivate d a ↔ ∃ p, p ≠ [] ∧ p.length = d ∧ place a = some (r, p) := by
  constructor
  · intro ha
    induction ha with
    | slot i hi hlink =>
      exact ⟨[i], by simp, rfl, h.follow hroot (by simp) (private_owns (isPrivate_eq.mp hi)) hlink⟩
    | link i _ hd hlink ih =>
      rcases ih with ⟨p, hne, hp, ha⟩
      exact ⟨p ++ [i], by simp, by simp [hp], h.follow ha (by omega) (fun hn => absurd hn hne) hlink⟩
  · rintro ⟨p, hne, rfl, ha⟩
    induction p using List.reverseRecOn generalizing a with
    | nil => exact absurd rfl hne
    | append_singleton p i ih =>
      have hlen := private_length h hr ha
      rw [List.length_append, List.length_singleton] at hlen ⊢
      rcases h.forest.parent ha with ⟨b, hb, he⟩
      rw [Policy.edge, if_pos (by omega)] at he
      split_ifs at he with hslot
      by_cases hnil : p = []
      · subst hnil
        rw [h.forest.root_self hb] at he
        refine .slot i ?_ he
        simp only [kernelPolicy, true_and, decide_eq_false_iff_not, not_not, hr, false_or] at hslot
        rw [isPrivate_eq, mem_privateSlots, isShared, Bool.or_eq_false_iff, decide_eq_false_iff_not,
          decide_eq_false_iff_not, not_le]
        exact hslot
      · exact .link i (ih hnil hb) (by omega) he

theorem placed_root {a r' : U64} {p q : Path} (h : place a = some (r, p)) (h' : place a = some (r', q)) : r = r' := by
  rw [h] at h'
  exact congrArg Prod.fst (Option.some.inj h')

/-- What hangs below the shared slots of a live space belongs to the kernel root. -/
theorem Tables.tableBelow_shared {spaces : List AddressSpace} {clients : Finset U64} {space : AddressSpace}
    (h : Tables F c k spaces clients place s) (hm : space ∈ spaces) (hl : space.ownsRoot = true) {d : ℕ} {a : U64}
    (ha : TableBelow s.tables space.rootPage.addr isShared d a) : ∃ p : Path, p.length = d ∧ place a = some (k, p) := by
  induction ha with
  | slot i hi hlink =>
    rw [h.agree hm hl i hi] at hlink
    exact ⟨[i], rfl, h.owned.follow h.rooted (by simp) (kernel_owns _ _) hlink⟩
  | link i _ hd hlink ih =>
    rcases ih with ⟨p, hp, ha⟩
    exact ⟨p ++ [i], by simp [hp], h.owned.follow ha (by omega) (kernel_owns _ _) hlink⟩

theorem leavesAt_eq (h : Owned (kernelPolicy k F) F c place held s) (hroot : place r = some (r, [])) (hr : r ≠ k) :
    (leavesAt F place s.tables r [] : Set (U64 × Fin 512)) =
      {x | TableBelow s.tables r isPrivate 3 x.1 ∧ (s.tables x.1 x.2).isPresent = true} := by
  ext x
  rw [Finset.mem_coe, mem_leavesAt h hr, Set.mem_ofPred_eq, tableBelow_iff h hroot hr]
  constructor
  · rintro ⟨q, hlen, hq, hpres⟩
    have hne : q ≠ [] := by
      rintro rfl
      cases hlen
    exact ⟨⟨q, hne, hlen, hq⟩, hpres⟩
  · rintro ⟨⟨q, -, hlen, hq⟩, hpres⟩
    exact ⟨q, hlen, hq, hpres⟩

theorem mem_freeFrames_iff (h : Owned (kernelPolicy k F) F c place held s) {a : U64} :
    a ∈ s.pmm.freeFrames ↔ a ∈ F ∧ place a = none ∧ a ∉ held := by
  constructor
  · intro ha
    exact ⟨h.frames.free_subset ha, h.free_unplaced ha⟩
  · rintro ⟨hF, hp, hheld⟩
    by_contra hout
    rcases h.inUse (.inl ⟨hF, hout⟩) with hne | hmem
    · exact hne hp
    · exact hheld hmem

/-- The order in which teardown frees the tables names each of them once. -/
theorem private_list (h : Owned (kernelPolicy k F) F c place held s) (hroot : place r = some (r, [])) (hr : r ≠ k) :
    (privateSlots.flatMap fun i => through s.tables 2 (s.tables r i)).Nodup ∧
      ∀ a, ⟨a⟩ ∈ (privateSlots.flatMap fun i => through s.tables 2 (s.tables r i)) ↔
        ∃ p, p ≠ [] ∧ place a = some (r, p) := by
  have hmem {i : Fin 512} (hi : i ∈ privateSlots) (a : U64) := mem_through h 2 hroot (by simp) (private_owns hi) a
  constructor
  · rw [List.nodup_flatMap]
    refine ⟨fun i hi => through_nodup h 2 hroot (by simp) (private_owns hi), ?_⟩
    have hnodup : privateSlots.Nodup := (List.nodup_finRange 512).filter _
    refine hnodup.imp_of_mem ?_
    intro i j hi hj hne x hx hy
    rcases (hmem hi x.addr).mp hx with ⟨q, -, hq⟩
    rcases (hmem hj x.addr).mp hy with ⟨q', -, hq'⟩
    rw [hq, Option.some.injEq, Prod.mk.injEq] at hq'
    exact hne (List.cons.inj hq'.2).1
  · intro a
    rw [List.mem_flatMap]
    constructor
    · rintro ⟨i, hi, ha⟩
      rcases (hmem hi a).mp ha with ⟨q, -, hq⟩
      exact ⟨_, by simp, hq⟩
    · rintro ⟨p, hne, ha⟩
      have hbelow := (tableBelow_iff h hroot hr).mpr ⟨p, hne, rfl, ha⟩
      have hlen := private_length h hr ha
      cases p with
      | nil => exact absurd rfl hne
      | cons i q =>
        rcases h.forest.ancestor (show place a = some (r, [i] ++ q) from ha) with ⟨b, hb⟩
        have hi : i ∈ privateSlots := by
          have hone := (tableBelow_iff h hroot hr).mpr ⟨[i], by simp, rfl, hb⟩
          generalize hd : [i].length = d at hone
          cases hone with
          | slot j hj hlink =>
            have hplace := h.follow hroot (by simp) (private_owns (isPrivate_eq.mp hj)) hlink
            rw [hb] at hplace
            cases hplace
            exact isPrivate_eq.mp hj
          | link j hone hd' hlink =>
            rcases (tableBelow_iff h hroot hr).mp hone with ⟨p, hp, hpl, -⟩
            have : 0 < p.length := List.length_pos_of_ne_nil hp
            simp at hd
            omega
        exact ⟨i, hi, (hmem hi a).mpr ⟨q, hlen, ha⟩⟩

end

section

variable {info : BootInfo} {place place' : Placement} {y y₀ : System} {i : ℕ} {space : AddressSpace} {k₁ : Kernel}

/-- The allocator's counter after some of the frames that are out came back. -/
theorem frames_returned {F T : Finset U64} {c : ℕ} {s s' : Allocator} (h : Frames F c s) (h' : Frames F c s')
    (hT : T ⊆ F) (hout : ∀ a ∈ T, a ∉ s.freeFrames) (hfree : s'.freeFrames = s.freeFrames ∪ T) :
    s'.stats.freePages = s.stats.freePages + T.card := by
  have hsplit : F \ s.freeFrames = (F \ s'.freeFrames) ∪ T := by
    ext a
    simp only [hfree, Finset.mem_sdiff, Finset.mem_union, not_or]
    constructor
    · rintro ⟨hF, hn⟩
      by_cases ha : a ∈ T
      · exact .inr ha
      · exact .inl ⟨hF, hn, ha⟩
    · rintro (⟨hF, hn, -⟩ | ha)
      · exact ⟨hF, hn⟩
      · exact ⟨hT ha, hout a ha⟩
  have hdisj : Disjoint (F \ s'.freeFrames) T := by
    rw [Finset.disjoint_left]
    intro a ha haT
    rw [hfree, Finset.mem_sdiff, Finset.mem_union, not_or] at ha
    exact ha.2.2 haT
  have hc := h.counter
  have hc' := h'.counter
  rw [hsplit, Finset.card_union_of_disjoint hdisj] at hc
  omega

theorem Inv.exactTeardown (h : Inv info place y) (hi : y.spaces[i]? = some space) (hl : space.ownsRoot = true) :
    ∃ T, ExactTeardown y space T ∧ Owned (kernelPolicy y.kernel.rootPml4.addr info.frames) info.frames info.count
      (Forest.prune place space.rootPage.addr) y.clients (AddressSpaces.destroy space y.kernel).2.mem := by
  have hm : space ∈ y.spaces := List.mem_of_getElem? hi
  have hnz := (h.tables.live_frame hm hl).2.2
  rcases h.tables.live hm hl with ⟨hplaced, hne⟩
  have howned := h.tables.owned
  have hdestroy : (AddressSpaces.destroy space y.kernel).2.mem =
      discardFree (freePrivateTables space.rootPage y.kernel.mem).mem space.rootPage := by
    rw [destroy_live hl hnz, leave_mem]
  have hdead : (AddressSpaces.destroy space y.kernel).1 = destroyed space := by rw [destroy_live hl hnz]
  rcases private_list howned hplaced hne with ⟨hnodup, hlist⟩
  have hcases := destroy_cases howned hplaced hne
  rw [show (⟨space.rootPage.addr⟩ : PhysPage) = space.rootPage from rfl, ← hdestroy] at hcases
  rcases hcases with ⟨ho, -, -, -, ⟨log, hlog, hok⟩, hlength, hcount, hleaves⟩
  generalize hL : (privateSlots.flatMap fun i => through y.kernel.mem.tables 2
    (y.kernel.mem.tables space.rootPage.addr i)) = L at hnodup hlist hcount
  have hmem (a : U64) : a ∈ insert space.rootPage.addr (addrs L) ↔ ∃ p, place a = some (space.rootPage.addr, p) := by
    rw [Finset.mem_insert, mem_addrs, hlist]
    constructor
    · rintro (rfl | ⟨p, -, ha⟩)
      · exact ⟨[], hplaced⟩
      · exact ⟨p, ha⟩
    · rintro ⟨p, ha⟩
      by_cases hnil : p = []
      · subst hnil
        exact .inl (howned.forest.root_self ha)
      · exact .inr ⟨p, hnil, ha⟩
  have hroot : space.rootPage.addr ∉ addrs L := by
    rw [mem_addrs, hlist]
    rintro ⟨p, hp, ha⟩
    rw [hplaced] at ha
    cases ha
    exact hp rfl
  have hcard : (insert space.rootPage.addr (addrs L)).card = L.length + 1 := by
    have hinj : (L.map PhysPage.addr).Nodup := hnodup.map fun a b he => by cases a; cases b; cases he; rfl
    rw [Finset.card_insert_of_notMem hroot, addrs, List.toFinset_card_of_nodup hinj, List.length_map]
  have hsub : insert space.rootPage.addr (addrs L) ⊆ info.frames := by
    intro a ha
    rcases (hmem a).mp ha with ⟨p, hp⟩
    exact (howned.managed hp).resolve_right hne
  have hout (a : U64) (ha : a ∈ insert space.rootPage.addr (addrs L)) : a ∉ y.kernel.mem.pmm.freeFrames := by
    rcases (hmem a).mp ha with ⟨p, hp⟩
    intro hfree
    rw [(howned.free_unplaced hfree).1] at hp
    cases hp
  have hfreed : (AddressSpaces.destroy space y.kernel).2.mem.pmm.freeFrames =
      y.kernel.mem.pmm.freeFrames ∪ insert space.rootPage.addr (addrs L) := by
    ext a
    rw [mem_freeFrames_iff ho, Finset.mem_union, hmem, mem_freeFrames_iff howned]
    constructor
    · rintro ⟨hF, hp, hheld⟩
      cases hx : place a with
      | none => exact .inl ⟨hF, rfl, hheld⟩
      | some x =>
        rcases x with ⟨r, p⟩
        by_cases hr : r = space.rootPage.addr
        · exact .inr ⟨p, by rw [hr]⟩
        · rw [Forest.prune_eq_some.mpr ⟨hx, hr⟩] at hp
          cases hp
    · rintro (⟨hF, hp, hheld⟩ | ⟨p, hp⟩)
      · exact ⟨hF, by simp [Forest.prune, hp], hheld⟩
      · refine ⟨(howned.managed hp).resolve_right hne, by simp [Forest.prune, hp], fun hheld => ?_⟩
        rw [(howned.held_inUse hheld).2] at hp
        cases hp
  refine ⟨insert space.rootPage.addr (addrs L),
    { tables := ?_
      taken := hout
      freed := hfreed
      log := ?_
      pages := frames_returned howned.frames ho.frames hsub hout hfreed
      count := by rw [hcard, hcount]
      leaves := ?_
      shared := ?_
      others := ?_
      clients := ?_
      again := ?_ }, ho⟩
  · intro a
    rw [hmem]
    constructor
    · rintro ⟨p, ha⟩
      by_cases hnil : p = []
      · subst hnil
        exact .inl (howned.forest.root_self ha)
      · exact .inr ⟨p.length, (tableBelow_iff howned hplaced hne).mpr ⟨p, hnil, rfl, ha⟩⟩
    · rintro (rfl | ⟨d, ha⟩)
      · exact ⟨[], hplaced⟩
      · rcases (tableBelow_iff howned hplaced hne).mp ha with ⟨p, -, -, hp⟩
        exact ⟨p, hp⟩
  · have hlen : log.length = L.length + 1 := by
      rw [hlog, List.length_append, hcount] at hlength
      omega
    rw [hlog, hcard, ← List.eq_replicate_iff.mpr ⟨hlen, hok⟩]
  · rw [hleaves, leaves_card howned hplaced hne, ← Set.ncard_coe_finset, leavesAt_eq howned hplaced hne]
  · intro d a ha hT
    rcases (hmem a).mp hT with ⟨p, hp⟩
    rcases h.tables.tableBelow_shared hm hl ha with ⟨q, -, hq⟩
    exact hne (placed_root hp hq)
  · intro r hr hrne d a ha hT
    rcases (hmem a).mp hT with ⟨p, hp⟩
    rcases hr with rfl | ⟨other, hom, hol, rfl⟩
    · rcases h.tables.tableAt_kernel ha with ⟨q, -, hq⟩
      exact hne (placed_root hp hq)
    · rcases h.tables.tableAt hom hol ha with ⟨q, -, hq | ⟨hq, -⟩⟩
      · exact hrne (placed_root hq hp)
      · exact hne (placed_root hp hq)
  · intro f hf hT
    rcases (hmem f).mp hT with ⟨p, hp⟩
    rw [(howned.held_inUse hf).2] at hp
    cases hp
  · intro k
    rw [hdead]
    rfl

/-- Calls on one space add to its own tree only. -/
theorem Inv.space_calls {ops : List Op} (h : Inv info place y₀) (hi : y₀.spaces[i]? = some space)
    (hl : space.ownsRoot = true) (hops : ∀ op ∈ ops, op.OnSpace i) (hrun : Run Step y₀ ops y) :
    ∃ place', Inv info place' y ∧ y.spaces[i]? = some space ∧ y.clients = y₀.clients ∧
      Forest.prune place' space.rootPage.addr = Forest.prune place space.rootPage.addr := by
  refine hrun.invariant_of_forall (fun z => ∃ place', Inv info place' z ∧ z.spaces[i]? = some space ∧
    z.clients = y₀.clients ∧ Forest.prune place' space.rootPage.addr = Forest.prune place space.rootPage.addr)
    (Op.OnSpace i) ?_ hops ⟨place, h, hi, rfl, rfl⟩
  rintro z op z' ⟨place₁, h₁, hi₁, hc₁, hprune⟩ hop hstep
  rcases h₁.space_call hi₁ hl hop hstep with ⟨place₂, h₂, hs, hsp, hc₂⟩
  refine ⟨place₂, h₂, by rw [hsp, hi₁], hc₂.trans hc₁, Eq.trans ?_ hprune⟩
  funext a
  apply Option.ext
  rintro ⟨r, p⟩
  rw [Forest.prune_eq_some, Forest.prune_eq_some]
  constructor
  · rintro ⟨ha, hr⟩
    rcases hs.fresh ha with ha | ⟨he, -⟩
    · exact ⟨ha, hr⟩
    · exact absurd he hr
  · rintro ⟨ha, hr⟩
    exact ⟨hs.kept ha, hr⟩

/-- Exact teardown: after any calls on a new space, `destroy` frees its tables and root once each and
the free counter is back where it was before the space was created. -/
theorem exact_teardown {ops : List Op} (hload : info.Loaded) (hy : Reachable info y₀)
    (hnew : AddressSpaces.new y₀.kernel = (.ok space, k₁)) (hops : ∀ op ∈ ops, op.OnSpace y₀.spaces.length)
    (hrun : Run Step { y₀ with kernel := k₁, spaces := y₀.spaces ++ [space] } ops y) :
    ∃ T, ExactTeardown y space T ∧
      y₀.kernel.mem.pmm.stats.freePages = y.kernel.mem.pmm.stats.freePages + T.card := by
  rcases hy.inv hload with ⟨place₀, h₀⟩
  rcases h₀.newSpace hnew with ⟨place₁, h₁, hl, hprune₁, -, -, -⟩
  have hi : (y₀.spaces ++ [space])[y₀.spaces.length]? = some space := by simp
  rcases h₁.space_calls hi hl hops hrun with ⟨place, h, hi, hclients, hprune⟩
  rcases h.exactTeardown hi hl with ⟨T, hT, ho⟩
  refine ⟨T, hT, ?_⟩
  rw [hprune, hprune₁, hclients] at ho
  have hfree : (AddressSpaces.destroy space y.kernel).2.mem.pmm.freeFrames = y₀.kernel.mem.pmm.freeFrames := by
    ext a
    rw [mem_freeFrames_iff ho, mem_freeFrames_iff h₀.tables.owned]
  have hc := h₀.tables.owned.frames.counter
  have hc' := ho.frames.counter
  rw [hfree] at hc'
  have hpages := hT.pages
  omega

/-- A new space with one mapping attempted in it. -/
theorem exact_teardown_sample : ∃ y₀ y space k T, Reachable sampleInfo y₀ ∧
    AddressSpaces.new y₀.kernel = (.ok space, k) ∧
    Step { y₀ with kernel := k, spaces := y₀.spaces ++ [space] } (.mapPage 0 ⟨0x8000000000⟩ ⟨0x200000⟩ .table) y ∧
    ExactTeardown y space T := by
  rcases sampleInfo_boots with ⟨k, hk⟩
  have hy : Reachable sampleInfo (.start k) := ⟨k, [], hk, .nil _⟩
  have hfree := (init_booted sampleInfo_loaded hk).free
  rw [sampleInfo_frames] at hfree
  rcases hy.inv sampleInfo_loaded with ⟨place, h⟩
  rcases h.newSpace_ok (Finset.card_pos.mp (by change 0 < k.mem.pmm.freeFrames.card; omega)) with ⟨space, k₁, hnew, -⟩
  have hstep : Step { System.start k with kernel := k₁, spaces := (System.start k).spaces ++ [space] }
    (.mapPage 0 ⟨0x8000000000⟩ ⟨0x200000⟩ .table) _ := .mapPage rfl
  have hon : ∀ op ∈ [Op.mapPage 0 ⟨0x8000000000⟩ ⟨0x200000⟩ .table], op.OnSpace 0 := by
    intro op hop
    rw [List.mem_singleton.mp hop]
    rfl
  rcases exact_teardown sampleInfo_loaded hy hnew hon (.single hstep) with ⟨T, hT, -⟩
  exact ⟨_, _, space, k₁, T, hy, hnew, hstep, hT⟩

end
end VenturaOS.Machine
