import VenturaOS.Vmm.Obstacles

/-!
# How many frames a region takes

A run of pages needs a frame for each page and one for each directory and
page table that is not there yet. With these, and no page of it mapped
before, it is mapped; without, it is not.
-/
namespace VenturaOS.Vmm
open Library Pmm Paging Memory

/-- The table that the links along a path lead to. -/
def tableOn (tables : U64 → PageTable) : U64 → Path → Option U64
  | a, [] => some a
  | a, i :: is => (tables a i).link.bind fun b => tableOn tables b is

/-- The directories and page tables over the pages of a list. -/
def tablesOver (pages : List VirtAddr) : Finset Path := (pages.flatMap fun v => [directoryPath v, v.tablePath]).toFinset

/-- Those of them that are not there yet. -/
def lacking (tables : U64 → PageTable) (root : U64) (pages : List VirtAddr) : Finset Path :=
  (tablesOver pages).filter fun q => tableOn tables root q = none

section Tables

variable {pol : Policy} {k : U64} {F : Finset U64} {c : ℕ} {place place' : Placement} {held held' : Finset U64}
  {s s' : PageMemory} {a : U64} {p q : Path} {pages : List VirtAddr}

theorem tableOn_append (tables : U64 → PageTable) (a : U64) (p q : Path) :
    tableOn tables a (p ++ q) = (tableOn tables a p).bind fun b => tableOn tables b q := by
  induction p generalizing a with
  | nil => rfl
  | cons i p ih =>
    rw [List.cons_append, tableOn, tableOn]
    cases (tables a i).link with
    | none => rfl
    | some b =>
      rw [Option.bind_some, Option.bind_some]
      exact ih b

theorem tableOn_single (tables : U64 → PageTable) (b : U64) (i : Fin 512) : tableOn tables b [i] = (tables b i).link := by
  rw [tableOn]
  cases (tables b i).link with
  | none => rfl
  | some a => rfl

/-- The tables on paths from the kernel root are those placed there. -/
theorem tableOn_iff (h : Owned pol F c place held s) (hk : place k = some (k, [])) (howns : ∀ p i, pol.Owns k p i)
    (hp : p.length ≤ 3) : tableOn s.tables k p = some a ↔ place a = some (k, p) := by
  induction p using List.reverseRecOn generalizing a with
  | nil =>
    rw [tableOn, Option.some.injEq]
    constructor
    · rintro rfl
      exact hk
    · exact fun ha => (h.forest.root_self ha).symm
  | append_singleton p i ih =>
    rw [List.length_append, List.length_singleton] at hp
    rw [tableOn_append, Option.bind_eq_some_iff]
    constructor
    · rintro ⟨b, hb, hlink⟩
      rw [tableOn_single] at hlink
      exact h.follow ((ih (by omega)).mp hb) (by omega) (howns _ _) hlink
    · intro ha
      obtain ⟨b, hb, he⟩ := h.forest.parent ha
      rw [Policy.edge_table (by omega) (howns _ _)] at he
      exact ⟨b, (ih (by omega)).mpr hb, by rw [tableOn_single, he]⟩

theorem mem_tablesOver : q ∈ tablesOver pages ↔ ∃ v ∈ pages, q = directoryPath v ∨ q = v.tablePath := by
  rw [tablesOver, List.mem_toFinset, List.mem_flatMap]
  simp only [List.mem_cons, List.not_mem_nil, or_false]

theorem tablesOver_length (hq : q ∈ tablesOver pages) : q.length ≤ 3 := by
  obtain ⟨v, -, rfl | rfl⟩ := mem_tablesOver.mp hq
  · exact Nat.le_succ 2
  · exact le_rfl

/-- The paths at which no table stands are those the links do not reach. -/
theorem vacant_eq_lacking (h : Owned (tablePolicy k) F c place held s) (hk : place k = some (k, [])) :
    vacant k place (tablesOver pages) = lacking s.tables k pages := by
  ext q
  rw [mem_vacant, lacking, Finset.mem_filter, and_congr_right_iff]
  intro hq
  rw [Option.eq_none_iff_forall_not_mem]
  exact forall_congr' fun a => not_congr (tableOn_iff h hk table_owns (tablesOver_length hq)).symm

/-- Two states with the same placement have the same tables on every path. -/
theorem tableOn_congr (h : Owned pol F c place held s) (h' : Owned pol F c place' held' s') (hk : place k = some (k, []))
    (hkept : ∀ a x, place a = some x → place' a = some x) (howns : ∀ p i, pol.Owns k p i) (hp : p.length ≤ 3)
    (hnew : ∀ a, place' a = some (k, p) → place a = some (k, p)) : tableOn s'.tables k p = tableOn s.tables k p := by
  apply Option.ext
  intro a
  rw [tableOn_iff h' (hkept _ _ hk) howns hp, tableOn_iff h hk howns hp]
  exact ⟨hnew a, hkept a _⟩

end Tables

section Necessity

variable {k b : U64} {F : Finset U64} {c : ℕ} {place place' : Placement} {held : Finset U64} {s s' : PageMemory}
  {p q : Path} {v : VirtAddr} {T : Finset Path}

/-- What a path does not lack is there. -/
theorem placed_prefix (h : Owned (tablePolicy k) F c place held s) (hb : place b = some (k, p))
    (hlen : p.length + q.length ≤ 3) :
    ∃ a, place a = some (k, p ++ q.take (q.length - missing s.tables b q)) := by
  induction q generalizing b p with
  | nil => exact ⟨b, by simpa using hb⟩
  | cons j q ih =>
    rw [List.length_cons] at hlen
    rw [missing]
    cases hlink : (s.tables b j).link with
    | none =>
      rw [List.length_cons, Nat.sub_self, List.take_zero, List.append_nil]
      exact ⟨b, hb⟩
    | some d =>
      have hd := h.follow hb (by omega) (table_owns _ _) hlink
      obtain ⟨a, ha⟩ := ih hd (by rw [List.length_append, List.length_singleton]; omega)
      have hle := missing_le s.tables d q
      refine ⟨a, ?_⟩
      rw [List.length_cons, show q.length + 1 - missing s.tables d q = q.length - missing s.tables d q + 1 by omega,
        List.take_succ_cons]
      rw [List.append_assoc, List.singleton_append] at ha
      exact ha

/-- The places on the way to a page that have no table are no more than it lacks. -/
theorem vacant_prefixes (h : Owned (tablePolicy k) F c place held s) (hk : place k = some (k, []))
    (hT : ∀ q ∈ T, q <+: v.tablePath) : (vacant k place T).card ≤ missing s.tables k v.tablePath := by
  have hthree := v.tablePath_length
  obtain ⟨a, ha⟩ := placed_prefix (q := v.tablePath) h hk (by rw [hthree]; exact le_rfl)
  rw [List.nil_append] at ha
  have hle := missing_le s.tables k v.tablePath
  have hlong : ∀ q ∈ vacant k place T, q.length ∈ Finset.Ioc (3 - missing s.tables k v.tablePath) 3 := by
    intro q hq
    obtain ⟨hmem, hvacant⟩ := mem_vacant.mp hq
    obtain ⟨rest, hrest⟩ := hT q hmem
    have hsum : q.length + rest.length = 3 := by rw [← List.length_append, hrest, hthree]
    rw [Finset.mem_Ioc]
    refine ⟨?_, by omega⟩
    by_contra hshort
    -- a shorter prefix has a table, as the longer one has
    have hpre : q <+: v.tablePath.take (v.tablePath.length - missing s.tables k v.tablePath) := by
      rw [← hrest, List.prefix_take_iff]
      refine ⟨List.prefix_append q rest, ?_⟩
      rw [hrest, hthree]
      omega
    obtain ⟨below, hbelow⟩ := hpre
    rw [← hbelow] at ha
    obtain ⟨a', ha'⟩ := h.forest.ancestor ha
    exact hvacant a' ha'
  have hcard := Finset.card_le_card_of_injOn List.length hlong ?_
  · rw [Nat.card_Ioc] at hcard
    omega
  · intro q hq q' hq' he
    rw [Finset.mem_coe] at hq hq'
    obtain ⟨rest, hrest⟩ := hT q (mem_vacant.mp hq).1
    obtain ⟨rest', hrest'⟩ := hT q' (mem_vacant.mp hq').1
    exact (List.append_inj (hrest.trans hrest'.symm) he).1

/-- A batch that goes through had a frame for each table it lacked. -/
theorem mapPages_demand {flags : PageTableFlags} {todo : List (VirtAddr × PhysPage)} {done : List VirtAddr}
    (h : Owned (tablePolicy k) F c place held s) (hk : place k = some (k, [])) (hmode : s.isBootstrapping = false)
    (hT : ∀ q ∈ T, ∃ x ∈ todo, q <+: x.1.tablePath) (hrun : mapPages ⟨k⟩ flags done todo s = (true, s')) :
    (vacant k place T).card ≤ s.pmm.freeFrames.card := by
  induction todo generalizing done place s T with
  | nil =>
    have hempty : vacant k place T = ∅ := by
      ext q
      refine iff_of_false (fun hq => ?_) (Finset.notMem_empty q)
      obtain ⟨x, hx, -⟩ := hT q (mem_vacant.mp hq).1
      exact List.not_mem_nil hx
    rw [hempty]
    exact Nat.zero_le _
  | cons x todo ih =>
    obtain ⟨v, phys⟩ := x
    rw [mapPages] at hrun
    by_cases hargs : isCanonical v.addr = true ∧ v.isAligned = true ∧ phys.addr.toNat % pageSize = 0
    · obtain ⟨hc, hal, hph⟩ := hargs
      rcases h.mapPage_cases hk (table_owns [] _ rfl) (by simp [hmode]) hc hal hph flags with
        ⟨place', s₁, ho, hg, hnew, ⟨pt, he, hpt, -, -, hcost⟩ | ⟨he, -⟩ | ⟨he, -⟩⟩
      · rw [he] at hrun
        have hcost' := hcost hmode
        classical
        have hrest := ih (T := T.filter fun q => ¬ q <+: v.tablePath)
          (writeLeaf_tables ho (hg.kept hk) hpt (.set phys.addr flags)).1 (hg.kept hk) (hg.boot.mode.trans hmode) ?_ hrun
        · change _ ≤ s₁.pmm.freeFrames.card at hrest
          have hway := vacant_prefixes (v := v) (T := T.filter fun q => q <+: v.tablePath) h hk fun q hq =>
            (Finset.mem_filter.mp hq).2
          have hsub : vacant k place T ⊆ vacant k place' (T.filter fun q => ¬ q <+: v.tablePath) ∪
              vacant k place (T.filter fun q => q <+: v.tablePath) := by
            intro q hq
            obtain ⟨hmem, hvacant⟩ := mem_vacant.mp hq
            rw [Finset.mem_union, mem_vacant, mem_vacant, Finset.mem_filter, Finset.mem_filter]
            by_cases hpre : q <+: v.tablePath
            · exact .inr ⟨⟨hmem, hpre⟩, hvacant⟩
            · refine .inl ⟨⟨hmem, hpre⟩, fun a ha => ?_⟩
              apply (hnew ha).elim (hvacant a)
              exact hpre
          have hunion := (Finset.card_le_card hsub).trans (Finset.card_union_le _ _)
          omega
        · intro q hq
          obtain ⟨hmem, hpre⟩ := Finset.mem_filter.mp hq
          obtain ⟨x, hx, hxpre⟩ := hT q hmem
          rcases List.mem_cons.mp hx with rfl | hx
          · exact absurd hxpre hpre
          · exact ⟨x, hx, hxpre⟩
      · rw [he] at hrun
        cases hrun
      · rw [he] at hrun
        cases hrun
    · obtain ⟨e, he⟩ := mapPage_refused ⟨k⟩ flags s hargs
      rw [he] at hrun
      cases hrun

/-- The frames for the pages and the tables come from the same supply. -/
theorem takeAndMap_demand {flags : PageTableFlags} {start : U64} {n : ℕ} {l : List PhysPage} {s₁ : PageMemory}
    (h : Owned (tablePolicy k) F c place held s) (hk : place k = some (k, [])) (hmode : s.isBootstrapping = false)
    (hframes : allocateFrames n [] s = (some l, s₁))
    (hrun : mapPages ⟨k⟩ flags [] ((pagesFrom start n).zip l) s₁ = (true, s')) :
    n + (lacking s.tables k (pagesFrom start n)).card ≤ s.pmm.freeFrames.card := by
  have h₀ : Owned (tablePolicy k) F c place (held ∪ addrs []) s := by simpa using h
  rcases allocateFrames_cases n [] h₀ (.nil F held) with ⟨l', s₁', he, hlen, -, ho, ht, hsame, hcard⟩ | ⟨s', he, -⟩
  · rw [hframes] at he
    cases he
    have hfst : ((pagesFrom start n).zip l).map Prod.fst = pagesFrom start n :=
      List.map_fst_zip (by rw [pagesFrom_length, hlen]; exact Nat.le_add_left n _)
    have hdemand := mapPages_demand (T := tablesOver (pagesFrom start n)) ho hk (hsame.mode.trans hmode) ?_ hrun
    · rw [vacant_eq_lacking h hk] at hdemand
      omega
    · intro q hq
      obtain ⟨v, hv, hover⟩ := mem_tablesOver.mp hq
      rw [← hfst, List.mem_map] at hv
      obtain ⟨x, hx, rfl⟩ := hv
      refine ⟨x, hx, ?_⟩
      rcases hover with rfl | rfl
      · exact List.prefix_append (directoryPath x.1) [x.1.pdIndex]
      · exact List.prefix_rfl
  · rw [hframes] at he
    cases he

end Necessity

end VenturaOS.Vmm
