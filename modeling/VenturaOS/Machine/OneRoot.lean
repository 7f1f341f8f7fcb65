import VenturaOS.Machine.Isolation
import VenturaOS.Paging.Refinement

/-!
# One root at a time

Seen from one root, the tables of slots 1 to 511 are a tree of their own: the
kernel half counts as part of it, whoever allocated it. This is where the
refinement of a single page map applies to the running system.
-/
namespace VenturaOS.Machine
open Library Memory Pmm Paging Vmm AddressSpaces

/-- The tables of root `r` outside slot 0, with the shared kernel half counted as its own. -/
def seenFrom (k r : U64) (place : Placement) : Placement := fun a =>
  (place a).bind fun x =>
    if x.2.length ≤ 3 ∧ ((x.1 = r ∧ x.2.head? ≠ some 0) ∨ (x.1 = k ∧ upper x.2 = true)) then some (r, x.2) else none

section

variable {F : Finset U64} {c : ℕ} {k r : U64} {spaces : List AddressSpace} {clients : Finset U64}
  {place : Placement} {s : PageMemory}

theorem seenFrom_eq_some {a r' : U64} {p : Path} : seenFrom k r place a = some (r', p) ↔
    r' = r ∧ p.length ≤ 3 ∧
      ((place a = some (r, p) ∧ p.head? ≠ some 0) ∨ (place a = some (k, p) ∧ upper p = true)) := by
  unfold seenFrom
  cases hp : place a with
  | none => simp
  | some x =>
    rcases x with ⟨r₀, q⟩
    simp only [Option.bind_some, Option.some.injEq, Prod.mk.injEq]
    constructor
    · intro h
      split_ifs at h with hc
      cases h
      rcases hc with ⟨hlen, ⟨rfl, hhead⟩ | ⟨rfl, hup⟩⟩
      · exact ⟨rfl, hlen, .inl ⟨⟨rfl, rfl⟩, hhead⟩⟩
      · exact ⟨rfl, hlen, .inr ⟨⟨rfl, rfl⟩, hup⟩⟩
    · rintro ⟨rfl, hlen, ⟨⟨rfl, rfl⟩, hhead⟩ | ⟨⟨rfl, rfl⟩, hup⟩⟩
      · rw [if_pos ⟨hlen, .inl ⟨rfl, hhead⟩⟩]
      · rw [if_pos ⟨hlen, .inr ⟨rfl, hup⟩⟩]

theorem upper_append {p : Path} (hp : p ≠ []) (i : Fin 512) : upper (p ++ [i]) = upper p := by
  cases p with
  | nil => exact absurd rfl hp
  | cons j p => rfl

theorem head_append {p : Path} (hp : p ≠ []) (i : Fin 512) : (p ++ [i]).head? = p.head? := by
  cases p with
  | nil => exact absurd rfl hp
  | cons j p => rfl

theorem tree_edge {p : Path} {i : Fin 512} {e : PageTableEntry} {b : U64} :
    (treePolicy r).edge r p i e = some b ↔ p.length < 3 ∧ (p = [] → i ≠ 0) ∧ e.link = some b := by
  unfold Policy.edge
  simp only [treePolicy, true_and, Bool.false_eq_true, and_false, if_false]
  by_cases hp : p.length < 3
  · rw [if_pos hp]
    by_cases hz : p = [] ∧ i = 0
    · simp [hz]
    · rw [if_neg (by simpa using hz)]
      simp only [hp, true_and]
      exact ⟨fun h => ⟨fun hn hi => hz ⟨hn, hi⟩, h⟩, And.right⟩
  · simp [hp]

theorem kernel_edge_link {r' : U64} {p : Path} {i : Fin 512} {e : PageTableEntry} {b : U64} (hp : p.length < 3)
    (h : (kernelPolicy k F).edge r' p i e = some b) : e.link = some b := by
  rw [Policy.edge, if_pos hp] at h
  split_ifs at h
  exact h

/-- The tree seen from a root whose upper-half entries are the kernel root's. -/
theorem Tables.seenForest (h : Tables F c k spaces clients place s) (hr : place r = some (r, []))
    (hagree : ∀ i : Fin 512, 256 ≤ i.val → s.tables r i = s.tables k i) :
    Forest (treePolicy r).edge s.tables (seenFrom k r place) where
  root_self ha := by
    rcases seenFrom_eq_some.mp ha with ⟨rfl, -, ⟨ha, -⟩ | ⟨-, hup⟩⟩
    · exact h.owned.forest.root_self ha
    · cases hup
  rooted ha := by
    rcases seenFrom_eq_some.mp ha with ⟨rfl, -⟩
    exact seenFrom_eq_some.mpr ⟨rfl, by simp, .inl ⟨hr, by simp⟩⟩
  child {a r' p i b} ha he := by
    rcases seenFrom_eq_some.mp ha with ⟨rfl, -, hcase⟩
    rcases tree_edge.mp he with ⟨hp, hz, hlink⟩
    refine seenFrom_eq_some.mpr ⟨rfl, by simp; omega, ?_⟩
    rcases hcase with ⟨ha, hhead⟩ | ⟨ha, hup⟩
    · by_cases hown : (kernelPolicy k F).Owns r' p i
      · refine .inl ⟨h.owned.follow ha hp hown hlink, ?_⟩
        cases p with
        | nil => simpa using hz rfl
        | cons j p => simpa using hhead
      · -- an upper-half slot of a space: the kernel root has the same entry
        rw [Policy.Owns, Classical.not_imp] at hown
        rcases hown with ⟨rfl, hslot⟩
        have hself := h.owned.forest.root_self ha
        subst hself
        have hi : 256 ≤ i.val := by
          simp only [kernelPolicy, decide_eq_true_eq, not_or, not_and_or, not_not, not_lt] at hslot
          exact hslot.2.resolve_left (hz rfl)
        rw [hagree i hi] at hlink
        exact .inr ⟨h.owned.follow h.rooted (by simp) (kernel_owns _ _) hlink, decide_eq_true hi⟩
    · have hne : p ≠ [] := by
        rintro rfl
        cases hup
      exact .inr ⟨h.owned.follow ha hp (kernel_owns _ _) hlink, by rw [upper_append hne, hup]⟩
  parent {b r' p i} hb := by
    rcases seenFrom_eq_some.mp hb with ⟨rfl, hlen, hcase⟩
    rw [List.length_append, List.length_singleton] at hlen
    rcases hcase with ⟨hb, hhead⟩ | ⟨hb, hup⟩
    · rcases h.owned.forest.parent hb with ⟨a, ha, he⟩
      have hlink := kernel_edge_link (by omega) he
      by_cases hnil : p = []
      · subst hnil
        exact ⟨a, seenFrom_eq_some.mpr ⟨rfl, by simp, .inl ⟨ha, by simp⟩⟩,
          tree_edge.mpr ⟨by simp, fun _ => by simpa using hhead, hlink⟩⟩
      · rw [head_append hnil] at hhead
        exact ⟨a, seenFrom_eq_some.mpr ⟨rfl, by omega, .inl ⟨ha, hhead⟩⟩,
          tree_edge.mpr ⟨by omega, fun hn => absurd hn hnil, hlink⟩⟩
    · rcases h.owned.forest.parent hb with ⟨a, ha, he⟩
      have hlink := kernel_edge_link (by omega) he
      by_cases hnil : p = []
      · subst hnil
        have hi : 256 ≤ i.val := of_decide_eq_true hup
        rw [h.owned.forest.root_self ha, ← hagree i hi] at hlink
        refine ⟨r', seenFrom_eq_some.mpr ⟨rfl, by simp, .inl ⟨hr, by simp⟩⟩, tree_edge.mpr ⟨by simp, fun _ hz => ?_, hlink⟩⟩
        rw [hz] at hi
        simp at hi
      · rw [upper_append hnil] at hup
        exact ⟨a, seenFrom_eq_some.mpr ⟨rfl, by omega, .inr ⟨ha, hup⟩⟩,
          tree_edge.mpr ⟨by omega, fun hn => absurd hn hnil, hlink⟩⟩

theorem inUse_finite (F : Finset U64) (s : PageMemory) : ∃ U : Finset U64, ∀ a, a ∈ U ↔ InUse F s a := by
  refine ⟨(F \ s.pmm.freeFrames) ∪ (Finset.range s.bootstrapIndex).image s.poolTable, fun a => ?_⟩
  rw [Finset.mem_union, Finset.mem_sdiff, Finset.mem_image, InUse]
  refine or_congr Iff.rfl ⟨?_, ?_⟩
  · rintro ⟨n, hn, rfl⟩
    exact ⟨n, Finset.mem_range.mp hn, rfl⟩
  · rintro ⟨n, hn, rfl⟩
    exact ⟨n, Finset.mem_range.mpr hn, rfl⟩

theorem Tables.tree (h : Tables F c k spaces clients place s) (hr : place r = some (r, []))
    (hagree : ∀ i : Fin 512, 256 ≤ i.val → s.tables r i = s.tables k i) : Tree r s := by
  rcases inUse_finite F s with ⟨U, hU⟩
  have hplaced {a r' : U64} {p : Path} (ha : seenFrom k r place a = some (r', p)) :
      r' = r ∧ ∃ r₀, place a = some (r₀, p) ∧ (r₀ = r ∨ upper p = true) := by
    rcases seenFrom_eq_some.mp ha with ⟨rfl, -, ⟨ha, -⟩ | ⟨ha, hup⟩⟩
    · exact ⟨rfl, r', ha, .inl rfl⟩
    · exact ⟨rfl, k, ha, .inr hup⟩
  refine ⟨F, c, seenFrom k r place, U.filter fun a => seenFrom k r place a = none, ?_,
    seenFrom_eq_some.mpr ⟨rfl, by simp, .inl ⟨hr, by simp⟩⟩, h.mode⟩
  exact
    { frames := h.owned.frames
      pool := h.owned.pool
      forest := h.seenForest hr hagree
      placed := by
        intro a r' p ha
        rcases hplaced ha with ⟨-, r₀, ha, -⟩
        exact h.owned.placed ha
      held_inUse := by
        intro a ha
        rcases Finset.mem_filter.mp ha with ⟨ha, hn⟩
        exact ⟨(hU a).mp ha, hn⟩
      inUse := by
        intro a ha
        by_cases hn : seenFrom k r place a = none
        · exact .inr (Finset.mem_filter.mpr ⟨(hU a).mpr ha, hn⟩)
        · exact .inl hn
      managed := fun ha => .inr (hplaced ha).1
      upper := by
        intro a r' p i ha hp hpres
        rcases hplaced ha with ⟨rfl, r₀, ha, hcase⟩
        rcases h.owned.upper ha hp hpres with ⟨hw, hlarge⟩
        refine ⟨hw, fun hh => ?_⟩
        rcases hlarge hh with ⟨-, hlen, hhead⟩
        exact ⟨rfl, hlen, hhead⟩
      leaves := fun _ _ _ => trivial }

end

section

variable {info : BootInfo} {y : System} {r : U64} {s t : PageMemory} {calls : List Call} {call : Call}

theorem Reachable.tree (hload : info.Loaded) (hy : Reachable info y) (hr : y.IsRoot r) : Tree r y.kernel.mem := by
  rcases hy.inv hload with ⟨place, h⟩
  rcases hr with rfl | ⟨space, hm, hl, rfl⟩
  · exact h.tables.tree h.tables.rooted fun _ _ => rfl
  · refine h.tables.tree (h.tables.live hm hl).1 fun i hi => h.tables.agree hm hl i ?_
    simp only [isShared, Bool.or_eq_true, decide_eq_true_eq]
    exact .inr hi

/-- On any root of a reachable state, every call of every sequence does what the partial map says. -/
theorem page_tables_refine_map (hload : info.Loaded) (hy : Reachable info y) (hr : y.IsRoot r)
    (hrun : Run (CallStep ⟨r⟩) y.kernel.mem calls s) (hcalls : ∀ c ∈ calls, c.Valid) (hcall : call.Valid)
    (hstep : CallStep ⟨r⟩ s call t) : CallSpec ⟨r⟩ s call t :=
  (((hy.tree hload hr).run hrun hcalls).step hcall hstep).2

/-- A page mapped at the start of slot 1 and unmapped again. -/
theorem page_tables_refine_map_sample : ∃ k first second s t, init sampleInfo sampleInfo.kernel = some k ∧
    CallStep k.rootPml4 k.mem (.mapped ⟨0x8000000000⟩ ⟨0x200000⟩ .table first) s ∧
    CallStep k.rootPml4 s (.unmapped ⟨0x8000000000⟩ second) t ∧
    ((∃ page, second = .ok page) ↔ translate s.tables k.rootPml4 ⟨0x8000000000⟩ ≠ none) := by
  rcases sampleInfo_boots with ⟨k, hk⟩
  have hy : Reachable sampleInfo (.start k) := ⟨k, [], hk, .nil _⟩
  have hcov : Covered ⟨0x8000000000⟩ := ⟨by decide, by decide⟩
  have hmap : CallStep k.rootPml4 k.mem (.mapped ⟨0x8000000000⟩ ⟨0x200000⟩ .table
      (mapPage k.rootPml4 ⟨0x8000000000⟩ ⟨0x200000⟩ .table k.mem).1)
      (mapPage k.rootPml4 ⟨0x8000000000⟩ ⟨0x200000⟩ .table k.mem).2 := .map rfl
  generalize (mapPage k.rootPml4 ⟨0x8000000000⟩ ⟨0x200000⟩ .table k.mem).1 = first at hmap
  generalize (mapPage k.rootPml4 ⟨0x8000000000⟩ ⟨0x200000⟩ .table k.mem).2 = s at hmap
  have hunmap : CallStep k.rootPml4 s (.unmapped ⟨0x8000000000⟩ (unmapPage k.rootPml4 ⟨0x8000000000⟩ s).1)
      (unmapPage k.rootPml4 ⟨0x8000000000⟩ s).2 := .unmap rfl
  have hspec := page_tables_refine_map sampleInfo_loaded hy (.inl rfl) (.single hmap)
    (by
      intro c hc
      rw [List.mem_singleton.mp hc]
      exact ⟨hcov, by decide, by decide, by decide, by decide⟩)
    (show (Call.unmapped ⟨0x8000000000⟩ _).Valid from ⟨hcov, by decide⟩) hunmap
  exact ⟨k, _, _, s, _, hk, hmap, hunmap, hspec.1⟩

end
end VenturaOS.Machine
