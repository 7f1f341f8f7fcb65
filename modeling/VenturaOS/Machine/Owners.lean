import VenturaOS.Machine.HeapRuns
import VenturaOS.Machine.Isolation
import VenturaOS.Paging.Refinement

/-!
# One owner for every frame

A frame out of the page allocator is a table linked below a live root, a leaf
of a live region, a page of the heap, or in the hands of a client, and never
two of these. The free counter and the number of owned frames add up to the
same number in every state.
-/
namespace VenturaOS.Machine
open Library Memory Pmm Paging Vmm AddressSpaces

inductive Owner
  /-- A table, or the root itself, by the indices that lead to it. -/
  | table (root : U64) (path : Path)
  | region (region : VirtRegion) (page : VirtAddr)
  | heap (page : VirtAddr)
  | client

/-- The table that links through `path` lead to. -/
def tableAlong (tables : U64 → PageTable) (a : U64) : Path → Option U64
  | [] => some a
  | i :: path => (tables a i).link.bind fun b => tableAlong tables b path

/-- The first slot of a path is one whose tables belong to the root: any of the kernel root,
and those a space does not share. -/
def OwnSlot (kernelRoot root : U64) (path : Path) : Prop :=
  ∀ i ∈ path.head?, root = kernelRoot ∨ isShared i = false

/-- The page is mapped to frame `f` below the kernel root. -/
def MappedTo (y : System) (page : VirtAddr) (f : U64) : Prop :=
  ∃ flags, translate y.kernel.mem.tables y.kernel.rootPml4 page = some (⟨f⟩, flags)

def Owns (y : System) (f : U64) : Owner → Prop
  | .table root path => y.IsRoot root ∧ path.length ≤ 3 ∧ OwnSlot y.kernel.rootPml4.addr root path ∧
      tableAlong y.kernel.mem.tables root path = some f
  | .region region page => region ∈ y.live ∧ page ∈ regionPages region ∧ MappedTo y page f
  | .heap page => UpperPage page ∧ HeapPage y.kernel.heap page ∧ MappedTo y page f
  | .client => f ∈ y.clients

/-- Where a frame with this owner stands below the roots. -/
def Owner.spot (k : U64) : Owner → Option (U64 × Path)
  | .table root path => some (root, path)
  | .region _ page => some (k, page.path)
  | .heap page => some (k, page.path)
  | .client => none

/-- The frames in circulation that someone owns. -/
def ownedFrames (info : BootInfo) (y : System) : Set U64 := {f | f ∈ info.frames ∧ ∃ owner, Owns y f owner}

section Tables

variable {F : Finset U64} {c : ℕ} {k r f : U64} {place : Placement} {held : Finset U64} {s : PageMemory} {p : Path}
  {v : VirtAddr}

theorem tableAlong_append (tables : U64 → PageTable) (a : U64) (p q : Path) :
    tableAlong tables a (p ++ q) = (tableAlong tables a p).bind fun b => tableAlong tables b q := by
  induction p generalizing a with
  | nil => rfl
  | cons i p ih =>
    simp only [List.cons_append, tableAlong]
    cases (tables a i).link with
    | none => rfl
    | some b => exact ih b

theorem tableAlong_snoc (tables : U64 → PageTable) (a : U64) (p : Path) (i : Fin 512) :
    tableAlong tables a (p ++ [i]) = (tableAlong tables a p).bind fun b => (tables b i).link := by
  rw [tableAlong_append]
  apply congrArg
  funext b
  exact Option.bind_fun_some _

theorem OwnSlot.parent {i : Fin 512} (h : OwnSlot k r (p ++ [i])) : OwnSlot k r p := by
  cases p with
  | nil => exact fun j hj => absurd hj (by simp)
  | cons j p => exact h

theorem ownSlot_owns {i : Fin 512} (h : OwnSlot k r (p ++ [i])) : (kernelPolicy k F).Owns r p i := by
  rintro rfl
  have hi := h i rfl
  simp only [isShared, Bool.or_eq_false_iff, decide_eq_false_iff_not, not_le] at hi
  simp only [kernelPolicy, decide_eq_true_eq]
  exact hi

theorem edge_slot {i : Fin 512} {e : PageTableEntry} {b : U64} (h : (kernelPolicy k F).edge r [] i e = some b) :
    r = k ∨ isShared i = false := by
  rw [Policy.edge, if_pos (by simp)] at h
  split_ifs at h with hslot
  simp only [kernelPolicy, true_and, decide_eq_false_iff_not, not_not] at hslot
  simp only [isShared, Bool.or_eq_false_iff, decide_eq_false_iff_not, not_le]
  exact hslot

theorem placed_ownSlot (h : Owned (kernelPolicy k F) F c place held s) (hf : place f = some (r, p)) : OwnSlot k r p := by
  cases p with
  | nil => exact fun i hi => absurd hi (by simp)
  | cons i p =>
    obtain ⟨a, ha⟩ := h.forest.ancestor (p := [i]) (q := p) hf
    obtain ⟨b, -, he⟩ := h.forest.parent (p := []) ha
    intro j hj
    cases hj
    exact edge_slot he

/-- Following links is the same as being placed. -/
theorem tableAlong_iff (h : Owned (kernelPolicy k F) F c place held s) (hr : place r = some (r, []))
    (hlen : p.length ≤ 3) (hslot : OwnSlot k r p) : tableAlong s.tables r p = some f ↔ place f = some (r, p) := by
  induction p using List.reverseRecOn generalizing f with
  | nil =>
    constructor
    · intro hf
      cases hf
      exact hr
    · intro hf
      rw [h.forest.root_self hf]
      rfl
  | append_singleton p i ih =>
    rw [List.length_append, List.length_singleton] at hlen
    have hdown {a : U64} := ih (f := a) (by omega) hslot.parent
    rw [tableAlong_snoc, Option.bind_eq_some_iff]
    constructor
    · rintro ⟨a, ha, hlink⟩
      exact h.follow (hdown.mp ha) (by omega) (ownSlot_owns hslot) hlink
    · intro hf
      obtain ⟨a, ha, he⟩ := h.forest.parent hf
      rw [Policy.edge_table (by omega) (ownSlot_owns hslot)] at he
      exact ⟨a, hdown.mpr ha, he⟩

/-- A managed frame is mapped at an upper-half page exactly if it stands there as a leaf. -/
theorem mapped_iff (h : Owned (kernelPolicy k F) F c place held s) (hk : place k = some (k, [])) (hf : f ∈ F)
    (hv : UpperPage v) : (∃ flags, translate s.tables ⟨k⟩ v = some (⟨f⟩, flags)) ↔ place f = some (k, v.path) := by
  have hne : v.pml4Index ≠ 0 := by
    intro hz
    have hup := hv.upper
    rw [hz] at hup
    simp at hup
  have hoff := pageOffset_aligned hv.aligned
  have hup : upper v.tablePath = true := upper_tablePath.mpr hv.upper
  constructor
  · rintro ⟨flags, ht⟩
    rcases h.leaf_cases hk (kernel_slot _) (fun _ => hne) hv.canonical with ⟨pt, hpt, hpres, -, ht', -⟩ | ⟨-, ht', -⟩
    · rw [ht', hoff, BitVec.add_zero] at ht
      have haddr : (s.tables pt v.ptIndex).physAddr = f := congrArg (fun x => x.1.addr) (Option.some.inj ht)
      refine h.forest.child (i := v.ptIndex) hpt ?_
      rw [Policy.edge_leaf v.tablePath_length, haddr, if_pos ⟨hpres, decide_eq_true ⟨rfl, hup, hf⟩⟩]
    · rw [ht'] at ht
      cases ht
  · intro hp
    obtain ⟨pt, hpt, he⟩ := h.forest.parent (show place f = some (k, v.tablePath ++ [v.ptIndex]) from hp)
    rw [Policy.edge_leaf v.tablePath_length] at he
    split_ifs at he with hleaf
    have haddr := Option.some.inj he
    have hdown := h.lookup_placed hpt (by rw [v.tablePath_length]) v.ptIndex []
    have hlook : lookup s.tables k v.path = some (s.tables pt v.ptIndex) := by
      change lookup s.tables k (v.tablePath ++ [v.ptIndex]) = _
      rw [hdown]
      simp only [lookup, if_true, hleaf.1]
    refine ⟨(s.tables pt v.ptIndex).flags, ?_⟩
    rw [h.translate_eq hk (kernel_slot _) (fun _ => hne) hv.canonical, hlook, Option.map_some, readLeaf, hoff,
      BitVec.add_zero, haddr]

/-- Every path of four indices into the upper half is the path of a page. -/
theorem page_of_path (hlen : p.length = 4) (hup : upper p = true) : ∃ v, UpperPage v ∧ v.path = p := by
  match p, hlen with
  | [i4, i3, i2, i1], _ =>
    have h4 : 256 ≤ i4.val := of_decide_eq_true hup
    have hlt4 := i4.isLt
    have hlt3 := i3.isLt
    have hlt2 := i2.isLt
    have hlt1 := i1.isLt
    have hval : (BitVec.ofNat 64 (2 ^ 64 - 2 ^ 48 + i4.val * 2 ^ 39 + i3.val * 2 ^ 30 + i2.val * 2 ^ 21 +
        i1.val * 2 ^ 12)).toNat = 2 ^ 64 - 2 ^ 48 + i4.val * 2 ^ 39 + i3.val * 2 ^ 30 + i2.val * 2 ^ 21 +
        i1.val * 2 ^ 12 := by
      rw [BitVec.toNat_ofNat]
      omega
    generalize BitVec.ofNat 64 (2 ^ 64 - 2 ^ 48 + i4.val * 2 ^ 39 + i3.val * 2 ^ 30 + i2.val * 2 ^ 21 +
      i1.val * 2 ^ 12) = a at hval
    have hpml4 : (VirtAddr.mk a).pml4Index = i4 := by
      rw [Fin.ext_iff, VirtAddr.pml4Index, VirtAddr.index_val, hval]
      omega
    refine ⟨⟨a⟩, ⟨?_, ?_, ?_⟩, ?_⟩
    · rw [isCanonical_iff, hval]
      omega
    · simp only [VirtAddr.isAligned, pageSize, beq_iff_eq, hval]
      omega
    · rw [hpml4]
      exact h4
    · have h3 : (VirtAddr.mk a).pdptIndex = i3 := by
        rw [Fin.ext_iff, VirtAddr.pdptIndex, VirtAddr.index_val, hval]
        omega
      have h2 : (VirtAddr.mk a).pdIndex = i2 := by
        rw [Fin.ext_iff, VirtAddr.pdIndex, VirtAddr.index_val, hval]
        omega
      have h1 : (VirtAddr.mk a).ptIndex = i1 := by
        rw [Fin.ext_iff, VirtAddr.ptIndex, VirtAddr.index_val, hval]
        omega
      rw [VirtAddr.path, VirtAddr.tablePath, hpml4, h3, h2, h1]
      rfl

end Tables

section Owners

variable {info : BootInfo} {place : Placement} {y y' : System} {f : U64} {o o' : Owner}

theorem Orderly.live_page (h : Orderly info place y) {region : VirtRegion} (hr : region ∈ y.live) {v : VirtAddr}
    (hv : v ∈ regionPages region) : UpperPage v :=
  UpperPages.upperPage (h.inv.regions region (h.extents.returned region hr)).2 hv

theorem Inv.root_placed (h : Inv info place y) {r : U64} (hr : y.IsRoot r) : place r = some (r, []) := by
  rcases hr with rfl | ⟨space, hm, hl, rfl⟩
  · exact h.tables.rooted
  · exact (h.tables.live hm hl).1

/-- An owner tells where the frame stands. -/
theorem Orderly.place_of_owns (h : Orderly info place y) (hf : f ∈ info.frames) (ho : Owns y f o) :
    place f = o.spot y.kernel.rootPml4.addr := by
  have howned := h.inv.tables.owned
  have hk := h.inv.tables.rooted
  cases o with
  | table root path =>
    obtain ⟨hr, hlen, hslot, halong⟩ := ho
    exact (tableAlong_iff howned (h.inv.root_placed hr) hlen hslot).mp halong
  | region region page =>
    obtain ⟨hlive, hpage, hmapped⟩ := ho
    exact (mapped_iff howned hk hf (h.live_page hlive hpage)).mp hmapped
  | heap page =>
    obtain ⟨hpage, -, hmapped⟩ := ho
    exact (mapped_iff howned hk hf hpage).mp hmapped
  | client => exact (howned.held_inUse ho).2

theorem Orderly.owned (h : Orderly info place y) (hf : f ∈ info.frames) (hout : f ∉ y.kernel.mem.pmm.freeFrames) :
    ∃ o, Owns y f o := by
  have howned := h.inv.tables.owned
  have hk := h.inv.tables.rooted
  rcases howned.inUse (.inl ⟨hf, hout⟩) with hplaced | hheld
  · obtain ⟨⟨r, p⟩, hp⟩ := Option.ne_none_iff_exists'.mp hplaced
    have hr := howned.forest.rooted hp
    by_cases hlen : p.length ≤ 3
    · have hslot := placed_ownSlot howned hp
      exact ⟨.table r p, h.inv.tables.roots hr, hlen, hslot, (tableAlong_iff howned hr hlen hslot).mpr hp⟩
    · have hle := howned.length_le hp
      have hfour : p.length = 4 := by omega
      obtain ⟨-, rfl, hup⟩ := leaf_managed howned hp hfour
      obtain ⟨v, hv, rfl⟩ := page_of_path hfour hup
      have hmapped : MappedTo y v f := (mapped_iff howned hk hf hv).mpr hp
      rcases (h.extents.occupied hv).mp ⟨f, hp⟩ with ⟨region, hlive, hpage⟩ | hpage
      · exact ⟨.region region v, hlive, hpage, hmapped⟩
      · exact ⟨.heap v, hv, hpage, hmapped⟩
  · exact ⟨.client, hheld⟩

/-- An owner is determined by where the frame stands. -/
theorem Orderly.owner_inj (h : Orderly info place y) (ho : Owns y f o) (ho' : Owns y f o')
    (hp : o.spot y.kernel.rootPml4.addr = o'.spot y.kernel.rootPml4.addr) : o = o' := by
  have hpath {v w : VirtAddr} (hv : UpperPage v) (hw : UpperPage w) (he : v.path = w.path) : v = w :=
    VirtAddr.path_inj hv.canonical hw.canonical hv.aligned hw.aligned he
  have hshort {root : U64} {path : Path} {v : VirtAddr} (ht : Owns y f (.table root path))
      (he : some (root, path) = some (y.kernel.rootPml4.addr, v.path)) : False := by
    have hlen := ht.2.1
    cases he
    rw [v.path_length] at hlen
    omega
  have hsplit {region : VirtRegion} {v w : VirtAddr} (hr : Owns y f (.region region v)) (hh : Owns y f (.heap w))
      (he : some (y.kernel.rootPml4.addr, v.path) = some (y.kernel.rootPml4.addr, w.path)) : False := by
    have hvw := hpath (h.live_page hr.1 hr.2.1) hh.1 (congrArg Prod.snd (Option.some.inj he))
    subst hvw
    exact h.extents.heapApart region hr.1 v hr.2.1 hh.2.1
  cases o with
  | table root path =>
    cases o' with
    | table root' path' =>
      cases hp
      rfl
    | region => exact absurd hp (hshort ho)
    | heap => exact absurd hp (hshort ho)
    | client => cases hp
  | region region v =>
    cases o' with
    | table => exact absurd hp.symm (hshort ho')
    | region region' w =>
      have hvw := hpath (h.live_page ho.1 ho.2.1) (h.live_page ho'.1 ho'.2.1) (congrArg Prod.snd (Option.some.inj hp))
      subst hvw
      by_cases he : region = region'
      · rw [he]
      · have hsymm : Std.Symm fun r q : VirtRegion => ∀ v ∈ regionPages r, v ∉ regionPages q :=
          ⟨fun r q hrq v hq hr => hrq v hr hq⟩
        exact absurd ho'.2.1 (h.extents.apart.forall ho.1 ho'.1 he v ho.2.1)
    | heap w => exact absurd hp (hsplit ho ho')
    | client => cases hp
  | heap v =>
    cases o' with
    | table => exact absurd hp.symm (hshort ho')
    | region region' w => exact absurd hp.symm (hsplit ho' ho)
    | heap w =>
      have hvw := hpath ho.1 ho'.1 (congrArg Prod.snd (Option.some.inj hp))
      rw [hvw]
    | client => cases hp
  | client =>
    cases o' with
    | client => rfl
    | _ => cases hp

theorem Orderly.one_owner (h : Orderly info place y) (hf : f ∈ info.frames) (hout : f ∉ y.kernel.mem.pmm.freeFrames) :
    ∃! o, Owns y f o := by
  obtain ⟨o, ho⟩ := h.owned hf hout
  refine ⟨o, ho, fun o' ho' => h.owner_inj ho' ho ?_⟩
  rw [← h.place_of_owns hf ho, ← h.place_of_owns hf ho']

theorem Orderly.owned_iff (h : Orderly info place y) (hf : f ∈ info.frames) :
    (∃ o, Owns y f o) ↔ f ∉ y.kernel.mem.pmm.freeFrames := by
  constructor
  · rintro ⟨o, ho⟩ hfree
    obtain ⟨hplace, hheld⟩ := h.inv.tables.owned.free_unplaced hfree
    rw [h.place_of_owns hf ho] at hplace
    cases o with
    | client => exact hheld ho
    | _ => cases hplace
  · exact h.owned hf

theorem Orderly.ownedFrames_eq (h : Orderly info place y) :
    ownedFrames info y = ↑(info.frames \ y.kernel.mem.pmm.freeFrames) := by
  ext f
  rw [ownedFrames, Set.mem_ofPred_eq, Finset.mem_coe, Finset.mem_sdiff]
  exact and_congr_right fun hf => h.owned_iff hf

/-- The free counter and the owned frames add up to what `pmm::init` counted. -/
theorem Orderly.conserved (h : Orderly info place y) :
    y.kernel.mem.pmm.stats.freePages + (ownedFrames info y).ncard = info.count := by
  rw [h.ownedFrames_eq, Set.ncard_coe_finset]
  exact h.inv.tables.owned.frames.counter

theorem Orderly.run (h : Orderly info place y) {ops : List Op} (hrun : Run TimelyStep y ops y') :
    ∃ place', Orderly info place' y' := by
  refine hrun.invariant (fun y => ∃ place, Orderly info place y) ?_ ⟨place, h⟩
  rintro y op y' ⟨place, h⟩ hstep
  obtain ⟨place', h', -⟩ := h.call hstep
  exact ⟨place', h'⟩

/-- In every state after `heap::init` each frame out of the allocator has one owner, no ignored free has failed,
and no frame was lost or counted twice. -/
theorem frames_owned_once (hload : info.Loaded) {k₀ k : Kernel} (hvmm : Vmm.init info info.kernel = some k₀)
    (hheap : Heap.init k₀ = some k) {ops : List Op} (hrun : Run TimelyStep (System.start k) ops y) :
    (∀ f ∈ info.frames, f ∉ y.kernel.mem.pmm.freeFrames → ∃! o, Owns y f o) ∧
      (∀ result ∈ y.kernel.mem.discarded, result = .ok ()) ∧
      y.kernel.mem.pmm.stats.freePages + (ownedFrames info y).ncard =
        k.mem.pmm.stats.freePages + (ownedFrames info (System.start k)).ncard := by
  obtain ⟨place₀, h₀⟩ := Orderly.start (init_booted hload hvmm)
  have hstep : TimelyStep (System.start k₀) .heapInit (System.start k) := ⟨⟨.heapInit hheap, trivial⟩, trivial⟩
  obtain ⟨place₁, h₁, -⟩ := h₀.call hstep
  obtain ⟨place, h⟩ := h₁.run hrun
  refine ⟨fun f hf hout => h.one_owner hf hout, h.log, ?_⟩
  rw [h.conserved]
  exact h₁.conserved.symm

end Owners

/-- The sample machine after a client asked for a frame. -/
theorem sample_owned_once : ∃ k ops y, Run TimelyStep (System.start k) ops y ∧ ops ≠ [] ∧
    (∀ f ∈ sampleInfo.frames, f ∉ y.kernel.mem.pmm.freeFrames → ∃! o, Owns y f o) ∧
      (∀ result ∈ y.kernel.mem.discarded, result = .ok ()) ∧
      y.kernel.mem.pmm.stats.freePages + (ownedFrames sampleInfo y).ncard =
        k.mem.pmm.stats.freePages + (ownedFrames sampleInfo (System.start k)).ncard := by
  obtain ⟨k₀, region, k₁, hvmm, -, hheap, -, -⟩ := heap_starts sampleInfo_loaded sampleInfo_low sampleInfo_clear
    (by rw [sampleInfo_frames]; omega)
  have htake : ∃ y, TimelyStep (System.start (Heap.initBlock region k₁)) .takeFrame y := by
    cases hpage : allocatePage (System.start (Heap.initBlock region k₁)).kernel.mem with
    | mk page mem =>
      cases page with
      | none => exact ⟨_, ⟨.takeFrameFails hpage, trivial⟩, trivial⟩
      | some page => exact ⟨_, ⟨.takeFrame hpage, trivial⟩, trivial⟩
  obtain ⟨y, hstep⟩ := htake
  exact ⟨_, [.takeFrame], y, .single hstep, by simp, frames_owned_once sampleInfo_loaded hvmm hheap (.single hstep)⟩

end VenturaOS.Machine
