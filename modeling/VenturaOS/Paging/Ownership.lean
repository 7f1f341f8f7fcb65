import VenturaOS.Library.Forest
import VenturaOS.Paging.Tables
import VenturaOS.Pmm.Frames

/-!
# Who owns which frame

Page tables form a forest: each table stands at one path below one root. A
policy says which slots of a root lead to tables of its own, and which frames
a leaf entry takes over. Every frame out of the allocator is placed in the
forest or held by code outside it.
-/
namespace VenturaOS.Paging
open Library Pmm

abbrev Path := List (Fin 512)
abbrev Placement := U64 → Option (U64 × Path)

structure Policy where
  /-- The root that may hold tables of the static pool and large pages. -/
  boot : U64
  /-- Slots of a root whose tables belong to that root. -/
  slot : U64 → Fin 512 → Bool
  /-- Frames that belong to a root once a leaf in the table at this path points to them. -/
  leaf : U64 → Path → U64 → Bool
  /-- Frames a present leaf in the table at this path may point to at all. -/
  allowed : U64 → Path → U64 → Prop

/-- The frame that an entry at depth `p.length` leads to and owns. -/
def Policy.edge (pol : Policy) (r : U64) (p : Path) (i : Fin 512) (e : PageTableEntry) : Option U64 :=
  if p.length < 3 then
    if p = [] ∧ pol.slot r i = false then none else e.link
  else if p.length = 3 ∧ e.isPresent = true ∧ pol.leaf r p e.physAddr = true then some e.physAddr
  else none

/-- What a present entry above the leaves may be: writable, and large only over the low memory. -/
def Policy.Upper (pol : Policy) (r : U64) (p : Path) (e : PageTableEntry) : Prop :=
  e.isWritable = true ∧ (e.isHuge = true → r = pol.boot ∧ p.length = 2 ∧ p.head? = some 0)

namespace Policy

variable {pol : Policy} {r : U64} {p : Path} {i : Fin 512}

/-- The slot below path `p` is one the root owns. -/
def Owns (pol : Policy) (r : U64) (p : Path) (i : Fin 512) : Prop := p = [] → pol.slot r i = true

theorem edge_table (hp : p.length < 3) (hs : pol.Owns r p i) (e : PageTableEntry) :
    pol.edge r p i e = e.link := by
  rw [edge, if_pos hp, if_neg]
  rintro ⟨hnil, hslot⟩
  simp [hs hnil] at hslot

theorem edge_of_not_present {e : PageTableEntry} (h : e.isPresent = false) : pol.edge r p i e = none := by
  unfold edge
  split_ifs with h1 h2 h3
  · rfl
  · exact PageTableEntry.link_of_not_present h
  · simp [h] at h3
  · rfl

theorem edge_leaf (hp : p.length = 3) (e : PageTableEntry) :
    pol.edge r p i e = if e.isPresent = true ∧ pol.leaf r p e.physAddr = true then some e.physAddr else none := by
  rw [edge, if_neg (by omega)]
  simp [hp]

theorem edge_below (hp : 3 < p.length) (e : PageTableEntry) : pol.edge r p i e = none := by
  rw [edge, if_neg (by omega), if_neg (by omega)]

end Policy

/-- A frame taken from the allocator, or a pool table handed out while booting. -/
def InUse (F : Finset U64) (s : PageMemory) (a : U64) : Prop :=
  (a ∈ F ∧ a ∉ s.pmm.freeFrames) ∨ ∃ n < s.bootstrapIndex, a = s.poolTable n

/-- The static pool is page aligned, addressable, and not part of the frames in circulation. -/
structure PoolPlaced (F : Finset U64) (s : PageMemory) : Prop where
  aligned : s.bootstrapPool.toNat % 4096 = 0
  addressable : s.bootstrapPool.toNat + bootstrapTableCount * 4096 ≤ 2 ^ 52
  outside : ∀ n < bootstrapTableCount, s.poolTable n ∉ F
  index_le : s.bootstrapIndex ≤ bootstrapTableCount

/-- The ownership invariant. -/
structure Owned (pol : Policy) (F : Finset U64) (c : ℕ) (place : Placement) (held : Finset U64)
    (s : PageMemory) : Prop where
  frames : Frames F c s.pmm
  pool : PoolPlaced F s
  forest : Forest pol.edge s.tables place
  placed : ∀ {a r p}, place a = some (r, p) → InUse F s a
  held_inUse : ∀ {a}, a ∈ held → InUse F s a ∧ place a = none
  inUse : ∀ {a}, InUse F s a → place a ≠ none ∨ a ∈ held
  managed : ∀ {a r p}, place a = some (r, p) → a ∈ F ∨ r = pol.boot
  upper : ∀ {a r p} {i : Fin 512}, place a = some (r, p) → p.length < 3 → (s.tables a i).isPresent = true →
    pol.Upper r p (s.tables a i)
  leaves : ∀ {a r p} {i : Fin 512}, place a = some (r, p) → p.length = 3 → (s.tables a i).isPresent = true →
    pol.allowed r p (s.tables a i).physAddr

theorem PoolPlaced.toNat {F : Finset U64} {s : PageMemory} (h : PoolPlaced F s) {n : ℕ}
    (hn : n < bootstrapTableCount) : (s.poolTable n).toNat = s.bootstrapPool.toNat + n * 4096 := by
  have ha := h.addressable
  unfold bootstrapTableCount at hn ha
  rw [PageMemory.poolTable, BitVec.toNat_add, BitVec.toNat_ofNat]
  omega

theorem PoolPlaced.isFrame {F : Finset U64} {s : PageMemory} (h : PoolPlaced F s) {n : ℕ}
    (hn : n < bootstrapTableCount) : IsFrame (s.poolTable n) := by
  have ha := h.addressable
  have hal := h.aligned
  rw [IsFrame, h.toNat hn]
  unfold bootstrapTableCount at hn ha
  omega

theorem PoolPlaced.inj {F : Finset U64} {s : PageMemory} (h : PoolPlaced F s) {n m : ℕ}
    (hn : n < bootstrapTableCount) (hm : m < bootstrapTableCount) (he : s.poolTable n = s.poolTable m) :
    n = m := by
  have ht := congrArg BitVec.toNat he
  rw [h.toNat hn, h.toNat hm] at ht
  omega

namespace Owned

variable {pol : Policy} {F : Finset U64} {c : ℕ} {place : Placement} {held : Finset U64} {s : PageMemory}
  {a f r : U64} {p : Path} {i : Fin 512}

theorem isFrame_of_inUse (h : Owned pol F c place held s) (ha : InUse F s a) : IsFrame a := by
  rcases ha with ⟨hF, -⟩ | ⟨n, hn, rfl⟩
  · have := h.frames.address hF
    exact ⟨this.1, by omega⟩
  · exact h.pool.isFrame (lt_of_lt_of_le hn h.pool.index_le)

theorem huge (h : Owned pol F c place held s) (ha : place a = some (r, p)) (hp : p.length < 3)
    (hpres : (s.tables a i).isPresent = true) (hhuge : (s.tables a i).isHuge = true) :
    r = pol.boot ∧ p.length = 2 ∧ p.head? = some 0 := (h.upper ha hp hpres).2 hhuge

/-- Paths have at most four indices, and only leaf frames stand at the fourth. -/
theorem length_le (h : Owned pol F c place held s) (ha : place a = some (r, p)) : p.length ≤ 4 := by
  induction p using List.reverseRecOn generalizing a with
  | nil => simp
  | append_singleton p i ih =>
    rcases h.forest.parent ha with ⟨b, hb, he⟩
    rw [List.length_append, List.length_singleton]
    by_contra hlt
    rw [Policy.edge_below (by omega)] at he
    cases he

theorem free_unplaced (h : Owned pol F c place held s) (hf : f ∈ s.pmm.freeFrames) :
    place f = none ∧ f ∉ held := by
  have hnot : ¬ InUse F s f := by
    rintro (⟨-, hout⟩ | ⟨n, hn, rfl⟩)
    · exact hout hf
    · exact h.pool.outside n (lt_of_lt_of_le hn h.pool.index_le) (h.frames.free_subset hf)
  constructor
  · cases hp : place f with
    | none => rfl
    | some x => exact absurd (h.placed hp) hnot
  · intro hheld
    exact hnot (h.held_inUse hheld).1

/-- Only the table memory differs, and on placed nodes only where owned edges do not. -/
theorem retable (h : Owned pol F c place held s) {t : U64 → PageTable}
    (hsame : ∀ {a r p} i, place a = some (r, p) → pol.edge r p i (t a i) = pol.edge r p i (s.tables a i))
    (hupper : ∀ {a r p} {i : Fin 512}, place a = some (r, p) → p.length < 3 → (t a i).isPresent = true →
      pol.Upper r p (t a i))
    (hleaf : ∀ {a r p} {i : Fin 512}, place a = some (r, p) → p.length = 3 → (t a i).isPresent = true →
      pol.allowed r p (t a i).physAddr) :
    Owned pol F c place held { s with tables := t } :=
  { frames := h.frames
    pool := ⟨h.pool.aligned, h.pool.addressable, h.pool.outside, h.pool.index_le⟩
    forest := h.forest.congr hsame
    placed := h.placed
    held_inUse := h.held_inUse
    inUse := h.inUse
    managed := h.managed
    upper := hupper
    leaves := hleaf }

theorem relog (h : Owned pol F c place held s) (log : List (Except PageFreeError Unit)) :
    Owned pol F c place held { s with discarded := log } :=
  { h with
    pool := ⟨h.pool.aligned, h.pool.addressable, h.pool.outside, h.pool.index_le⟩ }

/-- Writes to a table that is placed nowhere are harmless. -/
theorem writeTable_unplaced (h : Owned pol F c place held s) (hf : place f = none) (t : PageTable) :
    Owned pol F c place held (s.writeTable f t) := by
  have hother {b : U64} {x} (hb : place b = some x) : Function.update s.tables f t b = s.tables b := by
    apply Function.update_of_ne
    rintro rfl
    simp [hf] at hb
  refine h.retable ?_ ?_ ?_
  · intro b r p i hb
    rw [hother hb]
  · intro b r p i hb
    rw [hother hb]
    exact h.upper hb
  · intro b r p i hb
    rw [hother hb]
    exact h.leaves hb

/-- A frame that comes into use is held by the one who took it. -/
theorem hold (h : Owned pol F c place held s) {s' : PageMemory} (hframes : Frames F c s'.pmm) (hpool : PoolPlaced F s')
    (ht : s'.tables = s.tables) (hplace : place f = none) (hiff : ∀ b, InUse F s' b ↔ InUse F s b ∨ b = f) :
    Owned pol F c place (insert f held) s' where
  frames := hframes
  pool := hpool
  forest := by
    rw [ht]
    exact h.forest
  placed hb := (hiff _).mpr (.inl (h.placed hb))
  held_inUse := by
    intro b hb
    rcases Finset.mem_insert.mp hb with rfl | hb
    · exact ⟨(hiff _).mpr (.inr rfl), hplace⟩
    · exact ⟨(hiff _).mpr (.inl (h.held_inUse hb).1), (h.held_inUse hb).2⟩
  inUse := by
    intro b hb
    rcases (hiff b).mp hb with hb | rfl
    · exact (h.inUse hb).imp_right Finset.mem_insert_of_mem
    · exact .inr (Finset.mem_insert_self _ _)
  managed := h.managed
  upper := by
    rw [ht]
    exact h.upper
  leaves := by
    rw [ht]
    exact h.leaves

/-- A held frame gets a place while the tables change; what is left to show is about their entries. -/
theorem settle (h : Owned pol F c place held s) (hf : f ∈ held) (hm : f ∈ F ∨ r = pol.boot) {t : U64 → PageTable}
    (hforest : Forest pol.edge t (Function.update place f (some (r, p))))
    (hnew : ∀ j, (t f j).isPresent = true →
      (p.length < 3 → pol.Upper r p (t f j)) ∧ (p.length = 3 → pol.allowed r p (t f j).physAddr))
    (hupper : ∀ {b r' q} {j : Fin 512}, place b = some (r', q) → q.length < 3 → (t b j).isPresent = true →
      pol.Upper r' q (t b j))
    (hleaf : ∀ {b r' q} {j : Fin 512}, place b = some (r', q) → q.length = 3 → (t b j).isPresent = true →
      pol.allowed r' q (t b j).physAddr) :
    Owned pol F c (Function.update place f (some (r, p))) (held.erase f) { s with tables := t } where
  frames := h.frames
  pool := ⟨h.pool.aligned, h.pool.addressable, h.pool.outside, h.pool.index_le⟩
  forest := hforest
  placed := by
    intro b r' q hb
    rcases Forest.placed_cases hb with ⟨rfl, -⟩ | ⟨-, hb⟩
    · exact (h.held_inUse hf).1
    · exact h.placed hb
  held_inUse := by
    intro b hb
    rcases Finset.mem_erase.mp hb with ⟨hne, hb⟩
    rw [Function.update_of_ne hne]
    exact h.held_inUse hb
  inUse := by
    intro b hb
    by_cases hbf : b = f
    · subst hbf
      exact .inl (by simp)
    · rw [Function.update_of_ne hbf]
      exact (h.inUse hb).imp_right (fun hmem => Finset.mem_erase.mpr ⟨hbf, hmem⟩)
  managed := by
    intro b r' q hb
    rcases Forest.placed_cases hb with ⟨rfl, hx⟩ | ⟨-, hb⟩
    · cases hx
      exact hm
    · exact h.managed hb
  upper := by
    intro b r' q j hb hq hpres
    rcases Forest.placed_cases hb with ⟨rfl, hx⟩ | ⟨-, hb⟩
    · cases hx
      exact (hnew j hpres).1 hq
    · exact hupper hb hq hpres
  leaves := by
    intro b r' q j hb hq hpres
    rcases Forest.placed_cases hb with ⟨rfl, hx⟩ | ⟨-, hb⟩
    · cases hx
      exact (hnew j hpres).2 hq
    · exact hleaf hb hq hpres

/-- `allocate_physical_page` fails with nothing free, or its caller now holds the frame. -/
theorem allocatePage_cases (h : Owned pol F c place held s) :
    (allocatePage s = (none, s) ∧ s.pmm.freeFrames = ∅) ∨
    ∃ f pmm, allocatePage s = (some ⟨f⟩, { s with pmm := pmm }) ∧ f ∈ s.pmm.freeFrames ∧
      pmm.freeFrames = s.pmm.freeFrames.erase f ∧
      Owned pol F c place (insert f held) { s with pmm := pmm } := by
  rcases h.frames.allocate with ⟨he, hempty⟩ | ⟨f, t, he, hf, hfree, ht⟩
  · exact .inl ⟨by simp only [allocatePage, he], hempty⟩
  · refine .inr ⟨f, t, by simp only [allocatePage, he], hf, hfree, ?_⟩
    have hF := h.frames.free_subset hf
    rcases h.free_unplaced hf with ⟨hplace, hheld⟩
    have hiff (b : U64) : InUse F { s with pmm := t } b ↔ InUse F s b ∨ b = f := by
      simp only [InUse, hfree, Finset.mem_erase, not_and_or, ne_eq, not_not]
      constructor
      · rintro (⟨hb, rfl | hb'⟩ | hb)
        · exact .inr rfl
        · exact .inl (.inl ⟨hb, hb'⟩)
        · exact .inl (.inr hb)
      · rintro ((⟨hb, hb'⟩ | hb) | rfl)
        · exact .inl ⟨hb, .inr hb'⟩
        · exact .inr hb
        · exact .inl ⟨hF, .inl rfl⟩
    exact h.hold ht ⟨h.pool.aligned, h.pool.addressable, h.pool.outside, h.pool.index_le⟩ rfl hplace hiff

/-- A frame the caller holds goes back to the allocator. -/
theorem freePage_held (h : Owned pol F c place held s) (hf : f ∈ held) (hF : f ∈ F) :
    ∃ pmm, freePage ⟨f⟩ s = (.ok (), { s with pmm := pmm }) ∧
      pmm.freeFrames = insert f s.pmm.freeFrames ∧
      Owned pol F c place (held.erase f) { s with pmm := pmm } := by
  have hpool (n : ℕ) (hn : n < s.bootstrapIndex) : s.poolTable n ≠ f := by
    rintro rfl
    exact h.pool.outside n (lt_of_lt_of_le hn h.pool.index_le) hF
  rcases h.held_inUse hf with ⟨hin, hplace⟩
  have hout : f ∉ s.pmm.freeFrames := by
    rcases hin with ⟨-, hout⟩ | ⟨n, hn, he⟩
    · exact hout
    · exact absurd he.symm (hpool n hn)
  rcases h.frames.free hF hout with ⟨t, he, hfree, ht⟩
  refine ⟨t, by simp only [freePage, he], hfree, ?_⟩
  have hiff (b : U64) : InUse F { s with pmm := t } b ↔ InUse F s b ∧ b ≠ f := by
    simp only [InUse, hfree, Finset.mem_insert, not_or, ne_eq]
    constructor
    · rintro (⟨hb, hne, hb'⟩ | ⟨n, hn, rfl⟩)
      · exact ⟨.inl ⟨hb, hb'⟩, hne⟩
      · exact ⟨.inr ⟨n, hn, rfl⟩, hpool n hn⟩
    · rintro ⟨⟨hb, hb'⟩ | hb, hne⟩
      · exact .inl ⟨hb, hne, hb'⟩
      · exact .inr hb
  exact
    { frames := ht
      pool := ⟨h.pool.aligned, h.pool.addressable, h.pool.outside, h.pool.index_le⟩
      forest := h.forest
      placed := by
        intro b r p hb
        refine (hiff b).mpr ⟨h.placed hb, ?_⟩
        rintro rfl
        simp [hplace] at hb
      held_inUse := by
        intro b hb
        rcases Finset.mem_erase.mp hb with ⟨hne, hb⟩
        exact ⟨(hiff b).mpr ⟨(h.held_inUse hb).1, hne⟩, (h.held_inUse hb).2⟩
      inUse := by
        intro b hb
        rcases (hiff b).mp hb with ⟨hb, hne⟩
        exact (h.inUse hb).imp_right (fun hmem => Finset.mem_erase.mpr ⟨hne, hmem⟩)
      managed := h.managed
      upper := h.upper
      leaves := h.leaves }

/-- The same when the result is ignored: it is `Ok`, and the log says so. -/
theorem discardFree_held (h : Owned pol F c place held s) (hf : f ∈ held) (hF : f ∈ F) :
    ∃ pmm, discardFree s ⟨f⟩ = { s with pmm := pmm, discarded := s.discarded ++ [.ok ()] } ∧
      pmm.freeFrames = insert f s.pmm.freeFrames ∧
      Owned pol F c place (held.erase f) (discardFree s ⟨f⟩) := by
  rcases h.freePage_held hf hF with ⟨t, he, hfree, ht⟩
  have hd : discardFree s ⟨f⟩ = { s with pmm := t, discarded := s.discarded ++ [.ok ()] } := by
    simp only [discardFree, he]
  refine ⟨t, hd, hfree, ?_⟩
  rw [hd]
  exact ht.relog _

end Owned
end VenturaOS.Paging
