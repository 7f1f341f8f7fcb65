import VenturaOS.Paging.Ownership

/-!
# Creating tables on the way down

`get_or_create_table` either follows a link, stops at a large page, finds no
frame, or links a fresh zeroed table into an empty slot. A walk that creates
tables keeps ownership, writes only below its own root, and changes no
translation.
-/
namespace VenturaOS.Paging
open Library Pmm

/-- The present leaf entry at the end of a path, following table links. -/
def lookup (tables : U64 → PageTable) : U64 → Path → Option PageTableEntry
  | _, [] => none
  | a, i :: is =>
    if is = [] then (if (tables a i).isPresent then some (tables a i) else none)
    else (tables a i).link.bind fun b => lookup tables b is

/-- The entries the processor reads along a path, up to a large page; `none` when one is absent. -/
def reach (tables : U64 → PageTable) : U64 → Path → Option (List PageTableEntry)
  | _, [] => some []
  | a, i :: is =>
    if (tables a i).isPresent then
      if (tables a i).isHuge ∧ is ≠ [] then some [tables a i]
      else (reach tables (tables a i).physAddr is).map (tables a i :: ·)
    else none

/-- How many tables along a path are not there yet. -/
def missing (tables : U64 → PageTable) : U64 → Path → ℕ
  | _, [] => 0
  | a, i :: is =>
    match (tables a i).link with
    | some b => missing tables b is
    | none => is.length + 1

theorem lookup_zero {tables : U64 → PageTable} {a : U64} (h : tables a = .zero) (is : Path) :
    lookup tables a is = none := by
  cases is with
  | nil => rfl
  | cons i is =>
    rw [lookup, h]
    change (if is = [] then (if PageTableEntry.empty.isPresent then _ else none) else
      PageTableEntry.empty.link.bind _) = none
    simp

theorem reach_absent {tables : U64 → PageTable} {a : U64} {i : Fin 512} (h : (tables a i).isPresent = false) (is : Path) :
    reach tables a (i :: is) = none := by
  rw [reach, h, if_neg Bool.false_ne_true]

/-- The next entry decides how the walk goes on. -/
theorem reach_congr {tables tables' : U64 → PageTable} {a : U64} {i : Fin 512} {is : Path}
    (he : tables' a i = tables a i)
    (hrest : is ≠ [] → (tables a i).link = some (tables a i).physAddr →
      reach tables' (tables a i).physAddr is = reach tables (tables a i).physAddr is) :
    reach tables' a (i :: is) = reach tables a (i :: is) := by
  rw [reach, reach, he]
  by_cases hpres : (tables a i).isPresent = true
  · rw [if_pos hpres, if_pos hpres]
    by_cases hnil : is = []
    · subst hnil
      rfl
    · by_cases hhuge : (tables a i).isHuge = true
      · rw [if_pos ⟨hhuge, hnil⟩, if_pos ⟨hhuge, hnil⟩]
      · have hlink := PageTableEntry.link_eq_some.mpr ⟨hpres, by simpa using hhuge, rfl⟩
        rw [if_neg fun h => hhuge h.1, if_neg fun h => hhuge h.1, hrest hnil hlink]
  · rw [if_neg hpres, if_neg hpres]

theorem missing_zero {tables : U64 → PageTable} {a : U64} (h : tables a = .zero) (is : Path) :
    missing tables a is = is.length := by
  cases is with
  | nil => rfl
  | cons i is =>
    simp only [missing, h, PageTable.zero, PageTableEntry.empty_link, List.length_cons]

theorem missing_le (tables : U64 → PageTable) (a : U64) (is : Path) : missing tables a is ≤ is.length := by
  induction is generalizing a with
  | nil => simp [missing]
  | cons i is ih =>
    rw [missing, List.length_cons]
    split
    · exact (ih _).trans (Nat.le_succ _)
    · exact le_rfl

/-- The fields a table walk never touches. -/
structure SameBoot (s s' : PageMemory) : Prop where
  pool : s'.bootstrapPool = s.bootstrapPool
  mode : s'.isBootstrapping = s.isBootstrapping
  log : s'.discarded = s.discarded

theorem SameBoot.refl (s : PageMemory) : SameBoot s s := ⟨rfl, rfl, rfl⟩

theorem SameBoot.trans {s s' s'' : PageMemory} (h : SameBoot s s') (h' : SameBoot s' s'') : SameBoot s s'' :=
  ⟨h'.pool.trans h.pool, h'.mode.trans h.mode, h'.log.trans h.log⟩

/-- What a table walk below root `r` may do. -/
structure Grows (pol : Policy) (r : U64) (place place' : Placement) (s s' : PageMemory) : Prop where
  boot : SameBoot s s'
  pmm : s.isBootstrapping = true → s'.pmm = s.pmm
  kept : ∀ {a x}, place a = some x → place' a = some x
  fresh : ∀ {a r' p}, place' a = some (r', p) →
    place a = some (r', p) ∨ (place a = none ∧ r' = r ∧ p ≠ [] ∧ p.length ≤ 3)
  local_writes : ∀ a, s'.tables a = s.tables a ∨ ∃ p, place' a = some (r, p)
  present : ∀ {a x} (i : Fin 512), place a = some x → (s.tables a i).isPresent = true →
    s'.tables a i = s.tables a i
  lookup_eq : ∀ {t r' p j q}, place t = some (r', p) → p.length + q.length = 3 → pol.Owns r' p j →
    lookup s'.tables t (j :: q) = lookup s.tables t (j :: q)
  reach_eq : ∀ {t r' p j q}, place t = some (r', p) → p.length + q.length = 3 → pol.Owns r' p j →
    reach s'.tables t (j :: q) = reach s.tables t (j :: q)

theorem Grows.refl (pol : Policy) (r : U64) (place : Placement) (s : PageMemory) : Grows pol r place place s s :=
  { boot := .refl s
    pmm := fun _ => rfl
    kept := id
    fresh := .inl
    local_writes := fun _ => .inl rfl
    present := fun _ _ _ => rfl
    lookup_eq := fun _ _ _ => rfl
    reach_eq := fun _ _ _ => rfl }

theorem Grows.trans {pol : Policy} {r : U64} {place place' place'' : Placement} {s s' s'' : PageMemory}
    (h : Grows pol r place place' s s') (h' : Grows pol r place' place'' s' s'') :
    Grows pol r place place'' s s'' where
  boot := h.boot.trans h'.boot
  pmm hb := (h'.pmm (h.boot.mode.trans hb)).trans (h.pmm hb)
  kept ha := h'.kept (h.kept ha)
  fresh {a r' p} ha := by
    rcases h'.fresh ha with ha | ⟨hn, hnew⟩
    · exact h.fresh ha
    · cases hp : place a with
      | none => exact .inr ⟨rfl, hnew⟩
      | some x => simp [h.kept hp] at hn
  local_writes a := by
    rcases h'.local_writes a with he | hp
    · rcases h.local_writes a with he' | ⟨p, hp⟩
      · exact .inl (he.trans he')
      · exact .inr ⟨p, h'.kept hp⟩
    · exact .inr hp
  present i ha hp := by
    have he := h.present i ha hp
    rw [h'.present i (h.kept ha) (by rw [he]; exact hp), he]
  lookup_eq ha hl ho := (h'.lookup_eq (h.kept ha) hl ho).trans (h.lookup_eq ha hl ho)
  reach_eq ha hl ho := (h'.reach_eq (h.kept ha) hl ho).trans (h.reach_eq ha hl ho)

/-- The second tables come from the first by linking the empty table `f` into the absent entry `i` of `a`. -/
structure NewLink (tables tables' : U64 → PageTable) (a f : U64) (i : Fin 512) : Prop where
  absent : (tables a i).isPresent = false
  slot : tables' a i = .set f PageTableFlags.table
  zero : tables' f = .zero
  other : ∀ {b j}, b ≠ f → ¬(b = a ∧ j = i) → tables' b j = tables b j

namespace NewLink

variable {pol : Policy} {place : Placement} {tables tables₀ tables' : U64 → PageTable} {a f r t r' : U64} {p p' q : Path}
  {i j : Fin 512}

theorem congr (h : NewLink tables tables' a f i) (haf : a ≠ f) (h₀ : ∀ b, b ≠ f → tables b = tables₀ b) :
    NewLink tables₀ tables' a f i where
  absent := by
    rw [← h₀ a haf]
    exact h.absent
  slot := h.slot
  zero := h.zero
  other hb hno := by
    rw [← h₀ _ hb]
    exact h.other hb hno

theorem placed (h : NewLink tables tables' a f i) (hplace : place f = none) {x : U64 × Path} (ht : place t = some x)
    (hno : ¬(t = a ∧ j = i)) : tables' t j = tables t j := by
  refine h.other ?_ hno
  rintro rfl
  rw [hplace] at ht
  cases ht

theorem leaf (h : NewLink tables tables' a f i) (hplace : place f = none) (ha : place a = some (r, p)) (hp : p.length < 3)
    (ht : place t = some (r', p')) (hp' : p'.length = 3) : tables' t j = tables t j := by
  refine h.placed hplace ht ?_
  rintro ⟨rfl, -⟩
  rw [ha] at ht
  cases ht
  omega

/-- Below the new link there is nothing, and elsewhere nothing moved. -/
theorem lookup_eq (h : NewLink tables tables' a f i) (hforest : Forest pol.edge tables place) (hf : IsFrame f)
    (hplace : place f = none) (ha : place a = some (r, p)) (hp : p.length < 3) (ht : place t = some (r', p'))
    (hl : p'.length + q.length = 3) (ho : pol.Owns r' p' j) : lookup tables' t (j :: q) = lookup tables t (j :: q) := by
  induction q generalizing t p' j with
  | nil => rw [lookup, lookup, if_pos rfl, if_pos rfl, h.leaf hplace ha hp ht hl]
  | cons j' q ih =>
    rw [List.length_cons] at hl
    rw [lookup, lookup, if_neg (List.cons_ne_nil _ _), if_neg (List.cons_ne_nil _ _)]
    by_cases hta : t = a ∧ j = i
    · rcases hta with ⟨rfl, rfl⟩
      rw [h.slot, PageTableEntry.set_table_link hf, PageTableEntry.link_of_not_present h.absent]
      exact lookup_zero h.zero (j' :: q)
    · rw [h.placed hplace ht hta]
      cases hb : (tables t j).link with
      | none => rfl
      | some b =>
        have hchild := hforest.child ht (by rw [Policy.edge_table (by omega) ho, hb])
        exact ih hchild (by rw [List.length_append, List.length_singleton]; omega) (by simp [Policy.Owns])

theorem reach_eq (h : NewLink tables tables' a f i) (hforest : Forest pol.edge tables place) (hf : IsFrame f)
    (hplace : place f = none) (ha : place a = some (r, p)) (hp : p.length < 3) (ht : place t = some (r', p'))
    (hl : p'.length + q.length = 3) (ho : pol.Owns r' p' j) : reach tables' t (j :: q) = reach tables t (j :: q) := by
  induction q generalizing t p' j with
  | nil => exact reach_congr (h.leaf hplace ha hp ht hl) fun hnil => absurd rfl hnil
  | cons j' q ih =>
    rw [List.length_cons] at hl
    by_cases hta : t = a ∧ j = i
    · rcases hta with ⟨rfl, rfl⟩
      have hempty : (tables' f j').isPresent = false := by
        rw [h.zero]
        exact PageTableEntry.empty_isPresent
      rcases PageTableEntry.link_eq_some.mp (PageTableEntry.set_table_link hf) with ⟨hpres, hsmall, hphys⟩
      rw [reach_absent h.absent, reach, h.slot, if_pos hpres, if_neg (by simp [hsmall]), hphys, reach_absent hempty,
        Option.map_none]
    · refine reach_congr (h.placed hplace ht hta) fun _ hb => ?_
      have hchild := hforest.child ht (by rw [Policy.edge_table (by omega) ho, hb])
      exact ih hchild (by rw [List.length_append, List.length_singleton]; omega) (by simp [Policy.Owns])

theorem grows {s s' : PageMemory} (h : NewLink s.tables s'.tables a f i) (hforest : Forest pol.edge s.tables place)
    (hf : IsFrame f) (hplace : place f = none) (ha : place a = some (r, p)) (hp : p.length < 3) (hsame : SameBoot s s')
    (hpmm : s.isBootstrapping = true → s'.pmm = s.pmm) :
    Grows pol r place (Function.update place f (some (r, p ++ [i]))) s s' where
  boot := hsame
  pmm := hpmm
  kept := by
    intro b x hb
    rw [Function.update_of_ne, hb]
    rintro rfl
    rw [hplace] at hb
    cases hb
  fresh := by
    intro b r' q hb
    rcases Forest.placed_cases hb with ⟨rfl, hx⟩ | ⟨-, hb⟩
    · cases hx
      exact .inr ⟨hplace, rfl, by simp, by simp; omega⟩
    · exact .inl hb
  local_writes := by
    intro b
    by_cases hbf : b = f
    · subst hbf
      exact .inr ⟨p ++ [i], Function.update_self _ _ _⟩
    · by_cases hba : b = a
      · subst hba
        exact .inr ⟨p, by rw [Function.update_of_ne hbf, ha]⟩
      · left
        funext j
        exact h.other hbf fun hno => hba hno.1
  present := by
    intro b x j hb hpres
    refine h.placed hplace hb ?_
    rintro ⟨rfl, rfl⟩
    rw [h.absent] at hpres
    cases hpres
  lookup_eq := h.lookup_eq hforest hf hplace ha hp
  reach_eq := h.reach_eq hforest hf hplace ha hp

end NewLink

namespace Owned

variable {pol : Policy} {F : Finset U64} {c : ℕ} {place : Placement} {held : Finset U64} {s : PageMemory}
  {a f r : U64} {p : Path} {i : Fin 512}

/-- A new pool table is zeroed and held by its taker. -/
theorem allocateBootstrapTable_cases (h : Owned pol F c place held s) :
    (allocateBootstrapTable s = (none, s) ∧ bootstrapTableCount ≤ s.bootstrapIndex) ∨
    ∃ f s', allocateBootstrapTable s = (some ⟨f⟩, s') ∧ Owned pol F c place (insert f held) s' ∧
      f ∉ held ∧ place f = none ∧ (∀ b, b ≠ f → s'.tables b = s.tables b) ∧ s'.tables f = .zero ∧
      s'.bootstrapIndex = s.bootstrapIndex + 1 ∧ s'.pmm = s.pmm ∧ SameBoot s s' ∧
      f = s.poolTable s.bootstrapIndex := by
  by_cases hfull : s.bootstrapIndex ≥ bootstrapTableCount
  · exact .inl ⟨by rw [allocateBootstrapTable, if_pos hfull], hfull⟩
  have hlt : s.bootstrapIndex < bootstrapTableCount := by omega
  have hnot : ¬ InUse F s (s.poolTable s.bootstrapIndex) := by
    rintro (⟨hF, -⟩ | ⟨n, hn, he⟩)
    · exact h.pool.outside _ hlt hF
    · have := h.pool.inj hlt (lt_trans hn hlt) he
      omega
  have hplace : place (s.poolTable s.bootstrapIndex) = none := by
    cases hp : place (s.poolTable s.bootstrapIndex) with
    | none => rfl
    | some x => exact absurd (h.placed hp) hnot
  have hheld : s.poolTable s.bootstrapIndex ∉ held := fun hmem => hnot (h.held_inUse hmem).1
  refine .inr ⟨s.poolTable s.bootstrapIndex,
    { s with bootstrapIndex := s.bootstrapIndex + 1 }.writeTable (s.poolTable s.bootstrapIndex) .zero,
    by rw [allocateBootstrapTable, if_neg hfull], ?_, hheld, hplace, ?_, ?_, rfl, rfl, ⟨rfl, rfl, rfl⟩, rfl⟩
  · have hiff (b : U64) : InUse F { s with bootstrapIndex := s.bootstrapIndex + 1 } b ↔
        InUse F s b ∨ b = s.poolTable s.bootstrapIndex := by
      constructor
      · rintro (hb | ⟨n, hn, rfl⟩)
        · exact .inl (.inl hb)
        · by_cases hlast : n = s.bootstrapIndex
          · subst hlast
            exact .inr rfl
          · exact .inl (.inr ⟨n, by simp only at hn; omega, rfl⟩)
      · rintro ((hb | ⟨n, hn, rfl⟩) | rfl)
        · exact .inl hb
        · exact .inr ⟨n, Nat.lt_succ_of_lt hn, rfl⟩
        · exact .inr ⟨_, Nat.lt_succ_self _, rfl⟩
    have hpool : PoolPlaced F { s with bootstrapIndex := s.bootstrapIndex + 1 } :=
      ⟨h.pool.aligned, h.pool.addressable, h.pool.outside, hlt⟩
    have hnew : Owned pol F c place (insert (s.poolTable s.bootstrapIndex) held)
        { s with bootstrapIndex := s.bootstrapIndex + 1 } := h.hold h.frames hpool rfl hplace hiff
    exact hnew.writeTable_unplaced hplace _
  · intro b hb
    exact Function.update_of_ne hb _ _
  · exact Function.update_self _ _ _

/-- The frame for a new table is held by the walk, which is the only one to know it. -/
theorem newTableFrame_cases (h : Owned pol F c place held s) :
    (newTableFrame s = (none, s) ∧ (s.isBootstrapping = false → s.pmm.freeFrames = ∅) ∧
      (s.isBootstrapping = true → bootstrapTableCount ≤ s.bootstrapIndex)) ∨
    ∃ f s', newTableFrame s = (some ⟨f⟩, s') ∧ Owned pol F c place (insert f held) s' ∧
      f ∉ held ∧ place f = none ∧ (∀ b, b ≠ f → s'.tables b = s.tables b) ∧ SameBoot s s' ∧
      (s.isBootstrapping = true → s'.pmm = s.pmm) ∧
      (s.isBootstrapping = false →
        f ∈ F ∧ f ∈ s.pmm.freeFrames ∧ s'.pmm.freeFrames = s.pmm.freeFrames.erase f) := by
  unfold newTableFrame
  cases hb : s.isBootstrapping with
  | true =>
    rcases h.allocateBootstrapTable_cases with ⟨he, hfull⟩ | ⟨f, s', he, ho, hh, hp, ht, -, -, hpmm, hs, -⟩
    · exact .inl ⟨he, by simp, fun _ => hfull⟩
    · exact .inr ⟨f, s', he, ho, hh, hp, ht, hs, fun _ => hpmm, by simp⟩
  | false =>
    rcases h.allocatePage_cases with ⟨he, hempty⟩ | ⟨f, pmm, he, hf, hfree, ho⟩
    · exact .inl ⟨he, fun _ => hempty, by simp⟩
    · rcases h.free_unplaced hf with ⟨hp, hh⟩
      exact .inr ⟨f, _, he, ho, hh, hp, fun _ _ => rfl, ⟨rfl, rfl, rfl⟩, by simp,
        fun _ => ⟨h.frames.free_subset hf, hf, hfree⟩⟩

theorem linked_tables (hne : a ≠ f) (e : PageTableEntry) (b : U64) :
    ((s.writeTable f .zero).writeEntry a i e).tables b =
      if b = a then Function.update (s.tables a) i e else if b = f then PageTable.zero else s.tables b := by
  change Function.update (Function.update s.tables f PageTable.zero) a
    (Function.update (Function.update s.tables f PageTable.zero a) i e) b = _
  rw [Function.update_of_ne hne]
  by_cases hba : b = a
  · subst hba
    rw [Function.update_self, if_pos rfl]
  · rw [Function.update_of_ne hba, if_neg hba]
    by_cases hbf : b = f
    · subst hbf
      rw [Function.update_self, if_pos rfl]
    · rw [Function.update_of_ne hbf, if_neg hbf]

theorem newLink (hne : a ≠ f) (hn : (s.tables a i).isPresent = false) :
    NewLink s.tables ((s.writeTable f .zero).writeEntry a i (.set f PageTableFlags.table)).tables a f i where
  absent := hn
  slot := by rw [linked_tables hne, if_pos rfl, Function.update_self]
  zero := by rw [linked_tables hne, if_neg (Ne.symm hne), if_pos rfl]
  other := by
    intro b j hb hno
    rw [linked_tables hne]
    by_cases hba : b = a
    · subst hba
      rw [if_pos rfl, Function.update_of_ne fun hj => hno ⟨rfl, hj⟩]
    · rw [if_neg hba, if_neg hb]

theorem linkHeld (h : Owned pol F c place held s) (hf : f ∈ held) (ha : place a = some (r, p)) (hp : p.length < 3)
    (hs : pol.Owns r p i) (hm : f ∈ F ∨ r = pol.boot) {t : U64 → PageTable} (hl : NewLink s.tables t a f i) :
    Owned pol F c (Function.update place f (some (r, p ++ [i]))) (held.erase f) { s with tables := t } := by
  rcases h.held_inUse hf with ⟨hin, hplace⟩
  have hlink := PageTableEntry.set_table_link (h.isFrame_of_inUse hin)
  refine h.settle hf hm ?_ ?_ ?_ ?_
  · refine h.forest.attach hplace ha (Policy.edge_of_not_present hl.absent) ?_ ?_ ?_
    · rw [Policy.edge_table hp hs, hl.slot, hlink]
    · intro j
      rw [hl.zero]
      exact Policy.edge_of_not_present PageTableEntry.empty_isPresent
    · intro b r' q j hb hno
      rw [hl.placed hplace hb hno]
  · intro j hpres
    rw [hl.zero] at hpres
    exact absurd hpres (by simp [PageTable.zero])
  · intro b r' q j hb hq hpres
    by_cases hba : b = a ∧ j = i
    · rcases hba with ⟨rfl, rfl⟩
      rw [hl.slot]
      refine ⟨PageTableEntry.set_isWritable _ _, fun hhuge => ?_⟩
      rw [(PageTableEntry.link_eq_some.mp hlink).2.1] at hhuge
      cases hhuge
    · rw [hl.placed hplace hb hba] at hpres ⊢
      exact h.upper hb hq hpres
  · intro b r' q j hb hq hpres
    rw [hl.leaf hplace ha hp hb hq] at hpres ⊢
    exact h.leaves hb hq hpres

/-- Linking a fresh table into an empty slot: ownership, and the growth it amounts to, seen from
the memory `s₀` before the frame was taken. -/
theorem linkTable (h : Owned pol F c place (insert f held) s) (hf : f ∉ held)
    (ha : place a = some (r, p)) (hp : p.length < 3) (hs : pol.Owns r p i)
    (hn : (s.tables a i).isPresent = false) (hm : f ∈ F ∨ r = pol.boot) {s₀ : PageMemory}
    (h₀ : ∀ b, b ≠ f → s.tables b = s₀.tables b) (hsame : SameBoot s₀ s)
    (hpmm : s₀.isBootstrapping = true → s.pmm = s₀.pmm) :
    Owned pol F c (Function.update place f (some (r, p ++ [i]))) held
        ((s.writeTable f .zero).writeEntry a i (.set f PageTableFlags.table)) ∧
      Grows pol r place (Function.update place f (some (r, p ++ [i]))) s₀
        ((s.writeTable f .zero).writeEntry a i (.set f PageTableFlags.table)) := by
  rcases h.held_inUse (Finset.mem_insert_self f held) with ⟨hin, hplace⟩
  have hframe := h.isFrame_of_inUse hin
  have hne {b : U64} {x} (hb : place b = some x) : b ≠ f := by
    rintro rfl
    rw [hplace] at hb
    cases hb
  have hlink := newLink (i := i) (hne ha) hn
  constructor
  · have hnew := h.linkHeld (Finset.mem_insert_self f held) ha hp hs hm hlink
    rw [Finset.erase_insert hf] at hnew
    exact hnew
  · have hforest : Forest pol.edge s₀.tables place := h.forest.congr fun j hb => by rw [h₀ _ (hne hb)]
    exact (hlink.congr (hne ha) h₀).grows hforest hframe hplace ha hp (hsame.trans ⟨rfl, rfl, rfl⟩) hpmm

/-- A link below an owned slot leads to a table placed there. -/
theorem follow (h : Owned pol F c place held s) (ha : place a = some (r, p)) (hp : p.length < 3)
    (hs : pol.Owns r p i) {b : U64} (hb : (s.tables a i).link = some b) : place b = some (r, p ++ [i]) :=
  h.forest.child ha (by rw [Policy.edge_table hp hs, hb])

/-- The outcomes of a creating walk below a placed table. -/
theorem walkCreate_cases (is : Path) (h : Owned pol F c place held s) (ha : place a = some (r, p))
    (hl : p.length + is.length ≤ 3) (hs : ∀ i ∈ is.head?, pol.Owns r p i)
    (hboot : s.isBootstrapping = true → r = pol.boot) :
    ∃ place' s', Owned pol F c place' held s' ∧ Grows pol r place place' s s' ∧
      (∀ {b r' q}, place' b = some (r', q) → place b = some (r', q) ∨ q <+: p ++ is) ∧
      ((∃ b, walkCreate a is s = (.ok b, s') ∧ place' b = some (r, p ++ is) ∧
          (s.isBootstrapping = false → s'.pmm.freeFrames.card + missing s.tables a is = s.pmm.freeFrames.card)) ∨
        (walkCreate a is s = (.error .alreadyMapped, s') ∧ r = pol.boot ∧ (p ++ is).head? = some 0 ∧
          3 ≤ (p ++ is).length) ∨
        (walkCreate a is s = (.error .frameAllocationFailed, s') ∧
          (s.isBootstrapping = false → s.pmm.freeFrames.card < missing s.tables a is) ∧
          (s.isBootstrapping = true → bootstrapTableCount ≤ s'.bootstrapIndex))) := by
  induction is generalizing a p place s with
  | nil =>
    refine ⟨place, s, h, .refl .., .inl, .inl ⟨a, rfl, by simpa using ha, fun _ => by simp [missing]⟩⟩
  | cons i is ih =>
    rw [List.length_cons] at hl
    have hown : pol.Owns r p i := hs i (by simp)
    have hp : p.length < 3 := by omega
    rw [walkCreate, getOrCreateTable]
    by_cases hpres : (s.tables a i).isPresent = true
    · simp only [hpres, if_true]
      by_cases hhuge : (s.tables a i).isHuge = true
      · rcases h.huge ha hp hpres hhuge with ⟨hr, hlen, hhead⟩
        refine ⟨place, s, h, .refl .., .inl, .inr (.inl ⟨by simp [hhuge], hr, ?_, ?_⟩)⟩
        · rw [List.head?_append, hhead]
          rfl
        · rw [List.length_append, List.length_cons]
          omega
      · have hlink : (s.tables a i).link = some (s.tables a i).physAddr :=
          PageTableEntry.link_eq_some.mpr ⟨hpres, by simpa using hhuge, rfl⟩
        have hb := h.follow ha hp hown hlink
        simp only [hhuge, missing, hlink]
        rcases ih h hb (by simp; omega) (by simp [Policy.Owns]) hboot with
          ⟨place', s', ho, hg, hnew, hres⟩
        rw [List.append_assoc] at hres
        simp only [List.append_assoc, List.singleton_append] at hnew
        exact ⟨place', s', ho, hg, hnew, hres⟩
    · have hn : (s.tables a i).isPresent = false := by simpa using hpres
      simp only [hn, missing, PageTableEntry.link_of_not_present hn]
      rcases h.newTableFrame_cases with ⟨he, hempty, hfull⟩ | ⟨f, s₁, he, ho, hf, hpl, htab, hsame, hbpmm, hfree⟩
      · refine ⟨place, s, h, .refl .., .inl, .inr (.inr ⟨by simp [he], fun hb => ?_, hfull⟩)⟩
        rw [hempty hb]
        simp
      · have haf : a ≠ f := by
          rintro rfl
          simp [hpl] at ha
        have hn₁ : (s₁.tables a i).isPresent = false := by rw [htab a haf]; exact hn
        have hm : f ∈ F ∨ r = pol.boot := by
          cases hb : s.isBootstrapping with
          | true => exact .inr (hboot hb)
          | false => exact .inl (hfree hb).1
        rcases ho.linkTable hf ha hp hown hn₁ hm htab hsame hbpmm with ⟨ho₂, hg₂⟩
        have htab₂ := linked_tables (s := s₁) (i := i) haf (.set f PageTableFlags.table)
        have hpmm : ((s₁.writeTable f .zero).writeEntry a i (.set f PageTableFlags.table)).pmm = s₁.pmm := rfl
        simp only [he, Bool.false_eq_true, if_false]
        generalize (s₁.writeTable f .zero).writeEntry a i (.set f PageTableFlags.table) = s₂ at *
        have hzero : s₂.tables f = .zero := by rw [htab₂, if_neg (Ne.symm haf), if_pos rfl]
        rcases ih ho₂ (Function.update_self _ _ _) (by simp; omega) (by simp [Policy.Owns])
          (by rw [hg₂.boot.mode]; exact hboot) with ⟨place', s', ho', hg', hnew, hres⟩
        rw [List.append_assoc, missing_zero hzero, hg₂.boot.mode] at hres
        simp only [List.append_assoc, List.singleton_append] at hnew
        -- outside boot the new table cost one frame
        have hcard (hb : s.isBootstrapping = false) : s₂.pmm.freeFrames.card + 1 = s.pmm.freeFrames.card := by
          rcases hfree hb with ⟨-, hmem, herase⟩
          rw [hpmm, herase]
          exact Finset.card_erase_add_one hmem
        refine ⟨place', s', ho', hg₂.trans hg', fun {b r' q} hb => ?_, ?_⟩
        · rcases hnew hb with hb | hprefix
          · by_cases hbf : b = f
            · subst hbf
              rw [Function.update_self] at hb
              cases hb
              exact .inr ⟨is, by simp⟩
            · rw [Function.update_of_ne hbf] at hb
              exact .inl hb
          · exact .inr hprefix
        rcases hres with ⟨b, hb, hplace, hcost⟩ | ⟨hb, hr, hhead, hlen⟩ | ⟨hb, hcost, hfull⟩
        · refine .inl ⟨b, hb, hplace, fun hmode => ?_⟩
          have := hcost hmode
          have := hcard hmode
          omega
        · exact .inr (.inl ⟨hb, hr, hhead, hlen⟩)
        · refine .inr (.inr ⟨hb, fun hmode => ?_, hfull⟩)
          have := hcost hmode
          have := hcard hmode
          omega

end Owned
end VenturaOS.Paging
