import VenturaOS.Paging.Translation

/-!
# Large pages in a tree of tables

A page-table tree: every table below the root stands at one path, whatever
its entries map, and no table is among the frames new tables are taken from.
Creating the tables above a directory entry changes no walk. The entry itself
is written without a look at what it held.
-/
namespace VenturaOS.Paging
open Library Pmm Memory

/-- Every link above the page tables leads to a table of the tree. -/
def linkEdge (_ : U64) (p : Path) (_ : Fin 512) (e : PageTableEntry) : Option U64 :=
  if p.length < 3 then e.link else none

structure Planted (r : U64) (F : Finset U64) (c : ℕ) (held : Finset U64) (place : Placement) (s : PageMemory) : Prop where
  supply : Owned (treePolicy r) F c (fun _ => none) held s
  forest : Forest linkEdge s.tables place
  root : place r = some (r, [])
  taken : ∀ {a x}, place a = some x → a ∈ held
  only : ∀ {a q p}, place a = some (q, p) → q = r

/-- The tables below `r` form a tree, apart from the frames that are free. -/
def PageTree (r : U64) (s : PageMemory) : Prop := ∃ F c held place, Planted r F c held place s

def tableSupply (s : PageMemory) : ℕ :=
  if s.isBootstrapping then bootstrapTableCount - s.bootstrapIndex else s.pmm.freeFrames.card

/-- A large page covers the path before its end. -/
def blocked (tables : U64 → PageTable) : U64 → Path → Bool
  | _, [] => false
  | a, i :: is =>
    match (tables a i).link with
    | some b => blocked tables b is
    | none => (tables a i).isPresent

/-- The entry in slot `j` of the table at the end of the path; empty when that table is missing. -/
def entryAlong (tables : U64 → PageTable) : U64 → Path → Fin 512 → PageTableEntry
  | a, [], j => tables a j
  | a, i :: is, j =>
    match (tables a i).link with
    | some b => entryAlong tables b is j
    | none => .empty

/-- The walks below the root are as before, and so are the tables and entries that were there. -/
structure Extended (r : U64) (place place' : Placement) (s s' : PageMemory) : Prop where
  kept : ∀ {a x}, place a = some x → place' a = some x
  entries : ∀ {a x} {i : Fin 512}, place a = some x → (s.tables a i).isPresent = true → s'.tables a i = s.tables a i
  walks : ∀ q, q.length = 4 → reach s'.tables r q = reach s.tables r q

section Creating

variable {r a b f : U64} {F held : Finset U64} {c : ℕ} {place place' place'' : Placement} {s s' s'' : PageMemory}
  {p q is : Path} {i : Fin 512}

theorem Extended.refl (r : U64) (place : Placement) (s : PageMemory) : Extended r place place s s :=
  ⟨id, fun _ _ => rfl, fun _ _ => rfl⟩

theorem Extended.trans (h : Extended r place place' s s') (h' : Extended r place' place'' s' s'') :
    Extended r place place'' s s'' where
  kept ha := h'.kept (h.kept ha)
  entries ha hp := by
    have he := h.entries ha hp
    rw [h'.entries (h.kept ha) (by rw [he]; exact hp), he]
  walks q hq := (h'.walks q hq).trans (h.walks q hq)

theorem zero_link (i : Fin 512) : (PageTable.zero i).link = none := by
  change PageTableEntry.empty.link = none
  decide

theorem zero_absent (i : Fin 512) : (PageTable.zero i).isPresent = false := by
  change PageTableEntry.empty.isPresent = false
  decide

theorem blocked_zero {tables : U64 → PageTable} (h : tables a = .zero) (is : Path) : blocked tables a is = false := by
  cases is with
  | nil => rfl
  | cons i is =>
    rw [blocked, h, zero_link]
    exact zero_absent i

theorem entryAlong_zero {tables : U64 → PageTable} (h : tables a = .zero) (is : Path) (j : Fin 512) :
    entryAlong tables a is j = .empty := by
  cases is with
  | nil =>
    rw [entryAlong, h]
    rfl
  | cons i is => rw [entryAlong, h, zero_link]

theorem reach_zero {tables : U64 → PageTable} (h : tables a = .zero) (hne : is ≠ []) : reach tables a is = none := by
  cases is with
  | nil => exact absurd rfl hne
  | cons i is =>
    apply reach_absent
    rw [h]
    exact zero_absent i

/-- A missing table takes one from the supply, and fails when there is none. -/
theorem getOrCreateTable_supply (h : Owned (treePolicy r) F c (fun _ => none) held s)
    (habs : (s.tables a i).isPresent = false) :
    (getOrCreateTable a i s = (.error .frameAllocationFailed, s) ∧ tableSupply s = 0) ∨
      ∃ f s', getOrCreateTable a i s = (.ok f, s') ∧ tableSupply s' + 1 = tableSupply s := by
  unfold getOrCreateTable tableSupply
  dsimp only
  rw [if_neg (by rw [habs]; exact Bool.false_ne_true)]
  cases hb : s.isBootstrapping with
  | true =>
    rw [newTableFrame, if_pos hb, allocateBootstrapTable, if_pos (rfl : true = true)]
    by_cases hfull : s.bootstrapIndex ≥ bootstrapTableCount
    · rw [if_pos hfull]
      exact .inl ⟨rfl, by omega⟩
    · rw [if_neg hfull]
      refine .inr ⟨_, _, rfl, ?_⟩
      change (if s.isBootstrapping = true then bootstrapTableCount - (s.bootstrapIndex + 1) else _) + 1 = _
      rw [if_pos hb]
      omega
  | false =>
    rcases h.newTableFrame_cases with ⟨he, hempty, -⟩ | ⟨f, s₁, he, -, -, -, -, hboot, -, hfree⟩
    · rw [he]
      refine .inl ⟨rfl, ?_⟩
      rw [if_neg Bool.false_ne_true, hempty hb]
      rfl
    · rw [he]
      refine .inr ⟨_, _, rfl, ?_⟩
      obtain ⟨-, hf, herase⟩ := hfree hb
      change (if s₁.isBootstrapping = true then _ else s₁.pmm.freeFrames.card) + 1 = _
      rw [hboot.mode, hb, herase, if_neg Bool.false_ne_true, if_neg Bool.false_ne_true]
      exact Finset.card_erase_add_one hf

/-- A fresh table behind a slot that was empty. -/
theorem Planted.create (h : Planted r F c held place s) (ha : place a = some (r, p)) (hp : p.length < 3)
    (habs : (s.tables a i).isPresent = false) (hf : f ∉ held) (hframe : IsFrame f)
    (ho : Owned (treePolicy r) F c (fun _ => none) (insert f held) s')
    (hread : ∀ b j, s'.tables b j =
      if b = f then .empty else if b = a ∧ j = i then .set f PageTableFlags.table else s.tables b j) :
    Planted r F c (insert f held) (Function.update place f (some (r, p ++ [i]))) s' ∧
      Extended r place (Function.update place f (some (r, p ++ [i]))) s s' := by
  have hne {b : U64} {x : U64 × Path} (hb : place b = some x) : b ≠ f := by
    rintro rfl
    exact hf (h.taken hb)
  have hfree : place f = none := by
    by_contra hbad
    obtain ⟨x, hx⟩ := Option.ne_none_iff_exists'.mp hbad
    exact hne hx rfl
  have hkeep {b : U64} {x : U64 × Path} (hb : place b = some x) :
      Function.update place f (some (r, p ++ [i])) b = some x := by
    rw [Function.update_of_ne (hne hb), hb]
  have hold {b : U64} {x : U64 × Path} (j : Fin 512) (hb : place b = some x) (hslot : ¬(b = a ∧ j = i)) :
      s'.tables b j = s.tables b j := by
    rw [hread, if_neg (hne hb), if_neg hslot]
  have hnew : s'.tables a i = .set f PageTableFlags.table := by
    rw [hread, if_neg (hne ha), if_pos ⟨rfl, rfl⟩]
  have hzero : s'.tables f = .zero := by
    funext j
    rw [hread, if_pos rfl]
    rfl
  have hforest : Forest linkEdge s'.tables (Function.update place f (some (r, p ++ [i]))) := by
    apply h.forest.attach hfree ha
    · rw [linkEdge, if_pos hp]
      exact PageTableEntry.link_of_not_present habs
    · rw [linkEdge, if_pos hp, hnew]
      exact PageTableEntry.set_table_link hframe
    · intro j
      rw [linkEdge, hzero, zero_link, ite_self]
    · intro b r' q j hb hslot
      rw [hold j hb hslot]
  refine ⟨⟨ho, hforest, hkeep h.root, ?_, ?_⟩, ⟨hkeep, ?_, ?_⟩⟩
  · intro b x hb
    by_cases hbf : b = f
    · rw [hbf]
      exact Finset.mem_insert_self f held
    · rw [Function.update_of_ne hbf] at hb
      exact Finset.mem_insert_of_mem (h.taken hb)
  · intro b q₀ q hb
    by_cases hbf : b = f
    · rw [hbf, Function.update_self] at hb
      cases hb
      rfl
    · rw [Function.update_of_ne hbf] at hb
      exact h.only hb
  · intro b x j hb hpres
    apply hold j hb
    rintro ⟨rfl, rfl⟩
    rw [habs] at hpres
    cases hpres
  · -- a walk that comes to the new table ends there, as it ended at the empty slot before
    have hwalk : ∀ (q : Path) {b : U64} {p₀ : Path}, place b = some (r, p₀) → p₀.length + q.length = 4 →
        reach s'.tables b q = reach s.tables b q := by
      intro q
      induction q with
      | nil => exact fun _ _ => rfl
      | cons j q ih =>
        intro b p₀ hb hlen
        rw [List.length_cons] at hlen
        by_cases hslot : b = a ∧ j = i
        · obtain ⟨rfl, rfl⟩ := hslot
          rw [ha] at hb
          cases hb
          have hrest : q ≠ [] := by
            rintro rfl
            simp at hlen
            omega
          have hlink := PageTableEntry.link_eq_some.mp (PageTableEntry.set_table_link hframe)
          rw [reach_absent habs, reach, hnew, if_pos hlink.1, if_neg (by simp [hlink.2.1]), hlink.2.2,
            reach_zero hzero hrest, Option.map_none]
        · refine reach_congr (hold j hb hslot) fun hrest hlink => ?_
          have hdeep : p₀.length < 3 := by
            have hpos := List.length_pos_iff.mpr hrest
            omega
          have hchild := h.forest.child (i := j) hb (by rw [linkEdge, if_pos hdeep]; exact hlink)
          exact ih hchild (by rw [List.length_append, List.length_singleton]; omega)
    exact fun q hq => hwalk q h.root (by rw [hq]; rfl)

/-- A creating walk goes through exactly if no large page is in the way and the supply lasts. -/
theorem Planted.walkCreate_cases (is : Path) (h : Planted r F c held place s) (ha : place a = some (r, p))
    (hlen : p.length + is.length ≤ 3) :
    ∃ held' place' s', Planted r F c held' place' s' ∧ Extended r place place' s s' ∧
      ((∃ b, walkCreate a is s = (.ok b, s') ∧ place' b = some (r, p ++ is) ∧
          (∀ j, s'.tables b j = entryAlong s.tables a is j) ∧
          blocked s.tables a is = false ∧ missing s.tables a is ≤ tableSupply s) ∨
        ((∃ e, walkCreate a is s = (.error e, s')) ∧
          ¬(blocked s.tables a is = false ∧ missing s.tables a is ≤ tableSupply s))) := by
  induction is generalizing a p held place s with
  | nil =>
    exact ⟨held, place, s, h, .refl .., .inl ⟨a, rfl, by rw [List.append_nil]; exact ha, fun _ => rfl, rfl, Nat.zero_le _⟩⟩
  | cons i is ih =>
    rw [List.length_cons] at hlen
    rw [walkCreate, blocked, missing]
    simp only [entryAlong]
    cases hpres : (s.tables a i).isPresent with
    | true =>
      cases hhuge : (s.tables a i).isHuge with
      | true =>
        have hget : getOrCreateTable a i s = (.error .alreadyMapped, s) := by
          rw [getOrCreateTable]
          simp [hpres, hhuge]
        have hlink : (s.tables a i).link = none := by
          rw [PageTableEntry.link, hhuge]
          simp
        refine ⟨held, place, s, h, .refl .., .inr ⟨⟨.alreadyMapped, by rw [hget]⟩, ?_⟩⟩
        rw [hlink]
        simp
      | false =>
        have hget : getOrCreateTable a i s = (.ok (s.tables a i).physAddr, s) := by
          rw [getOrCreateTable]
          simp [hpres, hhuge]
        have hlink := PageTableEntry.link_eq_some.mpr ⟨hpres, hhuge, rfl⟩
        have hb := h.forest.child (i := i) ha (by rw [linkEdge, if_pos (by omega)]; exact hlink)
        rw [hget, hlink]
        have hdown := ih h hb (by rw [List.length_append, List.length_singleton]; omega)
        rw [List.append_assoc, List.singleton_append] at hdown
        exact hdown
    | false =>
      have hlink := PageTableEntry.link_of_not_present hpres
      rw [hlink]
      rcases getOrCreateTable_supply (a := a) (i := i) h.supply hpres with ⟨hget, hnone⟩ | ⟨f, s₁, hget, hcost⟩
      · refine ⟨held, place, s, h, .refl .., .inr ⟨⟨.frameAllocationFailed, by rw [hget]⟩, ?_⟩⟩
        dsimp only
        omega
      · rcases h.supply.getOrCreateTable_held (h.taken ha) i with ⟨e, he⟩ | ⟨b, -, hb⟩ | ⟨f', s', he, -, hf, hframe, ho, hread⟩
        · rw [hget] at he
          cases he
        · rw [hlink] at hb
          cases hb
        · rw [hget] at he
          cases he
          obtain ⟨h₁, hext⟩ := h.create ha (by omega) hpres hf hframe ho hread
          have hzero : s₁.tables f = .zero := by
            funext j
            rw [hread, if_pos rfl]
            rfl
          obtain ⟨held', place', s', h', hext', hres⟩ := ih h₁ (Function.update_self _ _ _)
            (by rw [List.length_append, List.length_singleton]; omega)
          rw [List.append_assoc, List.singleton_append, blocked_zero hzero, missing_zero hzero] at hres
          simp only [entryAlong_zero hzero] at hres
          rw [hget]
          refine ⟨held', place', s', h', hext.trans hext', ?_⟩
          dsimp only
          rcases hres with ⟨b, hb, hplace, hentry, -, hle⟩ | ⟨he, hnot⟩
          · exact .inl ⟨b, hb, hplace, hentry, rfl, by omega⟩
          · refine .inr ⟨he, ?_⟩
            rintro ⟨-, hle⟩
            exact hnot ⟨trivial, by omega⟩

end Creating

def walkAddress (tables : U64 → PageTable) (r : U64) (w : VirtAddr) : Option U64 := (hardwareWalk tables r w).map Prod.fst

/-- A page table reached through links from the root. -/
def Linked (tables : U64 → PageTable) (r a : U64) : Prop := ∃ d, TableAt tables r d a

def largeBase (e : PageTableEntry) : U64 := e.bits &&& 0x000FFFFFFFE00000#64

/-- What the processor makes of a directory entry. -/
def directoryWalk (tables : U64 → PageTable) (e : PageTableEntry) (w : VirtAddr) : Option U64 :=
  if e.isPresent then
    if e.isHuge then
      if e.bits &&& 0x1FE000#64 == 0#64 then some (largeBase e ||| (w.addr &&& 0x1FFFFF#64)) else none
    else if (tables e.physAddr w.ptIndex).isPresent then some ((tables e.physAddr w.ptIndex).physAddr ||| w.pageOffset)
    else none
  else none

section Writing

variable {r a b pd pdpt : U64} {F held : Finset U64} {c : ℕ} {place : Placement} {s : PageMemory}
  {p q is : Path} {i : Fin 512} {e : PageTableEntry} {d : ℕ} {v w : VirtAddr}

theorem walkAddress_of_reach {tables tables' : U64 → PageTable} (h : reach tables' r w.path = reach tables r w.path) :
    walkAddress tables' r w = walkAddress tables r w := by
  rw [walkAddress, walkAddress, hardwareWalk_of_reach h]

theorem walkAddress_directory {tables : U64 → PageTable} (hc : isCanonical w.addr = true)
    (h4 : (tables r w.pml4Index).link = some pdpt) (h3 : (tables pdpt w.pdptIndex).link = some pd) :
    walkAddress tables r w = directoryWalk tables (tables pd w.pdIndex) w := by
  obtain ⟨hp4, hh4, rfl⟩ := PageTableEntry.link_eq_some.mp h4
  obtain ⟨hp3, hh3, rfl⟩ := PageTableEntry.link_eq_some.mp h3
  rw [walkAddress, hardwareWalk, pageWalk, directoryWalk]
  simp only [hc, hp4, hh4, hp3, hh3, Bool.not_true, Bool.or_false, Bool.false_eq_true, if_false]
  generalize tables (tables (tables r w.pml4Index).physAddr w.pdptIndex).physAddr w.pdIndex = e
  cases e.isPresent with
  | false => rfl
  | true =>
    cases e.isHuge with
    | true =>
      simp only [Bool.not_true, Bool.false_eq_true, if_false, if_true, Option.filter_some, reservedClear]
      split <;> rfl
    | false =>
      cases (tables e.physAddr w.ptIndex).isPresent with
      | false => rfl
      | true => rfl

theorem Planted.directory {i4 i3 : Fin 512} (h : Planted r F c held place s) (hpd : place pd = some (r, [i4, i3])) :
    ∃ pdpt, place pdpt = some (r, [i4]) ∧ (s.tables r i4).link = some pdpt ∧ (s.tables pdpt i3).link = some pd := by
  obtain ⟨pdpt, hpdpt, h3⟩ := h.forest.parent (show place pd = some (r, [i4] ++ [i3]) from hpd)
  obtain ⟨a, ha, h4⟩ := h.forest.parent (show place pdpt = some (r, [] ++ [i4]) from hpdpt)
  rw [h.forest.place_inj ha h.root] at h4
  exact ⟨pdpt, hpdpt, h4, h3⟩

/-- A write at the end of a path is seen by the walks through it and by no other. -/
theorem Planted.reach_write (h : Planted r F c held place s) (hpd : place pd = some (r, is)) (ha : place a = some (r, p))
    (hlen : p.length + q.length = 4) (hne : ¬ is ++ [i] <+: p ++ q) :
    reach (s.writeEntry pd i e).tables a q = reach s.tables a q := by
  induction q generalizing a p with
  | nil => rfl
  | cons j q ih =>
    rw [List.length_cons] at hlen
    have hslot : ¬(a = pd ∧ j = i) := by
      rintro ⟨rfl, rfl⟩
      rw [hpd] at ha
      cases ha
      exact hne ⟨q, by rw [List.append_assoc, List.singleton_append]⟩
    refine reach_congr (by rw [writeEntry_tables, if_neg hslot]) fun hrest hlink => ?_
    have hpos := List.length_pos_iff.mpr hrest
    have hchild := h.forest.child (i := j) ha (by rw [linkEdge, if_pos (by omega)]; exact hlink)
    refine ih hchild (by rw [List.length_append, List.length_singleton]; omega) ?_
    rw [List.append_assoc, List.singleton_append]
    exact hne

theorem Planted.tableAt (h : Planted r F c held place s) (ha : TableAt s.tables r d a) :
    ∃ p, p.length = d ∧ place a = some (r, p) := by
  induction ha with
  | root => exact ⟨[], rfl, h.root⟩
  | link i _ hd hlink ih =>
    obtain ⟨p, hp, hplace⟩ := ih
    refine ⟨p ++ [i], by rw [List.length_append, hp, List.length_singleton], ?_⟩
    exact h.forest.child hplace (by rw [linkEdge, if_pos (by omega)]; exact hlink)

/-- After an entry was made a leaf, the tables that were not below it are still linked. -/
theorem Planted.kept_write (h : Planted r F c held place s) (hpd : place pd = some (r, is)) (ha : place a = some (r, p))
    (hne : ¬ is ++ [i] <+: p) : TableAt (s.writeEntry pd i e).tables r p.length a := by
  induction p using List.reverseRecOn generalizing a with
  | nil =>
    rw [h.forest.root_self ha]
    exact .root
  | append_singleton p j ih =>
    obtain ⟨b, hb, he⟩ := h.forest.parent ha
    have hdeep : p.length < 3 := by
      by_contra hbad
      rw [linkEdge, if_neg hbad] at he
      cases he
    rw [linkEdge, if_pos hdeep] at he
    have hslot : ¬(b = pd ∧ j = i) := by
      rintro ⟨rfl, rfl⟩
      rw [hpd] at hb
      cases hb
      exact hne (List.prefix_refl _)
    rw [List.length_append, List.length_singleton]
    refine .link j (ih hb fun hbad => hne (hbad.trans (List.prefix_append _ _))) hdeep ?_
    rw [writeEntry_tables, if_neg hslot]
    exact he

/-- The tables below it are not. -/
theorem Planted.lost_write (h : Planted r F c held place s) (hpd : place pd = some (r, is)) (he : e.link = none)
    (ha : TableAt (s.writeEntry pd i e).tables r d a) : ∃ p, p.length = d ∧ place a = some (r, p) ∧ ¬ is ++ [i] <+: p := by
  induction ha with
  | root => exact ⟨[], rfl, h.root, by simp⟩
  | @link d a b j _ hd hlink ih =>
    obtain ⟨p, hp, hplace, hne⟩ := ih
    rw [writeEntry_tables] at hlink
    split_ifs at hlink with hslot
    · rw [he] at hlink
      cases hlink
    · have hchild := h.forest.child (i := j) hplace (by rw [linkEdge, if_pos (by omega)]; exact hlink)
      refine ⟨p ++ [j], by rw [List.length_append, hp, List.length_singleton], hchild, fun hbad => ?_⟩
      rcases List.prefix_concat_iff.mp hbad with heq | hold
      · obtain ⟨rfl, hj⟩ := List.append_inj' heq rfl
        cases hj
        exact hslot ⟨h.forest.place_inj hplace hpd, rfl⟩
      · exact hne hold

/-- A write in a page table is a leaf and cuts nothing off. -/
theorem Planted.writeLeaf (h : Planted r F c held place s) (hpd : place pd = some (r, is)) (hlen : is.length = 3)
    (i : Fin 512) (e : PageTableEntry) : Planted r F c held place (s.writeEntry pd i e) := by
  refine ⟨?_, ?_, h.root, h.taken, h.only⟩
  · exact h.supply.retable (fun _ ha => by cases ha) (fun ha => by cases ha) (fun ha => by cases ha)
  · apply h.forest.congr
    intro a q p j ha
    by_cases hap : a = pd
    · rw [hap, hpd] at ha
      cases ha
      rw [linkEdge, linkEdge, if_neg (by omega), if_neg (by omega)]
    · rw [writeEntry_tables, if_neg fun hslot => hap hslot.1]

open Classical in
/-- An entry that links nowhere cuts off what was below it. -/
theorem Planted.writeCut (h : Planted r F c held place s) (hpd : place pd = some (r, is)) (he : e.link = none) :
    ∃ place', Planted r F c held place' (s.writeEntry pd i e) := by
  let place' : Placement := fun a => (place a).filter fun x => decide (¬ is ++ [i] <+: x.2)
  have hplace (a : U64) (x : U64 × Path) : place' a = some x ↔ place a = some x ∧ ¬ is ++ [i] <+: x.2 := by
    simp only [place', Option.filter_eq_some_iff, decide_eq_true_eq]
  refine ⟨place', ?_, ⟨?_, ?_, ?_, ?_⟩, ?_, ?_, ?_⟩
  · exact h.supply.retable (fun _ ha => by cases ha) (fun ha => by cases ha) (fun ha => by cases ha)
  · exact fun ha => h.forest.root_self ((hplace _ _).mp ha).1
  · exact fun ha => (hplace _ _).mpr ⟨h.forest.rooted ((hplace _ _).mp ha).1, by simp⟩
  · intro a q p j b ha hedge
    obtain ⟨ha, hne⟩ := (hplace _ _).mp ha
    have hslot : ¬(a = pd ∧ j = i) := by
      rintro ⟨rfl, rfl⟩
      rw [writeEntry_tables, if_pos ⟨rfl, rfl⟩, linkEdge, he, ite_self] at hedge
      cases hedge
    rw [writeEntry_tables, if_neg hslot] at hedge
    refine (hplace _ _).mpr ⟨h.forest.child ha hedge, fun hbad => ?_⟩
    rcases List.prefix_concat_iff.mp hbad with heq | hold
    · obtain ⟨rfl, hj⟩ := List.append_inj' heq rfl
      cases hj
      rw [h.only ha] at ha
      exact hslot ⟨h.forest.place_inj ha hpd, rfl⟩
    · exact hne hold
  · intro b q p j hb
    obtain ⟨hb, hne⟩ := (hplace _ _).mp hb
    obtain ⟨a, ha, hedge⟩ := h.forest.parent hb
    have hslot : ¬(a = pd ∧ j = i) := by
      rintro ⟨rfl, rfl⟩
      rw [hpd] at ha
      cases ha
      exact hne (List.prefix_refl _)
    refine ⟨a, (hplace _ _).mpr ⟨ha, fun hbad => hne (hbad.trans (List.prefix_append _ _))⟩, ?_⟩
    rw [writeEntry_tables, if_neg hslot]
    exact hedge
  · exact (hplace _ _).mpr ⟨h.root, by simp⟩
  · exact fun ha => h.taken ((hplace _ _).mp ha).1
  · exact fun ha => h.only ((hplace _ _).mp ha).1

end Writing

section Building

variable {r : U64} {s t : PageMemory}

theorem EmptyRoot.pageTree {F : Finset U64} {c : ℕ} (h : EmptyRoot r F c s) : PageTree r s := by
  obtain ⟨F, c, held, level, hl⟩ := h.hasLevels
  have hplace {a : U64} {x : U64 × Path} (ha : (if a = r then some (r, []) else none) = some x) : a = r ∧ x = (r, []) := by
    split_ifs at ha with hr
    cases ha
    exact ⟨hr, rfl⟩
  refine ⟨F, c, held, fun a => if a = r then some (r, []) else none, hl.owned, ⟨?_, ?_, ?_, ?_⟩, if_pos rfl, ?_, ?_⟩
  · intro a q ha
    obtain ⟨rfl, he⟩ := hplace ha
    cases he
    rfl
  · intro a q p ha
    obtain ⟨rfl, he⟩ := hplace ha
    cases he
    exact if_pos rfl
  · intro a q p i b ha hedge
    obtain ⟨rfl, he⟩ := hplace ha
    rw [h.empty, linkEdge, zero_link, ite_self] at hedge
    cases hedge
  · intro b q p i hb
    have he := congrArg Prod.snd (hplace hb).2
    simp at he
  · intro a x ha
    rw [(hplace ha).1]
    exact hl.taken hl.root
  · intro a q p ha
    obtain ⟨-, he⟩ := hplace ha
    cases he
    rfl

theorem PageTree.mapPage (h : PageTree r s) (v : VirtAddr) (phys : PhysPage) (flags : PageTableFlags) :
    PageTree r (Paging.mapPage ⟨r⟩ v phys flags s).2 := by
  obtain ⟨F, c, held, place, h⟩ := h
  by_cases hargs : isCanonical v.addr = true ∧ v.isAligned = true ∧ phys.addr.toNat % pageSize = 0
  · rw [mapPage_eq ⟨r⟩ v phys flags s hargs.1 hargs.2.1 hargs.2.2]
    obtain ⟨held', place', s', h', -, hres⟩ := h.walkCreate_cases v.tablePath h.root (by rw [VirtAddr.tablePath_length]; rfl)
    rcases hres with ⟨pt, he, hpt, -⟩ | ⟨⟨e, he⟩, -⟩
    · rw [he]
      dsimp only
      split_ifs
      · exact ⟨F, c, held', place', h'⟩
      · exact ⟨F, c, held', place', h'.writeLeaf hpt v.tablePath_length _ _⟩
    · rw [he]
      exact ⟨F, c, held', place', h'⟩
  · obtain ⟨e, he⟩ := mapPage_refused ⟨r⟩ flags s hargs
    rw [he]
    exact ⟨F, c, held, place, h⟩

theorem PageTree.map2mbHugePage (h : PageTree r s) (v : VirtAddr) (phys : PhysPage) (flags : PageTableFlags) :
    PageTree r (Paging.map2mbHugePage ⟨r⟩ v phys flags s).2 := by
  obtain ⟨F, c, held, place, h⟩ := h
  by_cases hv : isCanonical v.addr = true
  · rw [map2mbHugePage_eq ⟨r⟩ v phys flags s hv]
    obtain ⟨held', place', s', h', -, hres⟩ := h.walkCreate_cases [v.pml4Index, v.pdptIndex] h.root (by simp)
    rcases hres with ⟨pd, he, hpd, -⟩ | ⟨⟨e, he⟩, -⟩
    · rw [he]
      have hlink : (PageTableEntry.set (phys.addr &&& ~~~0x1FFFFF#64) (flags.union PageTableFlags.hugePage)).link = none := by
        rw [PageTableEntry.link, PageTableEntry.set_isHuge, PageTableFlags.union, BitVec.getLsbD_or]
        simp [PageTableFlags.hugePage]
      obtain ⟨place'', h''⟩ := h'.writeCut (i := v.pdIndex) hpd hlink
      exact ⟨F, c, held', place'', h''⟩
    · rw [he]
      exact ⟨F, c, held', place', h'⟩
  · rw [Paging.map2mbHugePage, if_pos (by simpa using hv)]
    exact ⟨F, c, held, place, h⟩

/-- Whatever is mapped below an empty root, the tables form a tree. -/
theorem EmptyRoot.pageTree_run {F : Finset U64} {c : ℕ} (h : EmptyRoot r F c s) {calls : List BuildCall}
    (hrun : Run (BuildStep ⟨r⟩) s calls t) : PageTree r t := by
  refine hrun.invariant (PageTree r) ?_ h.pageTree
  intro s call t hs hstep
  cases hstep with
  | mapPage => exact hs.mapPage _ _ _
  | map2mbHugePage => exact hs.map2mbHugePage _ _ _

end Building
end VenturaOS.Paging
