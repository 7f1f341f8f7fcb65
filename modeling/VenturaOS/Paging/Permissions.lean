import VenturaOS.Paging.Unmapping

/-!
# Effective permissions

The processor combines the permission bits of all four entries of a walk.
Tables are linked as present and writable whatever the page below them asks
for, so the leaf decides writing and executing, and no page is ever accessible
to user code.
-/
namespace VenturaOS.Paging
open Library Pmm Memory

structure Rights where
  writable : Bool
  userAccessible : Bool
  noExecute : Bool
deriving DecidableEq, Repr

/-- Two levels of a walk: writing and user access need both, either forbids execution. -/
def Rights.meet (p q : Rights) : Rights where
  writable := p.writable && q.writable
  userAccessible := p.userAccessible && q.userAccessible
  noExecute := p.noExecute || q.noExecute

/-- The bits of a flag word the processor reads as permissions. -/
def PageTableFlags.rights (flags : PageTableFlags) : Rights where
  writable := flags.bits &&& PageTableFlags.writable.bits != 0#64
  userAccessible := flags.bits &&& PageTableFlags.userAccessible.bits != 0#64
  noExecute := flags.bits &&& PageTableFlags.noExecute.bits != 0#64

def PageTableEntry.rights (e : PageTableEntry) : Rights := PageTableFlags.rights ⟨e.bits⟩

/-- The permissions the processor enforces on `v`, when it is mapped. -/
def effectiveRights (tables : U64 → PageTable) (root : U64) (v : VirtAddr) : Option Rights :=
  (hardwareWalk tables root v).map fun x => (x.2.map PageTableEntry.rights).foldr Rights.meet ⟨true, true, false⟩

theorem PageTableEntry.set_rights (phys : U64) (flags : PageTableFlags) : (set phys flags).rights = flags.rights := by
  have hbit {i : ℕ} (hi : i < 64) (hout : i < 12 ∨ 52 ≤ i) :
      ((set phys flags).bits &&& (1#64 <<< i) != 0#64) = (flags.bits &&& (1#64 <<< i) != 0#64) := by
    rw [and_pow_ne_zero _ hi, and_pow_ne_zero _ hi, set_bit hi hout]
  unfold PageTableEntry.rights PageTableFlags.rights
  congr 1
  · exact hbit (by decide) (by decide)
  · exact hbit (by decide) (by decide)
  · exact hbit (by decide) (by decide)

theorem PageTableFlags.table_rights : table.rights = ⟨true, false, false⟩ := by decide

/-- Tables below one root, each at its path: above the leaves every present entry is a table link. -/
structure Uniform (r : U64) (F : Finset U64) (c : ℕ) (held : Finset U64) (place : U64 → Option Path)
    (s : PageMemory) : Prop where
  owned : Owned (treePolicy r) F c (fun _ => none) held s
  root : ∀ {a}, place a = some [] ↔ a = r
  taken : ∀ {a p}, place a = some p → a ∈ held
  child : ∀ {a p} {i : Fin 512}, place a = some p → p.length < 3 → (s.tables a i).isPresent = true →
    ∃ b, s.tables a i = .set b PageTableFlags.table ∧ place b = some (p ++ [i])
  parent : ∀ {b p} {i : Fin 512}, place b = some (p ++ [i]) →
    ∃ a, place a = some p ∧ s.tables a i = .set b PageTableFlags.table ∧ p.length < 3

/-- Tables stay where they are, with every present entry. -/
structure Kept (place place' : U64 → Option Path) (s s' : PageMemory) : Prop where
  stays : ∀ {a p}, place a = some p → place' a = some p
  entry : ∀ {a p} {i : Fin 512}, place a = some p → (s.tables a i).isPresent = true → s'.tables a i = s.tables a i

theorem Kept.refl (place : U64 → Option Path) (s : PageMemory) : Kept place place s s := ⟨id, fun _ _ => rfl⟩

theorem Kept.trans {p₁ p₂ p₃ : U64 → Option Path} {s₁ s₂ s₃ : PageMemory} (h : Kept p₁ p₂ s₁ s₂)
    (h' : Kept p₂ p₃ s₂ s₃) : Kept p₁ p₃ s₁ s₃ where
  stays ha := h'.stays (h.stays ha)
  entry ha he := by
    have hmid := h.entry ha he
    rw [h'.entry (h.stays ha) (by rw [hmid]; exact he), hmid]

section Links

variable {r : U64} {F held : Finset U64} {c : ℕ} {place : U64 → Option Path} {s : PageMemory}

theorem table_present (b : U64) : (PageTableEntry.set b PageTableFlags.table).isPresent = true := by
  rw [PageTableEntry.set_isPresent]
  decide

theorem Uniform.isFrame (h : Uniform r F c held place s) {a : U64} {p : Path} (ha : place a = some p) : IsFrame a :=
  h.owned.isFrame_of_inUse (h.owned.held_inUse (h.taken ha)).1

theorem Uniform.link (h : Uniform r F c held place s) {b : U64} {p : Path} (hb : place b = some p) :
    (PageTableEntry.set b PageTableFlags.table).isHuge = false ∧
      (PageTableEntry.set b PageTableFlags.table).physAddr = b :=
  (PageTableEntry.link_eq_some.mp (PageTableEntry.set_table_link (h.isFrame hb))).2

/-- A table at the path of `v` is where the walk of `v` arrives, through three table links. -/
theorem Uniform.links (h : Uniform r F c held place s) {pt : U64} {v : VirtAddr} (hpt : place pt = some v.tablePath) :
    ∃ pdpt pd, s.tables r v.pml4Index = .set pdpt PageTableFlags.table ∧
      s.tables pdpt v.pdptIndex = .set pd PageTableFlags.table ∧
      s.tables pd v.pdIndex = .set pt PageTableFlags.table ∧
      place pdpt = some [v.pml4Index] ∧ place pd = some [v.pml4Index, v.pdptIndex] := by
  obtain ⟨pd, hpd, he2, -⟩ := h.parent (p := [v.pml4Index, v.pdptIndex]) (i := v.pdIndex) hpt
  obtain ⟨pdpt, hpdpt, he3, -⟩ := h.parent (p := [v.pml4Index]) (i := v.pdptIndex) hpd
  obtain ⟨a, ha, he4, -⟩ := h.parent (p := []) (i := v.pml4Index) hpdpt
  rw [h.root] at ha
  subst ha
  exact ⟨pdpt, pd, he4, he3, he2, hpdpt, hpd⟩

/-- The leaf decides writing and executing; the links forbid user access. -/
theorem Uniform.effectiveRights (h : Uniform r F c held place s) {pt : U64} {v : VirtAddr}
    (hpt : place pt = some v.tablePath) (hv : isCanonical v.addr = true) {phys : U64} {flags : PageTableFlags}
    (hleaf : s.tables pt v.ptIndex = .set phys flags) (hflags : flags.bits.getLsbD 0 = true) :
    effectiveRights s.tables r v = some ⟨flags.rights.writable, false, flags.rights.noExecute⟩ := by
  obtain ⟨pdpt, pd, he4, he3, he2, hpdpt, hpd⟩ := h.links hpt
  have hpres : (PageTableEntry.set phys flags).isPresent = true := by
    rw [PageTableEntry.set_isPresent]
    exact hflags
  have hwalk : hardwareWalk s.tables r v = some ((PageTableEntry.set phys flags).physAddr ||| v.pageOffset,
      [.set pdpt PageTableFlags.table, .set pd PageTableFlags.table, .set pt PageTableFlags.table,
        .set phys flags]) := by
    simp only [hardwareWalk, pageWalk, hv, he4, table_present, (h.link hpdpt).1, (h.link hpdpt).2, he3, (h.link hpd).1,
      (h.link hpd).2, he2, (h.link hpt).1, (h.link hpt).2, hleaf, hpres]
    rfl
  rw [Paging.effectiveRights, hwalk]
  simp only [Option.map_some, List.map_cons, List.map_nil, List.foldr_cons, List.foldr_nil,
    PageTableEntry.set_rights, PageTableFlags.table_rights, Rights.meet, Bool.true_and, Bool.and_true,
    Bool.false_and, Bool.false_or, Bool.or_false]

end Links

section Calls

variable {r : U64} {F held : Finset U64} {c : ℕ} {place : U64 → Option Path} {s : PageMemory}

theorem Uniform.writeLeaf (h : Uniform r F c held place s) {pt : U64} {p : Path} (hpt : place pt = some p)
    (hp : p.length = 3) (i : Fin 512) (e : PageTableEntry) : Uniform r F c held place (s.writeEntry pt i e) := by
  have hread {a : U64} {q : Path} {j : Fin 512} (ha : place a = some q) (hq : q.length < 3) :
      (s.writeEntry pt i e).tables a j = s.tables a j := by
    rw [writeEntry_tables, if_neg]
    rintro ⟨rfl, -⟩
    cases hpt.symm.trans ha
    omega
  refine
    { owned := h.owned.retable (fun _ hb => by cases hb) (fun hb => by cases hb) (fun hb => by cases hb)
      root := h.root
      taken := h.taken
      child := ?_
      parent := ?_ }
  · intro a q j ha hq
    rw [hread ha hq]
    exact h.child ha hq
  · intro b q j hb
    obtain ⟨a, ha, he, hq⟩ := h.parent hb
    exact ⟨a, ha, by rw [hread ha hq, he], hq⟩

theorem Uniform.getOrCreateTable_cases (h : Uniform r F c held place s) {a : U64} {p : Path} (ha : place a = some p)
    (hp : p.length < 3) (i : Fin 512) :
    (∃ e, getOrCreateTable a i s = (.error e, s)) ∨
    ∃ b held' place' s', getOrCreateTable a i s = (.ok b, s') ∧ Uniform r F c held' place' s' ∧
      Kept place place' s s' ∧ place' b = some (p ++ [i]) := by
  rcases h.owned.getOrCreateTable_held (h.taken ha) i with he | ⟨b, he, hb⟩ |
    ⟨f, s', he, habs, hf, -, ho, hread⟩
  · exact .inl he
  · refine .inr ⟨b, held, place, s, he, h, .refl place s, ?_⟩
    obtain ⟨b', he', hb'⟩ := h.child ha hp (PageTableEntry.link_eq_some.mp hb).1
    rw [he', PageTableEntry.set_table_link (h.isFrame hb')] at hb
    cases hb
    exact hb'
  · have hnew {b : U64} {q : Path} (hb : place b = some q) : b ≠ f := fun hbf => hf (hbf ▸ h.taken hb)
    have hkeep {b : U64} {q : Path} (hb : place b = some q) :
        Function.update place f (some (p ++ [i])) b = some q := by
      rw [Function.update_of_ne (hnew hb), hb]
    have hold {b : U64} {q : Path} (hb : Function.update place f (some (p ++ [i])) b = some q) (hbf : b ≠ f) :
        place b = some q := by
      rw [Function.update_of_ne hbf] at hb
      exact hb
    have hentry {b : U64} {q : Path} {j : Fin 512} (hb : place b = some q) (hpres : (s.tables b j).isPresent = true) :
        s'.tables b j = s.tables b j := by
      rw [hread, if_neg (hnew hb), if_neg]
      rintro ⟨rfl, rfl⟩
      rw [habs] at hpres
      cases hpres
    refine .inr ⟨f, insert f held, Function.update place f (some (p ++ [i])), s', he, ?_, ⟨hkeep, hentry⟩,
      Function.update_self _ _ _⟩
    refine
      { owned := ho
        root := ?_
        taken := ?_
        child := ?_
        parent := ?_ }
    · intro b
      by_cases hbf : b = f
      · subst hbf
        rw [Function.update_self]
        have hroot := h.root.mpr rfl
        refine iff_of_false (by simp) fun hbr => hnew hroot hbr.symm
      · rw [Function.update_of_ne hbf]
        exact h.root
    · intro b q hb
      by_cases hbf : b = f
      · rw [hbf]
        exact Finset.mem_insert_self f held
      · exact Finset.mem_insert_of_mem (h.taken (hold hb hbf))
    · intro b q j hb hq
      rw [hread]
      split_ifs with hbf hslot
      · exact fun hbad => by cases hbad
      · rcases hslot with ⟨rfl, rfl⟩
        cases ha.symm.trans (hold hb hbf)
        exact fun _ => ⟨f, rfl, Function.update_self _ _ _⟩
      · intro hpres
        obtain ⟨x, hx, hplace⟩ := h.child (hold hb hbf) hq hpres
        exact ⟨x, hx, hkeep hplace⟩
    · intro b q j hb
      by_cases hbf : b = f
      · subst hbf
        rw [Function.update_self] at hb
        obtain ⟨rfl, hj⟩ := List.append_inj' (Option.some.inj hb) rfl
        cases hj
        exact ⟨a, hkeep ha, by rw [hread, if_neg (hnew ha), if_pos ⟨rfl, rfl⟩], hp⟩
      · obtain ⟨x, hx, hlink, hq⟩ := h.parent (hold hb hbf)
        exact ⟨x, hkeep hx, by rw [hentry hx (by rw [hlink]; exact table_present b), hlink], hq⟩

theorem Uniform.walkCreate_cases (is : Path) (h : Uniform r F c held place s) {a : U64} {p : Path}
    (ha : place a = some p) (hp : p.length + is.length ≤ 3) :
    ∃ held' place' s', Uniform r F c held' place' s' ∧ Kept place place' s s' ∧
      ((∃ e, walkCreate a is s = (.error e, s')) ∨
        ∃ b, walkCreate a is s = (.ok b, s') ∧ place' b = some (p ++ is)) := by
  induction is generalizing a p held place s with
  | nil => exact ⟨held, place, s, h, .refl place s, .inr ⟨a, rfl, by rw [List.append_nil, ha]⟩⟩
  | cons i is ih =>
    rw [List.length_cons] at hp
    unfold walkCreate
    rcases h.getOrCreateTable_cases ha (by omega) i with ⟨e, he⟩ | ⟨b, held', place', s', he, h', hk, hb⟩
    · exact ⟨held, place, s, h, .refl place s, .inl ⟨e, by rw [he]⟩⟩
    · rw [he]
      obtain ⟨held'', place'', s'', h'', hk', hcase⟩ :=
        ih h' hb (by rw [List.length_append, List.length_singleton]; omega)
      rw [List.append_assoc, List.singleton_append] at hcase
      exact ⟨held'', place'', s'', h'', hk.trans hk', hcase⟩

/-- `map_page` changes no present entry, and on success its leaf is in place. -/
theorem Uniform.mapPage_cases (h : Uniform r F c held place s) (v : VirtAddr) (phys : PhysPage)
    (flags : PageTableFlags) :
    ∃ held' place' s', Uniform r F c held' place' s' ∧ Kept place place' s s' ∧
      ((∃ e, mapPage ⟨r⟩ v phys flags s = (.error e, s')) ∨
        ∃ pt, mapPage ⟨r⟩ v phys flags s = (.ok (), s') ∧ isCanonical v.addr = true ∧
          place' pt = some v.tablePath ∧ s'.tables pt v.ptIndex = .set phys.addr flags) := by
  by_cases hargs : isCanonical v.addr = true ∧ v.isAligned = true ∧ phys.addr.toNat % pageSize = 0
  · rw [mapPage_eq ⟨r⟩ v phys flags s hargs.1 hargs.2.1 hargs.2.2]
    obtain ⟨held', place', s', h', hk, ⟨e, he⟩ | ⟨pt, he, hpt⟩⟩ :=
      h.walkCreate_cases v.tablePath (h.root.mpr rfl) (by rw [v.tablePath_length, List.length_nil])
    · rw [he]
      exact ⟨held', place', s', h', hk, .inl ⟨e, rfl⟩⟩
    · rw [he]
      rw [List.nil_append] at hpt
      cases habs : (s'.tables pt v.ptIndex).isPresent with
      | true => exact ⟨held', place', s', h', hk, .inl ⟨.alreadyMapped, by simp [habs]⟩⟩
      | false =>
        refine ⟨held', place', s'.writeEntry pt v.ptIndex (.set phys.addr flags),
          h'.writeLeaf hpt v.tablePath_length _ _, hk.trans ⟨id, ?_⟩,
          .inr ⟨pt, by simp [habs], hargs.1, hpt, by rw [writeEntry_tables, if_pos ⟨rfl, rfl⟩]⟩⟩
        intro a p i _ hpres
        rw [writeEntry_tables, if_neg]
        rintro ⟨rfl, rfl⟩
        rw [habs] at hpres
        cases hpres
  · obtain ⟨e, he⟩ := mapPage_refused ⟨r⟩ flags s hargs
    rw [he]
    exact ⟨held, place, s, h, .refl place s, .inl ⟨e, rfl⟩⟩

/-- `unmap_page` clears the leaf of its page, or nothing. -/
theorem Uniform.unmapPage_cases (h : Uniform r F c held place s) (v : VirtAddr) :
    (∃ e, unmapPage ⟨r⟩ v s = (.error e, s)) ∨
    ∃ pt page, unmapPage ⟨r⟩ v s = (.ok page, s.writeEntry pt v.ptIndex .empty) ∧ isCanonical v.addr = true ∧
      place pt = some v.tablePath := by
  by_cases hv : isCanonical v.addr = true ∧ v.isAligned = true
  · obtain ⟨hc, ha⟩ := hv
    have hroot := h.root.mpr rfl
    unfold unmapPage
    simp only [hc, ha]
    by_cases h4 : (s.tables r v.pml4Index).isPresent = true
    · obtain ⟨pdpt, he4, hpdpt⟩ := h.child hroot (by decide) h4
      simp only [he4, table_present, (h.link hpdpt).2]
      by_cases h3 : (s.tables pdpt v.pdptIndex).isPresent = true
      · obtain ⟨pd, he3, hpd⟩ := h.child hpdpt (by simp) h3
        simp only [he3, table_present, (h.link hpd).2]
        by_cases h2 : (s.tables pd v.pdIndex).isPresent = true
        · obtain ⟨pt, he2, hpt⟩ := h.child hpd (by simp) h2
          simp only [he2, table_present, (h.link hpt).2]
          by_cases h1 : (s.tables pt v.ptIndex).isPresent = true
          · exact .inr ⟨pt, ⟨(s.tables pt v.ptIndex).physAddr⟩, by simp [h1], trivial, hpt⟩
          · exact .inl ⟨.notMapped, by simp [h1]⟩
        · exact .inl ⟨.parentTableMissing, by simp [h2]⟩
      · exact .inl ⟨.parentTableMissing, by simp [h3]⟩
    · exact .inl ⟨.parentTableMissing, by simp [h4]⟩
  · exact .inl (unmapPage_refused ⟨r⟩ s hv)

end Calls

def Call.page : Call → VirtAddr
  | .mapped v _ _ _ => v
  | .unmapped v _ => v

/-- Tables at their paths below `r`, with the leaf entry `e` for the page of `v`. -/
def HasLeaf (r : U64) (v : VirtAddr) (e : PageTableEntry) (s : PageMemory) : Prop :=
  ∃ F c held place, Uniform r F c held place s ∧ ∃ pt, place pt = some v.tablePath ∧ s.tables pt v.ptIndex = e

def IsUniform (r : U64) (s : PageMemory) : Prop := ∃ F c held place, Uniform r F c held place s

section Running

variable {r : U64} {s t : PageMemory} {v : VirtAddr} {e : PageTableEntry}

theorem IsUniform.step (h : IsUniform r s) {call : Call} (hstep : CallStep ⟨r⟩ s call t) : IsUniform r t := by
  obtain ⟨F, c, held, place, h⟩ := h
  cases hstep with
  | @map _ v phys flags _ hcall =>
    obtain ⟨held', place', s', h', -, hcase⟩ := h.mapPage_cases v phys flags
    have ht : s' = t := by
      rcases hcase with ⟨e, he⟩ | ⟨pt, he, -⟩
      · exact congrArg Prod.snd (he.symm.trans hcall)
      · exact congrArg Prod.snd (he.symm.trans hcall)
    exact ⟨F, c, held', place', ht ▸ h'⟩
  | @unmap _ v _ hcall =>
    rcases h.unmapPage_cases v with ⟨e, he⟩ | ⟨pt, page, he, -, hpt⟩
    · cases he.symm.trans hcall
      exact ⟨F, c, held, place, h⟩
    · cases he.symm.trans hcall
      exact ⟨F, c, held, place, h.writeLeaf hpt v.tablePath_length _ _⟩

/-- A present leaf is left alone by every call on another page. -/
theorem HasLeaf.step (h : HasLeaf r v e s) (hv : isCanonical v.addr = true) (he : e.isPresent = true) {call : Call}
    (hother : call.page.addr.toNat / 4096 ≠ v.addr.toNat / 4096) (hstep : CallStep ⟨r⟩ s call t) :
    HasLeaf r v e t := by
  obtain ⟨F, c, held, place, h, pt, hpt, hleaf⟩ := h
  cases hstep with
  | @map _ w phys flags _ hcall =>
    obtain ⟨held', place', s', h', hk, hcase⟩ := h.mapPage_cases w phys flags
    have ht : s' = t := by
      rcases hcase with ⟨e, he⟩ | ⟨pt, he, -⟩
      · exact congrArg Prod.snd (he.symm.trans hcall)
      · exact congrArg Prod.snd (he.symm.trans hcall)
    subst ht
    exact ⟨F, c, held', place', h', pt, hk.stays hpt, by rw [hk.entry hpt (by rw [hleaf]; exact he), hleaf]⟩
  | @unmap _ w _ hcall =>
    rcases h.unmapPage_cases w with ⟨e, he⟩ | ⟨pt', page, he, hw, hpt'⟩
    · cases he.symm.trans hcall
      exact ⟨F, c, held, place, h, pt, hpt, hleaf⟩
    · cases he.symm.trans hcall
      refine ⟨F, c, held, place, h.writeLeaf hpt' w.tablePath_length _ _, pt, hpt, ?_⟩
      rw [writeEntry_tables, if_neg, hleaf]
      -- the same slot of the same table would be the same page
      rintro ⟨rfl, hi⟩
      refine hother (VirtAddr.page_eq_of_path hw hv ?_)
      change w.tablePath ++ [w.ptIndex] = v.tablePath ++ [v.ptIndex]
      rw [hi, Option.some.inj (hpt.symm.trans hpt')]

theorem EmptyRoot.isUniform {F : Finset U64} {c : ℕ} (h : EmptyRoot r F c s) : IsUniform r s := by
  obtain ⟨F, c, held, level, hl⟩ := h.hasLevels
  have hplace {a : U64} {p : Path} (ha : (if a = r then some [] else none) = some p) : a = r ∧ p = [] := by
    split_ifs at ha with hr
    cases ha
    exact ⟨hr, rfl⟩
  refine ⟨F, c, held, fun a => if a = r then some [] else none, ?_⟩
  refine
    { owned := hl.owned
      root := ?_
      taken := ?_
      child := ?_
      parent := ?_ }
  · intro a
    exact ⟨fun ha => (hplace ha).1, fun ha => if_pos ha⟩
  · intro a p ha
    rw [(hplace ha).1]
    exact hl.taken hl.root
  · intro a p i ha _ hpres
    rw [(hplace ha).1, h.empty] at hpres
    exact absurd hpres (by simp [PageTable.zero])
  · intro b p i hb
    have hnil := (hplace hb).2
    simp at hnil

end Running

/-- A page mapped by `map_page` has the permissions its flags ask for, then and after any calls on other
pages, exactly when the flags do not ask for user access. -/
theorem effective_rights_iff {r : U64} {F : Finset U64} {c : ℕ} {s s₁ s₂ t : PageMemory} {before after : List Call}
    (h : EmptyRoot r F c s) (hbefore : Run (CallStep ⟨r⟩) s before s₁) {v : VirtAddr} {phys : PhysPage}
    {flags : PageTableFlags} (hpresent : flags.bits.getLsbD 0 = true)
    (hmap : mapPage ⟨r⟩ v phys flags s₁ = (.ok (), s₂)) (hafter : Run (CallStep ⟨r⟩) s₂ after t)
    (hother : ∀ call ∈ after, call.page.addr.toNat / 4096 ≠ v.addr.toNat / 4096) :
    effectiveRights t.tables r v = some flags.rights ↔ flags.rights.userAccessible = false := by
  obtain ⟨F, c, held, place, hs⟩ := hbefore.invariant (IsUniform r) (fun _ _ _ hs hstep => hs.step hstep) h.isUniform
  obtain ⟨held', place', s', hs', -, ⟨e, he⟩ | ⟨pt, he, hv, hpt, hleaf⟩⟩ := hs.mapPage_cases v phys flags
  · cases he.symm.trans hmap
  · cases he.symm.trans hmap
    have hpres : (PageTableEntry.set phys.addr flags).isPresent = true := by
      rw [PageTableEntry.set_isPresent]
      exact hpresent
    obtain ⟨F, c, held, place, ht, pt, hpt, hleaf⟩ :=
      hafter.invariant_of_forall (HasLeaf r v (.set phys.addr flags))
        (fun call => call.page.addr.toNat / 4096 ≠ v.addr.toNat / 4096)
        (fun _ _ _ hs hcall hstep => hs.step hv hpres hcall hstep) hother
        ⟨F, c, held', place', hs', pt, hpt, hleaf⟩
    rw [ht.effectiveRights hpt hv hleaf hpresent]
    generalize flags.rights = rights
    cases rights with
    | mk w u n =>
      cases u with
      | true => simp
      | false => simp

/-- Two neighbouring pages below the sample root, the second read only and not executable. -/
theorem sample_rights : ∃ s₁ s₂ t result, Run (CallStep ⟨0x200000⟩) sampleMemory [.mapped ⟨0x8000000000⟩ ⟨0x5000⟩
      PageTableFlags.table (.ok ())] s₁ ∧
    mapPage ⟨0x200000⟩ ⟨0x8000001000⟩ ⟨0x6000⟩ (PageTableFlags.present.union PageTableFlags.noExecute) s₁ =
      (.ok (), s₂) ∧
    Run (CallStep ⟨0x200000⟩) s₂ [.unmapped ⟨0x8000000000⟩ result] t ∧
    effectiveRights t.tables 0x200000 ⟨0x8000001000⟩ = some ⟨false, false, true⟩ := by
  have hfirst : (mapPage ⟨0x200000⟩ ⟨0x8000000000⟩ ⟨0x5000⟩ PageTableFlags.table sampleMemory).1 = .ok () := by decide
  have hsecond : (mapPage ⟨0x200000⟩ ⟨0x8000001000⟩ ⟨0x6000⟩ (PageTableFlags.present.union PageTableFlags.noExecute)
      (mapPage ⟨0x200000⟩ ⟨0x8000000000⟩ ⟨0x5000⟩ PageTableFlags.table sampleMemory).2).1 = .ok () := by decide
  have hrun₁ : Run (CallStep ⟨0x200000⟩) sampleMemory [.mapped ⟨0x8000000000⟩ ⟨0x5000⟩ PageTableFlags.table (.ok ())]
      (mapPage ⟨0x200000⟩ ⟨0x8000000000⟩ ⟨0x5000⟩ PageTableFlags.table sampleMemory).2 :=
    .single (.map (Prod.ext hfirst rfl))
  generalize (mapPage ⟨0x200000⟩ ⟨0x8000000000⟩ ⟨0x5000⟩ PageTableFlags.table sampleMemory).2 = s₁ at hsecond hrun₁
  obtain ⟨s₂, hmap⟩ : ∃ s₂, mapPage ⟨0x200000⟩ ⟨0x8000001000⟩ ⟨0x6000⟩
      (PageTableFlags.present.union PageTableFlags.noExecute) s₁ = (.ok (), s₂) := ⟨_, Prod.ext hsecond rfl⟩
  have hrun₂ : Run (CallStep ⟨0x200000⟩) s₂ [.unmapped ⟨0x8000000000⟩ (unmapPage ⟨0x200000⟩ ⟨0x8000000000⟩ s₂).1]
      (unmapPage ⟨0x200000⟩ ⟨0x8000000000⟩ s₂).2 := .single (.unmap rfl)
  refine ⟨s₁, s₂, _, _, hrun₁, hmap, hrun₂, ?_⟩
  refine (effective_rights_iff sampleMemory_root hrun₁ (by decide) hmap hrun₂ ?_).mpr (by decide)
  intro call hcall
  rw [List.mem_singleton.mp hcall]
  change (0x8000000000#64).toNat / 4096 ≠ (0x8000001000#64).toNat / 4096
  decide

/-- A page mapped for user code, which the processor does not let it reach. -/
theorem sample_user_page : ∃ s₂, EmptyRoot 0x200000 ∅ 0 sampleMemory ∧
    mapPage ⟨0x200000⟩ ⟨0x8000000000⟩ ⟨0x5000⟩ (PageTableFlags.table.union PageTableFlags.userAccessible) sampleMemory =
      (.ok (), s₂) ∧
    (PageTableFlags.table.union PageTableFlags.userAccessible).rights = ⟨true, true, false⟩ ∧
    effectiveRights s₂.tables 0x200000 ⟨0x8000000000⟩ = some ⟨true, false, false⟩ := by
  have hok : (mapPage ⟨0x200000⟩ ⟨0x8000000000⟩ ⟨0x5000⟩ (PageTableFlags.table.union PageTableFlags.userAccessible)
      sampleMemory).1 = .ok () := by decide
  exact ⟨_, sampleMemory_root, Prod.ext hok rfl, by decide, by decide⟩

end VenturaOS.Paging
