import VenturaOS.Library.Runs
import VenturaOS.Paging.Hardware
import VenturaOS.Paging.Refinement

/-!
# `translate` against the page walk

Tables built from an empty root have levels: an entry above the page
directories is never large, and a link leads to the next level. On such
tables `translate` agrees with the walk except below a 2 MiB page, where
it takes a word of that page for a page table entry.
-/
namespace VenturaOS.Paging
open Library Pmm Memory

/-- The address `translate` gives is the one the page walk gives, with large entries as leaves. -/
def Agrees (tables : U64 → PageTable) (root : U64) (v : VirtAddr) : Prop :=
  (translate tables ⟨root⟩ v).map (fun x => x.1.addr) = (pageWalk tables root v).map Prod.fst

/-- The directory entry on the walk of `v`, if the tables above it are there. -/
def pdEntry (tables : U64 → PageTable) (root : U64) (v : VirtAddr) : Option PageTableEntry :=
  if (tables root v.pml4Index).isPresent then
    if (tables (tables root v.pml4Index).physAddr v.pdptIndex).isPresent then
      some (tables (tables (tables root v.pml4Index).physAddr v.pdptIndex).physAddr v.pdIndex)
    else none
  else none

/-- A large page on the walk of `v` holds, where `translate` looks for an entry, one for the frame of `v`. -/
def LargePageReadsBack (tables : U64 → PageTable) (root : U64) (v : VirtAddr) : Prop :=
  ∀ e, pdEntry tables root v = some e → e.isPresent = true → e.isHuge = true →
    (tables e.physAddr v.ptIndex).isPresent = true ∧
      (tables e.physAddr v.ptIndex).physAddr = (e.bits &&& 0x000FFFFFFFE00000#64) ||| (v.addr &&& 0x1FF000#64)

section Offsets

theorem or_mask_inj {w x m : U64} (v : U64) (hw : w &&& m = 0#64) (hx : x &&& m = 0#64)
    (h : w ||| (v &&& m) = x ||| (v &&& m)) : w = x := by
  apply BitVec.eq_of_getLsbD_eq
  intro i _
  have hwi : (w.getLsbD i && m.getLsbD i) = false := by rw [← BitVec.getLsbD_and, hw, BitVec.getLsbD_zero]
  have hxi : (x.getLsbD i && m.getLsbD i) = false := by rw [← BitVec.getLsbD_and, hx, BitVec.getLsbD_zero]
  have hi : (w.getLsbD i || v.getLsbD i && m.getLsbD i) = (x.getLsbD i || v.getLsbD i && m.getLsbD i) := by
    rw [← BitVec.getLsbD_and, ← BitVec.getLsbD_or, ← BitVec.getLsbD_or, h]
  cases hm : m.getLsbD i with
  | true =>
    rw [hm, Bool.and_true] at hwi hxi
    rw [hwi, hxi]
  | false =>
    rw [hm, Bool.and_false, Bool.or_false, Bool.or_false] at hi
    exact hi

theorem physAddr_mask (e : PageTableEntry) : e.physAddr &&& 0xFFF#64 = 0#64 := by
  rw [PageTableEntry.physAddr, BitVec.and_assoc]
  exact BitVec.and_zero

theorem physAddr_add (e : PageTableEntry) (v : VirtAddr) : e.physAddr + v.pageOffset = e.physAddr ||| v.pageOffset := by
  apply BitVec.add_eq_or_of_and_eq_zero
  rw [VirtAddr.pageOffset, BitVec.and_comm v.addr, ← BitVec.and_assoc, physAddr_mask, BitVec.zero_and]

/-- The address inside a large page is its 4 KiB frame and the offset in that frame. -/
theorem large_address (e : PageTableEntry) (v : VirtAddr) :
    (e.bits &&& 0x000FFFFFFFE00000#64) ||| (v.addr &&& 0x1FFFFF#64) =
      ((e.bits &&& 0x000FFFFFFFE00000#64) ||| (v.addr &&& 0x1FF000#64)) ||| v.pageOffset := by
  have hmask : (0x1FFFFF#64 : U64) = 0x1FF000#64 ||| 0xFFF#64 := by decide
  rw [VirtAddr.pageOffset, BitVec.or_assoc, ← BitVec.and_or_distrib_left, hmask]

theorem large_mask (e : PageTableEntry) (v : VirtAddr) :
    ((e.bits &&& 0x000FFFFFFFE00000#64) ||| (v.addr &&& 0x1FF000#64)) &&& 0xFFF#64 = 0#64 := by
  rw [BitVec.and_or_distrib_right, BitVec.and_assoc, BitVec.and_assoc]
  have hhigh : (0x000FFFFFFFE00000#64 : U64) &&& 0xFFF#64 = 0#64 := by decide
  have hlow : (0x1FF000#64 : U64) &&& 0xFFF#64 = 0#64 := by decide
  rw [hhigh, hlow, BitVec.and_zero, BitVec.and_zero, BitVec.or_zero]

/-- An entry read in a large page gives the right address exactly when it names the right frame. -/
theorem large_reads_iff (e word : PageTableEntry) (v : VirtAddr) :
    word.physAddr + v.pageOffset = (e.bits &&& 0x000FFFFFFFE00000#64) ||| (v.addr &&& 0x1FFFFF#64) ↔
      word.physAddr = (e.bits &&& 0x000FFFFFFFE00000#64) ||| (v.addr &&& 0x1FF000#64) := by
  rw [physAddr_add, large_address]
  constructor
  · exact fun h => or_mask_inj v.addr (physAddr_mask word) (large_mask e v) h
  · intro h
    rw [h]

end Offsets

/-- Table levels below one root; every table has been taken from the pool or the page allocator. -/
structure Leveled (r : U64) (F : Finset U64) (c : ℕ) (held : Finset U64) (level : U64 → Option ℕ)
    (s : PageMemory) : Prop where
  owned : Owned (treePolicy r) F c (fun _ => none) held s
  root : level r = some 0
  taken : ∀ {a d}, level a = some d → a ∈ held
  small : ∀ {a d} {i : Fin 512}, level a = some d → d < 2 → (s.tables a i).isPresent = true →
    (s.tables a i).isHuge = false
  next : ∀ {a d} {i : Fin 512} {b : U64}, level a = some d → d < 3 → (s.tables a i).link = some b →
    level b = some (d + 1)

section Agreement

variable {r : U64} {F held : Finset U64} {c : ℕ} {level : U64 → Option ℕ} {s : PageMemory}

/-- On leveled tables only large pages are misread. -/
theorem Leveled.agrees_iff (h : Leveled r F c held level s) {v : VirtAddr} (hv : isCanonical v.addr = true) :
    Agrees s.tables r v ↔ LargePageReadsBack s.tables r v := by
  unfold Agrees LargePageReadsBack translate pageWalk pdEntry
  simp only [hv]
  by_cases h4 : (s.tables r v.pml4Index).isPresent = true
  · have g4 := h.small h.root (by omega) h4
    have l3 := h.next h.root (by omega) (PageTableEntry.link_eq_some.mpr ⟨h4, g4, rfl⟩)
    generalize s.tables r v.pml4Index = e4 at *
    by_cases h3 : (s.tables e4.physAddr v.pdptIndex).isPresent = true
    · have g3 := h.small l3 (by omega) h3
      generalize s.tables e4.physAddr v.pdptIndex = e3 at *
      by_cases h2 : (s.tables e3.physAddr v.pdIndex).isPresent = true
      · generalize s.tables e3.physAddr v.pdIndex = e2 at *
        cases g2 : e2.isHuge with
        | true =>
          by_cases h1 : (s.tables e2.physAddr v.ptIndex).isPresent = true
          · simp [h4, g4, h3, g3, h2, g2, h1, large_reads_iff]
          · simp [h4, g4, h3, g3, h2, g2, h1]
        | false =>
          by_cases h1 : (s.tables e2.physAddr v.ptIndex).isPresent = true
          · simp [h4, g4, h3, g3, h2, g2, h1, physAddr_add]
          · simp [h4, g4, h3, g3, h2, g2, h1]
      · simp [h4, g4, h3, g3, h2]
    · simp [h4, g4, h3]
  · simp [h4]

end Agreement

section Growing

variable {r : U64} {F held : Finset U64} {c : ℕ} {level : U64 → Option ℕ} {s : PageMemory}

/-- Some levels, with the tables so far. -/
def HasLevels (r : U64) (s : PageMemory) : Prop := ∃ F c held level, Leveled r F c held level s

/-- Rewriting table memory, with entries that keep the levels. -/
theorem Leveled.retable (h : Leveled r F c held level s) {t : U64 → PageTable}
    (hsmall : ∀ {a d} {i : Fin 512}, level a = some d → d < 2 → (t a i).isPresent = true → (t a i).isHuge = false)
    (hnext : ∀ {a d} {i : Fin 512} {b : U64}, level a = some d → d < 3 → (t a i).link = some b →
      level b = some (d + 1)) : Leveled r F c held level { s with tables := t } where
  owned := h.owned.retable (fun _ ha => by cases ha) (fun ha => by cases ha) (fun ha => by cases ha)
  root := h.root
  taken := h.taken
  small := hsmall
  next := hnext

theorem Leveled.writeEntry (h : Leveled r F c held level s) {a : U64} {d : ℕ} {i : Fin 512} {e : PageTableEntry}
    (ha : level a = some d) (hd : 2 ≤ d) (he : d = 2 → e.link = none) :
    Leveled r F c held level (s.writeEntry a i e) := by
  have hread (b : U64) (j : Fin 512) : (s.writeEntry a i e).tables b j = if b = a ∧ j = i then e else s.tables b j :=
    writeEntry_tables s a i e b j
  refine h.retable ?_ ?_
  · intro b d' j hb hlt
    change ((s.writeEntry a i e).tables b j).isPresent = true → ((s.writeEntry a i e).tables b j).isHuge = false
    rw [hread, if_neg]
    · exact h.small hb hlt
    · rintro ⟨rfl, -⟩
      cases ha.symm.trans hb
      omega
  · intro b d' j x hb hlt
    change ((s.writeEntry a i e).tables b j).link = some x → _
    rw [hread]
    split_ifs with hslot
    · rcases hslot with ⟨rfl, rfl⟩
      cases ha.symm.trans hb
      rw [he (by omega)]
      exact fun hx => by cases hx
    · exact h.next hb hlt

/-- `get_or_create_table` on a table in use: an error, a link, or a fresh empty table behind a new link. -/
theorem Owned.getOrCreateTable_held (h : Owned (treePolicy r) F c (fun _ => none) held s) {a : U64} (ha : a ∈ held)
    (i : Fin 512) :
    (∃ e, getOrCreateTable a i s = (.error e, s)) ∨
    (∃ b, getOrCreateTable a i s = (.ok b, s) ∧ (s.tables a i).link = some b) ∨
    ∃ f s', getOrCreateTable a i s = (.ok f, s') ∧ (s.tables a i).isPresent = false ∧ f ∉ held ∧ IsFrame f ∧
      Owned (treePolicy r) F c (fun _ => none) (insert f held) s' ∧
      ∀ b j, s'.tables b j =
        if b = f then .empty else if b = a ∧ j = i then .set f PageTableFlags.table else s.tables b j := by
  unfold getOrCreateTable
  cases hp : (s.tables a i).isPresent with
  | true =>
    cases hh : (s.tables a i).isHuge with
    | true => exact .inl ⟨.alreadyMapped, by simp [hp, hh]⟩
    | false =>
      exact .inr (.inl ⟨(s.tables a i).physAddr, by simp [hp, hh], PageTableEntry.link_eq_some.mpr ⟨hp, hh, rfl⟩⟩)
  | false =>
    rcases h.newTableFrame_cases with ⟨he, -⟩ | ⟨f, s', he, ho, hf, -, ht, -⟩
    · exact .inl ⟨.frameAllocationFailed, by simp [hp, he]⟩
    have haf : a ≠ f := fun hbad => hf (hbad ▸ ha)
    refine .inr (.inr ⟨f, (s'.writeTable f .zero).writeEntry a i (.set f PageTableFlags.table), by simp [hp, he],
      rfl, hf, ho.isFrame_of_inUse (ho.held_inUse (Finset.mem_insert_self f held)).1,
      ho.retable (fun _ hb => by cases hb) (fun hb => by cases hb) (fun hb => by cases hb), ?_⟩)
    intro b j
    rw [Owned.linked_tables haf]
    by_cases hbf : b = f
    · subst hbf
      rw [if_neg haf.symm, if_pos rfl, if_pos rfl]
      rfl
    · by_cases hba : b = a
      · subst hba
        rw [if_pos rfl, ht b hbf]
        by_cases hj : j = i
        · subst hj
          rw [Function.update_self, if_neg hbf, if_pos ⟨rfl, rfl⟩]
        · rw [Function.update_of_ne hj, if_neg hbf, if_neg fun hc => hj hc.2]
      · rw [if_neg hba, if_neg hbf, if_neg hbf, if_neg fun hc => hba hc.1, ht b hbf]

/-- `get_or_create_table` moves down one level, making the table when it is missing. -/
theorem Leveled.getOrCreateTable_cases (h : Leveled r F c held level s) {a : U64} {d : ℕ} (ha : level a = some d)
    (hd : d < 3) (i : Fin 512) :
    (∃ e, getOrCreateTable a i s = (.error e, s)) ∨
    ∃ b held' level' s', getOrCreateTable a i s = (.ok b, s') ∧ Leveled r F c held' level' s' ∧
      level' b = some (d + 1) := by
  rcases h.owned.getOrCreateTable_held (h.taken ha) i with he | ⟨b, he, hb⟩ | ⟨f, s', he, -, hf, hframe, ho, hread⟩
  · exact .inl he
  · exact .inr ⟨b, held, level, s, he, h, h.next ha hd hb⟩
  · have hkeep {b : U64} {x : ℕ} (hb : level b = some x) : Function.update level f (some (d + 1)) b = some x := by
      have hbf : b ≠ f := fun hbad => hf (hbad ▸ h.taken hb)
      rw [Function.update_of_ne hbf, hb]
    -- a leveled table is the new one, all empty, or an old one, with at most the new link
    have hold {b : U64} {x : ℕ} (hb : Function.update level f (some (d + 1)) b = some x) (hbf : b ≠ f) :
        level b = some x := by
      rw [Function.update_of_ne hbf] at hb
      exact hb
    refine .inr ⟨f, insert f held, Function.update level f (some (d + 1)), s', he, ?_, Function.update_self _ _ _⟩
    refine
      { owned := ho
        root := hkeep h.root
        taken := ?_
        small := ?_
        next := ?_ }
    · intro b x hb
      by_cases hbf : b = f
      · rw [hbf]
        exact Finset.mem_insert_self f held
      · exact Finset.mem_insert_of_mem (h.taken (hold hb hbf))
    · intro b x j hb hx
      rw [hread]
      split_ifs with hbf hslot
      · exact fun hbad => by cases hbad
      · exact fun _ => by rw [PageTableEntry.set_isHuge]; decide
      · exact h.small (hold hb hbf) hx
    · intro b x j y hb hx
      rw [hread]
      split_ifs with hbf hslot
      · exact fun hbad => by cases hbad
      · rcases hslot with ⟨rfl, rfl⟩
        rw [PageTableEntry.set_table_link hframe]
        intro hy
        cases hy
        cases ha.symm.trans (hold hb hbf)
        exact Function.update_self _ _ _
      · exact fun hy => hkeep (h.next (hold hb hbf) hx hy)

/-- A walk that makes the tables it misses keeps the levels. -/
theorem Leveled.walkCreate_cases (is : Path) (h : Leveled r F c held level s) {a : U64} {d : ℕ}
    (ha : level a = some d) (hd : d + is.length ≤ 3) :
    ∃ held' level' s', Leveled r F c held' level' s' ∧
      ((∃ e, walkCreate a is s = (.error e, s')) ∨
        ∃ b, walkCreate a is s = (.ok b, s') ∧ level' b = some (d + is.length)) := by
  induction is generalizing a d held level s with
  | nil => exact ⟨held, level, s, h, .inr ⟨a, rfl, ha⟩⟩
  | cons i is ih =>
    rw [List.length_cons] at hd
    unfold walkCreate
    rcases h.getOrCreateTable_cases ha (by omega) i with ⟨e, he⟩ | ⟨b, held', level', s', he, h', hb⟩
    · exact ⟨held, level, s, h, .inl ⟨e, by rw [he]⟩⟩
    · rw [he]
      rcases ih h' hb (by omega) with ⟨held'', level'', s'', h'', hcase⟩
      refine ⟨held'', level'', s'', h'', hcase.imp_right ?_⟩
      rintro ⟨x, hx, hl⟩
      refine ⟨x, hx, ?_⟩
      rw [hl, List.length_cons]
      congr 1
      omega

theorem HasLevels.mapPage (h : HasLevels r s) (v : VirtAddr) (phys : PhysPage) (flags : PageTableFlags) :
    HasLevels r (Paging.mapPage ⟨r⟩ v phys flags s).2 := by
  rcases h with ⟨F, c, held, level, h⟩
  by_cases hargs : isCanonical v.addr = true ∧ v.isAligned = true ∧ phys.addr.toNat % pageSize = 0
  · rw [mapPage_eq ⟨r⟩ v phys flags s hargs.1 hargs.2.1 hargs.2.2]
    rcases h.walkCreate_cases v.tablePath h.root (by rw [VirtAddr.tablePath_length]) with
      ⟨held', level', s', h', ⟨e, he⟩ | ⟨pt, he, hpt⟩⟩
    · rw [he]
      exact ⟨F, c, held', level', h'⟩
    · rw [he]
      dsimp only
      split_ifs
      · exact ⟨F, c, held', level', h'⟩
      · exact ⟨F, c, held', level', h'.writeEntry hpt (by simp [VirtAddr.tablePath]) (by simp [VirtAddr.tablePath])⟩
  · rcases mapPage_refused ⟨r⟩ flags s hargs with ⟨e, he⟩
    rw [he]
    exact ⟨F, c, held, level, h⟩

theorem HasLevels.map2mbHugePage (h : HasLevels r s) (v : VirtAddr) (phys : PhysPage) (flags : PageTableFlags) :
    HasLevels r (Paging.map2mbHugePage ⟨r⟩ v phys flags s).2 := by
  rcases h with ⟨F, c, held, level, h⟩
  by_cases hv : isCanonical v.addr = true
  · rw [map2mbHugePage_eq ⟨r⟩ v phys flags s hv]
    rcases h.walkCreate_cases [v.pml4Index, v.pdptIndex] h.root (by simp) with
      ⟨held', level', s', h', ⟨e, he⟩ | ⟨pd, he, hpd⟩⟩
    · rw [he]
      exact ⟨F, c, held', level', h'⟩
    · rw [he]
      -- the entry is large, whatever stood there before
      refine ⟨F, c, held', level', h'.writeEntry hpd (by simp) fun _ => ?_⟩
      have hhuge : (PageTableEntry.set (phys.addr &&& ~~~0x1FFFFF#64)
          (flags.union PageTableFlags.hugePage)).isHuge = true := by
        rw [PageTableEntry.set_isHuge, PageTableFlags.union, BitVec.getLsbD_or]
        exact Bool.or_true _
      rw [PageTableEntry.link, hhuge, Bool.not_true, Bool.and_false, if_neg Bool.false_ne_true]
  · rw [Paging.map2mbHugePage, if_pos (by simpa using hv)]
    exact ⟨F, c, held, level, h⟩

end Growing

/-- A call that builds tables below the root. -/
inductive BuildCall
  | mapPage (v : VirtAddr) (phys : PhysPage) (flags : PageTableFlags)
  | map2mbHugePage (v : VirtAddr) (phys : PhysPage) (flags : PageTableFlags)

inductive BuildStep (root : PhysPage) : PageMemory → BuildCall → PageMemory → Prop
  | mapPage {s : PageMemory} {v : VirtAddr} {phys : PhysPage} {flags : PageTableFlags} :
      BuildStep root s (.mapPage v phys flags) (mapPage root v phys flags s).2
  | map2mbHugePage {s : PageMemory} {v : VirtAddr} {phys : PhysPage} {flags : PageTableFlags} :
      BuildStep root s (.map2mbHugePage v phys flags) (map2mbHugePage root v phys flags s).2

/-- An empty root that has been taken from the page allocator or the static pool. -/
structure EmptyRoot (r : U64) (F : Finset U64) (c : ℕ) (s : PageMemory) : Prop where
  frames : Frames F c s.pmm
  pool : PoolPlaced F s
  taken : InUse F s r
  empty : s.tables r = .zero

theorem EmptyRoot.hasLevels {r : U64} {F : Finset U64} {c : ℕ} {s : PageMemory} (h : EmptyRoot r F c s) :
    HasLevels r s := by
  let held := F \ s.pmm.freeFrames ∪ (Finset.range s.bootstrapIndex).image s.poolTable
  have hheld (a : U64) : a ∈ held ↔ InUse F s a := by
    simp only [held, Finset.mem_union, Finset.mem_sdiff, Finset.mem_image, Finset.mem_range, InUse]
    apply or_congr_right
    constructor
    · rintro ⟨n, hn, he⟩
      exact ⟨n, hn, he.symm⟩
    · rintro ⟨n, hn, he⟩
      exact ⟨n, hn, he.symm⟩
  have hlevel {a : U64} {d : ℕ} (ha : (if a = r then some 0 else none) = some d) : a = r ∧ d = 0 := by
    split_ifs at ha with hr
    cases ha
    exact ⟨hr, rfl⟩
  have hempty (i : Fin 512) : s.tables r i = .empty := by rw [h.empty]; rfl
  refine ⟨F, c, held, fun a => if a = r then some 0 else none, ?_⟩
  refine
    { owned :=
        { frames := h.frames
          pool := h.pool
          forest := ⟨(by simp), (by simp), (by simp), (by simp)⟩
          placed := fun ha => by cases ha
          held_inUse := fun ha => ⟨(hheld _).mp ha, rfl⟩
          inUse := fun ha => .inr ((hheld _).mpr ha)
          managed := fun ha => by cases ha
          upper := fun ha => by cases ha
          leaves := fun ha => by cases ha }
      root := if_pos rfl
      taken := ?_
      small := ?_
      next := ?_ }
  · intro a d ha
    rw [hheld, (hlevel ha).1]
    exact h.taken
  · intro a d i ha
    rw [(hlevel ha).1, hempty]
    exact fun _ hp => by cases hp
  · intro a d i b ha
    rw [(hlevel ha).1, hempty]
    exact fun _ hp => by cases hp

theorem EmptyRoot.hasLevels_run {r : U64} {F : Finset U64} {c : ℕ} {s t : PageMemory} {calls : List BuildCall}
    (h : EmptyRoot r F c s) (hrun : Run (BuildStep ⟨r⟩) s calls t) : HasLevels r t := by
  refine hrun.invariant (HasLevels r) ?_ h.hasLevels
  intro s call t hs hstep
  cases hstep with
  | mapPage => exact hs.mapPage _ _ _
  | map2mbHugePage => exact hs.map2mbHugePage _ _ _

/-- Whatever has been mapped from an empty root, `translate` agrees with the walk on an address
exactly when no large page on its walk is misread. -/
theorem translate_agrees_iff {r : U64} {F : Finset U64} {c : ℕ} {s t : PageMemory} {calls : List BuildCall}
    (h : EmptyRoot r F c s) (hrun : Run (BuildStep ⟨r⟩) s calls t) (v : VirtAddr)
    (hv : isCanonical v.addr = true) : Agrees t.tables r v ↔ LargePageReadsBack t.tables r v := by
  obtain ⟨F, c, held, level, hl⟩ := h.hasLevels_run hrun
  exact hl.agrees_iff hv

/-- Memory that is all zero, with the first table of the static pool as the root. -/
def sampleMemory : PageMemory where
  tables := fun _ => .zero
  pmm := ⟨fun _ => 0xFFFFFFFFFFFFFFFF, ⟨0, 0, 0, 0⟩⟩
  bootstrapPool := 0x200000
  bootstrapIndex := 1
  isBootstrapping := true
  discarded := []

theorem sampleMemory_root : EmptyRoot 0x200000 ∅ 0 sampleMemory where
  frames := ⟨by decide, by simp, by decide, by decide, by decide, by decide⟩
  pool := ⟨by decide, by decide, by simp, by decide⟩
  taken := .inr ⟨0, by decide, by decide⟩
  empty := rfl

/-- A large page at 4 MiB and a small one at 1 GiB. -/
def sampleCalls : List BuildCall :=
  [.map2mbHugePage ⟨0x400000⟩ ⟨0x400000⟩ PageTableFlags.table, .mapPage ⟨0x40000000⟩ ⟨0x5000⟩ PageTableFlags.table]

def sampleTables : PageMemory :=
  (mapPage ⟨0x200000⟩ ⟨0x40000000⟩ ⟨0x5000⟩ PageTableFlags.table
    (map2mbHugePage ⟨0x200000⟩ ⟨0x400000⟩ ⟨0x400000⟩ PageTableFlags.table sampleMemory).2).2

theorem sampleTables_run : Run (BuildStep ⟨0x200000⟩) sampleMemory sampleCalls sampleTables :=
  .cons .map2mbHugePage (.single .mapPage)

theorem translate_agrees_iff_sample : ∃ t, Run (BuildStep ⟨0x200000⟩) sampleMemory sampleCalls t ∧
    Agrees t.tables 0x200000 ⟨0x40000123⟩ ∧
    pageWalk t.tables 0x200000 ⟨0x40000123⟩ ≠ none := by
  refine ⟨sampleTables, sampleTables_run, ?_, by decide⟩
  have hentry : ∀ e, pdEntry sampleTables.tables 0x200000 ⟨0x40000123⟩ = some e → e.isHuge = false := by decide
  refine (translate_agrees_iff sampleMemory_root sampleTables_run _ (by decide)).mpr ?_
  intro e he _ hhuge
  rw [hentry e he] at hhuge
  cases hhuge

/-- The walk maps the large page and `translate` finds nothing. -/
theorem large_page_not_translated : ∃ t, EmptyRoot 0x200000 ∅ 0 sampleMemory ∧
    Run (BuildStep ⟨0x200000⟩) sampleMemory sampleCalls t ∧
    (pageWalk t.tables 0x200000 ⟨0x400123⟩).map Prod.fst = some 0x400123 ∧
    translate t.tables ⟨0x200000⟩ ⟨0x400123⟩ = none :=
  ⟨sampleTables, sampleMemory_root, sampleTables_run, by decide, by decide⟩

end VenturaOS.Paging
