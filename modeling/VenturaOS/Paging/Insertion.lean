import VenturaOS.Paging.LargePages

/-!
# `map_2mb_huge_page` as an insertion

On a tree of tables the call is the insertion it looks like when it writes a
directory entry that maps nothing for an aligned address, or writes again what
was there, and its flags set no reserved bit. It checks none of this.
-/
namespace VenturaOS.Paging
open Library Pmm Memory

/-- Two MiB of addresses from `v` on are mapped to those from `p` on, and nothing else changes. -/
structure Inserted (r : U64) (v : VirtAddr) (p : PhysPage) (s t : PageMemory) : Prop where
  kept : ∀ w a, walkAddress s.tables r w = some a → walkAddress t.tables r w = some a
  mapped : ∀ k < 2 ^ 21, walkAddress t.tables r ⟨v.addr + BitVec.ofNat 64 k⟩ = some (p.addr + BitVec.ofNat 64 k)
  others : ∀ w : VirtAddr, (∀ k < 2 ^ 21, w.addr ≠ v.addr + BitVec.ofNat 64 k) →
    walkAddress t.tables r w = walkAddress s.tables r w
  tables : ∀ a, Linked s.tables r a → Linked t.tables r a

/-- An insertion when the call succeeds, and no change to any walk when it fails. -/
def SoundInsertion (r : U64) (v : VirtAddr) (p : PhysPage) (flags : PageTableFlags) (s : PageMemory) : Prop :=
  match map2mbHugePage ⟨r⟩ v p flags s with
  | (.ok _, t) => Inserted r v p s t
  | (.error _, t) => ∀ w, walkAddress t.tables r w = walkAddress s.tables r w

def hugeEntry (p : PhysPage) (flags : PageTableFlags) : PageTableEntry :=
  .set (p.addr &&& ~~~0x1FFFFF#64) (flags.union PageTableFlags.hugePage)

/-- The address is canonical, no larger page is in the way, and missing tables can be created. -/
structure ReachesDirectory (r : U64) (v : VirtAddr) (s : PageMemory) : Prop where
  canonical : isCanonical v.addr = true
  open_ : blocked s.tables r [v.pml4Index, v.pdptIndex] = false
  supplied : missing s.tables r [v.pml4Index, v.pdptIndex] ≤ tableSupply s

def oldEntry (r : U64) (v : VirtAddr) (s : PageMemory) : PageTableEntry :=
  entryAlong s.tables r [v.pml4Index, v.pdptIndex] v.pdIndex

/-- Absent, or large and faulting. -/
def MapsNothing (e : PageTableEntry) : Prop :=
  e.isPresent = false ∨ e.isHuge = true ∧ e.bits &&& 0x1FE000#64 ≠ 0#64

/-- PRESENT is there and none of the bits 13 to 20, on which the processor faults. -/
def Readable (flags : PageTableFlags) : Prop := flags.bits.getLsbD 0 = true ∧ flags.bits &&& 0x1FE000#64 = 0#64

instance (flags : PageTableFlags) : Decidable (Readable flags) := by
  unfold Readable
  infer_instance

/-- The entry is free, and `v` and `p` start a large page. -/
structure FreshPage (r : U64) (v : VirtAddr) (p : PhysPage) (flags : PageTableFlags) (s : PageMemory) : Prop where
  free : MapsNothing (oldEntry r v s)
  aligned : v.addr.toNat % 2 ^ 21 = 0
  frame : largeBase (hugeEntry p flags) = p.addr

/-- The large page is there already. -/
structure SamePage (r : U64) (v : VirtAddr) (p : PhysPage) (flags : PageTableFlags) (s : PageMemory) : Prop where
  present : (oldEntry r v s).isPresent = true
  huge : (oldEntry r v s).isHuge = true
  frame : largeBase (oldEntry r v s) = largeBase (hugeEntry p flags)
  mapped : ∀ k < 2 ^ 21, walkAddress s.tables r ⟨v.addr + BitVec.ofNat 64 k⟩ = some (p.addr + BitVec.ofNat 64 k)

section Slots

variable {v w : VirtAddr} {e : PageTableEntry}

/-- The addresses below one directory entry. -/
def SameSlot (v w : VirtAddr) : Prop := w.addr.toNat / 2 ^ 21 = v.addr.toNat / 2 ^ 21

theorem SameSlot.canonical (h : SameSlot v w) (hv : isCanonical v.addr = true) : isCanonical w.addr = true := by
  rw [isCanonical_iff] at hv ⊢
  have hlt := w.addr.isLt
  unfold SameSlot at h
  omega

theorem sameSlot_iff (hv : isCanonical v.addr = true) (hw : isCanonical w.addr = true) :
    SameSlot v w ↔ w.tablePath = v.tablePath := by
  rw [isCanonical_iff] at hv hw
  have hvlt := v.addr.isLt
  have hwlt := w.addr.isLt
  simp only [SameSlot, VirtAddr.tablePath, List.cons.injEq, and_true, Fin.ext_iff, VirtAddr.pml4Index,
    VirtAddr.pdptIndex, VirtAddr.pdIndex, VirtAddr.index_val]
  omega

theorem offset_toNat (w : VirtAddr) : (w.addr &&& 0x1FFFFF#64).toNat = w.addr.toNat % 2 ^ 21 := by
  rw [BitVec.toNat_and]
  exact Nat.and_two_pow_sub_one_eq_mod _ 21

theorem largeBase_mask (e : PageTableEntry) : largeBase e &&& 0x1FFFFF#64 = 0#64 := by
  rw [largeBase, BitVec.and_assoc]
  exact BitVec.and_zero

/-- Inside a large page the offset is added. -/
theorem largeBase_offset (e : PageTableEntry) (w : VirtAddr) :
    largeBase e ||| (w.addr &&& 0x1FFFFF#64) = largeBase e + (w.addr &&& 0x1FFFFF#64) := by
  symm
  apply BitVec.add_eq_or_of_and_eq_zero
  rw [BitVec.and_comm w.addr, ← BitVec.and_assoc, largeBase_mask, BitVec.zero_and]

theorem directoryWalk_huge {tables : U64 → PageTable} (h : e.isHuge = true) (w : VirtAddr) :
    directoryWalk tables e w =
      if e.isPresent ∧ e.bits &&& 0x1FE000#64 = 0#64 then some (largeBase e + (w.addr &&& 0x1FFFFF#64)) else none := by
  rw [directoryWalk, h, if_pos rfl, largeBase_offset]
  cases e.isPresent with
  | false => simp
  | true => simp

theorem directoryWalk_none {tables : U64 → PageTable} (h : MapsNothing e) (w : VirtAddr) :
    directoryWalk tables e w = none := by
  rcases h with habsent | ⟨hhuge, hreserved⟩
  · rw [directoryWalk, habsent, if_neg Bool.false_ne_true]
  · rw [directoryWalk_huge hhuge, if_neg fun hand => hreserved hand.2]

theorem mapped_huge (h : ¬ MapsNothing e) (hhuge : e.isHuge = true) : e.isPresent = true ∧ e.bits &&& 0x1FE000#64 = 0#64 := by
  rw [MapsNothing, not_or, Bool.not_eq_false, not_and, not_not] at h
  exact ⟨h.1, h.2 hhuge⟩

theorem MapsNothing.link (h : MapsNothing e) : e.link = none := by
  rcases h with habsent | ⟨hhuge, -⟩
  · exact PageTableEntry.link_of_not_present habsent
  · rw [PageTableEntry.link, hhuge, Bool.not_true, Bool.and_false, if_neg Bool.false_ne_true]

/-- From an aligned address on, a large page is the two MiB behind it. -/
theorem sameSlot_aligned (hv : v.addr.toNat % 2 ^ 21 = 0) :
    SameSlot v w ↔ ∃ k < 2 ^ 21, w.addr = v.addr + BitVec.ofNat 64 k := by
  have hvlt := v.addr.isLt
  have hwlt := w.addr.isLt
  unfold SameSlot
  constructor
  · intro h
    refine ⟨w.addr.toNat % 2 ^ 21, by omega, ?_⟩
    apply BitVec.eq_of_toNat_eq
    rw [BitVec.toNat_add, BitVec.toNat_ofNat]
    omega
  · rintro ⟨k, hk, he⟩
    rw [he, BitVec.toNat_add, BitVec.toNat_ofNat]
    omega

theorem aligned_offset (hv : v.addr.toNat % 2 ^ 21 = 0) {k : ℕ} (hk : k < 2 ^ 21) :
    (v.addr + BitVec.ofNat 64 k) &&& 0x1FFFFF#64 = BitVec.ofNat 64 k := by
  have hvlt := v.addr.isLt
  apply BitVec.eq_of_toNat_eq
  rw [offset_toNat ⟨v.addr + BitVec.ofNat 64 k⟩, BitVec.toNat_add, BitVec.toNat_ofNat]
  omega

end Slots

section Outcome

variable {r : U64} {v w : VirtAddr} {p : PhysPage} {flags : PageTableFlags} {s : PageMemory}

theorem entryAlong_linked {tables : U64 → PageTable} {is : Path} {j : Fin 512} {a b : U64} {d : ℕ}
    (ha : TableAt tables r d a) (hd : d + is.length < 3) (hlink : (entryAlong tables a is j).link = some b) :
    Linked tables r b := by
  induction is generalizing a d with
  | nil => exact ⟨d + 1, .link j ha hd hlink⟩
  | cons i is ih =>
    rw [List.length_cons] at hd
    rw [entryAlong] at hlink
    cases hnext : (tables a i).link with
    | none =>
      have hempty : PageTableEntry.empty.link = none := by decide
      rw [hnext] at hlink
      change PageTableEntry.empty.link = some b at hlink
      rw [hempty] at hlink
      cases hlink
    | some x =>
      rw [hnext] at hlink
      exact ih (.link i ha (by omega) hnext) (by omega) hlink

/-- The tables above the entry are there, and the directory is `pd`. -/
structure Arrived (r : U64) (v : VirtAddr) (s : PageMemory) (place : Placement) (pd : U64) (s₁ : PageMemory) : Prop where
  tree : ∃ F c held, Planted r F c held place s₁
  directory : place pd = some (r, [v.pml4Index, v.pdptIndex])
  entry : s₁.tables pd v.pdIndex = oldEntry r v s
  walks : ∀ w, walkAddress s₁.tables r w = walkAddress s.tables r w
  linked : ∀ {a}, Linked s.tables r a → ∃ q, place a = some (r, q)

/-- What the call comes to: an error without a trace, or the tables above the entry and the write. -/
theorem map2mb_cases (h : PageTree r s) (v : VirtAddr) (p : PhysPage) (flags : PageTableFlags) :
    (¬ ReachesDirectory r v s ∧ ∃ e t, map2mbHugePage ⟨r⟩ v p flags s = (.error e, t) ∧
      ∀ w, walkAddress t.tables r w = walkAddress s.tables r w) ∨
    (ReachesDirectory r v s ∧ ∃ place pd s₁, Arrived r v s place pd s₁ ∧
      map2mbHugePage ⟨r⟩ v p flags s = (.ok (), s₁.writeEntry pd v.pdIndex (hugeEntry p flags))) := by
  obtain ⟨F, c, held, place, h⟩ := h
  by_cases hv : isCanonical v.addr = true
  · obtain ⟨held', place', s', h', hext, hres⟩ := h.walkCreate_cases [v.pml4Index, v.pdptIndex] h.root (by simp)
    have hwalks (w : VirtAddr) : walkAddress s'.tables r w = walkAddress s.tables r w :=
      walkAddress_of_reach (hext.walks w.path w.path_length)
    rw [map2mbHugePage_eq ⟨r⟩ v p flags s hv]
    rcases hres with ⟨pd, he, hpd, hentry, hopen, hsupply⟩ | ⟨⟨e, he⟩, hnot⟩
    · refine .inr ⟨⟨hv, hopen, hsupply⟩, place', pd, s', ⟨⟨F, c, held', h'⟩, hpd, hentry _, hwalks, ?_⟩, by rw [he]; rfl⟩
      rintro a ⟨d, ha⟩
      obtain ⟨q, -, hq⟩ := h.tableAt ha
      exact ⟨q, hext.kept hq⟩
    · exact .inl ⟨fun hr => hnot ⟨hr.open_, hr.supplied⟩, e, s', by rw [he], hwalks⟩
  · refine .inl ⟨fun hr => hv hr.canonical, .nonCanonicalAddress, s, ?_, fun _ => rfl⟩
    rw [map2mbHugePage, if_pos (by simpa using hv)]

theorem hugeEntry_isHuge (p : PhysPage) (flags : PageTableFlags) : (hugeEntry p flags).isHuge = true := by
  rw [hugeEntry, PageTableEntry.set_isHuge, PageTableFlags.union, BitVec.getLsbD_or]
  exact Bool.or_true _

theorem hugeEntry_link (p : PhysPage) (flags : PageTableFlags) : (hugeEntry p flags).link = none := by
  rw [PageTableEntry.link, hugeEntry_isHuge, Bool.not_true, Bool.and_false, if_neg Bool.false_ne_true]

end Outcome

section Written

variable {r pd : U64} {F held : Finset U64} {c : ℕ} {place : Placement} {v w : VirtAddr} {s : PageMemory}
  {e : PageTableEntry}

theorem slot_tablePath (hv : isCanonical v.addr = true) (hslot : SameSlot v w) :
    w.pml4Index = v.pml4Index ∧ w.pdptIndex = v.pdptIndex ∧ w.pdIndex = v.pdIndex := by
  have hpath := (sameSlot_iff hv (hslot.canonical hv)).mp hslot
  simpa [VirtAddr.tablePath] using hpath

theorem Planted.walk_inside (h : Planted r F c held place s) (hpd : place pd = some (r, [v.pml4Index, v.pdptIndex]))
    (hv : isCanonical v.addr = true) (hslot : SameSlot v w) :
    walkAddress s.tables r w = directoryWalk s.tables (s.tables pd v.pdIndex) w := by
  obtain ⟨pdpt, -, h4, h3⟩ := h.directory hpd
  obtain ⟨he4, he3, he2⟩ := slot_tablePath hv hslot
  rw [← he2]
  rw [← he4] at h4
  rw [← he3] at h3
  exact walkAddress_directory (hslot.canonical hv) h4 h3

theorem Planted.write_inside (h : Planted r F c held place s) (hpd : place pd = some (r, [v.pml4Index, v.pdptIndex]))
    (hv : isCanonical v.addr = true) (hhuge : e.isHuge = true) (hslot : SameSlot v w) :
    walkAddress (s.writeEntry pd v.pdIndex e).tables r w =
      if e.isPresent ∧ e.bits &&& 0x1FE000#64 = 0#64 then some (largeBase e + (w.addr &&& 0x1FFFFF#64)) else none := by
  obtain ⟨pdpt, hpdpt, h4, h3⟩ := h.directory hpd
  obtain ⟨he4, he3, he2⟩ := slot_tablePath hv hslot
  have hne {a : U64} {q : Path} (ha : place a = some (r, q)) (hq : q.length < 2) (i : Fin 512) :
      (s.writeEntry pd v.pdIndex e).tables a i = s.tables a i := by
    rw [writeEntry_tables, if_neg]
    rintro ⟨rfl, -⟩
    rw [hpd] at ha
    cases ha
    simp at hq
  rw [← hne h.root (by simp), ← he4] at h4
  rw [← hne hpdpt (by simp), ← he3] at h3
  rw [walkAddress_directory (hslot.canonical hv) h4 h3, he2, writeEntry_tables, if_pos ⟨rfl, rfl⟩,
    directoryWalk_huge hhuge]

theorem Planted.write_outside (h : Planted r F c held place s) (hpd : place pd = some (r, [v.pml4Index, v.pdptIndex]))
    (hv : isCanonical v.addr = true) (hslot : ¬ SameSlot v w) :
    walkAddress (s.writeEntry pd v.pdIndex e).tables r w = walkAddress s.tables r w := by
  cases hw : isCanonical w.addr with
  | false => rw [walkAddress, walkAddress, hardwareWalk_eq, hardwareWalk_eq, hw, if_neg Bool.false_ne_true, if_neg Bool.false_ne_true]
  | true =>
    apply walkAddress_of_reach
    refine h.reach_write hpd h.root (by rw [w.path_length]; rfl) ?_
    rintro ⟨rest, hrest⟩
    apply hslot
    rw [sameSlot_iff hv hw]
    have hpath : v.tablePath ++ rest = w.tablePath ++ [w.ptIndex] := hrest
    exact (List.append_inj_left hpath (by rw [v.tablePath_length, w.tablePath_length])).symm

/-- When the entry led to no table before, none is lost. -/
theorem Planted.write_linked (h : Planted r F c held place s) (hpd : place pd = some (r, [v.pml4Index, v.pdptIndex]))
    (hlink : (s.tables pd v.pdIndex).link = none) {a : U64} {q : Path} (ha : place a = some (r, q)) :
    Linked (s.writeEntry pd v.pdIndex e).tables r a := by
  refine ⟨q.length, h.kept_write hpd ha ?_⟩
  rintro ⟨rest, rfl⟩
  obtain ⟨b, hb⟩ := h.forest.ancestor ha
  obtain ⟨pd', hpd', he⟩ := h.forest.parent hb
  rw [h.forest.place_inj hpd' hpd, linkEdge, if_pos (by simp), hlink] at he
  cases he

/-- When it did, that table is. -/
theorem Planted.write_unlinked (h : Planted r F c held place s) (hpd : place pd = some (r, [v.pml4Index, v.pdptIndex]))
    (hnew : e.link = none) {b : U64} (hlink : (s.tables pd v.pdIndex).link = some b) :
    ¬ Linked (s.writeEntry pd v.pdIndex e).tables r b := by
  rintro ⟨d, hb⟩
  obtain ⟨q, -, hq, hne⟩ := h.lost_write hpd hnew hb
  have hplace := h.forest.child (i := v.pdIndex) hpd (by rw [linkEdge, if_pos (by simp)]; exact hlink)
  rw [hplace] at hq
  cases hq
  exact hne (List.prefix_refl _)

end Written

section Soundness

variable {r pd : U64} {place : Placement} {v w : VirtAddr} {p : PhysPage} {flags : PageTableFlags} {s s₁ : PageMemory}

theorem hugeEntry_isPresent (p : PhysPage) (flags : PageTableFlags) :
    (hugeEntry p flags).isPresent = flags.bits.getLsbD 0 := by
  rw [hugeEntry, PageTableEntry.set_isPresent, PageTableFlags.union, BitVec.getLsbD_or]
  have hbit : PageTableFlags.hugePage.bits.getLsbD 0 = false := by decide
  rw [hbit, Bool.or_false]

/-- The base of the frame leaves the reserved bits to the flags. -/
theorem hugeEntry_reserved (p : PhysPage) (flags : PageTableFlags) :
    (hugeEntry p flags).bits &&& 0x1FE000#64 = flags.bits &&& 0x1FE000#64 := by
  have hbase : (p.addr &&& ~~~0x1FFFFF#64) &&& 0x000FFFFFFFFFF000#64 &&& 0x1FE000#64 = 0#64 := by
    rw [BitVec.and_assoc, BitVec.and_assoc]
    exact BitVec.and_zero
  have hhuge : PageTableFlags.hugePage.bits &&& 0x1FE000#64 = 0#64 := by decide
  rw [hugeEntry, PageTableEntry.set, PageTableFlags.union, BitVec.and_or_distrib_right, BitVec.and_or_distrib_right,
    hbase, hhuge, BitVec.zero_or, BitVec.or_zero]

theorem Arrived.inside (h : Arrived r v s place pd s₁) (hv : isCanonical v.addr = true) (hslot : SameSlot v w) :
    walkAddress (s₁.writeEntry pd v.pdIndex (hugeEntry p flags)).tables r w =
      if Readable flags then some (largeBase (hugeEntry p flags) + (w.addr &&& 0x1FFFFF#64)) else none := by
  obtain ⟨F, c, held, htree⟩ := h.tree
  rw [htree.write_inside h.directory hv (hugeEntry_isHuge p flags) hslot, hugeEntry_isPresent, hugeEntry_reserved]
  rfl

theorem Arrived.outside (h : Arrived r v s place pd s₁) (hv : isCanonical v.addr = true) (hslot : ¬ SameSlot v w) :
    walkAddress (s₁.writeEntry pd v.pdIndex (hugeEntry p flags)).tables r w = walkAddress s.tables r w := by
  obtain ⟨F, c, held, htree⟩ := h.tree
  rw [htree.write_outside h.directory hv hslot, h.walks]

theorem Arrived.before (h : Arrived r v s place pd s₁) (hv : isCanonical v.addr = true) (hslot : SameSlot v w) :
    walkAddress s.tables r w = directoryWalk s₁.tables (oldEntry r v s) w := by
  obtain ⟨F, c, held, htree⟩ := h.tree
  rw [← h.walks, htree.walk_inside h.directory hv hslot, h.entry]

theorem Arrived.keeps (h : Arrived r v s place pd s₁) (hlink : (oldEntry r v s).link = none) {a : U64}
    (ha : Linked s.tables r a) : Linked (s₁.writeEntry pd v.pdIndex (hugeEntry p flags)).tables r a := by
  obtain ⟨F, c, held, htree⟩ := h.tree
  obtain ⟨q, hq⟩ := h.linked ha
  rw [← h.entry] at hlink
  exact htree.write_linked h.directory hlink hq

theorem Arrived.inserted_fresh (h : Arrived r v s place pd s₁) (hv : isCanonical v.addr = true)
    (hp : Readable flags) (hf : FreshPage r v p flags s) :
    Inserted r v p s (s₁.writeEntry pd v.pdIndex (hugeEntry p flags)) := by
  have hbefore {w : VirtAddr} (hslot : SameSlot v w) : walkAddress s.tables r w = none := by
    rw [h.before hv hslot, directoryWalk_none hf.free]
  constructor
  · intro w a hw
    by_cases hslot : SameSlot v w
    · rw [hbefore hslot] at hw
      cases hw
    · rw [h.outside hv hslot]
      exact hw
  · intro k hk
    have hslot : SameSlot v ⟨v.addr + BitVec.ofNat 64 k⟩ := (sameSlot_aligned hf.aligned).mpr ⟨k, hk, rfl⟩
    rw [h.inside hv hslot, if_pos hp, aligned_offset hf.aligned hk, hf.frame]
  · intro w hw
    apply h.outside hv
    rw [sameSlot_aligned hf.aligned]
    rintro ⟨k, hk, he⟩
    exact hw k hk he
  · exact fun a => h.keeps hf.free.link

theorem Arrived.inserted_same (h : Arrived r v s place pd s₁) (hv : isCanonical v.addr = true)
    (hp : Readable flags) (hs : SamePage r v p flags s) :
    Inserted r v p s (s₁.writeEntry pd v.pdIndex (hugeEntry p flags)) := by
  have hlink : (oldEntry r v s).link = none := by
    rw [PageTableEntry.link, hs.huge, Bool.not_true, Bool.and_false, if_neg Bool.false_ne_true]
  -- the page is mapped, so the old entry sets no reserved bit either
  have hold : ¬ MapsNothing (oldEntry r v s) := by
    intro hfree
    have hfirst := hs.mapped 0 (by decide)
    rw [BitVec.add_zero, h.before hv rfl, directoryWalk_none hfree] at hfirst
    cases hfirst
  have hsame (w : VirtAddr) : walkAddress (s₁.writeEntry pd v.pdIndex (hugeEntry p flags)).tables r w =
      walkAddress s.tables r w := by
    by_cases hslot : SameSlot v w
    · rw [h.inside hv hslot, h.before hv hslot, directoryWalk_huge hs.huge, if_pos hp, if_pos (mapped_huge hold hs.huge),
        hs.frame]
    · exact h.outside hv hslot
  constructor
  · intro w a hw
    rw [hsame]
    exact hw
  · intro k hk
    rw [hsame]
    exact hs.mapped k hk
  · exact fun w _ => hsame w
  · exact fun a => h.keeps hlink

/-- The first address is mapped afterwards, so the processor reads the entry. -/
theorem Arrived.readable (h : Arrived r v s place pd s₁) (hv : isCanonical v.addr = true)
    (hins : Inserted r v p s (s₁.writeEntry pd v.pdIndex (hugeEntry p flags))) :
    Readable flags ∧ largeBase (hugeEntry p flags) + (v.addr &&& 0x1FFFFF#64) = p.addr := by
  have hself : SameSlot v v := rfl
  have hfirst := hins.mapped 0 (by decide)
  rw [BitVec.add_zero, BitVec.add_zero] at hfirst
  change walkAddress _ r v = some p.addr at hfirst
  rw [h.inside hv hself] at hfirst
  have hp : Readable flags := by
    by_contra hbad
    rw [if_neg hbad] at hfirst
    cases hfirst
  rw [if_pos hp] at hfirst
  exact ⟨hp, Option.some.inj hfirst⟩

/-- Over a free entry the whole slot becomes mapped, so it must be the page that was asked for. -/
theorem Arrived.fresh (h : Arrived r v s place pd s₁) (hv : isCanonical v.addr = true)
    (hins : Inserted r v p s (s₁.writeEntry pd v.pdIndex (hugeEntry p flags))) (hfree : MapsNothing (oldEntry r v s)) :
    FreshPage r v p flags s := by
  obtain ⟨hp, hfirst⟩ := h.readable hv hins
  have hal : v.addr.toNat % 2 ^ 21 = 0 := by
    by_contra hbad
    have hlt := v.addr.isLt
    have hlow : SameSlot v ⟨BitVec.ofNat 64 (v.addr.toNat / 2 ^ 21 * 2 ^ 21)⟩ := by
      rw [SameSlot, BitVec.toNat_ofNat]
      omega
    have hsame := hins.others ⟨BitVec.ofNat 64 (v.addr.toNat / 2 ^ 21 * 2 ^ 21)⟩ (fun k hk he => by
      have hnat := congrArg BitVec.toNat he
      rw [BitVec.toNat_add, BitVec.toNat_ofNat, BitVec.toNat_ofNat] at hnat
      omega)
    rw [h.inside hv hlow, h.before hv hlow, directoryWalk_none hfree, if_pos hp] at hsame
    cases hsame
  have hzero : v.addr &&& 0x1FFFFF#64 = 0#64 := by
    apply BitVec.eq_of_toNat_eq
    rw [offset_toNat v, hal]
    rfl
  rw [hzero, BitVec.add_zero] at hfirst
  exact ⟨hfree, hal, hfirst⟩

/-- Over an entry in use nothing changes: a page table below it would be lost, and a large page is the one there was. -/
theorem Arrived.same (h : Arrived r v s place pd s₁) (hv : isCanonical v.addr = true)
    (hins : Inserted r v p s (s₁.writeEntry pd v.pdIndex (hugeEntry p flags))) (hused : ¬MapsNothing (oldEntry r v s)) :
    SamePage r v p flags s := by
  obtain ⟨F, c, held, htree⟩ := h.tree
  obtain ⟨hp, -⟩ := h.readable hv hins
  have hpres : (oldEntry r v s).isPresent = true := by
    by_contra hbad
    exact hused (.inl (Bool.eq_false_of_not_eq_true hbad))
  cases hhuge : (oldEntry r v s).isHuge with
  | false =>
    have hlink := PageTableEntry.link_eq_some.mpr ⟨hpres, hhuge, rfl⟩
    have hwas : Linked s.tables r (oldEntry r v s).physAddr := entryAlong_linked .root (by simp) hlink
    rw [← h.entry] at hlink
    have hgone := htree.write_unlinked (e := hugeEntry p flags) h.directory (hugeEntry_link p flags) hlink
    rw [h.entry] at hgone
    exact absurd (hins.tables _ hwas) hgone
  | true =>
    have hbefore {w : VirtAddr} (hslot : SameSlot v w) : walkAddress s.tables r w =
        some (largeBase (oldEntry r v s) + (w.addr &&& 0x1FFFFF#64)) := by
      rw [h.before hv hslot, directoryWalk_huge hhuge, if_pos (mapped_huge hused hhuge)]
    have hbase : largeBase (oldEntry r v s) = largeBase (hugeEntry p flags) := by
      have hself : SameSlot v v := rfl
      have hnow := hins.kept v _ (hbefore hself)
      rw [h.inside hv hself, if_pos hp] at hnow
      exact (add_right_cancel (Option.some.inj hnow)).symm
    refine ⟨hpres, hhuge, hbase, fun k hk => ?_⟩
    rw [← hins.mapped k hk]
    by_cases hslot : SameSlot v ⟨v.addr + BitVec.ofNat 64 k⟩
    · rw [h.inside hv hslot, hbefore hslot, if_pos hp, hbase]
    · exact (h.outside hv hslot).symm

theorem Arrived.fresh_or_same (h : Arrived r v s place pd s₁) (hv : isCanonical v.addr = true)
    (hins : Inserted r v p s (s₁.writeEntry pd v.pdIndex (hugeEntry p flags))) :
    Readable flags ∧ (FreshPage r v p flags s ∨ SamePage r v p flags s) := by
  refine ⟨(h.readable hv hins).1, ?_⟩
  by_cases hfree : MapsNothing (oldEntry r v s)
  · exact .inl (h.fresh hv hins hfree)
  · exact .inr (h.same hv hins hfree)

theorem SoundInsertion.fresh_or_same (hsound : SoundInsertion r v p flags s) (h : PageTree r s)
    (hreach : ReachesDirectory r v s) :
    Readable flags ∧ (FreshPage r v p flags s ∨ SamePage r v p flags s) := by
  unfold SoundInsertion at hsound
  rcases map2mb_cases h v p flags with ⟨hnot, -⟩ | ⟨-, place, pd, s₁, harr, he⟩
  · exact absurd hreach hnot
  · rw [he] at hsound
    exact harr.fresh_or_same hreach.canonical hsound

/-- The call is a sound insertion exactly if it fails, or has readable flags and writes a free entry for
an aligned address or maps again what was mapped so before. -/
theorem sound_insertion_iff (h : PageTree r s) : SoundInsertion r v p flags s ↔
    (ReachesDirectory r v s → Readable flags ∧ (FreshPage r v p flags s ∨ SamePage r v p flags s)) := by
  constructor
  · exact fun hsound => hsound.fresh_or_same h
  · intro hcond
    unfold SoundInsertion
    rcases map2mb_cases h v p flags with ⟨-, e, t, he, hsame⟩ | ⟨hreach, place, pd, s₁, harr, he⟩
    · rw [he]
      exact hsame
    · rw [he]
      obtain ⟨hp, hfresh | hsame⟩ := hcond hreach
      · exact harr.inserted_fresh hreach.canonical hp hfresh
      · exact harr.inserted_same hreach.canonical hp hsame

end Soundness

/-- A large page below an empty root, which is then mapped with all its two MiB. -/
theorem sample_insertion : PageTree 0x200000 sampleMemory ∧
    SoundInsertion 0x200000 ⟨0x400000⟩ ⟨0x600000⟩ PageTableFlags.table sampleMemory ∧
    (map2mbHugePage ⟨0x200000⟩ ⟨0x400000⟩ ⟨0x600000⟩ PageTableFlags.table sampleMemory).1 = .ok () := by
  refine ⟨sampleMemory_root.pageTree, (sound_insertion_iff sampleMemory_root.pageTree).mpr fun _ => ?_, by decide⟩
  exact ⟨by decide, .inl ⟨.inl (by decide), by decide, by decide⟩⟩

/-- A page of 4 KiB, mapped below an empty root. -/
def smallPage : PageMemory := (mapPage ⟨0x200000⟩ ⟨0x400000⟩ ⟨0x5000⟩ PageTableFlags.table sampleMemory).2

theorem smallPage_tree : PageTree 0x200000 smallPage := sampleMemory_root.pageTree.mapPage _ _ _

/-- A large page is written over the page table of a small one. -/
theorem large_page_over_table : PageTree 0x200000 smallPage ∧
    ¬ SoundInsertion 0x200000 ⟨0x400000⟩ ⟨0x600000⟩ PageTableFlags.table smallPage := by
  refine ⟨smallPage_tree, fun hsound => ?_⟩
  have hreach : ReachesDirectory 0x200000 ⟨0x400000⟩ smallPage := ⟨by decide, by decide, by decide⟩
  have hpres : (oldEntry 0x200000 ⟨0x400000⟩ smallPage).isPresent = true := by decide
  have hsmall : (oldEntry 0x200000 ⟨0x400000⟩ smallPage).isHuge = false := by decide
  rcases hsound.fresh_or_same smallPage_tree hreach with ⟨-, hfresh | hsame⟩
  · rcases hfresh.free with habsent | ⟨hhuge, -⟩
    · rw [habsent] at hpres
      cases hpres
    · rw [hhuge] at hsmall
      cases hsmall
  · rw [hsame.huge] at hsmall
    cases hsmall

end VenturaOS.Paging
