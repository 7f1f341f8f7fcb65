import VenturaOS.Library.Serving
import VenturaOS.Vmm.BootRegions

/-!
# A plan of the boot

What booting asks for, seen without any page table: the pages it wants mapped
in order, and the regions it registers. A page above 4 GiB is mapped when the
pool still serves the tables on its path; the low 4 GiB ask for none, since
large pages stand over them.
-/
namespace VenturaOS.Vmm
open Library Pmm Paging Memory

instance (v : VirtAddr) : Decidable (IsLow v) := inferInstanceAs (Decidable (_ < _))

/-- The tables a walk along `is` from path `p` asks for. -/
def pathsDown : Path → Path → List Path
  | _, [] => []
  | p, i :: is => (p ++ [i]) :: pathsDown (p ++ [i]) is

/-- The tables that mapping the page at `a` needs, from the top. -/
def tablesFor (a : U64) : List Path := if IsLow ⟨a⟩ then [] else pathsDown [] (VirtAddr.mk a).tablePath

/-- The tables there are once the pages of a list have been asked for. -/
def drafted (asked : List U64) : Finset Path := serve bootstrapTableCount lowPaths (asked.flatMap tablesFor)

/-- The page at `a` is covered by a large page, or its page table is there. -/
def Stands (asked : List U64) (a : U64) : Prop := IsLow ⟨a⟩ ∨ (VirtAddr.mk a).tablePath ∈ drafted asked

instance (asked : List U64) (a : U64) : Decidable (Stands asked a) := inferInstanceAs (Decidable (_ ∨ _))

/-- The frame field of an entry. -/
def frameBits (a : U64) : U64 := a &&& 0x000FFFFFFFFFF000#64

section Draft

variable {asked : List U64} {a b : U64}

theorem drafted_append (asked l : List U64) :
    drafted (asked ++ l) = serve bootstrapTableCount (drafted asked) (l.flatMap tablesFor) := by
  rw [drafted, List.flatMap_append, serve_append, drafted]

theorem drafted_snoc (asked : List U64) (a : U64) :
    drafted (asked ++ [a]) = serve bootstrapTableCount (drafted asked) (tablesFor a) := by
  rw [drafted_append, List.flatMap_singleton]

theorem drafted_low (ha : IsLow ⟨a⟩) : drafted (asked ++ [a]) = drafted asked := by
  rw [drafted_snoc, tablesFor, if_pos ha, serve]

theorem subset_drafted (asked l : List U64) : drafted asked ⊆ drafted (asked ++ l) := by
  rw [drafted_append]
  exact subset_serve

theorem mem_tablesFor (ha : ¬IsLow ⟨a⟩) : (VirtAddr.mk a).tablePath ∈ tablesFor a := by
  rw [tablesFor, if_neg ha]
  simp [VirtAddr.tablePath, pathsDown]

/-- A page that has been asked for got its page table then, or will never get it. -/
theorem drafted_settled (hb : b ∈ asked) (hlow : ¬IsLow ⟨b⟩) (l : List U64) :
    (VirtAddr.mk b).tablePath ∈ drafted (asked ++ l) ↔ (VirtAddr.mk b).tablePath ∈ drafted asked := by
  refine ⟨fun hmem => ?_, fun hmem => subset_drafted asked l hmem⟩
  cases serve_union_or_full bootstrapTableCount lowPaths (asked.flatMap tablesFor) with
  | inl hall =>
    rw [drafted, hall, Finset.mem_union, List.mem_toFinset]
    exact .inr (List.mem_flatMap.mpr ⟨b, hb, mem_tablesFor hlow⟩)
  | inr hfull =>
    change bootstrapTableCount ≤ (drafted asked).card at hfull
    rw [drafted_append, serve_full hfull] at hmem
    exact hmem

end Draft

/-- All the tables for a list of pages, those over the low 4 GiB included. -/
def tablesNeeded (pages : List U64) : Finset Path := lowPaths ∪ (pages.flatMap tablesFor).toFinset

/-- The page table over `a` is first asked for when the pool still suffices for all tables needed up to there. -/
def Served (asked : List U64) (a : U64) : Prop :=
  ∃ before b after, asked = before ++ b :: after ∧ (VirtAddr.mk b).tablePath = (VirtAddr.mk a).tablePath ∧
    (tablesNeeded (before ++ [b])).card ≤ bootstrapTableCount

section Serving

variable {asked : List U64} {a b : U64}

theorem isLow_of_tablePath {v w : VirtAddr} (h : v.tablePath = w.tablePath) (hv : IsLow v) : IsLow w := by
  obtain ⟨h4, h3⟩ := hv.index
  simp only [VirtAddr.tablePath, List.cons.injEq] at h
  rw [h.1, Fin.ext_iff, VirtAddr.pml4Index, VirtAddr.index_val, Fin.val_zero] at h4
  rw [h.2.1, VirtAddr.pdptIndex, VirtAddr.index_val] at h3
  unfold IsLow
  omega

/-- The page table is the last thing its page asks for. -/
theorem tablesFor_split {v : VirtAddr} {l₁ l₂ : List Path} (hb : ¬IsLow ⟨b⟩)
    (h : tablesFor b = l₁ ++ v.tablePath :: l₂) :
    tablesFor b = l₁ ++ [v.tablePath] ∧ (VirtAddr.mk b).tablePath = v.tablePath := by
  rw [tablesFor, if_neg hb] at h ⊢
  match l₁ with
  | [] => simp [VirtAddr.tablePath, pathsDown] at h
  | [_] => simp [VirtAddr.tablePath, pathsDown] at h
  | [p, q] =>
    simp only [VirtAddr.tablePath, pathsDown, List.nil_append, List.cons_append, List.cons.injEq] at h ⊢
    obtain ⟨rfl, rfl, hpath, -⟩ := h
    exact ⟨⟨rfl, rfl, hpath, trivial⟩, hpath⟩
  | _ :: _ :: _ :: _ => simp [VirtAddr.tablePath, pathsDown] at h

/-- While the pool suffices, everything needed is there. -/
theorem drafted_eq (h : (tablesNeeded asked).card ≤ bootstrapTableCount) : drafted asked = tablesNeeded asked :=
  serve_eq_union h

theorem lowPaths_short {p : Path} (hp : p ∈ lowPaths) : p.length ≠ 3 := by
  have hlen := lowPaths_length hp
  omega

/-- A page table is there when it was first asked for in time. -/
theorem mem_drafted_iff (hlow : ¬IsLow ⟨a⟩) : (VirtAddr.mk a).tablePath ∈ drafted asked ↔ Served asked a := by
  constructor
  · -- from the last page asked for backwards: it either found the table there or had it made
    intro hmem
    induction asked using List.reverseRecOn with
    | nil => exact absurd (VirtAddr.mk a).tablePath_length (lowPaths_short hmem)
    | append_singleton asked b ih =>
      by_cases hold : (VirtAddr.mk a).tablePath ∈ drafted asked
      · obtain ⟨before, b', after, rfl, htable, hcard⟩ := ih hold
        exact ⟨before, b', after ++ [b], by simp, htable, hcard⟩
      · rw [drafted_snoc, mem_serve_iff] at hmem
        obtain ⟨l₁, l₂, hsplit, hcard⟩ := hmem.resolve_left hold
        have hb : ¬IsLow ⟨b⟩ := by
          intro hlowb
          rw [tablesFor, if_pos hlowb] at hsplit
          simp at hsplit
        have hlast := tablesFor_split hb hsplit
        have hnew : (drafted asked).card < bootstrapTableCount := by
          have hinsert := Finset.card_insert_of_notMem hold
          have hsub : insert (VirtAddr.mk a).tablePath (drafted asked) ⊆
              drafted asked ∪ (l₁ ++ [(VirtAddr.mk a).tablePath]).toFinset := by
            intro p hp
            rw [Finset.mem_insert] at hp
            rw [Finset.mem_union, List.mem_toFinset, List.mem_append, List.mem_singleton]
            exact hp.elim (fun he => .inr (.inr he)) .inl
          have := Finset.card_le_card hsub
          omega
        have hall : drafted asked = tablesNeeded asked :=
          (serve_union_or_full bootstrapTableCount lowPaths (asked.flatMap tablesFor)).resolve_right (by
            change ¬bootstrapTableCount ≤ (drafted asked).card
            omega)
        refine ⟨asked, b, [], rfl, hlast.2, ?_⟩
        rw [tablesNeeded, List.flatMap_append, List.toFinset_append, ← Finset.union_assoc, List.flatMap_singleton, hlast.1]
        change (tablesNeeded asked ∪ _).card ≤ _
        rw [← hall]
        exact hcard
  · rintro ⟨before, b, after, rfl, htable, hcard⟩
    have hb : ¬IsLow ⟨b⟩ := fun hlowb => hlow (isLow_of_tablePath htable hlowb)
    rw [← htable, List.append_cons]
    apply subset_drafted
    rw [drafted_eq hcard, tablesNeeded, Finset.mem_union, List.mem_toFinset]
    exact .inr (List.mem_flatMap.mpr ⟨b, by simp, mem_tablesFor hb⟩)

theorem tablesFor_length (a : U64) : (tablesFor a).length ≤ 3 := by
  rw [tablesFor]
  split_ifs
  · exact Nat.zero_le 3
  · exact le_rfl

/-- The first page above 4 GiB gets its page table: with it there are at most nine. -/
theorem served_first (hlow : ∀ b ∈ asked, IsLow ⟨b⟩) (a : U64) : Served (asked ++ [a]) a := by
  refine ⟨asked, a, [], rfl, rfl, ?_⟩
  have hnone : asked.flatMap tablesFor = [] := by
    rw [List.flatMap_eq_nil_iff]
    intro b hb
    rw [tablesFor, if_pos (hlow b hb)]
  have hsix : lowPaths.card = 6 := by decide
  have hthree := (List.toFinset_card_le (tablesFor a)).trans (tablesFor_length a)
  have hunion := Finset.card_union_le lowPaths (tablesFor a).toFinset
  rw [tablesNeeded, List.flatMap_append, hnone, List.nil_append, List.flatMap_singleton]
  unfold bootstrapTableCount
  omega

end Serving

/-- The plan: the pages asked for, and the region table. -/
structure BootPlan where
  asked : List U64
  vmm : VirtualMemoryManager

/-- Step 1 for one region: every page is asked for, and the region is registered in any case. -/
def BootPlan.addRegion (plan : BootPlan) (r : MemoryRegion) : BootPlan :=
  ⟨plan.asked ++ regionPages r, (registerRegion (mapRegionOf r) plan.vmm).2⟩

/-- The pages of a device are asked for until one is refused. -/
def askPages : List U64 → List U64 → Bool × List U64
  | asked, [] => (true, asked)
  | asked, a :: rest =>
    if isCanonical a then
      if Stands (asked ++ [a]) a then askPages (asked ++ [a]) rest else (false, asked ++ [a])
    else (false, asked)

/-- A device: it is registered when no page was refused. -/
def BootPlan.addDevice (plan : BootPlan) (base size : U64) : BootPlan :=
  match askPages plan.asked (mmioPages base size) with
  | (false, asked) => { plan with asked := asked }
  | (true, asked) => ⟨asked, (registerRegion (mmioRegionOf base size) plan.vmm).2⟩

/-- The LAPIC, the I/O APIC and the framebuffer. -/
def BootInfo.devices (info : BootInfo) : List (U64 × U64) :=
  [(info.lapicBase, BitVec.ofNat 64 pageSize), (info.ioapicBase, BitVec.ofNat 64 pageSize)] ++ info.framebuffer.toList

def BootInfo.plan (info : BootInfo) : BootPlan :=
  info.devices.foldl (fun plan d => plan.addDevice d.1 d.2) (info.map.regions.foldl BootPlan.addRegion ⟨[], .new⟩)

/-- The regions of the memory map end below the non-canonical addresses. -/
def BootInfo.Mappable (info : BootInfo) : Prop := ∀ r ∈ info.map.regions, r.physicalEnd.toNat ≤ 2 ^ 47

section Pages

variable {a start stop : U64}

theorem pageDown_toNat (a : U64) : (pageDown a).toNat = a.toNat / 4096 * 4096 := by
  have hmask : ∀ i < 64, (~~~0xFFF#64).getLsbD i = decide (12 ≤ i) := by decide
  have hshift : pageDown a = a >>> 12 <<< 12 := by
    apply BitVec.eq_of_getLsbD_eq
    intro i hi
    rw [pageDown, BitVec.getLsbD_and, hmask i hi, BitVec.getLsbD_shiftLeft]
    by_cases h12 : 12 ≤ i
    · simp [h12, hi, show ¬i < 12 by omega]
    · simp [h12, show i < 12 by omega]
  have hlt := a.isLt
  rw [hshift, BitVec.toNat_shiftLeft, BitVec.toNat_ushiftRight, Nat.shiftRight_eq_div_pow, Nat.shiftLeft_eq]
  omega

/-- The pages of a loop between page boundaries. -/
theorem mem_pageRange (hstart : start.toNat % 4096 = 0) (hstop : stop.toNat % 4096 = 0) :
    a ∈ pageRange start stop ↔ start.toNat ≤ a.toNat ∧ a.toNat < stop.toNat ∧ a.toNat % 4096 = 0 := by
  have hlt := stop.isLt
  rw [pageRange, List.mem_map]
  constructor
  · rintro ⟨i, hi, rfl⟩
    rw [List.mem_range, pageSize] at hi
    rw [BitVec.toNat_add, BitVec.toNat_ofNat, pageSize]
    omega
  · rintro ⟨hlow, hhigh, hal⟩
    refine ⟨(a.toNat - start.toNat) / 4096, ?_, ?_⟩
    · rw [List.mem_range, pageSize]
      omega
    · apply BitVec.eq_of_toNat_eq
      rw [BitVec.toNat_add, BitVec.toNat_ofNat, pageSize]
      omega

theorem pageDown_aligned (a : U64) : (pageDown a).toNat % 4096 = 0 := by
  rw [pageDown_toNat]
  omega

theorem mem_pages {base limit : U64} (ha : a ∈ pageRange (pageDown base) (pageDown limit)) :
    (VirtAddr.mk a).isAligned = true ∧ a.toNat < (pageDown limit).toNat := by
  rw [mem_pageRange (pageDown_aligned _) (pageDown_aligned _)] at ha
  exact ⟨by simp [VirtAddr.isAligned, pageSize, ha.2.2], ha.2.1⟩

/-- The last page of a region that ends below 128 TiB does. -/
theorem pageEnd_below (hstop : stop.toNat ≤ 2 ^ 47) : (pageDown (stop + 0xFFF#64)).toNat ≤ 2 ^ 47 := by
  rw [pageDown_toNat, BitVec.toNat_add, show (0xFFF#64).toNat = 4095 from rfl]
  omega

theorem canonicalVirt_below (ha : a.toNat < 2 ^ 47) : canonicalVirt a = ⟨a⟩ := by
  have hsign : a &&& (1#64 <<< 47) = 0#64 := by
    have hbit : a.getLsbD 47 = false := Nat.testBit_lt_two_pow ha
    rw [show 1#64 <<< 47 = BitVec.twoPow 64 47 from rfl, BitVec.and_twoPow, hbit]
    rfl
  have hlow : a &&& 0x0000FFFFFFFFFFFF#64 = a := by
    apply BitVec.eq_of_toNat_eq
    rw [BitVec.toNat_and, show (0x0000FFFFFFFFFFFF#64).toNat = 2 ^ 48 - 1 from rfl, Nat.and_two_pow_sub_one_eq_mod]
    omega
  rw [canonicalVirt, if_neg (not_not_intro hsign), hlow]

end Pages

section Asked

variable {info : BootInfo} {asked l : List U64} {a base size : U64} {plan : BootPlan}

/-- A device asks for its own pages only. -/
theorem mem_askPages (h : a ∈ (askPages asked l).2) : a ∈ asked ∨ a ∈ l := by
  induction l generalizing asked with
  | nil => exact .inl h
  | cons b l ih =>
    have hsnoc (hmem : a ∈ asked ++ [b]) : a ∈ asked ∨ a ∈ b :: l := by
      rw [List.mem_append, List.mem_singleton] at hmem
      exact hmem.imp_right fun hab => List.mem_cons.mpr (.inl hab)
    rw [askPages] at h
    split_ifs at h
    · apply (ih h).elim hsnoc
      exact fun hl => .inr (List.mem_cons_of_mem b hl)
    · exact hsnoc h
    · exact .inl h

theorem mem_addDevice (h : a ∈ (plan.addDevice base size).asked) : a ∈ plan.asked ∨ a ∈ mmioPages base size := by
  have hpages (hin : a ∈ (askPages plan.asked (mmioPages base size)).2) : a ∈ plan.asked ∨ a ∈ mmioPages base size :=
    mem_askPages hin
  rw [BootPlan.addDevice] at h
  generalize askPages plan.asked (mmioPages base size) = result at h hpages
  rcases result with ⟨_ | _, asked⟩
  · exact hpages h
  · exact hpages h

/-- The pages asked for are those of the memory map and of the devices. -/
theorem mem_asked (h : a ∈ info.plan.asked) :
    (∃ r ∈ info.map.regions, a ∈ regionPages r) ∨ ∃ d ∈ info.devices, a ∈ mmioPages d.1 d.2 := by
  have hregions (l : List MemoryRegion) (plan : BootPlan) (hl : a ∈ (l.foldl BootPlan.addRegion plan).asked) :
      a ∈ plan.asked ∨ ∃ r ∈ l, a ∈ regionPages r := by
    induction l generalizing plan with
    | nil => exact .inl hl
    | cons r l ih =>
      rcases ih _ hl with hplan | ⟨r', hr', hmem⟩
      · exact (List.mem_append.mp hplan).imp_right fun hr => ⟨r, List.mem_cons_self, hr⟩
      · exact .inr ⟨r', List.mem_cons_of_mem r hr', hmem⟩
  have hdevices (l : List (U64 × U64)) (plan : BootPlan)
      (hl : a ∈ (l.foldl (fun plan d => plan.addDevice d.1 d.2) plan).asked) :
      a ∈ plan.asked ∨ ∃ d ∈ l, a ∈ mmioPages d.1 d.2 := by
    induction l generalizing plan with
    | nil => exact .inl hl
    | cons d l ih =>
      rcases ih _ hl with hplan | ⟨d', hd', hmem⟩
      · exact (mem_addDevice hplan).imp_right fun hd => ⟨d, List.mem_cons_self, hd⟩
      · exact .inr ⟨d', List.mem_cons_of_mem d hd', hmem⟩
  apply (hdevices _ _ h).imp_left
  exact fun hplan => (hregions _ _ hplan).resolve_left List.not_mem_nil

theorem asked_aligned (h : a ∈ info.plan.asked) : (VirtAddr.mk a).isAligned = true := by
  rcases mem_asked h with ⟨r, -, hr⟩ | ⟨d, -, hd⟩
  · exact (mem_pages hr).1
  · exact (mem_pages hd).1

theorem asked_low (hlow : info.Low) (h : a ∈ info.plan.asked) : a.toNat < 2 ^ 32 := by
  rcases mem_asked h with ⟨r, hr, hmem⟩ | ⟨d, hd, hmem⟩
  · exact hlow.regions r hr a hmem
  · rw [BootInfo.devices, List.mem_append, List.mem_pair, Option.mem_toList] at hd
    rcases hd with (rfl | rfl) | hframe
    · exact hlow.lapic a hmem
    · exact hlow.ioapic a hmem
    · exact hlow.framebuffer d hframe a hmem

theorem asked_isLow (hlow : info.Low) : ∀ b ∈ info.plan.asked, IsLow ⟨b⟩ := by
  intro b hb
  have hsmall := asked_low hlow hb
  unfold IsLow
  dsimp only
  omega

/-- A device of one page asks for it, whether or not it gets it. -/
theorem addDevice_page (hpages : mmioPages base size = [a]) (hc : isCanonical a = true) :
    (plan.addDevice base size).asked = plan.asked ++ [a] := by
  rw [BootPlan.addDevice, hpages, askPages, if_pos hc]
  split_ifs
  · rfl
  · rfl

/-- The framebuffer comes last. -/
theorem plan_framebuffer (hnone : info.framebuffer = none) (base size : U64) :
    { info with framebuffer := some (base, size) }.plan = info.plan.addDevice base size := by
  simp only [BootInfo.plan, BootInfo.devices, hnone, Option.toList_none, Option.toList_some, List.append_nil,
    List.foldl_append, List.foldl_cons, List.foldl_nil]

end Asked

end VenturaOS.Vmm
