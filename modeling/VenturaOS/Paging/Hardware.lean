import VenturaOS.Paging.Leaves

/-!
# The processor's page walk

Four levels, with large pages as leaves at the second and third. Reserved are
the large-page bit at the top level and the bits of a large entry between its
base and bit 12; no entry counts as reserved for its high bits, so physical
addresses have 52 bits and execute-disable is on. A walk only reads tables
reachable from its root through table links, so it is unchanged when those
tables are.
-/
namespace VenturaOS.Paging

/-- The physical address of `v` with the entries read on the way, or `none`. A large entry is a leaf
whatever else is in it. -/
def pageWalk (tables : U64 → PageTable) (root : U64) (v : VirtAddr) : Option (U64 × List PageTableEntry) :=
  if !isCanonical v.addr then none
  else
    let pml4e := tables root v.pml4Index
    -- the large-page bit is reserved at the top level
    if !pml4e.isPresent || pml4e.isHuge then none
    else
      let pdpte := tables pml4e.physAddr v.pdptIndex
      if !pdpte.isPresent then none
      else if pdpte.isHuge then
        some ((pdpte.bits &&& 0x000FFFFFC0000000#64) ||| (v.addr &&& 0x3FFFFFFF#64), [pml4e, pdpte])
      else
        let pde := tables pdpte.physAddr v.pdIndex
        if !pde.isPresent then none
        else if pde.isHuge then
          some ((pde.bits &&& 0x000FFFFFFFE00000#64) ||| (v.addr &&& 0x1FFFFF#64), [pml4e, pdpte, pde])
        else
          let pte := tables pde.physAddr v.ptIndex
          if !pte.isPresent then none
          else some (pte.physAddr ||| v.pageOffset, [pml4e, pdpte, pde, pte])

/-- Bits 13 to 29 of a 1 GiB entry and bits 13 to 20 of a 2 MiB entry have to be clear. -/
def reservedClear : List PageTableEntry → Bool
  | [_, pdpte] => pdpte.bits &&& 0x3FFFE000#64 == 0#64
  | [_, _, pde] => pde.bits &&& 0x1FE000#64 == 0#64
  | _ => true

@[simp] theorem reservedClear_page (pml4e pdpte pde pte : PageTableEntry) : reservedClear [pml4e, pdpte, pde, pte] = true :=
  rfl

/-- The walk of the processor, which faults on a reserved bit. -/
def hardwareWalk (tables : U64 → PageTable) (root : U64) (v : VirtAddr) : Option (U64 × List PageTableEntry) :=
  (pageWalk tables root v).filter fun x => reservedClear x.2

/-- The physical address of `v` from the entries read: the last one is a leaf of its level. -/
def leafAddress (v : VirtAddr) : List PageTableEntry → Option U64
  | [_, pdpte] => some ((pdpte.bits &&& 0x000FFFFFC0000000#64) ||| (v.addr &&& 0x3FFFFFFF#64))
  | [_, _, pde] => some ((pde.bits &&& 0x000FFFFFFFE00000#64) ||| (v.addr &&& 0x1FFFFF#64))
  | [_, _, _, pte] => some (pte.physAddr ||| v.pageOffset)
  | _ => none

def readAddress (v : VirtAddr) (entries : List PageTableEntry) : Option U64 :=
  if reservedClear entries then leafAddress v entries else none

theorem pageWalk_eq (tables : U64 → PageTable) (root : U64) (v : VirtAddr) :
    pageWalk tables root v =
      if isCanonical v.addr then
        (reach tables root v.path).bind fun entries => (leafAddress v entries).map fun a => (a, entries)
      else none := by
  unfold pageWalk
  have hpath : v.path = [v.pml4Index, v.pdptIndex, v.pdIndex, v.ptIndex] := rfl
  cases hc : isCanonical v.addr with
  | false => rfl
  | true =>
    simp only [hpath, reach]
    generalize tables root v.pml4Index = e4
    cases h4 : e4.isPresent with
    | false => simp
    | true =>
      cases g4 : e4.isHuge with
      | true => simp [leafAddress]
      | false =>
        generalize tables e4.physAddr v.pdptIndex = e3
        cases h3 : e3.isPresent with
        | false => simp
        | true =>
          cases g3 : e3.isHuge with
          | true => simp [leafAddress]
          | false =>
            generalize tables e3.physAddr v.pdIndex = e2
            cases h2 : e2.isPresent with
            | false => simp
            | true =>
              cases g2 : e2.isHuge with
              | true => simp [leafAddress]
              | false =>
                generalize tables e2.physAddr v.ptIndex = e1
                cases h1 : e1.isPresent <;> simp [leafAddress]

theorem hardwareWalk_eq (tables : U64 → PageTable) (root : U64) (v : VirtAddr) :
    hardwareWalk tables root v =
      if isCanonical v.addr then
        (reach tables root v.path).bind fun entries => (readAddress v entries).map fun a => (a, entries)
      else none := by
  rw [hardwareWalk, pageWalk_eq]
  cases isCanonical v.addr with
  | false => rfl
  | true =>
    cases reach tables root v.path with
    | none => rfl
    | some entries =>
      cases ha : leafAddress v entries with
      | none => simp [readAddress, ha]
      | some a => cases hclear : reservedClear entries <;> simp [readAddress, ha, hclear]

theorem hardwareWalk_of_reach {tables tables' : U64 → PageTable} {root : U64} {v : VirtAddr}
    (h : reach tables' root v.path = reach tables root v.path) :
    hardwareWalk tables' root v = hardwareWalk tables root v := by
  rw [hardwareWalk_eq, hardwareWalk_eq, h]

namespace Owned

variable {pol : Policy} {F : Finset U64} {c : ℕ} {place : Placement} {held : Finset U64} {s : PageMemory} {r : U64}

/-- A leaf write is no change to the other paths. -/
theorem reach_writeEntry (h : Owned pol F c place held s) {pt : U64} {is : Path} {i : Fin 512}
    (hpt : place pt = some (r, is)) (hl : is.length = 3) (e : PageTableEntry) {t r' : U64} {p : Path}
    {j : Fin 512} {q : Path} (ht : place t = some (r', p)) (hq : p.length + q.length = 3) (ho : pol.Owns r' p j)
    (hne : ¬(r' = r ∧ p ++ j :: q = is ++ [i])) :
    reach (s.writeEntry pt i e).tables t (j :: q) = reach s.tables t (j :: q) := by
  induction q generalizing t p j with
  | nil =>
    have hslot : ¬(t = pt ∧ j = i) := by
      rintro ⟨rfl, rfl⟩
      rw [hpt] at ht
      cases ht
      exact hne ⟨rfl, rfl⟩
    exact reach_congr (by rw [writeEntry_tables, if_neg hslot]) fun hnil => absurd rfl hnil
  | cons k q ih =>
    simp only [List.length_cons] at hq
    have htp : t ≠ pt := by
      rintro rfl
      rw [hpt] at ht
      cases ht
      omega
    refine reach_congr (by rw [writeEntry_tables, if_neg fun hslot => htp hslot.1]) fun _ hb => ?_
    refine ih (h.follow ht (by omega) ho hb) (by rw [List.length_append, List.length_singleton]; omega)
      (by simp [Policy.Owns]) ?_
    rw [List.append_assoc, List.singleton_append]
    exact hne

/-- A walk below an owned slot reads placed tables only. -/
theorem reach_of_placed (h : Owned pol F c place held s) {tables : U64 → PageTable}
    (hsame : ∀ b x, place b = some x → tables b = s.tables b) {q : Path} {j : Fin 512} (ha : place a = some (r, p))
    (hlen : p.length + q.length = 3) (hown : pol.Owns r p j) : reach tables a (j :: q) = reach s.tables a (j :: q) := by
  induction q generalizing a p j with
  | nil => exact reach_congr (by rw [hsame a _ ha]) fun hnil => absurd rfl hnil
  | cons j' q ih =>
    rw [List.length_cons] at hlen
    apply reach_congr (by rw [hsame a _ ha])
    intro _ hlink
    exact ih (h.follow ha (by omega) hown hlink) (by simp; omega) (by simp [Policy.Owns])

/-- Down to a placed table every entry is there, so the walk fails only from that table on. -/
theorem reach_placed (h : Owned pol F c place held s) {b : U64} {is : Path} (hb : place b = some (r, is))
    (hl : is.length ≤ 3) (j : Fin 512) (q : Path) :
    reach s.tables r (is ++ j :: q) = none ↔ reach s.tables b (j :: q) = none := by
  induction is using List.reverseRecOn generalizing b j q with
  | nil => rw [h.forest.root_self hb, List.nil_append]
  | append_singleton is k ih =>
    rw [List.length_append, List.length_singleton] at hl
    rcases h.forest.parent hb with ⟨t, ht, he⟩
    have hlink : (s.tables t k).link = some b := by
      rw [Policy.edge, if_pos (by omega)] at he
      split_ifs at he
      exact he
    rcases PageTableEntry.link_eq_some.mp hlink with ⟨hpres, hsmall, hphys⟩
    rw [List.append_assoc, List.singleton_append, ih ht (by omega) k (j :: q), reach, if_pos hpres,
      if_neg (by simp [hsmall]), hphys, Option.map_eq_none_iff]

theorem reach_leaf (h : Owned pol F c place held s) {pt : U64} {v : VirtAddr} (hpt : place pt = some (r, v.tablePath)) :
    reach s.tables r v.path = none ↔ (s.tables pt v.ptIndex).isPresent = false := by
  change reach s.tables r (v.tablePath ++ v.ptIndex :: []) = none ↔ _
  rw [h.reach_placed hpt (by rw [v.tablePath_length])]
  cases hpres : (s.tables pt v.ptIndex).isPresent <;> simp [reach, hpres]

end Owned

/-- The tables reachable from a root, with their depth. -/
inductive TableAt (tables : U64 → PageTable) (root : U64) : ℕ → U64 → Prop
  | root : TableAt tables root 0 root
  | link {d : ℕ} {a b : U64} (i : Fin 512) : TableAt tables root d a → d < 3 → (tables a i).link = some b →
      TableAt tables root (d + 1) b

theorem reach_of_tables {tables tables' : U64 → PageTable} {root : U64}
    (h : ∀ d a, TableAt tables root d a → tables' a = tables a) {d : ℕ} {a : U64} {q : Path}
    (ha : TableAt tables root d a) (hq : d + q.length ≤ 4) : reach tables' a q = reach tables a q := by
  induction q generalizing d a with
  | nil => rfl
  | cons i q ih =>
    rw [List.length_cons] at hq
    refine reach_congr (by rw [h d a ha]) fun hne hlink => ?_
    have hlen := List.length_pos_iff.mpr hne
    exact ih (.link i ha (by omega) hlink) (by omega)

theorem hardwareWalk_congr {tables tables' : U64 → PageTable} {root : U64}
    (h : ∀ d a, TableAt tables root d a → tables' a = tables a) (v : VirtAddr) :
    hardwareWalk tables' root v = hardwareWalk tables root v :=
  hardwareWalk_of_reach (reach_of_tables h .root (by rw [v.path_length]))

theorem hardwareWalk_root {tables : U64 → PageTable} {r k : U64} {v : VirtAddr}
    (h : tables r v.pml4Index = tables k v.pml4Index) : hardwareWalk tables r v = hardwareWalk tables k v := by
  simp only [hardwareWalk, pageWalk, h]

theorem translate_root {tables : U64 → PageTable} {r k : U64} {v : VirtAddr}
    (h : tables r v.pml4Index = tables k v.pml4Index) : translate tables ⟨r⟩ v = translate tables ⟨k⟩ v := by
  simp only [translate, h]

end VenturaOS.Paging
