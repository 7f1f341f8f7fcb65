import VenturaOS.Library.Runs
import VenturaOS.Vmm.KernelCalls

/-!
# Addresses are handed out once

Runs of the calls that work on the region table. The cursor never moves
back, every region returned starts at it, and a removal only drops an entry,
so neither the regions returned nor the regions registered ever meet.
-/
namespace VenturaOS.Vmm
open Library Memory Paging

/-- The calls, each with its result where it returns a region. -/
inductive TableCall
  | reserve (size : U64) (permissions : VirtPermissions) (purpose : RegionPurpose) (result : Except VmmError VirtRegion)
  | allocate (size : U64) (permissions : VirtPermissions) (purpose : RegionPurpose) (result : Except VmmError VirtRegion)
  | unmap (region : VirtRegion)
  | unregister (start : VirtAddr)
  | advance (newEnd : U64)

/-- The region a call returned. -/
def TableCall.region : TableCall → Option VirtRegion
  | .reserve _ _ _ (.ok region) => some region
  | .allocate _ _ _ (.ok region) => some region
  | _ => none

/-- One call, whatever the page tables and the page allocator look like at that moment. -/
inductive TableStep : VirtualMemoryManager → TableCall → VirtualMemoryManager → Prop
  | reserve {vmm vmm' : VirtualMemoryManager} {size : U64} {permissions : VirtPermissions} {purpose : RegionPurpose}
      {result : Except VmmError VirtRegion} : reserveVirtualRegion size permissions purpose vmm = (result, vmm') →
      TableStep vmm (.reserve size permissions purpose result) vmm'
  | allocate {k k' : Kernel} {size : U64} {permissions : VirtPermissions} {purpose : RegionPurpose}
      {result : Except VmmError VirtRegion} : allocateAndMapRegion size permissions purpose k = (result, k') →
      TableStep k.vmm (.allocate size permissions purpose result) k'.vmm
  | unmap {k : Kernel} (region : VirtRegion) : TableStep k.vmm (.unmap region) (unmapRegion region k).2.vmm
  | unregister {vmm : VirtualMemoryManager} (start : VirtAddr) :
      TableStep vmm (.unregister start) (unregisterRegion start vmm).2
  | advance {vmm : VirtualMemoryManager} {newEnd : U64} : newEnd.toNat % 4096 = 0 →
      TableStep vmm (.advance newEnd) (advanceDynamicCursor newEnd vmm)

/-- The regions returned in a run, in order. -/
def returnedIn (calls : List TableCall) : List VirtRegion := calls.filterMap TableCall.region

/-- No address lies in both. -/
def VirtRegion.Apart (r q : VirtRegion) : Prop := ∀ a, ¬(r.contains a = true ∧ q.contains a = true)

theorem VirtRegion.Apart.symm {r q : VirtRegion} (h : r.Apart q) : q.Apart r := fun a ha => h a ha.symm

instance : Std.Symm VirtRegion.Apart := ⟨fun _ _ => VirtRegion.Apart.symm⟩

def VirtRegion.NonWrapping (r : VirtRegion) : Prop := r.start.addr.toNat + r.sizeBytes.toNat < 2 ^ 64

/-- A nonempty run of whole pages in the dynamic range. -/
structure VirtRegion.Dynamic (r : VirtRegion) : Prop where
  nonempty : r.sizeBytes.toNat ≠ 0
  aligned : r.start.addr.toNat % 4096 = 0 ∧ r.sizeBytes.toNat % 4096 = 0
  low : dynamicVirtStart.toNat ≤ r.start.addr.toNat
  high : r.start.addr.toNat + r.sizeBytes.toNat ≤ dynamicVirtEnd.toNat

/-- A table of disjoint regions, within its capacity, and a cursor fit for reservations. -/
structure TableOk (vmm : VirtualMemoryManager) : Prop where
  nonWrapping : ∀ r ∈ vmm.regions, r.NonWrapping
  disjoint : vmm.regions.Pairwise VirtRegion.Apart
  capacity : vmm.regions.length ≤ maxVirtRegions
  cursor : CursorOk vmm

section Regions

variable {r q : VirtRegion}

theorem VirtRegion.stop_toNat (h : r.NonWrapping) : r.stop.addr.toNat = r.start.addr.toNat + r.sizeBytes.toNat := by
  rw [VirtRegion.stop, BitVec.toNat_add]
  exact Nat.mod_eq_of_lt h

theorem VirtRegion.contains_iff (h : r.NonWrapping) {a : VirtAddr} : r.contains a = true ↔
    r.start.addr.toNat ≤ a.addr.toNat ∧ a.addr.toNat < r.start.addr.toNat + r.sizeBytes.toNat := by
  rw [VirtRegion.contains, VirtRegion.stop_toNat h, Bool.and_eq_true, decide_eq_true_eq, decide_eq_true_eq]

/-- One region wholly before the other. -/
theorem VirtRegion.apart_of_le (hr : r.NonWrapping) (hq : q.NonWrapping)
    (h : r.start.addr.toNat + r.sizeBytes.toNat ≤ q.start.addr.toNat) : r.Apart q := by
  intro a ha
  rw [VirtRegion.contains_iff hr, VirtRegion.contains_iff hq] at ha
  omega

/-- The overlap test of the source misses no common address. -/
theorem VirtRegion.apart_of_overlaps (hr : r.NonWrapping) (hq : q.NonWrapping)
    (h : r.overlaps q.start q.sizeBytes = false) : r.Apart q := by
  have hstop : (q.start.addr + q.sizeBytes).toNat = q.start.addr.toNat + q.sizeBytes.toNat := VirtRegion.stop_toNat hq
  rw [VirtRegion.overlaps, hstop, VirtRegion.stop_toNat hr, Bool.and_eq_false_iff, decide_eq_false_iff_not,
    decide_eq_false_iff_not] at h
  intro a ha
  rw [VirtRegion.contains_iff hr, VirtRegion.contains_iff hq] at ha
  omega

theorem VirtRegion.Dynamic.nonWrapping (h : r.Dynamic) : r.NonWrapping := by
  have hend : dynamicVirtEnd.toNat < 2 ^ 64 := by decide
  have hhigh := h.high
  unfold VirtRegion.NonWrapping
  omega

end Regions

section Removal

variable {vmm vmm' : VirtualMemoryManager}

/-- Moving the last entry into the gap keeps the other entries, in some order. -/
theorem swapRemove_perm {l : List VirtRegion} {i : ℕ} (hi : i < l.length) : (swapRemove l i).Perm (l.eraseIdx i) := by
  cases l using List.reverseRecOn with
  | nil => exact absurd hi (Nat.not_lt_zero i)
  | append_singleton l last =>
    rw [swapRemove, List.getLast?_concat]
    change ((l ++ [last]).set i last).dropLast.Perm _
    rw [List.length_append, List.length_singleton] at hi
    by_cases he : i < l.length
    · rw [List.set_append_left _ _ he, List.dropLast_concat, List.eraseIdx_append_of_lt_length he]
      have hsplit : l.set i last = l.take i ++ last :: l.drop (i + 1) := by
        rw [List.set_eq_take_append_cons_drop, if_pos he]
      rw [hsplit, List.eraseIdx_eq_take_drop_succ, List.append_assoc]
      exact List.Perm.append_left _ (List.perm_append_singleton last _).symm
    · have hlast : i = l.length := by omega
      subst hlast
      rw [List.set_append_right _ _ le_rfl, Nat.sub_self, List.set_cons_zero, List.dropLast_concat,
        List.eraseIdx_append_of_length_le le_rfl, Nat.sub_self, List.eraseIdx_cons_zero, List.append_nil]

theorem unregister_subperm (start : VirtAddr) (vmm : VirtualMemoryManager) :
    (unregisterRegion start vmm).2.regions.Subperm vmm.regions := by
  unfold unregisterRegion
  split
  case h_1 i hi =>
    have hlt : i < vmm.regions.length := (List.findIdx?_eq_some_iff_findIdx_eq.mp hi).1
    exact (swapRemove_perm hlt).subperm.trans (List.eraseIdx_sublist _ _).subperm
  case h_2 => exact List.Subperm.refl _

theorem TableOk.subperm (h : TableOk vmm) (hs : vmm'.regions.Subperm vmm.regions) (hc : CursorOk vmm') :
    TableOk vmm' where
  nonWrapping r hr := h.nonWrapping r (hs.subset hr)
  disjoint := by
    rcases hs with ⟨l, hp, hl⟩
    exact (hp.pairwise_iff fun hrq => VirtRegion.Apart.symm hrq).mp (h.disjoint.sublist hl)
  capacity := hs.length_le.trans h.capacity
  cursor := hc

theorem TableOk.unregister (h : TableOk vmm) (start : VirtAddr) : TableOk (unregisterRegion start vmm).2 :=
  h.subperm (unregister_subperm start vmm) h.cursor.unregister

end Removal

/-- What one call did: the cursor did not move back, and a region returned lies between its old and
new position. -/
structure Advanced (vmm vmm' : VirtualMemoryManager) (result : Option VirtRegion) : Prop where
  table : TableOk vmm'
  cursor : vmm.nextDynamicAddr.toNat ≤ vmm'.nextDynamicAddr.toNat
  fresh : ∀ r, result = some r → r.Dynamic ∧ vmm.nextDynamicAddr.toNat ≤ r.start.addr.toNat ∧
    r.start.addr.toNat + r.sizeBytes.toNat ≤ vmm'.nextDynamicAddr.toNat

section Calls

variable {vmm vmm' : VirtualMemoryManager} {size : U64} {permissions : VirtPermissions} {purpose : RegionPurpose}

theorem TableOk.reserve (h : TableOk vmm) {region : VirtRegion}
    (hrun : reserveVirtualRegion size permissions purpose vmm = (.ok region, vmm')) :
    Advanced vmm vmm' (some region) := by
  have hcursor := h.cursor.reserve size permissions purpose
  rw [hrun] at hcursor
  rcases reserve_ok hrun with ⟨hregion, hne, hal, hend, hsum, hany, hfull, hvmm⟩
  have hdynamic : region.Dynamic := by
    rw [hregion]
    exact ⟨hne, ⟨h.cursor.1, hal⟩, h.cursor.2, hend⟩
  have htable : TableOk vmm' :=
    { nonWrapping := by
        rw [hvmm]
        intro r hr
        rcases List.mem_append.mp hr with hr | hr
        · exact h.nonWrapping r hr
        · rw [List.mem_singleton.mp hr]
          exact hdynamic.nonWrapping
      disjoint := by
        rw [hvmm, List.pairwise_append]
        refine ⟨h.disjoint, List.pairwise_singleton _ _, fun r hr q hq => ?_⟩
        rw [List.mem_singleton.mp hq]
        apply VirtRegion.apart_of_overlaps (h.nonWrapping r hr) hdynamic.nonWrapping
        rw [hregion]
        exact hany r hr
      capacity := by
        rw [hvmm, List.length_append, List.length_singleton]
        exact hfull
      cursor := hcursor }
  have hnew : vmm'.nextDynamicAddr.toNat = vmm.nextDynamicAddr.toNat + size.toNat := by rw [hvmm, ← hsum]
  refine ⟨htable, by omega, fun r hr => ?_⟩
  cases hr
  refine ⟨hdynamic, ?_, ?_⟩
  · rw [hregion]
  · rw [hregion, hnew]

/-- The region table after `allocate_and_map_region` is that of the reservation, or that entry is gone again. -/
theorem allocate_table {k k' : Kernel} {result : Except VmmError VirtRegion}
    (hrun : allocateAndMapRegion size permissions purpose k = (result, k')) :
    ∃ taken vmm', reserveVirtualRegion size permissions purpose k.vmm = (taken, vmm') ∧
      (k'.vmm = vmm' ∨ ∃ start, k'.vmm = (unregisterRegion start vmm').2) ∧
      ∀ region, result = .ok region →
        k'.vmm = vmm' ∧ ∃ reserved, taken = .ok reserved ∧ region = { reserved with ownsPhysicalPages := true } := by
  rcases htaken : reserveVirtualRegion size permissions purpose k.vmm with ⟨taken, vmm'⟩
  refine ⟨taken, vmm', rfl, ?_, fun region hresult => ?_⟩
  · unfold allocateAndMapRegion at hrun
    rw [htaken] at hrun
    cases taken with
    | error e =>
      cases hrun
      exact .inl rfl
    | ok reserved =>
      simp only at hrun
      split_ifs at hrun
      · cases hrun
        exact .inl rfl
      · generalize allocateFrames (size.toNat / pageSize) [] k.mem = got at hrun
        rcases got with ⟨_ | frames, mem⟩
        · cases hrun
          exact .inl rfl
        · simp only at hrun
          generalize mapPages k.rootPml4 permissions.toPageFlags []
            ((pagesFrom reserved.start.addr (size.toNat / pageSize)).zip frames) mem = mapped at hrun
          rcases mapped with ⟨_ | _, mem'⟩
          · cases hrun
            exact .inr ⟨_, rfl⟩
          · cases hrun
            exact .inl rfl
  · subst hresult
    rcases allocated_region hrun with ⟨reserved, vmm₁, hres, hvmm, hregion⟩
    rw [htaken] at hres
    cases hres
    exact ⟨hvmm, reserved, rfl, hregion⟩

theorem TableOk.allocate {k k' : Kernel} {result : Except VmmError VirtRegion} (h : TableOk k.vmm)
    (hrun : allocateAndMapRegion size permissions purpose k = (result, k')) :
    Advanced k.vmm k'.vmm (TableCall.region (.allocate size permissions purpose result)) := by
  rcases allocate_table hrun with ⟨taken, vmm', htaken, hvmm, hok⟩
  have hreserved : TableOk vmm' ∧ k.vmm.nextDynamicAddr.toNat ≤ vmm'.nextDynamicAddr.toNat := by
    cases taken with
    | error e =>
      rw [reserve_error htaken]
      exact ⟨h, le_rfl⟩
    | ok reserved =>
      have hadv := h.reserve htaken
      exact ⟨hadv.table, hadv.cursor⟩
  refine ⟨?_, ?_, fun region hregion => ?_⟩
  · rcases hvmm with hvmm | ⟨start, hvmm⟩
    · rw [hvmm]
      exact hreserved.1
    · rw [hvmm]
      exact hreserved.1.unregister start
  · rcases hvmm with hvmm | ⟨start, hvmm⟩
    · rw [hvmm]
      exact hreserved.2
    · rw [hvmm, unregister_cursor]
      exact hreserved.2
  · cases result with
    | error e => cases hregion
    | ok q =>
      cases hregion
      rcases hok region rfl with ⟨hsame, reserved, rfl, rfl⟩
      rw [hsame]
      rcases (h.reserve htaken).fresh reserved rfl with ⟨hdynamic, hlow, hhigh⟩
      exact ⟨⟨hdynamic.nonempty, hdynamic.aligned, hdynamic.low, hdynamic.high⟩, hlow, hhigh⟩

theorem advance_cursor (newEnd : U64) (vmm : VirtualMemoryManager) :
    vmm.nextDynamicAddr.toNat ≤ (advanceDynamicCursor newEnd vmm).nextDynamicAddr.toNat ∧
      ((advanceDynamicCursor newEnd vmm).nextDynamicAddr = newEnd ∨ advanceDynamicCursor newEnd vmm = vmm) ∧
      (advanceDynamicCursor newEnd vmm).regions = vmm.regions := by
  unfold advanceDynamicCursor
  split_ifs with hlt
  · exact ⟨le_of_lt hlt, .inl rfl, rfl⟩
  · exact ⟨le_rfl, .inr rfl, rfl⟩

theorem TableOk.advance (h : TableOk vmm) {newEnd : U64} (hal : newEnd.toNat % 4096 = 0) :
    Advanced vmm (advanceDynamicCursor newEnd vmm) none := by
  rcases advance_cursor newEnd vmm with ⟨hle, hcase, hregions⟩
  have hcursor : CursorOk (advanceDynamicCursor newEnd vmm) := by
    rcases hcase with he | he
    · refine ⟨by rw [he]; exact hal, h.cursor.2.trans hle⟩
    · rw [he]
      exact h.cursor
  refine ⟨h.subperm ?_ hcursor, hle, fun r hr => by cases hr⟩
  rw [hregions]

theorem TableOk.step (h : TableOk vmm) {call : TableCall} (hstep : TableStep vmm call vmm') :
    Advanced vmm vmm' call.region := by
  cases hstep with
  | reserve hrun =>
    rename_i result
    cases result with
    | error e =>
      rw [reserve_error hrun]
      exact ⟨h, le_rfl, fun r hr => by cases hr⟩
    | ok region => exact h.reserve hrun
  | allocate hrun => exact h.allocate hrun
  | @unmap k region =>
    exact ⟨h.unregister region.start, by rw [unmapRegion, unregister_cursor], fun r hr => by cases hr⟩
  | unregister start => exact ⟨h.unregister start, by rw [unregister_cursor], fun r hr => by cases hr⟩
  | advance hal => exact h.advance hal

end Calls

section Runs

variable {vmm vmm' : VirtualMemoryManager} {calls : List TableCall}

/-- A whole run: the regions returned lie between the cursor's first and last position, one after the other. -/
theorem TableOk.run (hrun : Run TableStep vmm calls vmm') (h : TableOk vmm) :
    TableOk vmm' ∧ vmm.nextDynamicAddr.toNat ≤ vmm'.nextDynamicAddr.toNat ∧
      (∀ r ∈ returnedIn calls, r.Dynamic ∧ vmm.nextDynamicAddr.toNat ≤ r.start.addr.toNat) ∧
      (returnedIn calls).Pairwise VirtRegion.Apart := by
  induction hrun with
  | nil vmm => exact ⟨h, le_rfl, by simp [returnedIn], List.Pairwise.nil⟩
  | @cons vmm vmm₁ vmm₂ call calls hstep _ ih =>
    have hadv := h.step hstep
    rcases ih hadv.table with ⟨htable, hcursor, hdynamic, hapart⟩
    have hlater : ∀ r ∈ returnedIn calls, r.Dynamic ∧ vmm.nextDynamicAddr.toNat ≤ r.start.addr.toNat := by
      intro r hr
      rcases hdynamic r hr with ⟨hd, hlow⟩
      exact ⟨hd, hadv.cursor.trans hlow⟩
    cases hcall : call.region with
    | none =>
      have hsame : returnedIn (call :: calls) = returnedIn calls := List.filterMap_cons_none hcall
      rw [hsame]
      exact ⟨htable, hadv.cursor.trans hcursor, hlater, hapart⟩
    | some region =>
      have hcons : returnedIn (call :: calls) = region :: returnedIn calls := List.filterMap_cons_some hcall
      rcases hadv.fresh region hcall with ⟨hd, hlow, hhigh⟩
      rw [hcons]
      refine ⟨htable, hadv.cursor.trans hcursor, ?_, List.pairwise_cons.mpr ⟨fun r hr => ?_, hapart⟩⟩
      · intro r hr
        rcases List.mem_cons.mp hr with rfl | hr
        · exact ⟨hd, hlow⟩
        · exact hlater r hr
      · -- what is returned later starts at the cursor this region ended at, or above it
        rcases hdynamic r hr with ⟨hd', hlow'⟩
        exact VirtRegion.apart_of_le hd.nonWrapping hd'.nonWrapping (hhigh.trans hlow')

theorem find_some {addr : VirtAddr} {r : VirtRegion} (h : findRegionForAddr addr vmm = some r) :
    r ∈ vmm.regions ∧ r.contains addr = true := by
  unfold findRegionForAddr at h
  exact ⟨List.mem_of_find?_eq_some h, by simpa using List.find?_some h⟩

/-- The first region found is the only one registered for the address. -/
theorem TableOk.find_iff (h : TableOk vmm) (addr : VirtAddr) (r : VirtRegion) :
    findRegionForAddr addr vmm = some r ↔ r ∈ vmm.regions ∧ r.contains addr = true := by
  constructor
  · exact find_some
  · rintro ⟨hr, hc⟩
    cases hfind : findRegionForAddr addr vmm with
    | none => exact absurd hc (List.find?_eq_none.mp hfind r hr)
    | some q =>
      rcases find_some hfind with ⟨hq, hqc⟩
      by_contra hne
      have hrq : r ≠ q := fun he => hne (by rw [he])
      exact h.disjoint.forall hr hq hrq addr ⟨hc, hqc⟩

/-- Virtual addresses are never handed out twice. -/
theorem addresses_handed_out_once (h : TableOk vmm) (hrun : Run TableStep vmm calls vmm') :
    (∀ r ∈ returnedIn calls, r.Dynamic) ∧ (returnedIn calls).Pairwise VirtRegion.Apart ∧
      vmm'.regions.Pairwise VirtRegion.Apart ∧ vmm'.regions.length ≤ maxVirtRegions ∧
      ∀ addr r, findRegionForAddr addr vmm' = some r ↔ r ∈ vmm'.regions ∧ r.contains addr = true := by
  rcases TableOk.run hrun h with ⟨htable, -, hdynamic, hapart⟩
  exact ⟨fun r hr => (hdynamic r hr).1, hapart, htable.disjoint, htable.capacity, htable.find_iff⟩

end Runs

/-- The region of one page at the start of the dynamic range, and the one behind it. -/
def samplePage (i : Fin 2) : VirtRegion :=
  ⟨⟨if i = 0 then dynamicVirtStart else dynamicVirtStart + 0x1000⟩, 0x1000, .kernelData, .dynamicKernel, false⟩

/-- Two reservations, the first one given back in between. -/
theorem addresses_handed_out_once_sample : ∃ calls vmm, returnedIn calls = [samplePage 0, samplePage 1] ∧
    Run TableStep .new calls vmm ∧ vmm.regions = [samplePage 1] ∧ (samplePage 0).Apart (samplePage 1) := by
  have htable : TableOk .new := ⟨by simp [VirtualMemoryManager.new], List.Pairwise.nil, by decide, by decide, by decide⟩
  have hfirst : TableStep .new (.reserve 0x1000 .kernelData .dynamicKernel (.ok (samplePage 0)))
      ⟨[samplePage 0], dynamicVirtStart + 0x1000⟩ := .reserve (by decide)
  have hgone : TableStep ⟨[samplePage 0], dynamicVirtStart + 0x1000⟩ (.unregister ⟨dynamicVirtStart⟩)
      ⟨[], dynamicVirtStart + 0x1000⟩ := .unregister ⟨dynamicVirtStart⟩
  have hsecond : TableStep ⟨[], dynamicVirtStart + 0x1000⟩
      (.reserve 0x1000 .kernelData .dynamicKernel (.ok (samplePage 1)))
      ⟨[samplePage 1], dynamicVirtStart + 0x2000⟩ := .reserve (by decide)
  have hrun := Run.cons hfirst (.cons hgone (.single hsecond))
  have hapart := (addresses_handed_out_once htable hrun).2.1
  exact ⟨_, _, rfl, hrun, rfl, (List.pairwise_cons.mp hapart).1 _ (by simp [TableCall.region])⟩

end VenturaOS.Vmm
