import VenturaOS.AddressSpace.Teardown
import VenturaOS.Heap.Tables
import VenturaOS.Machine.State
import VenturaOS.Vmm.Boot

/-!
# The invariant of the running system

Ownership of every table and leaf frame, with the kernel root and the roots
of live address spaces as the only roots. The shared entries of all roots
agree. Kernel-side calls and calls on one space preserve it for different
reasons, stated once each.
-/
namespace VenturaOS.Machine
open Library Memory Pmm Paging Vmm AddressSpaces

/-- The page tables of the system with kernel root `root`. -/
structure Tables (F : Finset U64) (c : ℕ) (root : U64) (spaces : List AddressSpace) (clients : Finset U64)
    (place : Placement) (s : PageMemory) : Prop where
  owned : Owned (kernelPolicy root F) F c place clients s
  rooted : place root = some (root, [])
  low : LowHuge root place s
  mode : s.isBootstrapping = false
  present : ∀ i, isShared i = true → (s.tables root i).isPresent = true
  live : ∀ {space}, space ∈ spaces → space.ownsRoot = true →
    place space.rootPage.addr = some (space.rootPage.addr, []) ∧ space.rootPage.addr ≠ root
  agree : ∀ {space}, space ∈ spaces → space.ownsRoot = true → ∀ i, isShared i = true →
    s.tables space.rootPage.addr i = s.tables root i
  roots : ∀ {r}, place r = some (r, []) → r = root ∨ ∃ space ∈ spaces, space.ownsRoot = true ∧ space.rootPage.addr = r
  distinct : ∀ {i j : ℕ} {a b : AddressSpace}, spaces[i]? = some a → spaces[j]? = some b → a.ownsRoot = true →
    b.ownsRoot = true → a.rootPage.addr = b.rootPage.addr → i = j

namespace Tables

variable {F : Finset U64} {c : ℕ} {root r : U64} {spaces : List AddressSpace} {clients clients' : Finset U64}
  {place place' : Placement} {s s' : PageMemory}

theorem kernelStep (h : Tables F c root spaces clients place s)
    (ho : Owned (kernelPolicy root F) F c place' clients' s') (hs : KernelStep root place place' s s') :
    Tables F c root spaces clients' place' s' where
  owned := ho
  rooted := hs.kept h.rooted (.inr (by simp))
  low := h.low.kernelStep hs
  mode := hs.mode.trans h.mode
  present i hi := by
    rw [hs.upper i h.rooted (by simp) (h.present i hi)]
    exact h.present i hi
  live hm hl := by
    rcases h.live hm hl with ⟨hp, hne⟩
    exact ⟨hs.kept hp (.inl hne), hne⟩
  agree hm hl i hi := by
    rcases h.live hm hl with ⟨hp, hne⟩
    rw [hs.spaces hp hne, hs.upper i h.rooted (by simp) (h.present i hi), h.agree hm hl i hi]
  roots hp := by
    rcases hs.fresh hp (.inr (by simp)) with hold | ⟨-, hnil⟩
    · exact h.roots hold
    · exact absurd rfl hnil
  distinct := h.distinct

/-- Entries of a root that are present survive a call on a space. -/
theorem root_entry (hs : PrivateStep r place place' s s') {a : U64} (ha : place a = some (a, [])) {i : Fin 512}
    (hp : (s.tables a i).isPresent = true) : s'.tables a i = s.tables a i := by
  by_cases har : a = r
  · subst har
    exact hs.upper i ha (by simp) hp
  · rw [hs.other ha har]

theorem privateStep (h : Tables F c root spaces clients place s)
    (ho : Owned (kernelPolicy root F) F c place' clients s') (hs : PrivateStep r place place' s s') :
    Tables F c root spaces clients place' s' where
  owned := ho
  rooted := hs.kept h.rooted
  low := by
    intro i3 i2 hi
    rcases h.low i3 i2 hi with ⟨pd, a, hpd, hlarge, ha⟩
    refine ⟨pd, a, hs.kept hpd, ?_, ha⟩
    by_cases hr : root = r
    · subst hr
      rw [hs.upper i2 hpd (by simp) (by rw [hlarge]; exact largeEntry_isPresent a), hlarge]
    · rw [hs.other hpd hr, hlarge]
  mode := hs.boot.mode.trans h.mode
  present i hi := by
    rw [root_entry hs h.rooted (h.present i hi)]
    exact h.present i hi
  live hm hl := by
    rcases h.live hm hl with ⟨hp, hne⟩
    exact ⟨hs.kept hp, hne⟩
  agree hm hl i hi := by
    have he := h.agree hm hl i hi
    rw [root_entry hs h.rooted (h.present i hi), root_entry hs (h.live hm hl).1 (by rw [he]; exact h.present i hi), he]
  roots hp := by
    rcases hs.fresh hp with hold | ⟨-, hnil, -⟩
    · exact h.roots hold
    · exact absurd rfl hnil
  distinct := h.distinct

/-- Frames that move between the allocator and clients touch no table. -/
theorem retake (h : Tables F c root spaces clients place s)
    (ho : Owned (kernelPolicy root F) F c place clients' s') (hp : s'.bootstrapPool = s.bootstrapPool)
    (hm : s'.isBootstrapping = s.isBootstrapping) (ht : s'.tables = s.tables) :
    Tables F c root spaces clients' place s' :=
  h.kernelStep ho (.of_tables hp hm ht)

theorem getElem?_snoc {α : Type*} {l : List α} {x a : α} {i : ℕ} (h : (l ++ [x])[i]? = some a) :
    l[i]? = some a ∨ (i = l.length ∧ a = x) := by
  rw [List.getElem?_append] at h
  split_ifs at h with hlt
  · exact .inl h
  · have hi : i - l.length = 0 := by
      have := (List.getElem?_eq_some_iff.mp h).1
      simpa using this
    rw [hi] at h
    exact .inr ⟨by omega, (Option.some.inj h).symm⟩

theorem addHandle (h : Tables F c root spaces clients place s) {space : AddressSpace} (hn : space.ownsRoot = false) :
    Tables F c root (spaces ++ [space]) clients place s := by
  have hold {sp : AddressSpace} (hm : sp ∈ spaces ++ [space]) (hl : sp.ownsRoot = true) : sp ∈ spaces := by
    rcases List.mem_append.mp hm with hm | hm
    · exact hm
    · rw [List.mem_singleton.mp hm, hn] at hl
      cases hl
  have hget {i : ℕ} {a : AddressSpace} (hi : (spaces ++ [space])[i]? = some a) (hl : a.ownsRoot = true) :
      spaces[i]? = some a := by
    rcases getElem?_snoc hi with hi | ⟨-, rfl⟩
    · exact hi
    · rw [hn] at hl
      cases hl
  exact
    { h with
      live := fun hm hl => h.live (hold hm hl) hl
      agree := fun hm hl => h.agree (hold hm hl) hl
      roots := fun hp => (h.roots hp).imp_right fun ⟨sp, hm, hl, he⟩ => ⟨sp, List.mem_append_left _ hm, hl, he⟩
      distinct := fun hi hj ha hb he => h.distinct (hget hi ha) (hget hj hb) ha hb he }

/-- The root of a live space is not the kernel's, and its frame is managed and out of the allocator. -/
theorem live_frame (h : Tables F c root spaces clients place s) {space : AddressSpace} (hm : space ∈ spaces)
    (hl : space.ownsRoot = true) :
    space.rootPage.addr ∈ F ∧ space.rootPage.addr ∉ s.pmm.freeFrames ∧ space.rootPage.addr ≠ 0 := by
  rcases h.live hm hl with ⟨hp, hne⟩
  have hF := (h.owned.managed hp).resolve_right hne
  refine ⟨hF, fun hfree => ?_, fun hz => ?_⟩
  · rw [(h.owned.free_unplaced hfree).1] at hp
    cases hp
  · have haddr := (h.owned.frames.address hF).2.1
    rw [hz] at haddr
    simp at haddr

/-- A client's frame becomes the root of a new space. -/
theorem addSpace (h : Tables F c root spaces clients place s) {f : U64} (hf : f ∉ clients) (hF : f ∈ F)
    (ho : Owned (kernelPolicy root F) F c place (insert f clients) s') (ht : s'.tables = s.tables)
    (hm : s'.isBootstrapping = s.isBootstrapping) {t : PageTable}
    (hshared : ∀ i, isShared i = true → t i = s.tables root i) (hprivate : ∀ i, isShared i = false → t i = .empty)
    {space : AddressSpace} (hroot : space.rootPage = ⟨f⟩) (howns : space.ownsRoot = true) :
    Tables F c root (spaces ++ [space]) clients (Function.update place f (some (f, []))) (s'.writeTable f t) := by
  have hvac : place f = none := (ho.held_inUse (Finset.mem_insert_self f clients)).2
  have hold {a x} (ha : place a = some x) : a ≠ f := by
    rintro rfl
    rw [hvac] at ha
    cases ha
  have htab {a x} (ha : place a = some x) : (s'.writeTable f t).tables a = s.tables a := by
    change Function.update s'.tables f t a = s.tables a
    rw [Function.update_of_ne (hold ha), ht]
  have hself : (s'.writeTable f t).tables f = t := Function.update_self _ _ _
  have hnew := newRoot ho h.rooted (Finset.mem_insert_self f clients) hF (by rwa [ht]) hprivate
  rw [Finset.erase_insert hf] at hnew
  have hkeep {a x} (ha : place a = some x) : Function.update place f (some (f, [])) a = some x := by
    rw [Function.update_of_ne (hold ha), ha]
  exact
    { owned := hnew
      rooted := hkeep h.rooted
      low := by
        intro i3 i2 hi
        rcases h.low i3 i2 hi with ⟨pd, a, hpd, hlarge, ha⟩
        exact ⟨pd, a, hkeep hpd, by rw [htab hpd, hlarge], ha⟩
      mode := hm.trans h.mode
      present := by
        intro i hi
        rw [htab h.rooted]
        exact h.present i hi
      live := by
        intro sp hsp hl
        rcases List.mem_append.mp hsp with hsp | hsp
        · rcases h.live hsp hl with ⟨hp, hne⟩
          exact ⟨hkeep hp, hne⟩
        · rw [List.mem_singleton.mp hsp, hroot]
          exact ⟨Function.update_self _ _ _, Ne.symm (hold h.rooted)⟩
      agree := by
        intro sp hsp hl i hi
        rw [htab h.rooted]
        rcases List.mem_append.mp hsp with hsp | hsp
        · rw [htab (h.live hsp hl).1]
          exact h.agree hsp hl i hi
        · rw [List.mem_singleton.mp hsp, hroot, hself]
          exact hshared i hi
      roots := by
        intro a ha
        by_cases haf : a = f
        · exact .inr ⟨space, by simp, howns, by rw [hroot, haf]⟩
        · rw [Function.update_of_ne haf] at ha
          exact (h.roots ha).imp_right fun ⟨sp, hsp, hl, he⟩ => ⟨sp, List.mem_append_left _ hsp, hl, he⟩
      distinct := by
        intro i j a b hi hj hla hlb he
        rcases getElem?_snoc hi with hi' | ⟨hi', ha⟩
        · rcases getElem?_snoc hj with hj' | ⟨-, hb⟩
          · exact h.distinct hi' hj' hla hlb he
          · rw [hb, hroot] at he
            exact absurd he (hold (h.live (List.mem_of_getElem? hi') hla).1)
        · rcases getElem?_snoc hj with hj' | ⟨hj', -⟩
          · rw [ha, hroot] at he
            exact absurd he.symm (hold (h.live (List.mem_of_getElem? hj') hlb).1)
          · rw [hi', hj'] }

/-- The tree of a destroyed space is gone; its handle owns nothing any more. -/
theorem dropSpace (h : Tables F c root spaces clients place s) {i : ℕ} {space dead : AddressSpace}
    (hi : spaces[i]? = some space) (hl : space.ownsRoot = true) (hdead : dead.ownsRoot = false)
    (ho : Owned (kernelPolicy root F) F c (Forest.prune place space.rootPage.addr) clients s')
    (ht : ∀ a, a ≠ space.rootPage.addr → s'.tables a = s.tables a) (hm : s'.isBootstrapping = s.isBootstrapping) :
    Tables F c root (spaces.set i dead) clients (Forest.prune place space.rootPage.addr) s' := by
  have hspace : space ∈ spaces := List.mem_of_getElem? hi
  rcases h.live hspace hl with ⟨hplaced, hne⟩
  have hget {j : ℕ} {a : AddressSpace} (hj : (spaces.set i dead)[j]? = some a) (ha : a.ownsRoot = true) :
      spaces[j]? = some a ∧ j ≠ i := by
    rw [List.getElem?_set] at hj
    split_ifs at hj with hij hlt
    · cases hj
      rw [hdead] at ha
      cases ha
    · exact ⟨hj, fun he => hij he.symm⟩
  have hmem {a : AddressSpace} (hm : a ∈ spaces.set i dead) (ha : a.ownsRoot = true) :
      a ∈ spaces ∧ a.rootPage.addr ≠ space.rootPage.addr := by
    rcases List.mem_iff_getElem?.mp hm with ⟨j, hj⟩
    rcases hget hj ha with ⟨hj, hji⟩
    exact ⟨List.mem_of_getElem? hj, fun he => hji (h.distinct hj hi ha hl he)⟩
  have hkeep {a r : U64} {p : Path} (ha : place a = some (r, p)) (hr : r ≠ space.rootPage.addr) :
      Forest.prune place space.rootPage.addr a = some (r, p) := Forest.prune_eq_some.mpr ⟨ha, hr⟩
  have htab {a r : U64} {p : Path} (ha : place a = some (r, p)) (hr : r ≠ space.rootPage.addr) :
      s'.tables a = s.tables a := by
    apply ht
    rintro rfl
    rw [hplaced] at ha
    cases ha
    exact hr rfl
  exact
    { owned := ho
      rooted := hkeep h.rooted (Ne.symm hne)
      low := by
        intro i3 i2 hi'
        rcases h.low i3 i2 hi' with ⟨pd, a, hpd, hlarge, ha⟩
        exact ⟨pd, a, hkeep hpd (Ne.symm hne), by rw [htab hpd (Ne.symm hne), hlarge], ha⟩
      mode := hm.trans h.mode
      present := by
        intro j hj
        rw [htab h.rooted (Ne.symm hne)]
        exact h.present j hj
      live := by
        intro sp hsp hsl
        rcases hmem hsp hsl with ⟨hsp, hsr⟩
        rcases h.live hsp hsl with ⟨hp, hk⟩
        exact ⟨hkeep hp hsr, hk⟩
      agree := by
        intro sp hsp hsl j hj
        rcases hmem hsp hsl with ⟨hsp, hsr⟩
        rw [htab h.rooted (Ne.symm hne), htab (h.live hsp hsl).1 hsr]
        exact h.agree hsp hsl j hj
      roots := by
        intro a ha
        rcases Forest.prune_eq_some.mp ha with ⟨ha, hne'⟩
        rcases h.roots ha with he | ⟨sp, hsp, hsl, he⟩
        · exact .inl he
        · refine .inr ⟨sp, ?_, hsl, he⟩
          rcases List.mem_iff_getElem?.mp hsp with ⟨j, hj⟩
          have hji : i ≠ j := by
            rintro rfl
            rw [hi] at hj
            cases hj
            exact hne' he.symm
          exact List.mem_of_getElem? (by rw [List.getElem?_set_ne hji, hj])
      distinct := fun hj hj' ha hb he => h.distinct (hget hj ha).1 (hget hj' hb).1 ha hb he }

end Tables
end VenturaOS.Machine
