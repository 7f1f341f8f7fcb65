import VenturaOS.Machine.Destroy
import VenturaOS.Machine.FailedMapping
import VenturaOS.Machine.HeapGrowth
import VenturaOS.Machine.Persistence
import VenturaOS.Process.Lifetime

/-!
# What dropping a process gives back

The drop destroys the address space and nothing else. A process whose threads
were all refused, or had their stacks undone, leaves no trace but tables of
the shared half; the stack of any other thread stays behind for good.
-/
namespace VenturaOS.Machine
open Library Memory Pmm Paging Vmm AddressSpaces Processes

/-- The system around a process: its address space is the last handle. -/
def System.around (y : System) (space : AddressSpace) (k : Kernel) : System :=
  { y with kernel := k, spaces := y.spaces ++ [space] }

structure Alive (info : BootInfo) (y : System) (space : AddressSpace) (place : Placement) (x : Situation) : Prop where
  inv : Inv info place (y.around space x.kernel)
  owns : space.ownsRoot = true
  root : x.kernel.rootPml4 = y.kernel.rootPml4
  space : x.process.addressSpace = space
  state : x.process.state = .created

/-- All that is new are tables below `r` and, in the upper half, below the kernel root. -/
def Tidy (root r : U64) (place place' : Placement) : Prop :=
  ∀ a r' q, place' a = some (r', q) → place a = some (r', q) ∨ r' = r ∨ (r' = root ∧ q.length ≤ 3 ∧ upper q = true)

theorem Tidy.refl (root r : U64) (place : Placement) : Tidy root r place place := fun _ _ _ => Or.inl

theorem Tidy.trans {root r : U64} {place₁ place₂ place₃ : Placement} (h : Tidy root r place₁ place₂)
    (h' : Tidy root r place₂ place₃) : Tidy root r place₁ place₃ := fun a r' q ha =>
  (h' a r' q ha).elim (h a r' q) Or.inr

theorem Tidy.of_private {root r : U64} {place place' : Placement} {s s' : PageMemory}
    (h : PrivateStep r place place' s s') : Tidy root r place place' := fun _ _ _ ha =>
  (h.fresh ha).imp_right fun hnew => Or.inl hnew.1

section Calls

variable {info : BootInfo} {place : Placement} {y : System} {space : AddressSpace} {x : Situation} {k' : Kernel}
  {contextEntry : U64}

theorem Inv.ready (h : Inv info place y) : Ready y.kernel where
  order := h.inOrder
  slots i hup := h.tables.present i (by simp [isShared, kernelPml4Start, hup])
  cursor := h.cursor

theorem stack_size : RegionSize Context.stackSizeBytes := ⟨by decide, by decide, by decide⟩

/-- A region call that fails leaves at most tables of the upper half. -/
theorem Inv.failedRegion (h : Inv info place y) {size : U64} {permissions : VirtPermissions} {purpose : RegionPurpose}
    {e : VmmError} (hrun : allocateAndMapRegion size permissions purpose y.kernel = (.error e, k')) (r : U64) :
    ∃ place', Inv info place' { y with kernel := k' } ∧ Tidy y.kernel.rootPml4.addr r place place' := by
  obtain ⟨place', ho, hs, -, hcur, hk, -, hleaf⟩ :=
    allocateAndMapRegion_cases h.tables.owned h.tables.rooted h.tables.low h.tables.mode rfl h.cursor hrun
  have hout : Heap.SameOutside y.kernel k' := by
    rw [hk]
    exact ⟨rfl, rfl, rfl, rfl⟩
  have hend : Heap.EndOk k'.heap := by
    rw [hk]
    exact h.heapEnd
  refine ⟨place', h.kernelCall ho hs hout hcur hend, fun a r' q ha => ?_⟩
  by_cases hr : r' = y.kernel.rootPml4.addr
  · subst hr
    by_cases hlen : q.length ≤ 3
    · cases hup : upper q with
      | true => exact .inr (.inr ⟨rfl, hlen, rfl⟩)
      | false =>
        -- outside the upper half the same tables are linked
        left
        have hrooted : place' y.kernel.rootPml4.addr = some (y.kernel.rootPml4.addr, []) :=
          hs.kept h.tables.rooted (.inr (Nat.zero_le 3))
        rw [← tableOn_iff ho hrooted kernel_owns hlen, failed_lower h.inOrder h.cursor hrun hlen hup] at ha
        exact (tableOn_iff h.tables.owned h.tables.rooted kernel_owns hlen).mp ha
    · have hfour := ho.length_le ha
      exact .inl ((hleaf e rfl a q (by omega)).mp ha)
  · exact .inl ((hs.fresh ha (.inl hr)).resolve_right fun hnew => hr hnew.1)

theorem newRaw_refused {name : String} {entry arg : U64} {k : Kernel} {c : Thread.Counters}
    (h : entry = 0 ∨ isCanonical entry = false) :
    Thread.newRaw contextEntry name entry arg k c = (.error .invalidEntryPoint, k, c) := by
  unfold Thread.newRaw
  rw [if_pos (by rw [Bool.not_eq_true']; exact h)]

/-- `Process::create_thread` before termination: the entry is refused, the stack is, or the thread gets one. -/
theorem createThread_cases {name : String} {entry arg : U64} (hcur : CursorOk x.kernel.vmm)
    (hstate : x.process.state = .created) {z : Situation} (hz : Call.run contextEntry x (.createThread name entry arg) = z) :
    ((entry = 0 ∨ isCanonical entry = false) ∧ z.process = x.process ∧ z.kernel = x.kernel) ∨
      ¬(entry = 0 ∨ isCanonical entry = false) ∧
        ((∃ e, allocateAndMapRegion Context.stackSizeBytes .kernelData .dynamicKernel x.kernel = (.error e, z.kernel) ∧
            z.process = x.process) ∨
          ∃ region k₁ bytes,
            allocateAndMapRegion Context.stackSizeBytes .kernelData .dynamicKernel x.kernel = (.ok region, k₁) ∧
              z.kernel = { k₁ with bytes := bytes } ∧ z.process.addressSpace = x.process.addressSpace ∧
              z.process.state = .created ∧ z.process.threads.length = x.process.threads.length + 1) := by
  rw [Call.run, Process.createThread, if_neg (by rw [hstate]; decide)] at hz
  by_cases hentry : entry = 0 ∨ isCanonical entry = false
  · left
    rw [newRaw_refused hentry] at hz
    rw [← hz]
    exact ⟨hentry, rfl, rfl⟩
  · right
    refine ⟨hentry, ?_⟩
    generalize hnew : Thread.newRaw contextEntry name entry arg x.kernel x.counters = result at hz
    obtain ⟨created, k', c'⟩ := result
    rcases newRaw_cases hcur hnew with ⟨e, -, -, hbad⟩ | ⟨e, e', rfl, hmap⟩ | ⟨thread, k₁, bytes, rfl, hmap, rfl, -⟩
    · rw [Bool.not_eq_true'] at hbad
      exact absurd hbad hentry
    · rw [← hz]
      exact .inl ⟨e', hmap, rfl⟩
    · rw [← hz]
      exact .inr ⟨_, k₁, bytes, hmap, rfl, rfl, hstate, List.length_append⟩

theorem clean_undone {name : String} {entry arg : U64} (h : ¬(entry = 0 ∨ isCanonical entry = false)) :
    Call.Clean x (.createThread name entry arg) ↔ Undone Context.stackSizeBytes x.kernel := by
  rw [Call.Clean, ← or_assoc, or_iff_right h]

/-- What a call does to the region table is done by the call for a stack, if there is one. -/
theorem run_vmm (hcur : CursorOk x.kernel.vmm) (hstate : x.process.state = .created) (call : Processes.Call) :
    ((call.run contextEntry x).kernel.vmm = x.kernel.vmm ∧ call.Clean x) ∨
      ∃ result k', allocateAndMapRegion Context.stackSizeBytes .kernelData .dynamicKernel x.kernel = (result, k') ∧
        (call.run contextEntry x).kernel.vmm = k'.vmm ∧ (call.Clean x ↔ Undone Context.stackSizeBytes x.kernel) := by
  cases call with
  | createThread name entry arg =>
    generalize hz : Call.run contextEntry x (.createThread name entry arg) = z
    rcases createThread_cases hcur hstate hz with ⟨hentry, -, hk⟩ | ⟨hentry, ⟨e, hmap, -⟩ | ⟨region, k₁, bytes, hmap, hk, -⟩⟩
    · left
      rw [hk]
      exact ⟨rfl, hentry.imp_right Or.inl⟩
    · exact .inr ⟨_, _, hmap, rfl, clean_undone hentry⟩
    · refine .inr ⟨_, _, hmap, ?_, clean_undone hentry⟩
      rw [hk]
  | mapPage v phys flags =>
    left
    refine ⟨?_, trivial⟩
    change (AddressSpaces.mapPage x.process.addressSpace v phys flags x.kernel).2.vmm = _
    unfold AddressSpaces.mapPage
    split_ifs
    · rfl
    · split <;> rfl
  | unmapPage v =>
    left
    refine ⟨?_, trivial⟩
    change (AddressSpaces.unmapPage x.process.addressSpace v x.kernel).2.vmm = _
    unfold AddressSpaces.unmapPage
    split_ifs
    · rfl
    · split <;> rfl
  | activate =>
    left
    refine ⟨?_, trivial⟩
    change (AddressSpaces.activate x.process.addressSpace x.kernel).vmm = _
    unfold AddressSpaces.activate
    split_ifs <;> rfl

/-- Whatever is done with the process, it stays alive, and clean calls leave nothing behind. -/
theorem Alive.call (h : Alive info y space place x) (call : Processes.Call) :
    ∃ place', Alive info y space place' (call.run contextEntry x) ∧
      (call.Clean x → Tidy y.kernel.rootPml4.addr space.rootPage.addr place place' ∧
        (call.run contextEntry x).process.threads = x.process.threads) := by
  have hm : space ∈ (y.around space x.kernel).spaces := List.mem_append_right _ List.mem_cons_self
  have hnz := (h.inv.tables.live_frame hm h.owns).2.2
  have hspace := h.space
  cases call with
  | createThread name entry arg =>
    generalize hz : Call.run contextEntry x (.createThread name entry arg) = z
    rcases createThread_cases h.inv.cursor h.state hz with
      ⟨-, hp, hk⟩ | ⟨hentry, ⟨e, hmap, hp⟩ | ⟨region, k₁, bytes, hmap, hk, hsp, hst, -⟩⟩
    · refine ⟨place, ⟨?_, h.owns, ?_, ?_, ?_⟩, fun _ => ⟨.refl _ _ _, by rw [hp]⟩⟩
      · rw [hk]
        exact h.inv
      · rw [hk]
        exact h.root
      · rw [hp]
        exact h.space
      · rw [hp]
        exact h.state
    · obtain ⟨place', hinv, htidy⟩ := Inv.failedRegion h.inv hmap space.rootPage.addr
      have hroot := (allocateAndMapRegion_outside hmap).1
      refine ⟨place', ⟨hinv, h.owns, hroot.trans h.root, ?_, ?_⟩, fun _ => ⟨?_, by rw [hp]⟩⟩
      · rw [hp]
        exact h.space
      · rw [hp]
        exact h.state
      · rw [← h.root]
        exact htidy
    · obtain ⟨place', hinv, -⟩ := Inv.mapRegion h.inv hmap
      have hroot := (allocateAndMapRegion_outside hmap).1
      refine ⟨place', ⟨?_, h.owns, ?_, hsp.trans h.space, hst⟩, fun hclean => ?_⟩
      · rw [hk]
        exact ⟨hinv.tables, hinv.nonnull, hinv.handles, hinv.clients, hinv.regions, hinv.cursor, hinv.heapEnd, hinv.active⟩
      · rw [hk]
        exact hroot.trans h.root
      · obtain ⟨⟨e, he⟩, -⟩ := ((clean_undone hentry).mp hclean).regions h.inv.ready stack_size hmap
        cases he
  | mapPage v phys flags =>
    obtain ⟨place', mem, he, ho, hs⟩ := Inv.mapPage_private h.inv hm (fun _ => hnz) phys flags
    have hrun : Call.run contextEntry x (.mapPage v phys flags) = { x with kernel := { x.kernel with mem := mem } } := by
      rw [Call.run, hspace]
      exact congrArg (fun k => Situation.mk x.process k x.counters) he
    rw [hrun]
    exact ⟨place', ⟨Inv.privateCall h.inv ho hs, h.owns, h.root, h.space, h.state⟩, fun _ => ⟨.of_private hs, rfl⟩⟩
  | unmapPage v =>
    obtain ⟨mem, he, ho, hs⟩ := Inv.unmapPage_private (v := v) h.inv hm fun _ => hnz
    have hrun : Call.run contextEntry x (.unmapPage v) = { x with kernel := { x.kernel with mem := mem } } := by
      rw [Call.run, hspace]
      exact congrArg (fun k => Situation.mk x.process k x.counters) he
    rw [hrun]
    exact ⟨place, ⟨Inv.privateCall h.inv ho hs, h.owns, h.root, h.space, h.state⟩, fun _ => ⟨.of_private hs, rfl⟩⟩
  | activate =>
    have hinv := Inv.activate h.inv hm
    have hroot : (AddressSpaces.activate space x.kernel).rootPml4 = x.kernel.rootPml4 := by
      unfold AddressSpaces.activate
      split_ifs <;> rfl
    rw [Call.run, hspace]
    exact ⟨place, ⟨hinv, h.owns, hroot.trans h.root, h.space, h.state⟩, fun _ => ⟨.refl _ _ _, rfl⟩⟩

theorem Alive.run (h : Alive info y space place x) (calls : List Processes.Call) :
    ∃ place', Alive info y space place' (x.after contextEntry calls) ∧
      (CleanRun contextEntry x calls → Tidy y.kernel.rootPml4.addr space.rootPage.addr place place' ∧
        (x.after contextEntry calls).process.threads = x.process.threads ∧
        (x.after contextEntry calls).kernel.vmm.regions.Perm x.kernel.vmm.regions) := by
  induction calls generalizing x place with
  | nil => exact ⟨place, h, fun _ => ⟨.refl _ _ _, rfl, .refl _⟩⟩
  | cons call calls ih =>
    obtain ⟨place₁, h₁, hclean₁⟩ := h.call call
    obtain ⟨place₂, h₂, hclean₂⟩ := ih h₁
    refine ⟨place₂, h₂, fun hclean => ?_⟩
    obtain ⟨htidy₁, hthreads₁⟩ := hclean₁ hclean.1
    obtain ⟨htidy₂, hthreads₂, hregions₂⟩ := hclean₂ hclean.2
    refine ⟨htidy₁.trans htidy₂, hthreads₂.trans hthreads₁, hregions₂.trans ?_⟩
    rcases run_vmm h.inv.cursor h.state call with ⟨hsame, -⟩ | ⟨result, k', hmap, hvmm, hundone⟩
    · rw [hsame]
    · rw [hvmm]
      exact ((hundone.mp hclean.1).regions h.inv.ready stack_size hmap).2

/-- An entry that is not one of the old ones, behind the cursor. -/
def LeftBehind (old now : VirtualMemoryManager) : Prop :=
  ∃ r ∈ now.regions, r ∉ old.regions ∧ r.start.addr.toNat < now.nextDynamicAddr.toNat

/-- The old entries from the cursor on are still there. -/
def Ahead (old now : VirtualMemoryManager) : Prop :=
  ∀ r ∈ old.regions, now.nextDynamicAddr.toNat ≤ r.start.addr.toNat → r ∈ now.regions

/-- One call: what is left behind stays, and a call that is not clean leaves its stack's entry. -/
theorem Alive.leaves (h : Alive info y space place x) (call : Processes.Call) {old : VirtualMemoryManager}
    (ha : Ahead old x.kernel.vmm) :
    Ahead old (call.run contextEntry x).kernel.vmm ∧
      (LeftBehind old x.kernel.vmm ∨ ¬call.Clean x → LeftBehind old (call.run contextEntry x).kernel.vmm) := by
  rcases run_vmm h.inv.cursor h.state call with
    ⟨hsame, hclean⟩ | ⟨result, k', hmap, hvmm, hundone⟩
  · rw [hsame]
    exact ⟨ha, fun hleft => hleft.resolve_right fun hn => hn hclean⟩
  · rw [hvmm, hundone]
    have hready : Ready x.kernel := Inv.ready h.inv
    obtain ⟨hforward, hstill⟩ := cursor_forward hready stack_size hmap
    constructor
    · intro r hr hle
      by_cases hsame : k'.vmm.nextDynamicAddr = x.kernel.vmm.nextDynamicAddr
      · rw [hstill hsame] at hle ⊢
        exact ha r hr hle
      · have hmoved : k'.vmm.nextDynamicAddr.toNat ≠ x.kernel.vmm.nextDynamicAddr.toNat := fun he =>
          hsame (BitVec.eq_of_toNat_eq he)
        have hne : r.start.addr ≠ x.kernel.vmm.nextDynamicAddr := by
          intro he
          rw [he] at hle
          omega
        exact entry_stays (ha r hr (hforward.trans hle)) hne hready stack_size hmap
    · rintro (⟨r, hr, hnew, hlt⟩ | hn)
      · have hne : r.start.addr ≠ x.kernel.vmm.nextDynamicAddr := by
          intro he
          rw [he] at hlt
          omega
        exact ⟨r, entry_stays hr hne hready stack_size hmap, hnew, hlt.trans_le hforward⟩
      · obtain ⟨hin, hout, hcursor⟩ := entry_left hn hready stack_size hmap
        refine ⟨_, hin, fun hold => hout (ha _ hold le_rfl), ?_⟩
        rw [hcursor]
        exact Nat.lt_add_of_pos_right (by decide)

/-- After a call that is not clean the region table is never the old one again. -/
theorem Alive.left (h : Alive info y space place x) (calls : List Processes.Call) {old : VirtualMemoryManager}
    (ha : Ahead old x.kernel.vmm) (hleft : LeftBehind old x.kernel.vmm ∨ ¬CleanRun contextEntry x calls) :
    LeftBehind old (x.after contextEntry calls).kernel.vmm := by
  induction calls generalizing x place with
  | nil => exact hleft.resolve_right fun hn => hn trivial
  | cons call calls ih =>
    obtain ⟨place', h', -⟩ := h.call call
    obtain ⟨ha', hstep⟩ := h.leaves call ha
    refine ih h' ha' ?_
    rcases hleft with hleft | hn
    · exact .inl (hstep (.inl hleft))
    · by_cases hclean : call.Clean x
      · exact .inr fun hrest => hn ⟨hclean, hrest⟩
      · exact .inl (hstep (.inr hclean))

theorem destroy_vmm (space : AddressSpace) (k : Kernel) : (AddressSpaces.destroy space k).2.vmm = k.vmm := by
  unfold AddressSpaces.destroy AddressSpaces.activate
  split_ifs <;> rfl

theorem Alive.drop_eq (h : Alive info y space place x) :
    x.process.terminate.drop x.kernel = (AddressSpaces.destroy space x.kernel).2 := by
  rw [Process.drop, ← h.space]
  rfl

theorem Inv.alive {name : String} {pid pid' : ℕ} {p : Process} {k : Kernel} {c : Thread.Counters}
    (h : Inv info place y) (hnew : Process.new name pid y.kernel = (.ok p, k, pid')) :
    ∃ place', Alive info y p.addressSpace place' ⟨p, k, c⟩ ∧
      Forest.prune place' p.addressSpace.rootPage.addr = place ∧ p.threads = [] ∧ k.vmm = y.kernel.vmm := by
  obtain ⟨hspace, hthreads, hstate⟩ := Process.new_ok hnew
  obtain ⟨place', hinv, howns, hprune, -⟩ := h.newSpace hspace
  have hout : k.rootPml4 = y.kernel.rootPml4 ∧ k.vmm = y.kernel.vmm := by
    unfold AddressSpaces.new at hspace
    generalize allocatePage y.kernel.mem = taken at hspace
    obtain ⟨page | page, mem⟩ := taken
    · cases hspace
    · rw [← (Prod.mk.inj hspace).2]
      exact ⟨rfl, rfl⟩
  exact ⟨place', ⟨hinv, howns, hout.1, rfl, hstate⟩, hprune, hthreads, hout.2⟩

/-- Frames that do not come back are tables of the upper half. -/
theorem Alive.frames {place₁ : Placement} (h : Alive info y space place x) {place₀ : Placement} (h₀ : Inv info place₀ y)
    (hprune : Forest.prune place₁ space.rootPage.addr = place₀)
    (htidy : Tidy y.kernel.rootPml4.addr space.rootPage.addr place₁ place) {f : U64}
    (hf : f ∈ y.kernel.mem.pmm.freeFrames) :
    f ∈ (AddressSpaces.destroy space x.kernel).2.mem.pmm.freeFrames ∨
      SharedTable (AddressSpaces.destroy space x.kernel).2 f := by
  have hm : space ∈ (y.around space x.kernel).spaces := List.mem_append_right _ List.mem_cons_self
  have hi : (y.around space x.kernel).spaces[y.spaces.length]? = some space := by simp [System.around]
  have hne := (h.inv.tables.live hm h.owns).2
  have hroot := (destroy_outside space x.kernel).1
  obtain ⟨T, -, ho⟩ := Inv.exactTeardown h.inv hi h.owns
  obtain ⟨hF, hvacant, hclient⟩ := (mem_freeFrames_iff h₀.tables.owned).mp hf
  cases hx : Forest.prune place space.rootPage.addr f with
  | none => exact .inl ((mem_freeFrames_iff ho).mpr ⟨hF, hx, hclient⟩)
  | some at' =>
    right
    obtain ⟨r, q⟩ := at'
    obtain ⟨hplaced, hr⟩ := Forest.prune_eq_some.mp hx
    rcases htidy f r q hplaced with hold | he | ⟨rfl, hlen, hup⟩
    · have hstill : Forest.prune place₁ space.rootPage.addr f = some (r, q) := Forest.prune_eq_some.mpr ⟨hold, hr⟩
      rw [hprune, hvacant] at hstill
      cases hstill
    · exact absurd he hr
    · refine ⟨q, hlen, hup, ?_⟩
      rw [hroot]
      refine (tableOn_iff ho (Forest.prune_eq_some.mpr ⟨h.inv.tables.rooted, hne.symm⟩) kernel_owns hlen).mpr ?_
      change _ = some (x.kernel.rootPml4.addr, q)
      rw [h.root]
      exact hx

theorem Alive.restored {place₁ : Placement} (h : Alive info y space place x) {place₀ : Placement} (h₀ : Inv info place₀ y)
    (hprune : Forest.prune place₁ space.rootPage.addr = place₀)
    (htidy : Tidy y.kernel.rootPml4.addr space.rootPage.addr place₁ place) (hthreads : x.process.threads = [])
    (hregions : x.kernel.vmm.regions.Perm y.kernel.vmm.regions) :
    Restored y.kernel (x.process.terminate.drop x.kernel) x.process.terminate.threads := by
  rw [h.drop_eq]
  constructor
  · rw [destroy_vmm]
    exact hregions.length_eq
  · rw [destroy_vmm]
    exact fun r => hregions.mem_iff
  · intro t ht
    rw [Process.terminate, hthreads] at ht
    cases ht
  · exact fun f hf => h.frames h₀ hprune htidy hf

/-- With an entry left behind the drop does not restore the table. -/
theorem Alive.not_restored (h : Alive info y space place x) (hleft : LeftBehind y.kernel.vmm x.kernel.vmm)
    (threads : List Thread.KernelThread) : ¬Restored y.kernel (x.process.terminate.drop x.kernel) threads := by
  intro hrestored
  obtain ⟨r, hr, hnew, -⟩ := hleft
  apply hnew
  rw [← hrestored.regions, h.drop_eq, destroy_vmm]
  exact hr

end Calls

section Drop

variable {info : BootInfo} {y : System} {name : String} {pid pid' : ℕ} {p : Process} {k : Kernel} {c : Thread.Counters}
  {contextEntry : U64} {calls : List Processes.Call}

theorem unclean_not_restored (hload : info.Loaded) (hy : Reachable info y)
    (hnew : Process.new name pid y.kernel = (.ok p, k, pid')) (hn : ¬CleanRun contextEntry ⟨p, k, c⟩ calls)
    (threads : List Thread.KernelThread) :
    ¬Restored y.kernel ((Situation.after contextEntry ⟨p, k, c⟩ calls).process.terminate.drop
      (Situation.after contextEntry ⟨p, k, c⟩ calls).kernel) threads := by
  obtain ⟨place₀, h₀⟩ := hy.inv hload
  obtain ⟨place₁, h₁, -, -, hvmm⟩ := h₀.alive hnew
  have hahead : Ahead y.kernel.vmm k.vmm := by
    rw [hvmm]
    exact fun r hr _ => hr
  obtain ⟨place, h, -⟩ := h₁.run calls
  exact h.not_restored (h₁.left calls hahead (.inr hn)) threads

/-- The drop gives back what the process took exactly if each of its threads was refused or undone. -/
theorem drop_restores_iff (hload : info.Loaded) (hy : Reachable info y)
    (hnew : Process.new name pid y.kernel = (.ok p, k, pid')) :
    Restored y.kernel
        ((Situation.after contextEntry ⟨p, k, c⟩ calls).process.terminate.drop
          (Situation.after contextEntry ⟨p, k, c⟩ calls).kernel)
        (Situation.after contextEntry ⟨p, k, c⟩ calls).process.terminate.threads ↔
      CleanRun contextEntry ⟨p, k, c⟩ calls := by
  constructor
  · intro hrestored
    by_contra hn
    exact unclean_not_restored hload hy hnew hn _ hrestored
  · intro hclean
    obtain ⟨place₀, h₀⟩ := hy.inv hload
    obtain ⟨place₁, h₁, hprune, hthreads, hvmm⟩ := h₀.alive hnew
    obtain ⟨place, h, hrun⟩ := h₁.run calls
    obtain ⟨htidy, hsame, hregions⟩ := hrun hclean
    refine h.restored h₀ hprune htidy (hsame.trans hthreads) (hregions.trans ?_)
    change k.vmm.regions.Perm _
    rw [hvmm]

/-- Right after a boot in low memory the first stack is mapped, also when an address space was made before. -/
theorem first_stack (hload : info.Loaded) (hlow : info.Low) (hclear : info.Clear Context.stackSizeBytes) {k₀ : Kernel}
    (hvmm : Vmm.init info info.kernel = some k₀) (hnew : Process.new name pid k₀ = (.ok p, k, pid'))
    (hfree : 8 ≤ k.mem.pmm.freeFrames.card) :
    ∃ region k', allocateAndMapRegion Context.stackSizeBytes .kernelData .dynamicKernel k = (.ok region, k') := by
  have hboot := init_booted hload hvmm
  obtain ⟨place₀, h₀, -⟩ := Inv.start hboot
  obtain ⟨place, hb, hflat⟩ := hboot.tables
  obtain ⟨place₁, h₁, -, -, hsame⟩ := h₀.alive (c := ⟨1, 1⟩) hnew
  obtain ⟨place₂, held₂, ho, hplace⟩ := forget_leaves h₁.inv.tables.owned
  have hroot : place₂ k.rootPml4.addr = some (k.rootPml4.addr, []) := (hplace _ _ _).mpr ⟨h₁.inv.tables.rooted, by simp⟩
  have hready : Ready k := Inv.ready h₁.inv
  have hcursor : k.vmm.nextDynamicAddr = dynamicVirtStart := by
    rw [hsame]
    exact hboot.cursor
  obtain ⟨vmm', hres⟩ := reserve_first hclear hvmm hboot.cursor (by decide) (by decide) (by decide) .kernelData .dynamicKernel
  rw [show k₀.vmm = k.vmm from hsame.symm] at hres
  have hpages : UpperPages dynamicVirtStart (Context.stackSizeBytes.toNat / pageSize) := by
    have hend : k.vmm.nextDynamicAddr.toNat + Context.stackSizeBytes.toNat ≤ dynamicVirtEnd.toNat := by
      rw [hcursor]
      decide
    have hupper := upperPages_reserved hready.cursor (by decide) hend
    rwa [hcursor] at hupper
  have hvacant : ∀ v ∈ pagesFrom dynamicVirtStart (Context.stackSizeBytes.toNat / pageSize),
      reach k.mem.tables k.rootPml4.addr v.path = none := by
    intro v hv
    have hwalk := h₀.walks_of_tables (fun a q ha => h₀.newSpace_tables (Process.new_ok hnew).1 ha) v
    change reach k.mem.tables k₀.rootPml4.addr v.path = reach k₀.mem.tables k₀.rootPml4.addr v.path at hwalk
    have hkernel : k.rootPml4 = k₀.rootPml4 := h₁.root
    rw [hkernel, hwalk]
    exact Flat.vacant (hflat hlow) hb.owned hb.root (kernel_slot _) (hpages.page hv).2.2
  obtain ⟨k', hmap, -⟩ := allocateAndMapRegion_ok ho hroot h₁.inv.tables.mode rfl hready.slots hready.cursor hres
    stack_size.small hvacant hfree
  exact ⟨_, k', hmap⟩

end Drop

section Sample

theorem sample_process : ∃ k₀ p k, Vmm.init sampleInfo sampleInfo.kernel = some k₀ ∧
    Process.new "worker" 1 k₀ = (.ok p, k, 2) ∧ 8 ≤ k.mem.pmm.freeFrames.card := by
  obtain ⟨k₀, hvmm⟩ := sampleInfo_boots
  have hboot := init_booted sampleInfo_loaded hvmm
  obtain ⟨place, h, -⟩ := Inv.start hboot
  have hfree := hboot.free
  rw [sampleInfo_frames] at hfree
  obtain ⟨space, k, hspace, hcard⟩ :=
    h.newSpace_ok (Finset.card_pos.mp (by change 0 < k₀.mem.pmm.freeFrames.card; omega))
  change AddressSpaces.new k₀ = _ at hspace
  change k₀.mem.pmm.freeFrames.card = _ at hcard
  refine ⟨k₀, ⟨1, "worker", .created, [], space⟩, k, hvmm, ?_, by omega⟩
  rw [Process.new, hspace]

/-- A thread is refused, a page is mapped, and the process is dropped. -/
theorem drop_restores_iff_sample : ∃ y p k x, Reachable sampleInfo y ∧ Process.new "worker" 1 y.kernel = (.ok p, k, 2) ∧
    x = Situation.after 0x300000 ⟨p, k, ⟨1, 1⟩⟩
      [.createThread "idle" 0 0, .mapPage ⟨0x8000000000⟩ ⟨0x200000⟩ .table, .activate] ∧
    Restored y.kernel (x.process.terminate.drop x.kernel) x.process.terminate.threads := by
  obtain ⟨k₀, p, k, hvmm, hnew, -⟩ := sample_process
  have hy : Reachable sampleInfo (.start k₀) := ⟨k₀, [], hvmm, .nil _⟩
  refine ⟨.start k₀, p, k, _, hy, hnew, rfl, (drop_restores_iff sampleInfo_loaded hy hnew).mpr ?_⟩
  exact ⟨.inl rfl, trivial, trivial, trivial⟩

/-- One thread that is created: its stack outlives the process. -/
theorem stack_left_behind : ∃ y p k x, Reachable sampleInfo y ∧ Process.new "worker" 1 y.kernel = (.ok p, k, 2) ∧
    x = Situation.after 0x300000 ⟨p, k, ⟨1, 1⟩⟩ [.createThread "main" 0x400000 0] ∧ x.process.threads.length = 1 ∧
    ¬Restored y.kernel (x.process.terminate.drop x.kernel) x.process.terminate.threads := by
  obtain ⟨k₀, p, k, hvmm, hnew, hfree⟩ := sample_process
  have hy : Reachable sampleInfo (.start k₀) := ⟨k₀, [], hvmm, .nil _⟩
  obtain ⟨place₀, h₀⟩ := hy.inv sampleInfo_loaded
  obtain ⟨place, h, -, hthreads, -⟩ := Inv.alive (c := ⟨1, 1⟩) h₀ hnew
  obtain ⟨region, k', hmap⟩ := first_stack sampleInfo_loaded sampleInfo_low ⟨by decide, by decide⟩ hvmm hnew hfree
  have hentry : ¬((0x400000 : U64) = 0 ∨ isCanonical 0x400000 = false) := by decide
  have hunclean : ¬Call.Clean ⟨p, k, ⟨1, 1⟩⟩ (.createThread "main" 0x400000 0) := by
    rw [clean_undone hentry]
    intro hundone
    obtain ⟨⟨e, he⟩, -⟩ := hundone.regions (Inv.ready h.inv) stack_size hmap
    cases he
  have hrun : ¬CleanRun 0x300000 ⟨p, k, ⟨1, 1⟩⟩ [.createThread "main" 0x400000 0] := fun hclean => hunclean hclean.1
  refine ⟨.start k₀, p, k, _, hy, hnew, rfl, ?_, unclean_not_restored sampleInfo_loaded hy hnew hrun _⟩
  generalize hz : Situation.after 0x300000 ⟨p, k, ⟨1, 1⟩⟩ [.createThread "main" 0x400000 0] = z
  rcases createThread_cases h.inv.cursor h.state hz with ⟨hbad, -⟩ | ⟨-, ⟨e, hfails, -⟩ | ⟨_, _, _, -, -, -, -, hcount⟩⟩
  · exact absurd hbad hentry
  · rw [hmap] at hfails
    cases hfails
  · rw [hcount]
    change p.threads.length + 1 = 1
    rw [hthreads]
    rfl

end Sample
end VenturaOS.Machine
