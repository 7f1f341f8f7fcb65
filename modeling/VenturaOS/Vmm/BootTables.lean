import VenturaOS.Paging.LargePages
import VenturaOS.Vmm.BootPlan

/-!
# The tables the boot builds

While booting, every new table comes from the static pool and stays in place,
so the pool is served to the paths in the order in which they are asked for.
-/
namespace VenturaOS.Vmm
open Library Pmm Paging Memory

/-- The tables below `k` stand at the paths of `T`, and all of them are pool tables. -/
structure Built (k : U64) (F : Finset U64) (c : ℕ) (T : Finset Path) (place : Placement) (s : PageMemory) : Prop where
  owned : Owned (kernelPolicy k F) F c place ∅ s
  mode : s.isBootstrapping = true
  free : s.pmm.freeFrames = F
  only : ∀ {a r p}, place a = some (r, p) → r = k
  tables : ∀ p, (∃ a, place a = some (k, p)) ↔ p ∈ T

section

variable {k a : U64} {F : Finset U64} {c : ℕ} {T : Finset Path} {place : Placement} {s : PageMemory} {p : Path}

/-- As many pool tables are in use as there are paths. -/
theorem Built.index (h : Built k F c T place s) : s.bootstrapIndex = T.card := by
  have hplaced (n : ℕ) (hn : n < s.bootstrapIndex) : ∃ p, place (s.poolTable n) = some (k, p) := by
    have hin := h.owned.inUse (.inr ⟨n, hn, rfl⟩)
    cases hp : place (s.poolTable n) with
    | none => simp [hp] at hin
    | some x =>
      cases x with
      | mk r p => exact ⟨p, by rw [h.only hp]⟩
  rw [← Finset.card_range s.bootstrapIndex]
  apply Finset.card_nbij fun n => ((place (s.poolTable n)).map Prod.snd).getD []
  · intro n hn
    obtain ⟨p, hp⟩ := hplaced n (Finset.mem_range.mp hn)
    simp only [hp, Option.map_some, Option.getD_some]
    exact (h.tables p).mp ⟨_, hp⟩
  · intro n hn m hm he
    have hn' := Finset.mem_range.mp hn
    have hm' := Finset.mem_range.mp hm
    obtain ⟨p, hp⟩ := hplaced n hn'
    obtain ⟨q, hq⟩ := hplaced m hm'
    simp only [hp, hq, Option.map_some, Option.getD_some] at he
    subst he
    have hle := h.owned.pool.index_le
    exact h.owned.pool.inj (by omega) (by omega) (h.owned.forest.place_inj hp hq)
  · intro p hp
    obtain ⟨a, ha⟩ := (h.tables p).mpr hp
    cases h.owned.placed ha with
    | inl hmanaged => exact absurd (h.free ▸ hmanaged.1) hmanaged.2
    | inr hpool =>
      obtain ⟨n, hn, rfl⟩ := hpool
      exact ⟨n, by simpa using hn, by simp [ha]⟩

theorem Built.card_le (h : Built k F c T place s) : T.card ≤ bootstrapTableCount := by
  rw [← h.index]
  exact h.owned.pool.index_le

/-- The parent of a table is a table. -/
theorem Built.parent (h : Built k F c T place s) {i : Fin 512} (hp : p ++ [i] ∈ T) : p ∈ T := by
  obtain ⟨b, hb⟩ := (h.tables _).mpr hp
  obtain ⟨a, ha, -⟩ := h.owned.forest.parent hb
  exact (h.tables p).mp ⟨a, ha⟩

theorem Built.ancestor (h : Built k F c T place s) {q : Path} (hp : p ++ q ∈ T) : p ∈ T := by
  induction q using List.reverseRecOn with
  | nil => simpa using hp
  | append_singleton q i ih =>
    rw [← List.append_assoc] at hp
    exact ih (h.parent hp)

/-- A walk that creates tables while booting, when no large page is in its way. -/
theorem Built.walkCreate (is : Path) (h : Built k F c T place s) (ha : place a = some (k, p))
    (hl : p.length + is.length ≤ 3) (hopen : blocked s.tables a is = false) :
    ∃ place' s', Built k F c (serve bootstrapTableCount T (pathsDown p is)) place' s' ∧
      Grows (kernelPolicy k F) k place place' s s' ∧
      ((∃ b, walkCreate a is s = (.ok b, s') ∧ place' b = some (k, p ++ is)) ∨
        (walkCreate a is s = (.error .frameAllocationFailed, s') ∧
          p ++ is ∉ serve bootstrapTableCount T (pathsDown p is))) := by
  induction is generalizing a p place s T with
  | nil => exact ⟨place, s, h, .refl .., .inl ⟨a, rfl, by rw [List.append_nil, ha]⟩⟩
  | cons i is ih =>
    rw [List.length_cons] at hl
    have hp : p.length < 3 := by omega
    have hpath : p ++ i :: is = p ++ [i] ++ is := List.append_cons p i is
    rw [Paging.walkCreate, getOrCreateTable, pathsDown, hpath]
    by_cases hpres : (s.tables a i).isPresent = true
    · cases hlink : (s.tables a i).link with
      | none => simp [blocked, hlink, hpres] at hopen
      | some b =>
        obtain ⟨-, hsmall, rfl⟩ := PageTableEntry.link_eq_some.mp hlink
        have hb := h.owned.follow ha hp (kernel_owns _ _) hlink
        rw [blocked, hlink] at hopen
        simp only [hpres, if_true, hsmall, Bool.false_eq_true, if_false]
        rw [serve_held ((h.tables _).mp ⟨_, hb⟩)]
        exact ih h hb (by simp; omega) hopen
    · have habs : (s.tables a i).isPresent = false := by simpa using hpres
      have hnew : p ++ [i] ∉ T := by
        intro hmem
        obtain ⟨b, hb⟩ := (h.tables _).mpr hmem
        obtain ⟨a', ha', he⟩ := h.owned.forest.parent hb
        rw [h.owned.forest.place_inj ha' ha, Policy.edge_of_not_present habs] at he
        cases he
      simp only [habs, Bool.false_eq_true, if_false]
      apply h.owned.newTableFrame_cases.elim
      · rintro ⟨he, -, hfull⟩
        have hcard := hfull h.mode
        rw [h.index] at hcard
        rw [he, serve_full hcard]
        exact ⟨place, s, h, .refl .., .inr ⟨rfl, fun hmem => hnew (h.ancestor hmem)⟩⟩
      · rintro ⟨f, s₁, he, ho, hf, hpl, htab, hsame, hpmm, -⟩
        have haf : a ≠ f := by
          rintro rfl
          simp [hpl] at ha
        obtain ⟨ho₂, hg₂⟩ := ho.linkTable hf ha hp (kernel_owns p i) (by rw [htab a haf]; exact habs) (.inr rfl) htab hsame hpmm
        have htab₂ := Owned.linked_tables (s := s₁) (i := i) haf (.set f PageTableFlags.table)
        simp only [he]
        generalize (s₁.writeTable f .zero).writeEntry a i (.set f PageTableFlags.table) = s₂ at *
        have hzero : s₂.tables f = .zero := by rw [htab₂, if_neg (Ne.symm haf), if_pos rfl]
        have hbuilt : Built k F c (insert (p ++ [i]) T) (Function.update place f (some (k, p ++ [i]))) s₂ :=
          { owned := ho₂
            mode := hg₂.boot.mode.trans h.mode
            free := by rw [hg₂.pmm h.mode, h.free]
            only := by
              intro b r q hb
              cases hg₂.fresh hb with
              | inl hold => exact h.only hold
              | inr hfresh => exact hfresh.2.1
            tables := by
              intro q
              rw [Finset.mem_insert, ← h.tables q]
              constructor
              · rintro ⟨b, hb⟩
                by_cases hbf : b = f
                · subst hbf
                  rw [Function.update_self, Option.some.injEq, Prod.mk.injEq] at hb
                  exact .inl hb.2.symm
                · rw [Function.update_of_ne hbf] at hb
                  exact .inr ⟨b, hb⟩
              · rintro (rfl | ⟨b, hb⟩)
                · exact ⟨f, Function.update_self _ _ _⟩
                · exact ⟨b, hg₂.kept hb⟩ }
        have hroom := hbuilt.card_le
        rw [Finset.card_insert_of_notMem hnew] at hroom
        rw [serve_cons (by omega)]
        obtain ⟨place', s', hb', hg', hres⟩ :=
          ih hbuilt (Function.update_self _ _ _) (by simp; omega) (blocked_zero hzero is)
        exact ⟨place', s', hb', hg₂.trans hg', hres⟩

end
end VenturaOS.Vmm
