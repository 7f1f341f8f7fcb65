import VenturaOS.Heap.Freeing
import VenturaOS.Heap.Tables

/-!
# Payloads in use

Where the used blocks of a list stand, and that every heap call leaves them
and their payloads in place. Blocks are located by their distance from the
start of the heap.
-/
namespace VenturaOS.Heap
open Library Memory Vmm

/-- Block `b` stands `o` bytes behind the start of the list. -/
def At (l : List Block) (o : ℕ) (b : Block) : Prop := ∃ l₁ l₂, l = l₁ ++ b :: l₂ ∧ total l₁ = o

section Places

variable {l l' l₁ l₂ mid : List Block} {o o' : ℕ} {b b' : Block}

theorem at_nil : ¬ At [] o b := by
  rintro ⟨l₁, l₂, he, -⟩
  simp at he

theorem at_append : At (l ++ l') o b ↔ At l o b ∨ ∃ o', At l' o' b ∧ o = total l + o' := by
  constructor
  · rintro ⟨l₁, l₂, he, rfl⟩
    rcases List.append_eq_append_iff.mp he with ⟨r, rfl, hr⟩ | ⟨r, rfl, hr⟩
    · exact .inr ⟨total r, ⟨r, l₂, hr, rfl⟩, total_append _ _⟩
    · cases r with
      | nil =>
        refine .inr ⟨0, ⟨[], l₂, by simpa using hr.symm, rfl⟩, by simp⟩
      | cons c r =>
        rw [List.cons_append] at hr
        rcases List.cons.inj hr with ⟨rfl, -⟩
        exact .inl ⟨l₁, r, rfl, rfl⟩
  · rintro (⟨l₁, l₂, rfl, rfl⟩ | ⟨o', ⟨l₁, l₂, rfl, rfl⟩, rfl⟩)
    · exact ⟨l₁, l₂ ++ l', by simp, rfl⟩
    · exact ⟨l ++ l₁, l₂, by simp, by simp⟩

theorem at_cons : At (b' :: l) o b ↔ (b = b' ∧ o = 0) ∨ ∃ o', At l o' b ∧ o = b'.span + o' := by
  have h : At ([b'] ++ l) o b ↔ At [b'] o b ∨ ∃ o', At l o' b ∧ o = total [b'] + o' := at_append
  rw [List.singleton_append, total_cons, total_nil, Nat.add_zero] at h
  rw [h]
  refine or_congr_left ⟨?_, ?_⟩
  · rintro ⟨l₁, l₂, he, rfl⟩
    cases l₁ with
    | nil => exact ⟨(List.cons.inj he).1.symm, rfl⟩
    | cons c l₁ => simp at he
  · rintro ⟨rfl, rfl⟩
    exact ⟨[], [], rfl, rfl⟩

theorem At.mem (h : At l o b) : b ∈ l := by
  rcases h with ⟨l₁, l₂, rfl, -⟩
  simp

theorem At.bounds (h : At l o b) : o + 32 + b.size ≤ total l := by
  rcases h with ⟨l₁, l₂, rfl, rfl⟩
  rw [total_append, total_cons, Block.span, headerSize]
  omega

theorem At.apart (h : At l o b) (h' : At l o' b') :
    (o = o' ∧ b = b') ∨ o + 32 + b.size ≤ o' ∨ o' + 32 + b'.size ≤ o := by
  rcases h with ⟨l₁, l₂, rfl, rfl⟩
  rcases at_append.mp h' with hfront | ⟨x, hrest, rfl⟩
  · exact .inr (.inr hfront.bounds)
  · rcases at_cons.mp hrest with ⟨rfl, rfl⟩ | ⟨x, -, rfl⟩
    · exact .inl ⟨rfl, rfl⟩
    · refine .inr (.inl ?_)
      rw [Block.span, headerSize]
      omega

theorem At.payload_not_header {a y : ℕ} (h : At l o b) (hy : a + o + 32 ≤ y) (hlt : y < a + o + 32 + b.size) :
    ¬ InHeader a l y := by
  rcases h with ⟨l₁, l₂, rfl, rfl⟩
  exact Heap.payload_not_header hy hlt

/-- Replacing a piece by one of the same length leaves the blocks around it in place. -/
theorem At.replace {mid' : List Block} (h : At (l₁ ++ (mid ++ l₂)) o b) (ht : total mid' = total mid) :
    At (l₁ ++ (mid' ++ l₂)) o b ∨ ∃ o', At mid o' b ∧ o = total l₁ + o' := by
  rcases at_append.mp h with hfront | ⟨x, hrest, rfl⟩
  · exact .inl (at_append.mpr (.inl hfront))
  · rcases at_append.mp hrest with hmid | ⟨z, hback, rfl⟩
    · exact .inr ⟨x, hmid, rfl⟩
    · exact .inl (at_append.mpr (.inr ⟨_, at_append.mpr (.inr ⟨z, hback, rfl⟩), by rw [ht]⟩))

theorem not_used_of_free {n : ℕ} (h : ∀ b ∈ l, b.free = true) : ¬ At l o ⟨n, false⟩ := fun hat => by
  have := h _ hat.mem
  cases this

theorem At.taken {n m : ℕ} (req : ℕ) (h : At (l₁ ++ ⟨n, true⟩ :: l₂) o ⟨m, false⟩) :
    At (l₁ ++ (taken n req ++ l₂)) o ⟨m, false⟩ := by
  have hlist : l₁ ++ ⟨n, true⟩ :: l₂ = l₁ ++ ([⟨n, true⟩] ++ l₂) := rfl
  rw [hlist] at h
  rcases h.replace (taken_total n req) with hkept | ⟨x, hmid, -⟩
  · exact hkept
  · exact absurd hmid (not_used_of_free (by simp))

/-- Only the block handed out is newly used. -/
theorem At.of_taken {n m req : ℕ} (h : At (l₁ ++ (Heap.taken n req ++ l₂)) o ⟨m, false⟩) :
    o = total l₁ ∨ At (l₁ ++ ⟨n, true⟩ :: l₂) o ⟨m, false⟩ := by
  have ht : total [⟨n, true⟩] = total (Heap.taken n req) := (taken_total n req).symm
  rcases h.replace ht with hkept | ⟨x, hmid, rfl⟩
  · exact .inr hkept
  · refine .inl ?_
    unfold Heap.taken at hmid
    split_ifs at hmid with hsplit
    · rcases at_cons.mp hmid with ⟨-, rfl⟩ | ⟨z, hrest, -⟩
      · rfl
      · exact absurd hrest (not_used_of_free (by simp))
    · rcases at_cons.mp hmid with ⟨-, rfl⟩ | ⟨z, hrest, -⟩
      · rfl
      · exact absurd hrest at_nil

theorem at_taken (l₁ l₂ : List Block) {n req : ℕ} (hreq : req ≤ n) :
    ∃ m, req ≤ m ∧ At (l₁ ++ (Heap.taken n req ++ l₂)) (total l₁) ⟨m, false⟩ := by
  unfold Heap.taken
  split_ifs with hsplit
  · exact ⟨req, le_rfl, l₁, _, rfl, rfl⟩
  · exact ⟨n, hreq, l₁, _, rfl, rfl⟩

theorem At.appended {n m : ℕ} (h : At (l ++ [b]) o ⟨m, false⟩) : At (appended l b n) o ⟨m, false⟩ := by
  unfold Heap.appended
  split_ifs with hfree
  · rcases at_append.mp h with hfront | ⟨x, hlast, rfl⟩
    · exact at_append.mpr (.inl hfront)
    · exact absurd hlast (not_used_of_free (by simpa using hfree))
  · have hlist : l ++ [b, ⟨n, true⟩] = (l ++ [b]) ++ [⟨n, true⟩] := by simp
    rw [hlist]
    exact at_append.mpr (.inl h)

theorem At.of_appended {n m : ℕ} (h : At (Heap.appended l b n) o ⟨m, false⟩) : At (l ++ [b]) o ⟨m, false⟩ := by
  unfold Heap.appended at h
  split_ifs at h with hfree
  · rcases at_append.mp h with hfront | ⟨x, hlast, rfl⟩
    · exact at_append.mpr (.inl hfront)
    · exact absurd hlast (not_used_of_free (by simp))
  · have hlist : l ++ [b, ⟨n, true⟩] = (l ++ [b]) ++ [⟨n, true⟩] := by simp
    rw [hlist] at h
    rcases at_append.mp h with hfront | ⟨x, hlast, rfl⟩
    · exact hfront
    · exact absurd hlast (not_used_of_free (by simp))

/-- Freeing a block moves no other used one. -/
theorem At.merged {n m : ℕ} (h : At (l₁ ++ ⟨n, false⟩ :: l₂) o ⟨m, false⟩) (hm : Merged l₁ n l₂ l')
    (hne : o ≠ total l₁) : At l' o ⟨m, false⟩ := by
  rcases hm.shape with ⟨l₁', post, pre, l₂', rfl, rfl, hpost, hpre, -, -, rfl⟩
  have hlist : (l₁' ++ post) ++ ⟨n, false⟩ :: (pre ++ l₂') = l₁' ++ ((post ++ ⟨n, false⟩ :: pre) ++ l₂') := by simp
  rw [hlist] at h
  have ht : total [⟨total post + (n + total pre), true⟩] = total (post ++ ⟨n, false⟩ :: pre) := by
    simp only [total_append, total_cons, total_nil, Block.span]
    omega
  rcases h.replace ht with hkept | ⟨x, hmid, rfl⟩
  · exact hkept
  · rcases at_append.mp hmid with hin | ⟨z, hrest, rfl⟩
    · exact absurd hin (not_used_of_free hpost)
    · rcases at_cons.mp hrest with ⟨-, rfl⟩ | ⟨u, hin, -⟩
      · exact absurd (by rw [total_append]; omega) hne
      · exact absurd hin (not_used_of_free hpre)

/-- The freed block is used no more, and no other block is newly used. -/
theorem At.of_merged {n m : ℕ} (h : At l' o ⟨m, false⟩) (hm : Merged l₁ n l₂ l') :
    o ≠ total l₁ ∧ At (l₁ ++ ⟨n, false⟩ :: l₂) o ⟨m, false⟩ := by
  rcases hm.shape with ⟨l₁', post, pre, l₂', rfl, rfl, -, -, -, -, rfl⟩
  have hlist : (l₁' ++ post) ++ ⟨n, false⟩ :: (pre ++ l₂') = l₁' ++ ((post ++ ⟨n, false⟩ :: pre) ++ l₂') := by simp
  have ht : total (post ++ ⟨n, false⟩ :: pre) = total [⟨total post + (n + total pre), true⟩] := by
    simp only [total_append, total_cons, total_nil, Block.span]
    omega
  have hmid : At (l₁' ++ ⟨total post + (n + total pre), true⟩ :: l₂') (total l₁')
      ⟨total post + (n + total pre), true⟩ := ⟨l₁', l₂', rfl, rfl⟩
  rw [hlist]
  refine ⟨?_, ?_⟩
  · rw [total_append]
    rcases h.apart hmid with ⟨-, he⟩ | hle | hle
    · cases he
    · omega
    · dsimp only at hle
      omega
  · rw [← List.singleton_append] at h
    rcases h.replace ht with hkept | ⟨x, hin, -⟩
    · exact hkept
    · exact absurd hin (not_used_of_free (by simp))

theorem at_zero (h : At (b' :: l) 0 b) : b = b' := by
  rcases at_cons.mp h with ⟨rfl, -⟩ | ⟨x, -, hx⟩
  · rfl
  · rw [Block.span, headerSize] at hx
    omega

theorem at_tail {n : ℕ} : At l o ⟨n, false⟩ ↔ At (b :: l) (b.span + o) ⟨n, false⟩ := by
  rw [at_cons]
  constructor
  · exact fun h => .inr ⟨o, h, rfl⟩
  · rintro (⟨-, hbad⟩ | ⟨x, h, hx⟩)
    · rw [Block.span, headerSize] at hbad
      omega
    · cases Nat.add_left_cancel hx
      exact h

/-- A block that follows a free one is in use. -/
theorem Apart.used_behind (h : Apart (b :: b' :: l)) (hb : b.free = true) : ∃ n, b' = ⟨n, false⟩ := by
  rcases b' with ⟨n, free⟩
  have hne := (List.isChain_cons_cons.mp h).1
  cases free
  · exact ⟨n, rfl⟩
  · exact absurd ⟨hb, rfl⟩ hne

/-- A free first block reaches at most to any used block. -/
theorem At.behind_free {n : ℕ} (h : At (b :: l) o ⟨n, false⟩) (hb : b.free = true) : b.span ≤ o := by
  rcases at_cons.mp h with ⟨rfl, -⟩ | ⟨x, -, rfl⟩
  · cases hb
  · exact Nat.le_add_right _ _

/-- A free first block is as long as the used blocks behind it allow. -/
theorem Apart.free_span_le (ha : Apart (b :: l)) (hb : b.free = true) (hb' : b'.free = true)
    (ht : total (b' :: l') ≤ total (b :: l)) (hu : ∀ o n, At (b :: l) o ⟨n, false⟩ → At (b' :: l') o ⟨n, false⟩) :
    b'.span ≤ b.span := by
  cases l with
  | nil =>
    rw [total_cons, total_cons, total_nil] at ht
    omega
  | cons c l =>
    rcases ha.used_behind hb with ⟨n, rfl⟩
    exact (hu _ n (at_cons.mpr (.inr ⟨0, at_cons.mpr (.inl ⟨rfl, rfl⟩), rfl⟩))).behind_free hb'

/-- The used blocks and the length determine a list without free neighbours. -/
theorem Apart.eq_of_used (ha : Apart l) (ha' : Apart l') (ht : total l = total l')
    (hu : ∀ o n, At l o ⟨n, false⟩ ↔ At l' o ⟨n, false⟩) : l = l' := by
  induction l generalizing l' with
  | nil =>
    have hlen := length_le_total l'
    rw [total_nil] at ht
    exact (List.length_eq_zero_iff.mp (by omega)).symm
  | cons b l ih =>
    cases l' with
    | nil =>
      rw [total_cons, total_nil, Block.span, headerSize] at ht
      omega
    | cons b' l' =>
      have hhead : b = b' := by
        rcases b with ⟨n, free⟩
        rcases b' with ⟨n', free'⟩
        cases free
        · exact at_zero ((hu 0 n).mp (at_cons.mpr (.inl ⟨rfl, rfl⟩)))
        · cases free'
          · exact (at_zero ((hu 0 n').mpr (at_cons.mpr (.inl ⟨rfl, rfl⟩)))).symm
          · have hle := ha.free_span_le rfl rfl ht.ge fun o m => (hu o m).mp
            have hge := ha'.free_span_le rfl rfl ht.le fun o m => (hu o m).mpr
            simp only [Block.span] at hle hge
            rw [show n = n' by omega]
      subst hhead
      have htail : l = l' := by
        refine ih ha.of_cons ha'.of_cons ?_ fun o n => ?_
        · rw [total_cons, total_cons] at ht
          omega
        · rw [at_tail, hu, ← at_tail]
      rw [htail]

end Places

section Headers

variable {l l₁ l₂ : List Block} {b : Block} {a y n : ℕ}

/-- Handing out a block takes away no header. -/
theorem InHeader.taken (req : ℕ) (h : InHeader a (l₁ ++ ⟨n, true⟩ :: l₂) y) :
    InHeader a (l₁ ++ (Heap.taken n req ++ l₂)) y := by
  have hspan : Block.span ⟨n, true⟩ = 32 + n := rfl
  rw [inHeader_append, inHeader_cons, hspan] at h
  rw [inHeader_append, inHeader_append, taken_total]
  rcases h with hfront | hself | hbehind
  · exact .inl hfront
  · refine .inr (.inl ?_)
    unfold Heap.taken
    split_ifs <;> exact inHeader_cons.mpr (.inl hself)
  · exact .inr (.inr hbehind)

theorem InHeader.appended (n : ℕ) (h : InHeader a (l ++ [b]) y) : InHeader a (Heap.appended l b n) y := by
  unfold Heap.appended
  rw [inHeader_append, inHeader_cons] at h
  have hcase : InHeader a l y ∨ (a + total l ≤ y ∧ y < a + total l + 32) := by
    rcases h with hfront | hself | ⟨l₁, c, l₂, he, -⟩
    · exact .inl hfront
    · exact .inr hself
    · simp at he
  split_ifs
  · rw [inHeader_append, inHeader_cons]
    exact hcase.imp_right .inl
  · rw [inHeader_append, inHeader_cons]
    exact hcase.imp_right .inl

end Headers

/-- The used blocks of `l` are still there in `l'`, and only headers were written. -/
structure Keeps (k k' : Kernel) (l l' : List Block) : Prop where
  start : k'.heap.start = k.heap.start
  stop : k.heap.currentEnd ≤ k'.heap.currentEnd
  used : ∀ {o n}, At l o ⟨n, false⟩ → At l' o ⟨n, false⟩
  headers : ∀ {y}, InHeader k.heap.start l y → InHeader k.heap.start l' y
  outside : ∀ {y}, y < k.heap.currentEnd → ¬ InHeader k.heap.start l' y → k'.bytes y = k.bytes y

/-- In particular the payloads in use are as they were. -/
theorem Keeps.bytes {k k' : Kernel} {l l' : List Block} {o n y : ℕ} (h : Keeps k k' l l') (hr : Rep k.heap k.bytes l)
    (hat : At l o ⟨n, false⟩) (hy : k.heap.start + o + 32 ≤ y) (hlt : y < k.heap.start + o + 32 + n) :
    k'.bytes y = k.bytes y := by
  have hbounds := hat.bounds
  have hstop := hr.stop
  dsimp only at hbounds
  exact h.outside (by omega) ((h.used hat).payload_not_header hy hlt)

theorem Keeps.trans {k k' k'' : Kernel} {l l' l'' : List Block} (h : Keeps k k' l l') (h' : Keeps k' k'' l' l'') :
    Keeps k k'' l l'' where
  start := h'.start.trans h.start
  stop := h.stop.trans h'.stop
  used hat := h'.used (h.used hat)
  headers hy := by
    rw [← h.start]
    apply h'.headers
    rw [h.start]
    exact h.headers hy
  outside hlt hy := by
    rw [← h.start] at hy
    have hmid := h'.outside (hlt.trans_le h.stop) hy
    have hnot := mt h'.headers hy
    rw [h.start] at hnot
    rw [hmid, h.outside hlt hnot]

theorem Keeps.of_eq {k k' : Kernel} (l : List Block) (hh : k'.heap = k.heap) (hb : k'.bytes = k.bytes) : Keeps k k' l l :=
  ⟨by rw [hh], by rw [hh], id, id, fun _ _ => by rw [hb]⟩

section Calls

variable {k k' : Kernel} {l l₁ l₂ : List Block} {b : Block} {n req : ℕ}

/-- The block at `o` was handed out: used now, free before. -/
structure Gives (k : Kernel) (l l' : List Block) (req p : ℕ) : Prop where
  block : ∃ o n, At l' o ⟨n, false⟩ ∧ req ≤ n ∧ p = k.heap.start + o + 32 ∧ (∀ m, ¬ At l o ⟨m, false⟩) ∧
    ∀ o' m, At l' o' ⟨m, false⟩ → o' = o ∨ At l o' ⟨m, false⟩

theorem Rep.takeBlock_keeps (hr : Rep k.heap k.bytes (l₁ ++ ⟨n, true⟩ :: l₂)) (hal : req % 16 = 0) (hmin : 16 ≤ req)
    (hfit : req ≤ n) : ∃ p k', Heap.takeBlock (k.heap.start + total l₁) req k = (p, k') ∧ p ≠ 0 ∧
      Rep k'.heap k'.bytes (l₁ ++ (Heap.taken n req ++ l₂)) ∧
      Keeps k k' (l₁ ++ ⟨n, true⟩ :: l₂) (l₁ ++ (Heap.taken n req ++ l₂)) ∧
      Gives k (l₁ ++ ⟨n, true⟩ :: l₂) (l₁ ++ (Heap.taken n req ++ l₂)) req p := by
  rcases hr.takeBlock hal hmin with ⟨hp, hrep, hbytes⟩
  have hframes := takeBlock_frames (k.heap.start + total l₁) req k
  have hfree : At (l₁ ++ ⟨n, true⟩ :: l₂) (total l₁) ⟨n, true⟩ := ⟨l₁, l₂, rfl, rfl⟩
  generalize Heap.takeBlock (k.heap.start + total l₁) req k = result at hp hrep hbytes hframes ⊢
  rcases result with ⟨p, k'⟩
  dsimp only at hp hrep hbytes hframes ⊢
  refine ⟨p, k', rfl, by omega, hrep,
    ⟨hframes.start, hframes.stop.ge, fun hat => hat.taken req, fun hin => hin.taken req, fun _ hy => hbytes _ hy⟩, ?_⟩
  · rcases at_taken l₁ l₂ hfit with ⟨m, hm, hat⟩
    refine ⟨total l₁, m, hat, hm, hp, fun m' hbad => ?_, fun o' m' => At.of_taken⟩
    rcases hbad.apart hfree with ⟨-, he⟩ | hle | hle
    · cases he
    · omega
    · omega

theorem Rep.registerPages_keeps {pages : ℕ} (hr : Rep k.heap k.bytes l) (hpos : 0 < pages)
    (hend : k.heap.currentEnd + pages * 4096 < 2 ^ 64) :
    ∃ k' l', Heap.registerPages pages k = some k' ∧ Rep k'.heap k'.bytes l' ∧ Keeps k k' l l' ∧
      (∀ o n, At l' o ⟨n, false⟩ → At l o ⟨n, false⟩) ∧
      (∃ b ∈ l', b.free = true ∧ pages * 4096 - 32 ≤ b.size) ∧
      ∃ l₀ b m, l = l₀ ++ [b] ∧ l' = appended l₀ b m := by
  rcases exists_last hr.nonempty with ⟨l₀, b, rfl⟩
  rcases hr.registerPages hpos hend with ⟨k', hrun, hrep, hstart, hstop, hbytes⟩
  refine ⟨k', _, hrun, hrep, ⟨hstart, by omega, fun hat => hat.appended, fun hin => hin.appended _,
    fun hlt hy => hbytes _ (fun hin => hy (hin.appended _)) hlt⟩, fun o m => At.of_appended, ?_, l₀, b, _, rfl, rfl⟩
  · unfold appended
    split_ifs with hfree
    · exact ⟨⟨b.size + (32 + (pages * 4096 - 32)), true⟩, by simp, rfl, by dsimp only; omega⟩
    · exact ⟨⟨pages * 4096 - 32, true⟩, by simp, rfl, le_rfl⟩

/-- `expand_heap` leaves the heap alone or adds a free block that is large enough. -/
theorem Rep.expandHeap (needed : ℕ) (hr : Rep k.heap k.bytes l) (hend : k.heap.currentEnd + 0x80000 < 2 ^ 64) :
    (∃ k', Heap.expandHeap needed k = some (false, k') ∧ k'.heap = k.heap ∧ k'.bytes = k.bytes) ∨
    ∃ k' l', Heap.expandHeap needed k = some (true, k') ∧ Rep k'.heap k'.bytes l' ∧ Keeps k k' l l' ∧
      (∀ o n, At l' o ⟨n, false⟩ → At l o ⟨n, false⟩) ∧
      k'.heap.initialized = k.heap.initialized ∧ (∃ b ∈ l', b.free = true ∧ needed ≤ b.size) ∧
      ∃ l₀ b m, l = l₀ ++ [b] ∧ l' = appended l₀ b m := by
  have hpages := pagesToAlloc_ge needed
  have hneed : needed ≤ pagesToAlloc needed * 4096 - 32 := by
    unfold pagesToAlloc headerSize pageSize heapGrowthStepPages
    simp only
    split_ifs <;> omega
  unfold Heap.expandHeap
  simp only
  generalize pagesToAlloc needed = pages at hpages hneed ⊢
  split_ifs with hmax
  · exact .inl ⟨k, rfl, rfl, rfl⟩
  · unfold maxFrames at hmax
    generalize mapFresh k.rootPml4 VirtPermissions.kernelData.toPageFlags (BitVec.ofNat 64 k.heap.currentEnd) pages
      k.mem = result
    rcases result with ⟨_ | _, mem⟩
    · exact .inl ⟨_, rfl, rfl, rfl⟩
    · have hr' : Rep { k with mem := mem }.heap { k with mem := mem }.bytes l := hr
      have hlt : k.heap.currentEnd + pages * 4096 < 2 ^ 64 := by omega
      rcases hr'.registerPages_keeps (by omega) hlt with
        ⟨k', l', hrun, hrep, hkeeps, honly, ⟨b, hb, hfree, hsize⟩, hshape⟩
      have hinit := (registerPages_cases hrun).2.2.2.2.1
      refine .inr ⟨k', l', ?_, hrep, ⟨hkeeps.start, hkeeps.stop, hkeeps.used, hkeeps.headers, hkeeps.outside⟩, honly, hinit,
        ⟨b, hb, hfree, by omega⟩, hshape⟩
      simp only [hrun, Option.map_some]

/-- Neither subtraction from `free_bytes` saturates in `allocate`, in whichever scan finds the block. -/
def AllocateExact (layout : Layout) (k : Kernel) : Prop :=
  (∀ block, findFit true k.bytes layout.requestedSize (walkLimit k.heap) k.heap.head = some (.found block) →
    TakeExact block layout.requestedSize k) ∧
  ∀ k₁ block, Heap.expandHeap layout.requestedSize k = some (true, k₁) →
    findFit false k₁.bytes layout.requestedSize (walkLimit k₁.heap) k₁.heap.head = some (.found block) →
    TakeExact block layout.requestedSize k₁

theorem Rep.scan (hr : Rep k.heap k.bytes l) (check : Bool) (req : ℕ) :
    (findFit check k.bytes req (walkLimit k.heap) k.heap.head = some .exhausted ∧
      ∀ b ∈ l, ¬(b.free = true ∧ req ≤ b.size)) ∨
    ∃ l₁ n l₂, l = l₁ ++ ⟨n, true⟩ :: l₂ ∧ req ≤ n ∧ (∀ b ∈ l₁, ¬(b.free = true ∧ req ≤ b.size)) ∧
      findFit check k.bytes req (walkLimit k.heap) k.heap.head = some (.found (k.heap.start + total l₁)) := by
  rw [← hr.first]
  rcases findFit_cases hr.seg hr.pos hr.length_le check req with
    hnone | ⟨l₁, ⟨n, free⟩, l₂, hl, hfree, hfit, hfirst, hfound⟩
  · exact .inl hnone
  · dsimp only at hfree hfit
    subst hfree
    exact .inr ⟨l₁, n, l₂, hl, hfit, hfirst, hfound⟩

theorem Rep.allocateExact (hr : Rep k.heap k.bytes l) (hend : k.heap.currentEnd + 0x80000 < 2 ^ 64)
    (layout : Layout) : AllocateExact layout k := by
  have hexact {k : Kernel} {l : List Block} (hr : Rep k.heap k.bytes l) (check : Bool) {block : ℕ}
      (hfound : findFit check k.bytes layout.requestedSize (walkLimit k.heap) k.heap.head = some (.found block)) :
      TakeExact block layout.requestedSize k := by
    rcases hr.scan check layout.requestedSize with ⟨hnone, -⟩ | ⟨l₁, n, l₂, rfl, -, -, hscan⟩
    · rw [hnone] at hfound
      cases hfound
    · rw [hscan] at hfound
      cases hfound
      exact hr.takeExact _
  refine ⟨fun block hfound => hexact hr true hfound, fun k₁ block hgrow hfound => ?_⟩
  rcases hr.expandHeap layout.requestedSize hend with ⟨k', he, -, -⟩ | ⟨k', l', he, hr', -⟩
  · rw [he] at hgrow
    cases hgrow
  · rw [he] at hgrow
    cases hgrow
    exact hexact hr' false hfound

theorem Layout.requestedSize_ok (layout : Layout) (h : layout.size ≠ 0) :
    layout.requestedSize % 16 = 0 ∧ 16 ≤ layout.requestedSize ∧ layout.size ≤ layout.requestedSize := by
  unfold Layout.requestedSize
  omega

theorem allocate_found {layout : Layout} {block : ℕ} (hsize : layout.size ≠ 0) (hinit : k.heap.initialized = true)
    (h : findFit true k.bytes layout.requestedSize (walkLimit k.heap) k.heap.head = some (.found block)) :
    Heap.allocate layout k = some (Heap.takeBlock block layout.requestedSize k) := by
  simp only [Heap.allocate, hsize, hinit, h, if_false, Bool.not_true, Bool.false_eq_true]

theorem allocate_exhausted {layout : Layout} {grew : Bool} (hsize : layout.size ≠ 0) (hinit : k.heap.initialized = true)
    (h : findFit true k.bytes layout.requestedSize (walkLimit k.heap) k.heap.head = some .exhausted)
    (hgrow : Heap.expandHeap layout.requestedSize k = some (grew, k')) :
    Heap.allocate layout k = if grew then Heap.retry layout.requestedSize k' else some (0, k') := by
  unfold Heap.allocate
  -- the scans are not to be evaluated
  generalize findFit true k.bytes layout.requestedSize (walkLimit k.heap) k.heap.head = scan at h ⊢
  generalize Heap.expandHeap layout.requestedSize k = grown at hgrow ⊢
  cases h
  cases hgrow
  rw [if_neg hsize, if_neg (by simp [hinit])]
  cases grew with
  | true => rfl
  | false => rfl

theorem allocate_stuck {layout : Layout} (hsize : layout.size ≠ 0) (hinit : k.heap.initialized = true)
    (h : findFit true k.bytes layout.requestedSize (walkLimit k.heap) k.heap.head = some .exhausted)
    (hgrow : Heap.expandHeap layout.requestedSize k = some (false, k')) : Heap.allocate layout k = some (0, k') :=
  allocate_exhausted hsize hinit h hgrow

theorem allocate_grown {layout : Layout} {block : ℕ} (hsize : layout.size ≠ 0) (hinit : k.heap.initialized = true)
    (h : findFit true k.bytes layout.requestedSize (walkLimit k.heap) k.heap.head = some .exhausted)
    (hgrow : Heap.expandHeap layout.requestedSize k = some (true, k'))
    (h' : findFit false k'.bytes layout.requestedSize (walkLimit k'.heap) k'.heap.head = some (.found block)) :
    Heap.allocate layout k = some (Heap.takeBlock block layout.requestedSize k') := by
  rw [allocate_exhausted hsize hinit h hgrow, if_pos rfl, Heap.retry, h', Option.map_some]

/-- `allocate` returns, keeps every used block, and gives out a free one unless it returns null. -/
theorem Rep.allocate (hr : Rep k.heap k.bytes l) (hinit : k.heap.initialized = true)
    (hend : k.heap.currentEnd + 0x80000 < 2 ^ 64) (layout : Layout) (hsize : layout.size ≠ 0) :
    ∃ p k' l', Heap.allocate layout k = some (p, k') ∧ Rep k'.heap k'.bytes l' ∧ Keeps k k' l l' ∧
      (p = 0 → l' = l) ∧ (p ≠ 0 → Gives k l l' layout.requestedSize p) ∧
      (p ≠ 0 ↔ (∃ b ∈ l, b.free = true ∧ layout.requestedSize ≤ b.size) ∨
        ∃ k₁, Heap.expandHeap layout.requestedSize k = some (true, k₁)) := by
  rcases layout.requestedSize_ok hsize with ⟨hal, hmin, -⟩
  rcases hr.scan true layout.requestedSize with ⟨hnone, hall⟩ | ⟨l₁, n, l₂, rfl, hfit, -, hscan⟩
  · have hnofit : ¬∃ b ∈ l, b.free = true ∧ layout.requestedSize ≤ b.size := fun ⟨b, hb, hbad⟩ => hall b hb hbad
    rcases hr.expandHeap layout.requestedSize hend with
      ⟨k', he, hheap, hbytes⟩ | ⟨k₁, l', he, hr', hkeeps, honly, -, ⟨b, hb, hfree, hfitb⟩, -⟩
    · refine ⟨0, k', l, allocate_stuck hsize hinit hnone he, by rw [hheap, hbytes]; exact hr,
        .of_eq l hheap hbytes, fun _ => rfl, by simp, ?_⟩
      simp [hnofit, he]
    · rcases hr'.scan false layout.requestedSize with ⟨-, hnone'⟩ | ⟨l₁, n, l₂, rfl, hfit, -, hscan'⟩
      · exact absurd ⟨hfree, hfitb⟩ (hnone' b hb)
      · rcases hr'.takeBlock_keeps hal hmin hfit with ⟨p, k', htake, hp, hrep, hkeeps', ⟨o, m, hat, hm, hpo, hnew, honly'⟩⟩
        refine ⟨p, k', _, ?_, hrep, hkeeps.trans hkeeps', fun hbad => absurd hbad hp,
          fun _ => ⟨o, m, hat, hm, by rw [hpo, hkeeps.start], ?_, ?_⟩, ?_⟩
        · rw [allocate_grown hsize hinit hnone he hscan', htake]
        · exact fun m' hbad => hnew m' (hkeeps.used hbad)
        · exact fun o' m' hat' => (honly' o' m' hat').imp_right (honly o' m')
        · exact ⟨fun _ => .inr ⟨k₁, he⟩, fun _ => hp⟩
  · rcases hr.takeBlock_keeps hal hmin hfit with ⟨p, k', htake, hp, hrep, hkeeps, hgives⟩
    refine ⟨p, k', _, ?_, hrep, hkeeps, fun hbad => absurd hbad hp, fun _ => hgives, ?_⟩
    · rw [allocate_found hsize hinit hscan, htake]
    · exact ⟨fun _ => .inl ⟨⟨n, true⟩, by simp, rfl, hfit⟩, fun _ => hp⟩

end Calls

/-- The payloads clients hold are those of the used blocks, each held once. -/
structure Payloads (k : Kernel) (l : List Block) (ps : List (ℕ × Layout)) : Prop where
  used : ∀ x ∈ ps, ∃ o n, At l o ⟨n, false⟩ ∧ x.1 = k.heap.start + o + 32 ∧ x.2.size ≤ n
  exact : ∀ o n, At l o ⟨n, false⟩ → k.heap.start + o + 32 ∈ ps.map Prod.fst
  distinct : (ps.map Prod.fst).Nodup

/-- Two ranges of addresses share none. -/
def Disjoint (p n q m : ℕ) : Prop := p + n ≤ q ∨ q + m ≤ p

section Clients

variable {k k' : Kernel} {l l' : List Block} {ps : List (ℕ × Layout)} {p : ℕ} {layout : Layout}

theorem Payloads.keeps (h : Payloads k l ps) (hk : Keeps k k' l l')
    (honly : ∀ o n, At l' o ⟨n, false⟩ → At l o ⟨n, false⟩) : Payloads k' l' ps where
  used x hx := by
    rcases h.used x hx with ⟨o, n, hat, hp, hs⟩
    exact ⟨o, n, hk.used hat, by rw [hp, hk.start], hs⟩
  exact o n hat := by
    rw [hk.start]
    exact h.exact o n (honly o n hat)
  distinct := h.distinct

theorem Payloads.give (h : Payloads k l ps) (hk : Keeps k k' l l') (hg : Gives k l l' layout.requestedSize p)
    (hsize : layout.size ≠ 0) : Payloads k' l' ((p, layout) :: ps) := by
  rcases hg.block with ⟨o, n, hat, hfit, hp, hnew, honly⟩
  have hle := (layout.requestedSize_ok hsize).2.2
  refine ⟨fun x hx => ?_, fun o' m hat' => ?_, ?_⟩
  · rcases List.mem_cons.mp hx with rfl | hx
    · exact ⟨o, n, hat, by rw [hp, hk.start], by dsimp only; omega⟩
    · rcases h.used x hx with ⟨o', m, hat', hp', hs⟩
      exact ⟨o', m, hk.used hat', by rw [hp', hk.start], hs⟩
  · rw [List.map_cons, List.mem_cons, hk.start]
    rcases honly o' m hat' with rfl | hold
    · exact .inl hp.symm
    · exact .inr (h.exact o' m hold)
  · rw [List.map_cons, List.nodup_cons]
    refine ⟨fun hmem => ?_, h.distinct⟩
    rcases List.mem_map.mp hmem with ⟨x, hx, hxp⟩
    rcases h.used x hx with ⟨o', m, hat', hp', -⟩
    have ho : o' = o := by
      dsimp only at hxp
      omega
    exact hnew m (ho ▸ hat')

/-- Every byte of a live payload is a heap byte of no header. -/
theorem Payloads.inside (h : Payloads k l ps) (hr : Rep k.heap k.bytes l) {x : ℕ × Layout} (hx : x ∈ ps) :
    k.heap.start ≤ x.1 ∧ x.1 + x.2.size ≤ k.heap.currentEnd ∧
      ∀ y, x.1 ≤ y → y < x.1 + x.2.size → ¬ InHeader k.heap.start l y := by
  rcases h.used x hx with ⟨o, n, hat, hp, hs⟩
  have hbounds := hat.bounds
  have hstop := hr.stop
  dsimp only at hbounds
  exact ⟨by omega, by omega, fun y hy hlt => hat.payload_not_header (by omega) (by dsimp only; omega)⟩

/-- Different live payloads share no byte. -/
theorem Payloads.disjoint (h : Payloads k l ps) :
    ps.Pairwise fun x x' => Disjoint x.1 x.2.size x'.1 x'.2.size := by
  have hdistinct : ps.Pairwise fun x x' => x.1 ≠ x'.1 := List.pairwise_map.mp h.distinct
  refine hdistinct.imp_of_mem fun {x x'} hx hx' hne => ?_
  rcases h.used x hx with ⟨o, n, hat, hp, hs⟩
  rcases h.used x' hx' with ⟨o', n', hat', hp', hs'⟩
  rcases hat.apart hat' with ⟨ho, -⟩ | hle | hle
  · exact absurd (by omega) hne
  · dsimp only at hle
    exact .inl (by omega)
  · dsimp only at hle
    exact .inr (by omega)

/-- What a valid `deallocate` does: the other payloads keep their bytes, the freed one is poisoned. -/
theorem Payloads.free (h : Payloads k l ps) (hr : Rep k.heap k.bytes l) (hinit : k.heap.initialized = true)
    {x : ℕ × Layout} (hx : x ∈ ps) (hsize : layout.size ≠ 0) :
    DeallocateExact x.1 k ∧ ∃ l', Rep (deallocate x.1 layout k).heap (deallocate x.1 layout k).bytes l' ∧
      Payloads (deallocate x.1 layout k) l' (ps.filter fun z => z.1 ≠ x.1) ∧
      (∀ o m, At l' o ⟨m, false⟩ ↔ At l o ⟨m, false⟩ ∧ k.heap.start + o + 32 ≠ x.1) ∧
      (∀ z ∈ ps, z.1 ≠ x.1 → ∀ y, z.1 ≤ y → y < z.1 + z.2.size → (deallocate x.1 layout k).bytes y = k.bytes y) ∧
      ∀ y, x.1 ≤ y → y < x.1 + size k.bytes (x.1 - headerSize) → (deallocate x.1 layout k).bytes y = 0xDE := by
  rcases h.used x hx with ⟨o, n, ⟨l₁, l₂, rfl, rfl⟩, hp, -⟩
  have hfocus := focus_iff.mpr hr.seg
  have hblock : size k.bytes (k.heap.start + total l₁) = n := hfocus.header.size
  have hback : k.heap.start + total l₁ + 32 - headerSize = k.heap.start + total l₁ := by
    rw [headerSize]
    omega
  have hat : At (l₁ ++ ⟨n, false⟩ :: l₂) (total l₁) ⟨n, false⟩ := ⟨l₁, l₂, rfl, rfl⟩
  rcases hr.freed with ⟨l', hmerged, hrep, hpoison, hkept⟩
  rw [hp, deallocate_eq hfocus.header hinit layout hsize, hback, hblock]
  have hother {z : ℕ × Layout} (hz : z ∈ ps) (hne : z.1 ≠ k.heap.start + total l₁ + 32) :
      ∃ o m, At (l₁ ++ ⟨n, false⟩ :: l₂) o ⟨m, false⟩ ∧ z.1 = k.heap.start + o + 32 ∧ z.2.size ≤ m ∧ o ≠ total l₁ := by
    rcases h.used z hz with ⟨o, m, hat', hpz, hs⟩
    refine ⟨o, m, hat', hpz, hs, ?_⟩
    rintro rfl
    exact hne hpz
  refine ⟨hr.deallocateExact, l', hrep, ⟨fun z hz => ?_, fun o m hat' => ?_, ?_⟩, fun o m => ⟨fun hat' => ?_, ?_⟩,
    fun z hz hne y hy hlt => ?_, hpoison⟩
  · rw [List.mem_filter, decide_eq_true_eq] at hz
    rcases hother hz.1 hz.2 with ⟨o, m, hat', hpz, hs, ho⟩
    exact ⟨o, m, hat'.merged hmerged ho, hpz, hs⟩
  · rcases hat'.of_merged hmerged with ⟨hne, hold⟩
    rcases List.mem_map.mp (h.exact o m hold) with ⟨z, hz, hzp⟩
    refine List.mem_map.mpr ⟨z, List.mem_filter.mpr ⟨hz, ?_⟩, hzp⟩
    rw [decide_eq_true_eq, hzp]
    omega
  · exact h.distinct.sublist (List.filter_sublist.map _)
  · rcases hat'.of_merged hmerged with ⟨hne, hold⟩
    exact ⟨hold, by omega⟩
  · rintro ⟨hat', hne⟩
    exact hat'.merged hmerged (by omega)
  · rcases hother hz hne with ⟨o, m, hat', hpz, hs, ho⟩
    refine hkept y (hat'.payload_not_header (by omega) (by dsimp only; omega)) ?_
    rcases hat'.apart hat with ⟨hbad, -⟩ | hle | hle
    · exact absurd hbad ho
    · dsimp only at hle
      omega
    · dsimp only at hle
      omega

/-- Headers are all that matters of the bytes. -/
theorem Rep.write {w : Bytes} (hr : Rep k.heap k.bytes l) (hs : ∀ y, InHeader k.heap.start l y → w y = k.bytes y) :
    Rep k.heap w l :=
  { hr with seg := hr.seg.frame hs }

theorem initBlock_rep {region : VirtRegion} (hal : region.start.addr.toNat % 16 = 0) (hpos : region.start.addr.toNat ≠ 0)
    (hstop : region.stop.addr.toNat = region.start.addr.toNat + initialBytes) (k : Kernel) :
    Rep (initBlock region k).heap (initBlock region k).bytes [⟨initialBytes - headerSize, true⟩] := by
  have hend := region.stop.addr.isLt
  have hsize : initialBytes - headerSize = 131040 := rfl
  have hspan : total [⟨initialBytes - headerSize, true⟩] = initialBytes := rfl
  have hheader := writeHeader_header (m := k.bytes) (a := region.start.addr.toNat) (n := initialBytes - headerSize)
    (p := 0) (x := 0) (by rw [hsize]; omega) (by omega) (by omega)
  refine ⟨⟨hheader, trivial⟩, rfl, by simp, ?_, hend, hal, hpos, ?_, by simp [Apart], hspan.symm, rfl, rfl⟩
  · rw [hspan]
    exact hstop.symm
  · intro b hb
    rw [List.mem_singleton.mp hb, hsize]
    exact ⟨rfl, by dsimp only; omega⟩

end Clients
end VenturaOS.Heap
