import VenturaOS.Heap.Payloads

/-!
# What a stale pointer finds

Headers that were merged away stay in memory. At every aligned place outside
the used blocks, what `deallocate` would read there is no header or a free
one: fresh headers are free, links are aligned and so never look like the
magic, and freed payloads are poisoned.
-/
namespace VenturaOS.Heap
open Library Memory Vmm

/-- Nothing `deallocate` would accept stands at `y`. -/
def Dead (m : Bytes) (y : ℕ) : Prop := magic m y ≠ heapMagic ∨ isFree m y = true

/-- `y` lies in the span of a used block. -/
def InUsed (a : ℕ) (l : List Block) (y : ℕ) : Prop :=
  ∃ o n, At l o ⟨n, false⟩ ∧ a + o ≤ y ∧ y < a + o + 32 + n

section Stores

variable {m w : Bytes} {c y v p q x : ℕ} {b d : Block}

theorem deallocate_dead {k : Kernel} (h : Dead k.bytes y) (layout : Layout) : deallocate (y + 32) layout k = k := by
  have hback : y + 32 - headerSize = y := by
    rw [headerSize]
    omega
  by_cases hnull : y + 32 = 0 ∨ layout.size = 0
  · rw [deallocate, if_pos hnull]
  · rw [deallocate, if_neg hnull]
    simp only [hback]
    rcases h with hmagic | hfree
    · rw [if_pos hmagic, ite_self]
    · rw [if_pos hfree, ite_self, ite_self]

theorem Dead.congr (h : Dead m y) (hs : ∀ z, y ≤ z → z < y + 5 → w z = m z) : Dead w y := by
  have hmagic : magic w y = magic m y := Bytes.read_congr fun z hz hlt => hs z hz (by omega)
  have hfree : isFree w y = isFree m y := isFree_congr (Bytes.read_congr fun z hz hlt => hs z (by omega) (by omega))
  rw [Dead, hmagic, hfree]
  exact h

/-- The magic ends in a digit no aligned address and no poisoned byte has. -/
theorem dead_of_byte (h : (m y).toNat % 16 ≠ 4) : Dead m y := by
  refine .inl fun hmagic => h ?_
  rw [magic, Bytes.read] at hmagic
  rw [heapMagic] at hmagic
  omega

theorem Header.dead (h : Header m c b p x) (hb : b.free = true) : Dead m c := .inr (h.isFree.trans hb)

/-- In the middle of a header stands a link. -/
theorem Header.dead_inside (h : Header m c b p x) (hp : p % 16 = 0) : Dead m (c + 16) := by
  have hprev := h.prev
  rw [Heap.prev, Bytes.read] at hprev
  exact dead_of_byte (by omega)

theorem Dead.setSize (h : Dead m y) (hy : y % 16 = 0) (hc : c % 16 = 0) : Dead (setSize m c v) y :=
  h.congr fun _ _ _ => Bytes.write_outside (by omega)

theorem Dead.setNext (h : Dead m y) (hy : y % 16 = 0) (hc : c % 16 = 0) : Dead (setNext m c v) y :=
  h.congr fun _ _ _ => Bytes.write_outside (by omega)

theorem Dead.setPrev (h : Dead m y) (hy : y % 16 = 0) (hc : c % 16 = 0) (hv : v % 16 = 0) :
    Dead (setPrev m c v) y := by
  by_cases he : y = c + 16
  · have hbyte : Heap.setPrev m c v y = UInt8.ofNat v := by
      rw [he, Heap.setPrev, Bytes.write, Bytes.write_outside (by omega), Function.update_self]
    refine dead_of_byte ?_
    rw [hbyte, UInt8.toNat_ofNat']
    omega
  · exact h.congr fun _ _ _ => Bytes.write_outside (by omega)

/-- A block that takes over the next one writes sizes and links only. -/
theorem Dead.absorb (h : Dead m y) (hy : y % 16 = 0) (hheader : Header m c b p (c + b.span))
    (hnext : Header m (c + b.span) d q x) (hc : c % 16 = 0) (hx : x % 16 = 0) : Dead (absorb m c (c + b.span)) y := by
  rw [absorb_eq hheader hnext]
  have hstores : Dead (Heap.setNext (Heap.setSize m c (b.size + d.span)) c x) y := (h.setSize hy hc).setNext hy hc
  split_ifs
  · exact hstores.setPrev hy hx hc
  · exact hstores

end Stores

section Lists

variable {h : HeapState} {m w : Bytes} {k : Kernel} {l l₁ l₂ : List Block} {a o y n p : ℕ} {b : Block}

/-- Every place of the list belongs to a block. -/
theorem exists_block (h : y < total l) : ∃ o b, At l o b ∧ o ≤ y ∧ y < o + 32 + b.size := by
  induction l generalizing y with
  | nil => simp at h
  | cons b l ih =>
    have hspan : b.span = 32 + b.size := rfl
    rw [total_cons] at h
    by_cases hy : y < b.span
    · exact ⟨0, b, at_cons.mpr (.inl ⟨rfl, rfl⟩), by omega, by omega⟩
    · rcases ih (y := y - b.span) (by omega) with ⟨o, d, hat, hle, hlt⟩
      exact ⟨b.span + o, d, at_cons.mpr (.inr ⟨o, hat, rfl⟩), by omega, by omega⟩

theorem lastAddr_aligned (hs : ∀ b ∈ l, b.size % 16 = 0 ∧ 16 ≤ b.size) (ha : a % 16 = 0) : lastAddr 0 a l % 16 = 0 := by
  rcases List.eq_nil_or_concat l with rfl | ⟨l, b, rfl⟩
  · rfl
  · rw [List.concat_eq_append] at *
    have ht := total_aligned fun c (hc : c ∈ l) => hs c (by simp [hc])
    rw [lastAddr_snoc]
    omega

theorem first_aligned (l : List Block) (ha : a % 16 = 0) : first a l % 16 = 0 := by
  unfold first
  split_ifs
  · rfl
  · exact ha

theorem Focus.aligned (hf : Focus m 0 a l₁ b l₂) (hs : ∀ c ∈ l₁ ++ b :: l₂, c.size % 16 = 0 ∧ 16 ≤ c.size)
    (ha : a % 16 = 0) : (a + total l₁) % 16 = 0 ∧ ∃ p x, Header m (a + total l₁) b p x ∧ p % 16 = 0 ∧ x % 16 = 0 := by
  have hfront := total_aligned fun c (hc : c ∈ l₁) => hs c (by simp [hc])
  have hb := hs b (by simp)
  have hplace : (a + total l₁) % 16 = 0 := by omega
  refine ⟨hplace, _, _, hf.header, lastAddr_aligned (fun c hc => hs c (by simp [hc])) ha, first_aligned l₂ ?_⟩
  rw [Block.span, headerSize]
  omega

/-- Memory describes one list of a given length. -/
theorem Seg.unique {l' : List Block} {p' x x' : ℕ} (h : Seg m p a l x) (h' : Seg m p' a l' x')
    (ht : total l = total l') : l = l' := by
  induction l generalizing a p p' l' with
  | nil =>
    have hlen := length_le_total l'
    rw [total_nil] at ht
    exact (List.length_eq_zero_iff.mp (by omega)).symm
  | cons b l ih =>
    cases l' with
    | nil =>
      rw [total_cons, total_nil, Block.span, headerSize] at ht
      omega
    | cons b' l' =>
      rcases h with ⟨hb, hl⟩
      rcases h' with ⟨hb', hl'⟩
      have hhead : b = b' := by
        rcases b with ⟨n, free⟩
        rcases b' with ⟨n', free'⟩
        rw [Block.mk.injEq]
        exact ⟨hb.size.symm.trans hb'.size, hb.isFree.symm.trans hb'.isFree⟩
      subst hhead
      rw [total_cons, total_cons] at ht
      rw [ih hl hl' (by omega)]

theorem Rep.unique {l' : List Block} (hr : Rep h m l) (hr' : Rep h m l') : l = l' := by
  have hstop := hr.stop
  have hstop' := hr'.stop
  exact hr.seg.unique hr'.seg (by omega)

/-- Outside the used blocks only the bytes of free payloads are not known from the list. -/
theorem Rep.dead (hr : Rep h m l) (hal : y % 16 = 0) (hle : h.start ≤ y) (hlt : y < h.currentEnd)
    (hfree : ¬ InUsed h.start l y)
    (hold : (∀ z, y ≤ z → z < y + 5 → ¬ InHeader h.start l z) → Dead m y) : Dead m y := by
  have hstop := hr.stop
  have hstart := hr.aligned
  have hin : y - h.start < total l := by omega
  rcases exists_block hin with ⟨o, ⟨n, free⟩, hat, hlo, hhi⟩
  dsimp only at hhi
  cases free with
  | false => exact absurd ⟨o, n, hat, by omega, by omega⟩ hfree
  | true =>
    have hcover := hat
    rcases hat with ⟨l₁, l₂, rfl, rfl⟩
    rcases (focus_iff.mpr hr.seg).aligned hr.sized hstart with ⟨hplace, p, x, hheader, hp, -⟩
    have hn := hr.sized ⟨n, true⟩ (by simp)
    dsimp only at hn
    by_cases hself : y = h.start + total l₁
    · rw [hself]
      exact hheader.dead rfl
    · by_cases hmid : y = h.start + total l₁ + 16
      · rw [hmid]
        exact hheader.dead_inside hp
      · exact hold fun z hz hzlt => hcover.payload_not_header (by omega) (by dsimp only; omega)

theorem Keeps.dead {k' : Kernel} {l' : List Block} (hk : Keeps k k' l l') (hr : Rep k.heap k.bytes l)
    (hr' : Rep k'.heap k'.bytes l') (hal : y % 16 = 0) (hle : k.heap.start ≤ y) (hlt : y < k.heap.currentEnd)
    (hdead : ¬ InUsed k.heap.start l y → Dead k.bytes y) (hfree : ¬ InUsed k.heap.start l' y) : Dead k'.bytes y := by
  have hstop := hr.stop
  have hstart := hr.aligned
  have htotal := total_aligned hr.sized
  have hend := hk.stop
  refine hr'.dead hal (by rw [hk.start]; exact hle) (by omega) (by rw [hk.start]; exact hfree) fun hout => ?_
  have hbefore : ¬ InUsed k.heap.start l y := by
    rintro ⟨o, n, hat, hin⟩
    exact hfree ⟨o, n, hk.used hat, hin⟩
  rw [hk.start] at hout
  exact (hdead hbefore).congr fun z hz hzlt => hk.outside (by omega) (hout z hz hzlt)

theorem poison_dead (hf : Focus m 0 a l₁ ⟨n, false⟩ l₂) (hs : ∀ c ∈ l₁ ++ ⟨n, false⟩ :: l₂, c.size % 16 = 0 ∧ 16 ≤ c.size)
    (ha : a % 16 = 0) (hal : y % 16 = 0) (hdead : ¬(a + total l₁ ≤ y ∧ y < a + total l₁ + 32 + n) → Dead m y) :
    Dead (poison m (a + total l₁) n) y := by
  rcases hf.aligned hs ha with ⟨hplace, p, x, hheader, hp, -⟩
  have hn := hs ⟨n, false⟩ (by simp)
  dsimp only at hn
  by_cases hin : a + total l₁ ≤ y ∧ y < a + total l₁ + 32 + n
  · have hfreed : Header (poison m (a + total l₁) n) (a + total l₁) ⟨n, true⟩ p x :=
      (hheader.frame fun z _ hz => Bytes.fill_outside (by omega)).setFree true
    by_cases hself : y = a + total l₁
    · rw [hself]
      exact hfreed.dead rfl
    · by_cases hmid : y = a + total l₁ + 16
      · rw [hmid]
        exact hfreed.dead_inside hp
      · refine dead_of_byte ?_
        rw [poison_inside (by omega) (by omega)]
        decide
  · exact (hdead hin).congr fun z hz hzlt => poison_outside (by omega) (by omega)

theorem Dead.coalesceNext (h : Dead m y) (hal : y % 16 = 0) (hf : Focus m 0 a l₁ ⟨n, true⟩ l₂)
    (hs : ∀ c ∈ l₁ ++ ⟨n, true⟩ :: l₂, c.size % 16 = 0 ∧ 16 ≤ c.size) (ha : a % 16 = 0) (count : ℕ) :
    Dead (coalesceNext (a + total l₁) m count).1 y := by
  rw [coalesceNext_eq]
  split_ifs with hnext
  · have hheader := hf.header
    cases l₂ with
    | nil => exact absurd hheader.next hnext.1
    | cons d l₂ =>
      have hn := hs ⟨n, true⟩ (by simp)
      have hd := hs d (by simp)
      dsimp only at hn
      have hplace := (hf.aligned hs ha).1
      rw [first_cons] at hheader
      have hbehind : Header m (a + total l₁ + Block.span ⟨n, true⟩) d (a + total l₁)
          (first (a + total l₁ + Block.span ⟨n, true⟩ + d.span) l₂) := hf.behind.1
      have hx : first (a + total l₁ + Block.span ⟨n, true⟩ + d.span) l₂ % 16 = 0 := by
        apply first_aligned
        simp only [Block.span, headerSize]
        omega
      rw [hheader.next]
      have hgoal := Dead.absorb h hal hheader hbehind hplace hx
      dsimp only
      exact hgoal
  · exact h

theorem Dead.coalescePrev (h : Dead m y) (hal : y % 16 = 0) (hf : Focus m 0 a l₁ ⟨n, true⟩ l₂)
    (hs : ∀ c ∈ l₁ ++ ⟨n, true⟩ :: l₂, c.size % 16 = 0 ∧ 16 ≤ c.size) (ha : a % 16 = 0) (count : ℕ) :
    Dead (coalescePrev (a + total l₁) m count).1 y := by
  rw [coalescePrev_eq]
  split_ifs with hprev
  · rcases List.eq_nil_or_concat l₁ with rfl | ⟨l, e, rfl⟩
    · exact absurd hf.header.prev hprev.1
    · rw [List.concat_eq_append] at *
      -- the same list seen from the block before
      have hlist : (l ++ [e]) ++ ⟨n, true⟩ :: l₂ = l ++ e :: ⟨n, true⟩ :: l₂ := by simp
      have hprevious := hf.header.prev
      rw [lastAddr_snoc] at hprevious
      have hfocus : Focus m 0 a l e (⟨n, true⟩ :: l₂) := by
        rw [focus_iff, ← hlist, ← focus_iff]
        exact hf
      rw [hlist] at hs
      have hplace := (hfocus.aligned hs ha).1
      have hn := hs ⟨n, true⟩ (by simp)
      have he := hs e (by simp)
      dsimp only at hn
      have hheader := hfocus.header
      rw [first_cons] at hheader
      have hpos' : a + total (l ++ [e]) = a + total l + e.span := by
        rw [total_append, total_cons, total_nil]
        omega
      have hbehind : Header m (a + total l + e.span) ⟨n, true⟩ (a + total l)
          (first (a + total l + e.span + Block.span ⟨n, true⟩) l₂) := hfocus.behind.1
      have hx : first (a + total l + e.span + Block.span ⟨n, true⟩) l₂ % 16 = 0 := by
        apply first_aligned
        simp only [Block.span, headerSize]
        omega
      rw [hprevious, hpos']
      have hgoal := Dead.absorb h hal hheader hbehind hplace hx
      dsimp only
      exact hgoal
  · exact h

/-- Freeing a block leaves only dead places outside the used blocks. -/
theorem Rep.freed_dead (hr : Rep k.heap k.bytes (l₁ ++ ⟨n, false⟩ :: l₂)) (hal : y % 16 = 0)
    (hdead : ¬(k.heap.start + total l₁ ≤ y ∧ y < k.heap.start + total l₁ + 32 + n) → Dead k.bytes y) :
    Dead (Heap.freed k (k.heap.start + total l₁) n).bytes y := by
  have hfocus := focus_iff.mpr hr.seg
  have hpoison := poison_dead hfocus hr.sized hr.aligned hal hdead
  have hfocus' := poison_focus hfocus
  have hsized : ∀ c ∈ l₁ ++ ⟨n, true⟩ :: l₂, c.size % 16 = 0 ∧ 16 ≤ c.size := by
    intro c hc
    rcases List.mem_append.mp hc with hc | hc
    · exact hr.sized c (by simp [hc])
    · rcases List.mem_cons.mp hc with rfl | hc
      · exact hr.sized ⟨n, false⟩ (by simp)
      · exact hr.sized c (by simp [hc])
  have hstop := hr.stop
  have hbound := hr.bound
  have htotal : total (l₁ ++ ⟨n, true⟩ :: l₂) = total (l₁ ++ ⟨n, false⟩ :: l₂) := by
    simp only [total_append, total_cons, Block.span]
  rcases (apart_middle [⟨n, false⟩] (by simp)).mp hr.apart with ⟨-, -, hapart₂, -, -⟩
  have hnext := hpoison.coalesceNext hal hfocus' hsized hr.aligned (k.heap.stats.freeBytes + n)
  rcases coalesceNext_focus hfocus' (by rw [htotal]; omega) hapart₂ (k.heap.stats.freeBytes + n) with
    ⟨pre, l₂', rfl, -, -, hfocus₂, -, -⟩
  have hpre := total_aligned fun c (hc : c ∈ pre) => hsized c (by simp [hc])
  have hn := hsized ⟨n, true⟩ (by simp)
  dsimp only at hn
  have hsized₂ : ∀ c ∈ l₁ ++ ⟨n + total pre, true⟩ :: l₂', c.size % 16 = 0 ∧ 16 ≤ c.size := by
    intro c hc
    rcases List.mem_append.mp hc with hc | hc
    · exact hsized c (by simp [hc])
    · rcases List.mem_cons.mp hc with rfl | hc
      · dsimp only
        omega
      · exact hsized c (by simp [hc])
  unfold Heap.freed merge
  dsimp only
  generalize coalesceNext (k.heap.start + total l₁) (poison k.bytes (k.heap.start + total l₁) n)
    (k.heap.stats.freeBytes + n) = next at hnext hfocus₂ ⊢
  exact Dead.coalescePrev hnext hal hfocus₂ hsized₂ hr.aligned next.2

end Lists
end VenturaOS.Heap
