import VenturaOS.Heap.Invariant

/-!
# Freeing a block

`deallocate` poisons the payload, marks the block free and merges it with its
free neighbours. The new list has one free block in place of the freed one and
its free neighbours, and the payload stays poisoned.
-/
namespace VenturaOS.Heap
open Library Memory Vmm

section

variable {m w : Bytes} {k : Kernel} {a n p x y : ℕ} {b : Block} {l l₁ l₂ pre post : List Block}

/-- A payload holds no header byte. -/
theorem payload_not_header (h : a + total l₁ + 32 ≤ y) (hlt : y < a + total l₁ + 32 + b.size) :
    ¬ InHeader a (l₁ ++ b :: l₂) y := by
  have hspan : b.span = 32 + b.size := rfl
  rw [inHeader_append, inHeader_cons]
  rintro (hin | hin | hin)
  · have := hin.bounds
    omega
  · omega
  · have := hin.bounds
    omega

/-- Merging blocks into one leaves no new headers. -/
theorem InHeader.of_merged {n' : ℕ} (hspan : 32 + n' = total pre) (hne : pre ≠ [])
    (h : InHeader a (l₁ ++ ⟨n', true⟩ :: l₂) y) : InHeader a (l₁ ++ (pre ++ l₂)) y := by
  have hs : Block.span ⟨n', true⟩ = total pre := hspan
  rw [inHeader_append, inHeader_cons, hs] at h
  rw [inHeader_append, inHeader_append]
  cases pre with
  | nil => exact absurd rfl hne
  | cons c pre =>
    rw [inHeader_cons]
    tauto

/-- The free blocks around a freed block and that block itself as one piece. -/
theorem total_of_free (h : ∀ b ∈ l, b.free = true) : total l = freeSum l + 32 * l.length ∧ usedSum l = 0 := by
  induction l with
  | nil => exact ⟨rfl, rfl⟩
  | cons b l ih =>
    have hb := h b (by simp)
    rcases ih fun c hc => h c (by simp [hc]) with ⟨ht, hu⟩
    rw [total_cons, freeSum_cons, usedSum_cons, if_pos hb, if_pos hb, List.length_cons, Block.span, headerSize]
    omega

theorem total_aligned (h : ∀ b ∈ l, b.size % 16 = 0 ∧ 16 ≤ b.size) : total l % 16 = 0 := by
  induction l with
  | nil => rfl
  | cons b l ih =>
    have hb := h b (by simp)
    have hl := ih fun c hc => h c (by simp [hc])
    rw [total_cons, Block.span, headerSize]
    omega

theorem Focus.fill (h : Focus m p a l₁ b l₂) (c : UInt8) :
    Focus (Bytes.fill m (a + total l₁ + 32) b.size c) p a l₁ b l₂ := by
  have hspan : b.span = 32 + b.size := rfl
  refine ⟨h.front.before fun y hy => Bytes.fill_outside (by omega),
    h.header.frame fun y hy hlt => Bytes.fill_outside (by omega),
    h.behind.after fun y hy => Bytes.fill_outside (by omega)⟩

/-- Memory after poisoning and marking the block at `c`. -/
def poison (m : Bytes) (c n : ℕ) : Bytes := setFree (Bytes.fill m (c + 32) n 0xDE) c true

theorem poison_focus (h : Focus m p a l₁ ⟨n, false⟩ l₂) : Focus (poison m (a + total l₁) n) p a l₁ ⟨n, true⟩ l₂ :=
  (h.fill 0xDE).setFree true

theorem poison_inside {c : ℕ} (hy : c + 32 ≤ y) (hlt : y < c + 32 + n) : poison m c n y = 0xDE := by
  rw [poison, setFree_only _ _ _ y (by omega), Bytes.fill_inside hy hlt]

theorem poison_outside {c : ℕ} (hy : y < c ∨ c + 32 ≤ y) (hout : y < c + 32 ∨ c + 32 + n ≤ y) :
    poison m c n y = m y := by
  rw [poison, setFree_only _ _ _ y hy, Bytes.fill_outside hout]

/-- Both merges around the block at `c`, with the free bytes they count. -/
def merge (c : ℕ) (m : Bytes) (freeBytes : ℕ) : Bytes × ℕ :=
  coalescePrev c (coalesceNext c m freeBytes).1 (coalesceNext c m freeBytes).2

/-- The list after both merges: one free block, with used blocks or nothing at either side. -/
structure Merged (l₁ : List Block) (n : ℕ) (l₂ l' : List Block) : Prop where
  shape : ∃ l₁' post pre l₂', l₁ = l₁' ++ post ∧ l₂ = pre ++ l₂' ∧ (∀ b ∈ post, b.free = true) ∧
    (∀ b ∈ pre, b.free = true) ∧ (∀ b ∈ l₁'.getLast?, b.free = false) ∧ (∀ b ∈ l₂'.head?, b.free = false) ∧
    l' = l₁' ++ ⟨total post + (n + total pre), true⟩ :: l₂'

theorem merge_seg (h : Focus m 0 a l₁ ⟨n, true⟩ l₂) (ha : a ≠ 0) (hbound : a + total (l₁ ++ ⟨n, true⟩ :: l₂) ≤ 2 ^ 64)
    (h₁ : Apart l₁) (h₂ : Apart l₂) (freeBytes : ℕ) :
    ∃ l', Merged l₁ n l₂ l' ∧ Seg (merge (a + total l₁) m freeBytes).1 0 a l' 0 ∧
      (merge (a + total l₁) m freeBytes).2 + n + freeSum l₁ + freeSum l₂ = freeBytes + freeSum l' ∧
      OutsideHeaders a (l₁ ++ ⟨n, true⟩ :: l₂) m (merge (a + total l₁) m freeBytes).1 := by
  rcases coalesceNext_focus h hbound h₂ freeBytes with ⟨pre, l₂', rfl, hpre, hhead, hfocus, hfree, hout⟩
  unfold merge
  generalize coalesceNext (a + total l₁) m freeBytes = next at hfocus hfree hout ⊢
  rcases next with ⟨w, count⟩
  dsimp only at hfocus hfree hout ⊢
  have htotal : total (l₁ ++ ⟨n + total pre, true⟩ :: l₂') = total (l₁ ++ ⟨n, true⟩ :: (pre ++ l₂')) := by
    simp only [total_append, total_cons, Block.span]
    omega
  rcases coalescePrev_focus hfocus ha (by rw [htotal]; exact hbound) h₁ count with
    ⟨l₁', post, rfl, hpost, hlast, hfocus', hfree', hout'⟩
  generalize coalescePrev (a + total (l₁' ++ post)) w count = last at hfocus' hfree' hout' ⊢
  rcases last with ⟨w', count'⟩
  dsimp only at hfocus' hfree' hout' ⊢
  refine ⟨_, ⟨l₁', post, pre, l₂', rfl, rfl, hpost, hpre, hlast, hhead, rfl⟩, focus_iff.mp hfocus', ?_, ?_⟩
  · have hp := (total_of_free hpre).1
    have hq := (total_of_free hpost).1
    simp only [freeSum_append, freeSum_cons, if_true]
    omega
  · intro y hy
    have hy' : ¬ InHeader a ((l₁' ++ post) ++ ⟨n + total pre, true⟩ :: l₂') y := by
      intro hin
      have hspan : 32 + (n + total pre) = total (⟨n, true⟩ :: pre) := by
        rw [total_cons, Block.span, headerSize]
        dsimp only
        omega
      exact hy (hin.of_merged hspan (by simp))
    rw [hout' y hy', hout y hy]

section Sums

variable {l' : List Block}

theorem Merged.total_eq (h : Merged l₁ n l₂ l') : total l' = total (l₁ ++ ⟨n, false⟩ :: l₂) := by
  rcases h.shape with ⟨l₁', post, pre, l₂', rfl, rfl, -, -, -, -, rfl⟩
  simp only [total_append, total_cons, Block.span]
  omega

theorem Merged.usedSum_eq (h : Merged l₁ n l₂ l') : usedSum l' + n = usedSum (l₁ ++ ⟨n, false⟩ :: l₂) := by
  rcases h.shape with ⟨l₁', post, pre, l₂', rfl, rfl, hpost, hpre, -, -, rfl⟩
  have hp := (total_of_free hpre).2
  have hq := (total_of_free hpost).2
  simp only [usedSum_append, usedSum_cons, if_true, Bool.false_eq_true, if_false]
  omega

theorem Merged.apart (h : Merged l₁ n l₂ l') (ha : Apart (l₁ ++ ⟨n, false⟩ :: l₂)) : Apart l' := by
  rcases h.shape with ⟨l₁', post, pre, l₂', rfl, rfl, -, -, hlast, hhead, rfl⟩
  rcases (apart_middle [⟨n, false⟩] (by simp)).mp ha with ⟨h₁, -, h₂, -, -⟩
  have h₁' : Apart l₁' := (List.isChain_append.mp h₁).1
  have h₂' : Apart l₂' := (List.isChain_append.mp h₂).2.1
  refine (apart_middle [⟨total post + (n + total pre), true⟩] (by simp)).mpr ⟨h₁', by simp [Apart], h₂', ?_, ?_⟩
  · intro b hb d hd
    simp [hlast b hb]
  · intro b hb d hd
    simp [hhead d hd]

theorem Merged.sized (h : Merged l₁ n l₂ l')
    (hs : ∀ b ∈ l₁ ++ ⟨n, false⟩ :: l₂, b.size % 16 = 0 ∧ 16 ≤ b.size) : ∀ b ∈ l', b.size % 16 = 0 ∧ 16 ≤ b.size := by
  rcases h.shape with ⟨l₁', post, pre, l₂', rfl, rfl, -, -, -, -, rfl⟩
  have hn := hs ⟨n, false⟩ (by simp)
  have hpost := total_aligned fun b (hb : b ∈ post) => hs b (by simp [hb])
  have hpre := total_aligned fun b (hb : b ∈ pre) => hs b (by simp [hb])
  intro b hb
  rcases List.mem_append.mp hb with hb | hb
  · exact hs b (by simp [hb])
  · rcases List.mem_cons.mp hb with rfl | hb
    · simp only at hn ⊢
      omega
    · exact hs b (by simp [hb])

end Sums

/-- The state after the block of `n` bytes at `c` was freed. -/
def freed (k : Kernel) (c n : ℕ) : Kernel :=
  { k with
    bytes := (merge c (poison k.bytes c n) (k.heap.stats.freeBytes + n)).1
    heap := { k.heap with stats := { k.heap.stats with
      allocatedBytes := k.heap.stats.allocatedBytes - n
      freeBytes := (merge c (poison k.bytes c n) (k.heap.stats.freeBytes + n)).2
      freeCount := k.heap.stats.freeCount + 1 } } }

theorem deallocate_eq {c : ℕ} (h : Header k.bytes c ⟨n, false⟩ p x) (hinit : k.heap.initialized = true)
    (layout : Layout) (hsize : layout.size ≠ 0) : deallocate (c + 32) layout k = freed k c n := by
  have hback : c + 32 - headerSize = c := by
    rw [headerSize]
    omega
  have hptr : ¬(c + 32 = 0 ∨ layout.size = 0) := by omega
  have hused : isFree k.bytes c = false := h.isFree
  have hn : size k.bytes c = n := h.size
  unfold deallocate
  rw [if_neg hptr, hinit, Bool.not_true, if_neg Bool.false_ne_true]
  simp only [hback]
  rw [if_neg (by rw [h.magic]; simp), hused, if_neg Bool.false_ne_true, hn]
  rfl

/-- The subtraction from `allocated_bytes` in `deallocate` stays above zero. -/
def DeallocateExact (ptr : ℕ) (k : Kernel) : Prop := size k.bytes (ptr - headerSize) ≤ k.heap.stats.allocatedBytes

/-- Freeing a used block: the new list, the poisoned payload, and everything that is left alone. -/
theorem Rep.freed (hr : Rep k.heap k.bytes (l₁ ++ ⟨n, false⟩ :: l₂)) :
    ∃ l', Merged l₁ n l₂ l' ∧ Rep (freed k (k.heap.start + total l₁) n).heap (freed k (k.heap.start + total l₁) n).bytes l' ∧
      (∀ y, k.heap.start + total l₁ + 32 ≤ y → y < k.heap.start + total l₁ + 32 + n →
        (freed k (k.heap.start + total l₁) n).bytes y = 0xDE) ∧
      ∀ y, ¬ InHeader k.heap.start (l₁ ++ ⟨n, false⟩ :: l₂) y →
        (y < k.heap.start + total l₁ + 32 ∨ k.heap.start + total l₁ + 32 + n ≤ y) →
        (freed k (k.heap.start + total l₁) n).bytes y = k.bytes y := by
  have hstop := hr.stop
  have hbound := hr.bound
  have hfocus := poison_focus (focus_iff.mpr hr.seg)
  rcases (apart_middle [⟨n, false⟩] (by simp)).mp hr.apart with ⟨hapart₁, -, hapart₂, -, -⟩
  have htotal : total (l₁ ++ ⟨n, true⟩ :: l₂) = total (l₁ ++ ⟨n, false⟩ :: l₂) := by
    simp only [total_append, total_cons, Block.span]
  have hheaders (y : ℕ) : InHeader k.heap.start (l₁ ++ ⟨n, true⟩ :: l₂) y ↔
      InHeader k.heap.start (l₁ ++ ⟨n, false⟩ :: l₂) y := by
    rw [inHeader_append, inHeader_append, inHeader_cons, inHeader_cons]
    rfl
  rcases merge_seg hfocus hr.pos (by rw [htotal]; omega) hapart₁ hapart₂ (k.heap.stats.freeBytes + n) with
    ⟨l', hmerged, hseg, hfree, hout⟩
  have hfreeSum := hr.freeBytes
  rw [freeSum_append, freeSum_cons, if_neg (by simp)] at hfreeSum
  have hused := hmerged.usedSum_eq
  unfold Heap.freed
  generalize merge (k.heap.start + total l₁) (poison k.bytes (k.heap.start + total l₁) n)
    (k.heap.stats.freeBytes + n) = result at hseg hfree hout ⊢
  dsimp only
  refine ⟨l', hmerged, ⟨hseg, hr.head, ?_, by rw [hmerged.total_eq]; exact hstop, hbound, hr.aligned, hr.pos,
    hmerged.sized hr.sized, hmerged.apart hr.apart, by rw [hmerged.total_eq]; exact hr.totalBytes, ?_, ?_⟩, ?_, ?_⟩
  · rcases hmerged.shape with ⟨l₁', post, pre, l₂', -, -, -, -, -, -, rfl⟩
    simp
  · dsimp only
    omega
  · dsimp only
    rw [hr.allocatedBytes]
    omega
  · intro y hy hlt
    rw [hout y (payload_not_header hy hlt), poison_inside hy hlt]
  · intro y hy hpay
    rw [hout y fun hin => hy ((hheaders y).mp hin), poison_outside ?_ hpay]
    rw [inHeader_append, inHeader_cons, not_or, not_or] at hy
    omega

theorem Rep.deallocateExact (hr : Rep k.heap k.bytes (l₁ ++ ⟨n, false⟩ :: l₂)) :
    DeallocateExact (k.heap.start + total l₁ + 32) k := by
  have hn : size k.bytes (k.heap.start + total l₁) = n := (focus_iff.mpr hr.seg).header.size
  have hback : k.heap.start + total l₁ + 32 - headerSize = k.heap.start + total l₁ := by
    rw [headerSize]
    omega
  rw [DeallocateExact, hback, hn, hr.allocatedBytes, usedSum_append, usedSum_cons, if_neg (by simp)]
  dsimp only
  omega

end
end VenturaOS.Heap
