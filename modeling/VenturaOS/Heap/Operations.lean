import VenturaOS.Heap.Blocks

/-!
# What the heap's writes do to its blocks

Each mutation of the block list as a change of the list of blocks: a block
cut in two, a block marked, a block put behind the last one, a freed block
merged with its neighbours. Each comes with the bytes it may have changed:
bytes of headers, and of the payload it works on.
-/
namespace VenturaOS.Heap
open Library

variable {m w : Bytes} {a c n p q x v : ℕ} {b : Block} {l l₁ l₂ : List Block}

/-- A block inside a list, with what stands before and behind it. -/
structure Focus (m : Bytes) (p a : ℕ) (l₁ : List Block) (b : Block) (l₂ : List Block) : Prop where
  front : Seg m p a l₁ (a + total l₁)
  header : Header m (a + total l₁) b (lastAddr p a l₁) (first (a + total l₁ + b.span) l₂)
  behind : Seg m (a + total l₁) (a + total l₁ + b.span) l₂ 0

theorem focus_iff : Focus m p a l₁ b l₂ ↔ Seg m p a (l₁ ++ b :: l₂) 0 := by
  rw [seg_append, if_neg (List.cons_ne_nil b l₂)]
  exact ⟨fun h => ⟨h.front, h.header, h.behind⟩, fun h => ⟨h.1, h.2.1, h.2.2⟩⟩

/-- Bytes in no header of the list are the same. -/
def OutsideHeaders (a : ℕ) (l : List Block) (m w : Bytes) : Prop := ∀ y, ¬ InHeader a l y → w y = m y

theorem OutsideHeaders.of_only (h : OnlyHeader a m w) : OutsideHeaders a (b :: l) m w := by
  intro y hy
  apply h
  rw [inHeader_cons] at hy
  omega

/-- `if !next.is_null() { (*next).prev = … }`. -/
theorem Seg.relink (h : Seg m p a l 0) (ha : a ≠ 0) (hv : v < 2 ^ 64) :
    Seg (if first a l ≠ 0 then setPrev m (first a l) v else m) v a l 0 ∧
      OutsideHeaders a l m (if first a l ≠ 0 then setPrev m (first a l) v else m) := by
  cases l with
  | nil => exact ⟨trivial, fun _ _ => rfl⟩
  | cons b l =>
    rw [first_cons, if_pos ha]
    rcases h with ⟨hb, hl⟩
    have honly := setPrev_only m a v
    refine ⟨⟨hb.setPrev hv, hl.outside honly (.inr ?_)⟩, .of_only honly⟩
    rw [Block.span, headerSize]
    omega

theorem Seg.before (h : Seg m p a l x) (hs : ∀ y, y < a + total l → w y = m y) : Seg w p a l x :=
  h.frame fun y hy => hs y hy.bounds.2

theorem Seg.after (h : Seg m p a l x) (hs : ∀ y, a ≤ y → w y = m y) : Seg w p a l x :=
  h.frame fun y hy => hs y hy.bounds.1

/-- Cutting a free block in two. -/
theorem splitBlock_focus {req : ℕ} (h : Focus m p a l₁ ⟨n, true⟩ l₂)
    (hbound : a + total (l₁ ++ ⟨n, true⟩ :: l₂) ≤ 2 ^ 64) (hreq : req + 48 ≤ n) :
    Seg (splitBlock m (a + total l₁) req) p a (l₁ ++ ⟨req, true⟩ :: ⟨n - req - 32, true⟩ :: l₂) 0 ∧
      OutsideHeaders a (l₁ ++ ⟨req, true⟩ :: ⟨n - req - 32, true⟩ :: l₂) m (splitBlock m (a + total l₁) req) := by
  have hspan : Block.span ⟨n, true⟩ = 32 + n := rfl
  rw [total_append, total_cons, hspan] at hbound
  rcases h with ⟨hfront, hheader, hbehind⟩
  rw [hspan] at hheader hbehind
  generalize hc : a + total l₁ = c at hfront hheader hbehind ⊢
  -- the header of the rest is written inside the payload of the block
  have hnext : first (c + (32 + n)) l₂ < 2 ^ 64 := by
    cases l₂ with
    | nil => simp
    | cons b l =>
      rw [first_cons]
      rw [total_cons, Block.span, headerSize] at hbound
      omega
  have honly₁ := writeHeader_only m (c + (32 + req)) (n - req - 32) c (first (c + (32 + n)) l₂)
  have hnew : Header _ (c + (32 + req)) ⟨n - req - 32, true⟩ c (first (c + (32 + n)) l₂) :=
    writeHeader_header (m := m) (by omega) (by omega) hnext
  have hheader₁ := hheader.only honly₁ (.inr (by omega))
  have hfront₁ := hfront.before (w := writeHeader m (c + (32 + req)) (n - req - 32) c (first (c + (32 + n)) l₂))
    fun y hy => honly₁ y (by omega)
  have hbehind₁ := hbehind.after (w := writeHeader m (c + (32 + req)) (n - req - 32) c (first (c + (32 + n)) l₂))
    fun y hy => honly₁ y (by omega)
  have hsplit : splitBlock m c req = setSize (setNext
      (if first (c + (32 + n)) l₂ ≠ 0 then
        setPrev (writeHeader m (c + (32 + req)) (n - req - 32) c (first (c + (32 + n)) l₂)) (first (c + (32 + n)) l₂)
          (c + (32 + req))
      else writeHeader m (c + (32 + req)) (n - req - 32) c (first (c + (32 + n)) l₂)) c (c + (32 + req))) c req := by
    simp only [splitBlock, hheader.size, hheader.next, headerSize, hheader₁.next, Nat.add_assoc]
  rw [hsplit]
  generalize writeHeader m (c + (32 + req)) (n - req - 32) c (first (c + (32 + n)) l₂) = m₁ at *
  -- the block behind points back to the new header
  rcases hbehind₁.relink (v := c + (32 + req)) (by omega) (by omega) with ⟨hbehind₂, hout₂⟩
  generalize (if first (c + (32 + n)) l₂ ≠ 0 then setPrev m₁ (first (c + (32 + n)) l₂) (c + (32 + req)) else m₁) = m₂ at *
  have hlow₂ (y : ℕ) (hy : y < c + (32 + n)) : m₂ y = m₁ y := hout₂ y fun hin => by have := hin.bounds; omega
  have hheader₂ := hheader₁.frame (w := m₂) fun y _ hy => hlow₂ y (by omega)
  have hnew₂ := hnew.frame (w := m₂) fun y _ hy => hlow₂ y (by omega)
  have hfront₂ := hfront₁.before (w := m₂) fun y hy => hlow₂ y (by omega)
  -- the block itself is cut
  have honly : OnlyHeader c m₂ (setSize (setNext m₂ c (c + (32 + req))) c req) :=
    (setNext_only m₂ c (c + (32 + req))).trans (setSize_only _ c req)
  have hcut := (hheader₂.setNext (v := c + (32 + req)) (by omega)).setSize (v := req) (by omega)
  generalize setSize (setNext m₂ c (c + (32 + req))) c req = m₃ at *
  have hend : c + (32 + req) + (32 + (n - req - 32)) = c + (32 + n) := by omega
  constructor
  · rw [← focus_iff]
    refine ⟨?_, ?_, ?_⟩
    · rw [hc]
      exact hfront₂.before fun y hy => honly y (by omega)
    · rw [hc, first_cons]
      exact hcut
    · rw [hc]
      change Header m₃ (c + (32 + req)) _ _ (first (c + (32 + req) + (32 + (n - req - 32))) l₂) ∧
        Seg m₃ (c + (32 + req)) (c + (32 + req) + (32 + (n - req - 32))) l₂ 0
      rw [hend]
      exact ⟨hnew₂.only honly (.inl (by omega)), hbehind₂.after fun y hy => honly y (by omega)⟩
  · intro y hy
    rw [inHeader_append, inHeader_cons, inHeader_cons, hc, not_or, not_or, not_or] at hy
    rcases hy with ⟨-, hself, hrest, hbeyond⟩
    change ¬ InHeader (c + (32 + req) + (32 + (n - req - 32))) l₂ y at hbeyond
    change ¬(c + (32 + req) ≤ y ∧ y < c + (32 + req) + 32) at hrest
    rw [hend] at hbeyond
    rw [honly y (by omega), hout₂ y hbeyond, honly₁ y (by omega)]

theorem Focus.setFree (h : Focus m p a l₁ b l₂) (f : Bool) :
    Focus (setFree m (a + total l₁) f) p a l₁ ⟨b.size, f⟩ l₂ := by
  have honly := setFree_only m (a + total l₁) f
  have hspan : b.span = 32 + b.size := rfl
  exact ⟨h.front.before fun y hy => honly y (by omega), h.header.setFree f,
    h.behind.after fun y hy => honly y (by omega)⟩

/-- Take over the block behind: its size, its header and its successor. -/
def absorb (m : Bytes) (header next : ℕ) : Bytes :=
  let m := setSize m header (size m header + (headerSize + size m next))
  let m := setNext m header (Heap.next m next)
  if Heap.next m next ≠ 0 then setPrev m (Heap.next m next) header else m

/-- The stores of a take-over, with the two blocks known. -/
theorem absorb_eq {d : Block} (h : Header m c b p (c + b.span)) (hd : Header m (c + b.span) d q x) :
    absorb m c (c + b.span) =
      if x ≠ 0 then setPrev (setNext (setSize m c (b.size + d.span)) c x) x c
      else setNext (setSize m c (b.size + d.span)) c x := by
  have hspan : b.span = 32 + b.size := rfl
  have honly₁ : OnlyHeader c m (setSize m c (b.size + d.span)) := setSize_only m c _
  have honly₂ : OnlyHeader c m (setNext (setSize m c (b.size + d.span)) c x) := honly₁.trans (setNext_only _ c _)
  have hd₁ := hd.only honly₁ (.inl (by omega))
  have hd₂ := hd.only honly₂ (.inl (by omega))
  have hsum : size m c + (headerSize + size m (c + b.span)) = b.size + d.span := by
    rw [h.size, hd.size]
    rfl
  simp only [absorb, hsum, hd₁.next, hd₂.next]

theorem absorb_focus {d : Block} (h : Focus m p a l₁ b (d :: l₂))
    (hbound : a + total (l₁ ++ b :: d :: l₂) ≤ 2 ^ 64) :
    Focus (absorb m (a + total l₁) (a + total l₁ + b.span)) p a l₁ ⟨b.size + d.span, b.free⟩ l₂ ∧
      ∀ y, ¬(a + total l₁ ≤ y ∧ y < a + total l₁ + 32) → ¬ InHeader (a + total l₁ + b.span + d.span) l₂ y →
        absorb m (a + total l₁) (a + total l₁ + b.span) y = m y := by
  have hb : b.span = 32 + b.size := rfl
  have hd : d.span = 32 + d.size := rfl
  rw [total_append, total_cons, total_cons, hb, hd] at hbound
  rcases h with ⟨hfront, hheader, hnext, hbehind⟩
  rw [first_cons] at hheader
  rw [hb, hd] at *
  generalize hc : a + total l₁ = c at hfront hheader hnext hbehind ⊢
  have hx : first (c + (32 + b.size) + (32 + d.size)) l₂ < 2 ^ 64 := by
    cases l₂ with
    | nil => simp
    | cons e l =>
      rw [first_cons]
      rw [total_cons, Block.span, headerSize] at hbound
      omega
  -- the block grows over its neighbour
  have honly₁ : OnlyHeader c m (setSize m c (b.size + (32 + d.size))) := setSize_only m c _
  have hheader₁ := hheader.setSize (v := b.size + (32 + d.size)) (by omega)
  have honly₂ : OnlyHeader c m (setNext (setSize m c (b.size + (32 + d.size))) c
      (first (c + (32 + b.size) + (32 + d.size)) l₂)) := honly₁.trans (setNext_only _ c _)
  have hheader₂ := hheader₁.setNext hx
  have heq : absorb m c (c + (32 + b.size)) =
      if first (c + (32 + b.size) + (32 + d.size)) l₂ ≠ 0 then
        setPrev (setNext (setSize m c (b.size + (32 + d.size))) c (first (c + (32 + b.size) + (32 + d.size)) l₂))
          (first (c + (32 + b.size) + (32 + d.size)) l₂) c
      else setNext (setSize m c (b.size + (32 + d.size))) c (first (c + (32 + b.size) + (32 + d.size)) l₂) :=
    absorb_eq hheader hnext
  rw [heq]
  generalize setNext (setSize m c (b.size + (32 + d.size))) c (first (c + (32 + b.size) + (32 + d.size)) l₂) = m₂ at *
  have hbehind₂ := hbehind.after (w := m₂) fun y hy => honly₂ y (by omega)
  rcases hbehind₂.relink (v := c) (by omega) (by omega) with ⟨hbehind₃, hout₃⟩
  generalize (if first (c + (32 + b.size) + (32 + d.size)) l₂ ≠ 0 then
    setPrev m₂ (first (c + (32 + b.size) + (32 + d.size)) l₂) c else m₂) = m₃ at *
  have hlow (y : ℕ) (hy : y < c + (32 + b.size) + (32 + d.size)) : m₃ y = m₂ y :=
    hout₃ y fun hin => by have := hin.bounds; omega
  have hend : c + (32 + (b.size + (32 + d.size))) = c + (32 + b.size) + (32 + d.size) := by omega
  refine ⟨⟨?_, ?_, ?_⟩, ?_⟩
  · rw [hc]
    exact hfront.before fun y hy => by rw [hlow y (by omega), honly₂ y (by omega)]
  · rw [hc]
    change Header m₃ c _ _ (first (c + (32 + (b.size + (32 + d.size)))) l₂)
    rw [hend]
    exact hheader₂.frame fun y _ hy => hlow y (by omega)
  · rw [hc]
    change Seg m₃ c (c + (32 + (b.size + (32 + d.size)))) l₂ 0
    rw [hend]
    exact hbehind₃
  · intro y hy hin
    rw [hout₃ y hin, honly₂ y (by omega)]

/-- Bytes outside all headers survive the take-over. -/
theorem absorb_outside {d : Block} (h : Focus m p a l₁ b (d :: l₂))
    (hbound : a + total (l₁ ++ b :: d :: l₂) ≤ 2 ^ 64) :
    OutsideHeaders a (l₁ ++ b :: d :: l₂) m (absorb m (a + total l₁) (a + total l₁ + b.span)) := by
  intro y hy
  rw [inHeader_append, inHeader_cons, inHeader_cons, not_or, not_or, not_or] at hy
  exact (absorb_focus h hbound).2 y hy.2.1 hy.2.2.2

theorem coalesceNext_eq (header : ℕ) (m : Bytes) (freeBytes : ℕ) : coalesceNext header m freeBytes =
    if next m header ≠ 0 ∧ isFree m (next m header) = true then
      (absorb m header (next m header), freeBytes + headerSize)
    else (m, freeBytes) := rfl

theorem coalescePrev_eq (header : ℕ) (m : Bytes) (freeBytes : ℕ) : coalescePrev header m freeBytes =
    if prev m header ≠ 0 ∧ isFree m (prev m header) = true then
      (absorb m (prev m header) header, freeBytes + headerSize)
    else (m, freeBytes) := rfl

/-- Merging with the block behind takes in at most one block, and only a free one. -/
theorem coalesceNext_focus (h : Focus m p a l₁ ⟨n, true⟩ l₂) (hbound : a + total (l₁ ++ ⟨n, true⟩ :: l₂) ≤ 2 ^ 64)
    (hadj : l₂.IsChain fun b d => ¬(b.free = true ∧ d.free = true)) (freeBytes : ℕ) :
    ∃ pre l₂', l₂ = pre ++ l₂' ∧ (∀ b ∈ pre, b.free = true) ∧ (∀ b ∈ l₂'.head?, b.free = false) ∧
      Focus (coalesceNext (a + total l₁) m freeBytes).1 p a l₁ ⟨n + total pre, true⟩ l₂' ∧
      (coalesceNext (a + total l₁) m freeBytes).2 = freeBytes + 32 * pre.length ∧
      OutsideHeaders a (l₁ ++ ⟨n, true⟩ :: l₂) m (coalesceNext (a + total l₁) m freeBytes).1 := by
  have hnext := h.header.next
  cases l₂ with
  | nil =>
    have heq : coalesceNext (a + total l₁) m freeBytes = (m, freeBytes) := by
      rw [coalesceNext_eq, if_neg (by simp [hnext])]
    rw [heq]
    exact ⟨[], [], rfl, by simp, by simp, h, rfl, fun _ _ => rfl⟩
  | cons d l =>
    rw [first_cons] at hnext
    have hfree : isFree m (a + total l₁ + Block.span ⟨n, true⟩) = d.free := h.behind.1.isFree
    have hpos : a + total l₁ + Block.span ⟨n, true⟩ ≠ 0 := by
      rw [Block.span, headerSize]
      omega
    cases hd : d.free with
    | false =>
      have heq : coalesceNext (a + total l₁) m freeBytes = (m, freeBytes) := by
        rw [coalesceNext_eq, hnext, if_neg (by simp [hfree, hd])]
      rw [heq]
      exact ⟨[], d :: l, rfl, by simp, by simpa using hd, h, rfl, fun _ _ => rfl⟩
    | true =>
      have heq : coalesceNext (a + total l₁) m freeBytes =
          (absorb m (a + total l₁) (a + total l₁ + Block.span ⟨n, true⟩), freeBytes + 32) := by
        rw [coalesceNext_eq, hnext, if_pos ⟨hpos, hfree.trans hd⟩, headerSize]
      have hout := absorb_outside h hbound
      rw [heq]
      dsimp only
      have hcount : freeBytes + 32 = freeBytes + 32 * [d].length := by rw [List.length_singleton]
      refine ⟨[d], l, rfl, by simpa using hd, ?_, ?_, hcount, hout⟩
      · intro e he
        rcases List.isChain_cons.mp hadj with ⟨hhead, -⟩
        have := hhead e he
        simpa [hd] using this
      · rw [total_cons, total_nil, Nat.add_zero]
        exact (absorb_focus h hbound).1

/-- Merging into the block before, likewise. -/
theorem coalescePrev_focus (h : Focus m 0 a l₁ ⟨n, true⟩ l₂) (ha : a ≠ 0)
    (hbound : a + total (l₁ ++ ⟨n, true⟩ :: l₂) ≤ 2 ^ 64)
    (hadj : l₁.IsChain fun b d => ¬(b.free = true ∧ d.free = true)) (freeBytes : ℕ) :
    ∃ l₁' post, l₁ = l₁' ++ post ∧ (∀ b ∈ post, b.free = true) ∧ (∀ b ∈ l₁'.getLast?, b.free = false) ∧
      Focus (coalescePrev (a + total l₁) m freeBytes).1 0 a l₁' ⟨total post + n, true⟩ l₂ ∧
      (coalescePrev (a + total l₁) m freeBytes).2 = freeBytes + 32 * post.length ∧
      OutsideHeaders a (l₁ ++ ⟨n, true⟩ :: l₂) m (coalescePrev (a + total l₁) m freeBytes).1 := by
  have hprev := h.header.prev
  rcases List.eq_nil_or_concat l₁ with rfl | ⟨l, e, rfl⟩
  · have heq : coalescePrev (a + total []) m freeBytes = (m, freeBytes) := by
      rw [coalescePrev_eq, hprev, if_neg (by simp [lastAddr])]
    rw [heq]
    exact ⟨[], [], rfl, by simp, by simp, by simpa using h, rfl, fun _ _ => rfl⟩
  · rw [List.concat_eq_append] at *
    rw [lastAddr_snoc] at hprev
    -- the same list seen from the block before
    have hlist : (l ++ [e]) ++ ⟨n, true⟩ :: l₂ = l ++ e :: ⟨n, true⟩ :: l₂ := by simp
    have hfocus : Focus m 0 a l e (⟨n, true⟩ :: l₂) := by
      rw [focus_iff, ← hlist, ← focus_iff]
      exact h
    have hpos : a + total (l ++ [e]) = a + total l + e.span := by
      rw [total_append, total_cons, total_nil]
      omega
    rw [hlist] at hbound ⊢
    rw [hpos] at hprev ⊢
    cases he : e.free with
    | false =>
      have heq : coalescePrev (a + total l + e.span) m freeBytes = (m, freeBytes) := by
        rw [coalescePrev_eq, hprev, hfocus.header.isFree, if_neg (by simp [he])]
      rw [heq]
      refine ⟨l ++ [e], [], by simp, by simp, by simpa using he, ?_, rfl, fun _ _ => rfl⟩
      rw [total_nil, Nat.zero_add]
      exact h
    | true =>
      have heq : coalescePrev (a + total l + e.span) m freeBytes =
          (absorb m (a + total l) (a + total l + e.span), freeBytes + 32) := by
        rw [coalescePrev_eq, hprev, if_pos ⟨by omega, hfocus.header.isFree.trans he⟩, headerSize]
      have hout := absorb_outside hfocus hbound
      rw [heq]
      dsimp only
      have hcount : freeBytes + 32 = freeBytes + 32 * [e].length := by rw [List.length_singleton]
      refine ⟨l, [e], rfl, by simpa using he, ?_, ?_, hcount, hout⟩
      · intro d hd
        rcases List.isChain_append.mp hadj with ⟨-, -, hlast⟩
        have := hlast d hd e (by simp)
        simpa [he] using this
      · have hres := (absorb_focus hfocus hbound).1
        have hsize : total [e] + n = e.size + Block.span ⟨n, true⟩ := by
          simp only [total_cons, total_nil, Block.span]
          omega
        rw [hsize, ← he]
        exact hres

/-- Putting a new block behind the last one: they merge exactly when the last one is free. -/
theorem appendBlock_seg (h : Seg m 0 a (l ++ [b]) 0) (hnew : Header m (a + total (l ++ [b])) ⟨n, true⟩ 0 0)
    (hbound : a + total (l ++ [b]) + (32 + n) ≤ 2 ^ 64) :
    (appendBlock m (a + total l) (a + total (l ++ [b]))).1 = b.free ∧
      Seg (appendBlock m (a + total l) (a + total (l ++ [b]))).2 0 a
        (if b.free then l ++ [⟨b.size + (32 + n), true⟩] else l ++ [b, ⟨n, true⟩]) 0 ∧
      OutsideHeaders a (l ++ [b, ⟨n, true⟩]) m (appendBlock m (a + total l) (a + total (l ++ [b]))).2 := by
  have hspan : b.span = 32 + b.size := rfl
  have hpos : a + total (l ++ [b]) = a + total l + b.span := by
    rw [total_append, total_cons, total_nil]
    omega
  rw [hpos] at hnew hbound ⊢
  rcases focus_iff.mpr h with ⟨hfront, hheader, -⟩
  -- link the two blocks both ways
  have honly₁ : OnlyHeader (a + total l) m (setNext m (a + total l) (a + total l + b.span)) := setNext_only m _ _
  have hheader₁ := hheader.setNext (v := a + total l + b.span) (by omega)
  have hnew₁ := hnew.only honly₁ (.inl (by omega))
  have honly₂ := setPrev_only (setNext m (a + total l) (a + total l + b.span)) (a + total l + b.span) (a + total l)
  have hheader₂ := hheader₁.only honly₂ (.inr (by omega))
  have hnew₂ := hnew₁.setPrev (v := a + total l) (by omega)
  have hfront₂ := hfront.before (w := setPrev (setNext m (a + total l) (a + total l + b.span)) (a + total l + b.span)
    (a + total l)) fun y hy => by rw [honly₂ y (by omega), honly₁ y (by omega)]
  have hout : OutsideHeaders a (l ++ [b, ⟨n, true⟩]) m (setPrev (setNext m (a + total l) (a + total l + b.span))
      (a + total l + b.span) (a + total l)) := by
    intro y hy
    rw [inHeader_append, inHeader_cons, inHeader_cons, not_or, not_or, not_or] at hy
    rw [honly₂ y (by omega), honly₁ y (by omega)]
  have heq : appendBlock m (a + total l) (a + total l + b.span) =
      if isFree (setPrev (setNext m (a + total l) (a + total l + b.span)) (a + total l + b.span) (a + total l))
          (a + total l) = true ∧ a + total l + headerSize +
        size (setPrev (setNext m (a + total l) (a + total l + b.span)) (a + total l + b.span) (a + total l))
          (a + total l) = a + total l + b.span then
        (true, absorb (setPrev (setNext m (a + total l) (a + total l + b.span)) (a + total l + b.span) (a + total l))
          (a + total l) (a + total l + b.span))
      else (false, setPrev (setNext m (a + total l) (a + total l + b.span)) (a + total l + b.span) (a + total l)) := rfl
  rw [heq, hheader₂.isFree, hheader₂.size]
  generalize setPrev (setNext m (a + total l) (a + total l + b.span)) (a + total l + b.span) (a + total l) = m₂ at *
  have hfocus : Focus m₂ 0 a l b [⟨n, true⟩] := ⟨hfront₂, by rw [first_cons]; exact hheader₂, hnew₂, trivial⟩
  have htouch : a + total l + headerSize + b.size = a + total l + b.span := by rw [hspan, headerSize]; omega
  cases hb : b.free with
  | false =>
    rw [if_neg (by simp)]
    exact ⟨rfl, focus_iff.mp hfocus, hout⟩
  | true =>
    rw [if_pos ⟨rfl, htouch⟩]
    have hbound' : a + total (l ++ [b, ⟨n, true⟩]) ≤ 2 ^ 64 := by
      simp only [total_append, total_cons, total_nil, Block.span, headerSize] at hbound ⊢
      omega
    have hmerged := focus_iff.mp (absorb_focus hfocus hbound').1
    rw [hb] at hmerged
    have hkept := absorb_outside hfocus hbound'
    dsimp only
    exact ⟨rfl, hmerged, fun y hy => (hkept y hy).trans (hout y hy)⟩

end VenturaOS.Heap
