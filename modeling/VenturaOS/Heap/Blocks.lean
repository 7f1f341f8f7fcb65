import VenturaOS.Heap.Model

/-!
# Blocks in memory

The list of blocks a heap memory describes. A segment starts at an address
and holds its blocks back to back; each header names its neighbours. Segments
split where lists do, and depend on the bytes of their headers only.
-/
namespace VenturaOS.Heap
open Library

structure Block where
  size : ℕ
  free : Bool
deriving DecidableEq, Repr

def Block.span (b : Block) : ℕ := headerSize + b.size

def total (l : List Block) : ℕ := (l.map Block.span).sum
def freeSum (l : List Block) : ℕ := (l.map fun b => if b.free then b.size else 0).sum
def usedSum (l : List Block) : ℕ := (l.map fun b => if b.free then 0 else b.size).sum

@[simp] theorem total_nil : total [] = 0 := rfl
@[simp] theorem total_cons (b : Block) (l : List Block) : total (b :: l) = b.span + total l := rfl
@[simp] theorem total_append (l l' : List Block) : total (l ++ l') = total l + total l' := by simp [total]
@[simp] theorem freeSum_append (l l' : List Block) : freeSum (l ++ l') = freeSum l + freeSum l' := by simp [freeSum]
@[simp] theorem usedSum_append (l l' : List Block) : usedSum (l ++ l') = usedSum l + usedSum l' := by simp [usedSum]

section Header

variable {m w : Bytes} {a c p x v : ℕ} {b : Block}

structure Header (m : Bytes) (a : ℕ) (b : Block) (p x : ℕ) : Prop where
  magic : magic m a = heapMagic
  isFree : isFree m a = b.free
  size : size m a = b.size
  prev : prev m a = p
  next : next m a = x

/-- The memories differ in the header at `c` at most. -/
def OnlyHeader (c : ℕ) (m w : Bytes) : Prop := ∀ y, y < c ∨ c + 32 ≤ y → w y = m y

theorem write_only {o w : ℕ} (h : o + w ≤ 32) (m : Bytes) (c v : ℕ) : OnlyHeader c m (m.write (c + o) w v) :=
  fun _ hy => Bytes.write_outside (by omega)

theorem setNext_only (m : Bytes) (c v : ℕ) : OnlyHeader c m (setNext m c v) := write_only (by omega) m c v
theorem setPrev_only (m : Bytes) (c v : ℕ) : OnlyHeader c m (setPrev m c v) := write_only (by omega) m c v
theorem setSize_only (m : Bytes) (c v : ℕ) : OnlyHeader c m (setSize m c v) := write_only (by omega) m c v
theorem setFree_only (m : Bytes) (c : ℕ) (f : Bool) : OnlyHeader c m (setFree m c f) := write_only (by omega) m c _
theorem setMagic_only (m : Bytes) (c : ℕ) : OnlyHeader c m (setMagic m c) := write_only (o := 0) (by omega) m c _

theorem OnlyHeader.refl (c : ℕ) (m : Bytes) : OnlyHeader c m m := fun _ _ => rfl

theorem OnlyHeader.trans {w' : Bytes} (h : OnlyHeader c m w) (h' : OnlyHeader c w w') : OnlyHeader c m w' :=
  fun y hy => (h' y hy).trans (h y hy)

theorem writeHeader_only (m : Bytes) (c n p x : ℕ) : OnlyHeader c m (writeHeader m c n p x) := by
  have h₁ := (setMagic_only m c).trans (setFree_only (setMagic m c) c true)
  have h₂ := h₁.trans (setSize_only (Heap.setFree (setMagic m c) c true) c n)
  exact (h₂.trans (setPrev_only _ c p)).trans (setNext_only _ c x)

theorem isFree_congr (h : w.read (a + 4) 1 = m.read (a + 4) 1) : isFree w a = isFree m a := by
  rw [Heap.isFree, Heap.isFree, h]

theorem Header.frame (h : Header m a b p x) (hs : ∀ y, a ≤ y → y < a + 32 → w y = m y) : Header w a b p x where
  magic := (Bytes.read_congr fun y hy hlt => hs y (by omega) (by omega)).trans h.magic
  isFree := (isFree_congr (Bytes.read_congr fun y hy hlt => hs y (by omega) (by omega))).trans h.isFree
  size := (Bytes.read_congr fun y hy hlt => hs y (by omega) (by omega)).trans h.size
  prev := (Bytes.read_congr fun y hy hlt => hs y (by omega) (by omega)).trans h.prev
  next := (Bytes.read_congr fun y hy hlt => hs y (by omega) (by omega)).trans h.next

theorem Header.only (h : Header m a b p x) (ho : OnlyHeader c m w) (hc : c + 32 ≤ a ∨ a + 32 ≤ c) :
    Header w a b p x :=
  h.frame fun y hy hlt => ho y (by omega)

theorem Header.setNext (h : Header m a b p x) (hv : v < 2 ^ 64) : Header (setNext m a v) a b p v where
  magic := (Bytes.read_write_of_disjoint (by omega)).trans h.magic
  isFree := (isFree_congr (Bytes.read_write_of_disjoint (by omega))).trans h.isFree
  size := (Bytes.read_write_of_disjoint (by omega)).trans h.size
  prev := (Bytes.read_write_of_disjoint (by omega)).trans h.prev
  next := Bytes.read_write hv

theorem Header.setPrev (h : Header m a b p x) (hv : v < 2 ^ 64) : Header (setPrev m a v) a b v x where
  magic := (Bytes.read_write_of_disjoint (by omega)).trans h.magic
  isFree := (isFree_congr (Bytes.read_write_of_disjoint (by omega))).trans h.isFree
  size := (Bytes.read_write_of_disjoint (by omega)).trans h.size
  prev := Bytes.read_write hv
  next := (Bytes.read_write_of_disjoint (by omega)).trans h.next

theorem Header.setSize (h : Header m a b p x) (hv : v < 2 ^ 64) : Header (setSize m a v) a ⟨v, b.free⟩ p x where
  magic := (Bytes.read_write_of_disjoint (by omega)).trans h.magic
  isFree := (isFree_congr (Bytes.read_write_of_disjoint (by omega))).trans h.isFree
  size := Bytes.read_write hv
  prev := (Bytes.read_write_of_disjoint (by omega)).trans h.prev
  next := (Bytes.read_write_of_disjoint (by omega)).trans h.next

theorem isFree_setFree (m : Bytes) (a : ℕ) (f : Bool) : isFree (setFree m a f) a = f := by
  have hread : (Heap.setFree m a f).read (a + 4) 1 = f.toNat := Bytes.read_write (by cases f <;> decide)
  rw [Heap.isFree, hread]
  cases f <;> rfl

theorem Header.setFree (h : Header m a b p x) (f : Bool) : Header (setFree m a f) a ⟨b.size, f⟩ p x where
  magic := (Bytes.read_write_of_disjoint (by omega)).trans h.magic
  isFree := isFree_setFree m a f
  size := (Bytes.read_write_of_disjoint (by omega)).trans h.size
  prev := (Bytes.read_write_of_disjoint (by omega)).trans h.prev
  next := (Bytes.read_write_of_disjoint (by omega)).trans h.next

/-- The header the five stores of the source leave behind. -/
theorem writeHeader_header {n : ℕ} (hn : n < 2 ^ 64) (hp : p < 2 ^ 64) (hx : x < 2 ^ 64) :
    Header (writeHeader m a n p x) a ⟨n, true⟩ p x := by
  have hmagic : Heap.magic (setMagic m a) a = heapMagic := Bytes.read_write (by decide)
  -- after the first store the other four fields are whatever they were
  have h : Header (setMagic m a) a ⟨Heap.size (setMagic m a) a, Heap.isFree (setMagic m a) a⟩
      (Heap.prev (setMagic m a) a) (Heap.next (setMagic m a) a) := ⟨hmagic, rfl, rfl, rfl, rfl⟩
  exact (((h.setFree true).setSize hn).setPrev hp).setNext hx

end Header

/-- The blocks `l` stand back to back from `a`; the header before them is `p`, the one behind `x`. -/
def Seg (m : Bytes) : (p a : ℕ) → List Block → (x : ℕ) → Prop
  | _, _, [], _ => True
  | p, a, b :: l, x => Header m a b p (if l = [] then x else a + b.span) ∧ Seg m a (a + b.span) l x

/-- Address of the last block, or of the header before when there is none. -/
def lastAddr : (p a : ℕ) → List Block → ℕ
  | p, _, [] => p
  | _, a, b :: l => lastAddr a (a + b.span) l

/-- `y` is a byte of one of the headers. -/
def InHeader (a : ℕ) (l : List Block) (y : ℕ) : Prop :=
  ∃ l₁ b l₂, l = l₁ ++ b :: l₂ ∧ a + total l₁ ≤ y ∧ y < a + total l₁ + 32

section Segments

variable {m w : Bytes} {a p x y : ℕ} {b : Block} {l l₁ l₂ : List Block}

theorem lastAddr_snoc (p a : ℕ) (l : List Block) (b : Block) : lastAddr p a (l ++ [b]) = a + total l := by
  induction l generalizing p a with
  | nil => rfl
  | cons c l ih => rw [List.cons_append, lastAddr, ih, total_cons, Nat.add_assoc]

theorem seg_append : Seg m p a (l₁ ++ l₂) x ↔
    Seg m p a l₁ (if l₂ = [] then x else a + total l₁) ∧ Seg m (lastAddr p a l₁) (a + total l₁) l₂ x := by
  induction l₁ generalizing p a with
  | nil => simp [Seg, lastAddr]
  | cons b l₁ ih =>
    rw [List.cons_append, Seg, Seg, ih, total_cons, ← Nat.add_assoc, lastAddr, and_assoc]
    refine and_congr_left fun _ => ?_
    rcases List.eq_nil_or_concat l₁ with rfl | ⟨l, c, rfl⟩
    · simp
    · simp

theorem inHeader_append : InHeader a (l₁ ++ l₂) y ↔ InHeader a l₁ y ∨ InHeader (a + total l₁) l₂ y := by
  constructor
  · rintro ⟨k₁, b, k₂, he, hy⟩
    rcases List.append_eq_append_iff.mp he with ⟨r, rfl, hr⟩ | ⟨r, rfl, hr⟩
    · exact .inr ⟨r, b, k₂, hr, by rw [total_append] at hy; omega⟩
    · cases r with
      | nil =>
        refine .inr ⟨[], b, k₂, by simpa using hr.symm, ?_⟩
        simpa using hy
      | cons c r =>
        rw [List.cons_append] at hr
        rcases List.cons.inj hr with ⟨rfl, -⟩
        exact .inl ⟨k₁, b, r, rfl, hy⟩
  · rintro (⟨k₁, b, k₂, rfl, hy⟩ | ⟨k₁, b, k₂, rfl, hy⟩)
    · exact ⟨k₁, b, k₂ ++ l₂, by simp, hy⟩
    · exact ⟨l₁ ++ k₁, b, k₂, by simp, by rw [total_append]; omega⟩

theorem inHeader_cons : InHeader a (b :: l) y ↔ (a ≤ y ∧ y < a + 32) ∨ InHeader (a + b.span) l y := by
  have h : InHeader a ([b] ++ l) y ↔ InHeader a [b] y ∨ InHeader (a + total [b]) l y := inHeader_append
  rw [List.singleton_append] at h
  rw [h, total_cons, total_nil, Nat.add_zero]
  refine or_congr_left ⟨?_, fun hy => ⟨[], b, [], rfl, by simpa using hy⟩⟩
  rintro ⟨k₁, c, k₂, he, hy⟩
  cases k₁ with
  | nil => simpa using hy
  | cons d k₁ => simp at he

theorem InHeader.bounds (h : InHeader a l y) : a ≤ y ∧ y < a + total l := by
  rcases h with ⟨l₁, b, l₂, rfl, hy⟩
  rw [total_append, total_cons, Block.span, headerSize]
  omega

/-- A segment is determined by the bytes of its headers. -/
theorem Seg.frame (h : Seg m p a l x) (hs : ∀ y, InHeader a l y → w y = m y) : Seg w p a l x := by
  induction l generalizing p a with
  | nil => trivial
  | cons b l ih =>
    rcases h with ⟨hb, hl⟩
    refine ⟨hb.frame fun y hy hlt => hs y (inHeader_cons.mpr (.inl ⟨hy, hlt⟩)), ih hl fun y hy => ?_⟩
    exact hs y (inHeader_cons.mpr (.inr hy))

/-- What stands wholly before or behind a changed range. -/
theorem Seg.outside (h : Seg m p a l x) {c n : ℕ} (hs : ∀ y, y < c ∨ c + n ≤ y → w y = m y)
    (hc : a + total l ≤ c ∨ c + n ≤ a) : Seg w p a l x :=
  h.frame fun y hy => hs y (by have := hy.bounds; omega)

end Segments

section Walks

variable {m : Bytes} {a p fuel : ℕ} {l : List Block}

/-- Where a walk over the blocks from `a` begins. -/
def first (a : ℕ) (l : List Block) : ℕ := if l = [] then 0 else a

@[simp] theorem first_nil (a : ℕ) : first a [] = 0 := rfl
@[simp] theorem first_cons (a : ℕ) (b : Block) (l : List Block) : first a (b :: l) = a := if_neg (List.cons_ne_nil b l)

theorem length_le_total (l : List Block) : 32 * l.length ≤ total l := by
  induction l with
  | nil => rfl
  | cons b l ih =>
    rw [total_cons, List.length_cons, Block.span, headerSize]
    omega

/-- The scan stops at the first free block that is large enough. -/
theorem findFit_cases (h : Seg m p a l 0) (ha : a ≠ 0) (hf : l.length ≤ fuel) (check : Bool) (requested : ℕ) :
    (findFit check m requested fuel (first a l) = some .exhausted ∧ ∀ b ∈ l, ¬(b.free = true ∧ requested ≤ b.size)) ∨
      ∃ l₁ b l₂, l = l₁ ++ b :: l₂ ∧ b.free = true ∧ requested ≤ b.size ∧
        (∀ c ∈ l₁, ¬(c.free = true ∧ requested ≤ c.size)) ∧
        findFit check m requested fuel (first a l) = some (.found (a + total l₁)) := by
  induction l generalizing p a fuel with
  | nil =>
    left
    rw [first_nil]
    cases fuel <;> exact ⟨rfl, by simp⟩
  | cons b l ih =>
    rcases h with ⟨hb, hl⟩
    rcases fuel with _ | fuel
    · cases hf
    rcases a with _ | a
    · exact absurd rfl ha
    rw [first_cons]
    by_cases hfit : b.free = true ∧ requested ≤ b.size
    · refine .inr ⟨[], b, l, rfl, hfit.1, hfit.2, by simp, ?_⟩
      simp [findFit, hb.magic, hb.isFree, hb.size, hfit.1, hfit.2]
    · have hnext : findFit check m requested (fuel + 1) (a + 1) =
          findFit check m requested fuel (first (a + 1 + b.span) l) := by
        have hno : ¬((b.free && decide (requested ≤ b.size)) = true) := by simpa using hfit
        rw [findFit, hb.magic, hb.isFree, hb.size, hb.next, if_neg hno]
        simp [first]
      rw [hnext]
      -- the block just passed joins those that do not fit
      have hpass {l' : List Block} (hall : ∀ c ∈ l', ¬(c.free = true ∧ requested ≤ c.size)) :
          ∀ c ∈ b :: l', ¬(c.free = true ∧ requested ≤ c.size) := by
        intro c hc
        rcases List.mem_cons.mp hc with rfl | hc
        · exact hfit
        · exact hall c hc
      rcases ih hl (by omega) (by simpa using hf) with ⟨he, hall⟩ | ⟨l₁, c, l₂, rfl, hc, hsize, hall, he⟩
      · exact .inl ⟨he, hpass hall⟩
      · exact .inr ⟨b :: l₁, c, l₂, rfl, hc, hsize, hpass hall, by rw [he, total_cons, Nat.add_assoc]⟩

theorem lastBlock_eq (h : Seg m p a l 0) (hne : l ≠ []) (hf : l.length ≤ fuel) (ha : a ≠ 0) :
    lastBlock m fuel a = some (lastAddr p a l) := by
  induction l generalizing p a fuel with
  | nil => exact absurd rfl hne
  | cons b l ih =>
    rcases h with ⟨hb, hl⟩
    rcases fuel with _ | fuel
    · cases hf
    rw [lastBlock, hb.next]
    by_cases hnil : l = []
    · subst hnil
      rfl
    · rw [if_neg hnil, if_neg (by omega), ih hl hnil (by simpa using hf) (by omega)]
      rfl

theorem tally_eq (h : Seg m p a l 0) (ha : a ≠ 0) (hal : a % 16 = 0) (hsize : ∀ b ∈ l, b.size % 16 = 0)
    (hf : l.length ≤ fuel) (acc : Tally) :
    tally m fuel (first a l) acc =
      some (.ok ⟨acc.total + total l, acc.free + freeSum l, acc.alloc + usedSum l⟩) := by
  induction l generalizing p a fuel acc with
  | nil =>
    rw [first_nil]
    cases fuel <;> rfl
  | cons b l ih =>
    rcases h with ⟨hb, hl⟩
    rcases fuel with _ | fuel
    · cases hf
    have hb16 := hsize b (by simp)
    have hstep : tally m (fuel + 1) a acc = tally m fuel (first (a + b.span) l)
        ⟨acc.total + b.span, if b.free then acc.free + b.size else acc.free,
          if b.free then acc.alloc else acc.alloc + b.size⟩ := by
      rcases a with _ | a
      · exact absurd rfl ha
      have hback : ¬(next m (a + 1) ≠ 0 ∧ prev m (next m (a + 1)) ≠ a + 1) := by
        rw [hb.next]
        cases l with
        | nil => simp
        | cons c l => simpa using hl.1.prev
      have hpay : ¬ payloadPtr (a + 1) % 16 ≠ 0 := by
        rw [payloadPtr, headerSize]
        omega
      rw [tally, if_neg (by simp [hb.magic]), if_neg hback, if_neg hpay, hb.isFree, hb.size, hb.next]
      rfl
    rw [first_cons, hstep, ih hl (by omega) (by rw [Block.span, headerSize]; omega)
      (fun c hc => hsize c (by simp [hc])) (by simpa using hf), total_cons]
    simp only [freeSum, usedSum, List.map_cons, List.sum_cons]
    cases b.free <;> simp [Nat.add_assoc]

end Walks
end VenturaOS.Heap
