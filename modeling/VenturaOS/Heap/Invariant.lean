import VenturaOS.Heap.Operations

/-!
# The representation invariant of the heap

The heap state and its bytes describe one list of blocks that tiles the heap,
and the counters are the sums over that list. Taking a block, adding pages and
freeing a block keep this, each with the new list spelled out.
-/
namespace VenturaOS.Heap
open Library Memory Vmm

/-- No two neighbours are both free. -/
def Apart (l : List Block) : Prop := l.IsChain fun b d => ¬(b.free = true ∧ d.free = true)

/-- The list of blocks that a heap state and its bytes describe. -/
structure Rep (h : HeapState) (m : Bytes) (l : List Block) : Prop where
  seg : Seg m 0 h.start l 0
  head : h.head = h.start
  nonempty : l ≠ []
  stop : h.start + total l = h.currentEnd
  bound : h.currentEnd < 2 ^ 64
  aligned : h.start % 16 = 0
  pos : h.start ≠ 0
  sized : ∀ b ∈ l, b.size % 16 = 0 ∧ 16 ≤ b.size
  apart : Apart l
  totalBytes : h.stats.totalBytes = total l
  freeBytes : h.stats.freeBytes = freeSum l
  allocatedBytes : h.stats.allocatedBytes = usedSum l

section

variable {h : HeapState} {m w : Bytes} {k : Kernel} {l l₁ l₂ : List Block} {b : Block} {n req : ℕ}

theorem Rep.length_le (hr : Rep h m l) : l.length ≤ walkLimit h := by
  have hlen := length_le_total l
  have hstop := hr.stop
  rw [walkLimit, headerSize]
  omega

theorem Rep.first (hr : Rep h m l) : first h.start l = h.head := by rw [hr.head, Heap.first, if_neg hr.nonempty]

/-- `verify_invariants` finds nothing to report. -/
theorem Rep.verify (hr : Rep k.heap k.bytes l) (hinit : k.heap.initialized = true) : verifyInvariants k = some (.ok ()) := by
  have htally := tally_eq hr.seg hr.pos hr.aligned (fun b hb => (hr.sized b hb).1) hr.length_le ⟨0, 0, 0⟩
  rw [hr.first] at htally
  rw [verifyInvariants, hinit, htally]
  simp [hr.totalBytes, hr.freeBytes, hr.allocatedBytes]

/-- What becomes of a free block of `n` bytes that is handed out for `req` bytes. -/
def taken (n req : ℕ) : List Block :=
  if req + 48 ≤ n then [⟨req, false⟩, ⟨n - req - 32, true⟩] else [⟨n, false⟩]

theorem taken_total (n req : ℕ) : total (taken n req) = 32 + n := by
  unfold taken
  split_ifs with hsplit
  · simp only [total_cons, total_nil, Block.span, headerSize]
    omega
  · rfl

/-- The chain condition around a piece in the middle. -/
theorem apart_middle (mid : List Block) (hne : mid ≠ []) : Apart (l₁ ++ (mid ++ l₂)) ↔
    Apart l₁ ∧ Apart mid ∧ Apart l₂ ∧ (∀ b ∈ l₁.getLast?, ∀ d ∈ mid.head?, ¬(b.free = true ∧ d.free = true)) ∧
      ∀ b ∈ mid.getLast?, ∀ d ∈ l₂.head?, ¬(b.free = true ∧ d.free = true) := by
  have hhead : (mid ++ l₂).head? = mid.head? := List.head?_append_of_ne_nil _ hne
  unfold Apart
  rw [List.isChain_append, List.isChain_append, hhead]
  tauto

theorem taken_apart (h : Apart (l₁ ++ ⟨n, true⟩ :: l₂)) (req : ℕ) : Apart (l₁ ++ (taken n req ++ l₂)) := by
  rcases (apart_middle [⟨n, true⟩] (by simp)).mp h with ⟨h₁, -, h₂, hl, hr⟩
  unfold taken
  split_ifs with hsplit
  · refine (apart_middle _ (by simp)).mpr ⟨h₁, by simp [Apart], h₂, by simp, ?_⟩
    simpa using hr
  · exact (apart_middle _ (by simp)).mpr ⟨h₁, by simp [Apart], h₂, by simp, by simp⟩

theorem sums_middle (l₁ mid l₂ : List Block) :
    freeSum (l₁ ++ (mid ++ l₂)) = freeSum l₁ + freeSum mid + freeSum l₂ ∧
      usedSum (l₁ ++ (mid ++ l₂)) = usedSum l₁ + usedSum mid + usedSum l₂ ∧
      total (l₁ ++ (mid ++ l₂)) = total l₁ + total mid + total l₂ := by
  simp only [freeSum_append, usedSum_append, total_append, Nat.add_assoc, and_self]

@[simp] theorem freeSum_cons (b : Block) (l : List Block) :
    freeSum (b :: l) = (if b.free then b.size else 0) + freeSum l := rfl
@[simp] theorem usedSum_cons (b : Block) (l : List Block) :
    usedSum (b :: l) = (if b.free then 0 else b.size) + usedSum l := rfl
@[simp] theorem freeSum_nil : freeSum [] = 0 := rfl
@[simp] theorem usedSum_nil : usedSum [] = 0 := rfl

/-- The state after a block of `n` bytes at `c` was handed out from memory `m`, `header` bytes going to a new header. -/
def handedOut (k : Kernel) (m : Bytes) (c n header : ℕ) : Kernel :=
  { k with
    bytes := setFree m c false
    heap := { k.heap with stats := { k.heap.stats with
      freeBytes := k.heap.stats.freeBytes - header - n
      allocatedBytes := k.heap.stats.allocatedBytes + n
      allocationCount := k.heap.stats.allocationCount + 1 } } }

theorem takeBlock_split {c : ℕ} (hsize : size k.bytes c = n) (hreq : req + 48 ≤ n)
    (hcut : size (splitBlock k.bytes c req) c = req) :
    takeBlock c req k = (c + 32, handedOut k (splitBlock k.bytes c req) c req 32) := by
  have hcond : size k.bytes c - req ≥ headerSize + minBlockPayload := by
    rw [hsize, headerSize, minBlockPayload]
    omega
  simp only [takeBlock, hcond, if_true, hcut]
  rfl

theorem takeBlock_whole {c : ℕ} (hsize : size k.bytes c = n) (hreq : ¬ req + 48 ≤ n) :
    takeBlock c req k = (c + 32, handedOut k k.bytes c n 0) := by
  have hcond : ¬ n - req ≥ headerSize + minBlockPayload := by
    rw [headerSize, minBlockPayload]
    omega
  simp only [takeBlock, hsize, hcond, if_false]
  rfl

theorem Rep.takeBlock (hr : Rep k.heap k.bytes (l₁ ++ ⟨n, true⟩ :: l₂)) (hal : req % 16 = 0) (hmin : 16 ≤ req) :
    (takeBlock (k.heap.start + total l₁) req k).1 = k.heap.start + total l₁ + 32 ∧
      Rep (takeBlock (k.heap.start + total l₁) req k).2.heap (takeBlock (k.heap.start + total l₁) req k).2.bytes
        (l₁ ++ (taken n req ++ l₂)) ∧
      OutsideHeaders k.heap.start (l₁ ++ (taken n req ++ l₂)) k.bytes
        (takeBlock (k.heap.start + total l₁) req k).2.bytes := by
  have hstop := hr.stop
  have hbound := hr.bound
  have hfocus := focus_iff.mpr hr.seg
  rcases sums_middle l₁ [⟨n, true⟩] l₂ with ⟨hfree, hused, htot⟩
  rcases sums_middle l₁ (taken n req) l₂ with ⟨hfree', hused', htot'⟩
  have hcommon : ∀ w, Seg w 0 k.heap.start (l₁ ++ (taken n req ++ l₂)) 0 → ∀ stats : HeapStats,
      stats.totalBytes = k.heap.stats.totalBytes → stats.freeBytes = freeSum (l₁ ++ (taken n req ++ l₂)) →
      stats.allocatedBytes = usedSum (l₁ ++ (taken n req ++ l₂)) →
      Rep { k.heap with stats := stats } w (l₁ ++ (taken n req ++ l₂)) := by
    intro w hseg stats htotal hf hu
    have hsame : total (l₁ ++ (taken n req ++ l₂)) = total (l₁ ++ ⟨n, true⟩ :: l₂) := by
      rw [htot', taken_total]
      simp only [total_append, total_cons, Block.span, headerSize, Nat.add_assoc]
    refine ⟨hseg, hr.head, by unfold taken; split_ifs <;> simp, by rw [hsame]; exact hstop, hbound, hr.aligned, hr.pos,
      ?_, taken_apart hr.apart req, htotal.trans (by rw [hsame]; exact hr.totalBytes), hf, hu⟩
    intro b hb
    have hn := hr.sized ⟨n, true⟩ (by simp)
    simp only [List.mem_append] at hb
    rcases hb with hb | hb | hb
    · exact hr.sized b (by simp [hb])
    · unfold taken at hb
      split_ifs at hb with hsplit
      · simp only [List.mem_cons, List.not_mem_nil, or_false] at hb
        rcases hb with rfl | rfl
        · exact ⟨hal, hmin⟩
        · simp only at hn ⊢
          omega
      · rw [List.mem_singleton.mp hb]
        exact hn
    · exact hr.sized b (by simp [hb])
  have hsize : size k.bytes (k.heap.start + total l₁) = n := hfocus.header.size
  by_cases hsplit : req + 48 ≤ n
  · have htaken : taken n req = [⟨req, false⟩, ⟨n - req - 32, true⟩] := if_pos hsplit
    rcases splitBlock_focus hfocus (by omega) hsplit with ⟨hseg, hout⟩
    have hcut := focus_iff.mpr hseg
    have hmarked := focus_iff.mp (hcut.setFree false)
    rw [takeBlock_split hsize hsplit hcut.header.size]
    refine ⟨rfl, hcommon _ ?_ _ rfl ?_ ?_, ?_⟩
    · rw [htaken]
      exact hmarked
    · rw [hfree', htaken]
      change k.heap.stats.freeBytes - 32 - req = _
      rw [hr.freeBytes]
      simp only [freeSum_append, freeSum_cons, freeSum_nil, if_true, Bool.false_eq_true, if_false]
      omega
    · rw [hused', htaken]
      change k.heap.stats.allocatedBytes + req = _
      rw [hr.allocatedBytes]
      simp only [usedSum_append, usedSum_cons, usedSum_nil, if_true, Bool.false_eq_true, if_false]
      omega
    · intro y hy
      change setFree (splitBlock k.bytes (k.heap.start + total l₁) req) (k.heap.start + total l₁) false y = _
      rw [htaken, inHeader_append, List.cons_append, inHeader_cons] at hy
      rw [setFree_only _ _ _ y, hout y (by rw [inHeader_append, inHeader_cons]; exact hy)]
      rw [not_or, not_or] at hy
      omega
  · have htaken : taken n req = [⟨n, false⟩] := if_neg hsplit
    have hmarked := focus_iff.mp (hfocus.setFree false)
    rw [takeBlock_whole hsize hsplit]
    refine ⟨rfl, hcommon _ ?_ _ rfl ?_ ?_, ?_⟩
    · rw [htaken]
      exact hmarked
    · rw [hfree', htaken]
      change k.heap.stats.freeBytes - 0 - n = _
      rw [hr.freeBytes]
      simp only [freeSum_append, freeSum_cons, freeSum_nil, if_true, Bool.false_eq_true, if_false]
      omega
    · rw [hused', htaken]
      change k.heap.stats.allocatedBytes + n = _
      rw [hr.allocatedBytes]
      simp only [usedSum_append, usedSum_cons, usedSum_nil, if_true, Bool.false_eq_true, if_false]
      omega
    · intro y hy
      change setFree k.bytes (k.heap.start + total l₁) false y = _
      rw [setFree_only _ _ _ y]
      rw [htaken, inHeader_append, List.cons_append, inHeader_cons, not_or, not_or] at hy
      omega

/-- The two subtractions from `free_bytes` in `allocate` stay above zero. -/
def TakeExact (curr requested : ℕ) (k : Kernel) : Prop :=
  let split := size k.bytes curr - requested ≥ headerSize + minBlockPayload
  let m := if split then splitBlock k.bytes curr requested else k.bytes
  (if split then headerSize else 0) + size m curr ≤ k.heap.stats.freeBytes

theorem Rep.takeExact (hr : Rep k.heap k.bytes (l₁ ++ ⟨n, true⟩ :: l₂)) (req : ℕ) :
    TakeExact (k.heap.start + total l₁) req k := by
  have hstop := hr.stop
  have hbound := hr.bound
  have hfocus := focus_iff.mpr hr.seg
  have hsize : size k.bytes (k.heap.start + total l₁) = n := hfocus.header.size
  have hfree : k.heap.stats.freeBytes = freeSum l₁ + (n + freeSum l₂) := by
    rw [hr.freeBytes, freeSum_append, freeSum_cons, if_pos rfl]
  by_cases hsplit : req + 48 ≤ n
  · have hcond : n - req ≥ headerSize + minBlockPayload := by
      rw [headerSize, minBlockPayload]
      omega
    have hcut : size (splitBlock k.bytes (k.heap.start + total l₁) req) (k.heap.start + total l₁) = req :=
      (focus_iff.mpr (splitBlock_focus hfocus (by omega) hsplit).1).header.size
    simp only [TakeExact, hsize, hcond, if_true]
    rw [hcut, hfree, headerSize]
    omega
  · have hcond : ¬ n - req ≥ headerSize + minBlockPayload := by
      rw [headerSize, minBlockPayload]
      omega
    simp only [TakeExact, hsize, hcond, if_false]
    omega

/-- The list after `n` bytes of payload were added behind it. -/
def appended (l : List Block) (b : Block) (n : ℕ) : List Block :=
  if b.free then l ++ [⟨b.size + (32 + n), true⟩] else l ++ [b, ⟨n, true⟩]

theorem appended_sums (l : List Block) (b : Block) (n : ℕ) :
    total (appended l b n) = total (l ++ [b]) + (32 + n) ∧
      freeSum (appended l b n) = freeSum (l ++ [b]) + (if b.free then n + 32 else n) ∧
      usedSum (appended l b n) = usedSum (l ++ [b]) := by
  unfold appended
  cases hb : b.free with
  | false =>
    simp only [Bool.false_eq_true, if_false, total_append, freeSum_append, usedSum_append, total_cons, total_nil,
      freeSum_cons, freeSum_nil, usedSum_cons, usedSum_nil, hb, Block.span, headerSize, if_true, and_true]
    constructor <;> omega
  | true =>
    simp only [if_true, total_append, freeSum_append, usedSum_append, total_cons, total_nil,
      freeSum_cons, freeSum_nil, usedSum_cons, usedSum_nil, hb, Block.span, headerSize, and_true]
    constructor <;> omega

theorem appended_apart (h : Apart (l ++ [b])) (n : ℕ) : Apart (appended l b n) := by
  rcases List.isChain_append.mp h with ⟨hl, -, hlast⟩
  unfold appended Apart
  cases hb : b.free with
  | false =>
    rw [if_neg (by simp), List.isChain_append]
    exact ⟨hl, by simp [hb], by simp [hb]⟩
  | true =>
    rw [if_pos rfl, List.isChain_append]
    refine ⟨hl, by simp, ?_⟩
    simpa [hb] using hlast

theorem exists_last (hne : l ≠ []) : ∃ l₀ b, l = l₀ ++ [b] := by
  rcases List.eq_nil_or_concat l with rfl | ⟨l₀, b, rfl⟩
  · exact absurd rfl hne
  · exact ⟨l₀, b, List.concat_eq_append⟩

theorem Rep.registerPages {l₀ : List Block} {pages : ℕ} (hr : Rep k.heap k.bytes (l₀ ++ [b])) (hpos : 0 < pages)
    (hend : k.heap.currentEnd + pages * 4096 < 2 ^ 64) :
    ∃ k', Heap.registerPages pages k = some k' ∧ Rep k'.heap k'.bytes (appended l₀ b (pages * 4096 - 32)) ∧
      k'.heap.start = k.heap.start ∧ k'.heap.currentEnd = k.heap.currentEnd + pages * 4096 ∧
      ∀ y, ¬ InHeader k.heap.start (l₀ ++ [b]) y → y < k.heap.currentEnd → k'.bytes y = k.bytes y := by
  have hstop := hr.stop
  have hlast : k.heap.start + total (l₀ ++ [b]) = k.heap.currentEnd := hr.stop
  -- the fresh header is outside the list
  have honly := writeHeader_only k.bytes k.heap.currentEnd (pages * 4096 - 32) 0 0
  have hnew : Header (writeHeader k.bytes k.heap.currentEnd (pages * 4096 - 32) 0 0) k.heap.currentEnd
      ⟨pages * 4096 - 32, true⟩ 0 0 := writeHeader_header (by omega) (by omega) (by omega)
  have hseg := hr.seg.before (w := writeHeader k.bytes k.heap.currentEnd (pages * 4096 - 32) 0 0)
    fun y hy => honly y (by omega)
  have hwalk := lastBlock_eq hseg hr.nonempty hr.length_le hr.pos
  rw [lastAddr_snoc] at hwalk
  have hnew' : Header (writeHeader k.bytes k.heap.currentEnd (pages * 4096 - 32) 0 0)
      (k.heap.start + total (l₀ ++ [b])) ⟨pages * 4096 - 32, true⟩ 0 0 := by
    rw [hlast]
    exact hnew
  rcases appendBlock_seg hseg hnew' (by omega) with ⟨hmerged, hseg', hout⟩
  rw [hlast] at hmerged hseg' hout
  have hrun : Heap.registerPages pages k = some
      { k with
        bytes := (appendBlock (writeHeader k.bytes k.heap.currentEnd (pages * 4096 - 32) 0 0)
          (k.heap.start + total l₀) k.heap.currentEnd).2
        heap := { k.heap with
          head := k.heap.start
          currentEnd := (k.heap.currentEnd + pages * 4096) % 2 ^ 64
          stats := { k.heap.stats with
            totalBytes := k.heap.stats.totalBytes + pages * 4096
            freeBytes := k.heap.stats.freeBytes +
              (if b.free then pages * 4096 - 32 + 32 else pages * 4096 - 32)
            expansionCount := k.heap.stats.expansionCount + 1 } }
        vmm := advanceDynamicCursor (BitVec.ofNat 64 ((k.heap.currentEnd + pages * 4096) % 2 ^ 64)) k.vmm } := by
    have hhead : k.heap.head ≠ 0 := by rw [hr.head]; exact hr.pos
    unfold Heap.registerPages
    simp only [pageSize, headerSize, if_neg hhead]
    rw [hr.head, hwalk]
    simp only [Option.map_some, hmerged]
  rcases appended_sums l₀ b (pages * 4096 - 32) with ⟨htotal, hfree, hused⟩
  have hmod : (k.heap.currentEnd + pages * 4096) % 2 ^ 64 = k.heap.currentEnd + pages * 4096 := Nat.mod_eq_of_lt hend
  rw [hmod] at hrun
  refine ⟨_, hrun, ⟨hseg', rfl, ?_, ?_, hend, hr.aligned, hr.pos, ?_, appended_apart hr.apart _, ?_, ?_, ?_⟩, rfl, rfl, ?_⟩
  · unfold appended
    split_ifs <;> simp
  · change k.heap.start + total (appended l₀ b (pages * 4096 - 32)) = k.heap.currentEnd + pages * 4096
    omega
  · intro d hd
    have hb := hr.sized b (by simp)
    unfold appended at hd
    split_ifs at hd with hfreeb
    · rcases List.mem_append.mp hd with hd | hd
      · exact hr.sized d (by simp [hd])
      · rw [List.mem_singleton.mp hd]
        simp only
        omega
    · simp only [List.mem_append, List.mem_cons, List.not_mem_nil, or_false] at hd
      rcases hd with hd | rfl | rfl
      · exact hr.sized d (by simp [hd])
      · exact hb
      · simp only
        omega
  · change k.heap.stats.totalBytes + pages * 4096 = _
    rw [htotal, hr.totalBytes]
    omega
  · change k.heap.stats.freeBytes + _ = _
    rw [hfree, hr.freeBytes]
  · change k.heap.stats.allocatedBytes = _
    rw [hused, hr.allocatedBytes]
  · intro y hy hlt
    refine (hout y ?_).trans (honly y (by omega))
    have hlist : l₀ ++ [b, ⟨pages * 4096 - 32, true⟩] = (l₀ ++ [b]) ++ [⟨pages * 4096 - 32, true⟩] := by simp
    rw [hlist, inHeader_append, not_or]
    refine ⟨hy, fun hin => ?_⟩
    have := hin.bounds
    omega

end
end VenturaOS.Heap
