import VenturaOS.Heap.Payloads

/-!
# First fit

An allocation takes the first free block that is large enough. When there is
none it grows the heap once, and the second scan then does what the first
would do on the larger heap.
-/
namespace VenturaOS.Heap
open Library Memory Vmm

def Fits (req : ℕ) (b : Block) : Prop := b.free = true ∧ req ≤ b.size

/-- The block of `n` bytes behind `l₁` is the first that fits. -/
structure FirstFit (req : ℕ) (l l₁ : List Block) (n : ℕ) (l₂ : List Block) : Prop where
  split : l = l₁ ++ ⟨n, true⟩ :: l₂
  fit : req ≤ n
  first : ∀ b ∈ l₁, ¬ Fits req b

section

variable {k k' : Kernel} {l l₁ l₂ l₁' l₂' : List Block} {n n' req : ℕ} {layout : Layout}

theorem FirstFit.unique (h : FirstFit req l l₁ n l₂) (h' : FirstFit req l l₁' n' l₂') : l₁ = l₁' ∧ n = n' ∧ l₂ = l₂' := by
  have he := h.split.symm.trans h'.split
  rcases List.append_eq_append_iff.mp he with ⟨r, hr, hrest⟩ | ⟨r, hr, hrest⟩
  · cases r with
    | nil =>
      rw [List.nil_append] at hrest
      cases hrest
      exact ⟨by simpa using hr.symm, rfl, rfl⟩
    | cons b r =>
      rw [List.cons_append] at hrest
      rcases List.cons.inj hrest with ⟨rfl, -⟩
      exact absurd ⟨rfl, h.fit⟩ (h'.first ⟨n, true⟩ (by rw [hr]; simp))
  · cases r with
    | nil =>
      rw [List.nil_append] at hrest
      cases hrest
      exact ⟨by simpa using hr, rfl, rfl⟩
    | cons b r =>
      rw [List.cons_append] at hrest
      rcases List.cons.inj hrest with ⟨rfl, -⟩
      exact absurd ⟨rfl, h'.fit⟩ (h.first ⟨n', true⟩ (by rw [hr]; simp))

theorem FirstFit.exists (h : ∃ b ∈ l, Fits req b) : ∃ l₁ n l₂, FirstFit req l l₁ n l₂ := by
  induction l with
  | nil => simp at h
  | cons b l ih =>
    by_cases hb : Fits req b
    · rcases b with ⟨n, free⟩
      rcases hb with ⟨rfl, hfit⟩
      exact ⟨[], n, l, rfl, hfit, by simp⟩
    · rcases h with ⟨c, hc, hfit⟩
      rcases List.mem_cons.mp hc with rfl | hc
      · exact absurd hfit hb
      · rcases ih ⟨c, hc, hfit⟩ with ⟨l₁, n, l₂, hsplit, hle, hfirst⟩
        refine ⟨b :: l₁, n, l₂, by rw [hsplit]; rfl, hle, fun d hd => ?_⟩
        rcases List.mem_cons.mp hd with rfl | hd
        · exact hb
        · exact hfirst d hd

theorem Rep.finds (hr : Rep k.heap k.bytes l) (check : Bool) (hf : FirstFit req l l₁ n l₂) :
    findFit check k.bytes req (walkLimit k.heap) k.heap.head = some (.found (k.heap.start + total l₁)) := by
  rcases hr.scan check req with ⟨-, hnone⟩ | ⟨l₁', n', l₂', hl, hfit, hfirst, hscan⟩
  · exact absurd ⟨rfl, hf.fit⟩ (hnone ⟨n, true⟩ (by rw [hf.split]; simp))
  · rcases hf.unique ⟨hl, hfit, hfirst⟩ with ⟨rfl, -, -⟩
    exact hscan

theorem Rep.finds_none (hr : Rep k.heap k.bytes l) (check : Bool) (hnone : ∀ b ∈ l, ¬ Fits req b) :
    findFit check k.bytes req (walkLimit k.heap) k.heap.head = some .exhausted := by
  rcases hr.scan check req with ⟨hscan, -⟩ | ⟨l₁, n, l₂, rfl, hfit, -, -⟩
  · exact hscan
  · exact absurd ⟨rfl, hfit⟩ (hnone ⟨n, true⟩ (by simp))

theorem Rep.allocate_fit (hr : Rep k.heap k.bytes l) (hinit : k.heap.initialized = true) (hsize : layout.size ≠ 0)
    (hf : FirstFit layout.requestedSize l l₁ n l₂) :
    Heap.allocate layout k = some (Heap.takeBlock (k.heap.start + total l₁) layout.requestedSize k) :=
  allocate_found hsize hinit (hr.finds true hf)

theorem Rep.allocate_grow (hr : Rep k.heap k.bytes l) (hinit : k.heap.initialized = true)
    (hend : k.heap.currentEnd + 0x80000 < 2 ^ 64) (hsize : layout.size ≠ 0)
    (hnone : ∀ b ∈ l, ¬ Fits layout.requestedSize b) :
    (∃ k₁, Heap.expandHeap layout.requestedSize k = some (false, k₁) ∧ k₁.heap = k.heap ∧ k₁.bytes = k.bytes ∧
      Heap.allocate layout k = some (0, k₁)) ∨
    ∃ k₁ l' l₁ n l₂, Heap.expandHeap layout.requestedSize k = some (true, k₁) ∧ Rep k₁.heap k₁.bytes l' ∧
      k₁.heap.initialized = true ∧ k₁.heap.start = k.heap.start ∧ FirstFit layout.requestedSize l' l₁ n l₂ ∧
      Heap.allocate layout k = some (Heap.takeBlock (k₁.heap.start + total l₁) layout.requestedSize k₁) := by
  have hscan := hr.finds_none true hnone
  rcases hr.expandHeap layout.requestedSize hend with
    ⟨k₁, he, hheap, hbytes⟩ | ⟨k₁, l', he, hr', hkeeps, -, hready, ⟨b, hb, hfree, hfit⟩, l₀, d, m, rfl, rfl⟩
  · exact .inl ⟨k₁, he, hheap, hbytes, allocate_stuck hsize hinit hscan he⟩
  · rcases FirstFit.exists ⟨b, hb, hfree, hfit⟩ with ⟨l₁, n, l₂, hf⟩
    exact .inr ⟨k₁, _, l₁, n, l₂, he, hr', hready.trans hinit, hkeeps.start, hf,
      allocate_grown hsize hinit hscan he (hr'.finds false hf)⟩

end
end VenturaOS.Heap
