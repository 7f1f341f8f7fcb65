import VenturaOS.Library.Fields

/-!
# A stack of words in a byte memory

The stack grows downwards, eight bytes a word. What a run of pushes leaves is
what a run of pops takes, and bytes away from the pushed words stay as they
were.
-/
namespace VenturaOS.Library

structure Stack where
  rsp : BitVec 64
  mem : Bytes

namespace Stack

def push (s : Stack) (v : BitVec 64) : Stack := ⟨s.rsp - 8#64, s.mem.write (s.rsp - 8#64).toNat 8 v.toNat⟩

def pushAll (s : Stack) (vs : List (BitVec 64)) : Stack := vs.foldl push s

def top (s : Stack) : BitVec 64 := BitVec.ofNat 64 (s.mem.read s.rsp.toNat 8)

def drop (s : Stack) (n : ℕ) : Stack := ⟨s.rsp + BitVec.ofNat 64 (8 * n), s.mem⟩

/-- The words from the top upwards. -/
def Holds (s : Stack) (ws : List (BitVec 64)) : Prop := s.mem.Holds 8 s.rsp.toNat (ws.map BitVec.toNat)

variable {s : Stack} {v : BitVec 64} {vs ws : List (BitVec 64)} {n : ℕ}

@[simp] theorem holds_nil : s.Holds [] := trivial

@[simp] theorem drop_mem : (s.drop n).mem = s.mem := rfl

theorem drop_zero : s.drop 0 = s := by
  rw [drop, Nat.mul_zero, BitVec.add_zero]

theorem drop_drop (m : ℕ) : (s.drop n).drop m = s.drop (n + m) := by
  rw [drop, drop, drop, Nat.mul_add, BitVec.ofNat_add, BitVec.add_assoc]

theorem push_rsp (h : 8 ≤ s.rsp.toNat) : (s.push v).rsp.toNat = s.rsp.toNat - 8 := by
  change (s.rsp - 8#64).toNat = _
  bv_omega

theorem drop_rsp (h : s.rsp.toNat + 8 * n < 2 ^ 64) : (s.drop n).rsp.toNat = s.rsp.toNat + 8 * n := by
  rw [drop, BitVec.toNat_add, BitVec.toNat_ofNat, Nat.mod_eq_of_lt (show 8 * n < 2 ^ 64 by omega), Nat.mod_eq_of_lt h]

theorem Holds.push (h : s.Holds ws) (hroom : 8 ≤ s.rsp.toNat) : (s.push v).Holds (v :: ws) := by
  have hmem : (s.push v).mem = s.mem.write (s.rsp.toNat - 8) 8 v.toNat := by
    rw [← push_rsp (v := v) hroom]
    rfl
  rw [Holds, hmem, push_rsp hroom, List.map_cons]
  apply Bytes.Holds.push
  · rw [Nat.sub_add_cancel hroom]
    exact h
  · exact v.isLt

theorem push_outside (hroom : 8 ≤ s.rsp.toNat) {y : ℕ} (hy : y < s.rsp.toNat - 8 ∨ s.rsp.toNat ≤ y) :
    (s.push v).mem y = s.mem y := by
  change (s.mem.write (s.push v).rsp.toNat 8 v.toNat) y = _
  rw [push_rsp hroom]
  apply Bytes.write_outside
  omega

@[simp] theorem pushAll_nil : s.pushAll [] = s := rfl

@[simp] theorem pushAll_cons : s.pushAll (v :: vs) = (s.push v).pushAll vs := rfl

theorem pushAll_append : s.pushAll (vs ++ ws) = (s.pushAll vs).pushAll ws := List.foldl_append

theorem pushAll_rsp (h : 8 * vs.length ≤ s.rsp.toNat) : (s.pushAll vs).rsp.toNat = s.rsp.toNat - 8 * vs.length := by
  induction vs generalizing s with
  | nil => rfl
  | cons v vs ih =>
    rw [List.length_cons] at h
    have hone : (s.push v).rsp.toNat = s.rsp.toNat - 8 := push_rsp (by omega)
    rw [pushAll_cons, ih (by omega), hone, List.length_cons]
    omega

theorem Holds.pushAll (h : s.Holds ws) (vs : List (BitVec 64)) (hroom : 8 * vs.length ≤ s.rsp.toNat) :
    (s.pushAll vs).Holds (vs.reverse ++ ws) := by
  induction vs generalizing s ws with
  | nil => exact h
  | cons v vs ih =>
    rw [List.length_cons] at hroom
    have hone : (s.push v).rsp.toNat = s.rsp.toNat - 8 := push_rsp (by omega)
    rw [pushAll_cons, List.reverse_cons, List.append_assoc]
    exact ih (h.push (by omega)) (by omega)

theorem pushAll_outside (hroom : 8 * vs.length ≤ s.rsp.toNat) {y : ℕ}
    (hy : y < s.rsp.toNat - 8 * vs.length ∨ s.rsp.toNat ≤ y) : (s.pushAll vs).mem y = s.mem y := by
  induction vs generalizing s with
  | nil => rfl
  | cons v vs ih =>
    rw [List.length_cons] at hroom hy
    have hone : (s.push v).rsp.toNat = s.rsp.toNat - 8 := push_rsp (by omega)
    rw [pushAll_cons, ih (by omega) (by omega)]
    exact push_outside (by omega) (by omega)

theorem Holds.top (h : s.Holds (v :: ws)) : s.top = v := by
  rw [Stack.top, h.1, BitVec.ofNat_toNat, BitVec.setWidth_eq]

theorem Holds.drop (vs : List (BitVec 64)) (h : s.Holds (vs ++ ws)) (hroom : s.rsp.toNat + 8 * vs.length < 2 ^ 64) :
    (s.drop vs.length).Holds ws := by
  induction vs generalizing s with
  | nil =>
    rw [List.length_nil, drop_zero]
    exact h
  | cons v vs ih =>
    rw [List.length_cons] at hroom
    have hone : (s.drop 1).rsp.toNat = s.rsp.toNat + 8 := drop_rsp (by omega)
    have hnext : (s.drop 1).Holds (vs ++ ws) := by
      rw [Holds, hone]
      exact h.2
    have hrest := ih hnext (by omega)
    rw [drop_drop, Nat.add_comm] at hrest
    exact hrest

theorem Holds.word (h : s.Holds ws) {i : ℕ} (hi : i < ws.length) :
    BitVec.ofNat 64 (s.mem.read (s.rsp.toNat + 8 * i) 8) = ws[i] := by
  rw [Bytes.Holds.get h (by rwa [List.length_map]), List.getElem_map, BitVec.ofNat_toNat, BitVec.setWidth_eq]

theorem Holds.congr (h : s.Holds ws) {t : Stack} (hrsp : t.rsp = s.rsp)
    (hmem : ∀ y, s.rsp.toNat ≤ y → y < s.rsp.toNat + 8 * ws.length → t.mem y = s.mem y) : t.Holds ws := by
  rw [Holds, hrsp]
  apply Bytes.Holds.congr h
  intro y hy hlt
  rw [List.length_map] at hlt
  exact hmem y hy hlt

end Stack
end VenturaOS.Library
