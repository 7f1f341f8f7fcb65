import Mathlib.Data.BitVec
import Mathlib.Data.Set.Basic
import Mathlib.Logic.Function.Basic

/-!
# Registers with read-only bits

A file of registers of one width. A write to a register changes those of its
bits that are writable, and leaves the others as they are.
-/
namespace VenturaOS.Library

structure RegisterFile (I : Type) (w : ℕ) where
  /-- The bits of a register that a write changes. -/
  writable : I → BitVec w
  value : I → BitVec w

namespace RegisterFile

variable {I : Type} {w : ℕ} [DecidableEq I]

def write (r : RegisterFile I w) (i : I) (v : BitVec w) : RegisterFile I w :=
  { r with value := Function.update r.value i ((r.value i &&& ~~~r.writable i) ||| (v &&& r.writable i)) }

def writeAll (r : RegisterFile I w) (writes : List (I × BitVec w)) : RegisterFile I w :=
  writes.foldl (fun r p => r.write p.1 p.2) r

/-- The value written is the one the register has, as far as it can be written. -/
def Agrees (r : RegisterFile I w) (i : I) (v : BitVec w) : Prop := v &&& r.writable i = r.value i &&& r.writable i

variable {r : RegisterFile I w} {i j : I} {v mask : BitVec w}

@[simp] theorem writable_write : (r.write i v).writable = r.writable := rfl

theorem write_of_ne (h : j ≠ i) : (r.write i v).value j = r.value j := Function.update_of_ne h _ _

theorem write_self : (r.write i v).value i = (r.value i &&& ~~~r.writable i) ||| (v &&& r.writable i) :=
  Function.update_self _ _ _

theorem write_and (h : mask &&& r.writable i = mask) : (r.write i v).value i &&& mask = v &&& mask := by
  rw [write_self]
  ext k hk
  have hbit : (mask &&& r.writable i)[k] = mask[k] := by rw [h]
  rw [BitVec.getElem_and] at hbit
  simp only [BitVec.getElem_and, BitVec.getElem_or, BitVec.getElem_not]
  cases hmask : mask[k] with
  | false => rw [Bool.and_false, Bool.and_false]
  | true =>
    rw [hmask, Bool.true_and] at hbit
    rw [hbit, Bool.not_true, Bool.and_false, Bool.false_or, Bool.and_true]

theorem write_self_iff : (r.write i v).value i = r.value i ↔ r.Agrees i v := by
  rw [Agrees]
  constructor
  · intro h
    rw [← write_and (r := r) (i := i) (v := v) (BitVec.and_self), h]
  · intro h
    rw [write_self, h, ← BitVec.and_or_distrib_left, BitVec.or_comm]
    ext k hk
    simp

@[simp] theorem writeAll_nil : r.writeAll [] = r := rfl

theorem writeAll_cons (p : I × BitVec w) (writes : List (I × BitVec w)) :
    r.writeAll (p :: writes) = (r.write p.1 p.2).writeAll writes := rfl

@[simp] theorem writable_writeAll (writes : List (I × BitVec w)) : (r.writeAll writes).writable = r.writable := by
  induction writes generalizing r with
  | nil => rfl
  | cons p writes ih => rw [writeAll_cons, ih, writable_write]

theorem writeAll_of_notMem {writes : List (I × BitVec w)} (h : j ∉ writes.map Prod.fst) :
    (r.writeAll writes).value j = r.value j := by
  induction writes generalizing r with
  | nil => rfl
  | cons p writes ih =>
    rw [List.map_cons, List.mem_cons, not_or] at h
    rw [writeAll_cons, ih h.2, write_of_ne h.1]

theorem writeAll_of_mem {writes : List (I × BitVec w)} {p : I × BitVec w} (hd : (writes.map Prod.fst).Nodup)
    (h : p ∈ writes) : (r.writeAll writes).value p.1 = (r.write p.1 p.2).value p.1 := by
  induction writes generalizing r with
  | nil => exact absurd h List.not_mem_nil
  | cons q writes ih =>
    obtain ⟨hq, hd⟩ := List.nodup_cons.mp hd
    rw [writeAll_cons]
    cases List.mem_cons.mp h with
    | inl he => rw [he, writeAll_of_notMem hq]
    | inr hmem =>
      have hne : p.1 ≠ q.1 := fun he => hq (he ▸ List.mem_map_of_mem hmem)
      rw [ih hd hmem, write_self, write_self, write_of_ne hne, writable_write]

/-- Writes to different registers leave the ones outside a set alone just if each of them goes into the set
or writes what is there. -/
theorem writeAll_frame_iff {writes : List (I × BitVec w)} (hd : (writes.map Prod.fst).Nodup) (S : Set I) :
    (∀ j, j ∉ S → (r.writeAll writes).value j = r.value j) ↔ ∀ p ∈ writes, p.1 ∈ S ∨ r.Agrees p.1 p.2 := by
  constructor
  · intro h p hp
    by_cases hin : p.1 ∈ S
    · exact .inl hin
    · have hsame := h p.1 hin
      rw [writeAll_of_mem hd hp] at hsame
      exact .inr (write_self_iff.mp hsame)
  · intro h j hj
    by_cases hmem : j ∈ writes.map Prod.fst
    · obtain ⟨p, hp, rfl⟩ := List.mem_map.mp hmem
      rw [writeAll_of_mem hd hp]
      exact write_self_iff.mpr ((h p hp).resolve_left hj)
    · exact writeAll_of_notMem hmem

end RegisterFile

end VenturaOS.Library
