import Mathlib.Data.Nat.Basic
import Mathlib.Logic.Function.Basic
import Mathlib.Tactic.Ring

/-!
# Little-endian words in a byte memory

Reading and writing numbers of a given width. A word that was written reads
back as itself, and a write changes no byte and no word outside its range.
-/
namespace VenturaOS.Library

abbrev Bytes := ℕ → UInt8

namespace Bytes

def read (m : Bytes) : (a n : ℕ) → ℕ
  | _, 0 => 0
  | a, n + 1 => (m a).toNat + 256 * read m (a + 1) n

def write (m : Bytes) : (a n v : ℕ) → Bytes
  | _, 0, _ => m
  | a, n + 1, v => write (Function.update m a (UInt8.ofNat v)) (a + 1) n (v / 256)

def fill (m : Bytes) (a n : ℕ) (b : UInt8) : Bytes := fun x => if a ≤ x ∧ x < a + n then b else m x

/-- Two memories agree on `[a, a + n)`. -/
def Same (m m' : Bytes) (a n : ℕ) : Prop := ∀ x, a ≤ x → x < a + n → m' x = m x

variable {m m' : Bytes} {a b n k v x : ℕ}

theorem read_congr (h : Same m m' a n) : read m' a n = read m a n := by
  induction n generalizing a with
  | zero => rfl
  | succ n ih =>
    rw [read, read, h a le_rfl (by omega), ih fun x hx hlt => h x (by omega) (by omega)]

theorem write_outside (h : x < a ∨ a + n ≤ x) : write m a n v x = m x := by
  induction n generalizing m a v with
  | zero => rfl
  | succ n ih =>
    rw [write, ih (by omega), Function.update_of_ne (by omega)]

theorem read_write (hv : v < 256 ^ n) : read (write m a n v) a n = v := by
  induction n generalizing m a v with
  | zero =>
    rw [pow_zero] at hv
    rw [read]
    omega
  | succ n ih =>
    rw [pow_succ] at hv
    rw [read, write, write_outside (by omega), Function.update_self, ih (by omega), UInt8.toNat_ofNat']
    omega

theorem read_write_of_disjoint (h : a + n ≤ b ∨ b + k ≤ a) : read (write m b k v) a n = read m a n :=
  read_congr fun _ hx hlt => write_outside (by omega)

theorem fill_outside {c : UInt8} (h : x < a ∨ a + n ≤ x) : fill m a n c x = m x := by
  rw [fill, if_neg (by omega)]

theorem fill_inside {c : UInt8} (h : a ≤ x) (hlt : x < a + n) : fill m a n c x = c := by
  rw [fill, if_pos ⟨h, hlt⟩]

/-- The numbers of the list stand one after the other from `a`, `n` bytes each. -/
def Holds (m : Bytes) (n : ℕ) : (a : ℕ) → List ℕ → Prop
  | _, [] => True
  | a, v :: vs => read m a n = v ∧ Holds m n (a + n) vs

/-- Store the numbers of the list from `a` upwards. -/
def writeAll (m : Bytes) (n : ℕ) : (a : ℕ) → List ℕ → Bytes
  | _, [] => m
  | a, v :: vs => writeAll (write m a n v) n (a + n) vs

variable {vs : List ℕ}

theorem Holds.congr (h : Holds m n a vs) (hs : Same m m' a (n * vs.length)) : Holds m' n a vs := by
  induction vs generalizing a with
  | nil => trivial
  | cons v vs ih =>
    rw [List.length_cons, Nat.mul_succ] at hs
    refine ⟨?_, ih h.2 fun x hx hlt => hs x (by omega) (by omega)⟩
    rw [read_congr fun x hx hlt => hs x hx (by omega)]
    exact h.1

theorem writeAll_outside (h : x < a ∨ a + n * vs.length ≤ x) : writeAll m n a vs x = m x := by
  induction vs generalizing m a with
  | nil => rfl
  | cons v vs ih =>
    rw [List.length_cons, Nat.mul_succ] at h
    rw [writeAll, ih (by omega), write_outside (by omega)]

theorem holds_writeAll (h : ∀ v ∈ vs, v < 256 ^ n) : Holds (writeAll m n a vs) n a vs := by
  induction vs generalizing m a with
  | nil => trivial
  | cons v vs ih =>
    refine ⟨?_, ih fun w hw => h w (List.mem_cons_of_mem v hw)⟩
    rw [writeAll, read_congr (m := write m a n v) fun x hx hlt => writeAll_outside (by omega),
      read_write (h v List.mem_cons_self)]

theorem Holds.push (h : Holds m n (a + n) vs) (hv : v < 256 ^ n) : Holds (write m a n v) n a (v :: vs) :=
  ⟨read_write hv, h.congr fun x hx _ => write_outside (by omega)⟩

theorem Holds.write (h : Holds m n a vs) (hd : b + k ≤ a ∨ a + n * vs.length ≤ b) : Holds (write m b k v) n a vs :=
  h.congr fun x hx hlt => write_outside (by omega)

end Bytes
end VenturaOS.Library
