import Mathlib.Data.List.Basic
import Mathlib.Tactic.Ring

/-! Writing into parts of a slice of fixed length, and words in big-endian order. -/
namespace Slices

section Copy

variable {α : Type*}

/-- `copy(dst[at:], src)`: as much of the source as there is room for. -/
def copyAt (dst : List α) (pos : ℕ) (src : List α) : List α :=
  dst.take pos ++ src.take (dst.length - pos) ++ dst.drop (pos + src.length)

theorem copyAt_append (before after : List α) {old src : List α} (h : src.length = old.length) :
    copyAt (before ++ old ++ after) before.length src = before ++ src ++ after := by
  have htake : (before ++ old ++ after).take before.length = before := by
    rw [List.append_assoc, List.take_left]
  have hdrop : (before ++ old ++ after).drop (before.length + src.length) = after := by
    rw [h, ← List.length_append, List.drop_left]
  have hroom : src.take ((before ++ old ++ after).length - before.length) = src := by
    apply List.take_of_length_le
    simp only [List.length_append]
    omega
  rw [copyAt, htake, hdrop, hroom]

end Copy

/-- The last `width` bytes of a number, the highest first. -/
def bigEndian : ℕ → ℕ → List UInt8
  | 0, _ => []
  | width + 1, n => UInt8.ofNat (n / 256 ^ width) :: bigEndian width n

/-- The number that bytes stand for, the highest first. -/
def ofBigEndian (bytes : List UInt8) : ℕ := bytes.foldl (fun n b => 256 * n + b.toNat) 0

@[simp] theorem length_bigEndian (width n : ℕ) : (bigEndian width n).length = width := by
  induction width with
  | zero => rfl
  | succ width ih => simp [bigEndian, ih]

theorem foldl_bigEndian (width n high : ℕ) :
    (bigEndian width n).foldl (fun n b => 256 * n + b.toNat) high =
      high * 256 ^ width + n % 256 ^ width := by
  induction width generalizing high with
  | zero => simp [bigEndian, Nat.mod_one]
  | succ width ih =>
    have hsplit : n % 256 ^ (width + 1) =
        n % 256 ^ width + 256 ^ width * (n / 256 ^ width % 256) := Nat.mod_mul
    rw [bigEndian, List.foldl_cons, ih, UInt8.toNat_ofNat', hsplit]
    ring

theorem ofBigEndian_bigEndian {width n : ℕ} (h : n < 256 ^ width) :
    ofBigEndian (bigEndian width n) = n := by
  rw [ofBigEndian, foldl_bigEndian, Nat.zero_mul, Nat.zero_add, Nat.mod_eq_of_lt h]

end Slices
