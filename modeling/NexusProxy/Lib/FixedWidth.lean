import Mathlib.Tactic

/-! Two's-complement reduction of integer results, for sums that a machine word
may not hold, and the rounding of integers to floats. -/
namespace FixedWidth

/-- The value a signed 64-bit register holds after the sum `x`. -/
def int64 (x : ℤ) : ℤ := Int.bmod x (2 ^ 64)

def int32 (x : ℤ) : ℤ := Int.bmod x (2 ^ 32)

def maxInt64 : ℤ := 2 ^ 63 - 1

def IsInt64 (x : ℤ) : Prop := -2 ^ 63 ≤ x ∧ x < 2 ^ 63

theorem int64_eq {x : ℤ} (hl : -2 ^ 63 ≤ x) (hu : x < 2 ^ 63) : int64 x = x := by
  apply Int.bmod_eq_of_le <;> norm_num at * <;> assumption

theorem int32_eq {x : ℤ} (hl : -2 ^ 31 ≤ x) (hu : x < 2 ^ 31) : int32 x = x := by
  apply Int.bmod_eq_of_le <;> norm_num at * <;> assumption

theorem int64_overflow {x : ℤ} (hl : 2 ^ 63 ≤ x) (hu : x < 2 ^ 64) : int64 x < 0 := by
  unfold int64
  rw [Int.bmod_def]
  norm_num at *
  have hx : x % 18446744073709551616 = x := Int.emod_eq_of_lt (by omega) hu
  rw [hx]
  split_ifs <;> omega

theorem int64_isInt64 (x : ℤ) : IsInt64 (int64 x) := by
  unfold int64 IsInt64
  constructor
  · exact Int.le_bmod (by decide)
  · exact Int.bmod_lt (by decide)

theorem int64_le_sub {x : ℤ} (h : 2 ^ 63 ≤ x) : int64 x ≤ x - 2 ^ 64 := by
  unfold int64
  rw [Int.bmod_def]
  norm_num at *
  split_ifs <;> omega

theorem int64_le {x : ℤ} (h : -2 ^ 63 ≤ x) : int64 x ≤ x := by
  rcases lt_or_ge x (2 ^ 63) with hlt | hge
  · exact (int64_eq h hlt).le
  · exact (int64_isInt64 x).2.le.trans hge

theorem IsInt64.tmod {a : ℤ} (ha : IsInt64 a) (b : ℤ) : IsInt64 (a.tmod b) := by
  obtain ⟨hl, hu⟩ := ha
  have habs : (a.tmod b).natAbs ≤ a.natAbs := by
    rw [Int.natAbs_tmod]
    exact Nat.mod_le _ _
  rcases le_total 0 a with h | h
  · have hsign := Int.tmod_nonneg b h
    constructor <;> omega
  · have hsign := Int.tmod_nonneg b (Int.neg_nonneg_of_nonpos h)
    rw [Int.neg_tmod] at hsign
    constructor <;> omega

/-- The 64-bit float nearest to `n`, ties to even. -/
def roundFloat64 (n : ℕ) : ℕ :=
  let ulp := 2 ^ (n.log2 - 52)
  let q := n / ulp
  let r := n % ulp
  if 2 * r < ulp ∨ 2 * r = ulp ∧ q % 2 = 0 then q * ulp else (q + 1) * ulp

theorem roundFloat64_eq {n : ℕ} (h : n ≤ 2 ^ 53) : roundFloat64 n = n := by
  rcases h.eq_or_lt with rfl | hlt
  · decide
  have hlog : n.log2 - 52 = 0 := by
    rcases Nat.eq_zero_or_pos n with rfl | hpos
    · decide
    · have := (Nat.log2_lt hpos.ne').mpr hlt
      omega
  simp [roundFloat64, hlog, Nat.mod_one]

theorem roundFloat64_pos {n : ℕ} (h : 0 < n) : 0 < roundFloat64 n := by
  have hulp : 2 ^ (n.log2 - 52) ≤ n :=
    (Nat.pow_le_pow_right (by decide) (Nat.sub_le _ _)).trans (Nat.log2_self_le h.ne')
  have hq : 0 < n / 2 ^ (n.log2 - 52) := Nat.div_pos hulp (by positivity)
  unfold roundFloat64
  dsimp only
  split_ifs <;> positivity

end FixedWidth
