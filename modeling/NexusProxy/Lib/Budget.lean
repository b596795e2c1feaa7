import Mathlib.Algebra.Order.Floor.Ring
import Mathlib.Data.Rat.Floor
import Mathlib.Tactic

/-! Portions taken one after another from a budget, where every portion but the last has a
least size. -/
namespace Budget

/-- Each portion is positive, and it is a whole step or all that is left. -/
inductive Spends (step : ℤ) : ℤ → List ℤ → Prop
  | nil (left : ℤ) : Spends step left []
  | cons {left d : ℤ} {ds : List ℤ} (pos : 0 < d) (most : d ≤ left) (least : step ≤ d ∨ d = left)
      (rest : Spends step (left - d) ds) : Spends step left (d :: ds)

namespace Spends

variable {step left : ℤ} {ds : List ℤ}

theorem forall_pos (h : Spends step left ds) : ∀ d ∈ ds, 0 < d := by
  induction h with
  | nil => simp
  | cons pos _ _ _ ih => exact List.forall_mem_cons.mpr ⟨pos, ih⟩

theorem sum_le (h : Spends step left ds) (hleft : 0 ≤ left) : ds.sum ≤ left := by
  induction h with
  | nil => simpa using hleft
  | cons pos most _ _ ih =>
    have hrest := ih (by omega)
    rw [List.sum_cons]
    omega

theorem steps_lt (h : Spends step left ds) (hds : ds ≠ []) :
    ((ds.length : ℤ) - 1) * step < left := by
  induction h with
  | nil => exact absurd rfl hds
  | @cons left d ds pos most least rest ih =>
    rw [List.length_cons, Nat.cast_succ, add_sub_cancel_right]
    rcases eq_or_ne ds [] with rfl | hne
    · simpa using pos.trans_le most
    · have hlast := ih hne
      rcases least with hstep | rfl
      · linarith
      · cases rest with
        | nil => exact absurd rfl hne
        | cons hd hle _ _ => omega

theorem length_le_ceil (h : Spends step left ds) (hstep : 0 < step) (hleft : 0 ≤ left) :
    (ds.length : ℤ) ≤ ⌈(left : ℚ) / step⌉ := by
  have hstep' : (0 : ℚ) < step := by exact_mod_cast hstep
  rcases eq_or_ne ds [] with rfl | hne
  · have hleft' : (0 : ℚ) ≤ left := by exact_mod_cast hleft
    simpa using Int.ceil_nonneg (div_nonneg hleft' hstep'.le)
  · have hlt : (((ds.length : ℤ) - 1 : ℤ) : ℚ) < (left : ℚ) / step := by
      rw [lt_div_iff₀ hstep']
      exact_mod_cast h.steps_lt hne
    have := Int.lt_ceil.mpr hlt
    omega

end Spends

end Budget
