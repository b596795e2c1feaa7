import Mathlib.Tactic

/-! What accrues at a constant rate, in whole units: the amount earned in a period is rounded
down, so that cutting a period into pieces can only lose. -/
namespace Accrual

/-- What `rate` units per `period` earn in the time `elapsed`, rounded down. -/
def accrued (period rate elapsed : ℤ) : ℤ := rate * elapsed / period

variable {period rate rate' a b : ℤ}

theorem accrued_nonneg (hp : 0 < period) (hr : 0 ≤ rate) (ha : 0 ≤ a) :
    0 ≤ accrued period rate a :=
  Int.ediv_nonneg (mul_nonneg hr ha) hp.le

theorem accrued_zero (period rate : ℤ) : accrued period rate 0 = 0 := by
  simp [accrued]

theorem accrued_mul_le (hp : 0 < period) (rate a : ℤ) :
    accrued period rate a * period ≤ rate * a :=
  Int.ediv_mul_le _ hp.ne'

theorem le_accrued_iff (hp : 0 < period) (n : ℤ) :
    n ≤ accrued period rate a ↔ n * period ≤ rate * a :=
  Int.le_ediv_iff_mul_le hp

theorem accrued_mono (hp : 0 < period) (hr : 0 ≤ rate) (h : a ≤ b) :
    accrued period rate a ≤ accrued period rate b :=
  Int.ediv_le_ediv hp (mul_le_mul_of_nonneg_left h hr)

theorem accrued_mono_rate (hp : 0 < period) (ha : 0 ≤ a) (h : rate ≤ rate') :
    accrued period rate a ≤ accrued period rate' a :=
  Int.ediv_le_ediv hp (mul_le_mul_of_nonneg_right h ha)

theorem accrued_add_le (hp : 0 < period) (rate a b : ℤ) :
    accrued period rate a + accrued period rate b ≤ accrued period rate (a + b) := by
  rw [le_accrued_iff hp, add_mul, mul_add]
  exact add_le_add (accrued_mul_le hp rate a) (accrued_mul_le hp rate b)

/-- The whole periods in a time and what is left of it earn together what the time earns. -/
theorem accrued_split (hp : 0 < period) (rate a : ℤ) :
    accrued period rate a = rate * (a / period) + rate * (a % period) / period := by
  have hsplit : rate * a = rate * (a % period) + rate * (a / period) * period := by
    calc rate * a = rate * (a % period + period * (a / period)) := by rw [Int.emod_add_mul_ediv]
      _ = rate * (a % period) + rate * (a / period) * period := by ring
  rw [accrued, hsplit, Int.add_mul_ediv_right _ _ hp.ne', add_comm]

/-- Earners at one rate, each for its own time, earn no more than one earner of all their rates
for the longest of the times. -/
theorem sum_accrued_le {ι : Type*} [DecidableEq ι] (hp : 0 < period) (hr : 0 ≤ rate)
    (s : Finset ι) (time : ι → ℤ) (htime : ∀ i ∈ s, time i ≤ a) :
    ∑ i ∈ s, accrued period rate (time i) ≤ accrued period (rate * s.card) a := by
  induction s using Finset.induction_on with
  | empty => simp [accrued]
  | insert i s hi ih =>
    have hhead := accrued_mono hp hr (htime i (Finset.mem_insert_self i s))
    have htail := ih fun j hj => htime j (Finset.mem_insert_of_mem hj)
    have hadd : accrued period rate a + accrued period (rate * s.card) a ≤
        accrued period (rate * (insert i s).card) a := by
      have h1 := accrued_mul_le hp rate a
      have h2 := accrued_mul_le hp (rate * s.card) a
      rw [le_accrued_iff hp, Finset.card_insert_of_notMem hi]
      push_cast
      linarith
    rw [Finset.sum_insert hi]
    linarith

/-- What is earned when the time is cut at the given moments, each piece rounded down and paid up
to `cap`. -/
def accruedInSteps (cap period rate start : ℤ) : List ℤ → ℤ
  | [] => 0
  | t :: ts => min cap (accrued period rate (t - start)) + accruedInSteps cap period rate t ts

theorem accruedInSteps_le (hp : 0 < period) (cap rate start : ℤ) (times : List ℤ) :
    accruedInSteps cap period rate start times ≤
      accrued period rate ((start :: times).getLast (by simp) - start) := by
  induction times generalizing start with
  | nil => simp [accruedInSteps, accrued_zero]
  | cons t ts ih =>
    have hhead : min cap (accrued period rate (t - start)) ≤ accrued period rate (t - start) :=
      min_le_right _ _
    have hadd := accrued_add_le hp rate (t - start) ((t :: ts).getLast (by simp) - t)
    have hrest := ih t
    rw [List.getLast_cons (by simp), accruedInSteps]
    rw [show t - start + ((t :: ts).getLast (by simp) - t) =
      (t :: ts).getLast (by simp) - start by ring] at hadd
    linarith

theorem accruedInSteps_nonneg {cap start : ℤ} {times : List ℤ} (hcap : 0 ≤ cap) (hp : 0 < period)
    (hr : 0 ≤ rate) (hsorted : (start :: times).Pairwise (· ≤ ·)) :
    0 ≤ accruedInSteps cap period rate start times := by
  induction times generalizing start with
  | nil => exact le_rfl
  | cons t ts ih =>
    obtain ⟨hstart, htail⟩ := List.pairwise_cons.mp hsorted
    have hhead := accrued_nonneg hp hr (sub_nonneg.mpr (hstart t (by simp)))
    exact add_nonneg (le_min hcap hhead) (ih htail)

end Accrual
