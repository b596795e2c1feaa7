import NexusProxy.Lib.Accrual
import NexusProxy.Lib.FixedWidth

/-! The arithmetic of the bandwidth scheduler: the rates that it works with, and how many bytes a
backend earns in the time since its last refill. Sums and products are those of `int64`. -/
namespace NexusProxy.Bandwidth
open FixedWidth Accrual

/-- `time.Second`, in nanoseconds. -/
def second : ℤ := 1000000000

def millisecond : ℤ := 1000000

def minDeficitCap : ℤ := 128 * 1024

def totalBytesPerSecond (totalMbps : ℤ) : ℤ :=
  if 0 < totalMbps then (int64 (totalMbps * 1000000)).tdiv 8 else 0

/-- The rate of one backend, from the configured total and the number of active backends. -/
def bytesPerSecond (total activeCount : ℤ) : ℤ :=
  let share := total.tdiv (if activeCount ≤ 0 then 1 else activeCount)
  if share ≤ 0 then 1 else share

/-- The seconds and what is left of the last one are paid separately, before the clamp. -/
def refill (bps elapsed : ℤ) : ℤ :=
  let elapsedSec := elapsed.tdiv second
  let elapsedFrac := elapsed.tmod second
  int64 (int64 (bps * elapsedSec) + (int64 (bps * elapsedFrac)).tdiv second)

def bytesToAdd (bps elapsed maxDeficit : ℤ) : ℤ :=
  if maxDeficit < refill bps elapsed then maxDeficit else refill bps elapsed

theorem second_pos : 0 < second := by decide

variable {bps elapsed maxDeficit total n : ℤ}

theorem bytesPerSecond_eq (htotal : 0 ≤ total) (n : ℤ) :
    bytesPerSecond total n = max 1 (total / max 1 n) := by
  have hcount : (if n ≤ 0 then 1 else n) = max 1 n := by
    split_ifs with h <;> omega
  unfold bytesPerSecond
  rw [hcount, Int.tdiv_eq_ediv_of_nonneg htotal]
  dsimp only
  split_ifs with h <;> omega

theorem one_le_bytesPerSecond (total n : ℤ) : 1 ≤ bytesPerSecond total n := by
  unfold bytesPerSecond
  dsimp only
  split_ifs <;> omega

theorem bytesPerSecond_of_le (hn : 1 ≤ n) (hle : n ≤ total) :
    bytesPerSecond total n = total / n := by
  rw [bytesPerSecond_eq (by linarith), max_eq_right hn]
  exact max_eq_right ((Int.le_ediv_iff_mul_le (by linarith)).mpr (by linarith))

theorem bytesPerSecond_le (htotal : 0 < total) (n : ℤ) : bytesPerSecond total n ≤ total := by
  rw [bytesPerSecond_eq htotal.le]
  exact max_le htotal (Int.ediv_le_self _ htotal.le)

theorem totalBytesPerSecond_nonneg {totalMbps : ℤ} (hfit : IsInt64 (totalMbps * 1000000)) :
    0 ≤ totalBytesPerSecond totalMbps := by
  unfold totalBytesPerSecond
  split_ifs with h
  · rw [int64_eq hfit.1 hfit.2]
    exact Int.tdiv_nonneg (by positivity) (by decide)
  · rfl

/-- No product and no sum of a refill is above the largest word. -/
def Fits (bps elapsed : ℤ) : Prop :=
  bps * (elapsed % second) < 2 ^ 63 ∧ bps * elapsed / second < 2 ^ 63

instance (bps elapsed : ℤ) : Decidable (Fits bps elapsed) :=
  inferInstanceAs (Decidable (_ ∧ _))

theorem fits_second (hb : bps < 2 ^ 63) : Fits bps second :=
  ⟨by norm_num [second], by rwa [Int.mul_ediv_cancel _ second_pos.ne']⟩

/-- What is left of the last second is never paid more than it earned. -/
theorem fraction_le {x : ℤ} (hx : 0 ≤ x) : (int64 x).tdiv second ≤ x / second := by
  rw [← Int.tdiv_eq_ediv_of_nonneg hx]
  exact Int.tdiv_le_tdiv second_pos (int64_le (by linarith))

theorem fraction_lt {x : ℤ} (hx : 2 ^ 63 ≤ x) : (int64 x).tdiv second < x / second := by
  have hle : (int64 x).tdiv second ≤ (x - 2 ^ 64).tdiv second :=
    Int.tdiv_le_tdiv second_pos (int64_le_sub hx)
  rcases le_total 0 (x - 2 ^ 64) with h | h
  · rw [Int.tdiv_eq_ediv_of_nonneg h] at hle
    unfold second at *
    omega
  · have hneg : (x - 2 ^ 64).tdiv second ≤ 0 := Int.tdiv_le_tdiv second_pos h
    unfold second at *
    omega

theorem refill_eq_add (hb : 0 ≤ bps) (he : 0 ≤ elapsed)
    (hsum : accrued second bps elapsed < 2 ^ 63) :
    refill bps elapsed =
      bps * (elapsed / second) + (int64 (bps * (elapsed % second))).tdiv second := by
  have hsplit := accrued_split second_pos bps elapsed
  have hsec : 0 ≤ bps * (elapsed / second) := mul_nonneg hb (Int.ediv_nonneg he (by decide))
  have hfrac : 0 ≤ bps * (elapsed % second) := mul_nonneg hb (Int.emod_nonneg _ (by decide))
  have hquot : 0 ≤ bps * (elapsed % second) / second := Int.ediv_nonneg hfrac (by decide)
  have hle := fraction_le hfrac
  have hge : -2 ^ 62 ≤ (int64 (bps * (elapsed % second))).tdiv second := by
    have hword := (int64_isInt64 (bps * (elapsed % second))).1
    exact (by decide : (-2 ^ 62 : ℤ) ≤ (-2 ^ 63 : ℤ).tdiv second).trans
      (Int.tdiv_le_tdiv second_pos hword)
  unfold refill
  rw [Int.tdiv_eq_ediv_of_nonneg he, Int.tmod_eq_emod_of_nonneg he]
  dsimp only
  rw [int64_eq (by linarith) (by linarith : bps * (elapsed / second) < 2 ^ 63)]
  exact int64_eq (by linarith) (by linarith)

theorem refill_eq (hb : 0 ≤ bps) (he : 0 ≤ elapsed) (h : Fits bps elapsed) :
    refill bps elapsed = accrued second bps elapsed := by
  have hfrac : 0 ≤ bps * (elapsed % second) := mul_nonneg hb (Int.emod_nonneg _ (by decide))
  rw [refill_eq_add hb he h.2, int64_eq (by linarith) h.1, Int.tdiv_eq_ediv_of_nonneg hfrac,
    ← accrued_split second_pos]

/-- Wrapped or not, a refill never pays more than the period earned. -/
theorem refill_le (hb : 0 ≤ bps) (he : 0 ≤ elapsed) :
    refill bps elapsed ≤ accrued second bps elapsed := by
  rcases lt_or_ge (accrued second bps elapsed) (2 ^ 63) with hsum | hsum
  · have hle := fraction_le (mul_nonneg hb (Int.emod_nonneg elapsed second_pos.ne'))
    rw [refill_eq_add hb he hsum, accrued_split second_pos]
    exact add_le_add_right hle _
  · exact (int64_isInt64 _).2.le.trans hsum

theorem refill_eq_iff (hb : 0 ≤ bps) (he : 0 ≤ elapsed) :
    refill bps elapsed = accrued second bps elapsed ↔ Fits bps elapsed := by
  refine ⟨fun h => ?_, refill_eq hb he⟩
  have hsum : accrued second bps elapsed < 2 ^ 63 := h ▸ (int64_isInt64 _).2
  refine ⟨?_, hsum⟩
  by_contra hover
  have hlt := fraction_lt (not_lt.mp hover)
  rw [refill_eq_add hb he hsum, accrued_split second_pos] at h
  linarith

theorem bytesToAdd_eq_min (bps elapsed maxDeficit : ℤ) :
    bytesToAdd bps elapsed maxDeficit = min maxDeficit (refill bps elapsed) := by
  unfold bytesToAdd
  split_ifs <;> omega

theorem bytesToAdd_nonneg (hb : 0 ≤ bps) (he : 0 ≤ elapsed) (h : Fits bps elapsed)
    (hmax : 0 ≤ maxDeficit) : 0 ≤ bytesToAdd bps elapsed maxDeficit := by
  rw [bytesToAdd_eq_min, refill_eq hb he h]
  exact le_min hmax (accrued_nonneg second_pos hb he)

/-- The clamped refill is exact under every cap exactly when no product and no sum overflows. A
rate of 74 gigabits per second for one backend is enough to overflow in the last second. -/
theorem bytesToAdd_exact (totalMbps activeCount elapsed : ℤ)
    (hfit : IsInt64 (totalMbps * 1000000)) (helapsed : 0 < elapsed) :
    let bps := max 1 (totalBytesPerSecond totalMbps / max 1 activeCount)
    (∀ maxDeficit, minDeficitCap ≤ maxDeficit →
      bytesToAdd (bytesPerSecond (totalBytesPerSecond totalMbps) activeCount) elapsed maxDeficit =
          min maxDeficit (bps * elapsed / second) ∧
        0 ≤ bytesToAdd (bytesPerSecond (totalBytesPerSecond totalMbps) activeCount) elapsed
          maxDeficit) ↔
      bps * (elapsed % second) < 2 ^ 63 ∧ bps * elapsed / second < 2 ^ 63 := by
  intro bps
  have hbps : 0 ≤ bps := zero_le_one.trans (le_max_left _ _)
  rw [bytesPerSecond_eq (totalBytesPerSecond_nonneg hfit)]
  constructor
  · intro h
    -- a cap above both amounts leaves them as they are
    obtain ⟨hexact, -⟩ :=
      h (max minDeficitCap (max (refill bps elapsed) (accrued second bps elapsed)))
        (le_max_left _ _)
    rw [bytesToAdd_eq_min, min_eq_right (by exact (le_max_left _ _).trans (le_max_right _ _)),
      min_eq_right (by exact (le_max_right _ _).trans (le_max_right _ _))] at hexact
    exact (refill_eq_iff hbps helapsed.le).mp hexact
  · intro h maxDeficit hcap
    have hmax : 0 ≤ maxDeficit := (by decide : 0 ≤ minDeficitCap).trans hcap
    refine ⟨?_, bytesToAdd_nonneg hbps helapsed.le h hmax⟩
    rw [bytesToAdd_eq_min, refill_eq hbps helapsed.le h]
    rfl

theorem bytesToAdd_exact_three_backends :
    let bps := max 1 (totalBytesPerSecond 100 / max 1 3)
    ∀ maxDeficit, minDeficitCap ≤ maxDeficit →
      bytesToAdd (bytesPerSecond (totalBytesPerSecond 100) 3) 1500000000 maxDeficit =
          min maxDeficit (bps * 1500000000 / second) ∧
        0 ≤ bytesToAdd (bytesPerSecond (totalBytesPerSecond 100) 3) 1500000000 maxDeficit :=
  (bytesToAdd_exact 100 3 1500000000 ⟨by decide, by decide⟩ (by decide)).mpr (by decide)

/-- At 80 gigabits per second for one backend, the last nanosecond of a second of idle time turns
the refill into a charge of eight gigabytes. -/
theorem bytesToAdd_negative :
    bytesToAdd (bytesPerSecond (totalBytesPerSecond 80000) 1) 999999999 200000000 = -8446744083 ∧
      min 200000000 (max 1 (totalBytesPerSecond 80000 / max 1 1) * 999999999 / second) =
        200000000 := by
  decide

end NexusProxy.Bandwidth
