import NexusProxy.Hub.Reauth
import NexusProxy.Lib.Budget

/-! The wait of `performReauth` for an authorizer under maintenance. The loop has no counter:
it goes on for as long as `deferForMaintenance` finds something left of the session's cap. -/
namespace NexusProxy.Hub
open Budget FixedWidth

/-- What a health request comes to: no answer, or an answer with a status code. -/
inductive Probe
  | failed
  | answered (statusCode : ℤ)
  deriving DecidableEq

/-- `authorizerHealthy`; `none` is an error. -/
def authorizerHealthy : Probe → Option Bool
  | .failed => none
  | .answered statusCode => some (statusCode == 200)

/-- `cryptoRandInt64`. The draw is what `crand.Int` makes its number below `max` of; `none` is
an error of the random source. -/
def cryptoRandInt64 (max : ℤ) (draw : Option ℕ) : Option ℤ :=
  if max ≤ 0 then some 0 else draw.map fun n => (n : ℤ) % max

/-- `jitterDuration`: up to a fifth more, or up to a second where a fifth is nothing. -/
def jitterDuration (base : ℤ) (draw : Option ℕ) : ℤ :=
  if base ≤ 0 then 0
  else
    let jitter := if base.tdiv 5 ≤ 0 then seconds 1 else base.tdiv 5
    match cryptoRandInt64 jitter draw with
    | none => base
    | some n => int64 (base + n)

/-- What one round of the loop meets: the health request, the random draw of a deferral, and
whether the backend is closed while it sleeps. -/
structure Round where
  probe : Probe
  draw : Option ℕ
  quit : Bool

namespace Session

def effectiveCap (maintenanceGraceDefaultSeconds : ℤ) (b : Session) : ℤ :=
  if b.maintenanceCap < 0 then secondsOr maintenanceGraceDefaultSeconds (30 * 60)
  else b.maintenanceCap

/-- The sleep that `deferForMaintenance` starts; `none` when it returns before. -/
def deferral (grace : ℤ) (draw : Option ℕ) (b : Session) : Option ℤ :=
  let capDuration := b.effectiveCap grace
  if capDuration = 0 then none
  else
    let remaining := int64 (capDuration - b.maintenanceUsed)
    if remaining ≤ 0 then none
    else
      let delay :=
        if b.reauthInterval ≤ 0 ∨ remaining < b.reauthInterval then remaining
        else b.reauthInterval
      let jittered := jitterDuration delay draw
      some (if remaining < jittered then remaining else jittered)

/-- `deferForMaintenance`: only a sleep that is not cut short counts as used. -/
def deferForMaintenance (grace : ℤ) (round : Round) (b : Session) : Bool × Session :=
  match b.deferral grace round.draw with
  | none => (false, b)
  | some jittered =>
      if round.quit then (false, b)
      else (true, { b with maintenanceUsed := int64 (b.maintenanceUsed + jittered) })

end Session

/-- How the loop ends: the sleeps it has started, `maintenanceUsed` after each round, and the
session. -/
structure Waited where
  sleeps : List ℤ
  used : List ℤ
  session : Session

def Waited.after (sleep : Option ℤ) (b : Session) (later : Waited) : Waited :=
  { later with sleeps := sleep.toList ++ later.sleeps, used := b.maintenanceUsed :: later.used }

/-- The loop of `performReauth`, for at most `fuel` rounds; `none` when it has not ended. -/
def healthLoop (grace : ℤ) : ℕ → (ℕ → Round) → Session → Option Waited
  | 0, _, _ => none
  | fuel + 1, rounds, b =>
      if authorizerHealthy (rounds 0).probe = some true then
        let b' := { b with maintenanceUsed := 0 }
        some ⟨[], [b'.maintenanceUsed], b'⟩
      else
        let sleep := b.deferral grace (rounds 0).draw
        let (again, b') := b.deferForMaintenance grace (rounds 0)
        if again then (healthLoop grace fuel (fun i => rounds (i + 1)) b').map (.after sleep b')
        else some ⟨sleep.toList, [b'.maintenanceUsed], b'⟩

/-- The first part of `performReauth`: a session without a status URI does not wait. -/
def awaitAuthorizer (grace : ℤ) (fuel : ℕ) (rounds : ℕ → Round) (b : Session) : Option Waited :=
  if b.authorizerStatusURI ≠ [] then healthLoop grace fuel rounds b
  else some ⟨[], [], b⟩

theorem cryptoRandInt64_mem {max n : ℤ} {draw : Option ℕ} (hmax : 0 < max)
    (h : cryptoRandInt64 max draw = some n) : 0 ≤ n ∧ n < max := by
  rw [cryptoRandInt64, if_neg hmax.not_ge, Option.map_eq_some_iff] at h
  obtain ⟨m, -, rfl⟩ := h
  exact ⟨Int.emod_nonneg _ hmax.ne', Int.emod_lt_of_pos _ hmax⟩

/-- The jitter only ever adds: below `2 ^ 62` the sum does not wrap. -/
theorem le_jitterDuration {base : ℤ} (hpos : 0 < base) (hlt : base < 2 ^ 62)
    (draw : Option ℕ) : base ≤ jitterDuration base draw := by
  have hdiv : base.tdiv 5 = base / 5 := Int.tdiv_eq_ediv_of_nonneg hpos.le
  have hsecond : seconds 1 = 10 ^ 9 := by decide
  unfold jitterDuration
  rw [if_neg hpos.not_ge, hdiv, hsecond]
  dsimp only
  generalize hjitter : (if base / 5 ≤ 0 then (10 : ℤ) ^ 9 else base / 5) = jitter
  have hrange : 0 < jitter ∧ jitter < 2 ^ 62 := by
    rw [← hjitter]
    split_ifs <;> omega
  cases hdraw : cryptoRandInt64 jitter draw with
  | none => rfl
  | some n =>
    obtain ⟨hnonneg, hn⟩ := cryptoRandInt64_mem hrange.1 hdraw
    dsimp only
    rw [int64_eq (by omega) (by omega)]
    omega

namespace Session

def left (grace : ℤ) (b : Session) : ℤ := b.effectiveCap grace - b.maintenanceUsed

/-- The session is to be reauthenticated, and it has used no more than its cap. -/
structure Within (grace : ℤ) (b : Session) : Prop where
  interval_pos : 0 < b.reauthInterval
  cap_lt : b.effectiveCap grace < 2 ^ 62
  used_nonneg : 0 ≤ b.maintenanceUsed
  used_le : b.maintenanceUsed ≤ b.effectiveCap grace

variable {grace : ℤ} {b : Session} {draw : Option ℕ} {round : Round}

theorem Within.left_nonneg (h : b.Within grace) : 0 ≤ b.left grace := by
  have := h.used_le
  unfold left
  omega

theorem Within.int64_left (h : b.Within grace) :
    int64 (b.effectiveCap grace - b.maintenanceUsed) = b.left grace := by
  obtain ⟨-, hlt, hnonneg, hle⟩ := h
  exact int64_eq (by omega) (by omega)

theorem Within.deferral_eq_none (h : b.Within grace) (hleft : b.left grace ≤ 0) :
    b.deferral grace draw = none := by
  unfold deferral
  simp only [h.int64_left, if_pos hleft, ite_self]

/-- Every deferral takes a whole interval, or all that is left. -/
theorem Within.deferral_spec (h : b.Within grace) {d : ℤ} (hd : b.deferral grace draw = some d) :
    0 < d ∧ d ≤ b.left grace ∧ (b.reauthInterval ≤ d ∨ d = b.left grace) := by
  have hinterval := h.interval_pos
  have hleft_lt : b.left grace < 2 ^ 62 := by
    have := h.cap_lt
    have := h.used_nonneg
    unfold left
    omega
  unfold deferral at hd
  simp only [h.int64_left] at hd
  split_ifs at hd with hcap hspent hdelay hclamp hclamp
  all_goals
    obtain rfl := Option.some.inj hd
    have hpos : 0 < b.left grace := not_le.mp hspent
  · exact ⟨hpos, le_rfl, Or.inr rfl⟩
  · have := le_jitterDuration hpos hleft_lt draw
    omega
  · exact ⟨hpos, le_rfl, Or.inr rfl⟩
  · have := le_jitterDuration hinterval (by omega) draw
    omega

theorem Within.deferred (h : b.Within grace) {b' : Session}
    (hstep : b.deferForMaintenance grace round = (true, b')) :
    ∃ d, b.deferral grace round.draw = some d ∧
      b' = { b with maintenanceUsed := b.maintenanceUsed + d } := by
  unfold deferForMaintenance at hstep
  cases hd : b.deferral grace round.draw with
  | none => simp [hd] at hstep
  | some d =>
    obtain ⟨hpos, hmost, -⟩ := h.deferral_spec hd
    obtain ⟨-, hlt, hnonneg, hle⟩ := h
    unfold left at hmost
    cases hquit : round.quit
    · rw [hd, hquit] at hstep
      obtain rfl := (Prod.mk.inj hstep).2
      rw [int64_eq (by omega) (by omega)]
      exact ⟨d, rfl, rfl⟩
    · simp [hd, hquit] at hstep

theorem deferForMaintenance_false {b' : Session}
    (hstep : b.deferForMaintenance grace round = (false, b')) : b' = b := by
  unfold deferForMaintenance at hstep
  split at hstep
  · exact (Prod.mk.inj hstep).2.symm
  · split_ifs at hstep
    · exact (Prod.mk.inj hstep).2.symm
    · cases (Prod.mk.inj hstep).1

theorem Within.spend (h : b.Within grace) {d : ℤ} (hnonneg : 0 ≤ d) (hmost : d ≤ b.left grace) :
    Within grace { b with maintenanceUsed := b.maintenanceUsed + d } where
  interval_pos := h.interval_pos
  cap_lt := h.cap_lt
  used_nonneg := add_nonneg h.used_nonneg hnonneg
  used_le := by
    have := h.used_le
    change b.maintenanceUsed + d ≤ b.effectiveCap grace
    unfold left at hmost
    omega

theorem left_spend (d : ℤ) :
    left grace { b with maintenanceUsed := b.maintenanceUsed + d } = b.left grace - d :=
  (sub_sub _ _ _).symm

end Session

/-- The loop spends what is left of the cap in portions of at least one interval, and what is
used stays within the cap after every round. -/
structure Waited.Spends (grace : ℤ) (b : Session) (ended : Waited) : Prop where
  spends : Budget.Spends b.reauthInterval (b.left grace) ended.sleeps
  used : ∀ used ∈ ended.used, 0 ≤ used ∧ used ≤ b.effectiveCap grace

theorem healthLoop_defer {grace : ℤ} {rounds : ℕ → Round} {b b' : Session} (fuel : ℕ)
    (hhealthy : authorizerHealthy (rounds 0).probe ≠ some true)
    (hstep : b.deferForMaintenance grace (rounds 0) = (true, b')) :
    healthLoop grace (fuel + 1) rounds b =
      (healthLoop grace fuel (fun i => rounds (i + 1)) b').map
        (.after (b.deferral grace (rounds 0).draw) b') := by
  rw [healthLoop, if_neg hhealthy, hstep]
  rfl

theorem healthLoop_spends (grace : ℤ) (fuel : ℕ) (rounds : ℕ → Round) {b : Session}
    (h : b.Within grace) {ended : Waited} (hrun : healthLoop grace fuel rounds b = some ended) :
    ended.Spends grace b := by
  induction fuel generalizing rounds b ended with
  | zero => cases hrun
  | succ fuel ih =>
    by_cases hhealthy : authorizerHealthy (rounds 0).probe = some true
    · rw [healthLoop, if_pos hhealthy] at hrun
      obtain rfl := Option.some.inj hrun
      exact ⟨.nil _, by simpa using h.used_nonneg.trans h.used_le⟩
    rcases hstep : b.deferForMaintenance grace (rounds 0) with ⟨again, b'⟩
    cases again with
    | false =>
      rw [healthLoop, if_neg hhealthy, hstep] at hrun
      obtain rfl := Option.some.inj hrun
      obtain rfl := Session.deferForMaintenance_false hstep
      refine ⟨?_, by simpa using ⟨h.used_nonneg, h.used_le⟩⟩
      -- a sleep that is cut short was started for at most what is left
      cases hd : b'.deferral grace (rounds 0).draw with
      | none => exact .nil _
      | some d =>
        obtain ⟨hpos, hmost, hleast⟩ := h.deferral_spec hd
        exact .cons hpos hmost hleast (.nil _)
    | true =>
      rw [healthLoop_defer fuel hhealthy hstep] at hrun
      obtain ⟨later, hlater, rfl⟩ := Option.map_eq_some_iff.mp hrun
      obtain ⟨d, hd, rfl⟩ := h.deferred hstep
      obtain ⟨hpos, hmost, hleast⟩ := h.deferral_spec hd
      have hnext := h.spend hpos.le hmost
      obtain ⟨hspends, hused⟩ := ih _ hnext hlater
      rw [Session.left_spend] at hspends
      rw [hd]
      refine ⟨.cons hpos hmost hleast hspends, ?_⟩
      exact List.forall_mem_cons.mpr ⟨⟨hnext.used_nonneg, hnext.used_le⟩, hused⟩

theorem healthLoop_stop {grace : ℤ} {rounds : ℕ → Round} {b : Session}
    (h : authorizerHealthy (rounds 0).probe = some true ∨
      (b.deferForMaintenance grace (rounds 0)).1 = false) :
    ∃ ended, ∀ fuel, healthLoop grace (fuel + 1) rounds b = some ended := by
  by_cases hhealthy : authorizerHealthy (rounds 0).probe = some true
  · exact ⟨_, fun fuel => by rw [healthLoop, if_pos hhealthy]⟩
  · rcases hstep : b.deferForMaintenance grace (rounds 0) with ⟨again, b'⟩
    rw [hstep] at h
    obtain rfl : again = false := h.resolve_left hhealthy
    exact ⟨_, fun fuel => by simp only [healthLoop, if_neg hhealthy, hstep]; rfl⟩

/-- Enough rounds for what is left end the loop, and further ones do not change how. -/
theorem healthLoop_ends (grace : ℤ) (enough : ℕ) (rounds : ℕ → Round) {b : Session}
    (h : b.Within grace) (henough : b.left grace ≤ enough * b.reauthInterval) :
    ∃ ended, ∀ fuel, enough ≤ fuel → healthLoop grace (fuel + 1) rounds b = some ended := by
  induction enough generalizing rounds b with
  | zero =>
    have hnone : b.deferral grace (rounds 0).draw = none :=
      h.deferral_eq_none (by simpa using henough)
    have hstop : (b.deferForMaintenance grace (rounds 0)).1 = false := by
      simp [Session.deferForMaintenance, hnone]
    obtain ⟨ended, hended⟩ := healthLoop_stop (Or.inr hstop)
    exact ⟨ended, fun fuel _ => hended fuel⟩
  | succ enough ih =>
    by_cases hstop : authorizerHealthy (rounds 0).probe = some true ∨
        (b.deferForMaintenance grace (rounds 0)).1 = false
    · obtain ⟨ended, hended⟩ := healthLoop_stop hstop
      exact ⟨ended, fun fuel _ => hended fuel⟩
    obtain ⟨hhealthy, hagain⟩ := not_or.mp hstop
    rcases hstep : b.deferForMaintenance grace (rounds 0) with ⟨again, b'⟩
    rw [hstep] at hagain
    obtain rfl : again = true := Bool.eq_true_of_not_eq_false hagain
    obtain ⟨d, hd, rfl⟩ := h.deferred hstep
    obtain ⟨hpos, hmost, hleast⟩ := h.deferral_spec hd
    -- the deferral has taken an interval, or everything
    have hrest : b.left grace - d ≤ enough * b.reauthInterval := by
      rcases hleast with hinterval | rfl
      · rw [Nat.cast_succ, add_mul, one_mul] at henough
        linarith
      · rw [sub_self]
        exact mul_nonneg (Nat.cast_nonneg _) h.interval_pos.le
    rw [← Session.left_spend] at hrest
    obtain ⟨later, hlater⟩ := ih (fun i => rounds (i + 1)) (h.spend hpos.le hmost) hrest
    refine ⟨later.after (some d) { b with maintenanceUsed := b.maintenanceUsed + d },
      fun fuel hfuel => ?_⟩
    obtain ⟨fuel, rfl⟩ := Nat.exists_eq_add_of_lt hfuel
    rw [healthLoop_defer _ hhealthy hstep, hd, hlater _ (by omega)]
    rfl

/-- The wait of a reauthentication is bounded by what is left of the cap: it ends, for every
course of health results and random draws, after a bounded number of deferrals. -/
theorem maintenance_deferral_bounded (grace : ℤ) (b : Session) (rounds : ℕ → Round)
    (hinterval : 0 < b.reauthInterval)
    (hcap : 0 ≤ b.effectiveCap grace ∧ b.effectiveCap grace < 2 ^ 62)
    (hused : 0 ≤ b.maintenanceUsed ∧ b.maintenanceUsed ≤ b.effectiveCap grace) :
    ∃ ended : Waited,
      (∀ fuel : ℕ,
        ⌈((b.effectiveCap grace - b.maintenanceUsed : ℤ) : ℚ) / b.reauthInterval⌉ < fuel →
          awaitAuthorizer grace fuel rounds b = some ended) ∧
      (ended.sleeps.length : ℤ) ≤
        ⌈((b.effectiveCap grace - b.maintenanceUsed : ℤ) : ℚ) / b.reauthInterval⌉ ∧
      ended.sleeps.sum ≤ b.effectiveCap grace - b.maintenanceUsed ∧
      (∀ d ∈ ended.sleeps, 0 < d) ∧
      ∀ used ∈ ended.used, 0 ≤ used ∧ used ≤ b.effectiveCap grace := by
  have h : b.Within grace := ⟨hinterval, hcap.2, hused.1, hused.2⟩
  have hceil : 0 ≤ ⌈(b.left grace : ℚ) / b.reauthInterval⌉ := by
    have := (Budget.Spends.nil (b.left grace)).length_le_ceil hinterval h.left_nonneg
    simpa using this
  by_cases huri : b.authorizerStatusURI = []
  · refine ⟨⟨[], [], b⟩, fun fuel _ => by simp [awaitAuthorizer, huri], ?_⟩
    exact ⟨hceil, h.left_nonneg, by simp, by simp⟩
  · obtain ⟨enough, henough⟩ := Int.eq_ofNat_of_zero_le hceil
    have hleft : b.left grace ≤ enough * b.reauthInterval := by
      have hpos : (0 : ℚ) < b.reauthInterval := by exact_mod_cast hinterval
      have := (div_le_iff₀ hpos).mp (Int.ceil_le.mp henough.le)
      exact_mod_cast this
    obtain ⟨ended, hended⟩ := healthLoop_ends grace enough rounds h hleft
    obtain ⟨hspends, hrange⟩ := healthLoop_spends grace _ rounds h (hended enough le_rfl)
    refine ⟨ended, fun fuel hfuel => ?_, hspends.length_le_ceil hinterval h.left_nonneg,
      hspends.sum_le h.left_nonneg, hspends.forall_pos, hrange⟩
    change ⌈(b.left grace : ℚ) / b.reauthInterval⌉ < fuel at hfuel
    obtain ⟨n, rfl⟩ : ∃ n, fuel = n + 1 := Nat.exists_eq_succ_of_ne_zero (by omega)
    rw [awaitAuthorizer, if_pos huri]
    exact hended n (by omega)

/-- A session that is reauthenticated every minute and may be deferred for 150 seconds. -/
def outageSession : Session :=
  newSession 0 ['b']
    { dialAttested with
      maintenanceCap := some (150 * 10 ^ 9)
      authorizerStatusURI := "https://authorizer/status".toList }

/-- The authorizer answers that it is unavailable, and the draws are all the same. -/
def outageRounds : ℕ → Round := fun _ => ⟨.answered 503, some 7, false⟩

/-- Two minutes with their jitter, and then what is left. -/
example : (awaitAuthorizer 0 4 outageRounds outageSession).map Waited.sleeps =
    some [60 * 10 ^ 9 + 7, 60 * 10 ^ 9 + 7, 30 * 10 ^ 9 - 14] := by decide +kernel

theorem maintenance_deferral_bounded_outage :
    ∃ ended, awaitAuthorizer 0 4 outageRounds outageSession = some ended ∧
      ended.sleeps.length ≤ 3 ∧ ended.sleeps.sum ≤ 150 * 10 ^ 9 ∧
      (∀ d ∈ ended.sleeps, 0 < d) ∧ ∀ used ∈ ended.used, 0 ≤ used ∧ used ≤ 150 * 10 ^ 9 := by
  have hcap : outageSession.effectiveCap 0 = 150 * 10 ^ 9 := by decide
  have hused : outageSession.maintenanceUsed = 0 := rfl
  have hinterval : outageSession.reauthInterval = 60 * 10 ^ 9 := rfl
  obtain ⟨ended, hrun, hcount, hsum, hpos, hrange⟩ :=
    maintenance_deferral_bounded 0 outageSession outageRounds (by decide) (by decide) (by decide)
  rw [hcap, hused, hinterval] at hrun hcount
  rw [hcap] at hsum hrange
  have hceil : ⌈((150 * 10 ^ 9 - 0 : ℤ) : ℚ) / (60 * 10 ^ 9 : ℤ)⌉ = 3 := by
    rw [Int.ceil_eq_iff]
    norm_num
  rw [hceil] at hrun hcount
  exact ⟨ended, hrun 4 (by decide), by exact_mod_cast hcount, by simpa [hused] using hsum, hpos,
    hrange⟩

end NexusProxy.Hub
