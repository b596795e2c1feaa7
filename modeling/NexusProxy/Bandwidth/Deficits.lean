import NexusProxy.Bandwidth.Refill
import Mathlib.Logic.Function.Basic

/-! Deficits of the bandwidth scheduler, one call after the other. Every call is given the reading
of the clock that it makes; readings are not negative, so that their differences are words. -/
namespace NexusProxy.Bandwidth
open FixedWidth Accrual

structure BackendBandwidth where
  deficit : ℤ
  bytesSent : ℤ
  lastActive : ℤ
  isActive : Bool
  deriving DecidableEq

structure Scheduler (Id : Type*) where
  totalBytesPerSecond : ℤ
  backends : Id → Option BackendBandwidth
  activeCount : ℤ
  totalBytesSent : ℤ

/-- What `RequestSend` returns: the send is allowed, or the caller waits and asks again. -/
inductive Answer where
  | allowed
  | wait (nanos : ℤ)
  deriving DecidableEq

def Answer.isAllowed : Answer → Bool
  | .allowed => true
  | .wait _ => false

section Model
-- `burst` is the double precision product that becomes the cap of a deficit,
-- `int64(float64(bytesPerSecond) * maxDeficitMultiplier * float64(schedulingInterval) /
-- float64(time.Second))`
variable {Id : Type*} [DecidableEq Id] (burst : ℤ → ℤ)

def maxDeficit (bps : ℤ) : ℤ := if burst bps < minDeficitCap then minDeficitCap else burst bps

/-- The loop that adds the tokens, when no other goroutine changes the deficit. -/
def addTokens (bps elapsed deficit : ℤ) : ℤ :=
  let newDeficit := deficit + bytesToAdd bps elapsed (maxDeficit burst bps)
  if maxDeficit burst bps < newDeficit then maxDeficit burst bps else newDeficit

def BackendBandwidth.replenishDeficit (bps : ℤ) (bw : BackendBandwidth) (now : ℤ) :
    BackendBandwidth :=
  if bw.lastActive = 0 then { bw with lastActive := now }
  else if now - bw.lastActive ≤ 0 then bw
  else { bw with
    lastActive := now
    deficit := addTokens burst bps (now - bw.lastActive) bw.deficit }

def waitNanos (bps bytesNeeded : ℤ) : ℤ :=
  let nanos := (int64 (bytesNeeded * second)).tdiv bps
  if nanos ≤ 0 then millisecond else nanos

namespace Scheduler

/-- The number of active backends once the one of `bw` is marked. -/
def countActive (s : Scheduler Id) (bw : BackendBandwidth) : ℤ :=
  if bw.isActive then s.activeCount else s.activeCount + 1

/-- The rate that a request of the backend of `bw` works with. -/
def rate (s : Scheduler Id) (bw : BackendBandwidth) : ℤ :=
  bytesPerSecond s.totalBytesPerSecond (s.countActive bw)

/-- The entry of a backend when a request at `now` compares the deficit. -/
def replenished (s : Scheduler Id) (bw : BackendBandwidth) (now : ℤ) : BackendBandwidth :=
  { bw with isActive := true }.replenishDeficit burst (s.rate bw) now

/-- The entry `bw` of a backend becomes `bw'` in a request. -/
def request (s : Scheduler Id) (id : Id) (bw bw' : BackendBandwidth) : Scheduler Id :=
  { s with
    backends := Function.update s.backends id (some bw')
    activeCount := s.countActive bw }

def requestSend (s : Scheduler Id) (id : Id) (bytes : ℕ) (now : ℤ) : Scheduler Id × Answer :=
  if s.totalBytesPerSecond = 0 then (s, .allowed)
  else
    match s.backends id with
    | none => (s, .allowed)
    | some bw =>
        let next := s.replenished burst bw now
        if bytes ≤ next.deficit then
          (s.request id bw { next with deficit := next.deficit - bytes }, .allowed)
        else (s.request id bw next, .wait (waitNanos (s.rate bw) (bytes - next.deficit)))

def refundSend (s : Scheduler Id) (id : Id) (bytes : ℕ) : Scheduler Id :=
  if s.totalBytesPerSecond = 0 then s
  else
    match s.backends id with
    | none => s
    | some bw =>
        { s with
          backends := Function.update s.backends id
            (some { bw with deficit := bw.deficit + bytes }) }

def recordSent (s : Scheduler Id) (id : Id) (bytes : ℕ) (now : ℤ) : Scheduler Id :=
  if s.totalBytesPerSecond = 0 then s
  else
    match s.backends id with
    | none => s
    | some bw =>
        { s with
          backends := Function.update s.backends id
            (some { bw with bytesSent := int64 (bw.bytesSent + bytes), lastActive := now })
          totalBytesSent := int64 (s.totalBytesSent + bytes) }

end Scheduler

/-! ### Refills -/

section Refills
variable {bps elapsed d : ℤ}

theorem minDeficitCap_le_maxDeficit (bps : ℤ) : minDeficitCap ≤ maxDeficit burst bps := by
  unfold maxDeficit
  split_ifs with h
  · exact le_rfl
  · exact not_lt.mp h

theorem maxDeficit_nonneg (bps : ℤ) : 0 ≤ maxDeficit burst bps :=
  (by decide : 0 ≤ minDeficitCap).trans (minDeficitCap_le_maxDeficit burst bps)

theorem addTokens_eq_min (bps elapsed d : ℤ) :
    addTokens burst bps elapsed d =
      min (maxDeficit burst bps) (d + min (maxDeficit burst bps) (refill bps elapsed)) := by
  unfold addTokens
  rw [bytesToAdd_eq_min]
  dsimp only
  split_ifs <;> omega

theorem addTokens_eq (hb : 0 ≤ bps) (he : 0 ≤ elapsed) (hfits : Fits bps elapsed) (hd : 0 ≤ d) :
    addTokens burst bps elapsed d =
      min (maxDeficit burst bps) (d + accrued second bps elapsed) := by
  rw [addTokens_eq_min, refill_eq hb he hfits]
  omega

theorem addTokens_nonneg (hb : 0 ≤ bps) (he : 0 ≤ elapsed) (hfits : Fits bps elapsed)
    (hd : 0 ≤ d) : 0 ≤ addTokens burst bps elapsed d := by
  rw [addTokens_eq burst hb he hfits hd]
  exact le_min (maxDeficit_nonneg burst bps)
    (add_nonneg hd (accrued_nonneg second_pos hb he))

variable {burst} {bw : BackendBandwidth} {now : ℤ}

@[simp] theorem replenishDeficit_isActive (bps : ℤ) (bw : BackendBandwidth) (now : ℤ) :
    (bw.replenishDeficit burst bps now).isActive = bw.isActive := by
  unfold BackendBandwidth.replenishDeficit
  split_ifs <;> rfl

theorem replenishDeficit_lastActive (hle : bw.lastActive ≤ now) :
    (bw.replenishDeficit burst bps now).lastActive = now := by
  unfold BackendBandwidth.replenishDeficit
  split_ifs with hzero hpast
  · rfl
  · linarith
  · rfl

/-- The deficit that a refill leaves, up to the cap what was there and what has accrued; no refill
pays more than the cap, even where the deficit is negative. -/
theorem replenishDeficit_deficit (hb : 0 ≤ bps) (hlast : bw.lastActive ≠ 0)
    (hle : bw.lastActive ≤ now) (hfits : Fits bps (now - bw.lastActive))
    (hcap : bw.deficit ≤ maxDeficit burst bps) :
    (bw.replenishDeficit burst bps now).deficit =
      min (maxDeficit burst bps)
        (bw.deficit +
          min (maxDeficit burst bps) (accrued second bps (now - bw.lastActive))) := by
  unfold BackendBandwidth.replenishDeficit
  rw [if_neg hlast]
  split_ifs with hpast
  · have hnow : now - bw.lastActive = 0 := by linarith
    rw [hnow, accrued_zero, min_eq_right (maxDeficit_nonneg burst bps), add_zero,
      min_eq_right hcap]
  · rw [← refill_eq hb (by linarith) hfits]
    exact addTokens_eq_min ..

end Refills

/-! ### Requests -/

namespace Scheduler
variable {burst} {s s' t : Scheduler Id} {id : Id} {bytes : ℕ} {now w : ℤ} {bw : BackendBandwidth}

omit [DecidableEq Id] in
theorem one_le_rate (s : Scheduler Id) (bw : BackendBandwidth) : 1 ≤ s.rate bw :=
  one_le_bytesPerSecond _ _

omit [DecidableEq Id] in
theorem rate_le (hR : 0 < s.totalBytesPerSecond) (bw : BackendBandwidth) :
    s.rate bw ≤ s.totalBytesPerSecond :=
  bytesPerSecond_le hR _

@[simp] theorem request_backends_self (s : Scheduler Id) (id : Id) (bw bw' : BackendBandwidth) :
    (s.request id bw bw').backends id = some bw' :=
  Function.update_self ..

theorem requestSend_eq (hR : s.totalBytesPerSecond ≠ 0) (hbw : s.backends id = some bw)
    (bytes : ℕ) (now : ℤ) :
    s.requestSend burst id bytes now =
      if bytes ≤ (s.replenished burst bw now).deficit then
        (s.request id bw { s.replenished burst bw now with
          deficit := (s.replenished burst bw now).deficit - bytes }, .allowed)
      else (s.request id bw (s.replenished burst bw now),
        .wait (waitNanos (s.rate bw) (bytes - (s.replenished burst bw now).deficit))) := by
  rw [requestSend, if_neg hR, hbw]

theorem refundSend_eq (hR : s.totalBytesPerSecond ≠ 0) (hbw : s.backends id = some bw)
    (bytes : ℕ) :
    s.refundSend id bytes =
      { s with
        backends := Function.update s.backends id
          (some { bw with deficit := bw.deficit + bytes }) } := by
  rw [refundSend, if_neg hR, hbw]

theorem recordSent_eq (hR : s.totalBytesPerSecond ≠ 0) (hbw : s.backends id = some bw)
    (bytes : ℕ) (now : ℤ) :
    s.recordSent id bytes now =
      { s with
        backends := Function.update s.backends id
          (some { bw with bytesSent := int64 (bw.bytesSent + bytes), lastActive := now })
        totalBytesSent := int64 (s.totalBytesSent + bytes) } := by
  rw [recordSent, if_neg hR, hbw]

theorem requestSend_unlimited (h : s.totalBytesPerSecond = 0 ∨ s.backends id = none) (bytes : ℕ)
    (now : ℤ) : s.requestSend burst id bytes now = (s, .allowed) := by
  unfold requestSend
  rcases h with h | h <;> simp [h]

theorem refundSend_unlimited (h : s.totalBytesPerSecond = 0 ∨ s.backends id = none) (bytes : ℕ) :
    s.refundSend id bytes = s := by
  unfold refundSend
  rcases h with h | h <;> simp [h]

theorem recordSent_unlimited (h : s.totalBytesPerSecond = 0 ∨ s.backends id = none) (bytes : ℕ)
    (now : ℤ) : s.recordSent id bytes now = s := by
  unfold recordSent
  rcases h with h | h <;> simp [h]

theorem requestSend_backends_of_ne {id' : Id} (hne : id' ≠ id) :
    (s.requestSend burst id bytes now).1.backends id' = s.backends id' := by
  unfold requestSend
  split_ifs
  · rfl
  · split
    · rfl
    · dsimp only
      split_ifs <;> exact Function.update_of_ne hne ..

theorem refundSend_backends_of_ne {id' : Id} (hne : id' ≠ id) :
    (s.refundSend id bytes).backends id' = s.backends id' := by
  unfold refundSend
  split_ifs
  · rfl
  · split
    · rfl
    · exact Function.update_of_ne hne ..

theorem recordSent_backends_of_ne {id' : Id} (hne : id' ≠ id) :
    (s.recordSent id bytes now).backends id' = s.backends id' := by
  unfold recordSent
  split_ifs
  · rfl
  · split
    · rfl
    · exact Function.update_of_ne hne ..

theorem requestSend_activeCount (hR : s.totalBytesPerSecond ≠ 0) (hbw : s.backends id = some bw) :
    (s.requestSend burst id bytes now).1.activeCount = s.countActive bw := by
  rw [requestSend_eq hR hbw]
  split_ifs <;> rfl

theorem isAllowed_requestSend_iff (hR : s.totalBytesPerSecond ≠ 0)
    (hbw : s.backends id = some bw) :
    (s.requestSend burst id bytes now).2.isAllowed ↔
      bytes ≤ (s.replenished burst bw now).deficit := by
  rw [requestSend_eq hR hbw]
  split_ifs with h <;> simp [Answer.isAllowed, h]

theorem deficit_requestSend (hR : s.totalBytesPerSecond ≠ 0) (hbw : s.backends id = some bw) :
    ((s.requestSend burst id bytes now).1.backends id).map BackendBandwidth.deficit =
      some (if bytes ≤ (s.replenished burst bw now).deficit
        then (s.replenished burst bw now).deficit - bytes
        else (s.replenished burst bw now).deficit) := by
  rw [requestSend_eq hR hbw]
  split_ifs <;> rw [request_backends_self] <;> rfl

theorem requestSend_denied (hR : s.totalBytesPerSecond ≠ 0) (hbw : s.backends id = some bw)
    (h : s.requestSend burst id bytes now = (t, .wait w)) :
    (s.replenished burst bw now).deficit < bytes ∧
      t = s.request id bw (s.replenished burst bw now) ∧
      w = waitNanos (s.rate bw) (bytes - (s.replenished burst bw now).deficit) := by
  rw [requestSend_eq hR hbw] at h
  split_ifs at h with hle
  · simp at h
  · obtain ⟨rfl, hw⟩ := Prod.mk.inj h
    exact ⟨not_le.mp hle, rfl, (Answer.wait.inj hw).symm⟩

@[simp] theorem rate_request (s : Scheduler Id) (id : Id) {bw bw' : BackendBandwidth}
    (hactive : bw'.isActive = true) : (s.request id bw bw').rate bw' = s.rate bw := by
  simp [rate, countActive, request, hactive]

omit [DecidableEq Id] in
@[simp] theorem replenished_isActive (s : Scheduler Id) (bw : BackendBandwidth) (now : ℤ) :
    (s.replenished burst bw now).isActive = true :=
  replenishDeficit_isActive ..

omit [DecidableEq Id] in
theorem replenished_lastActive (hle : bw.lastActive ≤ now) :
    (s.replenished burst bw now).lastActive = now :=
  replenishDeficit_lastActive hle

end Scheduler

/-! ### The wait of a denied request -/

section Wait
variable {bps needed : ℤ}

theorem waitNanos_nonneg (bps needed : ℤ) : 0 ≤ waitNanos bps needed := by
  unfold waitNanos
  dsimp only
  split_ifs with h
  · decide
  · exact (not_le.mp h).le

theorem waitNanos_eq (hb : 1 ≤ bps) (hn : 0 ≤ needed) (hword : needed * second < 2 ^ 63) :
    waitNanos bps needed =
      if needed * second < bps then millisecond else needed * second / bps := by
  have hprod : 0 ≤ needed * second := mul_nonneg hn second_pos.le
  unfold waitNanos
  rw [int64_eq (by linarith) hword, Int.tdiv_eq_ediv_of_nonneg hprod]
  dsimp only
  have hiff : needed * second / bps ≤ 0 ↔ needed * second < bps := by
    rw [← Int.lt_add_one_iff, zero_add, Int.ediv_lt_iff_lt_mul (by linarith), one_mul]
  simp only [hiff]

/-- The wait earns what is missing exactly when the division leaves no remainder, or is below the
shortest wait. -/
theorem needed_le_accrued_wait_iff (hb : 1 ≤ bps) (hn : 0 ≤ needed)
    (hword : needed * second < 2 ^ 63) :
    needed ≤ accrued second bps (waitNanos bps needed) ↔
      bps ∣ needed * second ∨ needed * second < bps := by
  rw [le_accrued_iff second_pos, waitNanos_eq hb hn hword]
  split_ifs with hlt
  · -- one nanosecond of the shortest wait would be enough
    refine iff_of_true ?_ (.inr hlt)
    have hms : bps * 1 ≤ bps * millisecond :=
      mul_le_mul_of_nonneg_left (by decide) (by linarith)
    linarith
  · rw [or_iff_left hlt]
    constructor
    · intro h
      exact ⟨_, le_antisymm h (Int.mul_ediv_self_le (by linarith))⟩
    · intro h
      exact (Int.mul_ediv_cancel' h).ge

end Wait

namespace Scheduler
variable {burst} {s s' : Scheduler Id} {id : Id} {bytes : ℕ} {now now' : ℤ} {bw : BackendBandwidth}

/-- The same number of active backends and the same entry of `id`: what operations on other
backends leave to the next request of this one. -/
structure SameFor (id : Id) (s s' : Scheduler Id) : Prop where
  total : s'.totalBytesPerSecond = s.totalBytesPerSecond
  activeCount : s'.activeCount = s.activeCount
  entry : s'.backends id = s.backends id

omit [DecidableEq Id] in
theorem SameFor.refl (id : Id) (s : Scheduler Id) : SameFor id s s := ⟨rfl, rfl, rfl⟩

omit [DecidableEq Id] in
theorem SameFor.rate_eq (h : SameFor id s s') (bw : BackendBandwidth) :
    s'.rate bw = s.rate bw := by
  simp [rate, countActive, h.total, h.activeCount]

theorem replenished_deficit_of_sameFor {last : BackendBandwidth}
    (hsame : SameFor id (s.request id last bw) s') (hactive : bw.isActive = true)
    (hnow : bw.lastActive = now) (hpos : 0 < now) (hle : now ≤ now')
    (hcap : bw.deficit ≤ maxDeficit burst (s.rate last))
    (hfits : Fits (s.rate last) (now' - now)) :
    (s'.replenished burst bw now').deficit =
      min (maxDeficit burst (s.rate last))
        (bw.deficit + min (maxDeficit burst (s.rate last))
          (accrued second (s.rate last) (now' - now))) := by
  have hrate : s'.rate bw = s.rate last := by rw [hsame.rate_eq, rate_request s id hactive]
  subst hnow
  unfold replenished
  rw [hrate]
  exact replenishDeficit_deficit (zero_le_one.trans (one_le_rate s last)) hpos.ne' hle hfits hcap

/-- The later request is admitted once what was missing has accrued, if one refill can pay it. -/
theorem isAllowed_of_sameFor_iff (burst : ℤ → ℤ) {last : BackendBandwidth}
    (hR : s.totalBytesPerSecond ≠ 0)
    (hsame : SameFor id (s.request id last bw) s') (hactive : bw.isActive = true)
    (hnow : bw.lastActive = now) (hpos : 0 < now) (hle : now ≤ now')
    (hlt : bw.deficit < bytes) (hbytes : (bytes : ℤ) ≤ minDeficitCap)
    (hfits : Fits (s.rate last) (now' - now)) :
    (s'.requestSend burst id bytes now').2.isAllowed ↔
      bytes - bw.deficit ≤ maxDeficit burst (s.rate last) ∧
        bytes - bw.deficit ≤ accrued second (s.rate last) (now' - now) := by
  have hentry : s'.backends id = some bw := by rw [hsame.entry, request_backends_self]
  have htotal : s'.totalBytesPerSecond ≠ 0 := by
    rw [hsame.total]
    exact hR
  have hcap := minDeficitCap_le_maxDeficit burst (s.rate last)
  rw [isAllowed_requestSend_iff htotal hentry,
    replenished_deficit_of_sameFor hsame hactive hnow hpos hle (by linarith) hfits, le_min_iff,
    ← sub_le_iff_le_add', le_min_iff]
  exact and_iff_right (hbytes.trans hcap)

end Scheduler

theorem fits_waitNanos {bps needed : ℤ} (hb : 1 ≤ bps) (hn : 0 ≤ needed)
    (hword : needed * second < 2 ^ 63) (hge : bps ≤ needed * second) :
    Fits bps (waitNanos bps needed) := by
  have hw := waitNanos_nonneg bps needed
  have hle : bps * waitNanos bps needed ≤ needed * second := by
    rw [waitNanos_eq hb hn hword, if_neg (not_lt.mpr hge)]
    exact Int.mul_ediv_self_le (by linarith)
  constructor
  · have hmod : waitNanos bps needed % second ≤ waitNanos bps needed := by
      unfold second
      omega
    have hmul := mul_le_mul_of_nonneg_left hmod (zero_le_one.trans hb)
    linarith
  · have hdiv := Int.ediv_le_self second (mul_nonneg (zero_le_one.trans hb) hw)
    linarith

/-- A caller that is denied and asks again after the wait, or later, is admitted exactly when the
division that computes the wait leaves no remainder, or the wait is the shortest one, and one
refill can pay what is missing: below a deficit of zero it may be more than the cap. -/
theorem wait_sufficient_iff {s next : Scheduler Id} {id : Id} {bw : BackendBandwidth} {bytes : ℕ}
    {now w : ℤ} (hR : 0 < s.totalBytesPerSecond) (hword : s.totalBytesPerSecond < 2 ^ 63)
    (hbytes : (bytes : ℤ) ≤ minDeficitCap) (hbw : s.backends id = some bw) (hnow : 0 < now)
    (hlast : bw.lastActive ≤ now)
    (hfits : (bytes - (s.replenished burst bw now).deficit) * second < 2 ^ 63)
    (hdenied : s.requestSend burst id bytes now = (next, .wait w)) :
    (∀ s' now', Scheduler.SameFor id next s' → now + w ≤ now' → Fits (s.rate bw) (now' - now) →
      (s'.requestSend burst id bytes now').2.isAllowed) ↔
    (s.rate bw ∣ (bytes - (s.replenished burst bw now).deficit) * second ∨
      (bytes - (s.replenished burst bw now).deficit) * second < s.rate bw) ∧
      bytes - (s.replenished burst bw now).deficit ≤ maxDeficit burst (s.rate bw) := by
  obtain ⟨hlt, rfl, rfl⟩ := Scheduler.requestSend_denied hR.ne' hbw hdenied
  have hrate := Scheduler.one_le_rate s bw
  have hallowed {s' : Scheduler Id} {now' : ℤ} (hsame : Scheduler.SameFor id _ s')
      (hle : now ≤ now') (hfits' : Fits (s.rate bw) (now' - now)) :=
    Scheduler.isAllowed_of_sameFor_iff burst hR.ne' hsame (Scheduler.replenished_isActive s bw now)
      (Scheduler.replenished_lastActive hlast) hnow hle hlt hbytes hfits'
  have hsame := Scheduler.SameFor.refl id (s.request id bw (s.replenished burst bw now))
  generalize (s.replenished burst bw now).deficit = d at *
  have hneeded : 0 ≤ bytes - d := by linarith
  have hiff := needed_le_accrued_wait_iff hrate hneeded hfits
  have hw := waitNanos_nonneg (s.rate bw) (bytes - d)
  constructor
  · intro h
    by_cases hshort : (bytes - d) * second < s.rate bw
    · -- a whole second never overflows, and the shortest wait is over by then
      have hsecond : Fits (s.rate bw) (now + second - now) := by
        rw [add_sub_cancel_left]
        exact fits_second (Scheduler.rate_le hR bw |>.trans_lt hword)
      have hlater : now + waitNanos (s.rate bw) (bytes - d) ≤ now + second := by
        rw [waitNanos_eq hrate hneeded hfits, if_pos hshort]
        exact add_le_add_right (by decide) now
      have hle : now ≤ now + second := by linarith [second_pos]
      exact ⟨.inr hshort, ((hallowed hsame hle hsecond).mp (h _ _ hsame hlater hsecond)).1⟩
    · have hfits' := fits_waitNanos hrate hneeded hfits (not_lt.mp hshort)
      rw [← add_sub_cancel_left now (waitNanos (s.rate bw) (bytes - d))] at hfits' hiff
      obtain ⟨hcap, hearned⟩ :=
        (hallowed hsame (by linarith) hfits').mp (h _ _ hsame le_rfl hfits')
      exact ⟨hiff.mp hearned, hcap⟩
  · intro ⟨hcond, hcap⟩ s' now' hsame' hle hfits'
    rw [hallowed hsame' (by linarith) hfits']
    exact ⟨hcap, (hiff.mpr hcond).trans
      (accrued_mono second_pos (zero_le_one.trans hrate) (by linarith))⟩

def single (total activeCount : ℤ) (bw : BackendBandwidth) : Scheduler Unit :=
  ⟨total, fun _ => some bw, activeCount, 0⟩

/-- An active backend that has spent its deficit, one second after the start of the clock. -/
def drained : BackendBandwidth := ⟨0, 0, 1000000000, true⟩

/-- One megabit per second for one backend: eight microseconds for each byte. -/
theorem wait_sufficient_single :
    let s := single 125000 1 drained
    (s.requestSend (· / 50) () 3 1000000000).2 = .wait 24000 ∧
      ((s.requestSend (· / 50) () 3 1000000000).1.requestSend (· / 50) () 3
        1000024000).2.isAllowed := by
  have hdenied : (single 125000 1 drained).requestSend (· / 50) () 3 1000000000 =
      ((single 125000 1 drained).request () drained drained, .wait 24000) := rfl
  have hsufficient := (wait_sufficient_iff (· / 50) (by decide) (by decide) (by decide) rfl
    (by decide) (by decide) (by decide) hdenied).mpr (by decide)
  exact ⟨rfl, hsufficient _ 1000024000 (Scheduler.SameFor.refl () _) (by decide) (by decide)⟩

/-- One megabit per second for three active backends: the caller of a byte waits for the time that
it is told, asks again and is denied. -/
theorem wait_insufficient :
    let s := single 125000 3 drained
    (s.requestSend (· / 50) () 1 1000000000).2 = .wait 24000 ∧
      ((s.requestSend (· / 50) () 1 1000000000).1.requestSend (· / 50) () 1 1000024000).2 =
        .wait 24000 := by
  decide

/-! ### Denied requests -/

section Polls
variable {s s' t : Scheduler Id} {id : Id}

/-- Requests of one backend at the given times, all denied, with operations on other backends
between them that leave the number of active backends as it is. -/
inductive Polls (id : Id) : Scheduler Id → List ℤ → Scheduler Id → Prop where
  | done (s : Scheduler Id) : Polls id s [] s
  | poll {s s' t : Scheduler Id} {bytes : ℕ} {now w : ℤ} {times : List ℤ} :
      s.requestSend burst id bytes now = (s', .wait w) → Polls id s' times t →
      Polls id s (now :: times) t
  | others {s s' t : Scheduler Id} {times : List ℤ} :
      Scheduler.SameFor id s s' → Polls id s' times t → Polls id s times t

/-- No refill between two of the times overflows. -/
def FitsInSteps (bps start : ℤ) : List ℤ → Prop
  | [] => True
  | t :: ts => Fits bps (t - start) ∧ FitsInSteps bps t ts

variable {burst}

/-- The refills of denied requests add up, each rounded down and clamped, to the cap. -/
theorem Polls.deficit_eq {times : List ℤ} (h : Polls burst id s times t) {bw : BackendBandwidth}
    {bps start : ℤ} (hR : s.totalBytesPerSecond ≠ 0) (hbw : s.backends id = some bw)
    (hactive : bw.isActive = true) (hrate : s.rate bw = bps) (hlast : bw.lastActive = start)
    (hstart : 0 < start) (hcap : bw.deficit ≤ maxDeficit burst bps)
    (hsorted : (start :: times).Pairwise (· ≤ ·)) (hfits : FitsInSteps bps start times) :
    (t.backends id).map BackendBandwidth.deficit =
      some (min (maxDeficit burst bps)
        (bw.deficit + accruedInSteps (maxDeficit burst bps) second bps start times)) := by
  induction h generalizing bw start with
  | done s => simp [hbw, accruedInSteps, min_eq_right hcap]
  | others hsame _ ih =>
    exact ih (hsame.total.symm ▸ hR) (hsame.entry.trans hbw) hactive
      ((hsame.rate_eq bw).trans hrate) hlast hstart hcap hsorted hfits
  | @poll s s' t bytes now w times hdenied _ ih =>
    obtain ⟨hle, htail⟩ := List.pairwise_cons.mp hsorted
    obtain ⟨hfit, hrest⟩ := hfits
    have hnow : start ≤ now := hle now (by simp)
    have hbps : 0 ≤ bps := hrate ▸ zero_le_one.trans (Scheduler.one_le_rate s bw)
    obtain ⟨-, rfl, -⟩ := Scheduler.requestSend_denied hR hbw hdenied
    have hnext : (s.replenished burst bw now).deficit =
        min (maxDeficit burst bps)
          (bw.deficit + min (maxDeficit burst bps) (accrued second bps (now - start))) := by
      subst hlast
      unfold Scheduler.replenished
      rw [hrate]
      exact replenishDeficit_deficit hbps hstart.ne' hnow hfit hcap
    -- what comes later is not negative, so that one clamp at the end is enough
    have hlater := accruedInSteps_nonneg (maxDeficit_nonneg burst bps) second_pos hbps htail
    rw [ih hR (Scheduler.request_backends_self ..) (Scheduler.replenished_isActive ..)
      ((Scheduler.rate_request s id (Scheduler.replenished_isActive ..)).trans hrate)
      (Scheduler.replenished_lastActive (hlast ▸ hnow)) (hstart.trans_le hnow)
      (hnext ▸ min_le_left _ _) htail hrest,
      hnext, accruedInSteps]
    congr 1
    omega

end Polls

/-- Denied requests at the times `now :: times` leave the deficit that one request at the last of
the times would leave exactly when the roundings and the clamps of the single refills lose nothing,
or the deficit is at its cap all the same. -/
theorem denied_polls_iff {s s' t : Scheduler Id} {id : Id} {bw bw' : BackendBandwidth} {bytes : ℕ}
    {now w n : ℤ} {times : List ℤ} (hR : 0 < s.totalBytesPerSecond)
    (hrate : 1 ≤ s.totalBytesPerSecond / n) (hbw : s.backends id = some bw) (hnow : 0 < now)
    (hlast : bw.lastActive ≤ now)
    (hfirst : s.requestSend burst id bytes now = (s', .wait w)) (hcount : s'.activeCount = n)
    (hbw' : s'.backends id = some bw')
    (hcap : bw'.deficit ≤ maxDeficit burst (s.totalBytesPerSecond / n))
    (hpolls : Polls burst id s' times t) (hsorted : (now :: times).Pairwise (· ≤ ·))
    (hfits : FitsInSteps (s.totalBytesPerSecond / n) now times) :
    let bps := s.totalBytesPerSecond / n
    let whole := bps * ((now :: times).getLast (by simp) - now) / second
    let inSteps := accruedInSteps (maxDeficit burst bps) second bps now times
    (t.backends id).map BackendBandwidth.deficit =
        some (min (maxDeficit burst bps) (bw'.deficit + whole)) ↔
      inSteps = whole ∨ maxDeficit burst bps ≤ bw'.deficit + inSteps := by
  intro bps whole inSteps
  obtain ⟨-, rfl, -⟩ := Scheduler.requestSend_denied hR.ne' hbw hfirst
  obtain rfl : s.replenished burst bw now = bw' :=
    Option.some.inj ((Scheduler.request_backends_self ..).symm.trans hbw')
  have hn : 0 < n := by
    by_contra hn
    linarith [Int.ediv_nonpos_of_nonneg_of_nonpos hR.le (not_lt.mp hn)]
  have hbps : s.rate bw = bps := by
    have hle : n ≤ s.totalBytesPerSecond := by
      have := (Int.le_ediv_iff_mul_le hn).mp hrate
      linarith
    have hactive : s.countActive bw = n := hcount
    rw [Scheduler.rate, hactive, bytesPerSecond_of_le hn hle]
  have hstep := hpolls.deficit_eq hR.ne' hbw' (Scheduler.replenished_isActive ..)
    ((Scheduler.rate_request s id (Scheduler.replenished_isActive ..)).trans hbps)
    (Scheduler.replenished_lastActive hlast) hnow hcap hsorted hfits
  have hle : inSteps ≤ whole := accruedInSteps_le second_pos _ bps now times
  rw [hstep, Option.some.injEq]
  change min _ (_ + inSteps) = _ ↔ _
  omega

/-- One megabit per second for one backend: eight microseconds pass between two requests. -/
theorem denied_polls_exact :
    ((((single 125000 1 drained).requestSend (· / 50) () 9 1000000000).1
        |>.requestSend (· / 50) () 9 1000008000).1.backends ()).map BackendBandwidth.deficit =
      some (min (maxDeficit (· / 50) 125000) (0 + 1)) := by
  have hfirst : (single 125000 1 drained).requestSend (· / 50) () 9 1000000000 =
      ((single 125000 1 drained).request () drained drained, .wait 72000) := rfl
  have hsecond : ((single 125000 1 drained).request () drained drained).requestSend (· / 50) () 9
      1000008000 = (((single 125000 1 drained).request () drained drained).request () drained
        ⟨1, 0, 1000008000, true⟩, .wait 64000) := rfl
  have hpolls := Polls.poll hsecond (.done _)
  exact (denied_polls_iff (· / 50) (by decide) (by decide) rfl (by decide) (by decide) hfirst rfl
    rfl (by decide) hpolls (by decide) ⟨by decide, trivial⟩).mpr (by decide)

/-- Nine requests, one each microsecond and all denied, earn nothing in the time that earns a
byte. -/
theorem denied_polls_lose :
    let poll (r : Scheduler Unit × List Bool) (now : ℤ) :=
      let next := r.1.requestSend (· / 50) () 9 now
      (next.1, next.2.isAllowed :: r.2)
    let times := [1000000000, 1000001000, 1000002000, 1000003000, 1000004000, 1000005000,
      1000006000, 1000007000, 1000008000]
    let last := times.foldl poll (single 125000 1 drained, [])
    last.2 = List.replicate 9 false ∧
      (last.1.backends ()).map BackendBandwidth.deficit = some 0 ∧
      125000 * (1000008000 - 1000000000) / second = 1 := by
  decide

end Model

end NexusProxy.Bandwidth
