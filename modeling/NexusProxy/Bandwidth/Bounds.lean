import NexusProxy.Bandwidth.Calls
import NexusProxy.Lib.Transition

/-! How much the backends are admitted while the number of active backends stays the same. What a
backend has been admitted, and what it could be admitted at once, is never more than it has earned
since the start of the run. -/
namespace NexusProxy.Bandwidth
open Accrual Transition

variable {Id : Type*} [DecidableEq Id] (burst : ℤ → ℤ)

/-- A scheduler with its clock; `admitted` is history, the bytes admitted for each backend that
were not refunded. -/
structure Ledger (Id : Type*) where
  scheduler : Scheduler Id
  clock : ℤ
  admitted : Id → ℤ

/-- One call. The clock does not go back, and only admitted bytes are refunded. -/
def Ledger.step (l : Ledger Id) (c : TimedCall Id) : Option (Ledger Id) :=
  if c.now < l.clock then none
  else
    match c.call with
    | .requestSend id bytes =>
        let next := l.scheduler.requestSend burst id bytes c.now
        some ⟨next.1, c.now,
          if next.2.isAllowed then Function.update l.admitted id (l.admitted id + bytes)
          else l.admitted⟩
    | .refundSend id bytes =>
        if bytes ≤ l.admitted id then
          some ⟨l.scheduler.refundSend id bytes, c.now,
            Function.update l.admitted id (l.admitted id - bytes)⟩
        else none
    | .recordSent id bytes => some ⟨l.scheduler.recordSent id bytes c.now, c.now, l.admitted⟩

/-- A call before and after which `n` backends are active, and whose refill does not overflow. -/
def Steady (n : ℤ) (l : Ledger Id) (c : TimedCall Id) : Prop :=
  l.scheduler.activeCount = n ∧ (l.scheduler.exec burst c).activeCount = n ∧
    match c.call with
    | .requestSend id _ => ∀ bw ∈ l.scheduler.backends id,
        Fits (bytesPerSecond l.scheduler.totalBytesPerSecond n) (c.now - bw.lastActive)
    | _ => True

instance decidableSteady (n : ℤ) : ∀ (l : Ledger Id) (c : TimedCall Id),
    Decidable (Steady burst n l c)
  | _, ⟨_, .requestSend _ _⟩ => inferInstanceAs (Decidable (_ ∧ _ ∧ ∀ bw ∈ _, Fits _ _))
  | _, ⟨_, .refundSend _ _⟩ => inferInstanceAs (Decidable (_ ∧ _ ∧ True))
  | _, ⟨_, .recordSent _ _⟩ => inferInstanceAs (Decidable (_ ∧ _ ∧ True))

/-- What one backend has been admitted and what it could still be admitted, against what it has
earned since it was `start`. -/
structure Within (bps clock admitted : ℤ) (start bw : BackendBandwidth) : Prop where
  nonneg : 0 ≤ bw.deficit
  later : start.lastActive ≤ bw.lastActive
  past : bw.lastActive ≤ clock
  bound : admitted + bw.deficit ≤
    start.deficit + accrued second bps (bw.lastActive - start.lastActive)

namespace Within
variable {burst} {bps clock admitted now : ℤ} {start bw : BackendBandwidth}

theorem tick (h : Within bps clock admitted start bw) (hnow : clock ≤ now) :
    Within bps now admitted start bw :=
  { h with past := h.past.trans hnow }

theorem stamp (h : Within bps clock admitted start bw) (hb : 0 ≤ bps) (hnow : clock ≤ now)
    (sent : ℤ) (active : Bool) : Within bps now admitted start ⟨bw.deficit, sent, now, active⟩ where
  nonneg := h.nonneg
  later := h.later.trans (h.past.trans hnow)
  past := le_rfl
  bound := by
    have hpast := h.past
    have hmono : accrued second bps (bw.lastActive - start.lastActive) ≤
        accrued second bps (now - start.lastActive) := accrued_mono second_pos hb (by linarith)
    have hbound := h.bound
    dsimp only
    linarith

/-- The time since the last reading is paid, and no time is paid twice. -/
theorem replenish (h : Within bps clock admitted start bw) (hb : 0 ≤ bps) (hnow : clock ≤ now)
    (hfits : Fits bps (now - bw.lastActive)) :
    Within bps now admitted start (bw.replenishDeficit burst bps now) := by
  unfold BackendBandwidth.replenishDeficit
  split_ifs with hzero hpast
  · exact h.stamp hb hnow bw.bytesSent bw.isActive
  · exact h.tick hnow
  · have helapsed : 0 ≤ now - bw.lastActive := by linarith
    have hadd := accrued_add_le second_pos bps (bw.lastActive - start.lastActive)
      (now - bw.lastActive)
    rw [show bw.lastActive - start.lastActive + (now - bw.lastActive) =
      now - start.lastActive by ring] at hadd
    have hle : addTokens burst bps (now - bw.lastActive) bw.deficit ≤
        bw.deficit + accrued second bps (now - bw.lastActive) := by
      rw [addTokens_eq burst hb helapsed hfits h.nonneg]
      exact min_le_right _ _
    have hlater := h.later
    have hbound := h.bound
    exact ⟨addTokens_nonneg burst hb helapsed hfits h.nonneg, by dsimp only; linarith, le_rfl,
      by dsimp only; linarith⟩

theorem spend (h : Within bps clock admitted start bw) {bytes : ℕ}
    (hbytes : bytes ≤ bw.deficit) :
    Within bps clock (admitted + bytes) start { bw with deficit := bw.deficit - bytes } :=
  { h with
    nonneg := sub_nonneg.mpr hbytes
    bound := by
      have hbound := h.bound
      dsimp only
      linarith }

theorem refund (h : Within bps clock admitted start bw) (bytes : ℕ) :
    Within bps clock (admitted - bytes) start { bw with deficit := bw.deficit + bytes } :=
  { h with
    nonneg := add_nonneg h.nonneg (Int.natCast_nonneg bytes)
    bound := by
      have hbound := h.bound
      dsimp only
      linarith }

end Within

/-- The backend `id` is registered, and within what it has earned. -/
def Held (bps : ℤ) (start : BackendBandwidth) (id : Id) (l : Ledger Id) : Prop :=
  ∃ bw, l.scheduler.backends id = some bw ∧ Within bps l.clock (l.admitted id) start bw

namespace Held
variable {burst} {bps n now : ℤ} {start : BackendBandwidth} {id : Id} {l : Ledger Id} {bytes : ℕ}

theorem requestSend (h : Held bps start id l) (hb : 0 ≤ bps) (hnow : l.clock ≤ now)
    (hR : l.scheduler.totalBytesPerSecond ≠ 0)
    (hrate : ∀ bw, l.scheduler.backends id = some bw → l.scheduler.rate bw = bps)
    (hfits : ∀ bw ∈ l.scheduler.backends id, Fits bps (now - bw.lastActive)) :
    Held bps start id ⟨(l.scheduler.requestSend burst id bytes now).1, now,
      if (l.scheduler.requestSend burst id bytes now).2.isAllowed
      then Function.update l.admitted id (l.admitted id + bytes) else l.admitted⟩ := by
  obtain ⟨bw, hbw, hwithin⟩ := h
  have hactive : Within bps l.clock (l.admitted id) start { bw with isActive := true } :=
    ⟨hwithin.nonneg, hwithin.later, hwithin.past, hwithin.bound⟩
  have hnext : Within bps now (l.admitted id) start (l.scheduler.replenished burst bw now) := by
    unfold Scheduler.replenished
    rw [hrate bw hbw]
    exact hactive.replenish hb hnow (hfits bw hbw)
  by_cases hallowed : bytes ≤ (l.scheduler.replenished burst bw now).deficit
  · rw [Scheduler.requestSend_eq hR hbw, if_pos hallowed]
    refine ⟨_, Scheduler.request_backends_self .., ?_⟩
    have hspend := hnext.spend hallowed
    simpa [Answer.isAllowed] using hspend
  · rw [Scheduler.requestSend_eq hR hbw, if_neg hallowed]
    refine ⟨_, Scheduler.request_backends_self .., ?_⟩
    simpa [Answer.isAllowed] using hnext

theorem refundSend (h : Held bps start id l) (hnow : l.clock ≤ now)
    (hR : l.scheduler.totalBytesPerSecond ≠ 0) :
    Held bps start id ⟨l.scheduler.refundSend id bytes, now,
      Function.update l.admitted id (l.admitted id - bytes)⟩ := by
  obtain ⟨bw, hbw, hwithin⟩ := h
  rw [Scheduler.refundSend_eq hR hbw]
  refine ⟨_, Function.update_self .., ?_⟩
  dsimp only
  rw [Function.update_self]
  exact (hwithin.tick hnow).refund bytes

theorem recordSent (h : Held bps start id l) (hb : 0 ≤ bps) (hnow : l.clock ≤ now)
    (hR : l.scheduler.totalBytesPerSecond ≠ 0) :
    Held bps start id ⟨l.scheduler.recordSent id bytes now, now, l.admitted⟩ := by
  obtain ⟨bw, hbw, hwithin⟩ := h
  rw [Scheduler.recordSent_eq hR hbw]
  exact ⟨_, Function.update_self .., hwithin.stamp hb hnow ..⟩

omit [DecidableEq Id] in
theorem other (h : Held bps start id l) (hnow : l.clock ≤ now) {s : Scheduler Id}
    {admitted : Id → ℤ} (hs : s.backends id = l.scheduler.backends id)
    (hadmitted : admitted id = l.admitted id) : Held bps start id ⟨s, now, admitted⟩ := by
  obtain ⟨bw, hbw, hwithin⟩ := h
  refine ⟨bw, hs.trans hbw, ?_⟩
  dsimp only
  rw [hadmitted]
  exact hwithin.tick hnow

theorem step (h : Held bps start id l) (hb : 0 ≤ bps)
    (hR : l.scheduler.totalBytesPerSecond ≠ 0)
    (hbps : bytesPerSecond l.scheduler.totalBytesPerSecond n = bps) {c : TimedCall Id}
    (hsteady : Steady burst n l c) {t : Ledger Id} (hstep : l.step burst c = some t) :
    Held bps start id t := by
  obtain ⟨now, call⟩ := c
  obtain ⟨-, hcount, hfits⟩ := hsteady
  rw [Ledger.step] at hstep
  split_ifs at hstep with hclock
  have hnow : l.clock ≤ now := not_lt.mp hclock
  cases call with
  | requestSend id' bytes =>
    obtain rfl := Option.some.inj hstep
    by_cases hid : id' = id
    · subst hid
      refine h.requestSend hb hnow hR (fun bw hbw => ?_) (hbps ▸ hfits)
      rw [Scheduler.rate, ← Scheduler.requestSend_activeCount hR hbw, ← hbps]
      exact congrArg _ hcount
    · refine h.other hnow (Scheduler.requestSend_backends_of_ne (Ne.symm hid)) ?_
      split_ifs
      · exact Function.update_of_ne (Ne.symm hid) ..
      · rfl
  | refundSend id' bytes =>
    dsimp only at hstep
    split_ifs at hstep
    obtain rfl := Option.some.inj hstep
    by_cases hid : id' = id
    · subst hid
      exact h.refundSend hnow hR
    · exact h.other hnow (Scheduler.refundSend_backends_of_ne (Ne.symm hid))
        (Function.update_of_ne (Ne.symm hid) ..)
  | recordSent id' bytes =>
    obtain rfl := Option.some.inj hstep
    by_cases hid : id' = id
    · subst hid
      exact h.recordSent hb hnow hR
    · exact h.other hnow (Scheduler.recordSent_backends_of_ne (Ne.symm hid)) rfl

end Held

namespace Ledger
variable {burst} {s l t : Ledger Id} {c : TimedCall Id} {trace : List (TimedCall Id)}

theorem step_exec (h : l.step burst c = some t) :
    t.scheduler = l.scheduler.exec burst c ∧ l.clock ≤ t.clock := by
  obtain ⟨now, call⟩ := c
  rw [step] at h
  split_ifs at h with hclock
  have hnow : l.clock ≤ now := not_lt.mp hclock
  cases call with
  | requestSend id bytes =>
    obtain rfl := Option.some.inj h
    exact ⟨rfl, hnow⟩
  | refundSend id bytes =>
    dsimp only at h
    split_ifs at h
    obtain rfl := Option.some.inj h
    exact ⟨rfl, hnow⟩
  | recordSent id bytes =>
    obtain rfl := Option.some.inj h
    exact ⟨rfl, hnow⟩

/-- Every backend that is registered at the start of a steady run stays within what it earns. -/
theorem held_of_run {n : ℤ} {id : Id} {start : BackendBandwidth} (hn : 1 ≤ n)
    (hR : n ≤ s.scheduler.totalBytesPerSecond) (hbw : s.scheduler.backends id = some start)
    (hdeficit : 0 ≤ start.deficit) (hlast : start.lastActive ≤ s.clock)
    (hadmitted : s.admitted id = 0) (hsteady : Along (step burst) (Steady burst n) s trace)
    (hrun : run (step burst) s trace = some t) :
    s.clock ≤ t.clock ∧ Held (s.scheduler.totalBytesPerSecond / n) start id t := by
  have hbps : 0 ≤ s.scheduler.totalBytesPerSecond / n :=
    Int.ediv_nonneg (by linarith) (by linarith)
  have hinit : Held (s.scheduler.totalBytesPerSecond / n) start id s :=
    ⟨start, hbw, hdeficit, le_rfl, hlast, by simp [hadmitted, accrued_zero]⟩
  obtain ⟨-, hclock, hheld⟩ := invariant_along (I := fun l =>
      l.scheduler.totalBytesPerSecond = s.scheduler.totalBytesPerSecond ∧ s.clock ≤ l.clock ∧
        Held (s.scheduler.totalBytesPerSecond / n) start id l)
    (fun l c t hl hc hstep => by
      obtain ⟨htotal, hclock, hheld⟩ := hl
      obtain ⟨hexec, hlater⟩ := step_exec hstep
      have hrate := Scheduler.totalBytesPerSecond_exec burst l.scheduler c
      refine ⟨hexec ▸ hrate.trans htotal, hclock.trans hlater, ?_⟩
      refine hheld.step hbps (by omega) ?_ hc hstep
      rw [htotal, bytesPerSecond_of_le hn hR])
    ⟨rfl, le_rfl, hinit⟩ hsteady hrun
  exact ⟨hclock, hheld⟩

/-- While `n` backends are active and none of the refills overflows, no deficit is negative, no
backend is admitted more than it starts with and what its share of the rate earns, and all of them
together not more than they start with and what the rate earns. -/
theorem bandwidth_capped {n : ℤ} {ids : Finset Id} {start : Id → BackendBandwidth} (hn : 1 ≤ n)
    (hR : n ≤ s.scheduler.totalBytesPerSecond)
    (hids : ∀ id ∈ ids, s.scheduler.backends id = some (start id)) (hcard : ids.card ≤ n)
    (hdeficit : ∀ id ∈ ids, 0 ≤ (start id).deficit)
    (hlast : ∀ id ∈ ids, (start id).lastActive ≤ s.clock)
    (hadmitted : ∀ id ∈ ids, s.admitted id = 0)
    (hsteady : Along (step burst) (Steady burst n) s trace)
    (hrun : run (step burst) s trace = some t) :
    let R := s.scheduler.totalBytesPerSecond
    (∀ id ∈ ids, ∀ bw, t.scheduler.backends id = some bw → 0 ≤ bw.deficit) ∧
    (∀ id ∈ ids, t.admitted id ≤
      (start id).deficit + R / n * (t.clock - (start id).lastActive) / second) ∧
    ∀ earliest, (∀ id ∈ ids, earliest ≤ (start id).lastActive) → ids.Nonempty →
      ∑ id ∈ ids, t.admitted id ≤
        ∑ id ∈ ids, (start id).deficit + R * (t.clock - earliest) / second := by
  intro R
  have hbps : 0 ≤ R / n := Int.ediv_nonneg (by linarith) (by linarith)
  have hheld : ∀ id ∈ ids, s.clock ≤ t.clock ∧ Held (R / n) (start id) id t := fun id hid =>
    held_of_run hn hR (hids id hid) (hdeficit id hid) (hlast id hid) (hadmitted id hid) hsteady hrun
  have hbound : ∀ id ∈ ids, t.admitted id ≤
      (start id).deficit + accrued second (R / n) (t.clock - (start id).lastActive) := by
    intro id hid
    obtain ⟨bw, -, hwithin⟩ := (hheld id hid).2
    have hpast := hwithin.past
    have hmono : accrued second (R / n) (bw.lastActive - (start id).lastActive) ≤
        accrued second (R / n) (t.clock - (start id).lastActive) :=
      accrued_mono second_pos hbps (by linarith)
    linarith [hwithin.nonneg, hwithin.bound]
  refine ⟨fun id hid bw hbw => ?_, hbound, fun earliest hearliest hne => ?_⟩
  · obtain ⟨bw', hbw', hwithin⟩ := (hheld id hid).2
    rw [hbw] at hbw'
    exact Option.some.inj hbw' ▸ hwithin.nonneg
  · have htime : 0 ≤ t.clock - earliest := by
      obtain ⟨id, hid⟩ := hne
      linarith [hearliest id hid, hlast id hid, (hheld id hid).1]
    have hshare : R / n * ids.card ≤ R :=
      (mul_le_mul_of_nonneg_left hcard hbps).trans (Int.ediv_mul_le R (by linarith))
    calc ∑ id ∈ ids, t.admitted id
        ≤ ∑ id ∈ ids, ((start id).deficit +
            accrued second (R / n) (t.clock - (start id).lastActive)) := Finset.sum_le_sum hbound
      _ = ∑ id ∈ ids, (start id).deficit +
            ∑ id ∈ ids, accrued second (R / n) (t.clock - (start id).lastActive) :=
          Finset.sum_add_distrib
      _ ≤ ∑ id ∈ ids, (start id).deficit +
            accrued second (R / n * ids.card) (t.clock - earliest) := by
          gcongr
          exact sum_accrued_le second_pos hbps ids _ fun id hid => by linarith [hearliest id hid]
      _ ≤ ∑ id ∈ ids, (start id).deficit + accrued second R (t.clock - earliest) := by
          gcongr
          exact accrued_mono_rate second_pos htime hshare

/-- Two active backends, one with a deficit of a hundred bytes. -/
def twoBackends : Ledger Bool where
  scheduler := ⟨125000, fun b => some ⟨if b then 100 else 0, 0, 1000000000, true⟩, 2, 0⟩
  clock := 1000000000
  admitted := fun _ => 0

theorem bandwidth_capped_two :
    ∃ t, run (step (· / 50)) twoBackends
        [⟨1000000000, .requestSend true 50⟩, ⟨1001000000, .requestSend false 10⟩,
          ⟨1001000000, .refundSend true 20⟩, ⟨1002000000, .recordSent true 30⟩,
          ⟨1003000000, .requestSend false 1000⟩] = some t ∧
      (∀ id ∈ Finset.univ, ∀ bw, t.scheduler.backends id = some bw → 0 ≤ bw.deficit) ∧
      (∀ id ∈ Finset.univ, t.admitted id ≤
        (if id then 100 else 0) + 125000 / 2 * (t.clock - 1000000000) / second) ∧
      ∑ id, t.admitted id ≤ ∑ id : Bool, (if id then 100 else 0 : ℤ) +
        125000 * (t.clock - 1000000000) / second := by
  obtain ⟨t, hrun, -⟩ : ∃ t, run (step (· / 50)) twoBackends
      [⟨1000000000, .requestSend true 50⟩, ⟨1001000000, .requestSend false 10⟩,
        ⟨1001000000, .refundSend true 20⟩, ⟨1002000000, .recordSent true 30⟩,
        ⟨1003000000, .requestSend false 1000⟩] = some t ∧ True :=
    exists_run_of_any (by decide +kernel)
  have hcard : ((Finset.univ : Finset Bool).card : ℤ) ≤ 2 := by decide
  obtain ⟨hnonneg, heach, hall⟩ := bandwidth_capped (n := 2) (by decide) (by decide)
    (fun id _ => rfl) hcard (by decide) (by decide) (by decide)
    (by decide +kernel : Along (step (· / 50)) (Steady (· / 50) 2) twoBackends _) hrun
  exact ⟨t, hrun, hnonneg, heach, hall 1000000000 (by decide) (by decide)⟩

end Ledger

end NexusProxy.Bandwidth
