import NexusProxy.Bandwidth.Deficits

/-! Sequences of calls of the bandwidth scheduler, and what a call that records sent bytes changes
for the calls after it. -/
namespace NexusProxy.Bandwidth
open Accrual

inductive Call (Id : Type*) where
  | requestSend (id : Id) (bytes : ℕ)
  | refundSend (id : Id) (bytes : ℕ)
  | recordSent (id : Id) (bytes : ℕ)
  deriving DecidableEq

/-- A call and the reading of the clock that it makes. -/
structure TimedCall (Id : Type*) where
  now : ℤ
  call : Call Id

variable {Id : Type*} [DecidableEq Id] (burst : ℤ → ℤ)

def Scheduler.exec (s : Scheduler Id) (c : TimedCall Id) : Scheduler Id :=
  match c.call with
  | .requestSend id bytes => (s.requestSend burst id bytes c.now).1
  | .refundSend id bytes => s.refundSend id bytes
  | .recordSent id bytes => s.recordSent id bytes c.now

def Scheduler.execAll (s : Scheduler Id) (calls : List (TimedCall Id)) : Scheduler Id :=
  calls.foldl (Scheduler.exec burst) s

theorem Scheduler.execAll_cons (s : Scheduler Id) (c : TimedCall Id)
    (calls : List (TimedCall Id)) :
    s.execAll burst (c :: calls) = (s.exec burst c).execAll burst calls := rfl

theorem Scheduler.totalBytesPerSecond_exec (s : Scheduler Id) (c : TimedCall Id) :
    (s.exec burst c).totalBytesPerSecond = s.totalBytesPerSecond := by
  obtain ⟨now, call⟩ := c
  cases call with
  | requestSend id bytes =>
    simp only [exec, requestSend]
    split_ifs
    · rfl
    · split
      · rfl
      · split_ifs <;> rfl
  | refundSend id bytes =>
    simp only [exec, refundSend]
    split_ifs
    · rfl
    · split <;> rfl
  | recordSent id bytes =>
    simp only [exec, recordSent]
    split_ifs
    · rfl
    · split <;> rfl

theorem Scheduler.totalBytesPerSecond_execAll (s : Scheduler Id) (calls : List (TimedCall Id)) :
    (s.execAll burst calls).totalBytesPerSecond = s.totalBytesPerSecond := by
  induction calls generalizing s with
  | nil => rfl
  | cons c calls ih => rw [execAll_cons, ih, totalBytesPerSecond_exec]

def Call.Requests (id : Id) : Call Id → Prop
  | .requestSend id' _ => id' = id
  | _ => False

def Call.Records (id : Id) : Call Id → Prop
  | .recordSent id' _ => id' = id
  | _ => False

instance (id : Id) : DecidablePred (Call.Requests id)
  | .requestSend id' _ => inferInstanceAs (Decidable (id' = id))
  | .refundSend _ _ => isFalse fun h => h
  | .recordSent _ _ => isFalse fun h => h

instance (id : Id) : DecidablePred (Call.Records id)
  | .requestSend _ _ => isFalse fun h => h
  | .refundSend _ _ => isFalse fun h => h
  | .recordSent id' _ => inferInstanceAs (Decidable (id' = id))

/-- Two entries of one backend that differ in what was recorded; `stamp` is the time that the
second one has instead of the first one's, if it has another. -/
structure Twin (stamp : Option ℤ) (bw bw' : BackendBandwidth) : Prop where
  deficit : bw'.deficit = bw.deficit
  isActive : bw'.isActive = bw.isActive
  lastActive : bw'.lastActive = stamp.getD bw.lastActive

/-- Two schedulers that differ in what was recorded for one backend. -/
structure Twins (id : Id) (stamp : Option ℤ) (s s' : Scheduler Id) : Prop where
  total : s'.totalBytesPerSecond = s.totalBytesPerSecond
  activeCount : s'.activeCount = s.activeCount
  others : ∀ id', id' ≠ id → s'.backends id' = s.backends id'
  entry : Option.Rel (Twin stamp) (s.backends id) (s'.backends id)

namespace Twins
variable {burst} {s s' : Scheduler Id} {id id' : Id} {stamp : Option ℤ} {bytes : ℕ} {now : ℤ}

theorem of_recordSent (hR : s.totalBytesPerSecond ≠ 0) :
    Twins id (some now) s (s.recordSent id bytes now) := by
  cases hbw : s.backends id with
  | none =>
    rw [Scheduler.recordSent_unlimited (.inr hbw)]
    exact ⟨rfl, rfl, fun _ _ => rfl, by rw [hbw]; exact .none⟩
  | some bw =>
    rw [Scheduler.recordSent_eq hR hbw]
    refine ⟨rfl, rfl, fun id' hne => Function.update_of_ne hne .., ?_⟩
    dsimp only
    rw [hbw, Function.update_self]
    exact .some ⟨rfl, rfl, rfl⟩

theorem update_other (h : Twins id stamp s s') (hne : id' ≠ id) (bw : BackendBandwidth)
    (activeCount sent sent' : ℤ) :
    Twins id stamp
      ⟨s.totalBytesPerSecond, Function.update s.backends id' (some bw), activeCount, sent⟩
      ⟨s'.totalBytesPerSecond, Function.update s'.backends id' (some bw), activeCount, sent'⟩ := by
  refine ⟨h.total, rfl, fun id'' hid'' => ?_, ?_⟩
  · dsimp only
    by_cases hid' : id'' = id'
    · subst hid'
      rw [Function.update_self, Function.update_self]
    · rw [Function.update_of_ne hid', Function.update_of_ne hid', h.others id'' hid'']
  · dsimp only
    rw [Function.update_of_ne hne.symm, Function.update_of_ne hne.symm]
    exact h.entry

theorem update_self (h : Twins id stamp s s') {stamp' : Option ℤ} {bw bw' : BackendBandwidth}
    (hbw : Twin stamp' bw bw') (sent sent' : ℤ) :
    Twins id stamp'
      ⟨s.totalBytesPerSecond, Function.update s.backends id (some bw), s.activeCount, sent⟩
      ⟨s'.totalBytesPerSecond, Function.update s'.backends id (some bw'), s'.activeCount,
        sent'⟩ := by
  refine ⟨h.total, h.activeCount, fun id' hid' => ?_, ?_⟩
  · dsimp only
    rw [Function.update_of_ne hid', Function.update_of_ne hid', h.others id' hid']
  · dsimp only
    rw [Function.update_self, Function.update_self]
    exact .some hbw

omit [DecidableEq Id] in
theorem countActive_eq (h : Twins id stamp s s') {bw bw' : BackendBandwidth}
    (hactive : bw'.isActive = bw.isActive) : s'.countActive bw' = s.countActive bw := by
  simp [Scheduler.countActive, h.activeCount, hactive]

omit [DecidableEq Id] in
theorem rate_eq (h : Twins id stamp s s') {bw bw' : BackendBandwidth}
    (hactive : bw'.isActive = bw.isActive) : s'.rate bw' = s.rate bw := by
  rw [Scheduler.rate, Scheduler.rate, h.countActive_eq hactive, h.total]

omit [DecidableEq Id] in
theorem entry_cases (h : Twins id stamp s s') :
    (s.backends id = none ∧ s'.backends id = none) ∨
      ∃ bw bw', s.backends id = some bw ∧ s'.backends id = some bw' ∧ Twin stamp bw bw' := by
  have hentry := h.entry
  generalize s.backends id = e at hentry ⊢
  generalize s'.backends id = e' at hentry ⊢
  cases hentry with
  | none => exact .inl ⟨rfl, rfl⟩
  | some hbw => exact .inr ⟨_, _, rfl, rfl, hbw⟩

section Calls
variable (hR : s.totalBytesPerSecond ≠ 0)
include hR

theorem requestSend (h : Twins id stamp s s') (hne : id' ≠ id) (bytes : ℕ) (now : ℤ) :
    Twins id stamp (s.requestSend burst id' bytes now).1
      (s'.requestSend burst id' bytes now).1 := by
  have hR' : s'.totalBytesPerSecond ≠ 0 := h.total.symm ▸ hR
  have hentry := h.others id' hne
  cases hbw : s.backends id' with
  | none =>
    rw [Scheduler.requestSend_unlimited (.inr hbw),
      Scheduler.requestSend_unlimited (.inr (hentry.trans hbw))]
    exact h
  | some bw =>
    have hnext : s'.replenished burst bw now = s.replenished burst bw now := by
      unfold Scheduler.replenished
      rw [h.rate_eq rfl]
    have hcount : s'.countActive bw = s.countActive bw := h.countActive_eq rfl
    rw [Scheduler.requestSend_eq hR hbw, Scheduler.requestSend_eq hR' (hentry.trans hbw), hnext]
    unfold Scheduler.request
    rw [hcount]
    split_ifs
    · exact h.update_other hne ..
    · exact h.update_other hne ..

theorem refundSend (h : Twins id stamp s s') (id' : Id) (bytes : ℕ) :
    Twins id stamp (s.refundSend id' bytes) (s'.refundSend id' bytes) := by
  have hR' : s'.totalBytesPerSecond ≠ 0 := h.total.symm ▸ hR
  by_cases hid : id' = id
  · subst hid
    obtain ⟨hbw, hbw'⟩ | ⟨bw, bw', hbw, hbw', htwin⟩ := h.entry_cases
    · rw [Scheduler.refundSend_unlimited (.inr hbw), Scheduler.refundSend_unlimited (.inr hbw')]
      exact h
    · rw [Scheduler.refundSend_eq hR hbw, Scheduler.refundSend_eq hR' hbw']
      apply h.update_self
      exact ⟨by simp [htwin.deficit], htwin.isActive, htwin.lastActive⟩
  · have hentry := h.others id' hid
    cases hbw : s.backends id' with
    | none =>
      rw [Scheduler.refundSend_unlimited (.inr hbw),
        Scheduler.refundSend_unlimited (.inr (hentry.trans hbw))]
      exact h
    | some bw =>
      rw [Scheduler.refundSend_eq hR hbw, Scheduler.refundSend_eq hR' (hentry.trans hbw),
        h.activeCount]
      exact h.update_other hid ..

theorem recordSent (h : Twins id stamp s s') (id' : Id) (bytes : ℕ) (now : ℤ) :
    Twins id (if id' = id then none else stamp) (s.recordSent id' bytes now)
      (s'.recordSent id' bytes now) := by
  have hR' : s'.totalBytesPerSecond ≠ 0 := h.total.symm ▸ hR
  split_ifs with hid
  · subst hid
    obtain ⟨hbw, hbw'⟩ | ⟨bw, bw', hbw, hbw', htwin⟩ := h.entry_cases
    · rw [Scheduler.recordSent_unlimited (.inr hbw), Scheduler.recordSent_unlimited (.inr hbw')]
      exact ⟨h.total, h.activeCount, h.others, by rw [hbw, hbw']; exact .none⟩
    · rw [Scheduler.recordSent_eq hR hbw, Scheduler.recordSent_eq hR' hbw']
      apply h.update_self
      exact ⟨htwin.deficit, htwin.isActive, rfl⟩
  · have hentry := h.others id' hid
    cases hbw : s.backends id' with
    | none =>
      rw [Scheduler.recordSent_unlimited (.inr hbw),
        Scheduler.recordSent_unlimited (.inr (hentry.trans hbw))]
      exact h
    | some bw =>
      rw [Scheduler.recordSent_eq hR hbw, Scheduler.recordSent_eq hR' (hentry.trans hbw),
        h.activeCount]
      exact h.update_other hid ..

theorem exec (h : Twins id stamp s s') {c : TimedCall Id} (hc : ¬ c.call.Requests id) :
    Twins id (if c.call.Records id then none else stamp) (s.exec burst c) (s'.exec burst c) := by
  obtain ⟨now, call⟩ := c
  cases call with
  | requestSend id' bytes => exact h.requestSend hR hc bytes now
  | refundSend id' bytes => exact h.refundSend hR id' bytes
  | recordSent id' bytes => exact h.recordSent hR id' bytes now

end Calls

theorem execAll (h : Twins id stamp s s') (hR : s.totalBytesPerSecond ≠ 0)
    {calls : List (TimedCall Id)} (hcalls : ∀ c ∈ calls, ¬ c.call.Requests id) :
    Twins id (if ∃ c ∈ calls, c.call.Records id then none else stamp) (s.execAll burst calls)
      (s'.execAll burst calls) := by
  induction calls generalizing stamp s s' with
  | nil => simpa [Scheduler.execAll] using h
  | cons c calls ih =>
    have hstep : Twins id _ (s.exec burst c) (s'.exec burst c) := h.exec hR (hcalls c (by simp))
    have hrest := ih hstep (by rwa [Scheduler.totalBytesPerSecond_exec])
      fun c' hc' => hcalls c' (List.mem_cons_of_mem c hc')
    by_cases hc : c.call.Records id
    · simpa [hc, Scheduler.execAll_cons] using hrest
    · simpa [hc, Scheduler.execAll_cons] using hrest

omit [DecidableEq Id] in
theorem replenished_deficit (h : Twins id stamp s s') {bw bw' : BackendBandwidth}
    (htwin : Twin stamp bw bw') :
    (s'.replenished burst bw' now).deficit =
      (s.replenished burst { bw with lastActive := stamp.getD bw.lastActive } now).deficit := by
  have hrate : s'.rate bw' = s.rate { bw with lastActive := stamp.getD bw.lastActive } :=
    h.rate_eq htwin.isActive
  unfold Scheduler.replenished BackendBandwidth.replenishDeficit
  rw [hrate]
  simp only [htwin.lastActive, htwin.deficit]
  split_ifs <;> rfl

/-- The next request gives the same answer and leaves the same deficit exactly when the two refills
that it makes come to the same deficit. -/
theorem request_iff (h : Twins id stamp s s') (hR : s.totalBytesPerSecond ≠ 0) :
    ((s.requestSend burst id bytes now).2.isAllowed =
        (s'.requestSend burst id bytes now).2.isAllowed ∧
      ((s.requestSend burst id bytes now).1.backends id).map BackendBandwidth.deficit =
        ((s'.requestSend burst id bytes now).1.backends id).map BackendBandwidth.deficit) ↔
    ∀ bw, s.backends id = some bw →
      (s.replenished burst bw now).deficit =
        (s.replenished burst { bw with lastActive := stamp.getD bw.lastActive } now).deficit := by
  have hR' : s'.totalBytesPerSecond ≠ 0 := h.total.symm ▸ hR
  obtain ⟨hbw, hbw'⟩ | ⟨bw, bw', hbw, hbw', htwin⟩ := h.entry_cases
  · rw [Scheduler.requestSend_unlimited (.inr hbw), Scheduler.requestSend_unlimited (.inr hbw')]
    simp [hbw, hbw']
  · rw [Bool.eq_iff_iff, Scheduler.isAllowed_requestSend_iff hR hbw,
      Scheduler.isAllowed_requestSend_iff hR' hbw', Scheduler.deficit_requestSend hR hbw,
      Scheduler.deficit_requestSend hR' hbw', h.replenished_deficit htwin, Option.some.injEq]
    simp only [hbw, Option.some.injEq, forall_eq']
    constructor
    · rintro ⟨hanswer, hdeficit⟩
      split_ifs at hdeficit <;> omega
    · intro heq
      simp only [heq, and_self]

end Twins

/-- The bytes that `bps` earn from `last` to `now`. Nothing is paid before the first reading of the
clock, nor when the clock has not moved on. -/
def earned (bps last now : ℤ) : ℤ :=
  if last = 0 ∨ now ≤ last then 0 else bps * (now - last) / second

/-- A refill from `recorded` pays a backend what one from `last` pays: the same bytes, or enough to
reach the cap from both. A deficit above the cap is cut by a refill of any size. -/
def Unforfeited (bps cap deficit last recorded now : ℤ) : Prop :=
  if deficit ≤ cap then
    earned bps last now = earned bps recorded now ∨
      cap ≤ max 0 deficit + min (earned bps last now) (earned bps recorded now)
  else last = 0 ∨ now ≤ last ↔ recorded = 0 ∨ now ≤ recorded

instance (bps cap deficit last recorded now : ℤ) :
    Decidable (Unforfeited bps cap deficit last recorded now) := by
  unfold Unforfeited
  infer_instance

section Unforfeited
variable {bps now recorded : ℤ} {bw : BackendBandwidth} {burst}

theorem earned_nonneg (hb : 0 ≤ bps) (last now : ℤ) : 0 ≤ earned bps last now := by
  unfold earned
  split_ifs with h
  · exact le_rfl
  · exact accrued_nonneg second_pos hb (by omega)

theorem replenishDeficit_deficit_of_fits (hb : 0 ≤ bps)
    (hfits : bw.lastActive < now → Fits bps (now - bw.lastActive)) :
    (bw.replenishDeficit burst bps now).deficit =
      if bw.lastActive = 0 ∨ now ≤ bw.lastActive then bw.deficit
      else min (maxDeficit burst bps)
        (bw.deficit + min (maxDeficit burst bps) (earned bps bw.lastActive now)) := by
  unfold BackendBandwidth.replenishDeficit
  by_cases hzero : bw.lastActive = 0
  · rw [if_pos hzero, if_pos (.inl hzero)]
  · by_cases hpast : now ≤ bw.lastActive
    · rw [if_neg hzero, if_pos (by omega), if_pos (.inr hpast)]
    · have hpaid : ¬(bw.lastActive = 0 ∨ now ≤ bw.lastActive) := by omega
      have hrefill : refill bps (now - bw.lastActive) = earned bps bw.lastActive now := by
        rw [refill_eq hb (by omega) (hfits (not_le.mp hpast)), earned, if_neg hpaid]
        rfl
      rw [if_neg hzero, if_neg (by omega), if_neg hpaid, ← hrefill]
      exact addTokens_eq_min ..

theorem replenishDeficit_eq_iff_unforfeited (hb : 0 ≤ bps)
    (hlast : bw.lastActive < now → Fits bps (now - bw.lastActive))
    (hrecorded : recorded < now → Fits bps (now - recorded)) :
    (bw.replenishDeficit burst bps now).deficit =
        ({ bw with lastActive := recorded }.replenishDeficit burst bps now).deficit ↔
      Unforfeited bps (maxDeficit burst bps) bw.deficit bw.lastActive recorded now := by
  have hcap : 0 ≤ maxDeficit burst bps := maxDeficit_nonneg burst bps
  have hplain := earned_nonneg hb bw.lastActive now
  have hother := earned_nonneg hb recorded now
  rw [replenishDeficit_deficit_of_fits hb hlast, replenishDeficit_deficit_of_fits hb hrecorded,
    Unforfeited]
  dsimp only
  by_cases hdeficit : bw.deficit ≤ maxDeficit burst bps
  · have hpaid (last : ℤ) : (if last = 0 ∨ now ≤ last then bw.deficit
        else min (maxDeficit burst bps)
          (bw.deficit + min (maxDeficit burst bps) (earned bps last now))) =
        min (maxDeficit burst bps)
          (bw.deficit + min (maxDeficit burst bps) (earned bps last now)) := by
      split_ifs with hunpaid
      · rw [earned, if_pos hunpaid]
        omega
      · rfl
    rw [if_pos hdeficit, hpaid, hpaid]
    omega
  · have hcut (last : ℤ) (hearned : 0 ≤ earned bps last now) : min (maxDeficit burst bps)
          (bw.deficit + min (maxDeficit burst bps) (earned bps last now)) =
        maxDeficit burst bps := by omega
    rw [if_neg hdeficit, hcut _ hplain, hcut _ hother]
    split_ifs with hunpaid hunpaid' hunpaid'
    · exact iff_of_true rfl (iff_of_true hunpaid hunpaid')
    · exact iff_of_false (by omega) fun h => hunpaid' (h.mp hunpaid)
    · exact iff_of_false (by omega) fun h => hunpaid (h.mpr hunpaid')
    · exact iff_of_true rfl (iff_of_false hunpaid hunpaid')

end Unforfeited

end NexusProxy.Bandwidth
