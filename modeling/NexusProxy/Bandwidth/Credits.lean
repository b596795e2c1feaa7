import NexusProxy.Bandwidth.Deficits
import NexusProxy.Lib.Collections
import NexusProxy.Lib.Transition

/-! Concurrent refills of one backend. Refills claim the time since the last one with a swap of
`lastActive`; a call that records sent bytes stores a reading of the clock that may be older. -/
namespace NexusProxy.Bandwidth.Credits
open Accrual Collections Transition

/-- Where a goroutine stands in `replenishDeficit`, up to `addSwap`, or in `RecordSent`. -/
inductive Op where
  | readClock
  | load (now : ℤ)
  | init (now : ℤ)
  | swap (now last : ℤ)
  | count (elapsed : ℤ)
  | add (bytes cap : ℤ)
  | addSwap (bytes cap current : ℤ)
  | record
  | stamp (now : ℤ)
  | done
  deriving DecidableEq

/-- `credited` is history, the sum of all bytes that were added to the deficit. -/
structure State where
  totalBytesPerSecond : ℤ
  clock : ℤ
  lastActive : ℤ
  deficit : ℤ
  activeCount : ℤ
  credited : ℤ
  ops : List Op

inductive Action where
  | replenishDeficit
  | recordSent
  | advance (i : ℕ)
  | tick (now : ℤ)
  -- requests, refunds and the idle check change the deficit and the count
  | spend (deficit : ℤ)
  | activate (activeCount : ℤ)

def init (totalBytesPerSecond now : ℤ) : State :=
  ⟨totalBytesPerSecond, now, now, 0, 0, 0, []⟩

namespace State
variable (burst : ℤ → ℤ)

def exec (s : State) : Op → Option (State × Op)
  | .readClock => some (s, .load s.clock)
  | .load now =>
      if s.lastActive = 0 then some (s, .init now)
      else if now - s.lastActive ≤ 0 then some (s, .done)
      else some (s, .swap now s.lastActive)
  | .init now => some ({ s with lastActive := now }, .done)
  | .swap now last =>
      if s.lastActive = last then some ({ s with lastActive := now }, .count (now - last))
      else some (s, .done)
  | .count elapsed =>
      let bps := bytesPerSecond s.totalBytesPerSecond s.activeCount
      some (s, .add (bytesToAdd bps elapsed (maxDeficit burst bps)) (maxDeficit burst bps))
  | .add bytes cap => some (s, .addSwap bytes cap s.deficit)
  | .addSwap bytes cap current =>
      if s.deficit = current then
        let newDeficit := current + bytes
        some ({ s with
          deficit := if cap < newDeficit then cap else newDeficit
          credited := s.credited + bytes }, .done)
      else some (s, .add bytes cap)
  | .record => some (s, .stamp s.clock)
  | .stamp now => some ({ s with lastActive := now }, .done)
  | .done => none

def step (s : State) : Action → Option State
  | .replenishDeficit => some { s with ops := s.ops ++ [.readClock] }
  | .recordSent => some { s with ops := s.ops ++ [.record] }
  | .advance i =>
      (s.ops[i]?).bind fun op =>
        (s.exec burst op).map fun (t, op') => { t with ops := s.ops.set i op' }
  | .tick now => if s.clock ≤ now then some { s with clock := now } else none
  | .spend deficit => some { s with deficit := deficit }
  | .activate activeCount => some { s with activeCount := activeCount }

def place (s : State) (i : ℕ) (op : Op) : State := { s with ops := s.ops.set i op }

/-- Goroutine `i` goes from `s` to `t` with no other goroutine in between. -/
def Alone (i : ℕ) (s t : State) : Prop :=
  ∃ k, run (step burst) s (List.replicate k (.advance i)) = some t

variable {burst} {s u t : State} {i : ℕ} {op op' : Op}

theorem ops_exec (h : s.exec burst op = some (u, op')) : u.ops = s.ops := by
  cases op with
  | load now =>
    rw [exec] at h
    split_ifs at h <;> cases h <;> rfl
  | swap now last =>
    rw [exec] at h
    split_ifs at h <;> cases h <;> rfl
  | addSwap bytes cap current =>
    rw [exec] at h
    split_ifs at h <;> cases h <;> rfl
  | done => cases h
  | _ =>
    cases h
    rfl

theorem exec_withOps (h : s.exec burst op = some (u, op')) (ops : List Op) :
    { s with ops := ops }.exec burst op = some ({ u with ops := ops }, op') := by
  cases op with
  | load now =>
    rw [exec] at h ⊢
    split_ifs at h ⊢ <;> cases h <;> rfl
  | swap now last =>
    rw [exec] at h ⊢
    split_ifs at h ⊢ <;> cases h <;> rfl
  | addSwap bytes cap current =>
    rw [exec] at h ⊢
    split_ifs at h ⊢ <;> cases h <;> rfl
  | done => cases h
  | _ =>
    cases h
    rfl

theorem Alone.refl (i : ℕ) (s : State) : Alone burst i s s := ⟨0, rfl⟩

theorem Alone.next (hi : i < s.ops.length) (h : s.exec burst op = some (u, op'))
    (hrest : Alone burst i (u.place i op') t) : Alone burst i (s.place i op) t := by
  obtain ⟨k, hk⟩ := hrest
  refine ⟨k + 1, run_cons_some.mpr ⟨u.place i op', ?_, hk⟩⟩
  have hget : (s.ops.set i op)[i]? = some op := List.getElem?_set_self hi
  simp only [step, place, hget, Option.bind_some, exec_withOps h, Option.map_some, List.set_set,
    ops_exec h]

/-- Alone, the steps of a refill do what `replenishDeficit` does as one call. -/
theorem alone_replenishDeficit (hi : i < s.ops.length) :
    ∃ t : State, Alone burst i (s.place i .readClock) (t.place i .done) ∧
      let bw := (⟨s.deficit, 0, s.lastActive, true⟩ : BackendBandwidth).replenishDeficit burst
        (bytesPerSecond s.totalBytesPerSecond s.activeCount) s.clock
      t.deficit = bw.deficit ∧ t.lastActive = bw.lastActive := by
  unfold BackendBandwidth.replenishDeficit
  dsimp only
  split_ifs with hzero hpast
  · exact ⟨_, .next hi rfl (.next hi (if_pos hzero) (.next hi rfl (.refl ..))), rfl, rfl⟩
  · exact ⟨_, .next hi rfl (.next hi ((if_neg hzero).trans (if_pos hpast)) (.refl ..)), rfl, rfl⟩
  · exact ⟨_, .next hi rfl (.next hi ((if_neg hzero).trans (if_neg hpast))
      (.next hi (if_pos rfl) (.next hi rfl (.next hi rfl (.next hi (if_pos rfl) (.refl ..)))))),
      rfl, rfl⟩

end State

/-- A store of `lastActive` without a swap does not move it back. -/
def Op.Forward (s : State) : Op → Prop
  | .init now => s.lastActive ≤ now
  | .stamp now => s.lastActive ≤ now
  | _ => True

instance (s : State) : DecidablePred (Op.Forward s)
  | .init now => inferInstanceAs (Decidable (s.lastActive ≤ now))
  | .stamp now => inferInstanceAs (Decidable (s.lastActive ≤ now))
  | .readClock | .load _ | .swap _ _ | .count _ | .add _ _ | .addSwap _ _ _ | .record | .done =>
      isTrue trivial

def Forward (s : State) : Action → Prop
  | .advance i => ∀ op ∈ s.ops[i]?, op.Forward s
  | _ => True

instance decidableForward (s : State) : DecidablePred (Forward s)
  | .advance i => inferInstanceAs (Decidable (∀ op ∈ s.ops[i]?, op.Forward s))
  | .replenishDeficit | .recordSent | .tick _ | .spend _ | .activate _ => isTrue trivial

/-! ### Every period is paid once -/

/-- The byte-nanoseconds that a goroutine has claimed with its swap and not paid out. -/
def Op.claim (total : ℤ) : Op → ℤ
  | .count elapsed => total * elapsed
  | .add bytes _ => max 0 (bytes * second)
  | .addSwap bytes _ _ => max 0 (bytes * second)
  | _ => 0

/-- The readings of a goroutine are in the past, and what it claims is a period. -/
def Op.Past (clock : ℤ) : Op → Prop
  | .load now => now ≤ clock
  | .init now => now ≤ clock
  | .stamp now => now ≤ clock
  | .swap now last => last < now ∧ now ≤ clock
  | .count elapsed => 0 < elapsed
  | _ => True

theorem Op.Past.mono {clock clock' : ℤ} {op : Op} (h : op.Past clock) (hle : clock ≤ clock') :
    op.Past clock' := by
  cases op with
  | load now => exact le_trans h hle
  | init now => exact le_trans h hle
  | stamp now => exact le_trans h hle
  | swap now last => exact ⟨h.1, h.2.trans hle⟩
  | count elapsed => exact h
  | _ => exact trivial

theorem Op.claim_nonneg {total clock : ℤ} {op : Op} (htotal : 0 ≤ total) (h : op.Past clock) :
    0 ≤ op.claim total := by
  cases op with
  | count elapsed => exact mul_nonneg htotal (le_of_lt h)
  | add bytes cap => exact le_max_left _ _
  | addSwap bytes cap current => exact le_max_left _ _
  | _ => exact le_rfl

/-- A refill pays no more than the period earns at the whole rate. -/
theorem bytesToAdd_mul_second_le {total n elapsed cap : ℤ} (htotal : 0 < total)
    (helapsed : 0 ≤ elapsed) :
    bytesToAdd (bytesPerSecond total n) elapsed cap * second ≤ total * elapsed := by
  have hbps : 0 ≤ bytesPerSecond total n := zero_le_one.trans (one_le_bytesPerSecond total n)
  rw [← le_accrued_iff second_pos, bytesToAdd_eq_min]
  calc min cap (refill (bytesPerSecond total n) elapsed)
      ≤ refill (bytesPerSecond total n) elapsed := min_le_right _ _
    _ ≤ accrued second (bytesPerSecond total n) elapsed := refill_le hbps helapsed
    _ ≤ accrued second total elapsed :=
        accrued_mono_rate second_pos helapsed (bytesPerSecond_le htotal n)

/-- The balance of one goroutine: what has been paid and what it has claimed, against the time
up to which the backend is paid. -/
def balance (s : State) (op : Op) : ℤ :=
  s.credited * second + op.claim s.totalBytesPerSecond - s.totalBytesPerSecond * s.lastActive

/-- What an atomic step keeps. -/
structure Pays (s : State) (op : Op) (t : State) (op' : Op) : Prop where
  total : t.totalBytesPerSecond = s.totalBytesPerSecond
  clock : t.clock = s.clock
  last : t.lastActive ≤ t.clock
  past : op'.Past t.clock
  balance_le : balance t op' ≤ balance s op

theorem Pays.silent {s : State} {op op' : Op} (hlast : s.lastActive ≤ s.clock)
    (hpast : op'.Past s.clock)
    (hclaim : op'.claim s.totalBytesPerSecond ≤ op.claim s.totalBytesPerSecond) :
    Pays s op s op' :=
  ⟨rfl, rfl, hlast, hpast, by unfold balance; linarith⟩

theorem Pays.store {s : State} {op : Op} {now : ℤ} (htotal : 0 < s.totalBytesPerSecond)
    (hnow : now ≤ s.clock) (hforward : s.lastActive ≤ now)
    (hclaim : op.claim s.totalBytesPerSecond = 0) :
    Pays s op { s with lastActive := now } .done := by
  refine ⟨rfl, rfl, hnow, trivial, ?_⟩
  have hmul := mul_le_mul_of_nonneg_left hforward htotal.le
  unfold balance
  rw [hclaim]
  dsimp only [Op.claim]
  linarith

theorem exec_pays {burst : ℤ → ℤ} {s t : State} {op op' : Op} (htotal : 0 < s.totalBytesPerSecond)
    (hlast : s.lastActive ≤ s.clock) (hpast : op.Past s.clock) (hforward : op.Forward s)
    (h : s.exec burst op = some (t, op')) : Pays s op t op' := by
  cases op with
  | readClock =>
    obtain ⟨rfl, rfl⟩ := Prod.mk.inj (Option.some.inj h)
    exact .silent hlast (le_refl _) le_rfl
  | load now =>
    rw [State.exec] at h
    split_ifs at h with hzero helapsed
    · obtain ⟨rfl, rfl⟩ := Prod.mk.inj (Option.some.inj h)
      exact .silent hlast hpast le_rfl
    · obtain ⟨rfl, rfl⟩ := Prod.mk.inj (Option.some.inj h)
      exact .silent hlast trivial le_rfl
    · obtain ⟨rfl, rfl⟩ := Prod.mk.inj (Option.some.inj h)
      exact .silent hlast ⟨by linarith, hpast⟩ le_rfl
  | init now =>
    obtain ⟨rfl, rfl⟩ := Prod.mk.inj (Option.some.inj h)
    exact .store htotal hpast hforward rfl
  | swap now last =>
    rw [State.exec] at h
    split_ifs at h with heq
    · -- the period up to `now` is claimed, and the backend is paid up to `now`
      obtain ⟨rfl, rfl⟩ := Prod.mk.inj (Option.some.inj h)
      refine ⟨rfl, rfl, hpast.2, sub_pos.mpr hpast.1, ?_⟩
      unfold balance
      rw [heq]
      dsimp only [Op.claim]
      linarith
    · obtain ⟨rfl, rfl⟩ := Prod.mk.inj (Option.some.inj h)
      exact .silent hlast trivial le_rfl
  | count elapsed =>
    obtain ⟨rfl, rfl⟩ := Prod.mk.inj (Option.some.inj h)
    exact .silent hlast trivial
      (max_le (mul_nonneg htotal.le (le_of_lt hpast)) (bytesToAdd_mul_second_le htotal hpast.le))
  | add bytes cap =>
    obtain ⟨rfl, rfl⟩ := Prod.mk.inj (Option.some.inj h)
    exact .silent hlast trivial le_rfl
  | addSwap bytes cap current =>
    rw [State.exec] at h
    split_ifs at h
    · obtain ⟨rfl, rfl⟩ := Prod.mk.inj (Option.some.inj h)
      refine ⟨rfl, rfl, hlast, trivial, ?_⟩
      have hmax := le_max_right 0 (bytes * second)
      unfold balance
      dsimp only [Op.claim]
      linarith
    · obtain ⟨rfl, rfl⟩ := Prod.mk.inj (Option.some.inj h)
      exact .silent hlast trivial le_rfl
  | record =>
    obtain ⟨rfl, rfl⟩ := Prod.mk.inj (Option.some.inj h)
    exact .silent hlast (le_refl _) le_rfl
  | stamp now =>
    obtain ⟨rfl, rfl⟩ := Prod.mk.inj (Option.some.inj h)
    exact .store htotal hpast hforward rfl
  | done => cases h

/-- What has been paid and what has been claimed was earned between the registration and the time
up to which the backend is paid. -/
structure Earned (total registered : ℤ) (s : State) : Prop where
  rate : s.totalBytesPerSecond = total
  last : s.lastActive ≤ s.clock
  past : ∀ op ∈ s.ops, op.Past s.clock
  paid : s.credited * second + (s.ops.map (Op.claim total)).sum ≤
    total * (s.lastActive - registered)

theorem earned_init (total registered : ℤ) : Earned total registered (init total registered) :=
  ⟨rfl, le_rfl, by simp [init], by simp [init]⟩

theorem Earned.start {total registered : ℤ} {s : State} {op : Op} (h : Earned total registered s)
    (hpast : op.Past s.clock) (hclaim : op.claim total = 0) :
    Earned total registered { s with ops := s.ops ++ [op] } where
  rate := h.rate
  last := h.last
  past := by
    intro op' hop'
    rcases List.mem_append.mp hop' with hop' | hop'
    · exact h.past op' hop'
    · obtain rfl := List.mem_singleton.mp hop'
      exact hpast
  paid := by simpa [hclaim] using h.paid

theorem Earned.step {burst : ℤ → ℤ} {total registered : ℤ} {s t : State} {a : Action}
    (htotal : 0 < total) (h : Earned total registered s) (hforward : Forward s a)
    (hstep : s.step burst a = some t) : Earned total registered t := by
  cases a with
  | replenishDeficit =>
    obtain rfl := Option.some.inj hstep
    exact h.start trivial rfl
  | recordSent =>
    obtain rfl := Option.some.inj hstep
    exact h.start trivial rfl
  | advance i =>
    obtain ⟨op, hop, hnext⟩ := Option.bind_eq_some_iff.mp hstep
    obtain ⟨⟨u, op'⟩, hexec, rfl⟩ := Option.map_eq_some_iff.mp hnext
    have hpays := exec_pays (h.rate ▸ htotal) h.last (h.past op (List.mem_of_getElem? hop))
      (hforward op hop) hexec
    refine ⟨hpays.total.trans h.rate, hpays.last, ?_, ?_⟩
    · refine forall_mem_set (fun op'' hmem => ?_) hpays.past
      exact (h.past op'' hmem).mono hpays.clock.ge
    · have hsum := sum_map_set hop op' (Op.claim total)
      have hbalance := hpays.balance_le
      have hpaid := h.paid
      unfold balance at hbalance
      rw [hpays.total, h.rate] at hbalance
      dsimp only
      linarith
  | tick now =>
    rw [State.step] at hstep
    split_ifs at hstep with hclock
    obtain rfl := Option.some.inj hstep
    exact { h with
      last := h.last.trans hclock
      past := fun op hop => (h.past op hop).mono hclock }
  | spend deficit =>
    obtain rfl := Option.some.inj hstep
    exact { h with }
  | activate activeCount =>
    obtain rfl := Option.some.inj hstep
    exact { h with }

/-- While no store moves `lastActive` back, what a backend is credited is at most what the whole
rate earns since its registration. -/
theorem credited_once {burst : ℤ → ℤ} {total registered : ℤ} {trace : List Action} {t : State}
    (htotal : 0 < total)
    (hforward : Along (State.step burst) Forward (init total registered) trace)
    (hrun : run (State.step burst) (init total registered) trace = some t) :
    t.credited ≤ total * (t.clock - registered) / second := by
  have hearned : Earned total registered t :=
    invariant_along (fun _ _ _ h hf hs => h.step htotal hf hs) (earned_init total registered)
      hforward hrun
  have hclaims : 0 ≤ (t.ops.map (Op.claim total)).sum := by
    apply List.sum_nonneg
    intro x hx
    obtain ⟨op, hop, rfl⟩ := List.mem_map.mp hx
    exact Op.claim_nonneg htotal.le (hearned.past op hop)
  have hmul := mul_le_mul_of_nonneg_left (sub_le_sub_right hearned.last registered) htotal.le
  rw [Int.le_ediv_iff_mul_le second_pos]
  linarith [hearned.paid]

/-- A refill and a recording call, one after the other, at 125000 bytes per second. -/
theorem credited_once_refill_record :
    ∃ t, run (State.step (· / 50)) (init 125000 1000000000)
        ([Action.replenishDeficit, .activate 1, .tick 2000000000, .recordSent] ++
          List.replicate 6 (Action.advance 0) ++ List.replicate 2 (Action.advance 1)) = some t ∧
      t.credited = 125000 ∧ t.credited ≤ 125000 * (t.clock - 1000000000) / second := by
  obtain ⟨t, hrun, hcredited⟩ : ∃ t, run (State.step (· / 50)) (init 125000 1000000000)
      ([Action.replenishDeficit, .activate 1, .tick 2000000000, .recordSent] ++
        List.replicate 6 (Action.advance 0) ++ List.replicate 2 (Action.advance 1)) = some t ∧
      t.credited = 125000 := exists_run_of_any (by decide +kernel)
  exact ⟨t, hrun, hcredited, credited_once (by decide) (by decide +kernel) hrun⟩

/-- A recording call reads the clock, a refill is paid for a second, the recording call stores its
reading, and the next refill is paid for the same second. -/
theorem credited_twice :
    ∃ t, run (State.step (· / 50)) (init 125000 1000000000)
        ([Action.recordSent, .advance 0, .activate 1, .tick 2000000000, .replenishDeficit] ++
          List.replicate 6 (Action.advance 1) ++ [Action.advance 0, .replenishDeficit] ++
          List.replicate 6 (Action.advance 2)) = some t ∧
      t.credited = 250000 ∧ 125000 * (t.clock - 1000000000) / second = 125000 :=
  exists_run_of_any (by decide +kernel)

end NexusProxy.Bandwidth.Credits
