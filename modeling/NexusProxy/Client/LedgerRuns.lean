import NexusProxy.Client.LedgerSteps
import NexusProxy.Lib.Collections
import NexusProxy.Lib.Transition

/-! Any number of goroutines call the methods of one ledger. Every access conserves the credits
that have been granted, and only the addition of the stall probe can pass the cap. -/
namespace NexusProxy.Client
open FixedWidth Collections Transition

inductive Method where
  | tryAcquire
  | release
  | replenish (n : ℤ)
  | initCredits (n : ℤ)
  | notifyEnqueue
  | drainYielded
  | close
  | kickstartAndClose (n : ℤ)
  deriving DecidableEq

/-- A goroutine at a point of a method; `kick` marks those of `KickstartAndClose`. -/
structure Task where
  kick : Bool
  op : Op
  deriving DecidableEq

def Method.task : Method → Task
  | .tryAcquire => ⟨false, .tryAcquire⟩
  | .release => ⟨false, .release⟩
  | .replenish n => ⟨false, .replenish n⟩
  | .initCredits n => ⟨false, .initCredits n⟩
  | .notifyEnqueue => ⟨false, .notifyEnqueue⟩
  | .drainYielded => ⟨false, .drainYielded⟩
  | .close => ⟨false, .close⟩
  | .kickstartAndClose n => ⟨true, .kickstartAndClose n⟩

/-- What has happened: credits that `TryAcquire` spent and `Release` put back, the sum of the
positive grants that `Replenish` was called with, credits that the stall probe granted itself, the
executions of `clearStallCycle` and the bonuses of `KickstartAndClose`. -/
structure History where
  acquired : ℤ
  released : ℤ
  replenished : ℤ
  selfGrants : ℤ
  clears : ℤ
  bonuses : ℤ
  deriving DecidableEq

def History.record (h : History) (l : Ledger) (t : Task) : History :=
  match t.op with
  | .acqCas cur => if l.available = cur then { h with acquired := h.acquired + 1 } else h
  | .relCas cur => if l.available = cur then { h with released := h.released + 1 } else h
  | .addCas _ cur _ =>
      if l.available = cur ∧ t.kick = true then { h with bonuses := h.bonuses + 1 } else h
  | .fireAdd => { h with selfGrants := h.selfGrants + 1 }
  | .clearUnlock _ => { h with clears := h.clears + 1 }
  | _ => h

def Method.grant : Method → ℤ
  | .replenish n => max 0 n
  | _ => 0

structure LedgerRun where
  ledger : Ledger
  tasks : List Task
  history : History

inductive LedgerAction where
  | call (m : Method)
  | advance (i : ℕ) (more : Bool)
  | fire (gen : ℕ)
  deriving DecidableEq

namespace LedgerRun

def start (initial maxCap : ℤ) : LedgerRun :=
  ⟨newCreditLedger initial maxCap, [], ⟨0, 0, 0, 0, 0, 0⟩⟩

/-- A method is called, a goroutine makes its next access, or a timer that has not been stopped
starts its body. -/
def step (s : LedgerRun) : LedgerAction → Option LedgerRun
  | .call m =>
      some { s with
        tasks := s.tasks ++ [m.task]
        history := { s.history with replenished := s.history.replenished + m.grant } }
  | .advance i more =>
      (s.tasks[i]?).bind fun t =>
        (t.op.step more s.ledger).map fun (l, op) =>
          { ledger := l, tasks := s.tasks.set i { t with op := op },
            history := s.history.record s.ledger t }
  | .fire gen =>
      if gen ∈ s.ledger.timers then
        some { s with
          ledger := { s.ledger with timers := s.ledger.timers.erase gen }
          tasks := s.tasks ++ [⟨false, .probeBody gen⟩] }
      else none

/-- What a step does. -/
inductive Stepped (s : LedgerRun) : LedgerAction → LedgerRun → Prop
  | call (m : Method) : Stepped s (.call m)
      { s with
        tasks := s.tasks ++ [m.task]
        history := { s.history with replenished := s.history.replenished + m.grant } }
  | access {i : ℕ} {more : Bool} {t : Task} {l : Ledger} {op : Op} (ht : s.tasks[i]? = some t)
      (hop : t.op.step more s.ledger = some (l, op)) : Stepped s (.advance i more)
      { ledger := l, tasks := s.tasks.set i { t with op := op },
        history := s.history.record s.ledger t }
  | fire {gen : ℕ} (h : gen ∈ s.ledger.timers) : Stepped s (.fire gen)
      { s with
        ledger := { s.ledger with timers := s.ledger.timers.erase gen }
        tasks := s.tasks ++ [⟨false, .probeBody gen⟩] }

theorem stepped {s s' : LedgerRun} {action : LedgerAction} (h : s.step action = some s') :
    Stepped s action s' := by
  cases action with
  | call method =>
    cases h
    exact .call method
  | advance i more =>
    obtain ⟨t, ht, hstep⟩ := Option.bind_eq_some_iff.mp h
    obtain ⟨⟨l, op⟩, hop, rfl⟩ := Option.map_eq_some_iff.mp hstep
    exact .access ht hop
  | fire gen =>
    dsimp only [step] at h
    split_ifs at h with hgen
    cases h
    exact .fire hgen

end LedgerRun

/-! ### One access -/

/-- What the caller of `clearStallCycle` has yet to add. -/
def After.due : After → ℤ
  | .replenish n | .install n | .kickstart n => max 0 n
  | .close => 0

/-- An `InitCredits` that goes on to install a grant within the bound. -/
def After.Sound (m : ℤ) : After → Prop
  | .install n => n ≤ m
  | _ => True

namespace Op

/-- The credits that a goroutine is bound to add, as far as `Replenish` was called with them or
the ledger has been marked as initialized or closed for them. -/
def due : Op → ℤ
  | repUnlimited n | addLoad n _ | addCas n _ _ | kickUnlimited n => max 0 n
  | kickUnlock n won => if won then max 0 n else 0
  | clearLock k | clearFired k | clearGen k | clearTimer k | clearUnlock k => k.due
  | _ => 0

/-- The values that a goroutine carries are in range, and the ledger is not in the unlimited
mode. -/
def Sound (cap m b : ℤ) : Op → Prop
  | acqCas cur => 0 < cur
  | relCas cur => cur < cap
  | addLoad n _ | addCas n _ _ => 0 ≤ n ∧ n ≤ cap
  | clearLock k | clearFired k | clearGen k | clearTimer k | clearUnlock k => k.Sound m
  | initLock n | initClosed n | initOnce n => n ≤ m
  | initUnlimited => maxInt64 ≤ m
  | initMax => False
  | kickLock n | kickCas n => n ≤ b
  | _ => True

/-- The credits that an access takes out, or puts back, for a caller. -/
def spent (l : Ledger) : Op → ℤ
  | acqCas cur => if l.available = cur then 1 else 0
  | relCas cur => if l.available = cur then -1 else 0
  | _ => 0

end Op

/-- The grants that can still come from `InitCredits` and `KickstartAndClose`. -/
def Ledger.reserve (m b : ℤ) (l : Ledger) : ℤ :=
  (if l.initialized then 0 else max 0 m) + if l.closed then 0 else max 0 b

/-- What an access does to the credits; the addition of the stall probe apart, none are made. -/
structure Effect (m b : ℤ) (l : Ledger) (op : Op) (l' : Ledger) (op' : Op) : Prop where
  maxCap : l'.maxCap = l.maxCap
  sound : op'.Sound l.maxCap m b
  nonneg : 0 ≤ l'.available
  capped : l'.available ≤ max l.available l.maxCap
  probe : op' = .fireAdd → l'.available ≤ 0
  conserved : l'.available + op'.due + l'.reserve m b + op.spent l ≤
    l.available + op.due + l.reserve m b

namespace Effect
variable {m b : ℤ} {l l' : Ledger} {op op' : Op}

theorem silent (hnonneg : 0 ≤ l.available)
    (hsame : l'.available = l.available ∧ l'.maxCap = l.maxCap ∧
      l'.initialized = l.initialized ∧ l'.closed = l.closed)
    (hsound : op'.Sound l.maxCap m b) (hprobe : op' = .fireAdd → l.available ≤ 0)
    (hdue : op'.due ≤ op.due) (hspent : op.spent l = 0) : Effect m b l op l' op' := by
  obtain ⟨ha, hm, hi, hc⟩ := hsame
  refine ⟨hm, hsound, ha ▸ hnonneg, ha ▸ le_max_left _ _, fun h => ha ▸ hprobe h, ?_⟩
  rw [ha, Ledger.reserve, hi, hc, ← Ledger.reserve, hspent]
  omega

end Effect

theorem clampedSum_le {cap cur n : ℤ} (hcap : cap ≤ maxInt64) (hcur : 0 ≤ cur ∧ cur ≤ maxInt64)
    (hn : 0 ≤ n ∧ n ≤ cap) :
    0 ≤ Ledger.clampedSum cap cur n ∧ Ledger.clampedSum cap cur n ≤ cap ∧
      Ledger.clampedSum cap cur n ≤ cur + n := by
  unfold maxInt64 at hcap hcur
  unfold Ledger.clampedSum
  rcases lt_or_ge (cur + n) (2 ^ 63) with hlt | hge
  · rw [int64_eq (by omega) hlt]
    split_ifs <;> omega
  · have hneg := int64_overflow hge (by omega)
    rw [if_pos (.inr hneg)]
    omega

section
variable {m b : ℤ} {l l' : Ledger} {op op' : Op} {more : Bool}

theorem afterAdd_sound (cap : ℤ) (held : Bool) : (Op.afterAdd held).Sound cap m b := by
  cases held <;> exact trivial

theorem afterAdd_due (held : Bool) : (Op.afterAdd held).due = 0 := by
  cases held <;> rfl

theorem addClamped_sound {cap : ℤ} (hcap : 0 ≤ cap) (n : ℤ) (held : Bool) :
    (Op.addClamped cap n held).Sound cap m b ∧ (Op.addClamped cap n held).due ≤ max 0 n ∧
      Op.addClamped cap n held ≠ .fireAdd := by
  unfold Op.addClamped
  split_ifs with hn hbig
  · rw [afterAdd_due]
    exact ⟨afterAdd_sound cap held, le_max_left _ _, by cases held <;> simp [Op.afterAdd]⟩
  · refine ⟨⟨hcap, le_rfl⟩, max_le_max le_rfl hbig.le, by simp⟩
  · exact ⟨⟨(not_le.mp hn).le, not_lt.mp hbig⟩, le_rfl, by simp⟩

theorem afterClear_sound {cap : ℤ} (hcap : 0 ≤ cap) {k : After} (hk : k.Sound m) :
    (Op.afterClear cap k).Sound cap m b ∧ (Op.afterClear cap k).due ≤ k.due ∧
      Op.afterClear cap k ≠ .fireAdd := by
  cases k with
  | replenish n => exact addClamped_sound hcap n false
  | install n =>
    simp only [Op.afterClear]
    by_cases hn : n = maxInt64
    · subst hn
      rw [if_pos rfl]
      exact ⟨hk, le_max_left _ _, fun hop => by cases hop⟩
    · rw [if_neg hn]
      have hadd := addClamped_sound (m := m) (b := b) hcap (if n < 0 then 0 else n) true
      have hmax : max 0 (if n < 0 then 0 else n) = max 0 n := by
        split_ifs <;> omega
      rw [hmax] at hadd
      exact hadd
  | close => exact ⟨trivial, le_rfl, fun hop => by cases hop⟩
  | kickstart n =>
    simp only [Op.afterClear]
    split_ifs
    · exact ⟨trivial, le_rfl, fun hop => by cases hop⟩
    · exact ⟨trivial, le_max_left _ _, fun hop => by cases hop⟩

theorem stopTimer_same (l : Ledger) :
    l.stopTimer.available = l.available ∧ l.stopTimer.maxCap = l.maxCap ∧
      l.stopTimer.initialized = l.initialized ∧ l.stopTimer.closed = l.closed := by
  unfold Ledger.stopTimer
  split <;> exact ⟨rfl, rfl, rfl, rfl⟩

theorem unlimited_of_step (h : op.step more l = some (l', op')) :
    l'.unlimited = (l.unlimited || decide (op = .initUnlimited)) := by
  cases op with
  | initUnlimited =>
    cases h
    simp
  | clearTimer k =>
    cases h
    unfold Ledger.stopTimer
    split <;> simp
  | armStop gen =>
    cases h
    unfold Ledger.stopTimer
    split <;> simp
  | _ =>
    simp only [Op.step] at h
    (try split_ifs at h) <;> cases h <;> simp

theorem acqCas_effect {cur : ℤ} (hnonneg : 0 ≤ l.available)
    (hsound : (Op.acqCas cur).Sound l.maxCap m b)
    (h : (Op.acqCas cur).step more l = some (l', op')) : Effect m b l (Op.acqCas cur) l' op' := by
  simp only [Op.step] at h
  split_ifs at h with heq
  · cases h
    have hcur : 0 < cur := hsound
    refine ⟨rfl, trivial, by dsimp only; omega, ?_, (fun hop => by cases hop), ?_⟩
    · exact le_max_of_le_left (by dsimp only; omega)
    · simp only [Op.due, Op.spent, heq, if_true, Ledger.reserve]
      omega
  · cases h
    exact .silent hnonneg ⟨rfl, rfl, rfl, rfl⟩ trivial (fun hop => by cases hop) le_rfl (if_neg heq)

theorem relCas_effect {cur : ℤ} (hnonneg : 0 ≤ l.available)
    (hsound : (Op.relCas cur).Sound l.maxCap m b)
    (h : (Op.relCas cur).step more l = some (l', op')) : Effect m b l (Op.relCas cur) l' op' := by
  simp only [Op.step] at h
  split_ifs at h with heq
  · cases h
    have hcur : cur < l.maxCap := hsound
    refine ⟨rfl, trivial, by dsimp only; omega, ?_, (fun hop => by cases hop), ?_⟩
    · exact le_max_of_le_right (by dsimp only; omega)
    · simp only [Op.due, Op.spent, heq, if_true, Ledger.reserve]
      omega
  · cases h
    exact .silent hnonneg ⟨rfl, rfl, rfl, rfl⟩ trivial (fun hop => by cases hop) le_rfl (if_neg heq)

theorem addCas_effect {n cur : ℤ} {held : Bool} (hcap : l.maxCap ≤ maxInt64)
    (hrange : 0 ≤ l.available ∧ l.available ≤ maxInt64)
    (hsound : (Op.addCas n cur held).Sound l.maxCap m b)
    (h : (Op.addCas n cur held).step more l = some (l', op')) :
    Effect m b l (Op.addCas n cur held) l' op' := by
  simp only [Op.step] at h
  split_ifs at h with heq
  · cases h
    obtain ⟨hnonneg, hle, hsum⟩ := clampedSum_le hcap (heq ▸ hrange) hsound
    refine ⟨rfl, afterAdd_sound _ held, hnonneg, le_max_of_le_right hle, ?_, ?_⟩
    · cases held <;> exact fun hop => by cases hop
    · have hmax := le_max_right 0 n
      rw [afterAdd_due]
      simp only [Op.due, Op.spent, Ledger.reserve]
      omega
  · cases h
    exact .silent hrange.1 ⟨rfl, rfl, rfl, rfl⟩ hsound (fun hop => by cases hop) le_rfl rfl

theorem initOnce_effect {n : ℤ} (hnonneg : 0 ≤ l.available)
    (hsound : (Op.initOnce n).Sound l.maxCap m b)
    (h : (Op.initOnce n).step more l = some (l', op')) : Effect m b l (Op.initOnce n) l' op' := by
  simp only [Op.step] at h
  split_ifs at h with hinit
  · cases h
    exact .silent hnonneg ⟨rfl, rfl, rfl, rfl⟩ trivial (fun hop => by cases hop) le_rfl rfl
  · -- the reserve of `InitCredits` becomes a grant that is due
    cases h
    have hn : max 0 n ≤ max 0 m := max_le_max le_rfl hsound
    refine ⟨rfl, hsound, hnonneg, le_max_left _ _, (fun hop => by cases hop), ?_⟩
    simp only [Op.due, After.due, Op.spent, Ledger.reserve, if_true, if_neg hinit]
    omega

theorem closeCas_effect (hnonneg : 0 ≤ l.available) (h : Op.closeCas.step more l = some (l', op')) :
    Effect m b l Op.closeCas l' op' := by
  cases h
  refine ⟨rfl, trivial, hnonneg, le_max_left _ _, (fun hop => by cases hop), ?_⟩
  have hb := le_max_left 0 b
  simp only [Op.due, Op.spent, Ledger.reserve, if_true]
  split_ifs <;> omega

theorem kickCas_effect {n : ℤ} (hnonneg : 0 ≤ l.available)
    (hsound : (Op.kickCas n).Sound l.maxCap m b) (h : (Op.kickCas n).step more l = some (l', op')) :
    Effect m b l (Op.kickCas n) l' op' := by
  -- the reserve of `KickstartAndClose` becomes a grant that is due
  cases h
  have hn : max 0 n ≤ max 0 b := max_le_max le_rfl hsound
  refine ⟨rfl, trivial, hnonneg, le_max_left _ _, (fun hop => by cases hop), ?_⟩
  cases hclosed : l.closed with
  | false =>
    simp only [Op.due, Op.spent, Ledger.reserve, hclosed]
    simp
    omega
  | true =>
    simp only [Op.due, Op.spent, Ledger.reserve, hclosed]
    simp

/-- Every access but the addition of the stall probe conserves the credits. -/
theorem step_effect (hu : l'.unlimited = false) (hcap : 0 ≤ l.maxCap ∧ l.maxCap ≤ maxInt64)
    (hrange : 0 ≤ l.available ∧ l.available ≤ maxInt64) (hsound : op.Sound l.maxCap m b)
    (hop : op ≠ .fireAdd) (h : op.step more l = some (l', op')) : Effect m b l op l' op' := by
  have hsame : l.available = l.available ∧ l.maxCap = l.maxCap ∧
      l.initialized = l.initialized ∧ l.closed = l.closed := ⟨rfl, rfl, rfl, rfl⟩
  cases op with
  | acqCas => exact acqCas_effect hrange.1 hsound h
  | relCas => exact relCas_effect hrange.1 hsound h
  | acqLoad =>
    cases h
    split_ifs with hle
    · exact .silent hrange.1 hsame trivial (fun hop => by cases hop) le_rfl rfl
    · exact .silent hrange.1 hsame (not_le.mp hle) (fun hop => by cases hop) le_rfl rfl
  | relLoad =>
    cases h
    split_ifs with hle
    · exact .silent hrange.1 hsame trivial (fun hop => by cases hop) le_rfl rfl
    · exact .silent hrange.1 hsame (not_le.mp hle) (fun hop => by cases hop) le_rfl rfl
  | addCas => exact addCas_effect hcap.2 hrange hsound h
  | clearUnlock k =>
    cases h
    obtain ⟨hafter, hdue, hne⟩ := afterClear_sound (b := b) hcap.1 hsound
    exact .silent hrange.1 hsame hafter (fun hop => absurd hop hne) hdue rfl
  | kickUnlimited n =>
    cases h
    rw [hu]
    obtain ⟨hadd, hdue, hne⟩ := addClamped_sound (m := m) (b := b) hcap.1 n false
    exact .silent hrange.1 hsame hadd (fun hop => absurd hop hne) hdue rfl
  | initOnce => exact initOnce_effect hrange.1 hsound h
  | closeCas => exact closeCas_effect hrange.1 h
  | kickCas => exact kickCas_effect hrange.1 hsound h
  | kickUnlock n won =>
    cases h
    cases won with
    | false => exact .silent hrange.1 hsame trivial (fun hop => by cases hop) le_rfl rfl
    | true => exact .silent hrange.1 hsame trivial (fun hop => by cases hop) le_rfl rfl
  | fireAvail =>
    cases h
    split_ifs with hpos
    · exact .silent hrange.1 hsame trivial (fun hop => by cases hop) le_rfl rfl
    · exact .silent hrange.1 hsame trivial (fun _ => not_lt.mp hpos) le_rfl rfl
  | fireAdd => exact absurd rfl hop
  | initUnlimited =>
    cases h
    cases hu
  | initMax => exact absurd hsound id
  | clearTimer k =>
    cases h
    exact .silent hrange.1 (stopTimer_same l) hsound (fun hop => by cases hop) le_rfl rfl
  | armStop gen =>
    cases h
    exact .silent hrange.1 (stopTimer_same l) trivial (fun hop => by cases hop) le_rfl rfl
  | _ =>
    simp only [Op.step] at h
    (try split_ifs at h) <;> cases h <;>
      first
        | exact .silent hrange.1 hsame trivial (fun hop => by cases hop) le_rfl rfl
        | exact .silent hrange.1 hsame hsound (fun hop => by cases hop) le_rfl rfl
        | exact .silent hrange.1 hsame trivial (fun hop => by cases hop) (le_max_left _ _) rfl

end

/-! ### Runs -/

/-- Calls whose grants are within the bounds; below the largest word, `InitCredits` does not switch
to the unlimited mode. -/
def LedgerAction.Within (m b : ℤ) : LedgerAction → Prop
  | .call (.initCredits n) => n ≤ m
  | .call (.kickstartAndClose n) => n ≤ b
  | _ => True

instance decidableWithin (m b : ℤ) : DecidablePred (LedgerAction.Within m b) := by
  intro action
  unfold LedgerAction.Within
  split <;> infer_instance

namespace LedgerRun

/-- When the stall probe adds its credit, the ledger has fewer than `top`. -/
def ProbeBelow (top : ℤ) (s : LedgerRun) : LedgerAction → Prop
  | .advance i _ => ∀ t ∈ s.tasks[i]?, t.op = .fireAdd → s.ledger.available < top
  | _ => True

instance decidableProbeBelow (top : ℤ) (s : LedgerRun) : DecidablePred (ProbeBelow top s)
  | .advance i _ => inferInstanceAs
      (Decidable (∀ t ∈ s.tasks[i]?, t.op = .fireAdd → s.ledger.available < top))
  | .call _ | .fire _ => isTrue trivial

/-- The credits in the ledger, those that goroutines are bound to add, those that can still be
granted and those that are out with callers have all been granted. -/
structure Credits (initial cap m b top : ℤ) (s : LedgerRun) : Prop where
  maxCap : s.ledger.maxCap = cap
  sound : ∀ t ∈ s.tasks, t.op.Sound cap m b
  nonneg : 0 ≤ s.ledger.available
  capped : s.ledger.available ≤ top
  conserved : s.ledger.available + (s.tasks.map fun t => t.op.due).sum + s.ledger.reserve m b +
      s.history.acquired - s.history.released ≤
    max 0 initial + max 0 m + max 0 b + s.history.replenished + s.history.selfGrants

variable {initial cap m b top : ℤ} {s s' : LedgerRun}

theorem start_unlimited : (start initial cap).ledger.unlimited = decide (initial = maxInt64) := by
  by_cases h : initial = maxInt64 <;> simp [start, newCreditLedger, h]

theorem credits_start (hinitial : initial ≠ maxInt64) (hcap : 0 ≤ cap) (htop : cap ≤ top) :
    Credits initial cap m b top (start initial cap) := by
  have havailable : (newCreditLedger initial cap).available =
      if cap < max 0 initial then cap else max 0 initial := by
    simp only [newCreditLedger, if_neg hinitial]
    split_ifs <;> omega
  have hbounds : 0 ≤ (newCreditLedger initial cap).available ∧
      (newCreditLedger initial cap).available ≤ cap ∧
      (newCreditLedger initial cap).available ≤ max 0 initial := by
    rw [havailable]
    split_ifs <;> omega
  refine ⟨rfl, fun t ht => ?_, hbounds.1, hbounds.2.1.trans htop, ?_⟩
  · cases ht
  · have hreserve : (start initial cap).ledger.reserve m b = max 0 m + max 0 b := rfl
    rw [hreserve]
    simp only [start, List.map_nil, List.sum_nil]
    omega

theorem task_sound {method : Method} (h : (LedgerAction.call method).Within m b) :
    method.task.op.Sound cap m b := by
  cases method with
  | initCredits n => exact h
  | kickstartAndClose n => exact h
  | _ => exact trivial

theorem task_due (method : Method) : method.task.op.due = method.grant := by
  cases method <;> rfl

theorem record_spent (h : History) (l : Ledger) (t : Task) :
    (h.record l t).acquired - (h.record l t).released = h.acquired - h.released + t.op.spent l ∧
      (h.record l t).replenished = h.replenished ∧
      (t.op ≠ .fireAdd → (h.record l t).selfGrants = h.selfGrants) := by
  obtain ⟨kick, op⟩ := t
  cases op with
  | acqCas cur =>
    simp only [History.record, Op.spent]
    split_ifs
    · exact ⟨by dsimp only; omega, rfl, fun _ => rfl⟩
    · exact ⟨(add_zero _).symm, rfl, fun _ => rfl⟩
  | relCas cur =>
    simp only [History.record, Op.spent]
    split_ifs
    · exact ⟨by dsimp only; omega, rfl, fun _ => rfl⟩
    · exact ⟨(add_zero _).symm, rfl, fun _ => rfl⟩
  | addCas n cur held =>
    simp only [History.record, Op.spent]
    split_ifs <;> exact ⟨(add_zero _).symm, rfl, fun _ => rfl⟩
  | fireAdd => exact ⟨(add_zero _).symm, rfl, fun hop => absurd rfl hop⟩
  | _ => exact ⟨(add_zero _).symm, rfl, fun _ => rfl⟩

theorem Credits.fireAdd (h : Credits initial cap m b top s) (htop : top ≤ maxInt64) {i : ℕ}
    {t : Task} (ht : s.tasks[i]? = some t) (hfire : t.op = .fireAdd)
    (hlt : s.ledger.available < top) :
    Credits initial cap m b top
      { ledger := { s.ledger with available := int64 (s.ledger.available + 1) }
        tasks := s.tasks.set i { t with op := .fireSignal }
        history := s.history.record s.ledger t } := by
  obtain ⟨kick, op⟩ := t
  obtain rfl : op = .fireAdd := hfire
  have hnonneg := h.nonneg
  have hint : int64 (s.ledger.available + 1) = s.ledger.available + 1 := by
    unfold maxInt64 at htop
    exact int64_eq (by omega) (by omega)
  have hsum := sum_map_set ht ⟨kick, .fireSignal⟩ fun t => t.op.due
  rw [hint]
  refine ⟨h.maxCap, forall_mem_set h.sound trivial, ?_, hlt, ?_⟩
  · show 0 ≤ s.ledger.available + 1
    omega
  · have hconserved := h.conserved
    simp only [History.record, Ledger.reserve, Op.due] at hsum hconserved ⊢
    omega

theorem Credits.effect (h : Credits initial cap m b top s) (hcap : 0 ≤ cap ∧ cap ≤ top)
    (htop : top ≤ maxInt64) {i : ℕ} {t : Task} {more : Bool} {l : Ledger} {op : Op}
    (ht : s.tasks[i]? = some t) (hstep : t.op.step more s.ledger = some (l, op))
    (hfire : t.op ≠ .fireAdd) (hlimited : l.unlimited = false) :
    Effect m b s.ledger t.op l op :=
  step_effect hlimited (h.maxCap.symm ▸ ⟨hcap.1, hcap.2.trans htop⟩)
    ⟨h.nonneg, h.capped.trans htop⟩
    (h.maxCap.symm ▸ h.sound t (List.mem_of_getElem? ht)) hfire hstep

theorem Credits.access (h : Credits initial cap m b top s) (hcap : 0 ≤ cap ∧ cap ≤ top)
    (htop : top ≤ maxInt64) {i : ℕ} {t : Task} {more : Bool} {l : Ledger} {op : Op}
    (ht : s.tasks[i]? = some t) (hstep : t.op.step more s.ledger = some (l, op))
    (hfire : t.op ≠ .fireAdd) (hlimited : l.unlimited = false) :
    Credits initial cap m b top
      { ledger := l, tasks := s.tasks.set i { t with op := op },
        history := s.history.record s.ledger t } := by
  obtain ⟨hmax, hsound', hnonneg, hcapped, -, heffect⟩ :=
    h.effect hcap htop ht hstep hfire hlimited
  rw [h.maxCap] at hmax hsound' hcapped
  have hsum := sum_map_set ht { t with op := op } fun t => t.op.due
  obtain ⟨hspent, hreplenished, hself⟩ := record_spent s.history s.ledger t
  refine ⟨hmax, forall_mem_set h.sound hsound', hnonneg,
    hcapped.trans (max_le h.capped hcap.2), ?_⟩
  have hconserved := h.conserved
  dsimp only at hsum ⊢
  rw [hreplenished, hself hfire]
  omega

theorem Credits.call (h : Credits initial cap m b top s) {method : Method}
    (hmethod : (LedgerAction.call method).Within m b) :
    Credits initial cap m b top
      { s with
        tasks := s.tasks ++ [method.task]
        history := { s.history with
          replenished := s.history.replenished + method.grant } } := by
  refine ⟨h.maxCap, forall_mem_concat h.sound (task_sound hmethod), h.nonneg, h.capped,
    ?_⟩
  have hconserved := h.conserved
  simp only [sum_map_concat, task_due]
  omega

theorem Credits.fire (h : Credits initial cap m b top s) (gen : ℕ) :
    Credits initial cap m b top
      { s with
        ledger := { s.ledger with timers := s.ledger.timers.erase gen }
        tasks := s.tasks ++ [⟨false, .probeBody gen⟩] } := by
  refine ⟨h.maxCap, forall_mem_concat h.sound trivial, h.nonneg, h.capped, ?_⟩
  have hconserved := h.conserved
  simp only [sum_map_concat, Op.probeBody, Op.due, Ledger.reserve] at hconserved ⊢
  omega

theorem credits_step (h : Credits initial cap m b top s) (hcap : 0 ≤ cap ∧ cap ≤ top)
    (htop : top ≤ maxInt64) {action : LedgerAction} (hwithin : action.Within m b)
    (hprobe : ProbeBelow top s action) (hstep : s.step action = some s')
    (hlimited : s'.ledger.unlimited = false) : Credits initial cap m b top s' := by
  cases stepped hstep with
  | call method => exact h.call hwithin
  | fire _ => exact h.fire _
  | @access i more t l op ht hop =>
    by_cases hfire : t.op = .fireAdd
    · rw [hfire] at hop
      cases hop
      exact h.fireAdd htop ht hfire (hprobe t ht hfire)
    · exact h.access hcap htop ht hop hfire hlimited

theorem limited_of_step {action : LedgerAction} (hstep : s.step action = some s')
    (h : s'.ledger.unlimited = false) : s.ledger.unlimited = false := by
  cases stepped hstep with
  | call method => exact h
  | fire _ => exact h
  | access ht hop =>
    rw [unlimited_of_step hop, Bool.or_eq_false_iff] at h
    exact h.1

/-- An addition of the stall probe to a full ledger passes the cap. -/
theorem Credits.probeBelow_of_step (h : Credits initial cap m b cap s) (hcap : 0 ≤ cap)
    (hmax : cap < maxInt64) {action : LedgerAction} (hstep : s.step action = some s')
    (hle : s'.ledger.available ≤ cap) : ProbeBelow cap s action := by
  cases stepped hstep with
  | call method => trivial
  | fire _ => trivial
  | @access i more t l op ht hop =>
    intro t' ht' hfire
    obtain rfl : t = t' := Option.some.inj (ht.symm.trans ht')
    by_contra hfull
    have havailable : s.ledger.available = cap := le_antisymm h.capped (not_lt.mp hfull)
    have hint : int64 (cap + 1) = cap + 1 := by
      unfold maxInt64 at hmax
      exact int64_eq (by omega) (by omega)
    rw [hfire] at hop
    cases hop
    have hpast : int64 (s.ledger.available + 1) ≤ cap := hle
    rw [havailable, hint] at hpast
    omega

end LedgerRun

section
open LedgerRun

/-- A ledger that is not switched to the unlimited mode keeps within its cap as long as the stall
probe adds its credit below the cap, and the next access keeps within it only then. -/
theorem ledger_within_cap (initial maxCap : ℤ) (hcap : 1 ≤ maxCap) (hmax : maxCap ≤ maxInt64)
    (actions : List LedgerAction) (hwords : ∀ action ∈ actions, action.Within maxInt64 maxInt64)
    (s : LedgerRun) (hprobe : Along step (ProbeBelow maxCap) (start initial maxCap) actions)
    (hrun : run step (start initial maxCap) actions = some s)
    (hlimited : s.ledger.unlimited = false) :
    s.ledger.available ≤ maxCap ∧
      ∀ action s', action.Within maxInt64 maxInt64 → maxCap < maxInt64 →
        s.step action = some s' → s'.ledger.unlimited = false →
          (s'.ledger.available ≤ maxCap ↔ ProbeBelow maxCap s action) := by
  have hpos : 0 ≤ maxCap := zero_le_one.trans hcap
  have hcredits : Credits initial maxCap maxInt64 maxInt64 maxCap s := by
    apply invariant_along (I := fun s => s.ledger.unlimited = false →
      Credits initial maxCap maxInt64 maxInt64 maxCap s) _ _
      ((along_of_forall (fun action h _ => hwords action h) _).and hprobe) hrun hlimited
    · intro s action t h hguard hstep hlimited
      exact credits_step (h (limited_of_step hstep hlimited)) ⟨hpos, le_rfl⟩ hmax hguard.1 hguard.2
        hstep hlimited
    · intro hlimited
      rw [start_unlimited, decide_eq_false_iff_not] at hlimited
      exact credits_start hlimited hpos le_rfl
  refine ⟨hcredits.capped, fun action s' hnext hlt hstep hlimited => ⟨?_, ?_⟩⟩
  · exact hcredits.probeBelow_of_step hpos hlt hstep
  · intro hbelow
    exact (credits_step hcredits ⟨hpos, le_rfl⟩ hmax hnext hbelow hstep hlimited).capped

/-- A frame waits without credits, the probe is armed and its timer runs up to the addition. -/
def stalledProbe (waiting : ℕ) : List LedgerAction :=
  .call .notifyEnqueue :: List.replicate 12 (.advance waiting false)

theorem ledger_within_cap_stalledProbe :
    ∃ s, run step (start 0 1)
        (stalledProbe 0 ++ .fire 1 :: List.replicate 5 (.advance 1 false)) = some s ∧
      (s.history.selfGrants = 1 ∧ s.ledger.unlimited = false) ∧ s.ledger.available ≤ 1 := by
  obtain ⟨s, hrun, hself⟩ : ∃ s, run step (start 0 1)
      (stalledProbe 0 ++ .fire 1 :: List.replicate 5 (.advance 1 false)) = some s ∧
        (s.history.selfGrants = 1 ∧ s.ledger.unlimited = false) :=
    exists_run_of_any (by decide +kernel)
  refine ⟨s, hrun, hself, ?_⟩
  exact (ledger_within_cap 0 1 le_rfl (by decide) _ (by decide +kernel) s (by decide +kernel) hrun
    hself.2).1

/-- A grant that has cleared the stall cycle is added after the probe has found no credits and
before the probe adds its own. -/
theorem ledger_past_cap :
    ∃ s, run step (start 0 1)
        (.call (.replenish 1) :: List.replicate 6 (.advance 0 false) ++ stalledProbe 1 ++
          .fire 2 :: List.replicate 4 (.advance 2 false) ++
          List.replicate 2 (.advance 0 false) ++ [.advance 2 false]) = some s ∧
      s.ledger.unlimited = false ∧ 1 < s.ledger.available :=
  exists_run_of_any (by decide +kernel)

end
end NexusProxy.Client
