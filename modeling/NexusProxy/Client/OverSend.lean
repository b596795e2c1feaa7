import Mathlib.Algebra.Order.BigOperators.Group.List
import Mathlib.Tactic.Linarith
import NexusProxy.Client.LedgerInvariants
import NexusProxy.Client.LedgerRuns

/-! How far the frames that a client sends can pass the credits it was granted: every credit that
the stall probe makes is paid for by an execution of `clearStallCycle`, the first one apart, and
`KickstartAndClose` grants its bonus once. -/
namespace NexusProxy.Client
open FixedWidth Collections Transition

namespace Op

instance decidableCritical : DecidablePred Critical := by
  intro op
  unfold Critical
  split <;> infer_instance

def held (op : Op) : ℤ := if op.Critical then 1 else 0

/-- A probe on the way from the flag that its arming sets to its end can make a credit; a
`clearStallCycle` that has cleared the flag pays for one when it returns. -/
def stake : Op → ℤ
  | armGen | armStop _ | armInstall _ => 1
  | fireLock _ | fireClosed _ | fireGen _ | fireAvail | fireReset | fireAdd => 1
  | clearGen _ | clearTimer _ | clearUnlock _ => -1
  | _ => 0

/-- The access ends an execution of `clearStallCycle`. -/
def cleared : Op → ℤ
  | clearUnlock _ => 1
  | _ => 0

/-- The access makes a credit. -/
def granting : Op → ℤ
  | fireAdd => 1
  | _ => 0

def OfKickstart : Op → Prop
  | kickLock _ | kickCas _ | kickUnlock _ _ | kickUnlimited _ | wake | notify | ret _ => True
  | clearLock k | clearFired k | clearGen k | clearTimer k | clearUnlock k => k.Kicks
  | addLoad _ held | addCas _ _ held => held = false
  | _ => False

/-- A `KickstartAndClose` that has closed the ledger and not added its bonus. -/
def winning : Op → ℤ
  | kickUnlock _ won => if won then 1 else 0
  | clearLock _ | clearFired _ | clearGen _ | clearTimer _ | clearUnlock _ => 1
  | kickUnlimited _ | addLoad _ _ | addCas _ _ _ => 1
  | _ => 0

def adds (l : Ledger) : Op → ℤ
  | addCas _ cur _ => if l.available = cur then 1 else 0
  | _ => 0

theorem granting_nonneg (op : Op) : 0 ≤ op.granting := by
  cases op <;> simp [granting]

theorem cleared_nonneg (op : Op) : 0 ≤ op.cleared := by
  cases op <;> simp [cleared]

/-- The probe makes its credit inside `probeMu`. -/
theorem granting_le_held (op : Op) : op.granting ≤ op.held := by
  cases op <;> simp [granting, held, Critical]

/-- While the probe makes its credit, no `clearStallCycle` is under way. -/
theorem granting_le_stake (op : Op) : 2 * op.granting ≤ op.stake + op.held := by
  cases op <;> simp [granting, stake, held, Critical]

theorem winning_nonneg (op : Op) : 0 ≤ op.winning := by
  unfold winning
  split <;> (try split_ifs) <;> simp

theorem due_nonneg (op : Op) : 0 ≤ op.due := by
  cases op with
  | kickUnlock n won => cases won <;> simp [due]
  | clearLock k | clearFired k | clearGen k | clearTimer k | clearUnlock k =>
    cases k <;> simp [due, After.due]
  | _ => simp [due]

theorem granting_eq_zero {op : Op} (h : op ≠ fireAdd) : op.granting = 0 := by
  cases op <;> first | rfl | exact absurd rfl h

end Op

/-- The probes that are waiting for their timer, and the one that can be armed. -/
def Ledger.probes (l : Ledger) : ℤ := l.timers.length + if l.probeFired then 0 else 1

theorem Ledger.probes_nonneg (l : Ledger) : 0 ≤ l.probes := by
  unfold Ledger.probes
  split <;> omega

def Ledger.locked (l : Ledger) : ℤ := if l.probeMu then 1 else 0

def Ledger.shut (l : Ledger) : ℤ := if l.closed then 1 else 0

/-! ### One access -/

/-- What an access does to the stall cycle. -/
structure Turn (l : Ledger) (op : Op) (l' : Ledger) (op' : Op) : Prop where
  held : op'.held + l.locked = op.held + l'.locked
  probes : op.granting + l'.probes + op'.stake ≤ l.probes + op.stake + op.cleared
  shut : l.shut ≤ l'.shut

section
variable {l l' : Ledger} {op op' : Op} {more : Bool}

theorem stopTimer_turn (l : Ledger) :
    l.stopTimer.probes ≤ l.probes ∧ l.stopTimer.locked = l.locked ∧ l.stopTimer.shut = l.shut := by
  unfold Ledger.stopTimer
  split
  · refine ⟨?_, rfl, rfl⟩
    have hlength := List.length_erase_le (l := l.timers) (a := ‹ℕ›)
    simp only [Ledger.probes]
    omega
  · exact ⟨le_rfl, rfl, rfl⟩

theorem afterClear_turn (cap : ℤ) (k : After) :
    (Op.afterClear cap k).held = 0 ∧ (Op.afterClear cap k).stake = 0 := by
  cases k <;> simp only [Op.afterClear, Op.addClamped, Op.afterAdd] <;> (try split_ifs) <;>
    exact ⟨if_neg id, rfl⟩

theorem step_turn (hmu : op.Critical → l.probeMu = true) (h : op.step more l = some (l', op')) :
    Turn l op l' op' := by
  cases op with
  | clearUnlock k =>
    cases h
    obtain ⟨hheld, hstake⟩ := afterClear_turn l.maxCap k
    refine ⟨?_, ?_, le_rfl⟩
    · rw [hheld]
      simp [Op.held, Op.Critical, Ledger.locked, hmu trivial]
    · rw [hstake]
      simp [Op.granting, Op.cleared, Op.stake, Ledger.probes]
  | clearTimer k =>
    cases h
    obtain ⟨hprobes, hlocked, hshut⟩ := stopTimer_turn l
    refine ⟨congrArg _ hlocked.symm, ?_, hshut.ge⟩
    show 0 + l.stopTimer.probes + -1 ≤ l.probes + -1 + 0
    omega
  | armStop gen =>
    cases h
    obtain ⟨hprobes, hlocked, hshut⟩ := stopTimer_turn l
    refine ⟨congrArg _ hlocked.symm, ?_, hshut.ge⟩
    show 0 + l.stopTimer.probes + 1 ≤ l.probes + 1 + 0
    omega
  | clearFired k | fireReset | armInstall gen | fireAdd =>
    cases h
    refine ⟨rfl, ?_, le_rfl⟩
    simp only [Op.granting, Op.cleared, Op.stake, Ledger.probes, List.length_cons]
    cases l.probeFired <;> simp <;> omega
  | armUnlock | fireUnlock notifyCaller =>
    cases h
    (try split_ifs) <;> constructor <;>
      simp [Op.held, Op.Critical, Op.granting, Op.cleared, Op.stake, Ledger.probes, Ledger.locked,
        Ledger.shut, hmu trivial]
  | closeCas | kickCas n =>
    cases h
    refine ⟨rfl, ?_, ?_⟩
    · simp [Op.granting, Op.cleared, Op.stake, Ledger.probes]
    · cases hclosed : l.closed <;> simp [Ledger.shut, hclosed]
  | _ =>
    simp only [Op.step, Op.addClamped, Op.afterAdd] at h
    (try split_ifs at h) <;> cases h <;>
      exact {
        held := by simp_all [Op.held, Op.Critical, Ledger.locked]
        probes := by simp_all [Op.granting, Op.stake, Op.cleared, Ledger.probes]
        shut := le_rfl }

theorem step_kickstart (hop : op.OfKickstart) (h : op.step more l = some (l', op')) :
    op'.OfKickstart ∧ op.adds l + op'.winning + l.shut ≤ op.winning + l'.shut := by
  cases op with
  | clearUnlock k =>
    cases k with
    | kickstart n =>
      simp only [Op.step, Op.afterClear] at h
      split_ifs at h <;> cases h <;> simp [Op.OfKickstart, Op.adds, Op.winning, Ledger.shut]
    | _ => cases hop
  | clearTimer k =>
    cases h
    obtain ⟨-, -, hshut⟩ := stopTimer_turn l
    refine ⟨hop, ?_⟩
    show 0 + 1 + l.shut ≤ 1 + l.stopTimer.shut
    omega
  | addCas n cur held =>
    obtain rfl : held = false := hop
    simp only [Op.step] at h
    split_ifs at h with heq <;> cases h <;>
      simp [Op.OfKickstart, Op.afterAdd, Op.adds, Op.winning, Ledger.shut, heq]
  | kickCas n =>
    cases h
    refine ⟨trivial, ?_⟩
    cases hclosed : l.closed <;> simp [Op.adds, Op.winning, Ledger.shut, hclosed]
  | kickUnlimited n =>
    simp only [Op.step, Op.addClamped, Op.afterAdd, Bool.false_eq_true, if_false] at h
    split_ifs at h <;> cases h <;> simp [Op.OfKickstart, Op.adds, Op.winning, Ledger.shut]
  | _ =>
    first
      | exact absurd hop id
      | simp only [Op.step] at h
        (try split_ifs at h) <;> cases h <;>
          simp_all [Op.OfKickstart, Op.adds, Op.winning, Ledger.shut, After.Kicks]

end

theorem record_grants (h : History) (l : Ledger) (t : Task) :
    (h.record l t).selfGrants = h.selfGrants + t.op.granting ∧
      (h.record l t).clears = h.clears + t.op.cleared ∧
      (h.record l t).bonuses = h.bonuses + if t.kick then t.op.adds l else 0 := by
  obtain ⟨kick, op⟩ := t
  cases op with
  | addCas n cur held =>
    cases kick <;> simp only [History.record, Op.granting, Op.cleared, Op.adds] <;>
      split_ifs <;> simp_all
  | acqCas cur | relCas cur =>
    simp only [History.record]
    split_ifs <;> simp [Op.granting, Op.cleared, Op.adds]
  | _ => simp [History.record, Op.granting, Op.cleared, Op.adds]

namespace LedgerRun
variable {initial cap m b : ℤ} {s s' : LedgerRun}

def total (s : LedgerRun) (f : Task → ℤ) : ℤ := (s.tasks.map f).sum

theorem total_nonneg {f : Task → ℤ} (hf : ∀ t, 0 ≤ f t) : 0 ≤ s.total f :=
  List.sum_nonneg (List.forall_mem_map.mpr fun t _ => hf t)

theorem le_total {f : Task → ℤ} (hf : ∀ t, 0 ≤ f t) {t : Task} (ht : t ∈ s.tasks) :
    f t ≤ s.total f :=
  List.single_le_sum (List.forall_mem_map.mpr fun t _ => hf t) _ (List.mem_map_of_mem ht)

theorem total_le {f g : Task → ℤ} (h : ∀ t, f t ≤ g t) : s.total f ≤ s.total g :=
  List.sum_le_sum fun t _ => h t

/-- At most one goroutine is inside `probeMu`, the probe finds the ledger within the cap when it
adds its credit, and every credit that it makes is paid for. -/
structure Cycle (cap : ℤ) (s : LedgerRun) : Prop where
  exclusive : s.total (fun t => t.op.held) = s.ledger.locked
  below : 0 < s.total (fun t => t.op.granting) → s.ledger.available ≤ cap
  probes : s.history.selfGrants + s.ledger.probes + s.total (fun t => t.op.stake) ≤
    1 + s.history.clears
  grants : s.history.selfGrants ≤ 1 + s.history.clears

/-- At most one `KickstartAndClose` finds the ledger open, and no other adds a bonus. -/
structure Kickstarts (s : LedgerRun) : Prop where
  points : ∀ t ∈ s.tasks, t.kick = true → t.op.OfKickstart
  bonus : s.history.bonuses + s.total (fun t => if t.kick then t.op.winning else 0) ≤ s.ledger.shut

theorem Cycle.locked_of_critical (h : Cycle cap s) {t : Task} (ht : t ∈ s.tasks)
    (hcritical : t.op.Critical) : s.ledger.probeMu = true := by
  have hle := le_total (f := fun t => t.op.held) (fun t => (t.op.granting_nonneg).trans
    t.op.granting_le_held) ht
  rw [h.exclusive, Op.held, if_pos hcritical] at hle
  by_contra hmu
  rw [Ledger.locked, if_neg hmu] at hle
  omega

/-- When the probe makes its credit, nobody else is inside `probeMu`. -/
theorem Cycle.alone (h : Cycle cap s) {t : Task} (ht : t ∈ s.tasks) (hfire : t.op = .fireAdd) :
    s.total (fun t => t.op.granting) = 1 ∧ 1 ≤ s.total fun t => t.op.stake := by
  have hgranting : t.op.granting = 1 := by rw [hfire, Op.granting]
  have hone := le_total (f := fun t => t.op.granting) (fun t => t.op.granting_nonneg) ht
  have hheld : s.total (fun t => t.op.granting) ≤ s.total fun t => t.op.held :=
    total_le fun t => t.op.granting_le_held
  have hlocked : s.ledger.locked ≤ 1 := by
    unfold Ledger.locked
    split <;> simp
  have hstake : 2 * s.total (fun t => t.op.granting) ≤
      s.total (fun t => t.op.stake) + s.total fun t => t.op.held := by
    rw [total, total, total, ← List.sum_map_mul_left, ← List.sum_map_add]
    exact total_le fun t => t.op.granting_le_stake
  have hexclusive := h.exclusive
  omega

theorem Cycle.access (h : Cycle cap s) (hcredits : Credits initial cap m b (cap + 1) s)
    (hcap : 0 ≤ cap ∧ cap < maxInt64) {i : ℕ} {t : Task} {more : Bool} {l : Ledger} {op : Op}
    (ht : s.tasks[i]? = some t) (hstep : t.op.step more s.ledger = some (l, op))
    (hlimited : l.unlimited = false) :
    Cycle cap
      { ledger := l, tasks := s.tasks.set i { t with op := op },
        history := s.history.record s.ledger t } := by
  have hmem := List.mem_of_getElem? ht
  obtain ⟨hheld, hprobes, -⟩ := step_turn (h.locked_of_critical hmem) hstep
  obtain ⟨hself, hclears, -⟩ := record_grants s.history s.ledger t
  refine ⟨?_, ?_, ?_, ?_⟩
  · have hsum := sum_map_set ht { t with op := op } fun t => t.op.held
    have hexclusive := h.exclusive
    unfold total at hexclusive ⊢
    dsimp only at hsum ⊢
    omega
  · intro hpos
    have hsum := sum_map_set ht { t with op := op } fun t => t.op.granting
    unfold total at hpos
    dsimp only at hsum hpos ⊢
    by_cases hfire : t.op = .fireAdd
    · -- nobody else is about to add a credit
      have halone := (h.alone hmem hfire).1
      rw [hfire] at hstep hsum
      cases hstep
      unfold total at halone
      simp only [Op.granting] at hsum halone hpos
      omega
    · obtain ⟨-, -, -, hcapped, hprobe, -⟩ := hcredits.effect ⟨hcap.1, by omega⟩
        (Int.add_one_le_of_lt hcap.2) ht hstep hfire hlimited
      by_cases hnext : op = .fireAdd
      · exact (hprobe hnext).trans hcap.1
      · rw [Op.granting_eq_zero hfire, Op.granting_eq_zero hnext] at hsum
        have hbelow := h.below (by unfold total; omega)
        rw [hcredits.maxCap] at hcapped
        exact hcapped.trans (max_le hbelow le_rfl)
  · have hsum := sum_map_set ht { t with op := op } fun t => t.op.stake
    have hpaid := h.probes
    unfold total at hpaid ⊢
    dsimp only at hsum ⊢
    omega
  · have hgrants := h.grants
    have hcleared := t.op.cleared_nonneg
    dsimp only
    rw [hself, hclears]
    by_cases hfire : t.op = .fireAdd
    · -- the credit that the probe makes has been paid for
      have halone := (h.alone hmem hfire).2
      have hpaid := h.probes
      have hprobes := s.ledger.probes_nonneg
      simp only [hfire, Op.granting, Op.cleared]
      omega
    · rw [Op.granting_eq_zero hfire]
      omega

theorem Cycle.call (h : Cycle cap s) (method : Method) (history : History)
    (hsame : history.selfGrants = s.history.selfGrants ∧ history.clears = s.history.clears) :
    Cycle cap { s with tasks := s.tasks ++ [method.task], history := history } := by
  have hidle : method.task.op.held = 0 ∧ method.task.op.granting = 0 ∧
      method.task.op.stake = 0 := by
    cases method <;> exact ⟨if_neg id, rfl, rfl⟩
  obtain ⟨hexclusive, hbelow, hprobes, hgrants⟩ := h
  unfold total at hexclusive hbelow hprobes
  refine ⟨?_, ?_, ?_, ?_⟩ <;> simp only [total, sum_map_concat, hidle, hsame, add_zero]
  · exact hexclusive
  · exact hbelow
  · exact hprobes
  · exact hgrants

theorem Cycle.fire (h : Cycle cap s) {gen : ℕ} (hgen : gen ∈ s.ledger.timers) :
    Cycle cap
      { s with
        ledger := { s.ledger with timers := s.ledger.timers.erase gen }
        tasks := s.tasks ++ [⟨false, .probeBody gen⟩] } := by
  have hlength := List.length_erase_add_one hgen
  have hidle : (Op.probeBody gen).held = 0 ∧ (Op.probeBody gen).granting = 0 := ⟨if_neg id, rfl⟩
  obtain ⟨hexclusive, hbelow, hprobes, hgrants⟩ := h
  unfold total at hexclusive hbelow hprobes
  refine ⟨?_, ?_, ?_, hgrants⟩ <;> simp only [total, sum_map_concat, hidle, add_zero]
  · exact hexclusive
  · exact hbelow
  · simp only [Op.probeBody, Op.stake, Ledger.probes] at hprobes ⊢
    omega

theorem Kickstarts.access (h : Kickstarts s) {i : ℕ} {t : Task} {more : Bool} {l : Ledger} {op : Op}
    (ht : s.tasks[i]? = some t) (hstep : t.op.step more s.ledger = some (l, op))
    (hshut : s.ledger.shut ≤ l.shut) :
    Kickstarts
      { ledger := l, tasks := s.tasks.set i { t with op := op },
        history := s.history.record s.ledger t } := by
  have hsum := sum_map_set ht { t with op := op } fun t => if t.kick then t.op.winning else 0
  obtain ⟨-, -, hbonuses⟩ := record_grants s.history s.ledger t
  have hbonus := h.bonus
  unfold total at hbonus
  cases hkick : t.kick with
  | false =>
    refine ⟨forall_mem_set h.points fun hop => ?_, ?_⟩
    · simp at hop
    · simp only [hkick, Bool.false_eq_true, if_false] at hsum hbonuses
      simp only [total, hbonuses]
      omega
  | true =>
    obtain ⟨hpoint, hwinning⟩ := step_kickstart (h.points t (List.mem_of_getElem? ht) hkick) hstep
    refine ⟨forall_mem_set h.points fun _ => hpoint, ?_⟩
    simp only [hkick, if_true] at hsum hbonuses
    simp only [total, hbonuses]
    omega

theorem Kickstarts.concat (h : Kickstarts s) {t : Task} (history : History) (timers : List ℕ)
    (ht : t.kick = true → t.op.OfKickstart ∧ t.op.winning = 0)
    (hsame : history.bonuses = s.history.bonuses) :
    Kickstarts
      { ledger := { s.ledger with timers := timers }, tasks := s.tasks ++ [t],
        history := history } := by
  refine ⟨forall_mem_concat h.points fun hkick => (ht hkick).1, ?_⟩
  have hidle : (if t.kick = true then t.op.winning else 0) = 0 := by
    split_ifs with hkick
    · exact (ht hkick).2
    · rfl
  simp only [total, sum_map_concat, hidle, hsame, add_zero]
  exact h.bonus

theorem Kickstarts.bonuses_le (h : Kickstarts s) : s.history.bonuses ≤ 1 := by
  have hnonneg : 0 ≤ s.total fun t => if t.kick then t.op.winning else 0 := by
    apply total_nonneg
    intro t
    split_ifs
    · exact t.op.winning_nonneg
    · exact le_rfl
  have hshut : s.ledger.shut ≤ 1 := by
    unfold Ledger.shut
    split <;> simp
  have hbonus := h.bonus
  omega

theorem Credits.spent_le {top : ℤ} (h : Credits initial cap m b top s) :
    s.history.acquired - s.history.released ≤
      max 0 initial + max 0 m + max 0 b + s.history.replenished + s.history.selfGrants := by
  have hdue : 0 ≤ s.total fun t => t.op.due := total_nonneg fun t => t.op.due_nonneg
  have hreserve : 0 ≤ s.ledger.reserve m b := by
    unfold Ledger.reserve
    split_ifs <;> omega
  have hnonneg := h.nonneg
  have hconserved := h.conserved
  unfold total at hdue
  omega

/-- A ledger whose grants are bounded is never switched to the unlimited mode. -/
theorem Credits.limited_step {top : ℤ} (h : Credits initial cap m b top s) (hm : m < maxInt64)
    (hlimited : s.ledger.unlimited = false) {i : ℕ} {t : Task} {more : Bool} {l : Ledger} {op : Op}
    (ht : s.tasks[i]? = some t) (hstep : t.op.step more s.ledger = some (l, op)) :
    l.unlimited = false := by
  rw [unlimited_of_step hstep, hlimited, Bool.false_or, decide_eq_false_iff_not]
  intro hop
  have hsound := h.sound t (List.mem_of_getElem? ht)
  rw [hop] at hsound
  exact absurd hsound (not_le.mpr hm)

/-- What holds in every state that a limited ledger can reach. -/
structure Bounded (initial cap m b : ℤ) (s : LedgerRun) : Prop where
  limited : s.ledger.unlimited = false
  credits : Credits initial cap m b (cap + 1) s
  cycle : Cycle cap s
  kickstarts : Kickstarts s

theorem bounded_start (hinitial : initial ≠ maxInt64) (hcap : 0 ≤ cap) :
    Bounded initial cap m b (start initial cap) where
  limited := by rw [start_unlimited, decide_eq_false hinitial]
  credits := credits_start hinitial hcap (by omega)
  cycle := ⟨rfl, fun h => absurd h (lt_irrefl 0), le_rfl, zero_le_one⟩
  kickstarts := ⟨fun t ht => (List.not_mem_nil ht).elim, le_rfl⟩

theorem bounded_step (hcap : 0 ≤ cap ∧ cap < maxInt64) (hm : m < maxInt64)
    (h : Bounded initial cap m b s) {action : LedgerAction} (hwithin : action.Within m b)
    (hstep : s.step action = some s') : Bounded initial cap m b s' := by
  have htop : cap + 1 ≤ maxInt64 := Int.add_one_le_of_lt hcap.2
  cases stepped hstep with
  | call method =>
    refine ⟨h.limited, h.credits.call hwithin, h.cycle.call method _ ⟨rfl, rfl⟩, ?_⟩
    refine h.kickstarts.concat _ s.ledger.timers (fun hkick => ?_) rfl
    cases method with
    | kickstartAndClose n => exact ⟨trivial, rfl⟩
    | _ => cases hkick
  | fire hgen =>
    refine ⟨h.limited, h.credits.fire _, h.cycle.fire hgen, ?_⟩
    exact h.kickstarts.concat _ _ (fun hkick => by cases hkick) rfl
  | @access i more t l op ht hop =>
    have hlimited := h.credits.limited_step hm h.limited ht hop
    have hmem := List.mem_of_getElem? ht
    have hbelow : ProbeBelow (cap + 1) s (.advance i more) := by
      intro u hu hfire
      have halone := (h.cycle.alone (List.mem_of_getElem? hu) hfire).1
      exact Int.lt_add_one_of_le (h.cycle.below (by omega))
    refine ⟨hlimited, ?_, h.cycle.access h.credits hcap ht hop hlimited, ?_⟩
    · exact credits_step h.credits ⟨hcap.1, by omega⟩ htop hwithin hbelow hstep hlimited
    · exact h.kickstarts.access ht hop (step_turn (h.cycle.locked_of_critical hmem) hop).shut

end LedgerRun

section
open LedgerRun

/-- A ledger is never overdrawn, and the frames that are sent on it pass the credits that were
granted by at most one for each stall cycle. -/
theorem over_send_bounded (initial maxCap m b : ℤ) (hinitial : initial ≠ maxInt64)
    (hcap : 0 ≤ maxCap ∧ maxCap < maxInt64) (hm : m < maxInt64) (actions : List LedgerAction)
    (hwithin : ∀ action ∈ actions, action.Within m b) (s : LedgerRun)
    (hrun : run step (start initial maxCap) actions = some s) :
    0 ≤ s.ledger.available ∧
      s.history.selfGrants ≤ 1 + s.history.clears ∧
      s.history.bonuses ≤ 1 ∧
      s.history.acquired - s.history.released ≤
        max 0 initial + max 0 m + s.history.replenished + max 0 b + (1 + s.history.clears) := by
  have h : Bounded initial maxCap m b s := by
    apply invariant_along _ (bounded_start hinitial hcap.1)
      (along_of_forall (fun action h _ => hwithin action h) _) hrun
    intro s action t h hwithin hstep
    exact bounded_step hcap hm h hwithin hstep
  have hgrants := h.cycle.grants
  have hspent := h.credits.spent_le
  exact ⟨h.credits.nonneg, hgrants, h.kickstarts.bonuses_le, by omega⟩

/-- The probe grants a credit, which is spent, and the closing bonus of two is spent as well. -/
def stalledThenClosed : List LedgerAction :=
  stalledProbe 0 ++ .fire 1 :: List.replicate 7 (.advance 1 false) ++
    .call .tryAcquire :: List.replicate 3 (.advance 2 false) ++
    .call (.kickstartAndClose 2) :: List.replicate 11 (.advance 3 false) ++
    .call .tryAcquire :: List.replicate 3 (.advance 4 false) ++
    .call .tryAcquire :: List.replicate 3 (.advance 5 false)

theorem over_send_bounded_stalledThenClosed :
    ∃ s, run step (start 0 maxReverseCreditCapacity) stalledThenClosed = some s ∧
      (s.history.acquired = 3 ∧ s.history.selfGrants = 1 ∧ s.history.bonuses = 1) ∧
      s.history.acquired - s.history.released ≤
        max 0 0 + max 0 0 + s.history.replenished + max 0 2 + (1 + s.history.clears) := by
  obtain ⟨s, hrun, hspent⟩ : ∃ s,
      run step (start 0 maxReverseCreditCapacity) stalledThenClosed = some s ∧
        (s.history.acquired = 3 ∧ s.history.selfGrants = 1 ∧ s.history.bonuses = 1) :=
    exists_run_of_any (by decide +kernel)
  refine ⟨s, hrun, hspent, ?_⟩
  exact (over_send_bounded 0 maxReverseCreditCapacity 0 2 (by decide) (by decide) (by decide)
    stalledThenClosed (by decide +kernel) s hrun).2.2.2

end
end NexusProxy.Client
