import NexusProxy.Client.LedgerSteps

/-! What one access of a ledger operation can do, for the kinds of program points that
the invariants of a connection speak about. -/
namespace NexusProxy.Client
open FixedWidth

/-- The caller of `clearStallCycle` adds credits or switches to unlimited mode. -/
def After.Grants : After → Prop
  | .replenish _ | .install _ => True
  | .close | .kickstart _ => False

def After.Kicks : After → Prop
  | .kickstart _ => True
  | _ => False

def After.Fits : After → Prop
  | .replenish n | .install n => 0 < n
  | .close | .kickstart _ => True

namespace Op

/-- Between taking and releasing `probeMu`. -/
def Critical : Op → Prop
  | clearFired _ | clearGen _ | clearTimer _ | clearUnlock _ => True
  | armClosedLocked | armAvail | armFired | armGen | armStop _ | armInstall _ | armUnlock => True
  | fireClosed _ | fireGen _ | fireAvail | fireReset | fireAdd | fireSignal | fireUnlock _ => True
  | _ => False

/-- Inside `TryAcquire` or `Release`. -/
def Spending : Op → Prop
  | acqUnlimited | acqLoad | acqCas _ | relUnlimited | relLoad | relCas _ => True
  | _ => False

/-- Committed to `notify`. -/
def Notifying : Op → Prop
  | notify => True
  | fireUnlock notifyCaller => notifyCaller = true
  | _ => False

/-- After the compare-and-swap on `closed`. -/
def Closing : Op → Prop
  | closeUnlock _ | kickUnlock _ _ | kickUnlimited _ => True
  | clearLock k | clearFired k | clearGen k | clearTimer k | clearUnlock k => ¬k.Grants
  | _ => False

def Closes : Op → Prop
  | closeLock | closeCas | kickLock _ | kickCas _ => True
  | _ => False

/-- `KickstartAndClose` before its compare-and-swap on `signaled`. -/
def Kicking : Op → Prop
  | kickLock _ | kickCas _ | kickUnlimited _ | wake => True
  | kickUnlock _ won => won = true
  | clearLock k | clearFired k | clearGen k | clearTimer k | clearUnlock k => k.Kicks
  | addLoad _ held | addCas _ _ held => held = false
  | _ => False

/-- Bound to set `signaled`, or to look at the queue and the credits again. -/
def Watchful (unlimited : Bool) : Op → Prop
  | yieldClear | yieldMore | yieldUnlimited | enqUnlimited | wake | fireSignal => True
  | addLoad _ _ | addCas _ _ _ | initUnlimited | initMax | initUnlock => True
  | clearLock k | clearFired k | clearGen k | clearTimer k | clearUnlock k => k.Grants
  | yieldAvail | enqAvail => unlimited = false
  | _ => False

/-- Bound to arm the stall probe while there is no credit, or to add credits. -/
def Arming : Op → Prop
  | yieldClear | yieldMore | yieldUnlimited | yieldAvail => True
  | enqUnlimited | enqAvail | enqClosed => True
  | armClosed | armLock | armClosedLocked | armAvail | armFired => True
  | addLoad _ _ | addCas _ _ _ | initUnlimited => True
  | clearLock k | clearFired k | clearGen k | clearTimer k | clearUnlock k => k.Grants
  | _ => False

/-- The values a point carries are in range. -/
def Fits (cap : ℤ) : Op → Prop
  | acqCas cur => 0 < cur
  | relCas cur => cur < cap
  | addLoad n _ | addCas n _ _ => 0 < n ∧ n ≤ cap
  | clearLock k | clearFired k | clearGen k | clearTimer k | clearUnlock k => k.Fits
  | initLock n | initClosed n | initOnce n => 0 < n
  | _ => True

section Steps
variable {more : Bool} {l l' : Ledger} {op op' : Op} {cap : ℤ}

@[simp] theorem stopTimer_keeps (l : Ledger) :
    l.stopTimer.probeMu = l.probeMu ∧ l.stopTimer.available = l.available ∧
      l.stopTimer.unlimited = l.unlimited ∧ l.stopTimer.signaled = l.signaled ∧
      l.stopTimer.probeFired = l.probeFired ∧ l.stopTimer.closed = l.closed ∧
      l.stopTimer.maxCap = l.maxCap ∧ l.stopTimer.wakeups = l.wakeups := by
  unfold Ledger.stopTimer
  split <;> simp

/-- What an access takes a ledger `l` at the point `op` to, for every kind of point. -/
structure Access (l : Ledger) (op : Op) (l' : Ledger) (op' : Op) : Prop where
  /-- A point inside `probeMu` is entered with the lock free, or from another such point. -/
  critical : (op.Critical → l.probeMu = true) →
    (op'.Critical → l'.probeMu = true ∧ (op.Critical ∨ l.probeMu = false)) ∧
      (¬op'.Critical → ¬op.Critical → l'.probeMu = l.probeMu)
  /-- A set flag is explained by the step that set it, and a committed notify is kept until
  the wakeup is queued. -/
  signaled : (l'.signaled = true → op ≠ yieldClear ∧ l.signaled = true ∨ op'.Notifying) ∧
    (op.Notifying → op'.Notifying ∨ 0 < l'.wakeups) ∧ l.wakeups ≤ l'.wakeups
  /-- Only the drain loop starts `TryAcquire` and `Release`. -/
  spending : op'.Spending → op.Spending
  /-- `closed` stays set, and the points after the compare-and-swap follow it. -/
  closing : (op.Closing → l.closed = true) →
    (l.closed = true → l'.closed = true) ∧ (op'.Closing → l'.closed = true)
  /-- `maxCap` never changes, and the unlimited mode is never left. -/
  mode : l'.maxCap = l.maxCap ∧ (l.unlimited = true → l'.unlimited = true) ∧
    (op' = initMax → l'.unlimited = true)
  fits : 0 < l.maxCap → op.Fits l.maxCap → op'.Fits l.maxCap
  /-- Only a closing operation closes the ledger, and it enters at its own lock. -/
  closes : (op'.Closes → op.Closes) ∧
    (l'.closed = true → l.closed = true ∨ op.Closes ∧ ¬op'.Closes)
  /-- A kickstart that finds the ledger open goes on to queue a wakeup, unless the flag is
  already raised. -/
  kicking : (op.Closes → l.closed = false) → op.Kicking →
    op'.Kicking ∨ op'.Notifying ∨ (op = wake ∧ l.signaled = true ∧ l' = l)

/-- One case per program point; the point that leaves `clearStallCycle` goes on in its
caller, so it has one case per caller. -/
theorem step_access (h : op.step more l = some (l', op')) : Access l op l' op' := by
  cases op with
  | clearUnlock k =>
    cases k <;> simp only [step, afterClear, addClamped, afterAdd] at h <;>
      (try split_ifs at h) <;> cases h <;>
      exact {
        critical := by simp [Critical]
        signaled := by simp +contextual [Notifying]
        spending := by simp [Spending]
        closing := by simp +contextual [Closing, After.Grants]
        mode := by simp
        fits := by simp_all [Fits, After.Fits]
        closes := by simp +contextual [Closes]
        kicking := by simp [Kicking, After.Kicks] }
  | _ =>
    simp only [step, addClamped, afterAdd] at h
    (try split_ifs at h) <;> cases h <;>
      exact {
        critical := by simp_all [Critical]
        signaled := by simp_all [Notifying]
        spending := by simp [Spending]
        closing := by simp_all [Closing, After.Grants]
        mode := by simp_all
        fits := by simp_all [Fits, After.Fits]
        closes := by simp_all [Closes]
        kicking := by simp_all [Closes, Kicking, After.Kicks, Notifying] }

theorem clampedSum_range {cur n : ℤ} (hcap : cap < 2 ^ 62) (hn : 0 < n ∧ n ≤ cap)
    (hcur : 0 ≤ cur ∧ cur ≤ cap + 1) :
    0 < Ledger.clampedSum cap cur n ∧ Ledger.clampedSum cap cur n ≤ cap := by
  have hint : int64 (cur + n) = cur + n := int64_eq (by omega) (by omega)
  unfold Ledger.clampedSum
  rw [hint]
  split_ifs <;> omega

/-- While the ledger is limited, `available` stays between zero and one above the cap. The
extra one is the probe's: it adds to a value that grants may have raised to the cap. -/
theorem step_available (hpos : 0 < l.maxCap) (hcap : l.maxCap < 2 ^ 62)
    (hf : op.Fits l.maxCap) (hmax : op = initMax → l.unlimited = true)
    (hr : l.unlimited = false → 0 ≤ l.available ∧ l.available ≤ l.maxCap + 1)
    (hadd : op = fireAdd → l.unlimited = false → l.available ≤ l.maxCap)
    (h : op.step more l = some (l', op')) (hu : l'.unlimited = false) :
    (0 ≤ l'.available ∧ l'.available ≤ l.maxCap + 1) ∧
      (op ≠ fireAdd → l.available ≤ l.maxCap → l'.available ≤ l.maxCap) ∧
      (op' = fireAdd → l'.available ≤ l.maxCap) := by
  have hu' : l.unlimited = false := by
    by_contra hcon
    rw [(step_access h).mode.2.1 (by simpa using hcon)] at hu
    cases hu
  obtain ⟨hnonneg, hle⟩ := hr hu'
  cases op with
  | acqCas cur =>
    have hcur : 0 < cur := hf
    simp only [step] at h
    split_ifs at h with heq <;> cases h <;> simp <;> omega
  | relCas cur =>
    have hcur : cur < l.maxCap := hf
    simp only [step] at h
    split_ifs at h with heq <;> cases h <;> simp <;> omega
  | addCas n cur held =>
    simp only [step, afterAdd] at h
    split_ifs at h with heq hheld
    · cases h
      have hsum := clampedSum_range hcap hf ⟨heq ▸ hnonneg, heq ▸ hle⟩
      simp
      omega
    · cases h
      have hsum := clampedSum_range hcap hf ⟨heq ▸ hnonneg, heq ▸ hle⟩
      simp
      omega
    · cases h
      simp
      omega
  | fireAdd =>
    have hadd' := hadd rfl hu'
    have hint : int64 (l.available + 1) = l.available + 1 := int64_eq (by omega) (by omega)
    cases h
    simp [hint]
    omega
  | initMax =>
    rw [hmax rfl] at hu'
    cases hu'
  | fireAvail =>
    cases h
    refine ⟨⟨hnonneg, hle⟩, fun _ hle' => hle', fun hop => ?_⟩
    split_ifs at hop
    omega
  | clearTimer k | armStop gen =>
    cases h
    simp only [stopTimer_keeps]
    exact ⟨⟨hnonneg, hle⟩, fun _ hle' => hle', fun hop => by cases hop⟩
  | clearUnlock k =>
    cases k <;> simp only [step, afterClear, addClamped, afterAdd] at h <;>
      (try split_ifs at h) <;> cases h <;>
      exact ⟨⟨hnonneg, hle⟩, fun _ hle' => hle', fun hop => by cases hop⟩
  | _ =>
    -- the other points leave the credits alone and do not lead to the probe's addition
    simp only [step, addClamped, afterAdd] at h
    (try split_ifs at h) <;> cases h <;>
      exact ⟨⟨hnonneg, hle⟩, fun _ hle' => hle', fun hop => by cases hop⟩

/-- If frames can be sent and the flag is clear after a step, the thread that moved is
watchful, or nothing changed and some other thread has to be. -/
theorem step_watchful (hs : ¬op.Spending) (h : op.step true l = some (l', op'))
    (hsend : l'.Sendable) (hsig : l'.signaled = false) :
    op'.Watchful l'.unlimited ∨ (l.Sendable ∧ l.signaled = false ∧
      ¬op.Watchful l.unlimited ∧ l'.unlimited = l.unlimited) := by
  unfold Ledger.Sendable at *
  cases op with
  | clearUnlock k =>
    cases k <;> simp only [step, afterClear, addClamped, afterAdd] at h <;>
      (try split_ifs at h) <;> cases h <;> simp_all [Watchful, After.Grants]
  | _ =>
    simp only [step, addClamped, afterAdd] at h
    (try split_ifs at h) <;> cases h <;> simp_all [Watchful, Spending] <;> grind

/-- If the ledger is out of credits after a step, the thread that moved is going to arm the
probe or to grant, or it has just found or set `probeFired`, or nothing changed. -/
theorem step_arming (hpos : 0 < l.maxCap) (hcap : l.maxCap < 2 ^ 62)
    (hf : op.Fits l.maxCap) (hc : op.Closing → l.closed = true)
    (hr : l.unlimited = false → 0 ≤ l.available ∧ l.available ≤ l.maxCap + 1)
    (hs : ¬op.Spending) (h : op.step true l = some (l', op')) (hopen : l'.closed = false)
    (hout : l'.Starved) :
    op'.Arming ∨ (op = armFired ∧ l'.probeFired = true ∧ op' ≠ fireReset) ∨
      (l.Starved ∧ ¬op.Arming ∧ op' ≠ fireReset ∧
        (op = fireReset ∨ l'.probeFired = l.probeFired)) := by
  unfold Ledger.Starved at *
  cases op with
  | clearUnlock k =>
    cases k <;> simp only [step, afterClear, addClamped, afterAdd] at h <;>
      (try split_ifs at h) <;> cases h <;>
      simp_all [Arming, After.Grants, Fits, After.Fits, Closing] <;> omega
  | addCas n cur held =>
    simp only [step, afterAdd] at h
    split_ifs at h with heq hheld
    all_goals cases h
    · have hsum := clampedSum_range hcap hf (heq ▸ hr hout.1)
      exact absurd hout.2 (by simp; omega)
    · have hsum := clampedSum_range hcap hf (heq ▸ hr hout.1)
      exact absurd hout.2 (by simp; omega)
    · exact .inl trivial
  | fireAdd =>
    cases h
    have hrange := hr hout.1
    have hint : int64 (l.available + 1) = l.available + 1 := int64_eq (by omega) (by omega)
    exact absurd hout.2 (by simp [hint]; omega)
  | initMax =>
    cases h
    exact absurd hout.2 (by simp [maxInt64])
  | acqUnlimited | acqLoad | acqCas cur | relUnlimited | relLoad | relCas cur =>
    exact absurd trivial hs
  | clearLock k | clearFired k | clearGen k | clearTimer k =>
    by_cases hk : k.Grants
    · simp only [step] at h
      try split_ifs at h
      cases h
      exact .inl hk
    · -- the callers that do not grant have closed the ledger
      have hclosed := ((step_access h).closing hc).1 (hc hk)
      rw [hopen] at hclosed
      cases hclosed
  | initUnlimited =>
    cases h
    cases hout.1
  | enqUnlimited | yieldUnlimited =>
    cases h
    rw [if_neg (by simp [hout.1])]
    exact .inl trivial
  | enqAvail | yieldAvail | armAvail =>
    cases h
    rw [if_neg (not_lt.mpr hout.2)]
    exact .inl trivial
  | enqClosed | armClosed | armClosedLocked =>
    cases h
    rw [if_neg (by simp [hopen])]
    exact .inl trivial
  | fireAvail =>
    cases h
    rw [if_neg (not_lt.mpr hout.2)]
    exact .inr (.inr ⟨hout, fun ha => ha, (fun hop => by cases hop), .inr rfl⟩)
  | armFired =>
    simp only [step] at h
    split_ifs at h with hfired <;> cases h
    · exact .inr (.inl ⟨rfl, hfired, fun hop => by cases hop⟩)
    · exact .inr (.inl ⟨rfl, rfl, fun hop => by cases hop⟩)
  | armStop gen =>
    cases h
    simp only [stopTimer_keeps] at hout
    exact .inr (.inr ⟨hout, fun ha => ha, (fun hop => by cases hop), .inr (by simp)⟩)
  | _ =>
    -- the point goes on to arm, or neither it nor what it leaves is of the kind
    simp only [step, addClamped, afterAdd] at h
    (try split_ifs at h) <;> cases h <;>
      first
        | exact .inl trivial
        | exact .inr (.inr ⟨hout, fun ha => ha, (fun hop => by cases hop), .inr rfl⟩)
        | exact .inr (.inr ⟨hout, fun ha => ha, (fun hop => by cases hop), .inl rfl⟩)

end Steps

end Op
end NexusProxy.Client
