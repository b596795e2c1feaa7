import NexusProxy.Lib.FixedWidth

/-! The client's `creditLedger` and the methods a running connection calls, each run
without interruption. `LedgerSteps` takes every method apart into single accesses. -/
namespace NexusProxy.Client
open FixedWidth

def maxReverseCreditCapacity : ℤ := 2 ^ 20

/-- The capacity that `getOrCreateQueue` gives a connection's queue. -/
def queueCapacity : ℕ := 256

def clampReverseCredits (credits : ℤ) : ℤ :=
  if credits ≤ maxReverseCreditCapacity then credits else maxReverseCreditCapacity

/-- The fields of `creditLedger`, with the pending `AfterFunc` timers and the
wakeups that `notify` has queued for this connection and `writePump` has not taken. -/
structure Ledger where
  available : ℤ
  signaled : Bool
  probeFired : Bool
  probeGen : ℕ
  closed : Bool
  initialized : Bool
  unlimited : Bool
  maxCap : ℤ
  initMu : Bool
  probeMu : Bool
  probeTimer : Option ℕ
  timers : List ℕ
  wakeups : ℕ
  deriving DecidableEq

/-- `newCreditLedger`: an initial grant of `math.MaxInt64` selects unlimited mode. -/
def newCreditLedger (initial maxCap : ℤ) : Ledger where
  available :=
    if initial = maxInt64 then maxInt64
    else
      let initial := if initial < 0 then 0 else initial
      if maxCap < initial then maxCap else initial
  signaled := false
  probeFired := false
  probeGen := 0
  closed := false
  initialized := false
  unlimited := decide (initial = maxInt64)
  maxCap := maxCap
  initMu := false
  probeMu := false
  probeTimer := none
  timers := []
  wakeups := 0

namespace Ledger

def Sendable (l : Ledger) : Prop := l.unlimited = true ∨ 0 < l.available

instance (l : Ledger) : Decidable l.Sendable := inferInstanceAs (Decidable (_ ∨ _))

def Starved (l : Ledger) : Prop := l.unlimited = false ∧ l.available ≤ 0

theorem starved_iff (l : Ledger) : l.Starved ↔ ¬l.Sendable := by
  simp [Starved, Sendable]

def tryAcquire (l : Ledger) : Ledger × Bool :=
  if l.unlimited then (l, true)
  else if l.available ≤ 0 then (l, false)
  else ({ l with available := l.available - 1 }, true)

/-- `Release`: return one credit, dropped at the cap. -/
def release (l : Ledger) : Ledger :=
  if l.unlimited then l
  else if l.maxCap ≤ l.available then l
  else { l with available := l.available + 1 }

/-- `probeTimer.Stop()`: a timer that has not fired is cancelled. -/
def stopTimer (l : Ledger) : Ledger :=
  match l.probeTimer with
  | some gen => { l with timers := l.timers.erase gen }
  | none => l

def clearStallCycle (l : Ledger) : Ledger :=
  { l.stopTimer with probeFired := false, probeGen := l.probeGen + 1, probeTimer := none }

@[simp] theorem clearStallCycle_maxCap (l : Ledger) : l.clearStallCycle.maxCap = l.maxCap := by
  unfold clearStallCycle stopTimer
  split <;> rfl

/-- The value `addClamped` stores over `cur`; the sum is a 64-bit one. -/
def clampedSum (maxCap cur n : ℤ) : ℤ :=
  if maxCap < int64 (cur + n) ∨ int64 (cur + n) < 0 then maxCap else int64 (cur + n)

def addClamped (l : Ledger) (n : ℤ) : Ledger :=
  if n ≤ 0 then l
  else
    let n := if l.maxCap < n then l.maxCap else n
    { l with available := clampedSum l.maxCap l.available n }

/-- `if signaled.CompareAndSwap(false, true) { notify() }`. -/
def signal (l : Ledger) : Ledger :=
  if l.signaled then l else { l with signaled := true, wakeups := l.wakeups + 1 }

def replenish (l : Ledger) (n : ℤ) : Ledger :=
  if l.unlimited then l
  else if n ≤ 0 then l
  else (l.clearStallCycle.addClamped n).signal

/-- `armStallProbe`: the timer is identified by the generation its body captures. -/
def armStallProbe (l : Ledger) : Ledger :=
  if l.closed then l
  else if 0 < l.available then l
  else if l.probeFired then l
  else
    let gen := l.probeGen + 1
    let l := { l with probeFired := true, probeGen := gen }.stopTimer
    { l with probeTimer := some gen, timers := gen :: l.timers }

/-- The function passed to `AfterFunc`. -/
def probeBody (l : Ledger) (gen : ℕ) : Ledger :=
  if l.closed ∨ l.probeGen ≠ gen then l
  else if 0 < l.available then { l with probeFired := false }
  else { l with available := int64 (l.available + 1) }.signal

def notifyEnqueue (l : Ledger) : Ledger :=
  if l.unlimited ∨ 0 < l.available then l.signal
  else if l.closed then l
  else l.armStallProbe

/-- `DrainYielded`, with the value `hasMoreFn` returns after the flag is cleared. -/
def drainYielded (l : Ledger) (more : Bool) : Ledger :=
  let l := { l with signaled := false }
  if more then
    if l.unlimited ∨ 0 < l.available then l.signal else l.armStallProbe
  else l

/-- A ledger in limited mode that has not been closed and holds `n` credits. -/
structure Limited (cap n : ℤ) (l : Ledger) : Prop where
  available : l.available = n
  unlimited : l.unlimited = false
  closed : l.closed = false
  maxCap : l.maxCap = cap

namespace Limited
variable {cap n : ℤ} {l : Ledger}

theorem signal (h : Limited cap n l) : Limited cap n l.signal := by
  unfold Ledger.signal
  split
  · exact h
  · exact ⟨h.available, h.unlimited, h.closed, h.maxCap⟩

theorem stopTimer (h : Limited cap n l) : Limited cap n l.stopTimer := by
  unfold Ledger.stopTimer
  split
  · exact ⟨h.available, h.unlimited, h.closed, h.maxCap⟩
  · exact h

theorem clearStallCycle (h : Limited cap n l) : Limited cap n l.clearStallCycle :=
  ⟨h.stopTimer.available, h.stopTimer.unlimited, h.stopTimer.closed, h.stopTimer.maxCap⟩

theorem armStallProbe (h : Limited cap n l) : Limited cap n l.armStallProbe := by
  unfold Ledger.armStallProbe
  split_ifs
  · exact h
  · exact h
  · exact h
  · have hs : Limited cap n { l with probeFired := true, probeGen := l.probeGen + 1 }.stopTimer :=
      stopTimer ⟨h.available, h.unlimited, h.closed, h.maxCap⟩
    exact ⟨hs.available, hs.unlimited, hs.closed, hs.maxCap⟩

theorem notifyEnqueue (h : Limited cap n l) : Limited cap n l.notifyEnqueue := by
  unfold Ledger.notifyEnqueue
  split_ifs
  · exact h.signal
  · exact h
  · exact h.armStallProbe

theorem drainYielded (h : Limited cap n l) (more : Bool) :
    Limited cap n (l.drainYielded more) := by
  have hs : Limited cap n { l with signaled := false } :=
    ⟨h.available, h.unlimited, h.closed, h.maxCap⟩
  unfold Ledger.drainYielded
  dsimp only
  split_ifs
  · exact hs.signal
  · exact hs.armStallProbe
  · exact hs

theorem tryAcquire_refused (h : Limited cap n l) (hn : n ≤ 0) : l.tryAcquire = (l, false) := by
  simp [Ledger.tryAcquire, h.unlimited, h.available, hn]

theorem tryAcquire_spent (h : Limited cap n l) (hn : 0 < n) :
    l.tryAcquire.2 = true ∧ Limited cap (n - 1) l.tryAcquire.1 := by
  have ha : ¬l.available ≤ 0 := by rw [h.available]; omega
  rw [Ledger.tryAcquire, if_neg (by simp [h.unlimited]), if_neg ha]
  exact ⟨rfl, by rw [h.available], h.unlimited, h.closed, h.maxCap⟩

theorem release (h : Limited cap n l) (hn : n < cap) : Limited cap (n + 1) l.release := by
  have ha : ¬l.maxCap ≤ l.available := by rw [h.available, h.maxCap]; omega
  rw [Ledger.release, if_neg (by simp [h.unlimited]), if_neg ha]
  exact ⟨by rw [h.available], h.unlimited, h.closed, h.maxCap⟩

theorem addClamped {k : ℤ} (h : Limited cap n l) (hn : 0 ≤ n) (hk : 0 < k)
    (hcap : n + k ≤ cap) (hmax : cap < 2 ^ 62) : Limited cap (n + k) (l.addClamped k) := by
  have hint : int64 (n + k) = n + k := int64_eq (by omega) (by omega)
  have hsum : clampedSum l.maxCap l.available k = n + k := by
    rw [clampedSum, h.available, h.maxCap, hint, if_neg (by omega)]
  have hle : ¬l.maxCap < k := by rw [h.maxCap]; omega
  simp only [Ledger.addClamped, if_neg (show ¬k ≤ 0 by omega), if_neg hle]
  exact ⟨hsum, h.unlimited, h.closed, h.maxCap⟩

theorem replenish {k : ℤ} (h : Limited cap n l) (hn : 0 ≤ n) (hk : 0 < k)
    (hcap : n + k ≤ cap) (hmax : cap < 2 ^ 62) : Limited cap (n + k) (l.replenish k) := by
  rw [Ledger.replenish, if_neg (by simp [h.unlimited]), if_neg (by omega)]
  exact (h.clearStallCycle.addClamped hn hk hcap hmax).signal

theorem probeBody_idle (h : Limited cap n l) {gen : ℕ} (hg : l.probeGen ≠ gen ∨ 0 < n) :
    Limited cap n (l.probeBody gen) := by
  have ha := h.available
  unfold Ledger.probeBody
  split_ifs with hs hp
  · exact h
  · exact ⟨ha, h.unlimited, h.closed, h.maxCap⟩
  · rcases hg with hg | hg
    · exact absurd (.inr hg) hs
    · exact absurd (ha ▸ hg) hp

theorem probeBody_grant (h : Limited cap 0 l) :
    Limited cap 1 (l.probeBody l.probeGen) := by
  have ha := h.available
  rw [Ledger.probeBody, if_neg (by simp [h.closed]), if_neg (by omega)]
  exact signal ⟨by rw [ha]; rfl, h.unlimited, h.closed, h.maxCap⟩

end Limited
end Ledger
end NexusProxy.Client
