import Mathlib.Logic.Relation
import NexusProxy.Client.CreditLedger

/-! The methods of `creditLedger`, one shared-memory access at a time. A method is a
chain of program points and `Op.step` makes the access at the current point, so
that an interleaving of goroutines is a sequence of such steps. -/
namespace NexusProxy.Client
open FixedWidth

/-- What the caller of `clearStallCycle` does afterwards. -/
inductive After where
  | replenish (n : ℤ)
  | install (n : ℤ)
  | close
  | kickstart (n : ℤ)
  deriving DecidableEq

/-- Program points of the ledger operations, named after the access they are about
to make. `addLoad` and `addCas` carry whether the caller holds `initMu`. -/
inductive Op where
  | idle
  | ret (ok : Bool)
  | panicked
  | acqUnlimited
  | acqLoad
  | acqCas (cur : ℤ)
  | relUnlimited
  | relLoad
  | relCas (cur : ℤ)
  | repUnlimited (n : ℤ)
  | clearLock (k : After)
  | clearFired (k : After)
  | clearGen (k : After)
  | clearTimer (k : After)
  | clearUnlock (k : After)
  | addLoad (n : ℤ) (held : Bool)
  | addCas (n cur : ℤ) (held : Bool)
  | initLock (n : ℤ)
  | initClosed (n : ℤ)
  | initAbort
  | initOnce (n : ℤ)
  | initUnlimited
  | initMax
  | initUnlock
  | wake
  | notify
  | enqUnlimited
  | enqAvail
  | enqClosed
  | yieldClear
  | yieldMore
  | yieldUnlimited
  | yieldAvail
  | armClosed
  | armLock
  | armClosedLocked
  | armAvail
  | armFired
  | armGen
  | armStop (gen : ℕ)
  | armInstall (gen : ℕ)
  | armUnlock
  | fireLock (gen : ℕ)
  | fireClosed (gen : ℕ)
  | fireGen (gen : ℕ)
  | fireAvail
  | fireReset
  | fireAdd
  | fireSignal
  | fireUnlock (notifyCaller : Bool)
  | closeLock
  | closeCas
  | closeUnlock (won : Bool)
  | kickLock (n : ℤ)
  | kickCas (n : ℤ)
  | kickUnlock (n : ℤ) (won : Bool)
  | kickUnlimited (n : ℤ)
  deriving DecidableEq

namespace Op

/-! Entry points, under the names of the methods. -/

def tryAcquire : Op := acqUnlimited
def release : Op := relUnlimited
def replenish (n : ℤ) : Op := repUnlimited n
def initCredits (n : ℤ) : Op := initLock n
def notifyEnqueue : Op := enqUnlimited
def drainYielded : Op := yieldClear
def close : Op := closeLock
def kickstartAndClose (n : ℤ) : Op := kickLock n
def probeBody (gen : ℕ) : Op := fireLock gen

/-- Where a caller of `addClamped` continues. -/
def afterAdd (held : Bool) : Op := if held then initUnlock else wake

/-- `addClamped`, up to its first shared access: `maxCap` never changes. -/
def addClamped (maxCap n : ℤ) (held : Bool) : Op :=
  if n ≤ 0 then afterAdd held else addLoad (if maxCap < n then maxCap else n) held

/-- The code after `clearStallCycle` in each of its callers. -/
def afterClear (maxCap : ℤ) : After → Op
  | .replenish n => addClamped maxCap n false
  | .install n => if n = maxInt64 then initUnlimited
      else addClamped maxCap (if n < 0 then 0 else n) true
  | .close => ret true
  | .kickstart n => if 0 < n then kickUnlimited n else wake

/-- One shared-memory access. `more` is what `hasMoreFn` would return now; a locked
mutex blocks, and an operation that has returned has no step of its own. -/
def step (more : Bool) (l : Ledger) : Op → Option (Ledger × Op)
  | idle => none
  | ret _ => none
  | panicked => none
  | acqUnlimited => some (l, if l.unlimited then ret true else acqLoad)
  | acqLoad => some (l, if l.available ≤ 0 then ret false else acqCas l.available)
  | acqCas cur =>
      if l.available = cur then some ({ l with available := cur - 1 }, ret true)
      else some (l, acqLoad)
  | relUnlimited => some (l, if l.unlimited then ret true else relLoad)
  | relLoad => some (l, if l.maxCap ≤ l.available then ret true else relCas l.available)
  | relCas cur =>
      if l.available = cur then some ({ l with available := cur + 1 }, ret true)
      else some (l, relLoad)
  | repUnlimited n =>
      some (l, if l.unlimited then ret true else if n ≤ 0 then ret true
        else clearLock (.replenish n))
  | clearLock k => if l.probeMu then none else some ({ l with probeMu := true }, clearFired k)
  | clearFired k => some ({ l with probeFired := false }, clearGen k)
  | clearGen k => some ({ l with probeGen := l.probeGen + 1 }, clearTimer k)
  | clearTimer k => some ({ l.stopTimer with probeTimer := none }, clearUnlock k)
  | clearUnlock k => some ({ l with probeMu := false }, afterClear l.maxCap k)
  | addLoad n held => some (l, addCas n l.available held)
  | addCas n cur held =>
      if l.available = cur then
        some ({ l with available := Ledger.clampedSum l.maxCap cur n }, afterAdd held)
      else some (l, addLoad n held)
  | initLock n => if l.initMu then none else some ({ l with initMu := true }, initClosed n)
  | initClosed n => some (l, if l.closed then initAbort else initOnce n)
  | initAbort => some ({ l with initMu := false }, ret true)
  | initOnce n =>
      if l.initialized then some ({ l with initMu := false }, panicked)
      else some ({ l with initialized := true }, clearLock (.install n))
  | initUnlimited => some ({ l with unlimited := true }, initMax)
  | initMax => some ({ l with available := maxInt64 }, initUnlock)
  | initUnlock => some ({ l with initMu := false }, wake)
  -- the compare-and-swap on signaled and the notify it guards
  | wake => if l.signaled then some (l, ret true) else some ({ l with signaled := true }, notify)
  | notify => some ({ l with wakeups := l.wakeups + 1 }, ret true)
  | enqUnlimited => some (l, if l.unlimited then wake else enqAvail)
  | enqAvail => some (l, if 0 < l.available then wake else enqClosed)
  | enqClosed => some (l, if l.closed then ret true else armClosed)
  | yieldClear => some ({ l with signaled := false }, yieldMore)
  | yieldMore => some (l, if more then yieldUnlimited else ret true)
  | yieldUnlimited => some (l, if l.unlimited then wake else yieldAvail)
  | yieldAvail => some (l, if 0 < l.available then wake else armClosed)
  | armClosed => some (l, if l.closed then ret true else armLock)
  | armLock => if l.probeMu then none else some ({ l with probeMu := true }, armClosedLocked)
  | armClosedLocked => some (l, if l.closed then armUnlock else armAvail)
  | armAvail => some (l, if 0 < l.available then armUnlock else armFired)
  | armFired =>
      if l.probeFired then some (l, armUnlock) else some ({ l with probeFired := true }, armGen)
  | armGen => some ({ l with probeGen := l.probeGen + 1 }, armStop (l.probeGen + 1))
  | armStop gen => some (l.stopTimer, armInstall gen)
  | armInstall gen =>
      some ({ l with probeTimer := some gen, timers := gen :: l.timers }, armUnlock)
  | armUnlock => some ({ l with probeMu := false }, ret true)
  -- the AfterFunc body
  | fireLock gen => if l.probeMu then none else some ({ l with probeMu := true }, fireClosed gen)
  | fireClosed gen => some (l, if l.closed then fireUnlock false else fireGen gen)
  | fireGen gen => some (l, if l.probeGen ≠ gen then fireUnlock false else fireAvail)
  | fireAvail => some (l, if 0 < l.available then fireReset else fireAdd)
  | fireReset => some ({ l with probeFired := false }, fireUnlock false)
  | fireAdd => some ({ l with available := int64 (l.available + 1) }, fireSignal)
  | fireSignal =>
      if l.signaled then some (l, fireUnlock false)
      else some ({ l with signaled := true }, fireUnlock true)
  | fireUnlock notifyCaller =>
      some ({ l with probeMu := false }, if notifyCaller then notify else ret true)
  | closeLock => if l.initMu then none else some ({ l with initMu := true }, closeCas)
  | closeCas => some ({ l with closed := true }, closeUnlock (!l.closed))
  | closeUnlock won =>
      some ({ l with initMu := false }, if won then clearLock .close else ret true)
  | kickLock n => if l.initMu then none else some ({ l with initMu := true }, kickCas n)
  | kickCas n => some ({ l with closed := true }, kickUnlock n (!l.closed))
  | kickUnlock n won =>
      some ({ l with initMu := false }, if won then clearLock (.kickstart n) else ret true)
  | kickUnlimited n => some (l, if l.unlimited then wake else addClamped l.maxCap n false)

/-- A goroutine makes steps of its own with no other goroutine in between. -/
def Alone (more : Bool) : Ledger × Op → Ledger × Op → Prop :=
  Relation.ReflTransGen fun a b => a.2.step more a.1 = some b

section Alone
variable {more : Bool} {l : Ledger}

theorem Alone.next {op : Op} {b c : Ledger × Op} (h : op.step more l = some b)
    (hb : Alone more b c) : Alone more (l, op) c :=
  Relation.ReflTransGen.head h hb

theorem Alone.of_eq {a b : Ledger × Op} (h : a = b) : Alone more a b :=
  h ▸ Relation.ReflTransGen.refl

theorem Alone.branch {op a b : Op} {c : Prop} [Decidable c] {r : Ledger × Op}
    (h : op.step more l = some (l, if c then a else b)) (ht : c → Alone more (l, a) r)
    (hf : ¬c → Alone more (l, b) r) : Alone more (l, op) r := by
  by_cases hc : c
  · exact .next (by rw [h, if_pos hc]) (ht hc)
  · exact .next (by rw [h, if_neg hc]) (hf hc)

theorem Alone.cas {op a b : Op} {l' : Ledger} {x : ℤ} {r : Ledger × Op}
    (h : op.step more l = if x = x then some (l', a) else some (l, b))
    (ha : Alone more (l', a) r) : Alone more (l, op) r :=
  .next (by rw [h, if_pos rfl]) ha

theorem alone_clearStallCycle (hp : l.probeMu = false) (k : After) :
    Alone more (l, clearLock k) (l.clearStallCycle, afterClear l.maxCap k) := by
  obtain ⟨timer, ht⟩ : ∃ timer, timer = l.probeTimer := ⟨_, rfl⟩
  refine .next (if_neg (by simp [hp])) ?_
  refine .next rfl (.next rfl (.next rfl (.next rfl (.of_eq ?_))))
  cases l
  cases timer <;> subst ht hp <;> rfl

theorem alone_addClamped (n : ℤ) (held : Bool) :
    Alone more (l, addClamped l.maxCap n held) (l.addClamped n, afterAdd held) := by
  by_cases hn : n ≤ 0
  · exact .of_eq (by simp only [addClamped, Ledger.addClamped, hn, if_true])
  · simp only [addClamped, Ledger.addClamped, hn, if_false]
    exact .next rfl (.cas rfl .refl)

theorem alone_wake : Alone more (l, wake) (l.signal, ret true) := by
  unfold Ledger.signal
  by_cases hs : l.signaled
  · exact .next (if_pos hs) (by rw [if_pos hs]; exact .refl)
  · exact .next (if_neg hs) (.next rfl (by rw [if_neg hs]; exact .refl))

theorem alone_armStallProbe (hp : l.probeMu = false) :
    Alone more (l, armClosed) (l.armStallProbe, ret true) := by
  obtain ⟨timer, ht⟩ : ∃ timer, timer = l.probeTimer := ⟨_, rfl⟩
  have unlocked : { l with probeMu := false } = l := by rw [← hp]
  unfold Ledger.armStallProbe
  refine .branch rfl ?_ ?_
  · intro hc
    rw [if_pos hc]
    exact .refl
  intro hc
  rw [if_neg hc]
  refine .next (if_neg (by simp [hp])) ?_
  refine .branch rfl (fun hc' => absurd hc' hc) fun _ => ?_
  refine .branch rfl ?_ ?_
  · intro ha
    rw [if_pos ha]
    exact .next rfl (.of_eq (Prod.ext unlocked rfl))
  intro ha
  rw [if_neg ha]
  by_cases hf : l.probeFired
  · rw [if_pos hf]
    exact .next (if_pos hf) (.next rfl (.of_eq (Prod.ext unlocked rfl)))
  · rw [if_neg hf]
    refine .next (if_neg hf) (.next rfl (.next rfl (.next rfl (.next rfl (.of_eq ?_)))))
    cases l
    cases timer <;> subst ht hp <;> rfl

/-! Each method of the ledger is the uninterrupted run of its steps. -/

theorem alone_tryAcquire :
    Alone more (l, tryAcquire) (l.tryAcquire.1, ret l.tryAcquire.2) := by
  unfold Ledger.tryAcquire
  refine .branch rfl ?_ ?_
  · intro hu
    rw [if_pos hu]
    exact .refl
  intro hu
  rw [if_neg hu]
  refine .branch rfl ?_ ?_
  · intro ha
    rw [if_pos ha]
    exact .refl
  intro ha
  rw [if_neg ha]
  exact .cas rfl .refl

theorem alone_release : Alone more (l, release) (l.release, ret true) := by
  unfold Ledger.release
  refine .branch rfl ?_ ?_
  · intro hu
    rw [if_pos hu]
    exact .refl
  intro hu
  rw [if_neg hu]
  refine .branch rfl ?_ ?_
  · intro ha
    rw [if_pos ha]
    exact .refl
  intro ha
  rw [if_neg ha]
  exact .cas rfl .refl

theorem alone_replenish (hp : l.probeMu = false) (n : ℤ) :
    Alone more (l, replenish n) (l.replenish n, ret true) := by
  unfold Ledger.replenish
  refine .branch rfl ?_ ?_
  · intro hu
    rw [if_pos hu]
    exact .refl
  intro hu
  rw [if_neg hu]
  by_cases hn : n ≤ 0
  · rw [if_pos hn, if_pos hn]
    exact .refl
  rw [if_neg hn, if_neg hn]
  refine (alone_clearStallCycle hp _).trans ?_
  rw [← Ledger.clearStallCycle_maxCap]
  exact (alone_addClamped n false).trans alone_wake

theorem alone_notifyEnqueue (hp : l.probeMu = false) :
    Alone more (l, notifyEnqueue) (l.notifyEnqueue, ret true) := by
  unfold Ledger.notifyEnqueue
  refine .branch rfl ?_ ?_
  · intro hu
    rw [if_pos (.inl hu)]
    exact alone_wake
  intro hu
  refine .branch rfl ?_ ?_
  · intro ha
    rw [if_pos (.inr ha)]
    exact alone_wake
  intro ha
  rw [if_neg (not_or.mpr ⟨hu, ha⟩)]
  refine .branch rfl ?_ ?_
  · intro hc
    rw [if_pos hc]
    exact .refl
  intro hc
  rw [if_neg hc]
  exact alone_armStallProbe hp

theorem alone_drainYielded (hp : l.probeMu = false) :
    Alone more (l, drainYielded) (l.drainYielded more, ret true) := by
  unfold Ledger.drainYielded
  refine .next rfl (.branch rfl ?_ ?_)
  rotate_left
  · intro hm
    rw [if_neg hm]
    exact .refl
  intro hm
  rw [if_pos hm]
  refine .branch rfl ?_ ?_
  · intro hu
    rw [if_pos (.inl hu)]
    exact alone_wake
  intro hu
  refine .branch rfl ?_ ?_
  · intro ha
    rw [if_pos (.inr ha)]
    exact alone_wake
  intro ha
  rw [if_neg (not_or.mpr ⟨hu, ha⟩)]
  exact alone_armStallProbe hp

theorem alone_probeBody (hp : l.probeMu = false) (gen : ℕ) :
    Alone more (l, probeBody gen) (l.probeBody gen, ret true) := by
  have unlocked : { l with probeMu := false } = l := by rw [← hp]
  unfold Ledger.probeBody
  refine .next (if_neg (by simp [hp])) ?_
  refine .branch rfl ?_ ?_
  · intro hc
    rw [if_pos (.inl hc)]
    exact .next rfl (.of_eq (Prod.ext unlocked rfl))
  intro hc
  refine .branch rfl ?_ ?_
  · intro hg
    rw [if_pos (.inr hg)]
    exact .next rfl (.of_eq (Prod.ext unlocked rfl))
  intro hg
  rw [if_neg (not_or.mpr ⟨hc, hg⟩)]
  refine .branch rfl ?_ ?_
  · intro ha
    rw [if_pos ha]
    refine .next rfl (.next rfl (.of_eq ?_))
    cases l
    subst hp
    rfl
  intro ha
  rw [if_neg ha]
  unfold Ledger.signal
  by_cases hs : l.signaled
  · rw [if_pos hs]
    refine .next rfl (.next (if_pos hs) (.next rfl (.of_eq ?_)))
    cases l
    subst hp
    rfl
  · rw [if_neg hs]
    refine .next rfl (.next (if_neg hs) (.next rfl (.next rfl (.of_eq ?_))))
    cases l
    subst hp
    rfl

end Alone

end Op
end NexusProxy.Client
