import NexusProxy.Flow.ReverseCredits
import NexusProxy.Lib.Collections
import NexusProxy.Proxy.Sniff

/-! The `drain` goroutine of a `bufferedConn`, with the callers of `Write`: it hands credits back
for the frames it has written, and what it writes is a beginning of what was accepted. -/
namespace NexusProxy.Hub.BufferedConn
open Flow.ReverseCredits (clientWriteBufferSize)
open Protocol Proxy Transition

/-- In nanoseconds. -/
def minReplenishRetryBackoff : ℤ := 25 * 10 ^ 6

def retryStreakWarnThreshold : ℕ := 50

/-- A `time.Timer`; `fired` has its value waiting in the channel. -/
inductive Timer where
  | stopped
  | running
  | fired
  deriving DecidableEq

/-- What `tryReplenish` meets: the two times it reads and whether `onReplenish` succeeds. -/
structure Attempt where
  since : ℤ
  now : ℤ
  ok : Bool
  deriving DecidableEq

/-- The variables that the closures of `drain` share, `none` for a timer that has not been made
and for the zero time. `granted` and `warnings` are history: the counts that successful calls of
`onReplenish` were passed, and the lines logged. -/
structure Replenishment where
  consumed : ℕ
  lastReplenishAttempt : Option ℤ
  retryStreak : ℕ
  lastWarnedStreak : ℕ
  replenishTimer : Option Timer
  replenishTimerCh : Bool
  granted : List ℕ
  warnings : ℕ
  deriving DecidableEq

namespace Replenishment

def new : Replenishment := ⟨0, none, 0, 0, none, false, [], 0⟩

def armReplenishTimer (r : Replenishment) : Replenishment :=
  { r with replenishTimer := some .running, replenishTimerCh := true }

def stopReplenishTimer (r : Replenishment) : Replenishment :=
  { r with replenishTimer := r.replenishTimer.map fun _ => .stopped }

def disarmReplenishTimer (r : Replenishment) : Replenishment :=
  { r.stopReplenishTimer with replenishTimerCh := false }

/-- The branch of `tryReplenish` after a failed call, up to the arming of the timer. -/
def countFailure (r : Replenishment) : Replenishment :=
  let r := { r with retryStreak := r.retryStreak + 1 }
  if retryStreakWarnThreshold ≤ r.retryStreak - r.lastWarnedStreak then
    { r with lastWarnedStreak := r.retryStreak, warnings := r.warnings + 1 }
  else r

/-- `replenishes` tells whether there is an `onReplenish`. -/
def tryReplenish (replenishes : Bool) (a : Attempt) (r : Replenishment) : Replenishment :=
  if replenishes = false ∨ r.consumed = 0 then r.disarmReplenishTimer
  else if r.lastReplenishAttempt.any (a.since - · < minReplenishRetryBackoff) then
    r.armReplenishTimer
  else if a.ok then
    disarmReplenishTimer
      { r with
        granted := r.granted ++ [r.consumed]
        consumed := 0
        lastReplenishAttempt := none
        retryStreak := 0
        lastWarnedStreak := 0 }
  else ({ r with lastReplenishAttempt := some a.now }.countFailure).armReplenishTimer

/-- The end of the main loop's body, after a successful write. -/
def consume (replenishes : Bool) (a : Attempt) (r : Replenishment) : Replenishment :=
  let r := { r with consumed := r.consumed + 1 }
  if creditReplenishBatch ≤ r.consumed then r.tryReplenish replenishes a else r

/-- The timer can be received from, now or after its interval. -/
def Armed (r : Replenishment) : Prop :=
  r.replenishTimerCh = true ∧
    (r.replenishTimer = some .running ∨ r.replenishTimer = some .fired)

instance (r : Replenishment) : Decidable r.Armed := inferInstanceAs (Decidable (_ ∧ _))

end Replenishment

/-- Where `drain` stands. `gate` is about to ask for bandwidth, after a refusal or not, and
`gateWait` was refused. `lastWriting` writes the frame in hand although `quit` came first, and
`failed` and `closing` end the main loop after a failed write. -/
inductive Point where
  | select
  | gate (data : Bytes) (blockedAtLeastOnce : Bool)
  | gateWait (data : Bytes)
  | writing (data : Bytes)
  | failed
  | closing
  | lastWriting (data : Bytes)
  | flushing
  | flushWriting (data : Bytes)
  | exited
  deriving DecidableEq

def Point.held : Point → Bytes
  | .gate data _ | .gateWait data | .writing data | .lastWriting data | .flushWriting data => data
  | .select | .failed | .closing | .flushing | .exited => []

/-- The frame of a call of `Conn.Write` that has not returned. -/
def Point.pending : Point → Option Bytes
  | .writing data | .lastWriting data | .flushWriting data => some data
  | _ => none

namespace Point

def Running : Point → Prop
  | select | gate _ _ | gateWait _ | writing _ => True
  | failed | closing | lastWriting _ | flushing | flushWriting _ | exited => False

/-- Blocked in the main loop: in one of its two selects, or in `Conn.Write`. -/
def Blocked : Point → Prop
  | select | gateWait _ | writing _ => True
  | gate _ _ | failed | closing | lastWriting _ | flushing | flushWriting _ | exited => False

theorem Blocked.running {p : Point} (h : p.Blocked) : p.Running := by
  cases p <;> trivial

end Point

/-- `Conn.Write` writes the whole frame, or fails after some of its bytes. -/
inductive Outcome where
  | wrote
  | failed (n : ℕ)
  deriving DecidableEq

def Outcome.ok : Outcome → Bool
  | .wrote => true
  | .failed _ => false

/-- `callers` have passed the first select of `Write`. The last four fields are history: the
frames that `Write` accepted, the bytes that reached the connection, the number of successful
calls of `Conn.Write`, and whether one has failed. -/
structure Conn where
  gated : Bool
  replenishes : Bool
  callers : List Bytes
  writeCh : List Bytes
  quit : Bool
  closed : Bool
  point : Point
  replenishment : Replenishment
  lastWriteAt : ℤ
  gateBlocks : ℕ
  recorded : List ℕ
  accepted : List Bytes
  written : Bytes
  writes : ℕ
  cut : Bool
  deriving DecidableEq

/-- `stop` and `closeConn` are other goroutines that close `quit` and the connection; `tick` is
the interval of the replenish timer. The rest are the callers of `Write` and `drain`. -/
inductive Action where
  | check (data : Bytes)
  | enqueue (i : ℕ)
  | refuse (i : ℕ)
  | stop
  | closeConn
  | tick
  | receive
  | request (allowed : Bool)
  | wakeGate
  | retry (a : Attempt)
  | seeQuit
  | write (outcome : Outcome) (now : ℤ) (a : Attempt)
  | signalQuit
  | closeFailed
  | flushed
  deriving DecidableEq

namespace Conn

def newBufferedConn (gated replenishes : Bool) : Conn where
  gated := gated
  replenishes := replenishes
  callers := []
  writeCh := []
  quit := false
  closed := false
  point := .select
  replenishment := .new
  lastWriteAt := 0
  gateBlocks := 0
  recorded := []
  accepted := []
  written := []
  writes := 0
  cut := false

/-- A call of `Conn.Write` returns; a closed connection takes nothing. -/
def connWrite (c : Conn) (data : Bytes) : Outcome → Option Conn
  | .wrote =>
      if c.closed then none
      else some { c with written := c.written ++ data, writes := c.writes + 1 }
  | .failed n =>
      if n = 0 ∨ c.closed = false ∧ n < data.length then
        some { c with written := c.written ++ data.take n, cut := true }
      else none

def record (c : Conn) (data : Bytes) : Conn :=
  if c.gated then { c with recorded := c.recorded ++ [data.length] } else c

def exit (c : Conn) : Conn :=
  { c with point := .exited, replenishment := c.replenishment.stopReplenishTimer }

/-- Where `drain` goes on after `Conn.Write`: only the main loop counts the frame, and only the
write before `flushRemaining` ignores an error. -/
def afterWrite (c : Conn) (data : Bytes) (now : ℤ) (a : Attempt) (ok : Bool) : Conn :=
  match c.point with
  | .writing _ =>
      if ok then
        { c.record data with
          point := .select
          lastWriteAt := now
          replenishment := c.replenishment.consume c.replenishes a }
      else { c.record data with point := .failed }
  | .flushWriting _ => if ok then { c with point := .flushing } else c.exit
  | _ => { c with point := .flushing }

/-- A step of a goroutine that calls `Write`. The second select takes a free slot of the buffer,
or returns an error if `quit` is closed or there is no slot. -/
def enqueue (c : Conn) (i : ℕ) : Option Conn :=
  (c.callers[i]?).bind fun data =>
    if c.writeCh.length < clientWriteBufferSize then
      some { c with
        callers := c.callers.eraseIdx i
        writeCh := c.writeCh ++ [data]
        accepted := c.accepted ++ [data] }
    else none

def refuse (c : Conn) (i : ℕ) : Option Conn :=
  (c.callers[i]?).bind fun _ =>
    if c.quit = true ∨ clientWriteBufferSize ≤ c.writeCh.length then
      some { c with callers := c.callers.eraseIdx i }
    else none

def receive (c : Conn) : Option Conn :=
  match c.point, c.writeCh with
  | .select, data :: rest =>
      some { c with writeCh := rest, point := if c.gated then .gate data false else .writing data }
  | .flushing, data :: rest => some { c with writeCh := rest, point := .flushWriting data }
  | _, _ => none

/-- The gate answers, and the observer is told of a frame that had to wait. -/
def request (c : Conn) (allowed : Bool) : Option Conn :=
  match c.point with
  | .gate data blockedAtLeastOnce =>
      if allowed then
        some { c with
          point := .writing data
          gateBlocks := if blockedAtLeastOnce then c.gateBlocks + 1 else c.gateBlocks }
      else some { c with point := .gateWait data }
  | _ => none

/-- The replenish timer is received from, in the outer select or in the one of the gate. -/
def retry (c : Conn) (a : Attempt) : Option Conn :=
  let r := c.replenishment
  if r.replenishTimerCh = true ∧ r.replenishTimer = some .fired then
    let r := { r with replenishTimer := some .stopped }.tryReplenish c.replenishes a
    match c.point with
    | .select => some { c with replenishment := r }
    | .gateWait data => some { c with replenishment := r, point := .gate data true }
    | _ => none
  else none

def seeQuit (c : Conn) : Option Conn :=
  if c.quit then
    match c.point with
    | .select => some { c with point := .flushing }
    | .gateWait data => some { c with point := .lastWriting data }
    | _ => none
  else none

def tick (c : Conn) : Option Conn :=
  if c.replenishment.replenishTimer = some .running then
    some { c with replenishment := { c.replenishment with replenishTimer := some .fired } }
  else none

def step (c : Conn) : Action → Option Conn
  | .check data => some (if c.quit then c else { c with callers := c.callers ++ [data] })
  | .enqueue i => c.enqueue i
  | .refuse i => c.refuse i
  | .stop => some { c with quit := true }
  | .closeConn => some { c with closed := true }
  | .tick => c.tick
  | .receive => c.receive
  | .request allowed => c.request allowed
  | .wakeGate =>
      match c.point with
      | .gateWait data => some { c with point := .gate data true }
      | _ => none
  | .retry a => c.retry a
  | .seeQuit => c.seeQuit
  | .write outcome now a =>
      c.point.pending.bind fun data =>
        (c.connWrite data outcome).map fun c => c.afterWrite data now a outcome.ok
  -- `Write` is told to refuse further frames before the connection is closed
  | .signalQuit =>
      if c.point = .failed then some { c with quit := true, point := .closing } else none
  | .closeFailed => if c.point = .closing then some { c.exit with closed := true } else none
  | .flushed => if c.point = .flushing ∧ c.writeCh = [] then some c.exit else none

/-- What a step can do to the credits and to the bytes. -/
inductive Stepped (c : Conn) : Action → Conn → Prop
  | check (data : Bytes) {callers : List Bytes} : Stepped c (.check data)
      { c with callers := callers }
  | enqueue {i : ℕ} {data : Bytes} {callers : List Bytes} : Stepped c (.enqueue i)
      { c with
        callers := callers
        writeCh := c.writeCh ++ [data]
        accepted := c.accepted ++ [data] }
  | refuse {i : ℕ} {callers : List Bytes} : Stepped c (.refuse i) { c with callers := callers }
  | stop : Stepped c .stop { c with quit := true }
  | closeConn : Stepped c .closeConn { c with closed := true }
  | tick : Stepped c .tick
      { c with replenishment := { c.replenishment with replenishTimer := some .fired } }
  | receive {data : Bytes} {rest : List Bytes} {p : Point} (hpoint : c.point = .select)
      (hch : c.writeCh = data :: rest) (hp : p.Running ∧ p.held = data) :
      Stepped c .receive { c with writeCh := rest, point := p }
  | flush {data : Bytes} {rest : List Bytes} (hpoint : c.point = .flushing)
      (hch : c.writeCh = data :: rest) :
      Stepped c .receive { c with writeCh := rest, point := .flushWriting data }
  | gate {action : Action} {p : Point} {gateBlocks : ℕ} (hpoint : c.point.Running)
      (hp : p.Running ∧ p.held = c.point.held) :
      Stepped c action { c with point := p, gateBlocks := gateBlocks }
  | retry {a : Attempt} {p : Point} (hpoint : c.point.Running)
      (hp : p.Running ∧ p.held = c.point.held) (hch : c.replenishment.replenishTimerCh = true) :
      Stepped c (.retry a)
        { c with
          replenishment :=
            { c.replenishment with replenishTimer := some .stopped }.tryReplenish c.replenishes a
          point := p }
  | quit {p : Point} (hpoint : c.point.Running) (hp : ¬p.Running ∧ p.held = c.point.held) :
      Stepped c .seeQuit { c with point := p }
  | wrote {data : Bytes} {now : ℤ} {a : Attempt} (hpoint : c.point.pending = some data) :
      Stepped c (.write .wrote now a)
        ({ c with written := c.written ++ data, writes := c.writes + 1 }.afterWrite data now a true)
  | cut {data : Bytes} {n : ℕ} {now : ℤ} {a : Attempt} (hpoint : c.point.pending = some data) :
      Stepped c (.write (.failed n) now a)
        ({ c with written := c.written ++ data.take n, cut := true }.afterWrite data now a false)
  | signalQuit (hpoint : c.point = .failed) :
      Stepped c .signalQuit { c with quit := true, point := .closing }
  | closeFailed (hpoint : c.point = .closing) :
      Stepped c .closeFailed { c.exit with closed := true }
  | flushed (hpoint : c.point = .flushing) : Stepped c .flushed c.exit

theorem stepped {c d : Conn} {action : Action} (h : c.step action = some d) :
    Stepped c action d := by
  cases action with
  | check data =>
    cases h
    by_cases hquit : c.quit
    · rw [if_pos hquit]
      exact .check data
    · rw [if_neg hquit]
      exact .check data
  | enqueue i =>
    obtain ⟨data, -, hroom⟩ := Option.bind_eq_some_iff.mp h
    split_ifs at hroom
    cases hroom
    exact .enqueue
  | refuse i =>
    obtain ⟨data, -, hroom⟩ := Option.bind_eq_some_iff.mp h
    split_ifs at hroom
    cases hroom
    exact .refuse
  | stop =>
    cases h
    exact .stop
  | closeConn =>
    cases h
    exact .closeConn
  | tick =>
    simp only [step, tick] at h
    split_ifs at h
    cases h
    exact .tick
  | receive =>
    simp only [step, receive] at h
    split at h
    · cases h
      refine .receive ‹_› ‹_› ?_
      split_ifs <;> exact ⟨trivial, rfl⟩
    · cases h
      exact .flush ‹_› ‹_›
    · cases h
  | request allowed =>
    simp only [step, request] at h
    split at h
    · rename_i data blocked hpoint
      split_ifs at h <;> cases h <;> refine .gate ?_ ?_ <;> rw [hpoint] <;> trivial
    · cases h
  | wakeGate =>
    simp only [step] at h
    split at h
    · rename_i data hpoint
      cases h
      refine .gate ?_ ?_ <;> rw [hpoint] <;> trivial
    · cases h
  | retry a =>
    simp only [step, retry] at h
    split_ifs at h with hfired
    split at h
    · rename_i hpoint
      cases h
      refine .retry ?_ ?_ hfired.1 <;> rw [hpoint] <;> trivial
    · rename_i data hpoint
      cases h
      refine .retry ?_ ?_ hfired.1 <;> rw [hpoint] <;> trivial
    · cases h
  | seeQuit =>
    simp only [step, seeQuit] at h
    split_ifs at h
    split at h
    · rename_i hpoint
      cases h
      refine .quit ?_ ?_ <;> rw [hpoint] <;> first | trivial | exact ⟨id, rfl⟩
    · rename_i data hpoint
      cases h
      refine .quit ?_ ?_ <;> rw [hpoint] <;> first | trivial | exact ⟨id, rfl⟩
    · cases h
  | write outcome now a =>
    obtain ⟨data, hpending, hwrite⟩ := Option.bind_eq_some_iff.mp h
    obtain ⟨c', hconn, rfl⟩ := Option.map_eq_some_iff.mp hwrite
    cases outcome with
    | wrote =>
      simp only [connWrite] at hconn
      split_ifs at hconn
      cases hconn
      exact .wrote hpending
    | failed n =>
      simp only [connWrite] at hconn
      split_ifs at hconn
      cases hconn
      exact .cut hpending
  | signalQuit =>
    simp only [step] at h
    split_ifs at h with hpoint
    cases h
    exact .signalQuit hpoint
  | closeFailed =>
    simp only [step] at h
    split_ifs at h with hpoint
    cases h
    exact .closeFailed hpoint
  | flushed =>
    simp only [step] at h
    split_ifs at h with hpoint
    cases h
    exact .flushed hpoint.1

end Conn

/-! ### Credits -/

namespace Replenishment
variable {writes : ℕ} {r : Replenishment} {a : Attempt}

/-- Every successful write has been handed back or is still counted, by full batches, and a batch
that is still counted has a retry to come. -/
structure Conserves (writes : ℕ) (r : Replenishment) : Prop where
  total : r.granted.sum + r.consumed = writes
  batches : ∀ n ∈ r.granted, creditReplenishBatch ≤ n
  pending : r.replenishTimerCh = true → creditReplenishBatch ≤ r.consumed
  armed : creditReplenishBatch ≤ r.consumed → r.Armed

theorem conserves_new : Conserves 0 new where
  total := rfl
  batches := fun n hn => (List.not_mem_nil hn).elim
  pending := fun h => by cases h
  armed := fun h => absurd h (by decide)

@[simp] theorem countFailure_consumed (r : Replenishment) :
    r.countFailure.consumed = r.consumed := by
  unfold countFailure
  dsimp only
  split_ifs <;> rfl

@[simp] theorem countFailure_granted (r : Replenishment) : r.countFailure.granted = r.granted := by
  unfold countFailure
  dsimp only
  split_ifs <;> rfl

theorem conserves_tryReplenish (htotal : r.granted.sum + r.consumed = writes)
    (hbatches : ∀ n ∈ r.granted, creditReplenishBatch ≤ n)
    (hfull : creditReplenishBatch ≤ r.consumed) :
    Conserves writes (r.tryReplenish true a) := by
  have hpos : 0 < creditReplenishBatch := by decide
  unfold tryReplenish
  rw [if_neg (by simp; omega)]
  split_ifs with hbackoff hok
  · exact ⟨htotal, hbatches, fun _ => hfull, fun _ => ⟨rfl, .inl rfl⟩⟩
  · refine ⟨?_, Collections.forall_mem_concat hbatches hfull, (fun h => by cases h), ?_⟩
    · simpa [disarmReplenishTimer, stopReplenishTimer] using htotal
    · intro h
      exact absurd (hpos.trans_le h) (lt_irrefl 0)
  · refine ⟨?_, ?_, fun _ => ?_, fun _ => ⟨rfl, .inl rfl⟩⟩
    · simpa [armReplenishTimer] using htotal
    · simpa [armReplenishTimer] using hbatches
    · simpa [armReplenishTimer] using hfull

theorem Conserves.consume (h : Conserves writes r) :
    Conserves (writes + 1) (r.consume true a) := by
  have htotal : r.granted.sum + (r.consumed + 1) = writes + 1 := by rw [← h.total, add_assoc]
  unfold Replenishment.consume
  dsimp only
  split_ifs with hfull
  · exact conserves_tryReplenish htotal h.batches hfull
  · refine ⟨htotal, h.batches, ?_, fun hle => absurd hle hfull⟩
    intro hch
    exact (h.pending hch).trans (Nat.le_succ _)

theorem Conserves.tick (h : Conserves writes r) :
    Conserves writes { r with replenishTimer := some .fired } :=
  ⟨h.total, h.batches, h.pending, fun hle => ⟨(h.armed hle).1, .inr rfl⟩⟩

end Replenishment

namespace Conn
variable {c d : Conn}

/-- While `drain` is in its main loop, no credit is lost. -/
structure Replenished (c : Conn) : Prop where
  replenishes : c.replenishes = true
  conserves : c.point.Running → c.replenishment.Conserves c.writes

theorem newBufferedConn_replenished (gated : Bool) : (newBufferedConn gated true).Replenished :=
  ⟨rfl, fun _ => Replenishment.conserves_new⟩

@[simp] theorem record_eq (c : Conn) (data : Bytes) :
    (c.record data).replenishment = c.replenishment ∧ (c.record data).writes = c.writes ∧
      (c.record data).replenishes = c.replenishes ∧ (c.record data).written = c.written ∧
      (c.record data).writeCh = c.writeCh ∧ (c.record data).accepted = c.accepted ∧
      (c.record data).cut = c.cut := by
  unfold record
  split_ifs <;> exact ⟨rfl, rfl, rfl, rfl, rfl, rfl, rfl⟩

theorem Replenished.afterWrite (h : c.Replenished) {data : Bytes} {now : ℤ} {a : Attempt}
    {written : Bytes} {writes : ℕ} {cut ok : Bool} (hwrites : ok = true → writes = c.writes + 1) :
    ({ c with written := written, writes := writes, cut := cut }.afterWrite data now a
      ok).Replenished := by
  have hconserves := h.conserves
  have hreplenishes := h.replenishes
  unfold Conn.afterWrite
  split
  · rename_i hpoint
    split_ifs with hok
    · refine ⟨by simpa using hreplenishes, fun _ => ?_⟩
      have hrunning : c.point.Running := by
        rw [show c.point = _ from hpoint]
        trivial
      simp only [record_eq, hreplenishes, hwrites hok]
      exact (hconserves hrunning).consume
    · exact ⟨by simpa using hreplenishes, fun hrunning => absurd hrunning id⟩
  · split_ifs
    · exact ⟨hreplenishes, fun hrunning => absurd hrunning id⟩
    · exact ⟨hreplenishes, fun hrunning => absurd hrunning id⟩
  · exact ⟨hreplenishes, fun hrunning => absurd hrunning id⟩

theorem Replenished.step (h : c.Replenished) {action : Action} (hstep : c.step action = some d) :
    d.Replenished := by
  cases stepped hstep with
  | check _ | refuse | stop | closeConn | enqueue => exact ⟨h.replenishes, h.conserves⟩
  | tick => exact ⟨h.replenishes, fun hrunning => (h.conserves hrunning).tick⟩
  | receive hpoint _ _ => exact ⟨h.replenishes, fun _ => h.conserves (hpoint ▸ trivial)⟩
  | gate hpoint _ => exact ⟨h.replenishes, fun _ => h.conserves hpoint⟩
  | flush _ _ | signalQuit _ | closeFailed _ | flushed _ =>
    exact ⟨h.replenishes, fun hrunning => absurd hrunning id⟩
  | quit _ hp => exact ⟨h.replenishes, fun hrunning => absurd hrunning hp.1⟩
  | retry hpoint _ hch =>
    have hconserves := h.conserves hpoint
    refine ⟨h.replenishes, fun _ => ?_⟩
    rw [h.replenishes]
    exact Replenishment.conserves_tryReplenish hconserves.total hconserves.batches
      (hconserves.pending hch)
  | wrote _ => exact h.afterWrite fun _ => rfl
  | cut _ => exact h.afterWrite fun hok => by cases hok

end Conn

/-- At every point where the main loop blocks, the credits for the frames written so far have been
handed back in full batches or are counted, and a full batch that is counted has a retry to come. -/
theorem drain_conserves_credits (gated : Bool) (actions : List Action) (c : Conn)
    (hrun : run Conn.step (.newBufferedConn gated true) actions = some c)
    (hpoint : c.point.Blocked) :
    c.replenishment.granted.sum + c.replenishment.consumed = c.writes ∧
      (∀ n ∈ c.replenishment.granted, creditReplenishBatch ≤ n) ∧
      (creditReplenishBatch ≤ c.replenishment.consumed → c.replenishment.Armed) := by
  have h : c.Replenished := invariant_run (fun _ _ _ h hstep => h.step hstep)
    (Conn.newBufferedConn_replenished gated) hrun
  have hconserves := h.conserves hpoint.running
  exact ⟨hconserves.total, hconserves.batches, hconserves.armed⟩

/-- A frame of one byte is accepted, passes the gate and is written. -/
def frameWritten (a : Attempt) : List Action :=
  [.check [0], .enqueue 0, .receive, .request true, .write .wrote 0 a]

/-- The first batch is refused, and handed back by a retry while the next frame waits for
bandwidth. -/
def refusedBatch : List Action :=
  (List.replicate 8 (frameWritten ⟨0, 0, false⟩)).flatten ++
    [.check [1], .enqueue 0, .receive, .request false, .tick,
      .retry ⟨minReplenishRetryBackoff, minReplenishRetryBackoff, true⟩, .request false]

theorem drain_conserves_credits_refusedBatch :
    ∃ c, run Conn.step (.newBufferedConn true true) refusedBatch = some c ∧
      (c.replenishment.granted = [8] ∧ c.writes = 8 ∧ c.point = .gateWait [1]) ∧
      c.replenishment.granted.sum + c.replenishment.consumed = c.writes ∧
      (∀ n ∈ c.replenishment.granted, creditReplenishBatch ≤ n) ∧
      (creditReplenishBatch ≤ c.replenishment.consumed → c.replenishment.Armed) := by
  obtain ⟨c, hrun, hretried⟩ : ∃ c,
      run Conn.step (.newBufferedConn true true) refusedBatch = some c ∧
        (c.replenishment.granted = [8] ∧ c.writes = 8 ∧ c.point = .gateWait [1]) :=
    exists_run_of_any (by decide +kernel)
  refine ⟨c, hrun, hretried, ?_⟩
  exact drain_conserves_credits true refusedBatch c hrun (by rw [hretried.2.2]; trivial)

/-! ### Bytes -/

/-- The points that are reached only while every write has succeeded. -/
def Point.Whole : Point → Prop
  | .select | .gate _ _ | .gateWait _ | .writing _ | .lastWriting _ => True
  | .failed | .closing | .flushing | .flushWriting _ | .exited => False

theorem Point.Running.whole {p : Point} (h : p.Running) : p.Whole := by
  cases p <;> trivial

theorem Point.held_of_pending {p : Point} {data : Bytes} (h : p.pending = some data) :
    p.held = data := by
  cases p <;> first | exact Option.some.inj h | cases h

namespace Conn
variable {c d : Conn}

/-- What was written begins what was accepted, and as long as no write has failed it goes on with
the frame in hand and the buffer. -/
structure InOrder (c : Conn) : Prop where
  whole : c.point.Whole → c.cut = false
  rest : c.cut = false → c.written ++ c.point.held ++ c.writeCh.flatten = c.accepted.flatten
  begins : c.written <+: c.accepted.flatten

theorem newBufferedConn_inOrder (gated replenishes : Bool) :
    (newBufferedConn gated replenishes).InOrder :=
  ⟨fun _ => rfl, fun _ => rfl, List.prefix_rfl⟩

theorem InOrder.move (h : c.InOrder) (hsame : d.written = c.written ∧ d.accepted = c.accepted ∧
      d.cut = c.cut) (hwhole : d.point.Whole → c.point.Whole)
    (hrest : d.point.held ++ d.writeCh.flatten = c.point.held ++ c.writeCh.flatten) :
    d.InOrder := by
  obtain ⟨hwritten, haccepted, hcut⟩ := hsame
  refine ⟨fun hd => hcut.trans (h.whole (hwhole hd)), fun hd => ?_, ?_⟩
  · rw [List.append_assoc, hrest, hwritten, haccepted, ← List.append_assoc]
    exact h.rest (hcut ▸ hd)
  · rw [hwritten, haccepted]
    exact h.begins

theorem afterWrite_eq (c : Conn) (data : Bytes) (now : ℤ) (a : Attempt) (ok : Bool) :
    (c.afterWrite data now a ok).written = c.written ∧
      (c.afterWrite data now a ok).accepted = c.accepted ∧
      (c.afterWrite data now a ok).writeCh = c.writeCh ∧
      (c.afterWrite data now a ok).cut = c.cut ∧
      (c.afterWrite data now a ok).point.held = [] ∧
      ((c.afterWrite data now a ok).point.Whole → c.point.Whole ∧ ok = true) := by
  unfold afterWrite
  split
  · rename_i hpoint
    cases ok with
    | true => simp [Point.held, hpoint, Point.Whole]
    | false => simp [Point.held, Point.Whole]
  · cases ok <;> simp [exit, Point.held, Point.Whole]
  · simp [Point.held, Point.Whole]

theorem InOrder.wrote (h : c.InOrder) {data : Bytes} {now : ℤ} {a : Attempt} {writes : ℕ}
    (hpending : c.point.pending = some data) (hcut : c.cut = false) :
    ({ c with written := c.written ++ data, writes := writes }.afterWrite data now a
      true).InOrder := by
  obtain ⟨hwritten, haccepted, hch, hcut', hheld, -⟩ := afterWrite_eq
    { c with written := c.written ++ data, writes := writes } data now a true
  have hrest := h.rest hcut
  rw [Point.held_of_pending hpending] at hrest
  refine ⟨fun _ => hcut'.trans hcut, fun _ => ?_, ?_⟩
  · rw [hwritten, haccepted, hch, hheld, List.append_nil]
    exact hrest
  · rw [hwritten, haccepted]
    exact hrest ▸ List.prefix_append _ _

theorem InOrder.cutOff (h : c.InOrder) {data : Bytes} {n : ℕ} {now : ℤ} {a : Attempt}
    (hpending : c.point.pending = some data) (hcut : c.cut = false) :
    ({ c with written := c.written ++ data.take n, cut := true }.afterWrite data now a
      false).InOrder := by
  obtain ⟨hwritten, haccepted, -, hcut', -, hwhole⟩ := afterWrite_eq
    { c with written := c.written ++ data.take n, cut := true } data now a false
  have hrest := h.rest hcut
  rw [Point.held_of_pending hpending] at hrest
  refine ⟨fun hd => ?_, fun hd => ?_, ?_⟩
  · cases (hwhole hd).2
  · rw [hcut'] at hd
    cases hd
  · rw [hwritten, haccepted, show c.accepted.flatten = _ from hrest.symm]
    refine List.IsPrefix.trans ?_ (List.prefix_append _ _)
    exact List.prefix_append_right_inj _ |>.mpr (List.take_prefix n data)

end Conn

/-- A call of `Conn.Write` by `flushRemaining`. -/
def Point.Flushes : Point → Prop
  | .flushWriting _ => True
  | _ => False

instance decidableFlushes : DecidablePred Point.Flushes
  | .flushWriting _ => isTrue trivial
  | .select | .gate _ _ | .gateWait _ | .writing _ | .failed | .closing | .lastWriting _
  | .flushing | .exited => isFalse id

namespace Conn
variable {c d : Conn}

/-- When `flushRemaining` writes a frame, no write has failed before. -/
def FlushesWhole (c : Conn) : Action → Prop
  | .write _ _ _ => c.point.Flushes → c.cut = false
  | _ => True

instance decidableFlushesWhole (c : Conn) : DecidablePred c.FlushesWhole := by
  intro action
  unfold FlushesWhole
  split <;> infer_instance

theorem InOrder.uncut (h : c.InOrder) {data : Bytes} (hpending : c.point.pending = some data)
    (hflushes : c.point.Flushes → c.cut = false) : c.cut = false := by
  cases hpoint : c.point with
  | flushWriting _ => exact hflushes (hpoint ▸ trivial)
  | writing _ | lastWriting _ => exact h.whole (hpoint ▸ trivial)
  | _ =>
    rw [hpoint] at hpending
    cases hpending

theorem InOrder.step (h : c.InOrder) {action : Action} (hguard : c.FlushesWhole action)
    (hstep : c.step action = some d) : d.InOrder := by
  cases stepped hstep with
  | check _ | refuse | stop | closeConn | tick => exact ⟨h.whole, h.rest, h.begins⟩
  | @enqueue i data callers =>
    refine ⟨h.whole, fun hcut => ?_, ?_⟩
    · simp only [List.flatten_append, ← List.append_assoc, h.rest hcut]
    · exact h.begins.trans (by simp)
  | @receive data rest p hpoint hch hp =>
    refine h.move ⟨rfl, rfl, rfl⟩ (fun _ => hpoint ▸ trivial) ?_
    rw [hpoint, hch, hp.2]
    rfl
  | @flush data rest hpoint hch =>
    refine h.move ⟨rfl, rfl, rfl⟩ (fun hd => absurd hd id) ?_
    rw [hpoint, hch]
    rfl
  | gate hpoint hp =>
    exact h.move ⟨rfl, rfl, rfl⟩ (fun _ => hpoint.whole) (congrArg (· ++ _) hp.2)
  | retry hpoint hp _ =>
    exact h.move ⟨rfl, rfl, rfl⟩ (fun _ => hpoint.whole) (congrArg (· ++ _) hp.2)
  | quit hpoint hp =>
    exact h.move ⟨rfl, rfl, rfl⟩ (fun _ => hpoint.whole) (congrArg (· ++ _) hp.2)
  | wrote hpending => exact h.wrote hpending (h.uncut hpending hguard)
  | cut hpending => exact h.cutOff hpending (h.uncut hpending hguard)
  | signalQuit hpoint =>
    exact h.move ⟨rfl, rfl, rfl⟩ (fun hd => absurd hd id) (by rw [hpoint]; rfl)
  | closeFailed hpoint =>
    exact h.move ⟨rfl, rfl, rfl⟩ (fun hd => absurd hd id) (by rw [hpoint]; rfl)
  | flushed hpoint =>
    exact h.move ⟨rfl, rfl, rfl⟩ (fun hd => absurd hd id) (by rw [hpoint]; rfl)

end Conn

/-- The bytes on the connection begin the accepted frames, as long as `flushRemaining` does not
write after a failed write. -/
theorem written_prefix_accepted (gated replenishes : Bool) (actions : List Action) (c : Conn)
    (hguard : Along Conn.step Conn.FlushesWhole (.newBufferedConn gated replenishes) actions)
    (hrun : run Conn.step (.newBufferedConn gated replenishes) actions = some c) :
    c.written <+: c.accepted.flatten := by
  have h : c.InOrder := invariant_along (fun _ _ _ h hguard hstep => h.step hguard hstep)
    (Conn.newBufferedConn_inOrder gated replenishes) hguard hrun
  exact h.begins

/-- Two frames are accepted, and `quit` comes while the first waits for bandwidth. -/
def stoppedAtGate : List Action :=
  [.check [1, 2], .enqueue 0, .check [3], .enqueue 0, .receive, .request false, .stop, .seeQuit]

theorem written_prefix_accepted_stoppedAtGate :
    ∃ c, run Conn.step (.newBufferedConn true true)
        (stoppedAtGate ++
          [.write .wrote 0 ⟨0, 0, true⟩, .receive, .write (.failed 0) 0 ⟨0, 0, true⟩]) = some c ∧
      c.written = [1, 2] ∧ c.written <+: c.accepted.flatten := by
  obtain ⟨c, hrun, hwritten⟩ : ∃ c, run Conn.step (.newBufferedConn true true)
      (stoppedAtGate ++ [.write .wrote 0 ⟨0, 0, true⟩, .receive, .write (.failed 0) 0 ⟨0, 0, true⟩])
        = some c ∧ c.written = [1, 2] := exists_run_of_any (by decide +kernel)
  exact ⟨c, hrun, hwritten, written_prefix_accepted true true _ c (by decide +kernel) hrun⟩

/-- The write of the frame in hand fails after one byte, and the flush goes on with the next
frame. -/
theorem written_with_hole :
    ∃ c, run Conn.step (.newBufferedConn true true)
        (stoppedAtGate ++
          [.write (.failed 1) 0 ⟨0, 0, true⟩, .receive, .write .wrote 0 ⟨0, 0, true⟩]) = some c ∧
      c.written = [1, 3] ∧ c.accepted = [[1, 2], [3]] ∧ ¬c.written <+: c.accepted.flatten :=
  exists_run_of_any (by decide +kernel)

end NexusProxy.Hub.BufferedConn
