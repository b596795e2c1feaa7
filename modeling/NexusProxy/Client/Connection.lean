import NexusProxy.Lib.Threads
import NexusProxy.Lib.Transition
import NexusProxy.Protocol
import NexusProxy.Client.LedgerInvariants

/-! The goroutines of one client connection: the producer that reads the local service,
the session's `writePump`, any number of handlers of relay messages, the stall-probe
timers and one teardown. Every action is one access to shared memory. -/
namespace NexusProxy.Client
open FixedWidth Protocol

inductive Tid where
  | producer
  | writePump
  | handler (i : ℕ)
  | timer (gen : ℕ)
  | teardown
  deriving DecidableEq

/-- `enqueueData`: the queue has been looked up, or the frame pushed. -/
inductive Producer (F : Type*) where
  | idle
  | holding (frame : F)
  | pushed
  | notifying
  deriving DecidableEq

/-- `drainConnectionQueue`, by the access it is about to make. `left` counts the
iterations that remain, and the last five points are the deferred function. -/
inductive Drain (F : Type*) where
  | idle
  | getQueue (left : ℕ)
  | noQueue
  | noQueueClosing
  | loadConn (left : ℕ)
  | loop (left : ℕ)
  | acquiring (left : ℕ)
  | pull (left : ℕ)
  | write (left : ℕ) (frame : F)
  | releasing
  | yielding
  | isClosing
  | lenQueue
  | latePull
  | lateWrite (frame : F)
  | lateLen
  | closeOnDrained
  deriving DecidableEq

/-- `transitionToClosed` of an active or draining connection. -/
inductive Teardown where
  | live
  | safeClose
  | kickstart
  | kickstarting
  | waitDrained
  | cleanupQueue
  | discard
  | deleteConn
  | sendDisconnect
  | done
  deriving DecidableEq

/-- `pushed` and `atCas` are history: every frame ever queued, and how many there were
when the state was swapped to closed. -/
structure Conn (F : Type*) where
  ledger : Ledger
  op : Tid → Op
  queue : List F
  sent : List F
  pushed : List F
  producer : Producer F
  drain : Drain F
  teardown : Teardown
  outboundPending : Bool
  quit : Bool
  drained : Bool
  queueDeleted : Bool
  connDeleted : Bool
  disconnectQueued : Bool
  atCas : ℕ

inductive Action (F : Type*) where
  | access (t : Tid)
  | enqueueData (frame : F)
  | push
  | loadConn
  | enqueued
  | dataReady (maxMessages : ℕ)
  | drain
  | resumeStream (i : ℕ) (credits : ℤ)
  | outboundResult (i : ℕ) (credits : ℤ)
  | handled (i : ℕ)
  | fire (gen : ℕ)
  | fired (gen : ℕ)
  | teardown

variable {F : Type*}

/-- A connection whose ledger was built with `initial` credits; an outbound one starts
with none and waits for its `EventOutboundResult`. -/
def Conn.start (initial : ℤ) (outbound : Bool) : Conn F where
  ledger := newCreditLedger initial maxReverseCreditCapacity
  op := fun _ => .idle
  queue := []
  sent := []
  pushed := []
  producer := .idle
  drain := .idle
  teardown := .live
  outboundPending := outbound
  quit := false
  drained := false
  queueDeleted := false
  connDeleted := false
  disconnectQueued := false
  atCas := 0

namespace Conn

def setOp (s : Conn F) (t : Tid) (o : Op) : Conn F :=
  { s with op := Function.update s.op t o }

def access (s : Conn F) (t : Tid) : Option (Conn F) :=
  ((s.op t).step (!s.queue.isEmpty) s.ledger).map fun r =>
    { s with ledger := r.1, op := Function.update s.op t r.2 }

/-- `enqueueData` looks the queue up and gives up when it is gone. -/
def enqueueData (s : Conn F) (frame : F) : Option (Conn F) :=
  match s.producer with
  | .idle => some (if s.queueDeleted then s else { s with producer := .holding frame })
  | _ => none

/-- The channel send blocks while the queue is full. -/
def push (s : Conn F) : Option (Conn F) :=
  match s.producer with
  | .holding frame =>
      if s.queue.length < queueCapacity then
        some { s with
          queue := s.queue ++ [frame], pushed := s.pushed ++ [frame], producer := .pushed }
      else none
  | _ => none

/-- The lookup in `localConns` before `NotifyEnqueue`. -/
def loadConn (s : Conn F) : Option (Conn F) :=
  match s.producer with
  | .pushed =>
      some (if s.connDeleted then { s with producer := .idle }
        else { s with producer := .notifying }.setOp .producer .notifyEnqueue)
  | _ => none

def enqueued (s : Conn F) : Option (Conn F) :=
  match s.producer, s.op .producer with
  | .notifying, .ret _ => some ({ s with producer := .idle }.setOp .producer .idle)
  | _, _ => none

/-- `writePump` receives this connection's id from `dataReady`. -/
def dataReady (s : Conn F) (maxMessages : ℕ) : Option (Conn F) :=
  match s.drain with
  | .idle =>
      if 0 < s.ledger.wakeups then
        some { s with
          ledger := { s.ledger with wakeups := s.ledger.wakeups - 1 },
          drain := .getQueue maxMessages }
      else none
  | _ => none

def yield (s : Conn F) : Conn F :=
  { s with drain := .yielding }.setOp .writePump .drainYielded

def drainStep (s : Conn F) : Option (Conn F) :=
  match s.drain with
  | .idle => none
  | .getQueue left => some { s with drain := if s.queueDeleted then .noQueue else .loadConn left }
  | .noQueue => some { s with drain := if s.connDeleted then .idle else .noQueueClosing }
  | .noQueueClosing => some { s with drain := if s.quit then .closeOnDrained else .idle }
  | .loadConn left => some { s with drain := if s.connDeleted then .idle else .loop left }
  | .loop 0 => some s.yield
  | .loop (left + 1) => some ({ s with drain := .acquiring left }.setOp .writePump .tryAcquire)
  | .acquiring left =>
      match s.op .writePump with
      | .ret true => some ({ s with drain := .pull left }.setOp .writePump .idle)
      | .ret false => some s.yield
      | _ => none
  | .pull left =>
      match s.queue with
      | frame :: rest => some { s with queue := rest, drain := .write left frame }
      | [] => some ({ s with drain := .releasing }.setOp .writePump .release)
  | .write left frame => some { s with sent := s.sent ++ [frame], drain := .loop left }
  | .releasing =>
      match s.op .writePump with
      | .ret _ => some s.yield
      | _ => none
  | .yielding =>
      match s.op .writePump with
      | .ret _ => some ({ s with drain := .isClosing }.setOp .writePump .idle)
      | _ => none
  | .isClosing => some { s with drain := if s.quit then .lenQueue else .idle }
  | .lenQueue => some { s with drain := if s.queue.isEmpty then .latePull else .idle }
  | .latePull =>
      match s.queue with
      | frame :: rest => some { s with queue := rest, drain := .lateWrite frame }
      | [] => some { s with drain := .closeOnDrained }
  | .lateWrite frame => some { s with sent := s.sent ++ [frame], drain := .lateLen }
  | .lateLen => some { s with drain := if s.queue.isEmpty then .closeOnDrained else .idle }
  | .closeOnDrained => some { s with drained := true, drain := .idle }

def handle (s : Conn F) (i : ℕ) (o : Op) : Option (Conn F) :=
  if s.op (.handler i) = .idle then some (s.setOp (.handler i) o) else none

/-- `EventResumeStream`: grants without credits are ignored. -/
def resumeStream (s : Conn F) (i : ℕ) (credits : ℤ) : Option (Conn F) :=
  if s.connDeleted ∨ credits ≤ 0 then some s
  else s.handle i (.replenish (clampReverseCredits credits))

/-- A successful `EventOutboundResult`: a relay that sends no credits gets the unlimited
mode. The entry in `outboundPending` is taken once. -/
def outboundResult (s : Conn F) (i : ℕ) (credits : ℤ) : Option (Conn F) :=
  if s.outboundPending then
    let s := { s with outboundPending := false }
    if s.connDeleted then some s
    else s.handle i (.initCredits
      (if 0 < credits then clampReverseCredits credits else maxInt64))
  else some s

def returned (s : Conn F) (t : Tid) : Option (Conn F) :=
  match s.op t with
  | .ret _ => some (s.setOp t .idle)
  | _ => none

/-- The runtime starts the function of a timer that was not stopped. -/
def fire (s : Conn F) (gen : ℕ) : Option (Conn F) :=
  if gen ∈ s.ledger.timers ∧ s.op (.timer gen) = .idle then
    some ({ s with ledger := { s.ledger with timers := s.ledger.timers.erase gen } }.setOp
      (.timer gen) (.probeBody gen))
  else none

/-- The steps of `transitionToClosed` and the goroutine it starts, outside the ledger. -/
def teardownStep (s : Conn F) : Option (Conn F) :=
  match s.teardown with
  | .live => some { s with teardown := .safeClose, atCas := s.pushed.length }
  | .safeClose => some { s with quit := true, teardown := .kickstart }
  | .kickstart =>
      some ({ s with teardown := .kickstarting }.setOp .teardown
        (.kickstartAndClose creditReplenishBatch))
  | .kickstarting =>
      match s.op .teardown with
      | .ret _ => some ({ s with teardown := .waitDrained }.setOp .teardown .idle)
      | _ => none
  | .waitDrained => if s.drained then some { s with teardown := .cleanupQueue } else none
  | .cleanupQueue => some { s with queueDeleted := true, teardown := .discard }
  | .discard =>
      match s.queue with
      | _ :: rest => some { s with queue := rest }
      | [] => some { s with teardown := .deleteConn }
  | .deleteConn => some { s with connDeleted := true, teardown := .sendDisconnect }
  | .sendDisconnect => some { s with disconnectQueued := true, teardown := .done }
  | .done => none

def step (s : Conn F) : Action F → Option (Conn F)
  | .access t => s.access t
  | .enqueueData frame => s.enqueueData frame
  | .push => s.push
  | .loadConn => s.loadConn
  | .enqueued => s.enqueued
  | .dataReady maxMessages => s.dataReady maxMessages
  | .drain => s.drainStep
  | .resumeStream i credits => s.resumeStream i credits
  | .outboundResult i credits => s.outboundResult i credits
  | .handled i => s.returned (.handler i)
  | .fire gen => s.fire gen
  | .fired gen => s.returned (.timer gen)
  | .teardown => s.teardownStep

/-- No thread is in the middle of an operation on the connection. -/
structure Idle (s : Conn F) : Prop where
  op : ∀ t, s.op t = .idle
  producer : s.producer = .idle
  drain : s.drain = .idle

end Conn
end NexusProxy.Client
