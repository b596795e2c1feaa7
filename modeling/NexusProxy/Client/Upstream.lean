import NexusProxy.Client.CreditLedger
import NexusProxy.Hub.BufferedConn
import NexusProxy.Proxy.Frames

/-! The way from the local service of a backend to a client of the relay: `copyLocalToNexus`, the
queue of the connection, `writePump` with the WebSocket, the read pump of the relay, and the
`bufferedConn` of the client. A write to the WebSocket that has failed makes all later ones fail. -/
namespace NexusProxy.Client.Upstream
open Transition
open Hub (BufferedConn.Conn)
open Proxy (Bytes NetConn)

def writeToNexusBufferSize : ℕ := 16 * 1024

/-- Where `copyLocalToNexus` stands. `last` says that the read that returned the data failed. -/
inductive Producer where
  | loop
  | reading
  | getQueue (data : Bytes) (last : Bool)
  | enqueue (data : Bytes) (last : Bool)
  | returned
  deriving DecidableEq

/-- The bytes that have been read and are not in the queue. -/
def Producer.held : Producer → Bytes
  | .getQueue data _ | .enqueue data _ => data
  | _ => []

/-- How many frames it queues before it looks at `quit` again, at most. -/
def Producer.ahead : Producer → ℕ
  | .reading | .getQueue _ _ | .enqueue _ _ => 1
  | _ => 0

/-- Where `drainConnectionQueue` stands. The last five points are the deferred function. -/
inductive Drain where
  | idle
  | getQueue
  | noQueue
  | noQueueClosing
  | loadConn
  | loop (left : ℕ)
  | pull (left : ℕ)
  | write (left : ℕ) (frame : Bytes)
  | isClosing
  | lenQueue
  | latePull
  | lateWrite (frame : Bytes)
  | lateLen
  | closeOnDrained
  deriving DecidableEq

def Drain.inHand : Drain → List Bytes
  | .write _ frame | .lateWrite frame => [frame]
  | _ => []

def Drain.Late : Drain → Prop
  | .lenQueue | .latePull | .lateWrite _ | .lateLen | .closeOnDrained => True
  | _ => False

def Drain.NoQueue : Drain → Prop
  | .noQueue | .noQueueClosing => True
  | _ => False

/-- `transitionToClosed` of an active connection, and the goroutine it starts. -/
inductive Teardown where
  | live
  | safeClose
  | waitDrained
  | cleanupQueue
  | discard
  | deleteConn
  | done
  deriving DecidableEq

def Teardown.Waited : Teardown → Prop
  | .cleanupQueue | .discard | .deleteConn | .done => True
  | _ => False

/-- A connection of the backend. `received`, `pushed`, `sent` and `lost` are history: what the
local service has sent, the frames that went into the queue and onto the WebSocket, and whether one
was taken from the queue and went nowhere. -/
structure Upload where
  conn : NetConn
  producer : Producer
  queue : List Bytes
  drain : Drain
  teardown : Teardown
  quit : Bool
  drained : Bool
  queueDeleted : Bool
  connDeleted : Bool
  received : Bytes
  pushed : List Bytes
  sent : List Bytes
  lost : Bool

/-- `abandon` is a timeout of `enqueueData`, `dataReady` a wakeup of `writePump`; whether a credit
is there is up to `acquired`. `giveUp` ends the wait for `drained` otherwise. -/
inductive UploadAction where
  | checkQuit
  | read
  | lookup
  | push
  | abandon
  | dataReady
  | drain (acquired : Bool)
  | write (ok : Bool)
  | teardown
  | giveUp
  deriving DecidableEq

def UploadAction.fails : UploadAction → Bool
  | .write ok => !ok
  | _ => false

namespace Upload

def new (conn : NetConn) : Upload where
  conn := conn
  producer := .loop
  queue := []
  drain := .idle
  teardown := .live
  quit := false
  drained := false
  queueDeleted := false
  connDeleted := false
  received := []
  pushed := []
  sent := []
  lost := false

/-- The read of `copyLocalToNexus`: data is sent before the error is looked at. -/
def read (u : Upload) : Upload :=
  let ((data, err), conn) := u.conn.read writeToNexusBufferSize
  { u with
    conn := conn
    received := u.received ++ data
    producer :=
      if 0 < data.length then .getQueue data err.isSome
      else if err.isSome then .returned else .loop }

def drainStep (u : Upload) (acquired : Bool) : Option Upload :=
  match u.drain with
  | .getQueue => some { u with drain := if u.queueDeleted then .noQueue else .loadConn }
  | .noQueue => some { u with drain := if u.connDeleted then .idle else .noQueueClosing }
  | .noQueueClosing => some { u with drain := if u.quit then .closeOnDrained else .idle }
  | .loadConn => some { u with drain := if u.connDeleted then .idle else .loop 4 }
  | .loop 0 => some { u with drain := .isClosing }
  | .loop (left + 1) => some { u with drain := if acquired then .pull left else .isClosing }
  | .pull left =>
      match u.queue with
      | frame :: rest => some { u with queue := rest, drain := .write left frame }
      | [] => some { u with drain := .isClosing }
  | .isClosing => some { u with drain := if u.quit then .lenQueue else .idle }
  | .lenQueue => some { u with drain := if u.queue = [] then .latePull else .idle }
  | .latePull =>
      match u.queue with
      | frame :: rest => some { u with queue := rest, drain := .lateWrite frame }
      | [] => some { u with drain := .closeOnDrained }
  | .lateLen => some { u with drain := if u.queue = [] then .closeOnDrained else .idle }
  | .closeOnDrained => some { u with drained := true, drain := .idle }
  | .idle | .write _ _ | .lateWrite _ => none

/-- A write to the WebSocket returns. The deferred function ignores an error. -/
def wrote (u : Upload) (ok : Bool) : Option Upload :=
  let u := { u with
    sent := if ok then u.sent ++ u.drain.inHand else u.sent
    lost := u.lost || !ok }
  match u.drain with
  | .write left _ => some { u with drain := if ok then .loop left else .isClosing }
  | .lateWrite _ => some { u with drain := .lateLen }
  | _ => none

def teardownStep (u : Upload) : Option Upload :=
  match u.teardown with
  | .live => some { u with teardown := .safeClose }
  | .safeClose => some { u with quit := true, teardown := .waitDrained }
  | .waitDrained => if u.drained then some { u with teardown := .cleanupQueue } else none
  | .cleanupQueue => some { u with queueDeleted := true, teardown := .discard }
  | .discard =>
      match u.queue with
      | _ :: rest => some { u with queue := rest, lost := true }
      | [] => some { u with teardown := .deleteConn }
  | .deleteConn => some { u with connDeleted := true, teardown := .done }
  | .done => none

def step (u : Upload) : UploadAction → Option Upload
  | .checkQuit =>
      if u.producer = .loop then
        some { u with producer := if u.quit then .returned else .reading }
      else none
  | .read => if u.producer = .reading then some u.read else none
  | .lookup =>
      match u.producer with
      | .getQueue data last =>
          some { u with producer := if u.queueDeleted then .returned else .enqueue data last }
      | _ => none
  | .push =>
      match u.producer with
      | .enqueue data last =>
          if u.queue.length < queueCapacity then
            some { u with
              queue := u.queue ++ [data]
              pushed := u.pushed ++ [data]
              producer := if last then .returned else .loop }
          else none
      | _ => none
  | .abandon =>
      match u.producer with
      | .enqueue _ _ => some { u with producer := .returned }
      | _ => none
  | .dataReady => if u.drain = .idle then some { u with drain := .getQueue } else none
  | .drain acquired => u.drainStep acquired
  | .write ok => u.wrote ok
  | .teardown => u.teardownStep
  | .giveUp => if u.teardown = .waitDrained then some { u with teardown := .cleanupQueue } else none

/-! ### One connection -/

/-- The frames that can still reach the WebSocket once `quit` is closed. -/
def remaining (u : Upload) : ℕ := u.queue.length + u.drain.inHand.length + u.producer.ahead

/-- Frames leave in the order in which they were read, and after a lost one nothing leaves.
`broken` says that writes to the WebSocket fail. -/
structure Sound (broken : Bool) (u : Upload) : Prop where
  begins : u.pushed.flatten <+: u.received
  reads : u.producer ≠ .returned → u.pushed.flatten ++ u.producer.held = u.received
  flow : u.lost = false → u.sent ++ u.drain.inHand ++ u.queue = u.pushed
  sent : u.sent <+: u.pushed
  lost : u.lost = true → broken = true ∨ u.quit = true ∧ u.remaining = 0
  late : u.drained = true ∨ u.drain.Late → u.quit = true
  empty : u.drained = true ∨ u.drain = .closeOnDrained → broken = true ∨ u.remaining ≤ 1
  waited : u.queueDeleted = true ∨ u.teardown.Waited → broken = true ∨ u.drained = true
  noQueue : u.drain.NoQueue → u.queueDeleted = true

variable {broken : Bool} {u v : Upload}

theorem sound_new (conn : NetConn) : (new conn).Sound false where
  begins := List.prefix_rfl
  reads _ := rfl
  flow _ := rfl
  sent := List.prefix_rfl
  lost h := by cases h
  late h := by rcases h with h | h <;> cases h
  empty h := by rcases h with h | h <;> cases h
  waited h := by rcases h with h | h <;> cases h
  noQueue h := by cases h

theorem Sound.mono (h : u.Sound broken) : u.Sound true where
  begins := h.begins
  reads := h.reads
  flow := h.flow
  sent := h.sent
  lost _ := .inl rfl
  late := h.late
  empty _ := .inl rfl
  waited _ := .inl rfl
  noQueue := h.noQueue

theorem Sound.of_producer (h : u.Sound broken) {conn : NetConn} {producer : Producer}
    {received : Bytes} (hbegins : u.pushed.flatten <+: received)
    (hreads : producer ≠ .returned → u.pushed.flatten ++ producer.held = received)
    (hahead : u.quit = true → producer.ahead ≤ u.producer.ahead) :
    Sound broken { u with conn := conn, producer := producer, received := received } := by
  have hremaining (hquit : u.quit = true) :
      remaining { u with conn := conn, producer := producer, received := received } ≤
        u.remaining :=
    Nat.add_le_add_left (hahead hquit) _
  refine ⟨hbegins, hreads, h.flow, h.sent, fun hlost => ?_, h.late, fun hempty => ?_, h.waited,
    h.noQueue⟩
  · refine (h.lost hlost).imp_right fun ⟨hquit, hzero⟩ => ⟨hquit, ?_⟩
    exact Nat.le_zero.mp (hzero ▸ hremaining hquit)
  · have hquit : u.quit = true := by
      refine h.late (hempty.imp_right fun hdrain => ?_)
      rw [show u.drain = .closeOnDrained from hdrain]
      trivial
    exact (h.empty hempty).imp_right fun hone => (hremaining hquit).trans hone

theorem Sound.read (h : u.Sound broken) (hproducer : u.producer = .reading) :
    u.read.Sound broken := by
  have hreads := h.reads (by rw [hproducer]; simp)
  rw [hproducer] at hreads
  replace hreads : u.pushed.flatten = u.received := (List.append_nil _).symm.trans hreads
  obtain ⟨⟨⟨data, err⟩, conn⟩, hread⟩ : ∃ r, u.conn.read writeToNexusBufferSize = r := ⟨_, rfl⟩
  have hbegins : u.pushed.flatten <+: u.received ++ data := by
    rw [hreads]
    exact List.prefix_append _ _
  unfold Upload.read
  rw [hread]
  refine h.of_producer hbegins (fun _ => ?_) fun _ => ?_
  · rw [hreads]
    split_ifs with hdata
    · rfl
    all_goals
      obtain rfl : data = [] := List.length_eq_zero_iff.mp (by omega)
      rfl
  · rw [hproducer]
    split_ifs <;> simp [Producer.ahead]

theorem Sound.push (h : u.Sound broken) {data : Bytes} {last : Bool}
    (hproducer : u.producer = .enqueue data last) :
    Sound broken { u with
      queue := u.queue ++ [data]
      pushed := u.pushed ++ [data]
      producer := if last then .returned else .loop } := by
  have hreads := h.reads (by rw [hproducer]; simp)
  rw [hproducer, Producer.held] at hreads
  have hpushed : (u.pushed ++ [data]).flatten = u.received := by
    rw [List.flatten_append, List.flatten_singleton, hreads]
  have hone : u.producer.ahead = 1 := by rw [hproducer]; rfl
  have hzero : (if last then Producer.returned else .loop).ahead = 0 := by split_ifs <;> rfl
  have hremaining : remaining { u with
      queue := u.queue ++ [data]
      pushed := u.pushed ++ [data]
      producer := if last then .returned else .loop } = u.remaining := by
    simp only [remaining, hone, hzero, List.length_append, List.length_singleton]
    omega
  refine ⟨hpushed ▸ List.prefix_rfl, fun _ => ?_, fun hlost => ?_, ?_, fun hlost => ?_, h.late,
    fun hempty => ?_, h.waited, h.noQueue⟩
  · rw [hpushed]
    split_ifs <;> exact List.append_nil _
  · rw [← List.append_assoc, h.flow hlost]
  · exact h.sent.trans (List.prefix_append _ _)
  · rw [hremaining]
    exact h.lost hlost
  · rw [hremaining]
    exact h.empty hempty

theorem Sound.of_drain (h : u.Sound broken) {drain : Drain} (hold : u.drain.inHand = [])
    (hnew : drain.inHand = []) (hlate : drain.Late → u.quit = true)
    (hempty : drain = .closeOnDrained → broken = true ∨ u.remaining ≤ 1)
    (hno : drain.NoQueue → u.queueDeleted = true) : Sound broken { u with drain := drain } := by
  have hremaining : remaining { u with drain := drain } = u.remaining := by
    simp only [remaining, hold, hnew]
  refine ⟨h.begins, h.reads, fun hlost => ?_, h.sent, fun hlost => ?_, fun hl => ?_,
    fun hl => ?_, h.waited, hno⟩
  · have hflow := h.flow hlost
    rw [hold] at hflow
    rw [hnew]
    exact hflow
  · rw [hremaining]
    exact h.lost hlost
  · exact hl.elim (fun hdrained => h.late (.inl hdrained)) hlate
  · rw [hremaining]
    exact hl.elim (fun hdrained => h.empty (.inl hdrained)) hempty

theorem Sound.of_pull (h : u.Sound broken) {drain : Drain} {frame : Bytes} {rest : List Bytes}
    (hqueue : u.queue = frame :: rest) (hold : u.drain.inHand = []) (hnew : drain.inHand = [frame])
    (hlate : drain.Late → u.quit = true) :
    Sound broken { u with queue := rest, drain := drain } := by
  have hremaining : remaining { u with queue := rest, drain := drain } = u.remaining := by
    simp only [remaining, hold, hnew, hqueue, List.length_cons, List.length_nil]
  refine ⟨h.begins, h.reads, fun hlost => ?_, h.sent, fun hlost => ?_, fun hl => ?_,
    fun hl => ?_, h.waited, fun hno => ?_⟩
  · have hflow := h.flow hlost
    rw [hold, hqueue, List.append_nil] at hflow
    show u.sent ++ drain.inHand ++ rest = u.pushed
    rw [hnew, List.append_assoc]
    exact hflow
  · rw [hremaining]
    exact h.lost hlost
  · exact hl.elim (fun hdrained => h.late (.inl hdrained)) hlate
  · rw [hremaining]
    refine hl.elim (fun hdrained => h.empty (.inl hdrained)) fun hclose => ?_
    rw [show drain = .closeOnDrained from hclose] at hnew
    cases hnew
  · cases drain <;> cases hno <;> cases hnew

theorem Sound.drains (h : u.Sound broken) {drain : Drain} (hold : u.drain.inHand = [])
    (hnew : drain.inHand = []) (hlate : ¬drain.Late) (hno : ¬drain.NoQueue) :
    Sound broken { u with drain := drain } := by
  refine h.of_drain hold hnew (fun hl => absurd hl hlate) (fun hclose => ?_)
    fun hn => absurd hn hno
  rw [hclose] at hlate
  exact absurd trivial hlate

/-- After `quit` the producer queues one more frame at most. -/
theorem Sound.finds_empty (h : u.Sound broken) (hold : u.drain.inHand = []) (hqueue : u.queue = [])
    (hquit : u.quit = true) : Sound broken { u with drain := .closeOnDrained } := by
  refine h.of_drain hold rfl (fun _ => hquit) (fun _ => .inr ?_) False.elim
  rw [remaining, hold, hqueue]
  cases u.producer <;> simp [Producer.ahead]

theorem Sound.getQueue (h : u.Sound broken) {acquired : Bool} (hdrain : u.drain = .getQueue)
    (hstep : u.drainStep acquired = some v) : v.Sound broken := by
  have hold : u.drain.inHand = [] := by rw [hdrain]; rfl
  rw [Upload.drainStep, hdrain] at hstep
  obtain rfl := Option.some.inj hstep
  split_ifs with hdeleted
  · exact h.of_drain hold rfl False.elim (by simp) fun _ => hdeleted
  · exact h.drains hold rfl id id

theorem Sound.noQueueStep (h : u.Sound broken) {acquired : Bool} (hdrain : u.drain = .noQueue)
    (hstep : u.drainStep acquired = some v) : v.Sound broken := by
  have hold : u.drain.inHand = [] := by rw [hdrain]; rfl
  rw [Upload.drainStep, hdrain] at hstep
  obtain rfl := Option.some.inj hstep
  have hdeleted := h.noQueue (by rw [hdrain]; trivial)
  split_ifs
  · exact h.drains hold rfl id id
  · exact h.of_drain hold rfl False.elim (by simp) fun _ => hdeleted

theorem Sound.noQueueClosing (h : u.Sound broken) {acquired : Bool}
    (hdrain : u.drain = .noQueueClosing) (hstep : u.drainStep acquired = some v) :
    v.Sound broken := by
  have hold : u.drain.inHand = [] := by rw [hdrain]; rfl
  rw [Upload.drainStep, hdrain] at hstep
  obtain rfl := Option.some.inj hstep
  have hdeleted := h.noQueue (by rw [hdrain]; trivial)
  split_ifs with hquit
  · refine h.of_drain hold rfl (fun _ => hquit) (fun _ => ?_) False.elim
    exact (h.waited (.inl hdeleted)).elim .inl fun hdrained => h.empty (.inl hdrained)
  · exact h.drains hold rfl id id

theorem Sound.loop (h : u.Sound broken) {acquired : Bool} {left : ℕ} (hdrain : u.drain = .loop left)
    (hstep : u.drainStep acquired = some v) : v.Sound broken := by
  have hold : u.drain.inHand = [] := by rw [hdrain]; rfl
  rw [Upload.drainStep, hdrain] at hstep
  cases left with
  | zero =>
    obtain rfl := Option.some.inj hstep
    exact h.drains hold rfl id id
  | succ left =>
    obtain rfl := Option.some.inj hstep
    split_ifs <;> exact h.drains hold rfl id id

theorem Sound.pull (h : u.Sound broken) {acquired : Bool} {left : ℕ} (hdrain : u.drain = .pull left)
    (hstep : u.drainStep acquired = some v) : v.Sound broken := by
  have hold : u.drain.inHand = [] := by rw [hdrain]; rfl
  rw [Upload.drainStep, hdrain] at hstep
  dsimp only at hstep
  cases hqueue : u.queue with
  | nil =>
    rw [hqueue] at hstep
    obtain rfl := Option.some.inj hstep
    rw [← hqueue]
    exact h.drains hold rfl id id
  | cons frame rest =>
    rw [hqueue] at hstep
    obtain rfl := Option.some.inj hstep
    exact h.of_pull hqueue hold rfl False.elim

theorem Sound.isClosing (h : u.Sound broken) {acquired : Bool} (hdrain : u.drain = .isClosing)
    (hstep : u.drainStep acquired = some v) : v.Sound broken := by
  have hold : u.drain.inHand = [] := by rw [hdrain]; rfl
  rw [Upload.drainStep, hdrain] at hstep
  obtain rfl := Option.some.inj hstep
  split_ifs with hquit
  · exact h.of_drain hold rfl (fun _ => hquit) (by simp) False.elim
  · exact h.drains hold rfl id id

theorem Sound.lenQueue (h : u.Sound broken) {acquired : Bool} (hdrain : u.drain = .lenQueue)
    (hstep : u.drainStep acquired = some v) : v.Sound broken := by
  have hold : u.drain.inHand = [] := by rw [hdrain]; rfl
  rw [Upload.drainStep, hdrain] at hstep
  obtain rfl := Option.some.inj hstep
  have hquit := h.late (.inr (by rw [hdrain]; trivial))
  split_ifs
  · exact h.of_drain hold rfl (fun _ => hquit) (by simp) False.elim
  · exact h.drains hold rfl id id

theorem Sound.latePull (h : u.Sound broken) {acquired : Bool} (hdrain : u.drain = .latePull)
    (hstep : u.drainStep acquired = some v) : v.Sound broken := by
  have hold : u.drain.inHand = [] := by rw [hdrain]; rfl
  rw [Upload.drainStep, hdrain] at hstep
  have hquit := h.late (.inr (by rw [hdrain]; trivial))
  dsimp only at hstep
  cases hqueue : u.queue with
  | nil =>
    rw [hqueue] at hstep
    obtain rfl := Option.some.inj hstep
    rw [← hqueue]
    exact h.finds_empty hold hqueue hquit
  | cons frame rest =>
    rw [hqueue] at hstep
    obtain rfl := Option.some.inj hstep
    exact h.of_pull hqueue hold rfl fun _ => hquit

theorem Sound.lateLen (h : u.Sound broken) {acquired : Bool} (hdrain : u.drain = .lateLen)
    (hstep : u.drainStep acquired = some v) : v.Sound broken := by
  have hold : u.drain.inHand = [] := by rw [hdrain]; rfl
  rw [Upload.drainStep, hdrain] at hstep
  obtain rfl := Option.some.inj hstep
  have hquit := h.late (.inr (by rw [hdrain]; trivial))
  split_ifs with hqueue
  · exact h.finds_empty hold hqueue hquit
  · exact h.drains hold rfl id id

theorem Sound.closeOnDrained (h : u.Sound broken) {acquired : Bool}
    (hdrain : u.drain = .closeOnDrained) (hstep : u.drainStep acquired = some v) :
    v.Sound broken := by
  rw [Upload.drainStep, hdrain] at hstep
  obtain rfl := Option.some.inj hstep
  have hquit := h.late (.inr (by rw [hdrain]; trivial))
  have hempty := h.empty (.inr hdrain)
  have hidle : Sound broken { u with drain := .idle } :=
    h.drains (by rw [hdrain]; rfl) rfl id id
  refine ⟨hidle.begins, hidle.reads, hidle.flow, hidle.sent, hidle.lost, fun _ => hquit,
    fun _ => ?_, fun _ => .inr rfl, False.elim⟩
  exact hempty.imp_right fun hone => by
    rw [remaining, hdrain] at hone
    exact hone

theorem Sound.drainStep (h : u.Sound broken) {acquired : Bool}
    (hstep : u.drainStep acquired = some v) : v.Sound broken := by
  cases hdrain : u.drain with
  | idle | write | lateWrite =>
    rw [Upload.drainStep, hdrain] at hstep
    cases hstep
  | getQueue => exact h.getQueue hdrain hstep
  | noQueue => exact h.noQueueStep hdrain hstep
  | noQueueClosing => exact h.noQueueClosing hdrain hstep
  | loadConn =>
    rw [Upload.drainStep, hdrain] at hstep
    obtain rfl := Option.some.inj hstep
    split_ifs <;> exact h.drains (by rw [hdrain]; rfl) rfl id id
  | loop => exact h.loop hdrain hstep
  | pull => exact h.pull hdrain hstep
  | isClosing => exact h.isClosing hdrain hstep
  | lenQueue => exact h.lenQueue hdrain hstep
  | latePull => exact h.latePull hdrain hstep
  | lateLen => exact h.lateLen hdrain hstep
  | closeOnDrained => exact h.closeOnDrained hdrain hstep

theorem Sound.wrote (h : u.Sound broken) {ok : Bool} (hok : ok = true → broken = false)
    (hstep : u.wrote ok = some v) : v.Sound (broken || !ok) := by
  have hwritten {drain : Drain} {frame : Bytes} (hold : u.drain.inHand = [frame])
      (hnew : drain.inHand = []) (hlate : drain.Late → u.quit = true)
      (hclose : drain ≠ .closeOnDrained) (hno : ¬drain.NoQueue) :
      Sound (broken || !ok) { u with
        sent := if ok then u.sent ++ u.drain.inHand else u.sent
        lost := u.lost || !ok
        drain := drain } := by
    cases ok with
    | false =>
      rw [Bool.not_false, Bool.or_true, Bool.or_true]
      refine ⟨h.begins, h.reads, fun hlost => (by cases hlost), h.sent, fun _ => .inl rfl,
        fun hl => ?_, fun _ => .inl rfl, fun _ => .inl rfl, fun hn => absurd hn hno⟩
      exact hl.elim (fun hdrained => h.late (.inl hdrained)) hlate
    | true =>
      obtain rfl := hok rfl
      -- nothing can have been lost, since a frame is in hand
      have hlost : u.lost = false := by
        refine Bool.eq_false_iff.mpr fun hlost => ?_
        rcases h.lost hlost with hbroken | ⟨-, hzero⟩
        · cases hbroken
        · rw [remaining, hold] at hzero
          simp at hzero
      have hflow := h.flow hlost
      rw [hold] at hflow
      have hremaining : remaining { u with sent := u.sent ++ [frame], drain := drain } ≤
          u.remaining := by
        simp only [remaining, hold, hnew, List.length_singleton, List.length_nil]
        omega
      rw [Bool.not_true, Bool.or_false, Bool.or_false, if_pos rfl, hold]
      refine ⟨h.begins, h.reads, fun _ => ?_, ?_, fun hl => ?_, fun hl => ?_, fun hl => ?_,
        h.waited, fun hn => absurd hn hno⟩
      · show u.sent ++ [frame] ++ drain.inHand ++ u.queue = u.pushed
        rw [hnew, List.append_nil]
        exact hflow
      · exact hflow ▸ List.prefix_append _ _
      · rw [show u.lost = true from hl] at hlost
        cases hlost
      · exact hl.elim (fun hdrained => h.late (.inl hdrained)) hlate
      · have hdrained := hl.resolve_right hclose
        exact (h.empty (.inl hdrained)).imp_right fun hone => hremaining.trans hone
  unfold Upload.wrote at hstep
  dsimp only at hstep
  cases hdrain : u.drain with
  | write left frame =>
    rw [hdrain] at hstep
    obtain rfl := Option.some.inj hstep
    rw [← hdrain]
    refine hwritten (by rw [hdrain]; rfl) ?_ (fun hl => ?_) ?_ fun hn => ?_
    all_goals split_ifs at *
    all_goals first | rfl | cases hl | cases hn | simp
  | lateWrite frame =>
    rw [hdrain] at hstep
    obtain rfl := Option.some.inj hstep
    rw [← hdrain]
    have hquit := h.late (.inr (by rw [hdrain]; trivial))
    exact hwritten (by rw [hdrain]; rfl) rfl (fun _ => hquit) (by simp) id
  | _ =>
    rw [hdrain] at hstep
    cases hstep

/-- The wait for `drained` ends, after the queue was empty or when nothing gets through anyway. -/
theorem Sound.waits (h : u.Sound broken) (hwaited : broken = true ∨ u.drained = true) :
    Sound broken { u with teardown := .cleanupQueue } :=
  ⟨h.begins, h.reads, h.flow, h.sent, h.lost, h.late, h.empty, fun _ => hwaited, h.noQueue⟩

theorem Sound.discards (h : u.Sound broken) {frame : Bytes} {rest : List Bytes}
    (hqueue : u.queue = frame :: rest) (hwaited : u.teardown.Waited) :
    Sound broken { u with queue := rest, lost := true } := by
  have hremaining : remaining { u with queue := rest, lost := true } + 1 = u.remaining := by
    simp only [remaining, hqueue, List.length_cons]
    omega
  refine ⟨h.begins, h.reads, fun hlost => (by cases hlost), h.sent, fun _ => ?_, h.late,
    fun hl => ?_, h.waited, h.noQueue⟩
  · rcases h.waited (.inr hwaited) with hbroken | hdrained
    · exact .inl hbroken
    · refine (h.empty (.inl hdrained)).imp_right fun hone => ⟨h.late (.inl hdrained), ?_⟩
      omega
  · exact (h.empty hl).imp_right fun hone => by omega

theorem Sound.teardownStep (h : u.Sound broken) (hstep : u.teardownStep = some v) :
    v.Sound broken := by
  unfold Upload.teardownStep at hstep
  cases hteardown : u.teardown with
  | live =>
    rw [hteardown] at hstep
    obtain rfl := Option.some.inj hstep
    exact ⟨h.begins, h.reads, h.flow, h.sent, h.lost, h.late, h.empty,
      fun hl => h.waited (hl.imp_right False.elim), h.noQueue⟩
  | safeClose =>
    rw [hteardown] at hstep
    obtain rfl := Option.some.inj hstep
    exact ⟨h.begins, h.reads, h.flow, h.sent,
      fun hl => (h.lost hl).imp_right fun hzero => ⟨rfl, hzero.2⟩, fun _ => rfl, h.empty,
      fun hl => h.waited (hl.imp_right False.elim), h.noQueue⟩
  | waitDrained =>
    rw [hteardown] at hstep
    dsimp only at hstep
    split_ifs at hstep with hdrained
    obtain rfl := Option.some.inj hstep
    exact h.waits (.inr hdrained)
  | cleanupQueue =>
    rw [hteardown] at hstep
    obtain rfl := Option.some.inj hstep
    have hwaited := h.waited (.inr (by rw [hteardown]; trivial))
    exact ⟨h.begins, h.reads, h.flow, h.sent, h.lost, h.late, h.empty, fun _ => hwaited,
      fun _ => rfl⟩
  | discard =>
    rw [hteardown] at hstep
    have hwaited : u.teardown.Waited := by rw [hteardown]; trivial
    dsimp only at hstep
    split at hstep
    · rename_i frame rest hqueue
      obtain rfl := Option.some.inj hstep
      rw [← hteardown]
      exact h.discards hqueue hwaited
    · obtain rfl := Option.some.inj hstep
      exact ⟨h.begins, h.reads, h.flow, h.sent, h.lost, h.late, h.empty,
        fun _ => h.waited (.inr hwaited), h.noQueue⟩
  | deleteConn =>
    rw [hteardown] at hstep
    obtain rfl := Option.some.inj hstep
    have hwaited := h.waited (.inr (by rw [hteardown]; trivial))
    exact ⟨h.begins, h.reads, h.flow, h.sent, h.lost, h.late, h.empty, fun _ => hwaited,
      h.noQueue⟩
  | done =>
    rw [hteardown] at hstep
    cases hstep

theorem Sound.step (h : u.Sound broken) {a : UploadAction} (hok : a = .write true → broken = false)
    (hgiveUp : a = .giveUp → broken = true) (hstep : u.step a = some v) :
    v.Sound (broken || a.fails) := by
  have hor : (broken || false) = broken := Bool.or_false _
  cases a with
  | checkQuit =>
    obtain ⟨hproducer, rfl⟩ := guarded hstep
    have hreads := h.reads (by rw [hproducer]; simp)
    rw [hproducer] at hreads
    refine hor.symm ▸ h.of_producer h.begins (fun _ => ?_) fun hquit => ?_
    · split_ifs <;> exact hreads
    · rw [if_pos hquit]
      exact Nat.zero_le _
  | read =>
    obtain ⟨hproducer, rfl⟩ := guarded hstep
    exact hor.symm ▸ h.read hproducer
  | lookup =>
    simp only [Upload.step] at hstep
    split at hstep
    · rename_i data last hproducer
      obtain rfl := Option.some.inj hstep
      have hreads := h.reads (by rw [hproducer]; simp)
      rw [hproducer] at hreads
      refine hor.symm ▸ h.of_producer h.begins (fun hreturned => ?_) fun _ => ?_
      · split_ifs at hreturned ⊢ with hdeleted
        · exact absurd rfl hreturned
        · exact hreads
      · rw [hproducer]
        split_ifs <;> simp [Producer.ahead]
    · cases hstep
  | push =>
    simp only [Upload.step] at hstep
    split at hstep
    · rename_i data last hproducer
      obtain ⟨-, rfl⟩ := guarded hstep
      exact hor.symm ▸ h.push hproducer
    · cases hstep
  | abandon =>
    simp only [Upload.step] at hstep
    split at hstep
    · obtain rfl := Option.some.inj hstep
      exact hor.symm ▸ h.of_producer h.begins (fun hreturned => absurd rfl hreturned)
        fun _ => Nat.zero_le _
    · cases hstep
  | dataReady =>
    obtain ⟨hdrain, rfl⟩ := guarded hstep
    exact hor.symm ▸ h.of_drain (by rw [hdrain]; rfl) rfl False.elim (by simp) False.elim
  | drain acquired => exact hor.symm ▸ h.drainStep hstep
  | write ok =>
    have hwrote := h.wrote (fun hwrite => hok (by rw [hwrite])) hstep
    cases ok <;> exact hwrote
  | teardown => exact hor.symm ▸ h.teardownStep hstep
  | giveUp =>
    obtain ⟨-, rfl⟩ := guarded hstep
    exact hor.symm ▸ h.waits (.inl (hgiveUp rfl))

def emits (u : Upload) : UploadAction → List Bytes
  | .write true => u.drain.inHand
  | _ => []

theorem step_sent {a : UploadAction} (hstep : u.step a = some v) :
    v.sent = u.sent ++ u.emits a := by
  cases a with
  | write ok =>
    simp only [Upload.step, Upload.wrote] at hstep
    split at hstep
    all_goals cases hstep
    all_goals cases ok <;> simp [emits]
  | _ =>
    simp only [Upload.step, Upload.drainStep, Upload.teardownStep, Upload.read] at hstep
    repeat' split at hstep
    all_goals cases hstep
    all_goals exact (List.append_nil _).symm

end Upload

/-! ### The session -/

/-- A client of the relay. `stored` says whether it is in the map. -/
structure RelayClient where
  stored : Bool
  conn : Hub.BufferedConn.Conn

variable {Id : Type*} [DecidableEq Id]

/-- A session: the connections of the backend, what was written to the WebSocket, how much of it the
relay has read, and the clients of the relay. While the read pump is in `bufferedConn.Write`,
`pumping` says for which client. -/
structure System (Id : Type*) where
  uploads : Id → Option Upload
  broken : Bool
  wire : List (Id × Bytes)
  read : ℕ
  pumping : Option Id
  clients : Id → Option RelayClient

def System.start : System Id := ⟨fun _ => none, false, [], 0, none, fun _ => none⟩

/-- `endSession` is the end of `writePump`, `removeClient` any other removal of a client; `client`
is a step of its `drain` goroutine or of one that closes it. -/
inductive Action (Id : Type*) where
  | connect (id : Id) (conn : NetConn)
  | upload (id : Id) (a : UploadAction)
  | endSession
  | addClient (id : Id) (gated replenishes : Bool)
  | readMessage
  | enqueue
  | refuse
  | removeClient (id : Id)
  | client (id : Id) (a : Hub.BufferedConn.Action)

/-- The steps of `bufferedConn.Write`, which is called by the read pump. -/
def isWrite : Hub.BufferedConn.Action → Bool
  | .check _ | .enqueue _ | .refuse _ => true
  | _ => false

/-- `handleBinaryMessage` with a data frame, up to the second select of `bufferedConn.Write`. A
client that is not in the map is ignored; one that is closed is removed. -/
def System.handle (s : System Id) (id : Id) (data : Bytes) : System Id :=
  match s.clients id with
  | none => s
  | some c =>
      if c.stored then
        if c.conn.quit then
          { s with clients := Function.update s.clients id (some { c with stored := false }) }
        else
          let conn := { c.conn with callers := c.conn.callers ++ [data] }
          { s with
            pumping := some id
            clients := Function.update s.clients id (some { c with conn := conn }) }
      else s

def step (s : System Id) : Action Id → Option (System Id)
  | .connect id conn =>
      if s.uploads id = none then
        some { s with uploads := Function.update s.uploads id (some (.new conn)) }
      else none
  | .upload id a =>
      (s.uploads id).bind fun u => (u.step a).bind fun v =>
        if a = .write true ∧ s.broken = true then none
        else some { s with
          uploads := Function.update s.uploads id (some v)
          broken := s.broken || a.fails
          wire := s.wire ++ (u.emits a).map (id, ·) }
  | .endSession => some { s with broken := true }
  | .addClient id gated replenishes =>
      if s.clients id = none then
        let c : RelayClient := ⟨true, .newBufferedConn gated replenishes⟩
        some { s with clients := Function.update s.clients id (some c) }
      else none
  | .readMessage =>
      match s.pumping, s.wire[s.read]? with
      | none, some (id, data) => some { s.handle id data with read := s.read + 1 }
      | _, _ => none
  | .enqueue =>
      s.pumping.bind fun id => (s.clients id).bind fun c => (c.conn.enqueue 0).map fun conn =>
        { s with
          pumping := none
          clients := Function.update s.clients id (some { c with conn := conn }) }
  | .refuse =>
      s.pumping.bind fun id => (s.clients id).bind fun c => (c.conn.refuse 0).map fun conn =>
        { s with
          pumping := none
          clients := Function.update s.clients id (some ⟨false, conn⟩) }
  | .removeClient id =>
      (s.clients id).map fun c =>
        { s with clients := Function.update s.clients id (some { c with stored := false }) }
  | .client id a =>
      if isWrite a then none
      else (s.clients id).bind fun c => (c.conn.step a).map fun conn =>
        { s with clients := Function.update s.clients id (some { c with conn := conn }) }

/-- The wait for `drained` is not cut short while the session lives, a client is in the map before
the read pump gets to its first frame, and `flushRemaining` does not write after a failed write. -/
def Timely (s : System Id) : Action Id → Prop
  | .upload _ a => a = .giveUp → s.broken = true
  | .addClient id _ _ => ∀ m ∈ s.wire.take s.read, m.1 ≠ id
  | .client id a => ∀ c ∈ s.clients id, c.conn.FlushesWhole a
  | _ => True

instance decidableTimely (s : System Id) (a : Action Id) : Decidable (Timely s a) :=
  match a with
  | .upload _ a => inferInstanceAs (Decidable (a = .giveUp → s.broken = true))
  | .addClient id _ _ => inferInstanceAs (Decidable (∀ m ∈ s.wire.take s.read, m.1 ≠ id))
  | .client id a => inferInstanceAs (Decidable (∀ c ∈ s.clients id, c.conn.FlushesWhole a))
  | .connect _ _ | .endSession | .readMessage | .enqueue | .refuse | .removeClient _ =>
      inferInstanceAs (Decidable True)

def framesFor (id : Id) (wire : List (Id × Bytes)) : List Bytes :=
  wire.filterMap fun m => if m.1 = id then some m.2 else none

/-- A client in the map has been given every frame that was read for its id; one that is no longer
there, the first of them. -/
structure Receives (c : RelayClient) (frames : List Bytes) : Prop where
  inOrder : c.conn.InOrder
  stored : c.stored = true → c.conn.accepted ++ c.conn.callers = frames
  begins : c.conn.accepted ++ c.conn.callers <+: frames

structure Sound (s : System Id) : Prop where
  read : s.read ≤ s.wire.length
  uploads : ∀ id, ∀ u ∈ s.uploads id, u.Sound s.broken
  wire : ∀ id, framesFor id s.wire = (s.uploads id).elim [] Upload.sent
  clients : ∀ id, ∀ c ∈ s.clients id, Receives c (framesFor id (s.wire.take s.read))
  pumping : ∀ id, ∀ c ∈ s.clients id,
    c.conn.callers.length ≤ if s.pumping = some id then 1 else 0

variable {s t : System Id}

theorem sound_start : Sound (.start : System Id) where
  read := le_rfl
  uploads _ _ hu := by cases hu
  wire _ := rfl
  clients _ _ hc := by cases hc
  pumping _ _ hc := by cases hc

theorem framesFor_append (id : Id) (wire more : List (Id × Bytes)) :
    framesFor id (wire ++ more) = framesFor id wire ++ framesFor id more :=
  List.filterMap_append

theorem framesFor_self (id : Id) (frames : List Bytes) :
    framesFor id (frames.map (id, ·)) = frames := by
  induction frames with
  | nil => rfl
  | cons frame frames ih =>
    have hhead : framesFor id [(id, frame)] = [frame] := by simp [framesFor]
    rw [List.map_cons, ← List.singleton_append, framesFor_append, ih, hhead, List.singleton_append]

theorem framesFor_of_ne {id id' : Id} (hid : id ≠ id') (frames : List Bytes) :
    framesFor id' (frames.map (id, ·)) = [] := by
  refine List.filterMap_eq_nil_iff.mpr fun m hm => if_neg ?_
  obtain ⟨frame, -, rfl⟩ := List.mem_map.mp hm
  exact hid

theorem client_step_accepted {c d : Hub.BufferedConn.Conn} {a : Hub.BufferedConn.Action}
    (ha : isWrite a = false) (hstep : c.step a = some d) :
    d.accepted = c.accepted ∧ d.callers = c.callers := by
  have hafter (c : Hub.BufferedConn.Conn) (data : Bytes) (now : ℤ) (a : Hub.BufferedConn.Attempt)
      (ok : Bool) : (c.afterWrite data now a ok).callers = c.callers := by
    unfold Hub.BufferedConn.Conn.afterWrite Hub.BufferedConn.Conn.record
    split
    · split_ifs <;> rfl
    · split_ifs <;> rfl
    · rfl
  cases Hub.BufferedConn.Conn.stepped hstep with
  | check | enqueue | refuse => cases ha
  | wrote | cut =>
    exact ⟨(Hub.BufferedConn.Conn.afterWrite_eq _ _ _ _ _).2.1, hafter _ _ _ _ _⟩
  | _ => exact ⟨rfl, rfl⟩

theorem Sound.handle (h : Sound s) {id : Id} {data : Bytes} (hidle : s.pumping = none)
    (hm : s.wire[s.read]? = some (id, data)) :
    Sound { s.handle id data with read := s.read + 1 } := by
  have hread : s.read + 1 ≤ s.wire.length := (List.getElem?_eq_some_iff.mp hm).1
  have htake : s.wire.take (s.read + 1) = s.wire.take s.read ++ [(id, data)] := by
    rw [List.take_add_one, hm]
    rfl
  have hdata : [(id, data)] = [data].map (id, ·) := rfl
  have hthis : framesFor id (s.wire.take (s.read + 1)) =
      framesFor id (s.wire.take s.read) ++ [data] := by
    rw [htake, framesFor_append, hdata, framesFor_self]
  have hother (id' : Id) (hid : id ≠ id') : framesFor id' (s.wire.take (s.read + 1)) =
      framesFor id' (s.wire.take s.read) := by
    rw [htake, framesFor_append, hdata, framesFor_of_ne hid, List.append_nil]
  have hcallers (c : RelayClient) (hc : s.clients id = some c) : c.conn.callers = [] := by
    have hpumping := h.pumping id c hc
    rw [hidle, if_neg (by simp)] at hpumping
    exact List.length_eq_zero_iff.mp (Nat.le_zero.mp hpumping)
  have hdropped {clients : Id → Option RelayClient}
      (hsame : ∀ id' ≠ id, clients id' = s.clients id')
      (hgone : ∀ c ∈ clients id, c.stored = false ∧ ∃ c' ∈ s.clients id, c'.conn = c.conn) :
      Sound { s with clients := clients, read := s.read + 1 } := by
    refine ⟨hread, h.uploads, h.wire, fun id' c hc => ?_, fun id' c hc => ?_⟩
    · by_cases hid : id' = id
      · subst hid
        obtain ⟨hstored, c', hc', hconn⟩ := hgone c hc
        have hreceives := h.clients id' c' hc'
        refine ⟨hconn ▸ hreceives.inOrder, fun hc => ?_, ?_⟩
        · rw [hstored] at hc
          cases hc
        · show c.conn.accepted ++ c.conn.callers <+: framesFor id' (s.wire.take (s.read + 1))
          rw [hthis, ← hconn]
          exact hreceives.begins.trans (List.prefix_append _ _)
      · show Receives c (framesFor id' (s.wire.take (s.read + 1)))
        rw [hother id' (Ne.symm hid)]
        exact h.clients id' c (hsame id' hid ▸ hc)
    · by_cases hid : id' = id
      · subst hid
        obtain ⟨-, c', hc', hconn⟩ := hgone c hc
        exact hconn ▸ h.pumping id' c' hc'
      · exact h.pumping id' c (hsame id' hid ▸ hc)
  unfold System.handle
  cases hc : s.clients id with
  | none => exact hdropped (fun _ _ => rfl) fun c hc' => by rw [hc] at hc'; cases hc'
  | some c =>
    have hreceives := h.clients id c hc
    dsimp only
    split_ifs with hstored hquit
    · refine hdropped (fun id' hid => Function.update_of_ne hid _ _) fun c' hc' => ?_
      replace hc' : Function.update s.clients id _ id = some c' := hc'
      rw [Function.update_self] at hc'
      obtain rfl := Option.some.inj hc'
      exact ⟨rfl, c, hc, rfl⟩
    · have hall : c.conn.accepted ++ (c.conn.callers ++ [data]) =
          framesFor id (s.wire.take (s.read + 1)) := by
        rw [hthis, ← hreceives.stored hstored, List.append_assoc]
      refine ⟨hread, h.uploads, h.wire, ?_, ?_⟩
      · refine (Function.forall_update_iff s.clients fun id' o => ∀ c' ∈ o,
          Receives c' (framesFor id' (s.wire.take (s.read + 1)))).mpr ⟨?_, fun id' hid c' hc' => ?_⟩
        · rintro _ ⟨⟩
          exact ⟨⟨hreceives.inOrder.whole, hreceives.inOrder.rest, hreceives.inOrder.begins⟩,
            fun _ => hall, hall ▸ List.prefix_rfl⟩
        · rw [hother id' (Ne.symm hid)]
          exact h.clients id' c' hc'
      · refine (Function.forall_update_iff s.clients fun id' o => ∀ c' ∈ o,
          c'.conn.callers.length ≤ if some id = some id' then 1 else 0).mpr
            ⟨?_, fun id' hid c' hc' => ?_⟩
        · rintro _ ⟨⟩
          rw [if_pos rfl]
          simp [hcallers c hc]
        · have hpumping := h.pumping id' c' hc'
          rw [hidle, if_neg (by simp)] at hpumping
          exact hpumping.trans (Nat.zero_le _)
    · refine hdropped (fun _ _ => rfl) fun c' hc' => ⟨?_, c', hc', rfl⟩
      rw [hc] at hc'
      obtain rfl := Option.some.inj hc'
      simpa using hstored

theorem Sound.set_client (h : Sound s) {id : Id} {c : RelayClient} {pumping : Option Id}
    (hreceives : Receives c (framesFor id (s.wire.take s.read)))
    (hcallers : c.conn.callers.length ≤ if pumping = some id then 1 else 0)
    (hpumping : ∀ id' ≠ id, s.pumping = some id' → pumping = some id') :
    Sound { s with pumping := pumping, clients := Function.update s.clients id (some c) } := by
  refine ⟨h.read, h.uploads, h.wire, ?_, ?_⟩
  · refine (Function.forall_update_iff s.clients fun id' o => ∀ c' ∈ o,
      Receives c' (framesFor id' (s.wire.take s.read))).mpr ⟨?_, fun id' _ => h.clients id'⟩
    rintro _ ⟨⟩
    exact hreceives
  · refine (Function.forall_update_iff s.clients fun id' o => ∀ c' ∈ o,
      c'.conn.callers.length ≤ if pumping = some id' then 1 else 0).mpr
        ⟨?_, fun id' hid c' hc' => ?_⟩
    · rintro _ ⟨⟩
      exact hcallers
    · refine (h.pumping id' c' hc').trans ?_
      split_ifs with hold hnew
      · exact le_rfl
      · exact absurd (hpumping id' hid hold) hnew
      · exact Nat.zero_le _
      · exact le_rfl

theorem Sound.upload (h : Sound s) {id : Id} {a : UploadAction} {u v : Upload}
    (hgiveUp : a = .giveUp → s.broken = true) (hu : s.uploads id = some u)
    (hstep : u.step a = some v) (hok : ¬(a = .write true ∧ s.broken = true)) :
    Sound { s with
      uploads := Function.update s.uploads id (some v)
      broken := s.broken || a.fails
      wire := s.wire ++ (u.emits a).map (id, ·) } := by
  have hbroken (w : Upload) (hw : w.Sound s.broken) : w.Sound (s.broken || a.fails) := by
    cases a.fails with
    | false => exact (Bool.or_false _).symm ▸ hw
    | true => exact (Bool.or_true _).symm ▸ hw.mono
  have hsound : v.Sound (s.broken || a.fails) :=
    (h.uploads id u hu).step (fun hwrite => by simpa [hwrite] using hok) hgiveUp hstep
  have htake : (s.wire ++ (u.emits a).map (id, ·)).take s.read = s.wire.take s.read :=
    List.take_append_of_le_length h.read
  refine ⟨h.read.trans (by simp), ?_, ?_, fun id' c hc => ?_, h.pumping⟩
  · refine (Function.forall_update_iff s.uploads fun _ o => ∀ w ∈ o,
      w.Sound (s.broken || a.fails)).mpr ⟨?_, fun id' _ w hw => hbroken w (h.uploads id' w hw)⟩
    rintro _ ⟨⟩
    exact hsound
  · refine (Function.forall_update_iff s.uploads fun id' o =>
      framesFor id' (s.wire ++ (u.emits a).map (id, ·)) = o.elim [] Upload.sent).mpr
        ⟨?_, fun id' hid => ?_⟩
    · rw [framesFor_append, framesFor_self, h.wire id, hu]
      exact (Upload.step_sent hstep).symm
    · rw [framesFor_append, framesFor_of_ne (Ne.symm hid), List.append_nil]
      exact h.wire id'
  · show Receives c (framesFor id' ((s.wire ++ _).take s.read))
    rw [htake]
    exact h.clients id' c hc

/-- The read pump is the only caller of `Write`. -/
theorem Sound.caller (h : Sound s) {id : Id} {c : RelayClient} {data : Bytes}
    (hpumping : s.pumping = some id) (hc : s.clients id = some c)
    (hdata : c.conn.callers[0]? = some data) : c.conn.callers = [data] := by
  have hone := h.pumping id c hc
  rw [if_pos hpumping] at hone
  cases hcallers : c.conn.callers with
  | nil =>
    rw [hcallers] at hdata
    cases hdata
  | cons first rest =>
    rw [hcallers] at hdata hone
    obtain rfl : first = data := Option.some.inj hdata
    obtain rfl : rest = [] := List.length_eq_zero_iff.mp (by simpa using hone)
    rfl

theorem Sound.step {a : Action Id} (h : Sound s) (htimely : Timely s a)
    (hstep : Upstream.step s a = some t) : Sound t := by
  cases a with
  | connect id conn =>
    obtain ⟨hnew, rfl⟩ := guarded hstep
    refine ⟨h.read, ?_, ?_, h.clients, h.pumping⟩
    · refine (Function.forall_update_iff s.uploads fun _ o => ∀ w ∈ o, w.Sound s.broken).mpr
        ⟨?_, fun id' _ => h.uploads id'⟩
      rintro _ ⟨⟩
      cases s.broken with
      | false => exact Upload.sound_new conn
      | true => exact (Upload.sound_new conn).mono
    · refine (Function.forall_update_iff s.uploads fun id' o =>
        framesFor id' s.wire = o.elim [] Upload.sent).mpr ⟨?_, fun id' _ => h.wire id'⟩
      rw [h.wire id, hnew]
      rfl
  | upload id a =>
    obtain ⟨u, hu, hstep⟩ := Option.bind_eq_some_iff.mp hstep
    obtain ⟨v, hv, hstep⟩ := Option.bind_eq_some_iff.mp hstep
    obtain ⟨hok, hstep⟩ := Option.ite_none_left_eq_some.mp hstep
    obtain rfl := Option.some.inj hstep
    exact h.upload htimely hu hv hok
  | endSession =>
    obtain rfl := Option.some.inj hstep
    exact ⟨h.read, fun id u hu => (h.uploads id u hu).mono, h.wire, h.clients, h.pumping⟩
  | addClient id gated replenishes =>
    obtain ⟨hnew, rfl⟩ := guarded hstep
    refine h.set_client ?_ (Nat.zero_le _) fun _ _ hp => hp
    have hnone : framesFor id (s.wire.take s.read) = [] :=
      List.filterMap_eq_nil_iff.mpr fun m hm => if_neg (htimely m hm)
    rw [hnone]
    exact ⟨Hub.BufferedConn.Conn.newBufferedConn_inOrder gated replenishes, fun _ => rfl,
      List.prefix_rfl⟩
  | readMessage =>
    rw [Upstream.step] at hstep
    split at hstep
    · rename_i id data hidle hm
      obtain rfl := Option.some.inj hstep
      exact h.handle hidle hm
    · cases hstep
  | enqueue =>
    obtain ⟨id, hpumping, hstep⟩ := Option.bind_eq_some_iff.mp hstep
    obtain ⟨c, hc, hstep⟩ := Option.bind_eq_some_iff.mp hstep
    obtain ⟨conn, hconn, rfl⟩ := Option.map_eq_some_iff.mp hstep
    have hreceives := h.clients id c hc
    have hinOrder : conn.InOrder :=
      hreceives.inOrder.step (show c.conn.FlushesWhole (.enqueue 0) from trivial) hconn
    obtain ⟨data, hdata, hconn⟩ := Option.bind_eq_some_iff.mp hconn
    obtain ⟨-, hconn⟩ := Option.ite_none_right_eq_some.mp hconn
    obtain rfl := Option.some.inj hconn
    have hcallers := h.caller hpumping hc hdata
    have hmoved : c.conn.accepted ++ [data] ++ c.conn.callers.eraseIdx 0 =
        c.conn.accepted ++ c.conn.callers := by
      rw [hcallers, List.eraseIdx_zero, List.tail_cons, List.append_nil]
    refine h.set_client ⟨hinOrder, fun hstored => ?_, ?_⟩ ?_ fun id' hid hp => ?_
    · exact hmoved.trans (hreceives.stored hstored)
    · exact hmoved ▸ hreceives.begins
    · simp [hcallers]
    · rw [hpumping] at hp
      exact absurd (Option.some.inj hp).symm hid
  | refuse =>
    obtain ⟨id, hpumping, hstep⟩ := Option.bind_eq_some_iff.mp hstep
    obtain ⟨c, hc, hstep⟩ := Option.bind_eq_some_iff.mp hstep
    obtain ⟨conn, hconn, rfl⟩ := Option.map_eq_some_iff.mp hstep
    have hreceives := h.clients id c hc
    have hinOrder : conn.InOrder :=
      hreceives.inOrder.step (show c.conn.FlushesWhole (.refuse 0) from trivial) hconn
    obtain ⟨data, hdata, hconn⟩ := Option.bind_eq_some_iff.mp hconn
    obtain ⟨-, hconn⟩ := Option.ite_none_right_eq_some.mp hconn
    obtain rfl := Option.some.inj hconn
    have hcallers := h.caller hpumping hc hdata
    refine h.set_client ⟨hinOrder, fun hstored => (by cases hstored), ?_⟩ ?_ fun id' hid hp => ?_
    · rw [hcallers, List.eraseIdx_zero, List.tail_cons, List.append_nil]
      exact (List.prefix_append _ _).trans hreceives.begins
    · simp [hcallers]
    · rw [hpumping] at hp
      exact absurd (Option.some.inj hp).symm hid
  | removeClient id =>
    obtain ⟨c, hc, rfl⟩ := Option.map_eq_some_iff.mp hstep
    have hreceives := h.clients id c hc
    exact h.set_client ⟨hreceives.inOrder, fun hs => (by cases hs), hreceives.begins⟩
      (h.pumping id c hc) fun _ _ hp => hp
  | client id a =>
    obtain ⟨ha, hstep⟩ := Option.ite_none_left_eq_some.mp hstep
    obtain ⟨c, hc, hstep⟩ := Option.bind_eq_some_iff.mp hstep
    obtain ⟨conn, hconn, rfl⟩ := Option.map_eq_some_iff.mp hstep
    obtain ⟨haccepted, hcallers⟩ := client_step_accepted (by simpa using ha) hconn
    have hreceives := h.clients id c hc
    refine h.set_client ⟨hreceives.inOrder.step (htimely c hc) hconn, ?_, ?_⟩ ?_ fun _ _ hp => hp
    · rw [haccepted, hcallers]
      exact hreceives.stored
    · rw [haccepted, hcallers]
      exact hreceives.begins
    · rw [hcallers]
      exact h.pumping id c hc

/-- The bytes that a client of the relay is given are the beginning of what the local service has
sent on its connection, whatever the interleaving and whatever fails. -/
theorem service_stream_reaches_client {actions : List (Action Id)}
    (htimely : Along step Timely .start actions) (hrun : run step .start actions = some s) {id : Id}
    {u : Upload} {c : RelayClient} (hu : s.uploads id = some u) (hc : s.clients id = some c) :
    c.conn.written <+: u.received := by
  have h : Sound s := invariant_along (fun _ _ _ hI hG hs => hI.step hG hs) sound_start htimely hrun
  have hflatten {as bs : List Bytes} (hab : as <+: bs) : as.flatten <+: bs.flatten := by
    obtain ⟨rest, rfl⟩ := hab
    rw [List.flatten_append]
    exact List.prefix_append _ _
  have hreceives := h.clients id c hc
  have hsound := h.uploads id u hu
  calc c.conn.written
      <+: c.conn.accepted.flatten := hreceives.inOrder.begins
    _ <+: (framesFor id (s.wire.take s.read)).flatten :=
        hflatten ((List.prefix_append _ _).trans hreceives.begins)
    _ <+: (framesFor id s.wire).flatten :=
        hflatten ((List.take_prefix s.read s.wire).filterMap _)
    _ = u.sent.flatten := by
        rw [h.wire id, hu]
        rfl
    _ <+: u.pushed.flatten := hflatten hsound.sent
    _ <+: u.received := hsound.begins

/-- The service sends two pieces; `writePump` takes both in one turn, and the second write to the
client stops after a byte. -/
def brokenClient : List (Action ℕ) :=
  [.connect 0 (.tcp [.data [1, 2], .data [3, 4]]), .addClient 0 false true, .upload 0 .checkQuit,
    .upload 0 .read, .upload 0 .lookup, .upload 0 .push, .upload 0 .checkQuit, .upload 0 .read,
    .upload 0 .dataReady, .upload 0 (.drain true), .upload 0 (.drain true), .upload 0 (.drain true),
    .upload 0 .lookup, .upload 0 (.drain true), .upload 0 .push, .upload 0 (.write true),
    .readMessage, .upload 0 (.drain true), .upload 0 (.drain true), .upload 0 (.write true),
    .enqueue, .client 0 .receive, .client 0 (.write .wrote 0 ⟨0, 0, true⟩), .readMessage, .enqueue,
    .client 0 .receive, .client 0 (.write (.failed 1) 0 ⟨0, 0, true⟩)]

theorem service_stream_reaches_client_brokenClient :
    ∃ s u c, run step .start brokenClient = some s ∧ s.uploads 0 = some u ∧
      s.clients 0 = some c ∧ u.received = [1, 2, 3, 4] ∧ c.conn.written = [1, 2, 3] ∧
      c.conn.written <+: u.received := by
  obtain ⟨s, hrun, hupload, hclient⟩ : ∃ s, run step .start brokenClient = some s ∧
      ((s.uploads 0).any (fun u => u.received = [1, 2, 3, 4]) = true ∧
        (s.clients 0).any (fun c => c.conn.written = [1, 2, 3]) = true) :=
    exists_run_of_any (by decide +kernel)
  have htimely : Along step Timely .start brokenClient := by decide +kernel
  obtain ⟨u, hu, hreceived⟩ := (Option.any_eq_true _ _).mp hupload
  obtain ⟨c, hc, hwritten⟩ := (Option.any_eq_true _ _).mp hclient
  exact ⟨s, u, c, hrun, hu, hc, of_decide_eq_true hreceived, of_decide_eq_true hwritten,
    service_stream_reaches_client htimely hrun hu hc⟩

end NexusProxy.Client.Upstream
