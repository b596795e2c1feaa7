import NexusProxy.Lib.Transition
import NexusProxy.Protocol
import NexusProxy.Client.CreditLedger

/-! Reverse flow control of one TCP connection: local service, client ledger, WebSocket,
the relay's `bufferedConn` and the grants that travel back. Frames are counted, since
nothing here reads their payload. -/
namespace NexusProxy.Flow.ReverseCredits
open Client Protocol Transition

def clientWriteBufferSize : ℕ := 2 * defaultCreditCapacity

/-- Where `bufferedConn.drain` stands: in its outer select, waiting for the bandwidth
gate with a frame in hand, or writing that frame to the client's socket. -/
inductive DrainPoint where
  | select
  | gate
  | write
  deriving DecidableEq

/-- Outcome of one call of `tryReplenish` with a non-zero count: skipped because the last
attempt is too recent, enqueued, or refused by a full control lane. -/
inductive Attempt where
  | backoff
  | enqueued
  | refused
  deriving DecidableEq

structure Conn where
  ledger : Ledger
  queue : ℕ
  toHub : ℕ
  toClient : List ℕ
  writeCh : ℕ
  drainAt : DrainPoint
  consumed : ℕ
  replenishTimer : Bool
  overflowed : Bool
  deriving DecidableEq

inductive Action where
  | enqueue
  | drain (maxMessages : ℕ)
  | probe (gen : ℕ)
  | deliverFrame
  | takeFrame
  | gateOpen
  | writeDone (attempt : Attempt)
  | retry (attempt : Attempt)
  | deliverGrant
  deriving DecidableEq

/-- The state right after `EventConnect` was handled, with the relay's default grant. -/
def start : Conn where
  ledger := newCreditLedger (clampReverseCredits defaultCreditCapacity) maxReverseCreditCapacity
  queue := 0
  toHub := 0
  toClient := []
  writeCh := 0
  drainAt := .select
  consumed := 0
  replenishTimer := false
  overflowed := false

def drainConnectionQueue : ℕ → Conn → Conn
  | 0, s => { s with ledger := s.ledger.drainYielded (decide (0 < s.queue)) }
  | maxMessages + 1, s =>
      let acquired := s.ledger.tryAcquire
      if acquired.2 then
        if 0 < s.queue then
          drainConnectionQueue maxMessages
            { s with ledger := acquired.1, queue := s.queue - 1, toHub := s.toHub + 1 }
        else
          { s with ledger := acquired.1.release.drainYielded (decide (0 < s.queue)) }
      else { s with ledger := acquired.1.drainYielded (decide (0 < s.queue)) }

/-- `bufferedConn.Write`; the full branch is recorded and the frame dropped. -/
def write (s : Conn) : Conn :=
  if s.writeCh < clientWriteBufferSize then { s with writeCh := s.writeCh + 1 }
  else { s with overflowed := true }

def tryReplenish (s : Conn) (attempt : Attempt) : Conn :=
  if s.consumed = 0 then { s with replenishTimer := false }
  else
    match attempt with
    | .backoff => { s with replenishTimer := true }
    | .enqueued =>
        { s with toClient := s.toClient ++ [s.consumed], consumed := 0, replenishTimer := false }
    | .refused => { s with replenishTimer := true }

def handleResumeStream (s : Conn) (credits : ℕ) : Conn :=
  if 0 < credits then { s with ledger := s.ledger.replenish (clampReverseCredits credits) }
  else s

def step (s : Conn) : Action → Option Conn
  | .enqueue =>
      if s.queue < queueCapacity then
        some { s with queue := s.queue + 1, ledger := s.ledger.notifyEnqueue }
      else none
  | .drain maxMessages =>
      if 0 < s.ledger.wakeups then
        some (drainConnectionQueue maxMessages
          { s with ledger := { s.ledger with wakeups := s.ledger.wakeups - 1 } })
      else none
  | .probe gen =>
      if gen ∈ s.ledger.timers then
        some { s with ledger :=
          { s.ledger with timers := s.ledger.timers.erase gen }.probeBody gen }
      else none
  | .deliverFrame => if 0 < s.toHub then some (write { s with toHub := s.toHub - 1 }) else none
  | .takeFrame =>
      if s.drainAt = .select ∧ 0 < s.writeCh then
        some { s with writeCh := s.writeCh - 1, drainAt := .gate }
      else none
  | .gateOpen => if s.drainAt = .gate then some { s with drainAt := .write } else none
  | .writeDone attempt =>
      if s.drainAt = .write then
        let s := { s with drainAt := .select, consumed := s.consumed + 1 }
        some (if creditReplenishBatch ≤ s.consumed then tryReplenish s attempt else s)
      else none
  | .retry attempt =>
      if s.replenishTimer ∧ s.drainAt ≠ .write then some (tryReplenish s attempt) else none
  | .deliverGrant =>
      match s.toClient with
      | [] => none
      | credits :: rest => some (handleResumeStream { s with toClient := rest } credits)

/-- Frames that `drain` has taken out of the buffer and not finished writing. -/
def inHand (s : Conn) : ℕ := if s.drainAt = .select then 0 else 1

/-- Credits in circulation: spendable, spent on a frame that has not been counted as
consumed, counted, or on their way back. -/
def circulating (s : Conn) : ℤ :=
  s.ledger.available + s.toHub + s.writeCh + inHand s + s.consumed + s.toClient.sum

/-- The stall probe of generation `gen` would add a credit now. -/
def selfGrants (s : Conn) (gen : ℕ) : Prop :=
  s.ledger.probeGen = gen ∧ s.ledger.available = 0

instance (s : Conn) (gen : ℕ) : Decidable (selfGrants s gen) :=
  inferInstanceAs (Decidable (_ ∧ _))

/-- What every step keeps while the circulation fits the relay's buffer. -/
structure Bounded (s : Conn) : Prop where
  ledger : Ledger.Limited maxReverseCreditCapacity s.ledger.available s.ledger
  available_nonneg : 0 ≤ s.ledger.available
  grants_pos : ∀ n ∈ s.toClient, 0 < n
  circulating_le : circulating s ≤ clientWriteBufferSize
  not_overflowed : s.overflowed = false

theorem start_bounded : Bounded start where
  ledger := ⟨rfl, by decide, rfl, rfl⟩
  available_nonneg := by decide
  grants_pos := by simp [start]
  circulating_le := by decide
  not_overflowed := rfl

namespace Bounded
variable {s : Conn}

/-- The bound leaves room below the ledger's cap, so no grant is clamped. -/
theorem available_le (h : Bounded s) :
    s.ledger.available + s.toHub + s.writeCh + inHand s + s.consumed + s.toClient.sum ≤ 128 :=
  h.circulating_le

theorem of_conserved {t : Conn} {n : ℤ} (h : Bounded s)
    (hl : Ledger.Limited maxReverseCreditCapacity n t.ledger) (hn : 0 ≤ n)
    (hg : ∀ k ∈ t.toClient, 0 < k) (hc : circulating t = circulating s)
    (ho : t.overflowed = s.overflowed) : Bounded t where
  ledger := by rw [hl.available]; exact hl
  available_nonneg := by rw [hl.available]; exact hn
  grants_pos := hg
  circulating_le := hc ▸ h.circulating_le
  not_overflowed := ho.trans h.not_overflowed

end Bounded

theorem drainConnectionQueue_spec {s : Conn} {n : ℤ} (maxMessages : ℕ)
    (hl : Ledger.Limited maxReverseCreditCapacity n s.ledger) (hn : 0 ≤ n)
    (hcap : n ≤ maxReverseCreditCapacity) :
    ∃ (l : Ledger) (k q : ℕ), drainConnectionQueue maxMessages s =
        { s with ledger := l, queue := q, toHub := s.toHub + k } ∧
      Ledger.Limited maxReverseCreditCapacity (n - k) l ∧ k ≤ n := by
  induction maxMessages generalizing s n with
  | zero => exact ⟨_, 0, s.queue, rfl, by simpa using hl.drainYielded _, by simpa using hn⟩
  | succ maxMessages ih =>
    by_cases ha : n ≤ 0
    · have hr := hl.tryAcquire_refused ha
      refine ⟨_, 0, s.queue, ?_, by simpa using hl.drainYielded (decide (0 < s.queue)),
        by simpa using hn⟩
      simp [drainConnectionQueue, hr]
    obtain ⟨hok, hs⟩ := hl.tryAcquire_spent (by omega)
    by_cases hq : 0 < s.queue
    · let sent : Conn :=
        { s with ledger := s.ledger.tryAcquire.1, queue := s.queue - 1, toHub := s.toHub + 1 }
      obtain ⟨l, k, q, he, hl', hk⟩ := ih (s := sent) hs (by omega) (by omega)
      refine ⟨l, k + 1, q, ?_, ?_, by push_cast; omega⟩
      · simp only [drainConnectionQueue, hok, hq, if_true]
        rw [he]
        simp only [sent]
        congr 1
        omega
      · convert hl' using 1
        push_cast
        ring
    · have hr := (hs.release (by omega)).drainYielded (decide (0 < s.queue))
      refine ⟨_, 0, s.queue, ?_, by simpa using hr, by simpa using hn⟩
      simp [drainConnectionQueue, hok, hq]

theorem tryReplenish_conserves (s : Conn) (attempt : Attempt) :
    (tryReplenish s attempt).ledger = s.ledger ∧
      (tryReplenish s attempt).overflowed = s.overflowed ∧
      circulating (tryReplenish s attempt) = circulating s ∧
      ((∀ n ∈ s.toClient, 0 < n) → ∀ n ∈ (tryReplenish s attempt).toClient, 0 < n) := by
  unfold tryReplenish
  split_ifs with h0
  · exact ⟨rfl, rfl, rfl, id⟩
  cases attempt with
  | backoff => exact ⟨rfl, rfl, rfl, id⟩
  | refused => exact ⟨rfl, rfl, rfl, id⟩
  | enqueued =>
    refine ⟨rfl, rfl, ?_, fun hg n hn => ?_⟩
    · simp only [circulating, inHand, List.sum_append, List.sum_singleton]
      push_cast
      ring
    · rcases List.mem_append.mp hn with hn | hn
      · exact hg n hn
      · rw [List.mem_singleton.mp hn]
        omega

/-- A self-granting probe is taken only while the circulation is below the buffer size. -/
def ProbeFits (s : Conn) : Action → Prop
  | .probe gen => selfGrants s gen → circulating s < clientWriteBufferSize
  | _ => True

instance (s : Conn) (a : Action) : Decidable (ProbeFits s a) := by
  cases a <;> unfold ProbeFits <;> infer_instance

section Steps
variable {s t : Conn} {a : Action}

theorem step_enqueue (h : Bounded s) (hs : step s .enqueue = some t) : Bounded t := by
  simp only [step, Option.ite_none_right_eq_some, Option.some.injEq] at hs
  obtain ⟨-, rfl⟩ := hs
  have hl := h.ledger.notifyEnqueue
  refine h.of_conserved hl h.available_nonneg h.grants_pos ?_ rfl
  simp only [circulating, inHand, hl.available]

theorem step_drain {maxMessages : ℕ} (h : Bounded s)
    (hs : step s (.drain maxMessages) = some t) : Bounded t := by
  simp only [step, Option.ite_none_right_eq_some, Option.some.injEq] at hs
  obtain ⟨-, rfl⟩ := hs
  have hcap := h.available_le
  have hn := h.available_nonneg
  let woken : Conn := { s with ledger := { s.ledger with wakeups := s.ledger.wakeups - 1 } }
  have hl : Ledger.Limited maxReverseCreditCapacity s.ledger.available woken.ledger :=
    ⟨rfl, h.ledger.unlimited, h.ledger.closed, h.ledger.maxCap⟩
  obtain ⟨l, k, q, he, hl', hk⟩ := drainConnectionQueue_spec maxMessages hl hn
    (by unfold maxReverseCreditCapacity; omega)
  rw [show drainConnectionQueue maxMessages _ = _ from he]
  refine h.of_conserved hl' (by omega) h.grants_pos ?_ rfl
  simp only [circulating, inHand, hl'.available, woken]
  push_cast
  ring

theorem step_probe {gen : ℕ} (h : Bounded s) (hg : ProbeFits s (.probe gen))
    (hs : step s (.probe gen) = some t) : Bounded t := by
  simp only [step, Option.ite_none_right_eq_some, Option.some.injEq] at hs
  obtain ⟨-, rfl⟩ := hs
  have hn := h.available_nonneg
  have hl : Ledger.Limited maxReverseCreditCapacity s.ledger.available
      { s.ledger with timers := s.ledger.timers.erase gen } :=
    ⟨rfl, h.ledger.unlimited, h.ledger.closed, h.ledger.maxCap⟩
  by_cases hself : selfGrants s gen
  · obtain ⟨rfl, ha⟩ := hself
    rw [ha] at hl
    have hl' := hl.probeBody_grant
    have hc := hg ⟨rfl, ha⟩
    refine ⟨by rw [hl'.available]; exact hl', by rw [hl'.available]; decide, h.grants_pos, ?_,
      h.not_overflowed⟩
    simp only [circulating, inHand, ha] at hc
    simp only [circulating, inHand, hl'.available]
    omega
  · have hidle : s.ledger.probeGen ≠ gen ∨ 0 < s.ledger.available := by
      by_contra hcon
      rw [not_or, not_not] at hcon
      exact hself ⟨hcon.1, by omega⟩
    have hl' := hl.probeBody_idle hidle
    refine h.of_conserved hl' hn h.grants_pos ?_ rfl
    simp only [circulating, inHand, hl'.available]

/-- A frame in flight still holds a credit of the circulation, so it finds room. -/
theorem step_deliverFrame (h : Bounded s) (hs : step s .deliverFrame = some t) : Bounded t := by
  simp only [step, Option.ite_none_right_eq_some, Option.some.injEq] at hs
  obtain ⟨hpos, rfl⟩ := hs
  have hn := h.available_nonneg
  have hcap := h.available_le
  have hroom : s.writeCh < clientWriteBufferSize := by
    change s.writeCh < 128
    omega
  simp only [write, if_pos hroom]
  refine h.of_conserved h.ledger hn h.grants_pos ?_ rfl
  simp only [circulating, inHand]
  push_cast [Nat.cast_sub (show 1 ≤ s.toHub from hpos)]
  ring

theorem step_takeFrame (h : Bounded s) (hs : step s .takeFrame = some t) : Bounded t := by
  simp only [step, Option.ite_none_right_eq_some, Option.some.injEq] at hs
  obtain ⟨⟨hat, hpos⟩, rfl⟩ := hs
  refine h.of_conserved h.ledger h.available_nonneg h.grants_pos ?_ rfl
  simp only [circulating, inHand, hat]
  push_cast [Nat.cast_sub (show 1 ≤ s.writeCh from hpos)]
  simp
  ring

theorem step_gateOpen (h : Bounded s) (hs : step s .gateOpen = some t) : Bounded t := by
  simp only [step, Option.ite_none_right_eq_some, Option.some.injEq] at hs
  obtain ⟨hat, rfl⟩ := hs
  refine h.of_conserved h.ledger h.available_nonneg h.grants_pos ?_ rfl
  simp [circulating, inHand, hat]

theorem step_writeDone {attempt : Attempt} (h : Bounded s)
    (hs : step s (.writeDone attempt) = some t) : Bounded t := by
  simp only [step, Option.ite_none_right_eq_some, Option.some.injEq] at hs
  obtain ⟨hat, rfl⟩ := hs
  let written : Conn := { s with drainAt := .select, consumed := s.consumed + 1 }
  have hw : circulating written = circulating s := by
    simp only [circulating, inHand, hat, written]
    push_cast
    simp
    ring
  have hb : Bounded written :=
    h.of_conserved h.ledger h.available_nonneg h.grants_pos hw rfl
  change Bounded (if creditReplenishBatch ≤ written.consumed then tryReplenish written attempt
    else written)
  split_ifs
  · obtain ⟨hl, ho, hc, hg⟩ := tryReplenish_conserves written attempt
    exact hb.of_conserved (hl ▸ hb.ledger) hb.available_nonneg (hg hb.grants_pos) hc ho
  · exact hb

theorem step_retry {attempt : Attempt} (h : Bounded s)
    (hs : step s (.retry attempt) = some t) : Bounded t := by
  simp only [step, Option.ite_none_right_eq_some, Option.some.injEq] at hs
  obtain ⟨-, rfl⟩ := hs
  obtain ⟨hl, ho, hc, hg⟩ := tryReplenish_conserves s attempt
  exact h.of_conserved (hl ▸ h.ledger) h.available_nonneg (hg h.grants_pos) hc ho

theorem step_deliverGrant (h : Bounded s) (hs : step s .deliverGrant = some t) : Bounded t := by
  cases hq : s.toClient with
  | nil => simp [step, hq] at hs
  | cons n rest =>
    have hn := h.available_nonneg
    have hcap := h.available_le
    have hpos : 0 < n := h.grants_pos n (by simp [hq])
    simp only [hq, List.sum_cons, Nat.cast_add] at hcap
    have hclamp : clampReverseCredits n = n := if_pos (by unfold maxReverseCreditCapacity; omega)
    simp only [step, hq, handleResumeStream, hpos, if_true, hclamp, Option.some.injEq] at hs
    subst hs
    have hl := h.ledger.replenish (k := n) hn (by omega)
      (by unfold maxReverseCreditCapacity; omega) (by decide)
    refine h.of_conserved hl (by omega) (fun k hk => h.grants_pos k (by simp [hq, hk])) ?_ rfl
    simp only [circulating, inHand, hl.available, hq, List.sum_cons, Nat.cast_add]
    ring

theorem step_bounded (h : Bounded s) (hg : ProbeFits s a) (hs : step s a = some t) :
    Bounded t := by
  cases a with
  | enqueue => exact step_enqueue h hs
  | drain maxMessages => exact step_drain h hs
  | probe gen => exact step_probe h hg hs
  | deliverFrame => exact step_deliverFrame h hs
  | takeFrame => exact step_takeFrame h hs
  | gateOpen => exact step_gateOpen h hs
  | writeDone attempt => exact step_writeDone h hs
  | retry attempt => exact step_retry h hs
  | deliverGrant => exact step_deliverGrant h hs

end Steps

/-- While every self-granting probe finds the circulation below the buffer size, the
relay's write buffer never overflows. -/
theorem reverse_write_never_full {as : List Action} {s : Conn}
    (hprobe : Along step ProbeFits start as) (hrun : run step start as = some s) :
    s.overflowed = false ∧ s.writeCh ≤ clientWriteBufferSize := by
  have h : Bounded s :=
    invariant_along (fun _ _ _ hI hG hs => step_bounded hI hG hs) start_bounded hprobe hrun
  have hn := h.available_nonneg
  have hcap := h.available_le
  refine ⟨h.not_overflowed, ?_⟩
  change s.writeCh ≤ 128
  omega

/-- One cycle of a client that stays slow: the probe of the stall adds a credit, the relay
writes a batch and grants it, and the grant is spent before the next stall. -/
def stallCycle (k : ℕ) : List Action :=
  [.probe (2 * k + 1), .drain 4, .deliverFrame] ++
    (List.replicate 8 [.takeFrame, .gateOpen, .writeDone .enqueued]).flatten ++
    [.deliverGrant] ++ List.replicate 9 .enqueue ++ List.replicate 2 (.drain 4) ++
    List.replicate 8 .deliverFrame

/-- Spend the initial window, then stall for `n` cycles. -/
def stallTrace (n : ℕ) : List Action :=
  List.replicate 65 .enqueue ++ List.replicate 16 (.drain 4) ++
    List.replicate 64 .deliverFrame ++ (List.range n).flatMap stallCycle

/-- The probes of two stalls may fire. -/
theorem reverse_write_never_full_two_stalls :
    ∃ s, run step start (stallTrace 2) = some s ∧ s.overflowed = false ∧
      s.writeCh ≤ clientWriteBufferSize := by
  have hrun : ∃ s, run step start (stallTrace 2) = some s ∧ s.replenishTimer = false :=
    exists_run_of_any (by decide +kernel)
  obtain ⟨s, hs, -⟩ := hrun
  exact ⟨s, hs, reverse_write_never_full (by decide +kernel) hs⟩

/-- The probe of the sixty-fifth stall puts one credit too many into circulation. -/
theorem reverse_write_full_after_stalls :
    ∃ s, run step start (stallTrace 64 ++ [.probe 129, .drain 4, .deliverFrame]) = some s ∧
      s.overflowed = true :=
  exists_run_of_any (by decide +kernel)

end NexusProxy.Flow.ReverseCredits
