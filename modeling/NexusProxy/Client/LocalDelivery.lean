import Mathlib.Algebra.Order.Group.Multiset
import Mathlib.Tactic.Abel
import NexusProxy.Client.LocalDial
import NexusProxy.Client.OutboundRequests

/-! From the read pump to the local service. `handleDataMessage` checks the state of a connection
and then puts a frame into its buffer, or writes a datagram itself; `writeToLocal` empties the
buffer into the local socket. The connection may be closed at any point in between. -/
namespace NexusProxy.Client.LocalDelivery
open LocalDial OutboundRequests Transition
open Proxy (Bytes)

/-- Where `writeToLocal` stands. -/
inductive Writer where
  | unstarted
  | selects
  | writes (data : Bytes)
  | flushes
  | flushWrites (data : Bytes)
  | returned
  deriving DecidableEq

def Writer.held : Writer → List Bytes
  | .writes data | .flushWrites data => [data]
  | _ => []

/-- What `handleDataMessage` is about to do with a frame that has passed the check. -/
inductive Incoming where
  | none
  | write (data : Bytes)
  | enqueue (data : Bytes)
  deriving DecidableEq

def Incoming.held : Incoming → List Bytes
  | .none => []
  | .write data | .enqueue data => [data]

/-- A `clientConn`. `localConns` says whether it is in the map. The last four are history: the
frames that have arrived for it, those that went into its buffer, what has been written to the
socket, and whether a write has failed. -/
structure Conn where
  isUDP : Bool
  state : ConnState
  quit : Bool
  conn : Bool
  localConns : Bool
  writeCh : List Bytes
  writer : Writer
  incoming : Incoming
  arrived : List Bytes
  accepted : List Bytes
  written : List Bytes
  failed : Bool
  deriving DecidableEq

/-- `EventConnect` stores a connection without a socket, `handleSocks5Conn` one with a socket. -/
def Conn.pending (isUDP conn : Bool) : Conn where
  isUDP := isUDP
  state := .pending
  quit := false
  conn := conn
  localConns := true
  writeCh := []
  writer := .unstarted
  incoming := .none
  arrived := []
  accepted := []
  written := []
  failed := false

/-- `transitionToClosed` is `swap`, `closeQuit` and `delete`. A write to the socket fails after
some bytes, or succeeds. -/
inductive Action where
  | assign
  | activate
  | startWriter
  | startDraining
  | swap
  | closeQuit
  | delete
  | check (data : Bytes)
  | deliver (failure : Option ℕ)
  | seeQuit
  | receive
  | write (failure : Option ℕ)
  deriving DecidableEq

namespace Conn

/-- The check of the state at the beginning of `handleDataMessage`. -/
def checked (c : Conn) (data : Bytes) : Conn :=
  { c with
    arrived := c.arrived ++ [data]
    incoming :=
      if c.state = .active ∨ c.state = .pending then
        if c.isUDP = true ∧ c.state = .active ∧ c.conn = true then .write data else .enqueue data
      else .none }

/-- What is left of a write that stops after `n` bytes. A datagram is sent whole or not at all. -/
def partly (c : Conn) (data : Bytes) (n : ℕ) : List Bytes :=
  if c.isUDP then c.written else c.written ++ [data.take n]

/-- The rest of `handleDataMessage`. -/
def deliver (c : Conn) (failure : Option ℕ) : Option Conn :=
  match c.incoming with
  | .none => none
  | .write data =>
      match failure with
      | none => some { c with incoming := .none, written := c.written ++ [data] }
      | some _ => some { c with incoming := .none, failed := true }
  | .enqueue data =>
      if c.writeCh.length < localConnWriteBuffer then
        some { c with
          incoming := .none
          writeCh := c.writeCh ++ [data]
          accepted := c.accepted ++ [data] }
      else if c.isUDP then some { c with incoming := .none }
      -- the call of `transitionToClosed` begins with the swap of the state
      else some { c with incoming := .none, state := .closed }

/-- A turn of `writeToLocal` once the write has returned, or of `flushWriteCh`. -/
def wrote (c : Conn) (failure : Option ℕ) : Option Conn :=
  match c.writer with
  | .writes data =>
      match failure with
      | none => some { c with
          written := c.written ++ [data]
          writer := if c.state = .draining ∧ c.writeCh = [] then .returned else .selects }
      | some n => some { c with
          written := c.partly data n
          failed := true
          writer := if c.isUDP then .selects else .returned }
  | .flushWrites data =>
      match failure with
      | none => some { c with written := c.written ++ [data], writer := .flushes }
      | some n => some { c with written := c.partly data n, failed := true, writer := .returned }
  | _ => none

def step (c : Conn) : Action → Option Conn
  | .assign => some { c with conn := true }
  | .activate =>
      if c.state = .pending ∧ c.conn = true then some { c with state := .active } else none
  | .startWriter =>
      if c.writer = .unstarted ∧ c.conn = true then some { c with writer := .selects } else none
  | .startDraining => if c.state = .active then some { c with state := .draining } else none
  | .swap => some { c with state := .closed }
  | .closeQuit => if c.state = .closed then some { c with quit := true } else none
  | .delete => some { c with localConns := false }
  | .check data =>
      if c.localConns = true ∧ c.incoming = .none then some (c.checked data) else none
  | .deliver failure => c.deliver failure
  | .seeQuit =>
      if c.writer = .selects ∧ c.quit = true then some { c with writer := .flushes } else none
  | .receive =>
      match c.writer, c.writeCh with
      | .selects, data :: rest => some { c with writer := .writes data, writeCh := rest }
      | .flushes, data :: rest => some { c with writer := .flushWrites data, writeCh := rest }
      | .flushes, [] => some { c with writer := .returned }
      | _, _ => none
  | .write failure => c.wrote failure

/-! ### A stream -/

/-- A TCP connection: frames are refused only for good, and what is in the buffer leaves it in
order until a write fails. -/
structure Streams (c : Conn) : Prop where
  incoming : ∀ data, c.incoming ≠ .write data
  takes : c.state = .active ∨ c.state = .pending ∨ c.incoming ≠ .none →
    c.accepted ++ c.incoming.held = c.arrived
  isPrefix : c.accepted <+: c.arrived
  flow : c.failed = false → c.written ++ c.writer.held ++ c.writeCh = c.accepted
  broken : c.failed = true → c.writer = .returned ∧ c.written.flatten <+: c.accepted.flatten

variable {c d : Conn}

theorem Streams.check (h : c.Streams) (hudp : c.isUDP = false) (hidle : c.incoming = .none)
    (data : Bytes) : (c.checked data).Streams := by
  have hnext : c.state = .active ∨ c.state = .pending → c.accepted = c.arrived := by
    intro hstate
    have htakes := h.takes (by tauto)
    rwa [hidle, Incoming.held, List.append_nil] at htakes
  have hgrows : c.accepted <+: c.arrived ++ [data] := h.isPrefix.trans (List.prefix_append _ _)
  by_cases hstate : c.state = .active ∨ c.state = .pending
  · have hchecked : c.checked data =
        { c with arrived := c.arrived ++ [data], incoming := .enqueue data } := by
      simp [checked, hstate, hudp]
    rw [hchecked]
    refine ⟨fun _ hwrite => (by cases hwrite), fun _ => ?_, hgrows, h.flow, h.broken⟩
    show c.accepted ++ [data] = c.arrived ++ [data]
    rw [hnext hstate]
  · have hchecked : c.checked data =
        { c with arrived := c.arrived ++ [data], incoming := .none } := by
      simp [checked, hstate]
    rw [hchecked]
    refine ⟨fun _ hwrite => (by cases hwrite), fun hin => ?_, hgrows, h.flow, h.broken⟩
    rcases hin with hactive | hpending | hnone
    · exact absurd (.inl hactive) hstate
    · exact absurd (.inr hpending) hstate
    · exact absurd rfl hnone

theorem Streams.deliver (h : c.Streams) (hudp : c.isUDP = false) {failure : Option ℕ}
    (hstep : c.deliver failure = some d) : d.Streams := by
  unfold Conn.deliver at hstep
  cases hin : c.incoming with
  | none =>
    rw [hin] at hstep
    cases hstep
  | write data => exact absurd hin (h.incoming data)
  | enqueue data =>
    rw [hin] at hstep
    dsimp only at hstep
    have htakes : c.accepted ++ [data] = c.arrived := by
      have htakes := h.takes (.inr (.inr (by rw [hin]; simp)))
      rwa [hin] at htakes
    by_cases hroom : c.writeCh.length < localConnWriteBuffer
    · rw [if_pos hroom] at hstep
      obtain rfl := Option.some.inj hstep
      refine ⟨fun _ hwrite => (by cases hwrite), fun _ => ?_, ?_, fun hok => ?_, fun hfailed => ?_⟩
      · show (c.accepted ++ [data]) ++ [] = c.arrived
        rw [List.append_nil, htakes]
      · rw [htakes]
      · show c.written ++ c.writer.held ++ (c.writeCh ++ [data]) = c.accepted ++ [data]
        rw [← List.append_assoc, h.flow hok]
      · refine ⟨(h.broken hfailed).1, (h.broken hfailed).2.trans ?_⟩
        rw [List.flatten_append]
        exact List.prefix_append _ _
    · rw [if_neg hroom, if_neg (by simp [hudp])] at hstep
      obtain rfl := Option.some.inj hstep
      refine ⟨fun _ hwrite => (by cases hwrite), fun hopen => ?_, h.isPrefix, h.flow, h.broken⟩
      rcases hopen with hactive | hpending | hnone
      · cases hactive
      · cases hpending
      · exact absurd rfl hnone

theorem Streams.wrote (h : c.Streams) (hudp : c.isUDP = false) {failure : Option ℕ}
    (hstep : c.wrote failure = some d) : d.Streams := by
  have hheld {data : Bytes} (hwriter : c.writer = .writes data ∨ c.writer = .flushWrites data) :
      c.failed = false ∧ c.written ++ [data] ++ c.writeCh = c.accepted := by
    have hok : c.failed = false := by
      refine Bool.eq_false_iff.mpr fun hfailed => ?_
      have hreturned := (h.broken hfailed).1
      rcases hwriter with hw | hw
      · rw [hw] at hreturned
        cases hreturned
      · rw [hw] at hreturned
        cases hreturned
    refine ⟨hok, ?_⟩
    have hflow := h.flow hok
    rcases hwriter with hw | hw
    · rwa [hw] at hflow
    · rwa [hw] at hflow
  have hdone {data : Bytes} {writer : Writer} (hnone : writer.held = [])
      (hwriter : c.writer = .writes data ∨ c.writer = .flushWrites data) :
      Streams { c with written := c.written ++ [data], writer := writer } := by
    obtain ⟨hok, hflow⟩ := hheld hwriter
    refine ⟨h.incoming, h.takes, h.isPrefix, fun _ => ?_, fun hfailed => ?_⟩
    · show c.written ++ [data] ++ writer.held ++ c.writeCh = c.accepted
      rw [hnone, List.append_nil, hflow]
    · rw [show c.failed = true from hfailed] at hok
      cases hok
  -- the bytes of the failed write are the beginning of its frame
  have hfails {data : Bytes} (n : ℕ)
      (hwriter : c.writer = .writes data ∨ c.writer = .flushWrites data) :
      Streams { c with written := c.partly data n, failed := true, writer := .returned } := by
    obtain ⟨-, hflow⟩ := hheld hwriter
    refine ⟨h.incoming, h.takes, h.isPrefix, fun hok => (by cases hok), fun _ => ⟨rfl, ?_⟩⟩
    show (c.partly data n).flatten <+: c.accepted.flatten
    rw [partly, if_neg (by simp [hudp]), ← hflow]
    simp only [List.flatten_append, List.flatten_singleton, List.append_assoc]
    exact List.prefix_append_right_inj _ |>.mpr
      ((List.take_prefix n data).trans (List.prefix_append _ _))
  unfold Conn.wrote at hstep
  split at hstep
  · rename_i data hwriter
    cases failure with
    | none =>
      obtain rfl := Option.some.inj hstep
      exact hdone (by split_ifs <;> rfl) (.inl hwriter)
    | some n =>
      obtain rfl := Option.some.inj hstep
      rw [if_neg (by simp [hudp])]
      exact hfails n (.inl hwriter)
  · rename_i data hwriter
    cases failure with
    | none =>
      obtain rfl := Option.some.inj hstep
      exact hdone rfl (.inr hwriter)
    | some n =>
      obtain rfl := Option.some.inj hstep
      exact hfails n (.inr hwriter)
  · cases hstep

theorem Streams.of_state (h : c.Streams) {state : ConnState} {quit conn localConns : Bool}
    (hstate : state = .active ∨ state = .pending → c.state = .active ∨ c.state = .pending) :
    Streams { c with state := state, quit := quit, conn := conn, localConns := localConns } := by
  refine ⟨h.incoming, fun hopen => h.takes ?_, h.isPrefix, h.flow, h.broken⟩
  rcases hopen with hactive | hpending | hin
  · exact (hstate (.inl hactive)).elim .inl fun hp => .inr (.inl hp)
  · exact (hstate (.inr hpending)).elim .inl fun hp => .inr (.inl hp)
  · exact .inr (.inr hin)

theorem Streams.of_writer (h : c.Streams) {writer : Writer} {writeCh : List Bytes}
    (hmoved : writer.held ++ writeCh = c.writer.held ++ c.writeCh)
    (hlive : c.writer ≠ .returned) :
    Streams { c with writer := writer, writeCh := writeCh } := by
  refine ⟨h.incoming, h.takes, h.isPrefix, fun hok => ?_, fun hfailed => ?_⟩
  · show c.written ++ writer.held ++ writeCh = c.accepted
    rw [List.append_assoc, hmoved, ← List.append_assoc, h.flow hok]
  · exact absurd (h.broken hfailed).1 hlive

theorem Streams.step (h : c.Streams) (hudp : c.isUDP = false) {a : Action}
    (hstep : c.step a = some d) : d.Streams := by
  cases a with
  | assign =>
    obtain rfl := Option.some.inj hstep
    exact h.of_state id
  | activate =>
    obtain ⟨hguard, rfl⟩ := guarded hstep
    exact h.of_state fun _ => .inr hguard.1
  | startWriter =>
    obtain ⟨hguard, rfl⟩ := guarded hstep
    exact h.of_writer (by rw [hguard.1]; rfl) (by rw [hguard.1]; simp)
  | startDraining =>
    obtain ⟨-, rfl⟩ := guarded hstep
    exact h.of_state (by simp)
  | swap =>
    obtain rfl := Option.some.inj hstep
    exact h.of_state (by simp)
  | closeQuit =>
    obtain ⟨-, rfl⟩ := guarded hstep
    exact h.of_state id
  | delete =>
    obtain rfl := Option.some.inj hstep
    exact h.of_state id
  | check data =>
    obtain ⟨hguard, rfl⟩ := guarded hstep
    exact h.check hudp hguard.2 data
  | deliver failure => exact h.deliver hudp hstep
  | seeQuit =>
    obtain ⟨hguard, rfl⟩ := guarded hstep
    exact h.of_writer (by rw [hguard.1]; rfl) (by rw [hguard.1]; simp)
  | receive =>
    simp only [Conn.step] at hstep
    split at hstep
    · rename_i data rest hwriter hqueue
      obtain rfl := Option.some.inj hstep
      exact h.of_writer (by rw [hwriter, hqueue]; rfl) (by rw [hwriter]; simp)
    · rename_i data rest hwriter hqueue
      obtain rfl := Option.some.inj hstep
      exact h.of_writer (by rw [hwriter, hqueue]; rfl) (by rw [hwriter]; simp)
    · rename_i hwriter hqueue
      obtain rfl := Option.some.inj hstep
      exact h.of_writer (by rw [hwriter]; rfl) (by rw [hwriter]; simp)
    · cases hstep
  | write failure => exact h.wrote hudp hstep

theorem step_isUDP {a : Action} (hstep : c.step a = some d) : d.isUDP = c.isUDP := by
  cases a <;> simp only [Conn.step, Conn.deliver, Conn.wrote] at hstep <;>
    (repeat' split at hstep) <;> cases hstep <;> rfl

/-! ### Datagrams -/

/-- The datagrams of a connection: written, in hand, in the buffer, or on their way into it. -/
def places (c : Conn) : Multiset Bytes :=
  (c.written : Multiset Bytes) + (c.writer.held : Multiset Bytes) + (c.writeCh : Multiset Bytes) +
    (c.incoming.held : Multiset Bytes)

/-- A UDP connection: a datagram that has arrived is in one place at most. -/
def Scatters (c : Conn) : Prop := c.places ≤ (c.arrived : Multiset Bytes)

theorem Scatters.of_places (h : c.Scatters) (hplaces : d.places ≤ c.places)
    (harrived : d.arrived = c.arrived) : d.Scatters := by
  unfold Scatters
  rw [harrived]
  exact hplaces.trans h

theorem Scatters.check (h : c.Scatters) (hidle : c.incoming = .none) (data : Bytes) :
    (c.checked data).Scatters := by
  have hplaces : (c.checked data).places ≤ c.places + {data} := by
    have hheld : ((c.checked data).incoming.held : Multiset Bytes) ≤ {data} := by
      unfold checked
      dsimp only
      split_ifs <;> simp [Incoming.held]
    have hold : c.places = c.written + (c.writer.held : Multiset Bytes) + c.writeCh := by
      rw [places, hidle, Incoming.held, Multiset.coe_nil, add_zero]
    rw [hold]
    exact add_le_add le_rfl hheld
  calc (c.checked data).places ≤ c.places + {data} := hplaces
    _ ≤ c.arrived + {data} := add_le_add h le_rfl
    _ = (c.arrived ++ [data] : List Bytes) := by rw [← Multiset.coe_add, Multiset.coe_singleton]

theorem Scatters.deliver (h : c.Scatters) {failure : Option ℕ}
    (hstep : c.deliver failure = some d) : d.Scatters := by
  unfold Conn.deliver at hstep
  cases hin : c.incoming with
  | none =>
    rw [hin] at hstep
    cases hstep
  | write data =>
    rw [hin] at hstep
    cases failure with
    | none =>
      obtain rfl := Option.some.inj hstep
      refine h.of_places (le_of_eq ?_) rfl
      simp only [places, hin, Incoming.held, ← Multiset.coe_add, Multiset.coe_nil]
      abel
    | some n =>
      obtain rfl := Option.some.inj hstep
      refine h.of_places ?_ rfl
      simp [places, hin, Incoming.held]
  | enqueue data =>
    rw [hin] at hstep
    dsimp only at hstep
    split_ifs at hstep
    · obtain rfl := Option.some.inj hstep
      refine h.of_places (le_of_eq ?_) rfl
      simp only [places, hin, Incoming.held, ← Multiset.coe_add, Multiset.coe_nil]
      abel
    · obtain rfl := Option.some.inj hstep
      refine h.of_places ?_ rfl
      simp [places, hin, Incoming.held]
    · obtain rfl := Option.some.inj hstep
      refine h.of_places ?_ rfl
      simp [places, hin, Incoming.held]

theorem Scatters.wrote (h : c.Scatters) (hudp : c.isUDP = true) {failure : Option ℕ}
    (hstep : c.wrote failure = some d) : d.Scatters := by
  have hdone {data : Bytes} {writer : Writer} (hnone : writer.held = [])
      (hwriter : c.writer.held = [data]) :
      Scatters { c with written := c.written ++ [data], writer := writer } := by
    refine h.of_places (le_of_eq ?_) rfl
    simp only [places, hnone, hwriter, ← Multiset.coe_add, Multiset.coe_nil]
    abel
  have hfails {data : Bytes} {n : ℕ} {writer : Writer} (hnone : writer.held = []) :
      Scatters { c with written := c.partly data n, failed := true, writer := writer } := by
    refine h.of_places ?_ rfl
    simp only [places, hnone, partly, if_pos hudp, Multiset.coe_nil, add_zero]
    exact add_le_add_left (add_le_add_left (Multiset.le_add_right _ _) _) _
  unfold Conn.wrote at hstep
  split at hstep
  · rename_i data hwriter
    cases failure with
    | none =>
      obtain rfl := Option.some.inj hstep
      exact hdone (by split_ifs <;> rfl) (by rw [hwriter, Writer.held])
    | some n =>
      obtain rfl := Option.some.inj hstep
      rw [if_pos hudp]
      exact hfails rfl
  · rename_i data hwriter
    cases failure with
    | none =>
      obtain rfl := Option.some.inj hstep
      exact hdone rfl (by rw [hwriter]; rfl)
    | some n =>
      obtain rfl := Option.some.inj hstep
      exact hfails rfl
  · cases hstep

theorem Scatters.step (h : c.Scatters) (hudp : c.isUDP = true) {a : Action}
    (hstep : c.step a = some d) : d.Scatters := by
  cases a with
  | check data =>
    obtain ⟨hguard, rfl⟩ := guarded hstep
    exact h.check hguard.2 data
  | deliver failure => exact h.deliver hstep
  | receive =>
    simp only [Conn.step] at hstep
    split at hstep
    · rename_i data rest hwriter hqueue
      obtain rfl := Option.some.inj hstep
      refine h.of_places (le_of_eq ?_) rfl
      simp only [places, hwriter, hqueue, Writer.held, ← Multiset.cons_coe,
        ← Multiset.singleton_add, Multiset.coe_nil]
      abel
    · rename_i data rest hwriter hqueue
      obtain rfl := Option.some.inj hstep
      refine h.of_places (le_of_eq ?_) rfl
      simp only [places, hwriter, hqueue, Writer.held, ← Multiset.cons_coe,
        ← Multiset.singleton_add, Multiset.coe_nil]
      abel
    · rename_i hwriter hqueue
      obtain rfl := Option.some.inj hstep
      refine h.of_places (le_of_eq ?_) rfl
      simp [places, hwriter, Writer.held]
    · cases hstep
  | write failure => exact h.wrote hudp hstep
  | startWriter =>
    obtain ⟨hguard, rfl⟩ := guarded hstep
    exact h.of_places (le_of_eq (by simp [places, hguard.1, Writer.held])) rfl
  | seeQuit =>
    obtain ⟨hguard, rfl⟩ := guarded hstep
    exact h.of_places (le_of_eq (by simp [places, hguard.1, Writer.held])) rfl
  | activate | startDraining | closeQuit =>
    obtain ⟨-, rfl⟩ := guarded hstep
    exact h
  | assign | swap | delete =>
    obtain rfl := Option.some.inj hstep
    exact h

/-! ### Whole runs -/

/-- What holds of a connection of either kind. -/
structure Sound (c : Conn) : Prop where
  tcp : c.isUDP = false → c.Streams
  udp : c.isUDP = true → c.Scatters

theorem sound_pending (isUDP conn : Bool) : (pending isUDP conn).Sound where
  tcp _ := ⟨fun _ h => (by cases h), fun _ => rfl, List.prefix_rfl, fun _ => rfl,
    fun h => (by cases h)⟩
  udp _ := by simp [Scatters, places, pending, Writer.held, Incoming.held]

theorem Sound.step (h : c.Sound) {a : Action} (hstep : c.step a = some d) : d.Sound := by
  have hudp := step_isUDP hstep
  constructor
  · intro hd
    exact (h.tcp (hudp ▸ hd)).step (hudp ▸ hd) hstep
  · intro hd
    exact (h.udp (hudp ▸ hd)).step (hudp ▸ hd) hstep

theorem Streams.written_isPrefix (h : c.Streams) : c.written.flatten <+: c.arrived.flatten := by
  have harrived : c.accepted.flatten <+: c.arrived.flatten := by
    obtain ⟨rest, hrest⟩ := h.isPrefix
    rw [← hrest, List.flatten_append]
    exact List.prefix_append _ _
  cases hfailed : c.failed with
  | true => exact (h.broken hfailed).2.trans harrived
  | false =>
    refine List.IsPrefix.trans ?_ harrived
    rw [← h.flow hfailed, List.append_assoc, List.flatten_append]
    exact List.prefix_append _ _

end Conn

/-- The local service of a TCP connection reads the beginning of what has arrived for it, and
until a write fails nothing that was accepted is anywhere but in the socket, in the writer's hands
or in the buffer, in order. For UDP, no datagram is altered, invented or written twice. -/
theorem local_frames_delivered {isUDP conn : Bool} {actions : List Action} {c : Conn}
    (h : run Conn.step (.pending isUDP conn) actions = some c) :
    (c.isUDP = false → c.written.flatten <+: c.arrived.flatten ∧ c.accepted <+: c.arrived ∧
      (c.failed = false → c.written ++ c.writer.held ++ c.writeCh = c.accepted)) ∧
      (c.isUDP = true → (c.written : Multiset Bytes) ≤ c.arrived) := by
  have hsound : c.Sound :=
    invariant_run (fun _ _ _ hI hstep => hI.step hstep) (Conn.sound_pending isUDP conn) h
  constructor
  · intro hudp
    have hstreams := hsound.tcp hudp
    exact ⟨hstreams.written_isPrefix, hstreams.isPrefix, hstreams.flow⟩
  · intro hudp
    have hscatters := hsound.udp hudp
    unfold Conn.Scatters Conn.places at hscatters
    rw [add_assoc, add_assoc] at hscatters
    exact (Multiset.le_add_right _ _).trans hscatters

/-- Two frames come early, and the connection is closed before the second is written. -/
def closedEarly : List Action :=
  [.check [1], .deliver none, .assign, .check [2, 3], .deliver none, .activate, .startWriter,
    .receive, .write none, .swap, .closeQuit, .check [4], .seeQuit, .receive, .write none, .receive]

theorem local_frames_delivered_closedEarly :
    ∃ c, run Conn.step (.pending false false) closedEarly = some c ∧
      c.written = [[1], [2, 3]] ∧ c.written.flatten <+: c.arrived.flatten := by
  obtain ⟨c, hrun, hwritten, hudp⟩ : ∃ c,
      run Conn.step (.pending false false) closedEarly = some c ∧
        c.written = [[1], [2, 3]] ∧ c.isUDP = false :=
    exists_run_of_any (by decide +kernel)
  exact ⟨c, hrun, hwritten, ((local_frames_delivered hrun).1 hudp).1⟩

end NexusProxy.Client.LocalDelivery
