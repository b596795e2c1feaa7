import Mathlib.Data.List.Infix
import NexusProxy.Lib.Semaphore
import NexusProxy.Lib.Transition
import NexusProxy.Proxy.Frames

/-! The origin side of a tunnelled TCP stream: `StartTunnel` reads the client and sends its
chunks to the peer through a queue that drops what does not fit. -/
namespace NexusProxy.Peer
open Protocol Proxy Transition

/-- The messages of one tunnel. -/
inductive Message where
  | request
  | credits (n : ℕ)
  | data (payload : Bytes)
  | close
  deriving DecidableEq

/-- `StartTunnel`, by what it is about to do. -/
inductive Phase where
  | request
  | grant
  | acquire
  | read
  | sending (payload : Bytes)
  | closing
  | done
  deriving DecidableEq

/-- `sendCh` is the semaphore of direction-1 credits and `queue` the tunnel's messages in
the peer's send channel. `delivered` and `dropped` are history: the payloads handed to
`HandleTunnelData`, and whether a data message was dropped. -/
structure Tunnel where
  conn : NetConn
  phase : Phase
  sendActive : Bool
  sendCh : Semaphore
  queue : List Message
  delivered : Bytes
  dropped : Bool
  deriving DecidableEq

inductive Action where
  | acquire
  | read
  | readClosed
  | send (accepted : Bool)
  | abandon
  | deliver
  | credits (n : ℕ)
  deriving DecidableEq

namespace Tunnel

def start (conn : NetConn) : Tunnel where
  conn := conn
  phase := .request
  sendActive := false
  sendCh := .empty defaultCreditCapacity
  queue := []
  delivered := []
  dropped := false

/-- `p.Send`: the message is queued, or dropped when the channel is full. -/
def enqueue (s : Tunnel) (m : Message) (accepted : Bool) : Tunnel :=
  if accepted then { s with queue := s.queue ++ [m] } else s

/-- The refund of a dropped data message's credit. -/
def refund (s : Tunnel) : Tunnel :=
  if s.sendActive then { s with sendCh := s.sendCh.offer } else s

/-- The results of `p.Send` are looked at only for data. -/
def send (s : Tunnel) (accepted : Bool) : Option Tunnel :=
  match s.phase with
  | .request => some { s.enqueue .request accepted with phase := .grant }
  | .grant => some { s.enqueue (.credits defaultCreditCapacity) accepted with phase := .acquire }
  | .sending payload =>
      some (if accepted then { s.enqueue (.data payload) true with phase := .acquire }
        else { s.refund with phase := .acquire, dropped := true })
  | .closing => some { s.enqueue .close accepted with phase := .done }
  | _ => none

def step (s : Tunnel) : Action → Option Tunnel
  | .acquire =>
      if s.phase = .acquire then
        if s.sendActive then
          s.sendCh.acquire.map fun sendCh => { s with sendCh := sendCh, phase := .read }
        else some { s with phase := .read }
      else none
  | .read =>
      if s.phase = .read then
        match s.conn.read copyBufferSize with
        | ((_, some _), conn) => some { s with conn := conn, phase := .closing }
        | ((payload, none), conn) => some { s with conn := conn, phase := .sending payload }
      else none
  -- the connection is closed under the reader
  | .readClosed => if s.phase = .read then some { s with phase := .closing } else none
  | .send accepted => s.send accepted
  -- the tunnel, the peer or the manager ends while the loop waits for a credit or bandwidth
  | .abandon =>
      match s.phase with
      | .acquire | .sending _ => some { s with phase := .done }
      | _ => none
  -- the peer's pumps deliver in order
  | .deliver =>
      match s.queue with
      | .data payload :: queue =>
          some { s with queue := queue, delivered := s.delivered ++ payload }
      | _ :: queue => some { s with queue := queue }
      | [] => none
  | .credits n =>
      let credits := if n = 0 ∨ defaultCreditCapacity < n then defaultCreditCapacity else n
      some { s with sendActive := true, sendCh := s.sendCh.offerMany credits }

end Tunnel

def payloads (queue : List Message) : Bytes :=
  queue.flatMap fun
    | .data payload => payload
    | _ => []

@[simp] theorem payloads_append (p q : List Message) :
    payloads (p ++ q) = payloads p ++ payloads q :=
  List.flatMap_append

def Phase.inHand : Phase → Bytes
  | .sending payload => payload
  | _ => []

namespace Tunnel

/-- What has been delivered or is on its way is a prefix of the stream, and as long as
nothing was dropped the rest is still to come. -/
structure Faithful (stream : Bytes) (s : Tunnel) : Prop where
  sound : s.delivered ++ payloads s.queue <+: stream
  complete : s.dropped = false → s.phase ≠ .done →
    s.delivered ++ payloads s.queue ++ s.phase.inHand ++ s.conn.stream = stream

/-- No data message is queued after one was dropped. -/
def Undropped (s : Tunnel) : Action → Prop
  | .send true => s.phase.inHand ≠ [] → s.dropped = false
  | _ => True

instance (s : Tunnel) (a : Action) : Decidable (s.Undropped a) := by
  unfold Undropped
  split <;> infer_instance

section Faithful
variable {stream : Bytes} {s t : Tunnel}

theorem start_faithful (conn : NetConn) : Faithful conn.stream (start conn) where
  sound := List.nil_prefix
  complete _ _ := rfl

theorem Faithful.of_eq (hs : Faithful stream s) (hq : payloads t.queue = payloads s.queue)
    (hd : t.delivered = s.delivered) (hdrop : t.dropped = false → s.dropped = false)
    (hrest : t.dropped = false → t.phase ≠ .done → s.phase ≠ .done ∧
      t.phase.inHand ++ t.conn.stream = s.phase.inHand ++ s.conn.stream) : Faithful stream t where
  sound := by
    rw [hd, hq]
    exact hs.sound
  complete hdrop' hphase := by
    obtain ⟨hold, heq⟩ := hrest hdrop' hphase
    have hall := hs.complete (hdrop hdrop') hold
    rw [List.append_assoc] at hall ⊢
    rw [hd, hq, heq]
    exact hall

theorem enqueue_payloads (s : Tunnel) {m : Message} (hm : payloads [m] = []) (accepted : Bool) :
    payloads (s.enqueue m accepted).queue = payloads s.queue := by
  unfold enqueue
  split_ifs
  · rw [payloads_append, hm, List.append_nil]
  · rfl

theorem refund_eq (s : Tunnel) : s.refund = { s with sendCh := s.refund.sendCh } := by
  unfold refund
  split_ifs <;> rfl

theorem Faithful.of_control {m : Message} {phase : Phase} (hs : Faithful stream s)
    (hm : payloads [m] = []) (hphase : s.phase ≠ .done) (hold : s.phase.inHand = [])
    (hnew : phase.inHand = []) (accepted : Bool) :
    Faithful stream { s.enqueue m accepted with phase := phase } := by
  have henq : s.enqueue m accepted =
      { s with queue := (s.enqueue m accepted).queue } := by
    unfold enqueue
    split_ifs <;> rfl
  refine hs.of_eq (s.enqueue_payloads hm accepted) ?_ ?_ ?_
  · rw [henq]
  · rw [henq]
    exact id
  · intro _ _
    rw [henq]
    exact ⟨hphase, by rw [hold]; change phase.inHand ++ _ = _; rw [hnew]⟩

theorem send_faithful {accepted : Bool} (hs : Faithful stream s)
    (hG : s.Undropped (.send accepted)) (h : s.send accepted = some t) : Faithful stream t := by
  unfold send at h
  cases hphase : s.phase with
  | request =>
    simp only [hphase, Option.some.injEq] at h
    subst h
    exact hs.of_control rfl (by simp [hphase]) (by rw [hphase]; rfl) rfl accepted
  | grant =>
    simp only [hphase, Option.some.injEq] at h
    subst h
    exact hs.of_control rfl (by simp [hphase]) (by rw [hphase]; rfl) rfl accepted
  | closing =>
    simp only [hphase, Option.some.injEq] at h
    subst h
    exact hs.of_control rfl (by simp [hphase]) (by rw [hphase]; rfl) rfl accepted
  | sending payload =>
    simp only [hphase, Option.some.injEq] at h
    subst h
    cases accepted with
    | false =>
      rw [if_neg (by simp)]
      rw [refund_eq]
      exact ⟨hs.sound, fun hcon => by cases hcon⟩
    | true =>
      rw [if_pos rfl]
      have hG : payload ≠ [] → s.dropped = false := by
        intro hne
        exact hG (by rw [hphase]; exact hne)
      have hall := fun hdrop => hs.complete hdrop (by simp [hphase])
      rw [hphase, Phase.inHand] at hall
      have hqueue : s.delivered ++ payloads (s.queue ++ [.data payload]) =
          s.delivered ++ payloads s.queue ++ payload := by
        simp [payloads]
      refine ⟨?_, fun hdrop _ => ?_⟩
      · change s.delivered ++ payloads (s.queue ++ [.data payload]) <+: stream
        rw [hqueue]
        by_cases hne : payload = []
        · rw [hne, List.append_nil]
          exact hs.sound
        · rw [← hall (hG hne)]
          exact List.prefix_append _ _
      · change s.delivered ++ payloads (s.queue ++ [.data payload]) ++ [] ++ s.conn.stream = stream
        rw [hqueue, List.append_nil]
        exact hall hdrop
  | _ => simp [hphase] at h

theorem read_faithful (hs : Faithful stream s) (h : s.step .read = some t) :
    Faithful stream t := by
  have hread := NetConn.read_lossless s.conn copyBufferSize
  simp only [step] at h
  split_ifs at h with hphase
  have herr : (s.conn.read copyBufferSize).1.2 ≠ none → (s.conn.read copyBufferSize).1.1 = [] :=
    NetConn.read_error
  obtain ⟨⟨⟨payload, err⟩, conn⟩, hres⟩ : ∃ r, s.conn.read copyBufferSize = r := ⟨_, rfl⟩
  rw [hres] at hread herr
  have hold : s.phase.inHand = [] := by
    rw [hphase]
    rfl
  cases err with
  | none =>
    simp only [hres, Option.some.injEq] at h
    subst h
    refine hs.of_eq rfl rfl id fun _ _ => ⟨by simp [hphase], ?_⟩
    rw [hold]
    exact hread
  | some e =>
    simp only [hres, Option.some.injEq] at h
    subst h
    refine hs.of_eq rfl rfl id fun _ _ => ⟨by simp [hphase], ?_⟩
    have hnil : payload = [] := herr (by simp)
    rw [hnil] at hread
    rw [hold]
    exact hread

theorem deliver_faithful (hs : Faithful stream s) (h : s.step .deliver = some t) :
    Faithful stream t := by
  have hsound := hs.sound
  have hcomplete := hs.complete
  simp only [step] at h
  split at h
  · next payload queue hq =>
    cases h
    have hmove : s.delivered ++ payload ++ payloads queue = s.delivered ++ payloads s.queue := by
      rw [hq, List.append_assoc]
      rfl
    rw [← hmove] at hsound hcomplete
    exact ⟨hsound, hcomplete⟩
  · next m queue hm hq =>
    cases h
    have hmove : payloads queue = payloads s.queue := by
      rw [hq]
      cases m with
      | data payload => exact absurd rfl (hm payload)
      | _ => rfl
    exact hs.of_eq hmove rfl id fun _ hphase => ⟨hphase, rfl⟩
  · cases h

theorem step_faithful {a : Action} (hs : Faithful stream s) (hG : s.Undropped a)
    (h : s.step a = some t) : Faithful stream t := by
  cases a with
  | acquire =>
    simp only [step] at h
    split_ifs at h with hphase hactive
    · obtain ⟨sendCh, -, rfl⟩ := Option.map_eq_some_iff.mp h
      exact hs.of_eq rfl rfl id fun _ _ => ⟨by simp [hphase], by rw [hphase]; rfl⟩
    · cases h
      exact hs.of_eq rfl rfl id fun _ _ => ⟨by simp [hphase], by rw [hphase]; rfl⟩
  | read => exact read_faithful hs h
  | readClosed =>
    simp only [step] at h
    split_ifs at h with hphase
    cases h
    exact hs.of_eq rfl rfl id fun _ _ => ⟨by simp [hphase], by rw [hphase]; rfl⟩
  | send accepted => exact send_faithful hs hG h
  | abandon =>
    simp only [step] at h
    split at h <;> cases h <;> exact hs.of_eq rfl rfl id fun _ hdone => absurd rfl hdone
  | deliver => exact deliver_faithful hs h
  | credits n =>
    cases h
    exact hs.of_eq rfl rfl id fun _ hphase => ⟨hphase, rfl⟩

/-- What the destination has been handed is a prefix of what the client sent. -/
theorem delivered_isPrefix {conn : NetConn} {as : List Action}
    (hG : Along step Undropped (start conn) as) (h : run step (start conn) as = some s) :
    s.delivered <+: conn.stream := by
  have hs : Faithful conn.stream s :=
    invariant_along (fun _ _ _ hu => step_faithful hu) (start_faithful conn) hG h
  exact (List.prefix_append _ _).trans hs.sound

end Faithful

/-- Open the tunnel, then read and send one chunk for every entry: whether the send channel
has room. -/
def chunkTrace (room : List Bool) : List Action :=
  [.send true, .send true] ++ room.flatMap (fun accepted => [.acquire, .read, .send accepted])

theorem delivered_isPrefix_truncated : ∃ s,
    run step (start (.tcp [.data [1], .data [2], .data [3]]))
        (chunkTrace [true, true, false] ++ List.replicate 4 .deliver) = some s ∧
      s.delivered = [1, 2] ∧ s.delivered <+: [1, 2, 3] := by
  obtain ⟨s, h, hdel⟩ : ∃ s, run step (start (.tcp [.data [1], .data [2], .data [3]]))
      (chunkTrace [true, true, false] ++ List.replicate 4 .deliver) = some s ∧
        s.delivered = [1, 2] := exists_run_of_any (by decide +kernel)
  exact ⟨s, h, hdel, delivered_isPrefix (by decide +kernel) h⟩

/-- The second chunk is dropped and the third one is not. -/
theorem delivered_with_hole : ∃ s,
    run step (start (.tcp [.data [1], .data [2], .data [3]]))
        (chunkTrace [true, false, true] ++ List.replicate 4 .deliver) = some s ∧
      s.delivered = [1, 3] ∧ ¬s.delivered <+: [1, 2, 3] :=
  exists_run_of_any (by decide +kernel)

end Tunnel
end NexusProxy.Peer
