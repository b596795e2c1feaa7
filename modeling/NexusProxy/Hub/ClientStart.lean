import NexusProxy.Flow.ForwardCredits
import NexusProxy.Flow.ReverseCredits
import NexusProxy.Proxy.Sniff

/-! One client id from `AddClient` on: the two steps that announce and store the client,
the pumps in between, and what the backend sends back for the id. -/
namespace NexusProxy.Hub.ClientStart
open Flow.ForwardCredits Flow.ReverseCredits Protocol Proxy Transition

/-- `AddClient`, by what it has done. -/
inductive Phase where
  | idle
  | enqueued
  | failed
  | added
  deriving DecidableEq

/-- The lifecycle events of the id in the data lane. -/
inductive Event where
  | connect
  | disconnect
  deriving DecidableEq

/-- What the backend sends for the id. -/
inductive Reply where
  | data (payload : Bytes)
  | resumeStream (credits : ℤ)
  | disconnect
  deriving DecidableEq

/-- A `bufferedConn`: its channel, the payloads that `drain` has taken, and `quit`. -/
structure BufferedConn where
  writeCh : List Bytes
  taken : List Bytes
  quit : Bool
  deriving DecidableEq

namespace BufferedConn

def new : BufferedConn := ⟨[], [], false⟩

def Accepts (c : BufferedConn) : Prop :=
  c.quit = false ∧ c.writeCh.length < clientWriteBufferSize

instance (c : BufferedConn) : Decidable c.Accepts := inferInstanceAs (Decidable (_ ∧ _))

/-- `Write`; `none` is an error. -/
def write (c : BufferedConn) (payload : Bytes) : Option BufferedConn :=
  if c.Accepts then some { c with writeCh := c.writeCh ++ [payload] } else none

/-- A turn of `drain`. A failed write ends it. -/
def drain (c : BufferedConn) (ok : Bool) : Option BufferedConn :=
  match c.writeCh with
  | [] => none
  | payload :: rest =>
      if c.quit then none
      else some { writeCh := rest, taken := c.taken ++ [payload], quit := !ok }

end BufferedConn

/-- `client` and `forwardCredits` are the entries of the two maps, `outgoingData` the id's
events in the data lane, `toBackend` and `toHub` what is under way. `opened` and `closed`
tell what the backend knows. `removed`, `sent` and `applied` are history: whether the hub
has removed the client, the replies sent before either side disconnected the id, and the
replies applied to the client. -/
structure Session where
  phase : Phase
  client : Option BufferedConn
  forwardCredits : Option Semaphore
  outgoingData : List Event
  toBackend : List Event
  opened : Bool
  closed : Bool
  toHub : List Reply
  removed : Bool
  sent : List Reply
  applied : List Reply
  deriving DecidableEq

/-- Booleans say whether an event found room in the data lane, and whether a write to the
client's socket succeeded. -/
inductive Action where
  | enqueueConnect (queued : Bool)
  | storeClient
  | writePump
  | receive
  | send (reply : Reply)
  | readPump (queued : Bool)
  | drain (ok : Bool)
  | removeClient (queued : Bool)
  deriving DecidableEq

namespace Session

def start : Session where
  phase := .idle
  client := none
  forwardCredits := none
  outgoingData := []
  toBackend := []
  opened := false
  closed := false
  toHub := []
  removed := false
  sent := []
  applied := []

def removeClient (s : Session) (queued : Bool) : Session :=
  match s.client with
  | none => s
  | some _ =>
      { s with
        client := none
        forwardCredits := none
        removed := true
        outgoingData := if queued then s.outgoingData ++ [.disconnect] else s.outgoingData }

/-- The part of `handleBinaryMessage` and `handleControlMessage` for the id. -/
def handle (s : Session) (queued : Bool) : Reply → Session
  | .data payload =>
      match s.client with
      | none => s
      | some c =>
          match c.write payload with
          | some c => { s with client := some c, applied := s.applied ++ [.data payload] }
          | none => s.removeClient queued
  | .resumeStream credits =>
      match s.client with
      | none => s
      | some _ =>
          { s with
            forwardCredits := addForwardCredits s.forwardCredits credits
            applied := s.applied ++ [.resumeStream credits] }
  | .disconnect => { s with client := none }

def step (s : Session) : Action → Option Session
  | .enqueueConnect queued =>
      if s.phase = .idle then
        if queued then
          some { s with phase := .enqueued, outgoingData := s.outgoingData ++ [.connect] }
        else some { s with phase := .failed }
      else none
  | .storeClient =>
      if s.phase = .enqueued then some { s with phase := .added, client := some .new } else none
  | .writePump =>
      match s.outgoingData with
      | [] => none
      | event :: rest => some { s with outgoingData := rest, toBackend := s.toBackend ++ [event] }
  | .receive =>
      match s.toBackend with
      | [] => none
      | .connect :: rest => some { s with toBackend := rest, opened := true }
      | .disconnect :: rest => some { s with toBackend := rest, closed := true }
  | .send reply =>
      if s.opened ∧ s.closed = false then
        if reply = .disconnect then
          some { s with toHub := s.toHub ++ [.disconnect], closed := true }
        else
          some { s with
            toHub := s.toHub ++ [reply]
            sent := if s.removed then s.sent else s.sent ++ [reply] }
      else none
  | .readPump queued =>
      match s.toHub with
      | [] => none
      | reply :: rest => some ({ s with toHub := rest }.handle queued reply)
  | .drain ok => (s.client.bind (·.drain ok)).map fun c => { s with client := some c }
  | .removeClient queued => if s.phase = .added then some (s.removeClient queued) else none

end Session

def Reply.payload : Reply → Option Bytes
  | .data payload => some payload
  | _ => none

def Reply.credits : Reply → Option ℤ
  | .resumeStream credits => some credits
  | _ => none

namespace Session

/-- The replies under way that were sent before either side disconnected the id. -/
def pending (s : Session) : List Reply :=
  if s.removed then [] else s.toHub.filter (· ≠ .disconnect)

/-- Every reply that the backend sent before a disconnect is applied, in order, or still
under way: the data is in the client's `bufferedConn`, the credits are in its semaphore. -/
structure Delivered (s : Session) : Prop where
  inOrder : s.sent = s.applied ++ s.pending
  buffered : ∀ c, s.client = some c → s.applied.filterMap Reply.payload = c.taken ++ c.writeCh
  credited : s.removed = false →
    s.forwardCredits = (s.applied.filterMap Reply.credits).foldl addForwardCredits none

instance (s : Session) : Decidable s.Delivered :=
  decidable_of_iff (s.sent = s.applied ++ s.pending ∧
      (∀ c ∈ s.client, s.applied.filterMap Reply.payload = c.taken ++ c.writeCh) ∧
      (s.removed = false →
        s.forwardCredits = (s.applied.filterMap Reply.credits).foldl addForwardCredits none))
    ⟨fun ⟨h₁, h₂, h₃⟩ => ⟨h₁, h₂, h₃⟩, fun ⟨h₁, h₂, h₃⟩ => ⟨h₁, h₂, h₃⟩⟩

/-- The client is stored before its `EventConnect` is written, its connection has room for
a data frame when the frame is handled, and no reply is under way when the hub removes it. -/
def Orderly (s : Session) : Action → Prop
  | .writePump => s.outgoingData.head? = some .connect → s.phase = .added
  | .readPump _ =>
      ∀ c ∈ s.client, (s.toHub.head?.bind Reply.payload).isSome = true → c.Accepts
  | .removeClient _ => s.client = none ∨ s.pending = []
  | _ => True

instance (s : Session) : ∀ a, Decidable (s.Orderly a)
  | .writePump => inferInstanceAs (Decidable (_ → _))
  | .readPump _ => inferInstanceAs (Decidable (∀ c ∈ s.client, _ → c.Accepts))
  | .removeClient _ => inferInstanceAs (Decidable (_ ∨ _))
  | .enqueueConnect _ | .storeClient | .receive | .send _ | .drain _ =>
      inferInstanceAs (Decidable True)

/-- What holds in orderly runs. Once a reply is under way, the client is stored; it is
missing only after a disconnect, and the backend's disconnect is its last reply. -/
structure Stored (s : Session) : Prop where
  announced : .connect ∈ s.toBackend ∨ s.opened = true ∨ s.toHub ≠ [] → s.phase = .added
  present : s.phase = .added → s.removed = false → s.client = none →
    s.closed = true ∧ s.toHub = []
  closing : .disconnect ∈ s.toHub → s.closed = true
  last : .disconnect ∉ s.toHub.dropLast
  absent : s.phase ≠ .added → s.client = none ∧ s.applied = []
  gone : s.removed = true → s.phase = .added ∧ s.client = none
  delivered : s.Delivered

theorem start_stored : start.Stored where
  announced := by simp [start]
  present := by simp [start]
  closing := by simp [start]
  last := by simp [start]
  absent := by simp [start]
  gone := by simp [start]
  delivered := by decide

variable {s : Session}

theorem Stored.not_removed (h : s.Stored) {c : BufferedConn} (hc : s.client = some c) :
    s.removed = false := by
  rw [Bool.eq_false_iff]
  intro hremoved
  rw [(h.gone hremoved).2] at hc
  cases hc

theorem Stored.removeClient (h : s.Stored) (hphase : s.phase = .added) (queued : Bool)
    (hok : s.Orderly (.removeClient queued)) : (s.removeClient queued).Stored := by
  unfold Session.removeClient
  cases hc : s.client with
  | none => exact h
  | some c =>
    have hpending : s.pending = [] := by
      rcases hok with hnone | hpending
      · rw [hnone] at hc
        cases hc
      · exact hpending
    constructor
    · exact h.announced
    · intro _ hremoved
      cases hremoved
    · exact h.closing
    · exact h.last
    · intro hne
      exact absurd hphase hne
    · intro _
      exact ⟨hphase, rfl⟩
    · constructor
      · rw [h.delivered.inOrder, hpending]
        rfl
      · intro c hc
        cases hc
      · intro hremoved
        cases hremoved

theorem Stored.enqueueConnect (h : s.Stored) (hphase : s.phase = .idle) {phase : Phase}
    (hadded : phase ≠ .added) (lane : List Event) :
    Stored { s with phase := phase, outgoingData := lane } := by
  constructor
  · intro hannounced
    rw [h.announced hannounced] at hphase
    cases hphase
  · intro hphase
    exact absurd hphase hadded
  · exact h.closing
  · exact h.last
  · intro _
    apply h.absent
    rw [hphase]
    decide
  · intro hremoved
    rw [(h.gone hremoved).1] at hphase
    cases hphase
  · obtain ⟨hsent, hbuffered, hcredits⟩ := h.delivered
    exact ⟨hsent, hbuffered, hcredits⟩

theorem Stored.of_events (h : s.Stored) {lane wire : List Event} {opened closed : Bool}
    (hannounced : .connect ∈ wire ∨ opened = true → s.phase = .added)
    (hclosed : s.closed = true → closed = true) :
    Stored { s with
      outgoingData := lane
      toBackend := wire
      opened := opened
      closed := closed } := by
  constructor
  · rintro (hwire | hopened | hhub)
    · exact hannounced (Or.inl hwire)
    · exact hannounced (Or.inr hopened)
    · exact h.announced (Or.inr (Or.inr hhub))
  · intro hphase hremoved hnone
    obtain ⟨hc, hhub⟩ := h.present hphase hremoved hnone
    exact ⟨hclosed hc, hhub⟩
  · intro hmem
    exact hclosed (h.closing hmem)
  · exact h.last
  · exact h.absent
  · exact h.gone
  · obtain ⟨hsent, hbuffered, hcredits⟩ := h.delivered
    exact ⟨hsent, hbuffered, hcredits⟩

theorem Stored.writePump (h : s.Stored) {event : Event} {rest : List Event}
    (hstored : event = .connect → s.phase = .added) :
    Stored { s with outgoingData := rest, toBackend := s.toBackend ++ [event] } := by
  apply h.of_events
  · rintro (hmem | hopened)
    · rcases List.mem_append.mp hmem with hmem | hmem
      · exact h.announced (Or.inl hmem)
      · exact hstored (List.mem_singleton.mp hmem).symm
    · exact h.announced (Or.inr (Or.inl hopened))
  · exact id

theorem Stored.receiveConnect (h : s.Stored) {rest : List Event}
    (hwire : s.toBackend = .connect :: rest) :
    Stored { s with toBackend := rest, opened := true } := by
  apply h.of_events
  · intro _
    apply h.announced
    rw [hwire]
    exact Or.inl List.mem_cons_self
  · exact id

theorem Stored.receiveDisconnect (h : s.Stored) {rest : List Event}
    (hwire : s.toBackend = .disconnect :: rest) :
    Stored { s with toBackend := rest, closed := true } := by
  apply h.of_events
  · rintro (hmem | hopened)
    · apply h.announced
      rw [hwire]
      exact Or.inl (List.mem_cons_of_mem _ hmem)
    · exact h.announced (Or.inr (Or.inl hopened))
  · intro _
    rfl

theorem Stored.storeClient (h : s.Stored) (hphase : s.phase = .enqueued) :
    Stored { s with phase := .added, client := some .new } := by
  obtain ⟨-, happlied⟩ := h.absent (by rw [hphase]; decide)
  constructor
  · intro _
    rfl
  · intro _ _ hnone
    cases hnone
  · exact h.closing
  · exact h.last
  · intro hne
    exact absurd rfl hne
  · intro hremoved
    rw [(h.gone hremoved).1] at hphase
    cases hphase
  · obtain ⟨hsent, -, hcredits⟩ := h.delivered
    refine ⟨hsent, ?_, hcredits⟩
    rintro c hc
    cases hc
    simp [happlied, BufferedConn.new]

theorem Stored.no_disconnect (h : s.Stored) (hclosed : s.closed = false) :
    .disconnect ∉ s.toHub := by
  intro hmem
  rw [h.closing hmem] at hclosed
  cases hclosed

theorem Stored.send (h : s.Stored) (hopened : s.opened = true) (hclosed : s.closed = false)
    {reply : Reply} (hreply : reply ≠ .disconnect) :
    Stored { s with
      toHub := s.toHub ++ [reply]
      sent := if s.removed then s.sent else s.sent ++ [reply] } := by
  have hphase := h.announced (Or.inr (Or.inl hopened))
  constructor
  · intro _
    exact hphase
  · intro _ hremoved hnone
    rw [(h.present hphase hremoved hnone).1] at hclosed
    cases hclosed
  · intro hmem
    rcases List.mem_append.mp hmem with hmem | hmem
    · exact h.closing hmem
    · exact absurd (List.mem_singleton.mp hmem).symm hreply
  · simpa using h.no_disconnect hclosed
  · exact h.absent
  · exact h.gone
  · obtain ⟨hsent, hbuffered, hcredits⟩ := h.delivered
    refine ⟨?_, hbuffered, hcredits⟩
    cases hremoved : s.removed <;> simp [hsent, pending, hremoved, hreply]

theorem Stored.sendDisconnect (h : s.Stored) (hopened : s.opened = true)
    (hclosed : s.closed = false) :
    Stored { s with toHub := s.toHub ++ [.disconnect], closed := true } := by
  have hphase := h.announced (Or.inr (Or.inl hopened))
  constructor
  · intro _
    exact hphase
  · intro _ hremoved hnone
    rw [(h.present hphase hremoved hnone).1] at hclosed
    cases hclosed
  · intro _
    rfl
  · simpa using h.no_disconnect hclosed
  · exact h.absent
  · exact h.gone
  · obtain ⟨hsent, hbuffered, hcredits⟩ := h.delivered
    refine ⟨?_, hbuffered, hcredits⟩
    simp [hsent, pending]

/-- While a reply is under way to a client that the hub has not removed, it is stored. -/
theorem Stored.client_of_reply (h : s.Stored) (hhub : s.toHub ≠ []) (hremoved : s.removed = false) :
    s.client ≠ none := by
  intro hnone
  exact hhub (h.present (h.announced (Or.inr (Or.inr hhub))) hremoved hnone).2

theorem Stored.of_handled (h : s.Stored) {reply : Reply} {rest : List Reply}
    (hhub : s.toHub = reply :: rest) {t : Session} (hphase : t.phase = s.phase)
    (hclosed : t.closed = s.closed) (hrest : t.toHub = rest)
    (hpresent : t.removed = false → t.client = none → t.closed = true ∧ t.toHub = [])
    (hgone : t.removed = true → t.client = none) (hdelivered : t.Delivered) : t.Stored := by
  have hadded : t.phase = .added := by
    rw [hphase]
    apply h.announced
    rw [hhub]
    exact Or.inr (Or.inr (List.cons_ne_nil _ _))
  constructor
  · intro _
    exact hadded
  · intro _
    exact hpresent
  · intro hmem
    rw [hclosed]
    apply h.closing
    rw [hhub, ← hrest]
    exact List.mem_cons_of_mem _ hmem
  · intro hmem
    apply h.last
    rw [hhub, ← hrest]
    cases ht : t.toHub with
    | nil => simp [ht] at hmem
    | cons next tail =>
      rw [ht] at hmem
      exact List.mem_cons_of_mem _ hmem
  · intro hne
    exact absurd hadded hne
  · intro hremoved
    exact ⟨hadded, hgone hremoved⟩
  · exact hdelivered

theorem handle_unknown (hc : s.client = none) {reply : Reply} (hreply : reply ≠ .disconnect)
    (queued : Bool) : s.handle queued reply = s := by
  cases reply with
  | data payload => simp [handle, hc]
  | resumeStream credits => simp [handle, hc]
  | disconnect => exact absurd rfl hreply

theorem handle_data {c : BufferedConn} (hc : s.client = some c) (haccepts : c.Accepts)
    (payload : Bytes) (queued : Bool) :
    s.handle queued (.data payload) =
      { s with
        client := some { c with writeCh := c.writeCh ++ [payload] }
        applied := s.applied ++ [.data payload] } := by
  simp [handle, hc, BufferedConn.write, haccepts]

theorem handle_resumeStream {c : BufferedConn} (hc : s.client = some c) (credits : ℤ)
    (queued : Bool) :
    s.handle queued (.resumeStream credits) =
      { s with
        forwardCredits := addForwardCredits s.forwardCredits credits
        applied := s.applied ++ [.resumeStream credits] } := by
  simp [handle, hc]

/-- A reply finds no client only after the hub has removed it. -/
theorem Stored.handleUnknown (h : s.Stored) {reply : Reply} {rest : List Reply}
    (hhub : s.toHub = reply :: rest) (hc : s.client = none) :
    Stored { s with toHub := rest } := by
  have hne : s.toHub ≠ [] := by
    rw [hhub]
    exact List.cons_ne_nil _ _
  apply h.of_handled hhub
  · rfl
  · rfl
  · rfl
  · intro hremoved
    exact absurd hc (h.client_of_reply hne hremoved)
  · intro _
    exact hc
  · obtain ⟨hsent, hbuffered, hcredits⟩ := h.delivered
    have hremoved : s.removed = true := by
      rw [← Bool.not_eq_false]
      intro hremoved
      exact h.client_of_reply hne hremoved hc
    refine ⟨?_, hbuffered, hcredits⟩
    simpa [pending, hremoved] using hsent

theorem Stored.handleData (h : s.Stored) {payload : Bytes} {rest : List Reply}
    (hhub : s.toHub = .data payload :: rest) {c : BufferedConn} (hc : s.client = some c) :
    Stored { s with
      toHub := rest
      client := some { c with writeCh := c.writeCh ++ [payload] }
      applied := s.applied ++ [.data payload] } := by
  apply h.of_handled hhub
  · rfl
  · rfl
  · rfl
  · intro _ hnone
    cases hnone
  · intro hremoved
    rw [(h.gone hremoved).2] at hc
    cases hc
  · obtain ⟨hsent, hbuffered, hcredits⟩ := h.delivered
    constructor
    · simp [hsent, hhub, pending, h.not_removed hc]
    · rintro _ ⟨⟩
      simp [hbuffered c hc, Reply.payload]
    · intro hremoved
      simp [hcredits hremoved, List.filterMap_cons, Reply.credits]

theorem Stored.handleResumeStream (h : s.Stored) {credits : ℤ} {rest : List Reply}
    (hhub : s.toHub = .resumeStream credits :: rest) {c : BufferedConn} (hc : s.client = some c) :
    Stored { s with
      toHub := rest
      forwardCredits := addForwardCredits s.forwardCredits credits
      applied := s.applied ++ [.resumeStream credits] } := by
  apply h.of_handled hhub
  · rfl
  · rfl
  · rfl
  · intro _ hnone
    exact absurd (hnone.symm.trans hc) (by simp)
  · intro hremoved
    exact (h.gone hremoved).2
  · obtain ⟨hsent, hbuffered, hcredits⟩ := h.delivered
    constructor
    · simp [hsent, hhub, pending, h.not_removed hc]
    · intro c' hc'
      simp [hbuffered c' hc', Reply.payload]
    · intro hremoved
      simp [hcredits hremoved, Reply.credits]

theorem Stored.handleDisconnect (h : s.Stored) {rest : List Reply}
    (hhub : s.toHub = .disconnect :: rest) :
    Stored { s with toHub := rest, client := none } := by
  have hclosed : s.closed = true := h.closing (by rw [hhub]; exact List.mem_cons_self)
  have hrest : rest = [] := by
    have hlast := h.last
    rw [hhub] at hlast
    cases rest with
    | nil => rfl
    | cons next tail => exact absurd List.mem_cons_self hlast
  apply h.of_handled hhub
  · rfl
  · rfl
  · rfl
  · intro _ _
    exact ⟨hclosed, hrest⟩
  · intro _
    rfl
  · obtain ⟨hsent, -, hcredits⟩ := h.delivered
    refine ⟨?_, ?_, hcredits⟩
    · simp [hsent, hhub, pending]
    · intro c hc
      cases hc

theorem Stored.readPump (h : s.Stored) {reply : Reply} {rest : List Reply}
    (hhub : s.toHub = reply :: rest) (queued : Bool) (hok : s.Orderly (.readPump queued)) :
    ({ s with toHub := rest }.handle queued reply).Stored := by
  by_cases hdisconnect : reply = .disconnect
  · subst hdisconnect
    exact h.handleDisconnect hhub
  by_cases hnone : s.client = none
  · rw [handle_unknown (s := { s with toHub := rest }) hnone hdisconnect]
    exact h.handleUnknown hhub hnone
  obtain ⟨c, hc⟩ := Option.ne_none_iff_exists'.mp hnone
  cases reply with
  | data payload =>
    have haccepts : c.Accepts := hok c hc (by simp [hhub, Reply.payload])
    rw [handle_data (s := { s with toHub := rest }) hc haccepts]
    exact h.handleData hhub hc
  | resumeStream credits =>
    rw [handle_resumeStream (s := { s with toHub := rest }) hc]
    exact h.handleResumeStream hhub hc
  | disconnect => exact absurd rfl hdisconnect

theorem Stored.drain (h : s.Stored) {c d : BufferedConn} (hc : s.client = some c) {ok : Bool}
    (hdrain : c.drain ok = some d) : Stored { s with client := some d } := by
  have hsplit : d.taken ++ d.writeCh = c.taken ++ c.writeCh := by
    unfold BufferedConn.drain at hdrain
    split at hdrain
    · cases hdrain
    · next hch =>
      split_ifs at hdrain
      cases hdrain
      simp [hch]
  constructor
  · exact h.announced
  · intro _ _ hnone
    cases hnone
  · exact h.closing
  · exact h.last
  · intro hne
    rw [(h.absent hne).1] at hc
    cases hc
  · intro hremoved
    rw [(h.gone hremoved).2] at hc
    cases hc
  · obtain ⟨hsent, hbuffered, hcredits⟩ := h.delivered
    refine ⟨hsent, ?_, hcredits⟩
    rintro _ ⟨⟩
    rw [hsplit]
    exact hbuffered c hc

theorem step_stored {t : Session} {a : Action} (h : s.Stored) (hok : s.Orderly a)
    (hstep : s.step a = some t) : t.Stored := by
  cases a with
  | enqueueConnect queued =>
    simp only [step] at hstep
    split_ifs at hstep with hphase hqueued
    · cases hstep
      exact h.enqueueConnect hphase (by decide) _
    · cases hstep
      exact h.enqueueConnect hphase (by decide) _
  | storeClient =>
    simp only [step] at hstep
    split_ifs at hstep with hphase
    cases hstep
    exact h.storeClient hphase
  | writePump =>
    simp only [step] at hstep
    split at hstep
    · cases hstep
    · next event rest hlane =>
      cases hstep
      apply h.writePump
      rintro rfl
      exact hok (by rw [hlane]; rfl)
  | receive =>
    simp only [step] at hstep
    split at hstep
    · cases hstep
    · next rest hwire =>
      cases hstep
      exact h.receiveConnect hwire
    · next rest hwire =>
      cases hstep
      exact h.receiveDisconnect hwire
  | send reply =>
    simp only [step] at hstep
    split at hstep
    · next hopen =>
      by_cases hdisconnect : reply = .disconnect
      · rw [if_pos hdisconnect] at hstep
        cases hstep
        exact h.sendDisconnect hopen.1 hopen.2
      · rw [if_neg hdisconnect] at hstep
        cases hstep
        exact h.send hopen.1 hopen.2 hdisconnect
    · cases hstep
  | readPump queued =>
    simp only [step] at hstep
    split at hstep
    · cases hstep
    · next reply rest hhub =>
      cases hstep
      exact h.readPump hhub queued hok
  | drain ok =>
    simp only [step, Option.map_eq_some_iff, Option.bind_eq_some_iff] at hstep
    obtain ⟨d, ⟨c, hc, hdrain⟩, rfl⟩ := hstep
    exact h.drain hc hdrain
  | removeClient queued =>
    simp only [step] at hstep
    split_ifs at hstep with hphase
    cases hstep
    exact h.removeClient hphase queued hok

theorem run_stored {actions : List Action} (horderly : Along step Orderly start actions)
    (hrun : run step start actions = some s) : s.Stored :=
  invariant_along (fun _ _ _ h hok hstep => step_stored h hok hstep) start_stored horderly hrun

/-- A server-first protocol: credits and a greeting arrive once the client is stored. -/
def greetingTrace : List Action :=
  [.enqueueConnect true, .storeClient, .writePump, .receive, .send (.resumeStream 64),
    .send (.data [50, 50, 48]), .readPump false, .readPump false, .drain true]

end Session

end NexusProxy.Hub.ClientStart
