import NexusProxy.Client.LocalDial
import NexusProxy.Client.Socks5

/-! Outbound requests. Each SOCKS5 connection registers a channel for the relay's answer and
waits for it, while the read pump hands out answers and the end of a session has to release
everybody who still waits. -/
namespace NexusProxy.Client.OutboundRequests
open Proxy LocalDial Socks5 Transition

/-- What `resultCh` carries: the relay's report that it has dialed, with the session it came in,
or an error. -/
inductive Answer where
  | success (session : ℕ)
  | failure
  deriving DecidableEq

/-- Where `handleSocks5Conn` stands once it has read the request: what it does next. The calls
of `fail` go through `delete`, `reply` and `close`. -/
inductive Phase where
  | capture
  | create
  | store
  | enqueue
  | checkSession
  | wait
  | replySuccess
  | activate
  | relay
  | delete (rep : UInt8)
  | reply (rep : UInt8)
  | close
  | done
  deriving DecidableEq

/-- A write to the SOCKS5 client that succeeded. -/
inductive Output where
  | reply (rep : UInt8)
  | data (payload : Bytes)
  deriving DecidableEq

def localConnWriteBuffer : ℕ := 64

/-- A request and its `clientConn`. -/
structure Request where
  phase : Phase
  session : ℕ
  state : ConnState
  resultCh : Option Answer
  writeCh : List Bytes
  sent : List Output
  deriving DecidableEq

def Request.init : Request := ⟨.capture, 0, .pending, none, [], []⟩

/-- Where the loop of `Start` stands: between sessions, in one, or in `drainOutboundPending`
after one. The entries that the `Range` still has to visit are those that it found when it
began; of the entry that it visits it first has the channel, and then deletes the key. -/
inductive Manager where
  | connecting
  | live
  | draining (owed : List ℕ) (visiting : Option (ℕ × Bool))
  deriving DecidableEq

/-- `session` counts the sessions, `reading` is an answer that the read pump has taken from
`outboundPending` and not yet sent, and `reported` is history: the successes of the relay. -/
structure State where
  session : ℕ
  connected : Bool
  manager : Manager
  reading : Option (ℕ × Answer)
  outboundPending : List ℕ
  requests : ℕ → Request
  reported : List (ℕ × ℕ)

def init : State := ⟨0, false, .connecting, none, [], fun _ => .init, []⟩

/-- What a step of a request does to its entry in `outboundPending`. -/
inductive MapOp where
  | keep
  | store
  | delete

def MapOp.apply (id : ℕ) (ids : List ℕ) : MapOp → List ℕ
  | keep => ids
  | store => id :: ids
  | delete => ids.filter (· ≠ id)

namespace Request

def fail (r : Request) (rep : UInt8) : Option (Request × MapOp) :=
  some ({ r with phase := .delete rep }, .keep)

/-- One step of `handleSocks5Conn`. The choice is whether a write or the enqueueing succeeds,
and at the `select` whether the answer is taken, or the timer or the end of the client. -/
def advance (r : Request) (connected : Bool) (session : ℕ) (ok : Bool) :
    Option (Request × MapOp) :=
  match r.phase with
  | .capture =>
      if connected then some ({ r with phase := .create, session := session }, .keep)
      else some ({ r with
        phase := .done
        sent := if ok then r.sent ++ [.reply socks5RepGeneralFailure] else r.sent }, .keep)
  | .create => some ({ r with phase := .store }, .keep)
  | .store => some ({ r with phase := .enqueue }, .store)
  | .enqueue =>
      if ok then some ({ r with phase := .checkSession }, .keep)
      else r.fail socks5RepGeneralFailure
  | .checkSession =>
      if connected = true ∧ r.session = session then some ({ r with phase := .wait }, .keep)
      else r.fail socks5RepGeneralFailure
  | .wait =>
      if ok then
        match r.resultCh with
        | none => none
        | some (.success _) => some ({ r with phase := .replySuccess, resultCh := none }, .keep)
        | some .failure => { r with resultCh := none }.fail socks5RepConnRefused
      else r.fail socks5RepGeneralFailure
  | .replySuccess =>
      if ok then some ({ r with
        phase := .activate
        sent := r.sent ++ [.reply socks5RepSuccess] }, .keep)
      else r.fail socks5RepGeneralFailure
  | .activate =>
      if r.state = .pending then some ({ r with phase := .relay, state := .active }, .keep)
      else some ({ r with phase := .done }, .keep)
  | .relay => none
  | .delete rep => some ({ r with phase := .reply rep }, .delete)
  | .reply rep => some ({ r with
      phase := .close
      sent := if ok then r.sent ++ [.reply rep] else r.sent }, .keep)
  | .close => some ({ r with phase := .done, state := .closed }, .keep)
  | .done => none

end Request

def State.set (s : State) (id : ℕ) (r : Request) : State :=
  { s with requests := Function.update s.requests id r }

def Phase.stored : Phase → Bool
  | .capture | .create => false
  | _ => true

inductive Action where
  | request (id : ℕ) (ok : Bool)
  | transitionToClosed (id : ℕ)
  | handleDataMessage (id : ℕ) (payload : Bytes)
  | writeToLocal (id : ℕ)
  | outboundResult (id : ℕ) (success : Bool)
  | sendResult
  | beginSession
  | disconnect
  | drainOutboundPending
  | visit (id : ℕ)
  | skip (id : ℕ)
  | deleteVisited
  | sendVisited
  | drained
  deriving DecidableEq

def step (s : State) : Action → Option State
  | .request id ok =>
      ((s.requests id).advance s.connected s.session ok).map fun out =>
        { s.set id out.1 with outboundPending := out.2.apply id s.outboundPending }
  -- by `EventDisconnect`, by `closeAllLocalConns` or by `Stop`
  | .transitionToClosed id =>
      if (s.requests id).phase.stored then
        some (s.set id { s.requests id with state := .closed })
      else none
  | .handleDataMessage id payload =>
      let r := s.requests id
      if r.phase.stored = true ∧ (r.state = .active ∨ r.state = .pending) then
        if r.writeCh.length < localConnWriteBuffer then
          some (s.set id { r with writeCh := r.writeCh ++ [payload] })
        else some (s.set id { r with state := .closed })
      else none
  | .writeToLocal id =>
      let r := s.requests id
      match r.phase, r.writeCh with
      | .relay, payload :: rest =>
          some (s.set id { r with writeCh := rest, sent := r.sent ++ [.data payload] })
      | _, _ => none
  | .outboundResult id success =>
      if s.manager = .live ∧ s.reading = none ∧ id ∈ s.outboundPending then
        some { s with
          outboundPending := s.outboundPending.filter (· ≠ id)
          reading := some (id, if success then .success s.session else .failure)
          reported := if success then (s.session, id) :: s.reported else s.reported }
      else none
  -- the send on a channel with room for one answer
  | .sendResult =>
      match s.reading with
      | none => none
      | some (id, answer) =>
          let r := s.requests id
          if r.resultCh = none then
            some { s.set id { r with resultCh := some answer } with reading := none }
          else none
  | .beginSession =>
      if s.manager = .connecting then
        some { s with session := s.session + 1, connected := true, manager := .live }
      else none
  -- the write pump closes the session when it exits
  | .disconnect => if s.manager = .live then some { s with connected := false } else none
  | .drainOutboundPending =>
      if s.manager = .live ∧ s.connected = false ∧ s.reading = none then
        some { s with manager := .draining s.outboundPending none }
      else none
  | .visit id =>
      match s.manager with
      | .draining owed none =>
          if id ∈ s.outboundPending then
            some { s with manager := .draining (owed.filter (· ≠ id)) (some (id, false)) }
          else none
      | _ => none
  -- an entry that was deleted before the `Range` came to it
  | .skip id =>
      match s.manager with
      | .draining owed none =>
          if id ∈ s.outboundPending then none
          else some { s with manager := .draining (owed.filter (· ≠ id)) none }
      | _ => none
  | .deleteVisited =>
      match s.manager with
      | .draining owed (some (id, false)) =>
          some { s with
            outboundPending := s.outboundPending.filter (· ≠ id)
            manager := .draining owed (some (id, true)) }
      | _ => none
  | .sendVisited =>
      match s.manager with
      | .draining owed (some (id, true)) =>
          let r := s.requests id
          some { s.set id { r with resultCh := r.resultCh.or (some .failure) } with
            manager := .draining owed none }
      | _ => none
  | .drained =>
      if s.manager = .draining [] none then some { s with manager := .connecting } else none

/-! ### One request, seen on its own -/

/-- The part of the state that concerns one request. -/
structure Slice where
  request : Request
  entry : Bool
  reading : Option Answer
  live : Bool
  /-- In `drainOutboundPending`: whether the entry is still to be visited, and whether it is
  being visited. -/
  draining : Option (Bool × Option Bool)
  session : ℕ
  connected : Bool
  reported : List ℕ

namespace Manager

def isLive : Manager → Bool
  | live => true
  | _ => false

def slice (id : ℕ) : Manager → Option (Bool × Option Bool)
  | draining owed visiting =>
      some (owed.contains id, visiting.bind fun v => if v.1 = id then some v.2 else none)
  | _ => none

end Manager

def State.slice (s : State) (id : ℕ) : Slice where
  request := s.requests id
  entry := s.outboundPending.contains id
  reading := s.reading.bind fun x => if x.1 = id then some x.2 else none
  live := s.manager.isLive
  draining := s.manager.slice id
  session := s.session
  connected := s.connected
  reported := (s.reported.filter fun x => x.2 = id).map Prod.fst

/-- The request waits, or is about to, or has given up and has its entry still to delete. -/
def Phase.registered : Phase → Bool
  | .enqueue | .checkSession | .wait | .delete _ => true
  | _ => false

def Phase.early : Phase → Bool
  | .capture | .create | .store => true
  | _ => false

/-- The answer has been taken, or will not be. -/
def Phase.late : Phase → Bool
  | .replySuccess | .activate | .relay | .delete _ | .reply _ | .close | .done => true
  | _ => false

theorem Phase.registered_of_early {phase : Phase} (h : phase.early = true) :
    phase.registered = false := by
  cases phase with
  | capture | create | store => rfl
  | _ => cases h

theorem Phase.early_of_late {phase : Phase} (h : phase.late = true) : phase.early = false := by
  cases phase with
  | capture | create | store | enqueue | checkSession | wait => cases h
  | _ => rfl

namespace Slice

/-- Where the answer to a request is: it is in one place at a time, and a request that waits
will find it. -/
structure Tracked (x : Slice) : Prop where
  connected : x.connected = true → x.live = true
  live : x.live = true → x.draining = none
  captured : x.request.session ≤ x.session
  unregistered : x.request.phase.registered = false → x.entry = false
  early : x.request.phase.early = true →
    x.request.resultCh = none ∧ x.reading = none ∧ ∀ o v, x.draining ≠ some (o, some v)
  entry : x.entry = true →
    x.request.resultCh = none ∧ x.reading = none ∧ ∀ o, x.draining ≠ some (o, some true)
  reading : x.reading ≠ none → x.request.resultCh = none ∧ x.live = true
  visiting : ∀ o v, x.draining = some (o, some v) → x.request.resultCh = none
  registered : x.request.phase = .enqueue ∨ x.request.phase = .checkSession →
    x.request.resultCh = none →
      x.entry = true ∨ x.reading ≠ none ∨ ∃ o v, x.draining = some (o, some v)
  waiting : x.request.phase = .wait → x.request.resultCh = none →
    x.request.session = x.session ∧
      (x.live = true ∧ (x.entry = true ∨ x.reading ≠ none) ∨
        ∃ o v, x.draining = some (o, v) ∧ (o = true ∧ x.entry = true ∨ v ≠ none))
  readSuccess : ∀ k, x.reading = some (.success k) → k = x.session ∧ k ∈ x.reported
  success : ∀ k, x.request.resultCh = some (.success k) →
    x.request.session ≤ k ∧ k ≤ x.session ∧ k ∈ x.reported
  waitSuccess : ∀ k, x.request.phase = .wait → x.request.resultCh = some (.success k) →
    k = x.request.session

def onEntry (entry : Bool) : MapOp → Bool
  | .keep => entry
  | .store => true
  | .delete => false

variable {x : Slice}

theorem Tracked.leave (h : x.Tracked) {r : Request} {entry : Bool} (hlate : r.phase.late = true)
    (hsession : r.session = x.request.session)
    (hresult : r.resultCh = none ∨ r.resultCh = x.request.resultCh)
    (hentry : entry = true → x.entry = true ∧ r.phase.registered = true) :
    Tracked { x with request := r, entry := entry } where
  connected := h.connected
  live := h.live
  captured := hsession ▸ h.captured
  unregistered := by
    intro hphase
    refine Bool.eq_false_iff.mpr fun he => ?_
    rw [(hentry he).2] at hphase
    cases hphase
  early := by
    intro hphase
    rw [Phase.early_of_late hlate] at hphase
    cases hphase
  entry := by
    intro he
    have hbefore := h.entry (hentry he).1
    refine ⟨?_, hbefore.2⟩
    obtain hresult | hresult := hresult
    · exact hresult
    · exact hresult.trans hbefore.1
  reading := by
    intro hread
    have hbefore := h.reading hread
    refine ⟨?_, hbefore.2⟩
    obtain hresult | hresult := hresult
    · exact hresult
    · exact hresult.trans hbefore.1
  visiting := by
    intro o v hdraining
    obtain hresult | hresult := hresult
    · exact hresult
    · exact hresult.trans (h.visiting o v hdraining)
  registered := by
    rintro (hphase | hphase)
    · rw [hphase] at hlate
      cases hlate
    · rw [hphase] at hlate
      cases hlate
  waiting := by
    intro hphase
    rw [hphase] at hlate
    cases hlate
  readSuccess := h.readSuccess
  success := by
    intro k hk
    obtain hresult | hresult := hresult
    · rw [hresult] at hk
      cases hk
    · rw [hsession]
      exact h.success k (hresult ▸ hk)
  waitSuccess := by
    intro k hphase
    rw [hphase] at hlate
    cases hlate

theorem Tracked.same (h : x.Tracked) {r : Request} (hphase : r.phase = x.request.phase)
    (hsession : r.session = x.request.session) (hresult : r.resultCh = x.request.resultCh) :
    Tracked { x with request := r } := by
  obtain ⟨request, entry, reading, live, draining, session, connected, reported⟩ := x
  obtain ⟨phase, bound, state, resultCh, writeCh, sent⟩ := r
  obtain ⟨phase', bound', state', resultCh', writeCh', sent'⟩ := request
  obtain rfl : phase = phase' := hphase
  obtain rfl : bound = bound' := hsession
  obtain rfl : resultCh = resultCh' := hresult
  exact ⟨h.connected, h.live, h.captured, h.unregistered, h.early, h.entry, h.reading, h.visiting,
    h.registered, h.waiting, h.readSuccess, h.success, h.waitSuccess⟩

theorem Tracked.prepare (h : x.Tracked) {phase : Phase} {bound : ℕ}
    (hbefore : x.request.phase.early = true) (hafter : phase.early = true)
    (hbound : bound ≤ x.session) :
    Tracked { x with request := { x.request with phase := phase, session := bound } } := by
  obtain ⟨hresult, hread, hvisit⟩ := h.early hbefore
  have hnone : x.entry = false :=
    h.unregistered (Phase.registered_of_early hbefore)
  refine ⟨h.connected, h.live, hbound, fun _ => hnone, fun _ => ⟨hresult, hread, hvisit⟩, h.entry,
    h.reading, h.visiting, ?_, ?_, h.readSuccess, ?_, ?_⟩
  · rintro (hphase | hphase)
    · obtain rfl : phase = .enqueue := hphase
      cases hafter
    · obtain rfl : phase = .checkSession := hphase
      cases hafter
  · intro hphase
    obtain rfl : phase = .wait := hphase
    cases hafter
  · intro k hk
    rw [show x.request.resultCh = some (.success k) from hk] at hresult
    cases hresult
  · intro k hphase
    obtain rfl : phase = .wait := hphase
    cases hafter

theorem Tracked.store (h : x.Tracked) (hphase : x.request.phase = .store) :
    Tracked { x with request := { x.request with phase := .enqueue }, entry := true } := by
  have hearly : x.request.phase.early = true := by rw [hphase]; rfl
  obtain ⟨hresult, hread, hvisit⟩ := h.early hearly
  refine ⟨h.connected, h.live, h.captured, fun hreg => ?_, fun hreg => ?_, fun _ => ?_, h.reading,
    h.visiting, fun _ _ => .inl rfl, fun hwait => ?_, h.readSuccess, h.success, fun k hwait => ?_⟩
  · cases hreg
  · cases hreg
  · exact ⟨hresult, hread, fun o => hvisit o true⟩
  · cases hwait
  · cases hwait

theorem Tracked.enqueued (h : x.Tracked) (hphase : x.request.phase = .enqueue) :
    Tracked { x with request := { x.request with phase := .checkSession } } := by
  refine ⟨h.connected, h.live, h.captured, fun hreg => ?_, fun hreg => ?_, h.entry, h.reading,
    h.visiting, fun _ => h.registered (.inl hphase), fun hwait => ?_, h.readSuccess, h.success,
    fun k hwait => ?_⟩
  · cases hreg
  · cases hreg
  · cases hwait
  · cases hwait

theorem Tracked.checked (h : x.Tracked) (hphase : x.request.phase = .checkSession)
    (hconnected : x.connected = true) (hsession : x.request.session = x.session) :
    Tracked { x with request := { x.request with phase := .wait } } := by
  have hlive := h.connected hconnected
  refine ⟨h.connected, h.live, h.captured, fun hreg => ?_, fun hreg => ?_, h.entry, h.reading,
    h.visiting, fun hreg => ?_, fun _ hresult => ⟨hsession, .inl ⟨hlive, ?_⟩⟩, h.readSuccess,
    h.success, fun k _ hk => ?_⟩
  · cases hreg
  · cases hreg
  · rcases hreg with hreg | hreg <;> cases hreg
  · rcases h.registered (.inr hphase) hresult with hentry | hread | ⟨o, v, hdraining⟩
    · exact .inl hentry
    · exact .inr hread
    · rw [h.live hlive] at hdraining
      cases hdraining
  · obtain ⟨hle, hge, -⟩ := h.success k hk
    exact Nat.le_antisymm (hge.trans_eq hsession.symm) hle

/-- Whoever has an answer for a request has taken it out of `outboundPending`. -/
theorem Tracked.entry_eq_false (h : x.Tracked) {a : Answer} (ha : x.request.resultCh = some a) :
    x.entry = false := by
  refine Bool.eq_false_iff.mpr fun hentry => ?_
  rw [(h.entry hentry).1] at ha
  cases ha

theorem Tracked.advance {ok : Bool} {r : Request} {op : MapOp} (h : x.Tracked)
    (hr : x.request.advance x.connected x.session ok = some (r, op)) :
    Tracked { x with request := r, entry := onEntry x.entry op } := by
  have hkeep (hphase : x.request.phase.registered = false) {p : Prop} : x.entry = true → p := by
    intro hentry
    rw [h.unregistered hphase] at hentry
    cases hentry
  have hfail (resultCh : Option Answer) (hresult : resultCh = none ∨ resultCh = x.request.resultCh)
      {rep : UInt8} (hr : { x.request with resultCh := resultCh }.fail rep = some (r, op)) :
      Tracked { x with request := r, entry := onEntry x.entry op } := by
    cases hr
    exact h.leave rfl rfl hresult fun hentry => ⟨hentry, rfl⟩
  unfold Request.advance at hr
  cases hphase : x.request.phase <;> rw [hphase] at hr <;> dsimp only at hr
  case capture =>
    by_cases hconnected : x.connected = true
    · rw [if_pos hconnected] at hr
      cases hr
      exact h.prepare (by rw [hphase]; rfl) rfl le_rfl
    · rw [if_neg hconnected] at hr
      cases hr
      exact h.leave rfl rfl (.inr rfl) (hkeep (by rw [hphase]; rfl))
  case create =>
    cases hr
    exact h.prepare (by rw [hphase]; rfl) rfl h.captured
  case store =>
    cases hr
    exact h.store hphase
  case enqueue =>
    split_ifs at hr
    · cases hr
      exact h.enqueued hphase
    · exact hfail _ (.inr rfl) hr
  case checkSession =>
    split_ifs at hr with hcheck
    · cases hr
      exact h.checked hphase hcheck.1 hcheck.2
    · exact hfail _ (.inr rfl) hr
  case wait =>
    split_ifs at hr
    · cases hresult : x.request.resultCh with
      | none =>
        rw [hresult] at hr
        cases hr
      | some answer =>
        have hentry := h.entry_eq_false hresult
        rw [hresult] at hr
        cases answer with
        | success k =>
          cases hr
          exact h.leave rfl rfl (.inl rfl) fun he => by rw [onEntry, hentry] at he; cases he
        | failure => exact hfail none (.inl rfl) hr
    · exact hfail _ (.inr rfl) hr
  case replySuccess =>
    split_ifs at hr
    · cases hr
      exact h.leave rfl rfl (.inr rfl) (hkeep (by rw [hphase]; rfl))
    · exact hfail _ (.inr rfl) hr
  case activate =>
    split_ifs at hr <;> cases hr
    · exact h.leave rfl rfl (.inr rfl) (hkeep (by rw [hphase]; rfl))
    · exact h.leave rfl rfl (.inr rfl) (hkeep (by rw [hphase]; rfl))
  case relay => cases hr
  case delete rep =>
    cases hr
    exact h.leave rfl rfl (.inr rfl) fun he => by cases he
  case reply rep =>
    cases hr
    exact h.leave rfl rfl (.inr rfl) (hkeep (by rw [hphase]; rfl))
  case close =>
    cases hr
    exact h.leave rfl rfl (.inr rfl) (hkeep (by rw [hphase]; rfl))
  case done => cases hr

theorem Tracked.read (h : x.Tracked) {a : Answer} {reported : List ℕ} (hlive : x.live = true)
    (hentry : x.entry = true) (hmono : ∀ k ∈ x.reported, k ∈ reported)
    (ha : ∀ k, a = .success k → k = x.session ∧ k ∈ reported) :
    Tracked { x with entry := false, reading := some a, reported := reported } := by
  obtain ⟨hresult, hread, hvisit⟩ := h.entry hentry
  refine ⟨h.connected, h.live, h.captured, fun _ => rfl, fun hearly => ?_, fun he => ?_,
    fun _ => ⟨hresult, hlive⟩, h.visiting, fun _ _ => .inr (.inl (Option.some_ne_none a)),
    fun hwait hnone => ?_, fun k hk => ha k (Option.some.inj hk), fun k hk => ?_, h.waitSuccess⟩
  · rw [h.unregistered (Phase.registered_of_early hearly)] at hentry
    cases hentry
  · cases he
  · exact ⟨(h.waiting hwait hnone).1, .inl ⟨hlive, .inr (Option.some_ne_none a)⟩⟩
  · obtain ⟨hle, hge, hmem⟩ := h.success k hk
    exact ⟨hle, hge, hmono k hmem⟩

/-- The read pump sends the answer: there is room for it. -/
theorem Tracked.send (h : x.Tracked) {a : Answer} (hread : x.reading = some a) :
    Tracked { x with request := { x.request with resultCh := some a }, reading := none } := by
  have hsome : x.reading ≠ none := by rw [hread]; exact Option.some_ne_none a
  obtain ⟨hresult, hlive⟩ := h.reading hsome
  have hentry : x.entry = false := by
    refine Bool.eq_false_iff.mpr fun he => ?_
    exact hsome (h.entry he).2.1
  have hdraining := h.live hlive
  refine ⟨h.connected, h.live, h.captured, fun _ => hentry, fun hearly => ?_, fun he => ?_,
    fun hnone => absurd rfl hnone, fun o v hvisit => ?_, fun _ hnone => ?_, fun _ hnone => ?_,
    fun k hk => ?_, fun k hk => ?_, fun k hwait hk => ?_⟩
  · exact absurd (h.early hearly).2.1 hsome
  · rw [hentry] at he
    cases he
  · rw [hdraining] at hvisit
    cases hvisit
  · cases hnone
  · cases hnone
  · cases hk
  · obtain rfl := Option.some.inj hk
    obtain ⟨rfl, hmem⟩ := h.readSuccess k hread
    exact ⟨h.captured, le_rfl, hmem⟩
  · obtain rfl := Option.some.inj hk
    exact (h.readSuccess k hread).1.trans (h.waiting hwait hresult).1.symm

theorem Tracked.begin (h : x.Tracked) (hlive : x.live = false) (hdraining : x.draining = none) :
    Tracked { x with session := x.session + 1, connected := true, live := true } := by
  have hread : x.reading = none := by
    by_contra hsome
    rw [(h.reading hsome).2] at hlive
    cases hlive
  refine ⟨fun _ => rfl, fun _ => hdraining, Nat.le_succ_of_le h.captured, h.unregistered, h.early,
    h.entry, fun hsome => absurd hread hsome, h.visiting, h.registered, fun hwait hnone => ?_,
    fun k hk => ?_, fun k hk => ?_, h.waitSuccess⟩
  · obtain ⟨-, ⟨hl, -⟩ | ⟨o, v, hd, -⟩⟩ := h.waiting hwait hnone
    · rw [hlive] at hl
      cases hl
    · rw [hdraining] at hd
      cases hd
  · rw [show x.reading = some (.success k) from hk] at hread
    cases hread
  · obtain ⟨hle, hge, hmem⟩ := h.success k hk
    exact ⟨hle, Nat.le_succ_of_le hge, hmem⟩

theorem Tracked.disconnect (h : x.Tracked) : Tracked { x with connected := false } :=
  ⟨fun hc => (by cases hc), h.live, h.captured, h.unregistered, h.early, h.entry, h.reading,
    h.visiting, h.registered, h.waiting, h.readSuccess, h.success, h.waitSuccess⟩

theorem Tracked.drain (h : x.Tracked) (hlive : x.live = true) (hconnected : x.connected = false)
    (hread : x.reading = none) :
    Tracked { x with live := false, draining := some (x.entry, none) } := by
  refine ⟨fun hc => ?_, fun hl => (by cases hl), h.captured, h.unregistered, fun hearly => ?_,
    fun he => ?_, fun hsome => absurd hread hsome, fun o v hd => (by cases hd),
    fun hphase hnone => ?_,
    fun hwait hnone => ?_, h.readSuccess, h.success, h.waitSuccess⟩
  · rw [hconnected] at hc
    cases hc
  · exact ⟨(h.early hearly).1, hread, fun o v hd => by cases hd⟩
  · exact ⟨(h.entry he).1, hread, fun o hd => by cases hd⟩
  · rcases h.registered hphase hnone with hentry | hsome | ⟨o, v, hd⟩
    · exact .inl hentry
    · exact absurd hread hsome
    · rw [h.live hlive] at hd
      cases hd
  · obtain ⟨hsession, ⟨-, hentry | hsome⟩ | ⟨o, v, hd, -⟩⟩ := h.waiting hwait hnone
    · exact ⟨hsession, .inr ⟨_, _, rfl, .inl ⟨hentry, hentry⟩⟩⟩
    · exact absurd hread hsome
    · rw [h.live hlive] at hd
      cases hd

theorem Tracked.not_live (h : x.Tracked) {d : Bool × Option Bool} (hd : x.draining = some d) :
    x.live = false ∧ x.reading = none := by
  have hlive : x.live = false := by
    refine Bool.eq_false_iff.mpr fun hl => ?_
    rw [h.live hl] at hd
    cases hd
  refine ⟨hlive, ?_⟩
  by_contra hsome
  rw [(h.reading hsome).2] at hlive
  cases hlive

theorem Tracked.visit (h : x.Tracked) {o : Bool} (hd : x.draining = some (o, none))
    (hentry : x.entry = true) : Tracked { x with draining := some (false, some false) } := by
  obtain ⟨hlive, hread⟩ := h.not_live hd
  obtain ⟨hresult, -, -⟩ := h.entry hentry
  refine ⟨h.connected, fun hl => ?_, h.captured, h.unregistered, fun hearly => ?_,
    fun _ => ⟨hresult, hread, fun o hd => by cases hd⟩, h.reading, fun _ _ _ => hresult,
    fun _ _ => .inl hentry, fun hwait hnone => ⟨(h.waiting hwait hnone).1, .inr ⟨_, _, rfl, ?_⟩⟩,
    h.readSuccess, h.success, h.waitSuccess⟩
  · rw [hlive] at hl
    cases hl
  · rw [h.unregistered (Phase.registered_of_early hearly)] at hentry
    cases hentry
  · exact .inr (Option.some_ne_none _)

theorem Tracked.skip (h : x.Tracked) {o : Bool} (hd : x.draining = some (o, none))
    (hentry : x.entry = false) : Tracked { x with draining := some (false, none) } := by
  obtain ⟨hlive, hread⟩ := h.not_live hd
  refine ⟨h.connected, fun hl => ?_, h.captured, h.unregistered, fun hearly => ?_, fun he => ?_,
    h.reading, fun o v hv => (by cases hv), fun hphase hnone => ?_, fun hwait hnone => ?_,
    h.readSuccess, h.success, h.waitSuccess⟩
  · rw [hlive] at hl
    cases hl
  · exact ⟨(h.early hearly).1, hread, fun o v hv => by cases hv⟩
  · rw [hentry] at he
    cases he
  · rcases h.registered hphase hnone with he | hsome | ⟨o', v, hv⟩
    · exact .inl he
    · exact .inr (.inl hsome)
    · rw [hd] at hv
      cases hv
  · obtain ⟨-, ⟨hl, -⟩ | ⟨o', v, hv, ⟨-, he⟩ | hv'⟩⟩ := h.waiting hwait hnone
    · rw [hlive] at hl
      cases hl
    · rw [hentry] at he
      cases he
    · rw [hd] at hv
      cases hv
      exact absurd rfl hv'

theorem Tracked.deleteVisited (h : x.Tracked) {o : Bool}
    (hd : x.draining = some (o, some false)) :
    Tracked { x with entry := false, draining := some (o, some true) } := by
  obtain ⟨hlive, hread⟩ := h.not_live hd
  have hresult := h.visiting o false hd
  refine ⟨h.connected, fun hl => ?_, h.captured, fun _ => rfl, fun hearly => ?_,
    fun he => (by cases he), h.reading, fun _ _ _ => hresult,
    fun _ _ => .inr (.inr ⟨o, true, rfl⟩),
    fun hwait hnone => ⟨(h.waiting hwait hnone).1, .inr ⟨_, _, rfl, .inr (Option.some_ne_none _)⟩⟩,
    h.readSuccess, h.success, h.waitSuccess⟩
  · rw [hlive] at hl
    cases hl
  · exact absurd hd ((h.early hearly).2.2 o false)

theorem Tracked.sendVisited (h : x.Tracked) {o : Bool}
    (hd : x.draining = some (o, some true)) :
    Tracked { x with
      request := { x.request with resultCh := x.request.resultCh.or (some .failure) }
      draining := some (o, none) } := by
  obtain ⟨hlive, hread⟩ := h.not_live hd
  have hresult := h.visiting o true hd
  have hentry : x.entry = false := by
    refine Bool.eq_false_iff.mpr fun he => ?_
    exact (h.entry he).2.2 o hd
  rw [hresult]
  refine ⟨h.connected, fun hl => ?_, h.captured, fun _ => hentry, fun hearly => ?_, fun he => ?_,
    fun hsome => absurd hread hsome, fun o v hv => (by cases hv), fun _ hnone => (by cases hnone),
    fun _ hnone => (by cases hnone), h.readSuccess, fun k hk => (by cases hk),
    fun k _ hk => (by cases hk)⟩
  · rw [hlive] at hl
    cases hl
  · exact absurd hd ((h.early hearly).2.2 o true)
  · rw [hentry] at he
    cases he

/-- When the `Range` has ended, everybody who still waits has been answered. -/
theorem Tracked.drained (h : x.Tracked) (hd : x.draining = some (false, none)) :
    Tracked { x with draining := none } := by
  obtain ⟨hlive, hread⟩ := h.not_live hd
  refine ⟨h.connected, fun _ => rfl, h.captured, h.unregistered, fun hearly => ?_, fun he => ?_,
    h.reading, fun o v hv => (by cases hv), fun hphase hnone => ?_, fun hwait hnone => ?_,
    h.readSuccess, h.success, h.waitSuccess⟩
  · exact ⟨(h.early hearly).1, hread, fun o v hv => by cases hv⟩
  · exact ⟨(h.entry he).1, hread, fun o hv => by cases hv⟩
  · rcases h.registered hphase hnone with he | hsome | ⟨o, v, hv⟩
    · exact .inl he
    · exact .inr (.inl hsome)
    · rw [hd] at hv
      cases hv
  · obtain ⟨-, ⟨hl, -⟩ | ⟨o, v, hv, ⟨rfl, -⟩ | hv'⟩⟩ := h.waiting hwait hnone
    · rw [hlive] at hl
      cases hl
    · rw [hd] at hv
      cases hv
    · rw [hd] at hv
      cases hv
      exact absurd rfl hv'

end Slice

/-! ### What the SOCKS5 client sees -/

/-- What has been written at each point. Data follows a success, and nothing else does. -/
def Phase.Wrote (sent : List Output) : Phase → Prop
  | .activate => sent = [.reply socks5RepSuccess]
  | .relay => ∃ payloads : List Bytes, sent = .reply socks5RepSuccess :: payloads.map .data
  | .close | .done => sent = [] ∨ ∃ rep, sent = [.reply rep]
  | _ => sent = []

namespace Slice

structure Announces (x : Slice) : Prop where
  refused : ∀ rep, x.request.phase = .delete rep ∨ x.request.phase = .reply rep →
    rep ≠ socks5RepSuccess
  wrote : x.request.phase.Wrote x.request.sent
  confirmed : x.request.phase = .replySuccess ∨ .reply socks5RepSuccess ∈ x.request.sent →
    x.request.session ∈ x.reported

variable {x : Slice}

theorem Announces.silent {y : Slice} (hsent : y.request.sent = [])
    (hwrote : y.request.phase.Wrote []) (hphase : y.request.phase ≠ .replySuccess)
    (hrefused : ∀ rep, y.request.phase = .delete rep ∨ y.request.phase = .reply rep →
      rep ≠ socks5RepSuccess) : y.Announces where
  refused := hrefused
  wrote := hsent ▸ hwrote
  confirmed := by
    rintro (h | h)
    · exact absurd h hphase
    · rw [hsent] at h
      cases h

theorem Announces.refusal {y : Slice} {rep : UInt8} (hrep : rep ≠ socks5RepSuccess)
    (hsent : y.request.sent = [] ∨ y.request.sent = [.reply rep])
    (hphase : y.request.phase = .close ∨ y.request.phase = .done) : y.Announces where
  refused := by
    rintro rep' h
    rcases hphase with hphase | hphase <;> rw [hphase] at h <;> rcases h with h | h <;> cases h
  wrote := by
    have hwrote : y.request.sent = [] ∨ ∃ rep, y.request.sent = [.reply rep] :=
      hsent.imp_right fun h => ⟨rep, h⟩
    rcases hphase with hphase | hphase <;> rw [hphase] <;> exact hwrote
  confirmed := by
    rintro (h | h)
    · rcases hphase with hphase | hphase <;> rw [hphase] at h <;> cases h
    · rcases hsent with hsent | hsent <;> rw [hsent] at h
      · cases h
      · rw [List.mem_singleton, Output.reply.injEq] at h
        exact absurd h.symm hrep

theorem Announces.advance {ok : Bool} {r : Request} {op : MapOp} (h : x.Announces)
    (htracked : x.Tracked) (hr : x.request.advance x.connected x.session ok = some (r, op)) :
    Announces { x with request := r, entry := onEntry x.entry op } := by
  have hwrote := h.wrote
  have hfail (resultCh : Option Answer) (hsent : x.request.sent = []) {rep : UInt8}
      (hrep : rep ≠ socks5RepSuccess)
      (hr : { x.request with resultCh := resultCh }.fail rep = some (r, op)) :
      Announces { x with request := r, entry := onEntry x.entry op } := by
    cases hr
    refine .silent hsent rfl (fun h => by cases h) ?_
    rintro rep' (hphase | hphase)
    · cases hphase
      exact hrep
    · cases hphase
  have hquiet {y : Slice} (hsent : y.request.sent = []) (hwrote : y.request.phase.Wrote [])
      (hne : y.request.phase ≠ .replySuccess)
      (hphase : ∀ rep, y.request.phase ≠ .delete rep ∧ y.request.phase ≠ .reply rep) :
      y.Announces :=
    .silent hsent hwrote hne fun rep hrep => absurd hrep (not_or.mpr (hphase rep))
  unfold Request.advance at hr
  cases hphase : x.request.phase <;> rw [hphase] at hr hwrote <;> dsimp only at hr
  case capture =>
    by_cases hconnected : x.connected = true
    · rw [if_pos hconnected] at hr
      cases hr
      exact hquiet hwrote rfl (by simp) (by simp)
    · rw [if_neg hconnected] at hr
      cases hr
      refine .refusal (show socks5RepGeneralFailure ≠ socks5RepSuccess by decide) ?_ (.inr rfl)
      rw [show x.request.sent = [] from hwrote]
      cases ok
      · exact .inl rfl
      · exact .inr rfl
  case create =>
    cases hr
    exact hquiet hwrote rfl (by simp) (by simp)
  case store =>
    cases hr
    exact hquiet hwrote rfl (by simp) (by simp)
  case enqueue =>
    split_ifs at hr
    · cases hr
      exact hquiet hwrote rfl (by simp) (by simp)
    · exact hfail _ hwrote (by decide) hr
  case checkSession =>
    split_ifs at hr with hcheck
    · cases hr
      exact hquiet hwrote rfl (by simp) (by simp)
    · exact hfail _ hwrote (by decide) hr
  case wait =>
    split_ifs at hr
    · cases hresult : x.request.resultCh with
      | none =>
        rw [hresult] at hr
        cases hr
      | some answer =>
        rw [hresult] at hr
        cases answer with
        | success k =>
          cases hr
          have hsession := htracked.waitSuccess k hphase hresult
          refine ⟨fun rep hrep => ?_, hwrote, fun _ => ?_⟩
          · rcases hrep with hrep | hrep <;> cases hrep
          · exact hsession ▸ (htracked.success k hresult).2.2
        | failure => exact hfail none hwrote (by decide) hr
    · exact hfail _ hwrote (by decide) hr
  case replySuccess =>
    split_ifs at hr
    · cases hr
      have hnil : x.request.sent = [] := hwrote
      refine ⟨fun rep hrep => ?_, ?_, fun _ => h.confirmed (.inl hphase)⟩
      · rcases hrep with hrep | hrep <;> cases hrep
      · change x.request.sent ++ [.reply socks5RepSuccess] = [.reply socks5RepSuccess]
        rw [hnil, List.nil_append]
    · exact hfail _ hwrote (by decide) hr
  case activate =>
    have hsent : x.request.sent = [.reply socks5RepSuccess] := hwrote
    have hconfirmed := h.confirmed (.inr (hsent ▸ List.mem_singleton_self _))
    split_ifs at hr
    · cases hr
      refine ⟨fun rep hrep => ?_, ⟨[], hsent⟩, fun _ => hconfirmed⟩
      rcases hrep with hrep | hrep <;> cases hrep
    · cases hr
      refine ⟨fun rep hrep => ?_, .inr ⟨_, hsent⟩, fun _ => hconfirmed⟩
      rcases hrep with hrep | hrep <;> cases hrep
  case relay => cases hr
  case delete rep =>
    have hrep := h.refused rep (.inl hphase)
    cases hr
    refine .silent hwrote rfl (fun h => by cases h) ?_
    rintro rep' (hphase' | hphase')
    · cases hphase'
    · cases hphase'
      exact hrep
  case reply rep =>
    have hrep := h.refused rep (.inr hphase)
    cases hr
    refine .refusal hrep ?_ (.inl rfl)
    rw [show x.request.sent = [] from hwrote]
    cases ok
    · exact .inl rfl
    · exact .inr rfl
  case close =>
    cases hr
    refine ⟨fun rep hrep => ?_, hwrote, fun hsent => h.confirmed (hsent.imp_left ?_)⟩
    · rcases hrep with hrep | hrep <;> cases hrep
    · exact fun hphase => by cases hphase
  case done => cases hr

theorem Announces.keep {y : Slice} (h : x.Announces) (hphase : y.request.phase = x.request.phase)
    (hsession : y.request.session = x.request.session) (hsent : y.request.sent = x.request.sent)
    (hmono : ∀ k ∈ x.reported, k ∈ y.reported) : y.Announces where
  refused := by
    rw [hphase]
    exact h.refused
  wrote := by
    rw [hphase, hsent]
    exact h.wrote
  confirmed := by
    rw [hphase, hsent, hsession]
    exact fun hsuccess => hmono _ (h.confirmed hsuccess)

theorem Announces.relay (h : x.Announces) {payload : Bytes} {rest : List Bytes}
    (hphase : x.request.phase = .relay) :
    Announces { x with request := { x.request with
      writeCh := rest
      sent := x.request.sent ++ [.data payload] } } where
  refused := h.refused
  wrote := by
    have hwrote := h.wrote
    rw [hphase] at hwrote
    obtain ⟨payloads, hsent⟩ := hwrote
    dsimp only
    rw [hphase]
    refine ⟨payloads ++ [payload], ?_⟩
    rw [hsent, List.map_append, List.cons_append]
    rfl
  confirmed := by
    rintro (hreply | hmem)
    · exact h.confirmed (.inl hreply)
    · rcases List.mem_append.mp hmem with hmem | hmem
      · exact h.confirmed (.inr hmem)
      · cases List.mem_singleton.mp hmem

end Slice

/-! ### Every run -/

def Slice.Good (x : Slice) : Prop := x.Tracked ∧ x.Announces

namespace State
variable {s : State} {id j : ℕ}

theorem slice_set_self (s : State) (id : ℕ) (r : Request) :
    (s.set id r).slice id = { s.slice id with request := r } := by
  simp only [slice, set, Function.update_self]

theorem slice_set_of_ne (s : State) (r : Request) (h : j ≠ id) :
    (s.set id r).slice j = s.slice j := by
  simp only [slice, set, Function.update_of_ne h]

end State

theorem contains_apply_self (op : MapOp) (id : ℕ) (ids : List ℕ) :
    (op.apply id ids).contains id = Slice.onEntry (ids.contains id) op := by
  cases op with
  | keep => rfl
  | store => simp [MapOp.apply, Slice.onEntry]
  | delete => simp [MapOp.apply, Slice.onEntry]

theorem contains_apply_of_ne (op : MapOp) {id j : ℕ} (h : j ≠ id) (ids : List ℕ) :
    (op.apply id ids).contains j = ids.contains j := by
  cases op with
  | keep => rfl
  | store => simp [MapOp.apply, h]
  | delete => simp [MapOp.apply, h]

theorem good_init (id : ℕ) : (init.slice id).Good := by
  refine ⟨⟨?_, ?_, le_rfl, fun _ => rfl, fun _ => ⟨rfl, rfl, ?_⟩, ?_, ?_, ?_, ?_, ?_, ?_, ?_, ?_⟩,
    .silent rfl rfl ?_ ?_⟩
  all_goals simp [init, State.slice, Request.init, Manager.slice, Manager.isLive]

theorem good_of_slice (id : ℕ) {s t : State} (h : ∀ j, (s.slice j).Good)
    (hself : (t.slice id).Good) (hother : ∀ j ≠ id, t.slice j = s.slice j) (j : ℕ) :
    (t.slice j).Good := by
  by_cases hj : j = id
  · exact hj ▸ hself
  · exact hother j hj ▸ h j

theorem good_request {s t : State} {id : ℕ} {ok : Bool} (h : ∀ j, (s.slice j).Good)
    (hstep : step s (.request id ok) = some t) (j : ℕ) : (t.slice j).Good := by
  rw [step, Option.map_eq_some_iff] at hstep
  obtain ⟨⟨r, op⟩, hr, rfl⟩ := hstep
  refine good_of_slice id h ?_ (fun j hj => ?_) j
  · have hslice : State.slice { s.set id r with
        outboundPending := op.apply id s.outboundPending } id =
        { s.slice id with request := r, entry := Slice.onEntry (s.slice id).entry op } := by
      simp only [State.slice, State.set, Function.update_self, contains_apply_self]
    rw [hslice]
    exact ⟨(h id).1.advance hr, (h id).2.advance (h id).1 hr⟩
  · simp only [State.slice, State.set, Function.update_of_ne hj, contains_apply_of_ne op hj]

theorem good_set {s : State} {id : ℕ} (h : ∀ j, (s.slice j).Good) (state : ConnState)
    (writeCh : List Bytes) (j : ℕ) :
    ((s.set id { s.requests id with state := state, writeCh := writeCh }).slice j).Good := by
  refine good_of_slice id h ?_ (fun j hj => State.slice_set_of_ne s _ hj) j
  rw [State.slice_set_self]
  exact ⟨(h id).1.same rfl rfl rfl, (h id).2.keep rfl rfl rfl fun _ hk => hk⟩

theorem good_writeToLocal {s t : State} {id : ℕ} (h : ∀ j, (s.slice j).Good)
    (hstep : step s (.writeToLocal id) = some t) (j : ℕ) : (t.slice j).Good := by
  simp only [step] at hstep
  split at hstep
  case h_2 => cases hstep
  case h_1 payload rest hphase hwriteCh =>
    cases hstep
    refine good_of_slice id h ?_ (fun j hj => State.slice_set_of_ne s _ hj) j
    rw [State.slice_set_self]
    exact ⟨(h id).1.same rfl rfl rfl, (h id).2.relay hphase⟩

theorem contains_filter_self (id : ℕ) (ids : List ℕ) :
    (ids.filter (· ≠ id)).contains id = false := contains_apply_self .delete id ids

theorem contains_filter_of_ne {id j : ℕ} (h : j ≠ id) (ids : List ℕ) :
    (ids.filter (· ≠ id)).contains j = ids.contains j := contains_apply_of_ne .delete h ids

theorem good_outboundResult {s t : State} {id : ℕ} {success : Bool} (h : ∀ j, (s.slice j).Good)
    (hstep : step s (.outboundResult id success) = some t) (j : ℕ) : (t.slice j).Good := by
  obtain ⟨⟨hmanager, hreading, hmem⟩, rfl⟩ := guarded hstep
  refine good_of_slice id h ?_ (fun j hj => ?_) j
  · have hlive : (s.slice id).live = true := by simp [State.slice, hmanager, Manager.isLive]
    have hentry : (s.slice id).entry = true := List.contains_iff_mem.mpr hmem
    have hslice : State.slice { s with
        outboundPending := s.outboundPending.filter (· ≠ id)
        reading := some (id, if success then .success s.session else .failure)
        reported := if success then (s.session, id) :: s.reported else s.reported } id =
        { s.slice id with
          entry := false
          reading := some (if success then .success s.session else .failure)
          reported := if success then s.session :: (s.slice id).reported
            else (s.slice id).reported } := by
      simp only [State.slice, contains_filter_self]
      cases success <;> simp
    have hmono : ∀ k ∈ (s.slice id).reported, k ∈ if success then
        s.session :: (s.slice id).reported else (s.slice id).reported := by
      intro k hk
      cases success with
      | true => exact List.mem_cons_of_mem _ hk
      | false => exact hk
    refine hslice ▸ ⟨(h id).1.read hlive hentry hmono ?_, (h id).2.keep rfl rfl rfl hmono⟩
    intro k hk
    cases success with
    | true =>
      cases hk
      exact ⟨rfl, List.mem_cons_self⟩
    | false => cases hk
  · simp only [State.slice, contains_filter_of_ne hj, hreading]
    cases success <;> simp [Ne.symm hj]

theorem good_sendResult {s t : State} (h : ∀ j, (s.slice j).Good)
    (hstep : step s .sendResult = some t) (j : ℕ) : (t.slice j).Good := by
  simp only [step] at hstep
  cases hreading : s.reading with
  | none =>
    rw [hreading] at hstep
    cases hstep
  | some held =>
    obtain ⟨id, a⟩ := held
    rw [hreading] at hstep
    dsimp only at hstep
    split_ifs at hstep with hroom
    cases hstep
    refine good_of_slice id h ?_ (fun j hj => ?_) j
    · have hread : (s.slice id).reading = some a := by simp [State.slice, hreading]
      have hslice : State.slice { s.set id { s.requests id with resultCh := some a } with
          reading := none } id = { s.slice id with
            request := { (s.slice id).request with resultCh := some a }
            reading := none } := by
        simp only [State.slice, State.set, Function.update_self, Option.bind_none]
      exact hslice ▸ ⟨(h id).1.send hread, (h id).2.keep rfl rfl rfl fun _ hk => hk⟩
    · simp [State.slice, State.set, Function.update_of_ne hj, hreading, Ne.symm hj]

theorem good_visit {s t : State} {id : ℕ} (h : ∀ j, (s.slice j).Good)
    (hstep : step s (.visit id) = some t) (j : ℕ) : (t.slice j).Good := by
  simp only [step] at hstep
  split at hstep
  · rename_i owed hmanager
    split_ifs at hstep with hmem
    cases hstep
    refine good_of_slice id h ?_ (fun j hj => ?_) j
    · have hdraining : (s.slice id).draining = some (owed.contains id, none) := by
        simp [State.slice, hmanager, Manager.slice]
      have hslice : State.slice { s with
          manager := .draining (owed.filter (· ≠ id)) (some (id, false)) } id =
          { s.slice id with draining := some (false, some false) } := by
        simp [State.slice, hmanager, Manager.slice, Manager.isLive]
      exact hslice ▸ ⟨(h id).1.visit hdraining (List.contains_iff_mem.mpr hmem),
        (h id).2.keep rfl rfl rfl fun _ hk => hk⟩
    · simp only [State.slice, hmanager, Manager.slice, Manager.isLive, contains_filter_of_ne hj]
      simp [Ne.symm hj]
  · cases hstep

theorem good_skip {s t : State} {id : ℕ} (h : ∀ j, (s.slice j).Good)
    (hstep : step s (.skip id) = some t) (j : ℕ) : (t.slice j).Good := by
  simp only [step] at hstep
  split at hstep
  · rename_i owed hmanager
    split_ifs at hstep with hmem
    cases hstep
    refine good_of_slice id h ?_ (fun j hj => ?_) j
    · have hdraining : (s.slice id).draining = some (owed.contains id, none) := by
        simp [State.slice, hmanager, Manager.slice]
      have hentry : (s.slice id).entry = false := by
        refine Bool.eq_false_iff.mpr fun he => hmem (List.contains_iff_mem.mp he)
      have hslice : State.slice { s with manager := .draining (owed.filter (· ≠ id)) none } id =
          { s.slice id with draining := some (false, none) } := by
        simp [State.slice, hmanager, Manager.slice, Manager.isLive]
      exact hslice ▸ ⟨(h id).1.skip hdraining hentry, (h id).2.keep rfl rfl rfl fun _ hk => hk⟩
    · simp only [State.slice, hmanager, Manager.slice, Manager.isLive, contains_filter_of_ne hj]
  · cases hstep

theorem good_deleteVisited {s t : State} (h : ∀ j, (s.slice j).Good)
    (hstep : step s .deleteVisited = some t) (j : ℕ) : (t.slice j).Good := by
  simp only [step] at hstep
  split at hstep
  · rename_i owed id hmanager
    cases hstep
    refine good_of_slice id h ?_ (fun j hj => ?_) j
    · have hdraining : (s.slice id).draining = some (owed.contains id, some false) := by
        simp [State.slice, hmanager, Manager.slice]
      have hslice : State.slice { s with
          outboundPending := s.outboundPending.filter (· ≠ id)
          manager := .draining owed (some (id, true)) } id =
          { s.slice id with entry := false, draining := some (owed.contains id, some true) } := by
        simp [State.slice, hmanager, Manager.slice, Manager.isLive]
      exact hslice ▸ ⟨(h id).1.deleteVisited hdraining, (h id).2.keep rfl rfl rfl fun _ hk => hk⟩
    · simp only [State.slice, hmanager, Manager.slice, Manager.isLive, contains_filter_of_ne hj]
      simp [Ne.symm hj]
  · cases hstep

theorem good_sendVisited {s t : State} (h : ∀ j, (s.slice j).Good)
    (hstep : step s .sendVisited = some t) (j : ℕ) : (t.slice j).Good := by
  simp only [step] at hstep
  split at hstep
  · rename_i owed id hmanager
    cases hstep
    refine good_of_slice id h ?_ (fun j hj => ?_) j
    · have hdraining : (s.slice id).draining = some (owed.contains id, some true) := by
        simp [State.slice, hmanager, Manager.slice]
      have hslice : State.slice { s.set id { s.requests id with
            resultCh := (s.requests id).resultCh.or (some .failure) } with
          manager := .draining owed none } id = { s.slice id with
            request := { (s.slice id).request with
              resultCh := (s.slice id).request.resultCh.or (some .failure) }
            draining := some (owed.contains id, none) } := by
        simp [State.slice, State.set, hmanager, Manager.slice, Manager.isLive]
      exact hslice ▸ ⟨(h id).1.sendVisited hdraining, (h id).2.keep rfl rfl rfl fun _ hk => hk⟩
    · simp [State.slice, State.set, Function.update_of_ne hj, hmanager, Manager.slice,
        Manager.isLive, Ne.symm hj]
  · cases hstep

theorem good_step {s t : State} {a : Action} (h : ∀ j, (s.slice j).Good)
    (hstep : step s a = some t) (j : ℕ) : (t.slice j).Good := by
  have hkeep : ∀ k ∈ (s.slice j).reported, k ∈ (s.slice j).reported := fun _ hk => hk
  cases a with
  | request id ok => exact good_request h hstep j
  | transitionToClosed id =>
    obtain ⟨-, rfl⟩ := guarded hstep
    exact good_set h .closed _ j
  | handleDataMessage id payload =>
    simp only [step] at hstep
    split_ifs at hstep
    · cases hstep
      exact good_set h _ _ j
    · cases hstep
      exact good_set h .closed _ j
  | writeToLocal id => exact good_writeToLocal h hstep j
  | outboundResult id success => exact good_outboundResult h hstep j
  | sendResult => exact good_sendResult h hstep j
  | beginSession =>
    obtain ⟨hmanager, rfl⟩ := guarded hstep
    have hbegin := (h j).1.begin (by simp [State.slice, hmanager, Manager.isLive])
      (by simp [State.slice, hmanager, Manager.slice])
    have hslice : State.slice { s with
        session := s.session + 1, connected := true, manager := .live } j =
        { s.slice j with session := (s.slice j).session + 1, connected := true, live := true } := by
      simp [State.slice, hmanager, Manager.slice, Manager.isLive]
    exact hslice ▸ ⟨hbegin, (h j).2.keep rfl rfl rfl hkeep⟩
  | disconnect =>
    obtain ⟨hmanager, rfl⟩ := guarded hstep
    exact ⟨(h j).1.disconnect, (h j).2.keep rfl rfl rfl hkeep⟩
  | drainOutboundPending =>
    obtain ⟨hguard, rfl⟩ := guarded hstep
    obtain ⟨hmanager, hconnected, hreading⟩ := hguard
    have hdrain := (h j).1.drain (by simp [State.slice, hmanager, Manager.isLive]) hconnected
      (by simp [State.slice, hreading])
    exact ⟨hdrain, (h j).2.keep rfl rfl rfl hkeep⟩
  | visit id => exact good_visit h hstep j
  | skip id => exact good_skip h hstep j
  | deleteVisited => exact good_deleteVisited h hstep j
  | sendVisited => exact good_sendVisited h hstep j
  | drained =>
    obtain ⟨hmanager, rfl⟩ := guarded hstep
    have hdrained := (h j).1.drained (by simp [State.slice, hmanager, Manager.slice])
    have hslice : State.slice { s with manager := .connecting } j =
        { s.slice j with draining := none } := by
      simp [State.slice, hmanager, Manager.slice, Manager.isLive]
    exact hslice ▸ ⟨hdrained, (h j).2.keep rfl rfl rfl hkeep⟩

theorem good_run {s : State} {actions : List Action} (h : run step init actions = some s) (j : ℕ) :
    (s.slice j).Good :=
  invariant_run (fun _ _ _ hs hstep => good_step hs hstep) good_init h j

/-- In every run the read pump never blocks on an answer, a request that is over has left
`outboundPending`, and a request that still waits when its session is over and drained finds an
answer. A SOCKS5 client reads data only after a success, and a success only if the relay has
reported one for this request in the session the request was made in. -/
theorem outbound_requests_resolved {s : State} {actions : List Action}
    (h : run step init actions = some s) (id : ℕ) :
    (∀ a, s.reading = some (id, a) → (s.requests id).resultCh = none) ∧
      ((s.requests id).phase.registered = false → id ∉ s.outboundPending) ∧
      ((s.requests id).phase = .wait →
        (s.requests id).session ≠ s.session ∨ s.manager = .connecting →
        (s.requests id).resultCh ≠ none) ∧
      (s.requests id).phase.Wrote (s.requests id).sent ∧
      (.reply socks5RepSuccess ∈ (s.requests id).sent →
        ((s.requests id).session, id) ∈ s.reported) := by
  obtain ⟨htracked, hannounces⟩ := good_run h id
  refine ⟨fun a ha => ?_, fun hphase hmem => ?_, fun hwait hover hnone => ?_, hannounces.wrote,
    fun hsent => ?_⟩
  · have hread : (s.slice id).reading ≠ none := by simp [State.slice, ha]
    exact (htracked.reading hread).1
  · have hentry := htracked.unregistered hphase
    rw [show (s.slice id).entry = true from List.contains_iff_mem.mpr hmem] at hentry
    cases hentry
  · obtain ⟨hsession, hplace⟩ := htracked.waiting hwait hnone
    rcases hover with hne | hmanager
    · exact hne hsession
    · rcases hplace with ⟨hlive, -⟩ | ⟨o, v, hdraining, -⟩
      · rw [show (s.slice id).live = false by simp [State.slice, hmanager, Manager.isLive]] at hlive
        cases hlive
      · rw [show (s.slice id).draining = none by simp [State.slice, hmanager, Manager.slice]]
          at hdraining
        cases hdraining
  · have hmem := hannounces.confirmed (.inr hsent)
    simpa [State.slice] using hmem

/-- The first request is answered and relays a frame, and the second waits when the session
ends. -/
def twoRequests : List Action :=
  [.beginSession, .request 0 true, .request 0 true, .request 0 true, .request 0 true,
    .request 0 true, .request 1 true, .request 1 true, .request 1 true, .request 1 true,
    .request 1 true, .outboundResult 0 true, .sendResult, .request 0 true, .request 0 true,
    .request 0 true, .handleDataMessage 0 [1, 2], .writeToLocal 0, .disconnect,
    .drainOutboundPending, .visit 1, .deleteVisited, .sendVisited, .drained, .beginSession]

theorem outbound_requests_resolved_twoRequests :
    ∃ s, run step init twoRequests = some s ∧ (s.requests 1).resultCh ≠ none ∧
      (1, 0) ∈ s.reported := by
  obtain ⟨s, hrun, hsent, hwait, hover, hsession⟩ : ∃ s, run step init twoRequests = some s ∧
      (s.requests 0).sent = [.reply socks5RepSuccess, .data [1, 2]] ∧
        (s.requests 1).phase = .wait ∧ (s.requests 1).session ≠ s.session ∧
        (s.requests 0).session = 1 :=
    exists_run_of_any (by decide +kernel)
  refine ⟨s, hrun, ?_, ?_⟩
  · exact (outbound_requests_resolved hrun 1).2.2.1 hwait (.inl hover)
  · have hreported := (outbound_requests_resolved hrun 0).2.2.2.2
    rw [hsent, hsession] at hreported
    exact hreported List.mem_cons_self

end NexusProxy.Client.OutboundRequests
