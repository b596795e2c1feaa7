import NexusProxy.Lib.Collections
import NexusProxy.Lib.Multiplexer
import NexusProxy.Lib.Transition
import NexusProxy.Proxy.Frames

/-! The streams of connections on the WebSocket of a backend. Each connection has a goroutine that
announces it and then sends what it reads; control messages and data share the socket through two
bounded lanes, and every send may fail. -/
namespace NexusProxy.Hub.ClientStreams
open Collections Multiplexer Transition
open Proxy (Bytes NetConn ReadError copyBufferSize)

/-- `EventType`. -/
inductive EventType where
  | connect
  | disconnect
  | pingClient
  | pongClient
  | pauseStream
  | resumeStream
  | outboundConnect
  | outboundResult
  deriving DecidableEq

/-- A frame: data of a client, or a control message with the fields that its lane depends on. -/
inductive Message (Id : Type*) where
  | data (clientID : Id) (payload : Bytes)
  | control (event : EventType) (clientID : Id) (success : Bool)
  deriving DecidableEq

namespace Message
variable {Id : Type*}

def clientID : Message Id → Id
  | .data id _ | .control _ id _ => id

def isData : Message Id → Bool
  | .data _ _ => true
  | .control _ _ _ => false

/-- The lane that `SendData` or `SendControlMessage` chooses. -/
def lane : Message Id → Lane
  | .data _ _ | .control .connect _ _ | .control .disconnect _ _ => .data
  | .control .outboundResult _ success => if success then .data else .control
  | .control _ _ _ => .control

end Message

/-- A client of `Client.Start`, with the bytes that were captured, or an outbound connection. -/
inductive Kind where
  | client (initial : Bytes)
  | outbound
  deriving DecidableEq

def Kind.initial : Kind → Bytes
  | .client initial => initial
  | .outbound => []

/-- The control messages that the goroutine of a connection sends. -/
inductive Notice where
  | opening
  | disconnect
  deriving DecidableEq

/-- Where a call of `SendControlMessage` stands. -/
inductive ControlStage where
  | checkClosed
  | enqueue
  | checkQuit
  deriving DecidableEq

/-- Where a call of `SendData` stands. -/
inductive DataStage where
  | checkClosed
  | loadClient
  | acquireCredit
  | requestSend
  | enqueue
  | checkQuit
  deriving DecidableEq

/-- Where the goroutine of a connection stands. `last` says that the read that returned the data
failed. -/
inductive Phase where
  | addOutboundClient
  | sendControl (notice : Notice) (stage : ControlStage)
  | storeClient
  | loadClient
  | sendData (stage : DataStage) (payload : Bytes) (last : Bool)
  | read
  | removeClient
  | done
  deriving DecidableEq

/-- `received` and `sent` are history: the bytes that reads have returned, and the messages that
have gone into a lane. -/
structure Conn (Id : Type*) where
  kind : Kind
  id : Id
  conn : NetConn
  phase : Phase
  received : Bytes
  sent : List (Message Id)

namespace Conn
variable {Id : Type*}

/-- `EventConnect`, or the successful `EventOutboundResult`. -/
def opening (c : Conn Id) : Message Id :=
  match c.kind with
  | .client _ => .control .connect c.id false
  | .outbound => .control .outboundResult c.id true

def notice (c : Conn Id) : Notice → Message Id
  | .opening => c.opening
  | .disconnect => .control .disconnect c.id false

def stream (c : Conn Id) : Bytes := c.kind.initial ++ c.received

def refused (c : Conn Id) : Notice → Phase
  | .opening =>
      match c.kind with
      | .client _ => .done
      | .outbound => .removeClient
  | .disconnect => .done

def notified (c : Conn Id) : Notice → Phase
  | .opening =>
      match c.kind with
      | .client _ => .storeClient
      | .outbound => .loadClient
  | .disconnect => .done

/-- What `Client.Start` or `readOutboundConn` does with what a read returns. `recentActivity` says
whether the backend has written to the client. -/
def afterRead (data : Bytes) (err : Option ReadError) (recentActivity : Bool) : Kind → Phase
  | .client _ =>
      match err with
      | none => .sendData .checkClosed data false
      | some .timeout => if recentActivity then .read else .removeClient
      | some _ => .removeClient
  | .outbound =>
      if 0 < data.length then .sendData .checkClosed data err.isSome
      else if err.isSome then .removeClient else .read

def read (c : Conn Id) (recentActivity : Bool) : Conn Id :=
  let ((data, err), conn) := c.conn.read copyBufferSize
  { c with
    conn := conn
    phase := afterRead data err recentActivity c.kind
    received := c.received ++ data }

end Conn

variable {Id : Type*} [DecidableEq Id]

structure Backend (Id : Type*) where
  closed : Bool
  quit : Bool
  clients : Finset Id
  lanes : Lanes (Message Id)
  conns : List (Conn Id)

namespace Backend

def start : Backend Id := ⟨false, false, ∅, .empty, []⟩

/-- The lanes are channels of 256 messages. -/
def room (b : Backend Id) (message : Message Id) : Bool :=
  (b.lanes.queue message.lane).length < 256

/-- The next step of the goroutine of a connection: the map of clients, the connection, and the
message that goes into its lane. `ok` is what else it depends on: which way a `select` goes, and
whether a credit comes in time. -/
def advance (b : Backend Id) (c : Conn Id) (ok : Bool) :
    Option (Finset Id × Conn Id × Option (Message Id)) :=
  match c.phase with
  -- a registration that fails is reported in the control lane, like other messages
  | .addOutboundClient =>
      if b.closed ∨ c.id ∈ b.clients then some (b.clients, { c with phase := .done }, none)
      else
        some (insert c.id b.clients, { c with phase := .sendControl .opening .checkClosed }, none)
  | .sendControl notice .checkClosed =>
      some (b.clients, { c with
        phase := if b.closed then c.refused notice else .sendControl notice .enqueue }, none)
  | .sendControl notice .enqueue =>
      if ok then
        if b.room (c.notice notice) then
          some (b.clients, { c with phase := .sendControl notice .checkQuit },
            some (c.notice notice))
        else none
      else if b.quit ∨ b.room (c.notice notice) = false then
        some (b.clients, { c with phase := c.refused notice }, none)
      else none
  | .sendControl notice .checkQuit =>
      some (b.clients, { c with
        phase := if b.quit then c.refused notice else c.notified notice }, none)
  | .storeClient =>
      some (insert c.id b.clients, { c with
        phase := if c.kind.initial = [] then .read
          else .sendData .checkClosed c.kind.initial false }, none)
  | .loadClient =>
      some (b.clients, { c with phase := if c.id ∈ b.clients then .read else .done }, none)
  | .sendData .checkClosed payload last =>
      some (b.clients, { c with
        phase := if b.closed then .removeClient else .sendData .loadClient payload last }, none)
  | .sendData .loadClient payload last =>
      some (b.clients, { c with
        phase := if c.id ∈ b.clients then .sendData .acquireCredit payload last
          else .removeClient }, none)
  | .sendData .acquireCredit payload last =>
      some (b.clients, { c with
        phase := if ok then .sendData .requestSend payload last else .removeClient }, none)
  -- a send that is not allowed yet is tried again, unless the backend is closing
  | .sendData .requestSend payload last =>
      if ok then some (b.clients, { c with phase := .sendData .enqueue payload last }, none)
      else if b.quit then some (b.clients, { c with phase := .removeClient }, none)
      else none
  | .sendData .enqueue payload last =>
      if ok then
        if b.room (.data c.id payload) then
          some (b.clients, { c with phase := .sendData .checkQuit payload last },
            some (.data c.id payload))
        else none
      else if b.quit ∨ b.room (.data c.id payload) = false then
        some (b.clients, { c with phase := .removeClient }, none)
      else none
  | .sendData .checkQuit _ last =>
      some (b.clients, { c with
        phase := if b.quit ∨ last then .removeClient else .read }, none)
  | .read => some (b.clients, c.read ok, none)
  | .removeClient =>
      if c.id ∈ b.clients then
        some (b.clients.erase c.id,
          { c with phase := .sendControl .disconnect .checkClosed }, none)
      else some (b.clients, { c with phase := .done }, none)
  | .done => none

end Backend

/-- `control` is a control message of another goroutine, `delete` another deletion of a client;
the last four are `writePump`, which checks `closed` before it writes. -/
inductive Action (Id : Type*) where
  | client (id : Id) (initial : Bytes) (conn : NetConn)
  | outbound (id : Id) (conn : NetConn)
  | go (i : ℕ) (ok : Bool)
  | control (event : EventType) (id : Id) (success : Bool)
  | delete (id : Id)
  | close
  | closeQuit
  | take (lane : Lane)
  | check
  | write (ok : Bool)
  | stop

def step (b : Backend Id) : Action Id → Option (Backend Id)
  | .client id initial conn =>
      some { b with conns := b.conns ++
        [⟨.client initial, id, conn, .sendControl .opening .checkClosed, [], []⟩] }
  | .outbound id conn =>
      some { b with conns := b.conns ++ [⟨.outbound, id, conn, .addOutboundClient, [], []⟩] }
  | .go i ok =>
      match b.conns[i]? with
      | none => none
      | some c => (b.advance c ok).map fun (clients, c, message) =>
          { b with
            clients := clients
            lanes := message.elim b.lanes fun m => b.lanes.push ⟨some i, m⟩ m.lane
            conns := b.conns.set i { c with sent := c.sent ++ message.toList } }
  | .control event id success =>
      let message := Message.control event id success
      if b.room message then
        some { b with lanes := b.lanes.push ⟨none, message⟩ message.lane }
      else none
  | .delete id => some { b with clients := b.clients.erase id }
  | .close => some { b with closed := true }
  | .closeQuit => if b.closed then some { b with quit := true } else none
  | .take lane => (b.lanes.take lane).map fun lanes => { b with lanes := lanes }
  | .check => (b.lanes.check (!b.closed)).map fun lanes => { b with lanes := lanes }
  | .write ok => (b.lanes.write ok).map fun lanes => { b with lanes := lanes }
  | .stop => b.lanes.stop.map fun lanes => { b with lanes := lanes }

/-! ### One connection -/

def Message.payload? (id : Id) : Message Id → Option Bytes
  | .data id' payload => if id' = id then some payload else none
  | .control _ _ _ => none

def payloads (id : Id) (messages : List (Message Id)) : Bytes :=
  (messages.filterMap (Message.payload? id)).flatten

theorem payloads_append (id : Id) (ms ms' : List (Message Id)) :
    payloads id (ms ++ ms') = payloads id ms ++ payloads id ms' := by
  rw [payloads, List.filterMap_append, List.flatten_append, payloads, payloads]

theorem payloads_mono (id : Id) {ms ms' : List (Message Id)} (h : ms <+: ms') :
    payloads id ms <+: payloads id ms' := by
  obtain ⟨rest, rfl⟩ := h
  rw [payloads_append]
  exact List.prefix_append _ _

theorem payloads_data (id : Id) (payload : Bytes) : payloads id [.data id payload] = payload := by
  simp [payloads, Message.payload?]

theorem payloads_control (id : Id) {m : Message Id} (h : m.isData = false) :
    payloads id [m] = [] := by
  cases m with
  | data id' payload => cases h
  | control event id' success => rfl

namespace Conn

omit [DecidableEq Id] in
theorem isData_notice (c : Conn Id) (notice : Notice) : (c.notice notice).isData = false := by
  cases notice with
  | opening =>
    rw [Conn.notice, opening]
    cases c.kind <;> rfl
  | disconnect => rfl

omit [DecidableEq Id] in
theorem clientID_notice (c : Conn Id) (notice : Notice) : (c.notice notice).clientID = c.id := by
  cases notice with
  | opening =>
    rw [Conn.notice, opening]
    cases c.kind <;> rfl
  | disconnect => rfl

omit [DecidableEq Id] in
theorem lane_notice (c : Conn Id) (notice : Notice) : (c.notice notice).lane = .data := by
  cases notice with
  | opening =>
    rw [Conn.notice, opening]
    cases c.kind <;> rfl
  | disconnect => rfl

end Conn

def Phase.fresh : Phase → Bool
  | .addOutboundClient | .sendControl .opening .checkClosed | .sendControl .opening .enqueue => true
  | _ => false

def Phase.opened : Phase → Bool
  | .sendControl .opening .checkQuit | .storeClient | .loadClient | .sendData _ _ _ | .read => true
  | _ => false

/-- What a goroutine that has not given up is going to send before it reads again. -/
def Phase.unsent (initial : Bytes) : Phase → Option Bytes
  | .addOutboundClient | .sendControl .opening _ | .storeClient => some initial
  | .loadClient | .sendData .checkQuit _ _ | .read => some []
  | .sendData _ payload _ => some payload
  | .sendControl .disconnect _ | .removeClient | .done => none

/-- What a connection has sent is its opening message and then its stream, up to what it still
holds. -/
structure Conn.Sound (c : Conn Id) : Prop where
  fresh : c.phase.fresh = true → c.sent = []
  opened : c.phase.opened = true → c.sent.head? = some c.opening
  headed : (∀ m ∈ c.sent, m.isData = false) ∨ c.sent.head? = some c.opening
  unsent : ∀ rest ∈ c.phase.unsent c.kind.initial, payloads c.id c.sent ++ rest = c.stream
  streamed : payloads c.id c.sent <+: c.stream
  ids : ∀ m ∈ c.sent, m.clientID = c.id

omit [DecidableEq Id] in
theorem head?_concat {messages : List (Message Id)} {m first : Message Id}
    (h : messages.head? = some first) : (messages ++ [m]).head? = some first := by
  cases messages with
  | nil => cases h
  | cons first rest => exact h

namespace Conn.Sound
variable {c : Conn Id}

theorem goes (h : c.Sound) (p : Phase) (hfresh : p.fresh = true → c.phase.fresh = true)
    (hopened : p.opened = true → c.phase.opened = true)
    (hunsent : ∀ rest ∈ p.unsent c.kind.initial, rest ∈ c.phase.unsent c.kind.initial) :
    Sound { c with phase := p } :=
  ⟨fun hp => h.fresh (hfresh hp), fun hp => h.opened (hopened hp), h.headed,
    fun rest hrest => h.unsent rest (hunsent rest hrest), h.streamed, h.ids⟩

theorem ends (h : c.Sound) (p : Phase) (hfresh : p.fresh = false) (hopened : p.opened = false)
    (hunsent : p.unsent c.kind.initial = none) : Sound { c with phase := p } := by
  refine h.goes p (fun hp => ?_) (fun hp => ?_) fun rest hrest => ?_
  · rw [hfresh] at hp
    cases hp
  · rw [hopened] at hp
    cases hp
  · rw [hunsent] at hrest
    cases hrest

theorem sends_ids (h : c.Sound) {m : Message Id} (hm : m.clientID = c.id) :
    ∀ m' ∈ c.sent ++ [m], m'.clientID = c.id := by
  intro m' hm'
  rcases List.mem_append.mp hm' with hm' | hm'
  · exact h.ids m' hm'
  · rw [List.mem_singleton.mp hm', hm]

theorem notifies (h : c.Sound) (notice : Notice)
    (hphase : c.phase = .sendControl notice .enqueue) :
    Sound { c with
      phase := .sendControl notice .checkQuit
      sent := c.sent ++ [c.notice notice] } := by
  have hpayloads : payloads c.id (c.sent ++ [c.notice notice]) = payloads c.id c.sent := by
    rw [payloads_append, payloads_control _ (c.isData_notice notice), List.append_nil]
  have hunsent := h.unsent
  rw [hphase] at hunsent
  have hhead : notice = .opening → (c.sent ++ [c.notice notice]).head? = some c.opening := by
    rintro rfl
    have hnil : c.sent = [] := h.fresh (by rw [hphase]; rfl)
    rw [hnil]
    rfl
  refine ⟨fun hp => (by cases notice <;> cases hp), fun hp => ?_, ?_, fun rest hrest => ?_, ?_,
    h.sends_ids (c.clientID_notice notice)⟩
  · cases notice with
    | opening => exact hhead rfl
    | disconnect => cases hp
  · rcases h.headed with hnone | hsome
    · refine .inl fun m hm => ?_
      rcases List.mem_append.mp hm with hm | hm
      · exact hnone m hm
      · rw [List.mem_singleton.mp hm]
        exact c.isData_notice notice
    · exact .inr (head?_concat hsome)
  · rw [hpayloads]
    refine hunsent rest ?_
    cases notice <;> exact hrest
  · rw [hpayloads]
    exact h.streamed

theorem sends (h : c.Sound) {payload : Bytes} {last : Bool}
    (hphase : c.phase = .sendData .enqueue payload last) :
    Sound { c with
      phase := .sendData .checkQuit payload last
      sent := c.sent ++ [.data c.id payload] } := by
  have hhead := head?_concat (m := .data c.id payload) (h.opened (by rw [hphase]; rfl))
  have hstream : payloads c.id (c.sent ++ [.data c.id payload]) = c.stream := by
    rw [payloads_append, payloads_data]
    exact h.unsent payload (by rw [hphase]; rfl)
  refine ⟨fun hp => (by cases hp), fun _ => hhead, .inr hhead, fun rest hrest => ?_, ?_,
    h.sends_ids rfl⟩
  · obtain rfl : [] = rest := Option.some.inj hrest
    rw [hstream, List.append_nil]
    rfl
  · rw [hstream]
    exact List.prefix_rfl

/-- A read keeps what it returns for the next send; an error comes without data, and ends the
stream unless the client may stay. -/
theorem afterRead_unsent {data : Bytes} {err : Option ReadError} (hempty : err ≠ none → data = [])
    (recentActivity : Bool) (kind : Kind) :
    (afterRead data err recentActivity kind).fresh = false ∧
      ∀ rest ∈ (afterRead data err recentActivity kind).unsent kind.initial, rest = data := by
  cases kind with
  | client initial =>
    cases err with
    | none => exact ⟨rfl, fun rest hrest => (Option.some.inj hrest).symm⟩
    | some e =>
      have hnil := hempty (Option.some_ne_none e)
      cases e with
      | timeout =>
        cases recentActivity with
        | true => exact ⟨rfl, fun rest hrest => (Option.some.inj hrest).symm.trans hnil.symm⟩
        | false => exact ⟨rfl, fun rest hrest => by cases hrest⟩
      | _ => exact ⟨rfl, fun rest hrest => by cases hrest⟩
  | outbound =>
    rw [afterRead]
    split_ifs with hlength herr
    · exact ⟨rfl, fun rest hrest => (Option.some.inj hrest).symm⟩
    · exact ⟨rfl, fun rest hrest => by cases hrest⟩
    · have hnil : data = [] := List.length_eq_zero_iff.mp (by omega)
      exact ⟨rfl, fun rest hrest => (Option.some.inj hrest).symm.trans hnil.symm⟩

theorem reads (h : c.Sound) (hphase : c.phase = .read) (recentActivity : Bool) :
    (c.read recentActivity).Sound := by
  have hhead : c.sent.head? = some c.opening := h.opened (by rw [hphase]; rfl)
  have hall : payloads c.id c.sent = c.stream := by
    have hunsent := h.unsent [] (by rw [hphase]; rfl)
    rwa [List.append_nil] at hunsent
  have hempty := @NetConn.read_error c.conn copyBufferSize
  unfold Conn.read
  generalize c.conn.read copyBufferSize = result at hempty ⊢
  obtain ⟨⟨data, err⟩, conn⟩ := result
  obtain ⟨hfresh, hkept⟩ := afterRead_unsent hempty recentActivity c.kind
  have hstream : c.kind.initial ++ (c.received ++ data) = c.stream ++ data :=
    (List.append_assoc _ _ _).symm
  refine ⟨fun hp => ?_, fun _ => hhead, .inr hhead, fun rest hrest => ?_, ?_, h.ids⟩
  · rw [hfresh] at hp
    cases hp
  · rw [hkept rest hrest, hall]
    exact hstream.symm
  · rw [hall]
    exact ⟨data, hstream.symm⟩

end Conn.Sound

/-- What a step of a goroutine does to its connection. -/
structure ConnStep (c c' : Conn Id) (message : Option (Message Id)) : Prop where
  sound : Conn.Sound { c' with sent := c'.sent ++ message.toList }
  sent : c'.sent = c.sent
  lane : ∀ m ∈ message, m.lane = .data

variable {b b' : Backend Id} {c c' : Conn Id}

theorem ConnStep.silent (hsound : c'.Sound) (hsent : c'.sent = c.sent) :
    ConnStep c c' none := by
  refine ⟨?_, hsent, fun m hm => by cases hm⟩
  rw [Option.toList_none, List.append_nil]
  exact hsound

theorem ConnStep.goes (h : c.Sound) (p : Phase) (hfresh : p.fresh = true → c.phase.fresh = true)
    (hopened : p.opened = true → c.phase.opened = true)
    (hunsent : ∀ rest ∈ p.unsent c.kind.initial, rest ∈ c.phase.unsent c.kind.initial) :
    ConnStep c { c with phase := p } none :=
  .silent (h.goes p hfresh hopened hunsent) rfl

theorem ConnStep.ends (h : c.Sound) (p : Phase) (hfresh : p.fresh = false)
    (hopened : p.opened = false) (hunsent : p.unsent c.kind.initial = none) :
    ConnStep c { c with phase := p } none :=
  .silent (h.ends p hfresh hopened hunsent) rfl

omit [DecidableEq Id] in
theorem Conn.refused_ends (c : Conn Id) (notice : Notice) (initial : Bytes) :
    (c.refused notice).fresh = false ∧ (c.refused notice).opened = false ∧
      (c.refused notice).unsent initial = none := by
  cases notice with
  | opening =>
    rw [Conn.refused]
    cases c.kind <;> exact ⟨rfl, rfl, rfl⟩
  | disconnect => exact ⟨rfl, rfl, rfl⟩

theorem ConnStep.refused (h : c.Sound) (notice : Notice) :
    ConnStep c { c with phase := c.refused notice } none := by
  obtain ⟨hfresh, hopened, hunsent⟩ := c.refused_ends notice c.kind.initial
  exact .ends h _ hfresh hopened hunsent

theorem sendControl_connStep {ok : Bool} {clients : Finset Id} {message : Option (Message Id)}
    {notice : Notice} {stage : ControlStage} (h : c.Sound)
    (hphase : c.phase = .sendControl notice stage)
    (hadvance : b.advance c ok = some (clients, c', message)) : ConnStep c c' message := by
  have hgoes (p : Phase) (hfresh : p.fresh = (Phase.sendControl notice stage).fresh)
      (hopened : p.opened = (Phase.sendControl notice stage).opened)
      (hunsent : p.unsent c.kind.initial =
        (Phase.sendControl notice stage).unsent c.kind.initial) :
      ConnStep c { c with phase := p } none := by
    rw [← hphase] at hfresh hopened
    refine .goes h p (fun hp => hfresh ▸ hp) (fun hp => hopened ▸ hp) fun rest hrest => ?_
    rw [hphase, ← hunsent]
    exact hrest
  unfold Backend.advance at hadvance
  rw [hphase] at hadvance
  cases stage with
  | checkClosed =>
    cases hadvance
    split_ifs
    · exact .refused h notice
    · cases notice <;> exact hgoes _ rfl rfl rfl
  | enqueue =>
    dsimp only at hadvance
    split_ifs at hadvance <;> cases hadvance
    · refine ⟨h.notifies notice hphase, rfl, fun m hm => ?_⟩
      obtain rfl := Option.some.inj hm
      exact c.lane_notice notice
    · exact .refused h notice
  | checkQuit =>
    cases hadvance
    split_ifs
    · exact .refused h notice
    · cases notice with
      | opening =>
        refine hgoes (c.notified .opening) ?_ ?_ ?_
        all_goals
          rw [Conn.notified]
          cases c.kind <;> rfl
      | disconnect => exact .ends h _ rfl rfl rfl

theorem sendData_connStep {ok : Bool} {clients : Finset Id} {message : Option (Message Id)}
    {stage : DataStage} {payload : Bytes} {last : Bool} (h : c.Sound)
    (hphase : c.phase = .sendData stage payload last)
    (hadvance : b.advance c ok = some (clients, c', message)) : ConnStep c c' message := by
  have hremoves : ConnStep c { c with phase := .removeClient } none := .ends h _ rfl rfl rfl
  have hgoes (p : Phase) (hfresh : p.fresh = false)
      (hunsent : ∀ initial, p.unsent initial = (Phase.sendData stage payload last).unsent initial) :
      ConnStep c { c with phase := p } none := by
    refine .goes h p (fun hp => ?_) (fun _ => by rw [hphase]; rfl) fun rest hrest => ?_
    · rw [hfresh] at hp
      cases hp
    · rw [hphase, ← hunsent]
      exact hrest
  unfold Backend.advance at hadvance
  rw [hphase] at hadvance
  cases stage with
  | checkClosed | loadClient | acquireCredit =>
    cases hadvance
    split_ifs
    all_goals first | exact hremoves | exact hgoes _ rfl fun _ => rfl
  | requestSend =>
    dsimp only at hadvance
    split_ifs at hadvance <;> cases hadvance
    · exact hgoes _ rfl fun _ => rfl
    · exact hremoves
  | enqueue =>
    dsimp only at hadvance
    split_ifs at hadvance <;> cases hadvance
    · refine ⟨h.sends hphase, rfl, fun m hm => ?_⟩
      obtain rfl := Option.some.inj hm
      rfl
    · exact hremoves
  | checkQuit =>
    cases hadvance
    split_ifs
    · exact hremoves
    · exact hgoes _ rfl fun _ => rfl

theorem advance_connStep {ok : Bool} {clients : Finset Id} {message : Option (Message Id)}
    (h : c.Sound) (hadvance : b.advance c ok = some (clients, c', message)) :
    ConnStep c c' message := by
  cases hphase : c.phase with
  | addOutboundClient =>
    unfold Backend.advance at hadvance
    rw [hphase] at hadvance
    dsimp only at hadvance
    split_ifs at hadvance <;> cases hadvance
    · exact .ends h _ rfl rfl rfl
    · exact .goes h _ (fun _ => by rw [hphase]; rfl) (fun hp => by cases hp)
        fun rest hrest => by rw [hphase]; exact hrest
  | sendControl notice stage => exact sendControl_connStep h hphase hadvance
  | storeClient =>
    unfold Backend.advance at hadvance
    rw [hphase] at hadvance
    cases hadvance
    split_ifs with hinitial
    · refine .goes h _ (fun hp => by cases hp) (fun _ => by rw [hphase]; rfl) fun rest hrest => ?_
      rw [hphase, hinitial]
      exact hrest
    · exact .goes h _ (fun hp => by cases hp) (fun _ => by rw [hphase]; rfl)
        fun rest hrest => by rw [hphase]; exact hrest
  | loadClient =>
    unfold Backend.advance at hadvance
    rw [hphase] at hadvance
    cases hadvance
    split_ifs
    · exact .goes h _ (fun hp => by cases hp) (fun _ => by rw [hphase]; rfl)
        fun rest hrest => by rw [hphase]; exact hrest
    · exact .ends h _ rfl rfl rfl
  | sendData stage payload last => exact sendData_connStep h hphase hadvance
  | read =>
    unfold Backend.advance at hadvance
    rw [hphase] at hadvance
    cases hadvance
    exact .silent (h.reads hphase ok) rfl
  | removeClient =>
    unfold Backend.advance at hadvance
    rw [hphase] at hadvance
    dsimp only at hadvance
    split_ifs at hadvance <;> cases hadvance <;> exact .ends h _ rfl rfl rfl
  | done =>
    unfold Backend.advance at hadvance
    rw [hphase] at hadvance
    cases hadvance

/-! ### Every run -/

def sentOf (conns : List (Conn Id)) (i : ℕ) : List (Message Id) :=
  ((conns[i]?).map Conn.sent).getD []

omit [DecidableEq Id] in
theorem sentOf_set {conns : List (Conn Id)} {i : ℕ} (hi : i < conns.length) (c : Conn Id) :
    sentOf (conns.set i c) = Function.update (sentOf conns) i c.sent := by
  funext j
  by_cases hj : j = i
  · rw [hj, Function.update_self, sentOf, List.getElem?_set_self hi]
    rfl
  · rw [Function.update_of_ne hj, sentOf, List.getElem?_set_ne (Ne.symm hj), sentOf]

omit [DecidableEq Id] in
theorem sentOf_concat (conns : List (Conn Id)) {c : Conn Id} (hc : c.sent = []) :
    sentOf (conns ++ [c]) = sentOf conns := by
  funext j
  rw [sentOf, sentOf, List.getElem?_append]
  split_ifs with hj
  · rfl
  · rw [List.getElem?_eq_none (not_lt.mp hj)]
    cases j - conns.length with
    | zero => exact hc
    | succ n => rfl

/-- The lanes carry what the connections have sent, and each connection sends its stream. -/
structure Sound (b : Backend Id) : Prop where
  carries : Carries (fun m => m.isData = false) b.lanes (sentOf b.conns)
  conns : Each (fun _ c => c.Sound) b.conns

theorem sound_start : Sound (.start : Backend Id) := ⟨carries_empty, Each.nil⟩

theorem Conn.sound_new (hsent : c.sent = []) (hreceived : c.received = [])
    (hopened : c.phase.opened = false)
    (hunsent : c.phase.unsent c.kind.initial = some c.kind.initial) : c.Sound where
  fresh := fun _ => hsent
  opened := fun hp => by
    rw [hopened] at hp
    cases hp
  headed := .inl fun m hm => by
    rw [hsent] at hm
    cases hm
  unsent := by
    intro rest hrest
    rw [hunsent] at hrest
    obtain rfl := Option.some.inj hrest
    rw [hsent, Conn.stream, hreceived, List.append_nil]
    rfl
  streamed := by
    rw [hsent]
    exact List.nil_prefix
  ids := fun m hm => by
    rw [hsent] at hm
    cases hm

theorem Sound.accepts (h : Sound b) (hsound : c.Sound) (hsent : c.sent = []) :
    Sound { b with conns := b.conns ++ [c] } := by
  refine ⟨?_, h.conns.concat hsound fun _ _ _ hc => hc⟩
  dsimp only
  rw [sentOf_concat b.conns hsent]
  exact h.carries

theorem Sound.go {i : ℕ} {ok : Bool} {clients : Finset Id} {message : Option (Message Id)}
    (h : Sound b) (hi : b.conns[i]? = some c)
    (hadvance : b.advance c ok = some (clients, c', message)) :
    Sound { b with
      clients := clients
      lanes := message.elim b.lanes fun m => b.lanes.push ⟨some i, m⟩ m.lane
      conns := b.conns.set i { c' with sent := c'.sent ++ message.toList } } := by
  have hstep := advance_connStep (h.conns i c hi) hadvance
  have hsent : sentOf b.conns i = c.sent := by rw [sentOf, hi]; rfl
  refine ⟨?_, h.conns.set hstep.sound fun _ _ _ _ hc => hc⟩
  dsimp only
  rw [sentOf_set (List.getElem?_eq_some_iff.mp hi).1, hstep.sent, ← hsent]
  cases message with
  | none =>
    rw [Option.toList_none, List.append_nil, Function.update_eq_self]
    exact h.carries
  | some m =>
    rw [Option.elim_some, hstep.lane m rfl]
    exact h.carries.push_sender i m

theorem Sound.step {a : Action Id} (h : Sound b) (hstep : ClientStreams.step b a = some b') :
    Sound b' := by
  cases a with
  | client id initial conn =>
    obtain rfl := Option.some.inj hstep
    exact h.accepts (Conn.sound_new rfl rfl rfl rfl) rfl
  | outbound id conn =>
    obtain rfl := Option.some.inj hstep
    exact h.accepts (Conn.sound_new rfl rfl rfl rfl) rfl
  | go i ok =>
    rw [ClientStreams.step] at hstep
    split at hstep
    · cases hstep
    · next c hi =>
      obtain ⟨⟨clients, c', message⟩, hadvance, rfl⟩ := Option.map_eq_some_iff.mp hstep
      exact h.go hi hadvance
  | control event id success =>
    rw [ClientStreams.step] at hstep
    split_ifs at hstep
    obtain rfl := Option.some.inj hstep
    exact ⟨h.carries.push_other rfl _, h.conns⟩
  | delete id =>
    obtain rfl := Option.some.inj hstep
    exact ⟨h.carries, h.conns⟩
  | close =>
    obtain rfl := Option.some.inj hstep
    exact ⟨h.carries, h.conns⟩
  | closeQuit =>
    rw [ClientStreams.step] at hstep
    split_ifs at hstep
    obtain rfl := Option.some.inj hstep
    exact ⟨h.carries, h.conns⟩
  | take lane =>
    obtain ⟨lanes, htake, rfl⟩ := Option.map_eq_some_iff.mp hstep
    exact ⟨h.carries.take htake, h.conns⟩
  | check =>
    obtain ⟨lanes, hcheck, rfl⟩ := Option.map_eq_some_iff.mp hstep
    exact ⟨h.carries.check hcheck, h.conns⟩
  | write ok =>
    obtain ⟨lanes, hwrite, rfl⟩ := Option.map_eq_some_iff.mp hstep
    exact ⟨h.carries.write hwrite, h.conns⟩
  | stop =>
    obtain ⟨lanes, hstop, rfl⟩ := Option.map_eq_some_iff.mp hstep
    exact ⟨h.carries.stop hstop, h.conns⟩

/-! ### What is written for a connection -/

/-- In the frames of a connection its opening message comes before every data frame, and the
payloads are the beginning of its stream. -/
structure Delivers (c : Conn Id) (frames : List (Message Id)) : Prop where
  opening : ∀ before payload after, frames = before ++ .data c.id payload :: after →
    c.opening ∈ before
  stream : payloads c.id frames <+: c.kind.initial ++ c.received

def Backend.framesOf (b : Backend Id) (i : ℕ) : List (Message Id) := sentBy i b.lanes.written

def Backend.framesFor (b : Backend Id) (id : Id) : List (Message Id) :=
  (b.lanes.written.map Item.message).filter fun m => m.clientID = id

theorem Sound.delivers (h : Sound b) {i : ℕ} (hi : b.conns[i]? = some c) :
    Delivers c (b.framesOf i) := by
  have hsound : c.Sound := h.conns i c hi
  have hwritten : b.framesOf i <+: c.sent := by
    have hcarries := h.carries.written i
    rwa [sentOf, hi] at hcarries
  refine ⟨fun before payload after hsplit => ?_, ?_⟩
  · rw [hsplit] at hwritten
    obtain ⟨rest, hrest⟩ := hwritten
    have hdata : .data c.id payload ∈ c.sent := by simp [← hrest]
    -- a connection that has sent data has sent its opening message first
    have hhead : c.sent.head? = some c.opening := by
      rcases hsound.headed with hnone | hhead
      · cases hnone _ hdata
      · exact hhead
    cases before with
    | nil =>
      rw [← hrest] at hhead
      have hopening := c.isData_notice .opening
      rw [Conn.notice, ← Option.some.inj hhead] at hopening
      cases hopening
    | cons first before =>
      rw [← hrest] at hhead
      rw [← Option.some.inj hhead]
      exact List.mem_cons_self
  · exact (payloads_mono c.id hwritten).trans hsound.streamed

theorem Sound.sender (h : Sound b) {item : Item (Message Id)} {id : Id} {payload : Bytes}
    (hitem : item ∈ b.lanes.written) (hmessage : item.message = .data id payload) :
    ∃ i c, item.sender = some i ∧ b.conns[i]? = some c ∧ c.id = id := by
  obtain ⟨sender, message⟩ := item
  obtain rfl : message = .data id payload := hmessage
  cases sender with
  | none =>
    have hall : (⟨none, .data id payload⟩ : Item (Message Id)) ∈ b.lanes.items :=
      List.mem_append_left _ (List.mem_append_left _ hitem)
    cases h.carries.others _ hall rfl
  | some i =>
    have hsent : .data id payload ∈ sentOf b.conns i :=
      (h.carries.written i).subset (mem_sentBy.mpr hitem)
    cases hc : b.conns[i]? with
    | none =>
      rw [sentOf, hc] at hsent
      cases hsent
    | some c =>
      rw [sentOf, hc] at hsent
      exact ⟨i, c, rfl, hc, ((h.conns i c hc).ids _ hsent).symm⟩

theorem payloads_framesFor {i : ℕ} {id : Id}
    (howner : ∀ item ∈ b.lanes.written, ∀ payload, item.message = .data id payload →
      item.sender = some i) : payloads id (b.framesFor id) = payloads id (b.framesOf i) := by
  unfold payloads Backend.framesFor Backend.framesOf sentBy
  rw [List.filterMap_filter, List.filterMap_map, List.filterMap_filterMap]
  refine congrArg List.flatten (List.filterMap_congr fun item hitem => ?_)
  cases hmessage : item.message with
  | control event id' success => split_ifs <;> simp [hmessage, Message.payload?]
  | data id' payload =>
    by_cases hid : id' = id
    · have hsender := howner item hitem payload (by rw [hmessage, hid])
      simp [hmessage, hsender, Message.clientID, hid]
    · split_ifs <;> simp [hmessage, Message.clientID, Message.payload?, hid]

theorem Sound.delivers_for (h : Sound b) {i : ℕ} (hi : b.conns[i]? = some c)
    (hid : ∀ j c', b.conns[j]? = some c' → c'.id = c.id → j = i) :
    Delivers c (b.framesFor c.id) := by
  have hdelivers := h.delivers hi
  have howner : ∀ item ∈ b.lanes.written, ∀ payload, item.message = .data c.id payload →
      item.sender = some i := by
    intro item hitem payload hmessage
    obtain ⟨j, c', hsender, hj, hc'⟩ := h.sender hitem hmessage
    rw [hsender, hid j c' hj hc']
  refine ⟨fun before payload after hsplit => ?_, ?_⟩
  · obtain ⟨ms₁, ms₂, hmessages, rfl, hms₂⟩ := List.filter_eq_append_iff.mp hsplit
    obtain ⟨skipped, ms₃, rfl, hskipped, -, -⟩ := List.filter_eq_cons_iff.mp hms₂
    rw [← List.append_assoc] at hmessages
    obtain ⟨items, rest, hwritten, hitems, hrest⟩ := List.map_eq_append_iff.mp hmessages
    obtain ⟨item, items', rfl, hitem, -⟩ := List.map_eq_cons_iff.mp hrest
    have hsender := howner item (by simp [hwritten]) payload hitem
    have hframes : b.framesOf i = sentBy i items ++ .data c.id payload :: sentBy i items' := by
      rw [Backend.framesOf, hwritten, sentBy_append]
      simp [sentBy, hsender, hitem]
    have hopening := mem_sentBy.mp (hdelivers.opening _ _ _ hframes)
    have hmem : c.opening ∈ ms₁ ++ skipped := hitems ▸ List.mem_map_of_mem hopening
    have hclientID : c.opening.clientID = c.id := c.clientID_notice .opening
    rcases List.mem_append.mp hmem with hmem | hmem
    · exact List.mem_filter.mpr ⟨hmem, by simpa using hclientID⟩
    · exact absurd (by simpa using hclientID) (hskipped _ hmem)
  · rw [payloads_framesFor howner]
    exact hdelivers.stream

/-- Whatever the interleaving, and whichever sends fail: what the goroutine of a connection gets
onto the socket is its opening message and then the beginning of its stream. The ids of the
connections are UUIDs; all data frames for an id that no two connections share are those of its
connection. -/
theorem connection_delivered {trace : List (Action Id)}
    (hrun : run step .start trace = some b) {i : ℕ} (hi : b.conns[i]? = some c) :
    Delivers c (b.framesOf i) ∧
      ((∀ j c', b.conns[j]? = some c' → c'.id = c.id → j = i) →
        Delivers c (b.framesFor c.id)) := by
  have h : Sound b := invariant_run (fun _ _ _ hI hs => hI.step hs) sound_start hrun
  exact ⟨h.delivers hi, h.delivers_for hi⟩

def writes (lane : Lane) (n : ℕ) : List (Action ℕ) :=
  (List.replicate n [Action.take lane, .check, .write true]).flatten

/-- A client whose first byte was captured and an outbound connection, at the same time; a credit
overtakes the data of the client. -/
def twoStreams : List (Action ℕ) :=
  [.client 0 [1] (.tcp [.data [2]]), .outbound 1 (.tcp [.data [9]])] ++
    List.replicate 10 (.go 0 true) ++ List.replicate 12 (.go 1 true) ++
    [.control .resumeStream 0 false] ++ writes .control 1 ++ writes .data 2 ++
    List.replicate 7 (.go 0 true) ++ writes .data 3

theorem connection_delivered_twoStreams :
    ∃ b c, run step .start twoStreams = some b ∧ b.conns[0]? = some c ∧
      b.framesFor 0 = [.control .resumeStream 0 false, .control .connect 0 false, .data 0 [1],
        .data 0 [2]] ∧ Delivers c (b.framesFor c.id) := by
  obtain ⟨b, hrun, hids, hframes⟩ : ∃ b, run step .start twoStreams = some b ∧
      (b.conns.map Conn.id = [0, 1] ∧ b.framesFor 0 = [.control .resumeStream 0 false,
        .control .connect 0 false, .data 0 [1], .data 0 [2]]) :=
    exists_run_of_any (by decide +kernel)
  have hlength : b.conns.length = 2 := by
    rw [← List.length_map Conn.id, hids]
    rfl
  obtain ⟨c, hc⟩ : ∃ c, b.conns[0]? = some c :=
    ⟨_, List.getElem?_eq_getElem (by omega)⟩
  have hid (j : ℕ) (c' : Conn ℕ) (hj : b.conns[j]? = some c') : [0, 1][j]? = some c'.id := by
    rw [← hids, List.getElem?_map, hj]
    rfl
  refine ⟨b, c, hrun, hc, hframes, (connection_delivered hrun hc).2 fun j c' hj hsame => ?_⟩
  have hzero := hid 0 c hc
  have hsecond := hid j c' hj
  rw [hsame, ← hzero] at hsecond
  match j with
  | 0 => rfl
  | 1 => cases hsecond
  | _ + 2 => cases hsecond

end NexusProxy.Hub.ClientStreams
