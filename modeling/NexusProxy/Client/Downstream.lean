import NexusProxy.Client.LocalDelivery
import NexusProxy.Hub.ClientStreams

/-! The way from a client of the relay to the local service of a backend: the goroutine of the
connection on the relay, the lanes and the WebSocket, the read pump of the backend, the buffer of
the connection and the local socket. -/
namespace NexusProxy.Client.Downstream
open Collections LocalDelivery Multiplexer Transition
open Hub.ClientStreams (Backend Message payloads)
open Proxy (Bytes)

variable {Id : Type*} [DecidableEq Id]

/-! ### What the relay announces -/

def isConnect : Message Id → Bool
  | .control .connect _ _ => true
  | _ => false

/-- Ids are UUIDs, and only `AddClient` sends `EventConnect`. -/
def Announces (b : Backend Id) : Hub.ClientStreams.Action Id → Prop
  | .client id _ _ | .outbound id _ => id ∉ b.conns.map Hub.ClientStreams.Conn.id
  | .control event _ _ => event ≠ .connect
  | _ => True

instance decidableAnnounces (b : Backend Id) (a : Hub.ClientStreams.Action Id) :
    Decidable (Announces b a) :=
  match a with
  | .client id _ _ | .outbound id _ =>
      inferInstanceAs (Decidable (id ∉ b.conns.map Hub.ClientStreams.Conn.id))
  | .control event _ _ => inferInstanceAs (Decidable (event ≠ .connect))
  | .go _ _ | .delete _ | .close | .closeQuit | .take _ | .check | .write _ | .stop =>
      inferInstanceAs (Decidable True)

/-- A connection announces itself before it sends anything else, and once. -/
structure Announced (b : Backend Id) : Prop where
  ids : (b.conns.map Hub.ClientStreams.Conn.id).Nodup
  carries : Carries (fun m => m.isData = false ∧ isConnect m = false) b.lanes
    (Hub.ClientStreams.sentOf b.conns)
  sound : Each (fun _ c => c.Sound) b.conns
  once : Each (fun _ c => ∀ m ∈ c.sent.tail, isConnect m = false) b.conns

variable {b b' : Backend Id}

theorem announced_start : Announced (.start : Backend Id) :=
  ⟨List.nodup_nil, carries_empty, Each.nil, Each.nil⟩

/-- What a connection sends: `EventConnect` comes first, and the id stays. -/
theorem advance_announces {c c' : Hub.ClientStreams.Conn Id} {ok : Bool} {clients : Finset Id}
    {message : Option (Message Id)} (h : c.Sound)
    (hadvance : b.advance c ok = some (clients, c', message)) :
    c'.id = c.id ∧ ∀ m ∈ message, isConnect m = true → c.sent = [] := by
  unfold Backend.advance at hadvance
  cases hphase : c.phase with
  | sendControl notice stage =>
    rw [hphase] at hadvance
    cases stage with
    | enqueue =>
      dsimp only at hadvance
      split_ifs at hadvance <;> cases hadvance
      · refine ⟨rfl, fun m hm hconnect => ?_⟩
        obtain rfl := Option.some.inj hm
        cases notice with
        | opening => exact h.fresh (by rw [hphase]; rfl)
        | disconnect => cases hconnect
      · exact ⟨rfl, fun m hm => by cases hm⟩
    | checkClosed | checkQuit =>
      cases hadvance
      exact ⟨rfl, fun m hm => by cases hm⟩
  | sendData stage payload last =>
    rw [hphase] at hadvance
    cases stage with
    | enqueue =>
      dsimp only at hadvance
      split_ifs at hadvance <;> cases hadvance
      · refine ⟨rfl, fun m hm hconnect => ?_⟩
        obtain rfl := Option.some.inj hm
        cases hconnect
      · exact ⟨rfl, fun m hm => by cases hm⟩
    | requestSend =>
      dsimp only at hadvance
      split_ifs at hadvance <;> cases hadvance
      · exact ⟨rfl, fun m hm => by cases hm⟩
      · exact ⟨rfl, fun m hm => by cases hm⟩
    | checkClosed | loadClient | acquireCredit | checkQuit =>
      cases hadvance
      exact ⟨rfl, fun m hm => by cases hm⟩
  | addOutboundClient | removeClient =>
    rw [hphase] at hadvance
    dsimp only at hadvance
    split_ifs at hadvance <;> cases hadvance
    · exact ⟨rfl, fun m hm => by cases hm⟩
    · exact ⟨rfl, fun m hm => by cases hm⟩
  | storeClient | loadClient | read =>
    rw [hphase] at hadvance
    cases hadvance
    exact ⟨rfl, fun m hm => by cases hm⟩
  | done =>
    rw [hphase] at hadvance
    cases hadvance

theorem Announced.go {c c' : Hub.ClientStreams.Conn Id} {i : ℕ} {ok : Bool} {clients : Finset Id}
    {message : Option (Message Id)} (h : Announced b) (hi : b.conns[i]? = some c)
    (hadvance : b.advance c ok = some (clients, c', message)) :
    Announced { b with
      clients := clients
      lanes := message.elim b.lanes fun m => b.lanes.push ⟨some i, m⟩ m.lane
      conns := b.conns.set i { c' with sent := c'.sent ++ message.toList } } := by
  have hstep := Hub.ClientStreams.advance_connStep (h.sound i c hi) hadvance
  obtain ⟨hid, hconnect⟩ := advance_announces (h.sound i c hi) hadvance
  have hsent : Hub.ClientStreams.sentOf b.conns i = c.sent := by
    rw [Hub.ClientStreams.sentOf, hi]
    rfl
  refine ⟨?_, ?_, h.sound.set hstep.sound fun _ _ _ _ hc => hc,
    h.once.set (fun m hm => ?_) fun _ _ _ _ hc => hc⟩
  · dsimp only
    have hsame : (b.conns.map Hub.ClientStreams.Conn.id).set i c'.id =
        b.conns.map Hub.ClientStreams.Conn.id := by
      obtain ⟨hlt, rfl⟩ := List.getElem?_eq_some_iff.mp hi
      have hlt' : i < (b.conns.map Hub.ClientStreams.Conn.id).length := by simpa using hlt
      have hget : c'.id = (b.conns.map Hub.ClientStreams.Conn.id)[i] := by
        rw [hid, List.getElem_map]
      rw [hget, List.set_getElem_self]
    rw [List.map_set, hsame]
    exact h.ids
  · dsimp only
    rw [Hub.ClientStreams.sentOf_set (List.getElem?_eq_some_iff.mp hi).1, hstep.sent, ← hsent]
    cases message with
    | none =>
      rw [Option.toList_none, List.append_nil, Function.update_eq_self]
      exact h.carries
    | some m =>
      rw [Option.elim_some, hstep.lane m rfl]
      exact h.carries.push_sender i m
  · dsimp only at hm
    rw [hstep.sent] at hm
    cases hold : c.sent with
    | nil =>
      rw [hold] at hm
      cases message <;> cases hm
    | cons first rest =>
      have honce := h.once i c hi m
      rw [hold] at hm honce
      rcases List.mem_append.mp hm with hm | hm
      · exact honce hm
      · refine Bool.eq_false_iff.mpr fun hm' => ?_
        have hnil := hconnect m (by simpa using hm) hm'
        rw [hold] at hnil
        cases hnil

theorem Announced.accepts {c : Hub.ClientStreams.Conn Id} (h : Announced b) (hsound : c.Sound)
    (hsent : c.sent = []) (hid : c.id ∉ b.conns.map Hub.ClientStreams.Conn.id) :
    Announced { b with conns := b.conns ++ [c] } := by
  refine ⟨?_, ?_, h.sound.concat hsound fun _ _ _ hc => hc,
    h.once.concat (fun m hm => ?_) fun _ _ _ hc => hc⟩
  · dsimp only
    rw [List.map_append, List.map_singleton]
    exact List.nodup_append.mpr ⟨h.ids, List.nodup_singleton _, fun x hx y hy => by
      rw [List.mem_singleton.mp hy]
      exact fun heq => hid (heq ▸ hx)⟩
  · dsimp only
    rw [Hub.ClientStreams.sentOf_concat b.conns hsent]
    exact h.carries
  · rw [hsent] at hm
    cases hm

theorem Announced.step {a : Hub.ClientStreams.Action Id} (h : Announced b) (hguard : Announces b a)
    (hstep : Hub.ClientStreams.step b a = some b') : Announced b' := by
  cases a with
  | client id initial conn =>
    obtain rfl := Option.some.inj hstep
    exact h.accepts (Hub.ClientStreams.Conn.sound_new rfl rfl rfl rfl) rfl hguard
  | outbound id conn =>
    obtain rfl := Option.some.inj hstep
    exact h.accepts (Hub.ClientStreams.Conn.sound_new rfl rfl rfl rfl) rfl hguard
  | go i ok =>
    rw [Hub.ClientStreams.step] at hstep
    split at hstep
    · cases hstep
    · next c hi =>
      obtain ⟨⟨clients, c', message⟩, hadvance, rfl⟩ := Option.map_eq_some_iff.mp hstep
      exact h.go hi hadvance
  | control event id success =>
    obtain ⟨-, rfl⟩ := guarded hstep
    have hevent : isConnect (.control event id success) = false := by
      cases event with
      | connect => exact absurd rfl hguard
      | _ => rfl
    exact ⟨h.ids, h.carries.push_other ⟨rfl, hevent⟩ _, h.sound, h.once⟩
  | delete id =>
    obtain rfl := Option.some.inj hstep
    exact ⟨h.ids, h.carries, h.sound, h.once⟩
  | close =>
    obtain rfl := Option.some.inj hstep
    exact ⟨h.ids, h.carries, h.sound, h.once⟩
  | closeQuit =>
    obtain ⟨-, rfl⟩ := guarded hstep
    exact ⟨h.ids, h.carries, h.sound, h.once⟩
  | take lane =>
    obtain ⟨lanes, htake, rfl⟩ := Option.map_eq_some_iff.mp hstep
    exact ⟨h.ids, h.carries.take htake, h.sound, h.once⟩
  | check =>
    obtain ⟨lanes, hcheck, rfl⟩ := Option.map_eq_some_iff.mp hstep
    exact ⟨h.ids, h.carries.check hcheck, h.sound, h.once⟩
  | write ok =>
    obtain ⟨lanes, hwrite, rfl⟩ := Option.map_eq_some_iff.mp hstep
    exact ⟨h.ids, h.carries.write hwrite, h.sound, h.once⟩
  | stop =>
    obtain ⟨lanes, hstop, rfl⟩ := Option.map_eq_some_iff.mp hstep
    exact ⟨h.ids, h.carries.stop hstop, h.sound, h.once⟩

theorem Announced.toSound (h : Announced b) : Hub.ClientStreams.Sound b where
  carries :=
    { control := fun item hitem =>
        ⟨(h.carries.control item hitem).1, (h.carries.control item hitem).2.1⟩
      others := fun item hitem hnone => (h.carries.others item hitem hnone).1
      fifo := h.carries.fifo
      written := h.carries.written }
  conns := h.sound

theorem Announced.index_eq (h : Announced b) {i j : ℕ} {c c' : Hub.ClientStreams.Conn Id}
    (hi : b.conns[i]? = some c) (hj : b.conns[j]? = some c') (hid : c'.id = c.id) : j = i := by
  have hmapped {k : ℕ} {d : Hub.ClientStreams.Conn Id} (hk : b.conns[k]? = some d) :
      (b.conns.map Hub.ClientStreams.Conn.id)[k]? = some d.id := by
    rw [List.getElem?_map, hk]
    rfl
  have hlt : j < (b.conns.map Hub.ClientStreams.Conn.id).length :=
    (List.getElem?_eq_some_iff.mp (hmapped hj)).1
  refine (List.getElem?_inj hlt h.ids).mp ?_
  rw [hmapped hj, hmapped hi, hid]

theorem Announced.connect_sender (h : Announced b) {item : Item (Message Id)} {id : Id}
    {success : Bool} (hitem : item ∈ b.lanes.written)
    (hmessage : item.message = .control .connect id success) :
    ∃ i c, item.sender = some i ∧ b.conns[i]? = some c ∧ c.id = id := by
  obtain ⟨sender, message⟩ := item
  obtain rfl : message = .control .connect id success := hmessage
  cases sender with
  | none =>
    have hall : (⟨none, .control .connect id success⟩ : Item (Message Id)) ∈ b.lanes.items :=
      List.mem_append_left _ (List.mem_append_left _ hitem)
    cases (h.carries.others _ hall rfl).2
  | some i =>
    have hsent : .control .connect id success ∈ Hub.ClientStreams.sentOf b.conns i :=
      (h.carries.written i).subset (mem_sentBy.mpr hitem)
    cases hc : b.conns[i]? with
    | none =>
      rw [Hub.ClientStreams.sentOf, hc] at hsent
      cases hsent
    | some c =>
      rw [Hub.ClientStreams.sentOf, hc] at hsent
      exact ⟨i, c, rfl, hc, ((h.sound i c hc).ids _ hsent).symm⟩

/-- No data frame for an id is written before its `EventConnect`. -/
theorem Announced.no_data_before (h : Announced b) {before after : List (Message Id)} {id : Id}
    {success : Bool}
    (hwritten : b.lanes.written.map Item.message =
      before ++ .control .connect id success :: after) (payload : Bytes) :
    .data id payload ∉ before := by
  intro hdata
  obtain ⟨items, rest, hsplit, hbefore, hrest⟩ := List.map_eq_append_iff.mp hwritten
  obtain ⟨item, items', rfl, hitem, -⟩ := List.map_eq_cons_iff.mp hrest
  obtain ⟨i, c, hsender, hi, hc⟩ := h.connect_sender (by simp [hsplit]) hitem
  rw [← hbefore] at hdata
  obtain ⟨data, hmem, hmessage⟩ := List.mem_map.mp hdata
  obtain ⟨j, c', hsender', hj, hc'⟩ := h.toSound.sender (by simp [hsplit, hmem]) hmessage
  obtain rfl := h.index_eq hi hj (hc'.trans hc.symm)
  -- both were sent by one goroutine, and its `EventConnect` is the first of its messages
  have hfirst : .data id payload ∈ sentBy j items := by
    obtain ⟨sender, message⟩ := data
    obtain rfl : sender = some j := hsender'
    obtain rfl : message = .data id payload := hmessage
    exact mem_sentBy.mpr hmem
  have hsent : sentBy j b.lanes.written <+: c.sent := by
    have hcarries := h.carries.written j
    rwa [Hub.ClientStreams.sentOf, hi] at hcarries
  have hframes : sentBy j b.lanes.written =
      sentBy j items ++ .control .connect id success :: sentBy j items' := by
    rw [hsplit, sentBy_append]
    simp [sentBy, hsender, hitem]
  rw [hframes] at hsent
  obtain ⟨unwritten, hunwritten⟩ := hsent
  have htail : .control .connect id success ∈ c.sent.tail := by
    cases hitems : sentBy j items with
    | nil =>
      rw [hitems] at hfirst
      cases hfirst
    | cons first more => simp [← hunwritten, hitems]
  cases h.once j c hi _ htail

/-! ### The backend -/

/-- A session: the relay and the backend. The read pump has read the first messages from the
socket; while it is in `handleDataMessage`, `pumping` says for which connection. -/
structure System (Id : Type*) where
  hub : Backend Id
  read : ℕ
  pumping : Option Id
  conns : Id → Option LocalDelivery.Conn

namespace System

def start : System Id := ⟨.start, 0, none, fun _ => none⟩

def messages (s : System Id) : List (Message Id) := s.hub.lanes.written.map Item.message

/-- What the read pump does with a message: `EventConnect` stores a pending connection, and data
goes to the connection in the map, if there is one. The other messages are of no concern here; what
they do to a connection is one of its own steps. -/
def handle (isUDP : Id → Bool) (s : System Id) : Message Id → System Id
  | .control .connect id _ =>
      { s with conns := Function.update s.conns id (some (.pending (isUDP id) false)) }
  | .control _ _ _ => s
  | .data id payload =>
      match (s.conns id).bind fun c => c.step (.check payload) with
      | some c => { s with conns := Function.update s.conns id (some c), pumping := some id }
      | none => s

end System

/-- `conn` is a step of one of the connections of the backend, `returns` the end of
`handleDataMessage`. -/
inductive Action (Id : Type*) where
  | hub (a : Hub.ClientStreams.Action Id)
  | readMessage
  | returns
  | handleSocks5Conn (id : Id)
  | conn (id : Id) (a : LocalDelivery.Action)

def step (isUDP : Id → Bool) (s : System Id) : Action Id → Option (System Id)
  | .hub a => (Hub.ClientStreams.step s.hub a).map fun hub => { s with hub := hub }
  | .readMessage =>
      match s.pumping, s.messages[s.read]? with
      | none, some m => some { s.handle isUDP m with read := s.read + 1 }
      | _, _ => none
  | .returns =>
      match s.pumping with
      | some id => if (s.conns id).all fun c => c.incoming = .none then
          some { s with pumping := none } else none
      | none => none
  | .handleSocks5Conn id =>
      some { s with conns := Function.update s.conns id (some (.pending false true)) }
  | .conn _ (.check _) => none
  | .conn id a => ((s.conns id).bind fun c => c.step a).map fun c =>
      { s with conns := Function.update s.conns id (some c) }

/-- Ids are UUIDs: a new one belongs to no connection yet. -/
def Fresh (s : System Id) : Action Id → Prop
  | .hub a => Announces s.hub a
  | .handleSocks5Conn id => id ∉ s.hub.conns.map Hub.ClientStreams.Conn.id
  | _ => True

instance decidableFresh (s : System Id) (a : Action Id) : Decidable (Fresh s a) :=
  match a with
  | .hub a => decidableAnnounces s.hub a
  | .handleSocks5Conn id =>
      inferInstanceAs (Decidable (id ∉ s.hub.conns.map Hub.ClientStreams.Conn.id))
  | .readMessage | .returns | .conn _ _ => inferInstanceAs (Decidable True)

def dataFor (id : Id) (messages : List (Message Id)) : List Bytes :=
  messages.filterMap (Hub.ClientStreams.Message.payload? id)

/-- A connection in the map has been given every data frame for its id that was read; one that is
no longer there, the first of them. -/
structure Receives (c : LocalDelivery.Conn) (frames : List Bytes) : Prop where
  sound : c.Sound
  stored : c.localConns = true → c.arrived = frames
  arrived : c.arrived <+: frames

structure Sound (s : System Id) : Prop where
  hub : Announced s.hub
  read : s.read ≤ s.messages.length
  conns : ∀ id c, s.conns id = some c → Receives c (dataFor id (s.messages.take s.read))
  pumping : ∀ id c, s.conns id = some c → c.incoming ≠ .none → s.pumping = some id

/-! ### One step -/

theorem written_grows {a : Hub.ClientStreams.Action Id}
    (hstep : Hub.ClientStreams.step b a = some b') : b.lanes.written <+: b'.lanes.written := by
  have hpush (item : Item (Message Id)) (lane : Lane) :
      (b.lanes.push item lane).written = b.lanes.written := by
    cases lane <;> rfl
  cases a with
  | client | outbound | delete | close =>
    obtain rfl := Option.some.inj hstep
    exact List.prefix_rfl
  | go i ok =>
    rw [Hub.ClientStreams.step] at hstep
    split at hstep
    · cases hstep
    · obtain ⟨⟨clients, c', message⟩, -, rfl⟩ := Option.map_eq_some_iff.mp hstep
      cases message with
      | none => exact List.prefix_rfl
      | some m =>
        dsimp only [Option.elim_some]
        rw [hpush]
  | control event id success =>
    obtain ⟨-, rfl⟩ := guarded hstep
    dsimp only
    rw [hpush]
  | closeQuit =>
    obtain ⟨-, rfl⟩ := guarded hstep
    exact List.prefix_rfl
  | take lane =>
    obtain ⟨lanes, htake, rfl⟩ := Option.map_eq_some_iff.mp hstep
    cases lane with
    | control | data =>
      unfold Lanes.take at htake
      dsimp only at htake
      split at htake <;> cases htake
      exact List.prefix_rfl
  | check =>
    obtain ⟨lanes, hcheck, rfl⟩ := Option.map_eq_some_iff.mp hstep
    unfold Lanes.check at hcheck
    split at hcheck <;> cases hcheck
    exact List.prefix_rfl
  | write ok =>
    obtain ⟨lanes, hwrite, rfl⟩ := Option.map_eq_some_iff.mp hstep
    unfold Lanes.write at hwrite
    split at hwrite <;> cases hwrite
    cases ok with
    | true => exact List.prefix_append _ _
    | false => exact List.prefix_rfl
  | stop =>
    obtain ⟨lanes, hstop, rfl⟩ := Option.map_eq_some_iff.mp hstep
    unfold Lanes.stop at hstop
    split at hstop <;> cases hstop
    exact List.prefix_rfl

variable {isUDP : Id → Bool} {s t : System Id}

theorem step_arrived {c d : LocalDelivery.Conn} {a : LocalDelivery.Action}
    (ha : ∀ data, a ≠ .check data)
    (hstep : c.step a = some d) : d.arrived = c.arrived ∧
      (d.localConns = true → c.localConns = true) ∧ (d.incoming ≠ .none → c.incoming ≠ .none) := by
  cases a with
  | check data => exact absurd rfl (ha data)
  | _ =>
    simp only [LocalDelivery.Conn.step, LocalDelivery.Conn.deliver, LocalDelivery.Conn.wrote]
      at hstep
    repeat' split at hstep
    all_goals cases hstep
    all_goals simp

theorem dataFor_take_succ (id : Id) {ms : List (Message Id)} {n : ℕ} {m : Message Id}
    (hm : ms[n]? = some m) :
    dataFor id (ms.take (n + 1)) = dataFor id (ms.take n) ++ (m.payload? id).toList := by
  rw [List.take_add_one, hm, dataFor, List.filterMap_append, dataFor]
  cases hpayload : m.payload? id <;> simp [hpayload]

theorem Sound.dataFor_connect (h : Sound s) {id : Id} {success : Bool}
    (hm : s.messages[s.read]? = some (.control .connect id success)) :
    dataFor id (s.messages.take s.read) = [] := by
  obtain ⟨hlt, hget⟩ := List.getElem?_eq_some_iff.mp hm
  have hsplit : s.hub.lanes.written.map Item.message =
      s.messages.take s.read ++ .control .connect id success :: s.messages.drop (s.read + 1) := by
    rw [← hget, List.getElem_cons_drop, List.take_append_drop]
    rfl
  refine List.filterMap_eq_nil_iff.mpr fun m hmem => ?_
  cases m with
  | control => rfl
  | data id' payload =>
    refine if_neg fun hid => ?_
    rw [hid] at hmem
    exact h.hub.no_data_before hsplit payload hmem

theorem Sound.dataFor_unknown (h : Sound s) {id : Id}
    (hid : id ∉ s.hub.conns.map Hub.ClientStreams.Conn.id) :
    dataFor id (s.messages.take s.read) = [] := by
  refine List.filterMap_eq_nil_iff.mpr fun m hmem => ?_
  cases m with
  | control => rfl
  | data id' payload =>
    refine if_neg fun heq => hid ?_
    obtain ⟨item, hitem, hmessage⟩ := List.mem_map.mp (List.mem_of_mem_take hmem)
    obtain ⟨i, c, -, hi, hc⟩ := h.hub.toSound.sender hitem hmessage
    rw [← heq, ← hc]
    exact List.mem_map_of_mem (List.mem_of_getElem? hi)

theorem receives_pending (isUDP conn : Bool) : Receives (.pending isUDP conn) [] :=
  ⟨LocalDelivery.Conn.sound_pending isUDP conn, fun _ => rfl, List.prefix_rfl⟩

theorem Receives.more {c : LocalDelivery.Conn} {frames : List Bytes} (h : Receives c frames)
    (hstored : c.localConns = false) (more : List Bytes) : Receives c (frames ++ more) := by
  refine ⟨h.sound, fun hc => ?_, h.arrived.trans (List.prefix_append _ _)⟩
  rw [hstored] at hc
  cases hc

theorem System.handle_of_none {id : Id} {payload : Bytes}
    (h : ((s.conns id).bind fun c => c.step (.check payload)) = none) :
    s.handle isUDP (.data id payload) = s := by
  simp only [System.handle, h]

theorem System.handle_of_some {id : Id} {payload : Bytes} {c : LocalDelivery.Conn}
    (h : ((s.conns id).bind fun c => c.step (.check payload)) = some c) :
    s.handle isUDP (.data id payload) =
      { s with conns := Function.update s.conns id (some c), pumping := some id } := by
  simp only [System.handle, h]

theorem Sound.handle (h : Sound s) {m : Message Id} (hidle : s.pumping = none)
    (hm : s.messages[s.read]? = some m) :
    Sound { s.handle isUDP m with read := s.read + 1 } := by
  have hread : s.read + 1 ≤ s.messages.length := (List.getElem?_eq_some_iff.mp hm).1
  have hnone (id : Id) (c : LocalDelivery.Conn) (hc : s.conns id = some c) :
      c.incoming = .none := by
    by_contra hin
    have hpumping := h.pumping id c hc hin
    rw [hidle] at hpumping
    cases hpumping
  cases m with
  | control event id success =>
    have hsame (id' : Id) : dataFor id' (s.messages.take (s.read + 1)) =
        dataFor id' (s.messages.take s.read) := by
      rw [dataFor_take_succ id' hm]
      exact List.append_nil _
    have hskip : Sound { s with read := s.read + 1 } := by
      refine ⟨h.hub, hread, fun id' c hc => ?_, h.pumping⟩
      show Receives c (dataFor id' (s.messages.take (s.read + 1)))
      rw [hsame id']
      exact h.conns id' c hc
    cases event with
    | connect =>
      refine ⟨h.hub, hread, ?_, ?_⟩
      · show ∀ id' c, Function.update s.conns id _ id' = some c →
          Receives c (dataFor id' (s.messages.take (s.read + 1)))
        refine (Function.forall_update_iff s.conns fun id' o => ∀ c, o = some c →
          Receives c (dataFor id' (s.messages.take (s.read + 1)))).mpr ⟨?_, fun id' _ => ?_⟩
        · rintro c ⟨⟩
          rw [hsame id, h.dataFor_connect hm]
          exact receives_pending _ _
        · exact hskip.conns id'
      · refine (Function.forall_update_iff s.conns fun id' o => ∀ c, o = some c →
          c.incoming ≠ .none → s.pumping = some id').mpr ⟨?_, fun id' _ => h.pumping id'⟩
        rintro c ⟨⟩ hin
        exact absurd rfl hin
    | _ => exact hskip
  | data id payload =>
    have hother (id' : Id) (hid : id' ≠ id) : dataFor id' (s.messages.take (s.read + 1)) =
        dataFor id' (s.messages.take s.read) := by
      rw [dataFor_take_succ id' hm, Hub.ClientStreams.Message.payload?, if_neg (Ne.symm hid)]
      exact List.append_nil _
    have hthis : dataFor id (s.messages.take (s.read + 1)) =
        dataFor id (s.messages.take s.read) ++ [payload] := by
      rw [dataFor_take_succ id hm, Hub.ClientStreams.Message.payload?, if_pos rfl]
      rfl
    have hdropped (hgone : ∀ c, s.conns id = some c → c.localConns = false) :
        Sound { s with read := s.read + 1 } := by
      refine ⟨h.hub, hread, fun id' c hc => ?_, h.pumping⟩
      show Receives c (dataFor id' (s.messages.take (s.read + 1)))
      by_cases hid : id' = id
      · rw [hid] at hc ⊢
        rw [hthis]
        exact (h.conns id c hc).more (hgone c hc) _
      · rw [hother id' hid]
        exact h.conns id' c hc
    cases hc : s.conns id with
    | none =>
      rw [System.handle_of_none (by rw [hc]; rfl)]
      refine hdropped fun c hc' => ?_
      rw [hc] at hc'
      cases hc'
    | some c =>
      have hreceives := h.conns id c hc
      cases hstored : c.localConns with
      | false =>
        rw [System.handle_of_none (by simp [hc, LocalDelivery.Conn.step, hstored])]
        refine hdropped fun c' hc' => ?_
        rw [hc] at hc'
        rw [← Option.some.inj hc', hstored]
      | true =>
        have hchecked : c.step (.check payload) = some (c.checked payload) :=
          if_pos ⟨hstored, hnone id c hc⟩
        rw [System.handle_of_some (by rw [hc]; exact hchecked)]
        have harrived : (c.checked payload).arrived = dataFor id (s.messages.take s.read) ++
            [payload] := congrArg (· ++ [payload]) (hreceives.stored hstored)
        refine ⟨h.hub, hread, ?_, ?_⟩
        · show ∀ id' c', Function.update s.conns id _ id' = some c' →
            Receives c' (dataFor id' (s.messages.take (s.read + 1)))
          refine (Function.forall_update_iff s.conns fun id' o => ∀ c', o = some c' →
            Receives c' (dataFor id' (s.messages.take (s.read + 1)))).mpr
              ⟨?_, fun id' hid c' hc' => ?_⟩
          · rintro c' ⟨⟩
            rw [hthis, ← harrived]
            exact ⟨hreceives.sound.step hchecked, fun _ => rfl, List.prefix_rfl⟩
          · rw [hother id' hid]
            exact h.conns id' c' hc'
        · refine (Function.forall_update_iff s.conns fun id' o => ∀ c', o = some c' →
            c'.incoming ≠ .none → some id = some id').mpr
              ⟨fun _ _ _ => rfl, fun id' _ c' hc' hin => absurd (hnone id' c' hc') hin⟩

theorem Sound.step {a : Action Id} (h : Sound s) (hfresh : Fresh s a)
    (hstep : Downstream.step isUDP s a = some t) : Sound t := by
  cases a with
  | hub a =>
    obtain ⟨b, hb, rfl⟩ := Option.map_eq_some_iff.mp hstep
    have hgrows : s.messages <+: b.lanes.written.map Item.message := (written_grows hb).map _
    have htake : (b.lanes.written.map Item.message).take s.read = s.messages.take s.read := by
      obtain ⟨rest, hrest⟩ := hgrows
      rw [← hrest, List.take_append_of_le_length h.read]
    refine ⟨h.hub.step hfresh hb, h.read.trans hgrows.length_le, fun id c hc => ?_, h.pumping⟩
    show Receives c (dataFor id ((b.lanes.written.map Item.message).take s.read))
    rw [htake]
    exact h.conns id c hc
  | readMessage =>
    rw [Downstream.step] at hstep
    split at hstep
    · rename_i m hidle hm
      obtain rfl := Option.some.inj hstep
      exact h.handle hidle hm
    · cases hstep
  | returns =>
    rw [Downstream.step] at hstep
    split at hstep
    · rename_i id hpumping
      split_ifs at hstep with hall
      obtain rfl := Option.some.inj hstep
      refine ⟨h.hub, h.read, h.conns, fun id' c hc hin => ?_⟩
      -- only the connection of the call could hold a frame, and it holds none
      have hid := h.pumping id' c hc hin
      rw [hpumping] at hid
      rw [Option.some.inj hid, hc] at hall
      exact absurd (by simpa using hall) hin
    · cases hstep
  | handleSocks5Conn id =>
    obtain rfl := Option.some.inj hstep
    refine ⟨h.hub, h.read, ?_, ?_⟩
    · refine (Function.forall_update_iff s.conns fun id' o => ∀ c, o = some c →
        Receives c (dataFor id' (s.messages.take s.read))).mpr ⟨?_, fun id' _ => h.conns id'⟩
      rintro c ⟨⟩
      rw [h.dataFor_unknown hfresh]
      exact receives_pending _ _
    · refine (Function.forall_update_iff s.conns fun id' o => ∀ c, o = some c →
        c.incoming ≠ .none → s.pumping = some id').mpr ⟨?_, fun id' _ => h.pumping id'⟩
      rintro c ⟨⟩ hin
      exact absurd rfl hin
  | conn id a =>
    have ha : ∀ data, a ≠ .check data := by
      rintro data rfl
      cases hstep
    have hmap : ((s.conns id).bind fun c => c.step a).map
        (fun c => { s with conns := Function.update s.conns id (some c) }) = some t := by
      cases a with
      | check data => exact absurd rfl (ha data)
      | _ => exact hstep
    obtain ⟨d, hd, rfl⟩ := Option.map_eq_some_iff.mp hmap
    obtain ⟨c, hc, hcd⟩ := Option.bind_eq_some_iff.mp hd
    obtain ⟨harrived, hstored, hincoming⟩ := step_arrived ha hcd
    have hreceives := h.conns id c hc
    refine ⟨h.hub, h.read, ?_, ?_⟩
    · refine (Function.forall_update_iff s.conns fun id' o => ∀ c, o = some c →
        Receives c (dataFor id' (s.messages.take s.read))).mpr ⟨?_, fun id' _ => h.conns id'⟩
      rintro _ ⟨⟩
      refine ⟨hreceives.sound.step hcd, fun hd => ?_, ?_⟩
      · rw [harrived]
        exact hreceives.stored (hstored hd)
      · rw [harrived]
        exact hreceives.arrived
    · refine (Function.forall_update_iff s.conns fun id' o => ∀ c, o = some c →
        c.incoming ≠ .none → s.pumping = some id').mpr ⟨?_, fun id' _ => h.pumping id'⟩
      rintro _ ⟨⟩ hin
      exact h.pumping id c hc (hincoming hin)

/-! ### From end to end -/

theorem payloads_eq_dataFor (id : Id) (ms : List (Message Id)) :
    payloads id (ms.filter fun m => m.clientID = id) = (dataFor id ms).flatten := by
  rw [payloads, List.filterMap_filter, dataFor]
  refine congrArg List.flatten (List.filterMap_congr fun m _ => ?_)
  cases m with
  | control => split_ifs <;> rfl
  | data id' payload =>
    by_cases hid : id' = id
    · simp [Hub.ClientStreams.Message.clientID, hid]
    · simp [Hub.ClientStreams.Message.clientID, Hub.ClientStreams.Message.payload?, hid]

/-- Whatever the interleaving of the goroutines of the relay and of the backend, and whatever
fails: the bytes that the local service of a TCP connection is given are the beginning of the stream
of its client, and of nothing else. -/
theorem client_stream_reaches_service {actions : List (Action Id)}
    (hfresh : Along (step isUDP) Fresh .start actions)
    (hrun : run (step isUDP) .start actions = some s) {i : ℕ} {c : Hub.ClientStreams.Conn Id}
    (hi : s.hub.conns[i]? = some c) {conn : LocalDelivery.Conn} (hconn : s.conns c.id = some conn)
    (htcp : conn.isUDP = false) : conn.written.flatten <+: c.stream := by
  have hstart : Sound (.start : System Id) :=
    ⟨announced_start, le_rfl, fun _ _ hc => (by cases hc), fun _ _ hc => (by cases hc)⟩
  have h : Sound s :=
    invariant_along (fun _ _ _ hI hG hs => hI.step hG hs) hstart hfresh hrun
  have hreceives := h.conns c.id conn hconn
  calc conn.written.flatten
      <+: conn.arrived.flatten := (hreceives.sound.tcp htcp).written_isPrefix
    _ <+: (dataFor c.id (s.messages.take s.read)).flatten := by
        obtain ⟨rest, hrest⟩ := hreceives.arrived
        rw [← hrest, List.flatten_append]
        exact List.prefix_append _ _
    _ <+: (dataFor c.id s.messages).flatten := by
        rw [← payloads_eq_dataFor, ← payloads_eq_dataFor]
        exact Hub.ClientStreams.payloads_mono _ ((List.take_prefix _ _).filter _)
    _ = payloads c.id (s.hub.framesFor c.id) := (payloads_eq_dataFor _ _).symm
    _ <+: c.stream :=
        (h.hub.toSound.delivers_for hi fun _ _ hj hid => h.hub.index_eq hi hj hid).stream

/-- A client sends two pieces; the second write to the local service stops after a byte. -/
def brokenWrite : List (Action ℕ) :=
  [.hub (.client 0 [1] (.tcp [.data [2, 3]]))] ++ List.replicate 17 (.hub (.go 0 true)) ++
    (Hub.ClientStreams.writes .data 3).map .hub ++
    [.readMessage, .conn 0 .assign, .conn 0 .activate, .readMessage, .conn 0 (.deliver none),
      .returns, .conn 0 .startWriter, .conn 0 .receive, .conn 0 (.write none), .readMessage,
      .conn 0 (.deliver none), .conn 0 .receive, .conn 0 (.write (some 1))]

theorem client_stream_reaches_service_brokenWrite :
    ∃ s c conn, run (step fun _ => false) .start brokenWrite = some s ∧
      s.hub.conns[0]? = some c ∧ s.conns 0 = some conn ∧ c.stream = [1, 2, 3] ∧
      conn.written.flatten = [1, 2] ∧ conn.written.flatten <+: c.stream := by
  obtain ⟨s, hrun, hhub, hlocal⟩ : ∃ s, run (step fun _ => false) .start brokenWrite = some s ∧
      (s.hub.conns[0]?.any (fun c => c.id = 0 ∧ c.stream = [1, 2, 3]) = true ∧
        (s.conns 0).any (fun conn => conn.isUDP = false ∧ conn.written.flatten = [1, 2]) = true) :=
    exists_run_of_any (by decide +kernel)
  have hfresh : Along (step fun _ => false) Fresh .start brokenWrite := by decide +kernel
  obtain ⟨c, hc, hstream⟩ := (Option.any_eq_true _ _).mp hhub
  obtain ⟨conn, hconn, hwritten⟩ := (Option.any_eq_true _ _).mp hlocal
  obtain ⟨hid, hstream⟩ := of_decide_eq_true hstream
  obtain ⟨htcp, hwritten⟩ := of_decide_eq_true hwritten
  exact ⟨s, c, conn, hrun, hc, hconn, hstream, hwritten,
    client_stream_reaches_service hfresh hrun hc (by rw [hid, hconn]) htcp⟩

end NexusProxy.Client.Downstream
