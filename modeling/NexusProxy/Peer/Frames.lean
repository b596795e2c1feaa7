import NexusProxy.Lib.FixedWidth
import NexusProxy.Lib.Slices
import NexusProxy.Lib.Transition
import NexusProxy.Protocol
import NexusProxy.Proxy.Sniff

/-! The messages between two peers. A message in the send channel does not say what it is:
`writePump` takes it for text when it parses as a JSON object, and `readPump` takes a binary
message apart by its first byte. The channel outlives a connection, and the `readPump` of an old
connection may go on beside that of the next one. -/
namespace NexusProxy.Peer.Frames
open FixedWidth Protocol Proxy Slices Transition

def peerTunnelData : UInt8 := 0x11

def peerTunnelClose : UInt8 := 0x12

def peerTunnelPause : UInt8 := 0x13

def peerTunnelResume : UInt8 := 0x14

def peerTunnelCredits : UInt8 := 0x15

inductive PeerMessageType where
  | announce
  | tunnelRequest
  | other (text : List Char)
  deriving DecidableEq

structure PeerMessage where
  version : UInt64
  type : PeerMessageType
  hostnames : List (List Char)
  clientID : ClientID
  connPort : ℤ
  clientIP : List Char
  hostname : List Char
  transport : List Char
  isTLS : Bool
  deriving DecidableEq

/-- What the peers use of `encoding/json`: `json.Marshal` of a message, whether
`json.Unmarshal` into a map succeeds, and `json.Unmarshal` into a message. -/
structure Json where
  marshal : PeerMessage → Bytes
  unmarshalMap : Bytes → Bool
  unmarshalMessage : Bytes → Option PeerMessage

/-! ### The senders -/

/-- A header: `make`, the control byte, and `copy` of the identifier. -/
def header (controlByte : UInt8) (id : ClientID) : Bytes :=
  copyAt ((List.replicate (1 + clientIDLength) 0).set 0 controlByte) 1 id.toList

/-- `StartTunnel`, for a chunk that it has read. -/
def PeerImpl.startTunnelData (clientID : ClientID) (chunk : Bytes) : Bytes :=
  header peerTunnelData clientID ++ chunk

/-- `StartTunnel`, at its end. -/
def PeerImpl.startTunnelClose (clientID : ClientID) : Bytes := header peerTunnelClose clientID

def TunneledConn.write (clientID : ClientID) (b : Bytes) : Bytes :=
  header peerTunnelData clientID ++ b

def TunneledConn.close (clientID : ClientID) : Bytes := header peerTunnelClose clientID

def TunneledConn.pause (clientID : ClientID) : Bytes := header peerTunnelPause clientID

def TunneledConn.resume (clientID : ClientID) : Bytes := header peerTunnelResume clientID

def UDPOutboundFlow.sendDatagram (id : ClientID) (payload : Bytes) : Bytes :=
  header peerTunnelData id ++ payload

def UDPOutboundFlow.sendClose (id : ClientID) : Bytes := header peerTunnelClose id

def TunneledUDPConn.write (id : ClientID) (p : Bytes) : Bytes := header peerTunnelData id ++ p

def TunneledUDPConn.close (id : ClientID) : Bytes := header peerTunnelClose id

def uint64 (x : ℤ) : ℕ := (x % 2 ^ 64).toNat

def makeTunnelCreditMessage (clientID : ClientID) (credits : ℤ) : Bytes :=
  let msg := (List.replicate (1 + clientIDLength + 8) 0).set 0 peerTunnelCredits
  let msg := copyAt msg 1 clientID.toList
  copyAt msg (1 + clientIDLength) (bigEndian 8 (uint64 credits))

/-! ### The pumps -/

inductive MessageType where
  | text
  | binary
  deriving DecidableEq

/-- What `writePump` writes for a message of the send channel. -/
def writePump (json : Json) (message : Bytes) : MessageType × Bytes :=
  (if json.unmarshalMap message then .text else .binary, message)

/-- The contents of a binary message. -/
inductive Frame where
  | data (id : ClientID) (payload : Bytes)
  | close (id : ClientID)
  | pause (id : ClientID)
  | resume (id : ClientID)
  | credits (id : ClientID) (n : ℤ)
  deriving DecidableEq

/-- What `readPump` acts on. -/
inductive Received where
  | frame (f : Frame)
  | announce (version : UInt64) (hostnames : List (List Char))
  | tunnelRequest (hostname : List Char) (clientID : ClientID) (clientIP : List Char)
      (connPort : ℤ) (isTLS : Bool)
  deriving DecidableEq

/-- `copy(clientID[:], message[1:1+ClientIDLength])`, into an array of zeros. -/
def clientIDOf (message : Bytes) : ClientID :=
  let bytes := (message.drop 1).take clientIDLength
  Vector.ofFn fun i => bytes.getD i 0

/-- The identifier of a message that is long enough to hold one. -/
def withID (message : Bytes) (f : ClientID → Frame) : Option Frame :=
  if message.length < 1 + clientIDLength then none else some (f (clientIDOf message))

/-- The cap on the credits of one message. -/
def capCredits (credits : ℤ) : ℤ :=
  if credits ≤ 0 ∨ (defaultCreditCapacity : ℤ) < credits then defaultCreditCapacity else credits

/-- The binary case of `readPump`; `none` for a message that it skips. -/
def readBinary (message : Bytes) : Option Frame :=
  match message with
  | [] => none
  | controlByte :: _ =>
      if controlByte = peerTunnelData then
        withID message fun id => .data id (message.drop (1 + clientIDLength))
      else if controlByte = peerTunnelClose then withID message .close
      else if controlByte = peerTunnelPause then withID message .pause
      else if controlByte = peerTunnelResume then withID message .resume
      else if controlByte = peerTunnelCredits then
        if message.length < 1 + clientIDLength + 8 then none
        else
          let credits := int64 (ofBigEndian ((message.drop (1 + clientIDLength)).take 8))
          some (.credits (clientIDOf message) (capCredits credits))
      else none

/-- The text case of `readPump`. -/
def readText (json : Json) (message : Bytes) : Option Received :=
  match json.unmarshalMessage message with
  | none => none
  | some msg =>
      match msg.type with
      | .announce => some (.announce msg.version msg.hostnames)
      | .tunnelRequest =>
          some (.tunnelRequest msg.hostname msg.clientID msg.clientIP msg.connPort msg.isTLS)
      | .other _ => none

def readPump (json : Json) : MessageType × Bytes → Option Received
  | (.text, message) => readText json message
  | (.binary, message) => (readBinary message).map .frame

/-! ### Layout -/

theorem make_set (controlByte : UInt8) (n : ℕ) :
    (List.replicate (1 + n) 0).set 0 controlByte = [controlByte] ++ List.replicate n 0 := by
  rw [Nat.add_comm, List.replicate_succ, List.set_cons_zero]
  rfl

theorem header_eq (controlByte : UInt8) (id : ClientID) :
    header controlByte id = controlByte :: id.toList := by
  have hlength : id.toList.length = (List.replicate clientIDLength (0 : UInt8)).length := by
    simp
  have hcopy := copyAt_append [controlByte] [] hlength
  rw [List.append_nil, List.append_nil] at hcopy
  rw [header, make_set]
  exact hcopy

theorem makeTunnelCreditMessage_eq (id : ClientID) (credits : ℤ) :
    makeTunnelCreditMessage id credits =
      peerTunnelCredits :: id.toList ++ bigEndian 8 (uint64 credits) := by
  have hid : id.toList.length = (List.replicate clientIDLength (0 : UInt8)).length := by simp
  have hword : (bigEndian 8 (uint64 credits)).length = (List.replicate 8 (0 : UInt8)).length := by
    simp
  have hfirst := copyAt_append [peerTunnelCredits] (List.replicate 8 0) hid
  have hsecond := copyAt_append (peerTunnelCredits :: id.toList) [] hword
  rw [List.append_assoc, List.replicate_append_replicate] at hfirst
  rw [List.append_nil, List.append_nil] at hsecond
  have hpos : (peerTunnelCredits :: id.toList).length = 1 + clientIDLength := by
    simp [Nat.add_comm]
  rw [hpos] at hsecond
  unfold makeTunnelCreditMessage
  rw [Nat.add_assoc, make_set]
  dsimp only
  rw [← hsecond]
  congr 1

theorem take_id_append (id : ClientID) (rest : Bytes) :
    (id.toList ++ rest).take clientIDLength = id.toList := by
  apply List.take_left'
  simp

theorem drop_id_append (controlByte : UInt8) (id : ClientID) (rest : Bytes) :
    (controlByte :: id.toList ++ rest).drop (1 + clientIDLength) = rest := by
  apply List.drop_left'
  simp [Nat.add_comm]

theorem clientIDOf_append (controlByte : UInt8) (id : ClientID) (rest : Bytes) :
    clientIDOf (controlByte :: id.toList ++ rest) = id := by
  unfold clientIDOf
  rw [List.cons_append, List.drop_one, List.tail_cons, take_id_append]
  ext i hi
  simp

theorem withID_append (controlByte : UInt8) (id : ClientID) (rest : Bytes) (f : ClientID → Frame) :
    withID (controlByte :: id.toList ++ rest) f = some (f id) := by
  have hlength : ¬ (controlByte :: id.toList ++ rest).length < 1 + clientIDLength := by
    rw [List.length_append, List.length_cons, Vector.length_toList]
    omega
  rw [withID, if_neg hlength, clientIDOf_append]

/-! ### Round trips -/

/-- The contents that each sender means its message to have. -/
inductive Builds : Bytes → Frame → Prop
  | startTunnelData (id : ClientID) (chunk : Bytes) :
      Builds (PeerImpl.startTunnelData id chunk) (.data id chunk)
  | startTunnelClose (id : ClientID) : Builds (PeerImpl.startTunnelClose id) (.close id)
  | write (id : ClientID) (b : Bytes) : Builds (TunneledConn.write id b) (.data id b)
  | close (id : ClientID) : Builds (TunneledConn.close id) (.close id)
  | pause (id : ClientID) : Builds (TunneledConn.pause id) (.pause id)
  | resume (id : ClientID) : Builds (TunneledConn.resume id) (.resume id)
  | sendDatagram (id : ClientID) (payload : Bytes) :
      Builds (UDPOutboundFlow.sendDatagram id payload) (.data id payload)
  | sendClose (id : ClientID) : Builds (UDPOutboundFlow.sendClose id) (.close id)
  | udpWrite (id : ClientID) (p : Bytes) : Builds (TunneledUDPConn.write id p) (.data id p)
  | udpClose (id : ClientID) : Builds (TunneledUDPConn.close id) (.close id)
  | credits (id : ClientID) (n : ℤ) (pos : 1 ≤ n) (le : n ≤ defaultCreditCapacity) :
      Builds (makeTunnelCreditMessage id n) (.credits id n)

theorem readBinary_data (id : ClientID) (payload : Bytes) :
    readBinary (header peerTunnelData id ++ payload) = some (.data id payload) := by
  rw [header_eq, readBinary.eq_def, List.cons_append]
  dsimp only
  rw [if_pos rfl, ← List.cons_append, withID_append, drop_id_append]

theorem readBinary_header (id : ClientID) :
    readBinary (header peerTunnelClose id) = some (.close id) ∧
      readBinary (header peerTunnelPause id) = some (.pause id) ∧
      readBinary (header peerTunnelResume id) = some (.resume id) := by
  have hid (controlByte : UInt8) (f : ClientID → Frame) :
      withID (header controlByte id) f = some (f id) := by
    simpa [header_eq] using withID_append controlByte id [] f
  refine ⟨?_, ?_, ?_⟩
  · rw [← hid peerTunnelClose, header_eq]
    rfl
  · rw [← hid peerTunnelPause, header_eq]
    rfl
  · rw [← hid peerTunnelResume, header_eq]
    rfl

theorem capCredits_eq {n : ℤ} (hpos : 1 ≤ n) (hle : n ≤ defaultCreditCapacity) :
    capCredits n = n := if_neg (by omega)

theorem readBinary_credits (id : ClientID) {n : ℤ} (hpos : 1 ≤ n)
    (hle : n ≤ defaultCreditCapacity) :
    readBinary (makeTunnelCreditMessage id n) = some (.credits id n) := by
  have hcap : (defaultCreditCapacity : ℤ) = 64 := rfl
  have hword : uint64 n = n.toNat := by
    rw [uint64, Int.emod_eq_of_lt (by omega) (by omega)]
  have hfits : uint64 n < 256 ^ 8 := by
    rw [hword]
    omega
  have hlength : ¬ (peerTunnelCredits :: id.toList ++ bigEndian 8 (uint64 n)).length <
      1 + clientIDLength + 8 := by
    rw [List.length_append, List.length_cons, Vector.length_toList, length_bigEndian]
    omega
  have hread : int64 (ofBigEndian (bigEndian 8 (uint64 n)) : ℕ) = n := by
    rw [ofBigEndian_bigEndian hfits, hword, int64_eq (by omega) (by omega)]
    omega
  have htake : (bigEndian 8 (uint64 n)).take 8 = bigEndian 8 (uint64 n) :=
    List.take_of_length_le (by simp)
  rw [makeTunnelCreditMessage_eq, readBinary.eq_def, List.cons_append]
  dsimp only
  rw [if_neg (by decide), if_neg (by decide), if_neg (by decide), if_neg (by decide), if_pos rfl,
    ← List.cons_append, if_neg hlength, drop_id_append, clientIDOf_append, htake, hread,
    capCredits_eq hpos hle]

theorem Builds.readBinary_eq {message : Bytes} {f : Frame} (h : Builds message f) :
    readBinary message = some f := by
  cases h with
  | startTunnelData id chunk => exact readBinary_data id chunk
  | startTunnelClose id => exact (readBinary_header id).1
  | write id b => exact readBinary_data id b
  | close id => exact (readBinary_header id).1
  | pause id => exact (readBinary_header id).2.1
  | resume id => exact (readBinary_header id).2.2
  | sendDatagram id payload => exact readBinary_data id payload
  | sendClose id => exact (readBinary_header id).1
  | udpWrite id p => exact readBinary_data id p
  | udpClose id => exact (readBinary_header id).1
  | credits id n pos le => exact readBinary_credits id pos le

/-- What a binary message with a control byte may be decoded to. -/
inductive Decoded (message : Bytes) : UInt8 → Frame → Prop
  | data : Decoded message peerTunnelData
      (.data (clientIDOf message) (message.drop (1 + clientIDLength)))
  | close : Decoded message peerTunnelClose (.close (clientIDOf message))
  | pause : Decoded message peerTunnelPause (.pause (clientIDOf message))
  | resume : Decoded message peerTunnelResume (.resume (clientIDOf message))
  | credits (n : ℤ) : Decoded message peerTunnelCredits
      (.credits (clientIDOf message) (capCredits n))

theorem decoded_of_readBinary {message : Bytes} {f : Frame} (h : readBinary message = some f) :
    ∃ controlByte rest, message = controlByte :: rest ∧ clientIDLength ≤ rest.length ∧
      Decoded message controlByte f := by
  cases message with
  | nil => cases h
  | cons controlByte rest =>
    refine ⟨controlByte, rest, rfl, ?_⟩
    rw [readBinary.eq_def] at h
    dsimp only [withID] at h
    rw [List.length_cons] at h
    split_ifs at h with hdata hshort hclose hshort hpause hshort hresume hshort hcredits hshort
    all_goals
      obtain rfl := Option.some.inj h
      subst controlByte
      refine ⟨by omega, ?_⟩
    · exact .data
    · exact .close
    · exact .pause
    · exact .resume
    · exact .credits _

theorem exists_controlByte {message : Bytes} {f : Frame} (h : readBinary message = some f) :
    ∃ controlByte rest, message = controlByte :: rest ∧
      peerTunnelData ≤ controlByte ∧ controlByte ≤ peerTunnelCredits := by
  obtain ⟨controlByte, rest, hmessage, -, hdecoded⟩ := decoded_of_readBinary h
  refine ⟨controlByte, rest, hmessage, ?_⟩
  cases hdecoded <;> decide

/-- The assumptions on `encoding/json`: a control byte does not start a JSON value, and a
message is marshalled to an object. -/
structure Json.Objects (json : Json) : Prop where
  control : ∀ controlByte rest, peerTunnelData ≤ controlByte → controlByte ≤ peerTunnelCredits →
    json.unmarshalMap (controlByte :: rest) = false
  marshalled : ∀ msg, json.unmarshalMap (json.marshal msg) = true

namespace Json.Objects

variable {json : Json} (h : json.Objects)

include h

theorem writePump_of_readBinary {message : Bytes} {f : Frame}
    (hread : readBinary message = some f) : writePump json message = (.binary, message) := by
  obtain ⟨controlByte, rest, rfl, hl, hu⟩ := exists_controlByte hread
  simp [writePump, h.control controlByte rest hl hu]

theorem writePump_marshal (msg : PeerMessage) :
    writePump json (json.marshal msg) = (.text, json.marshal msg) := by
  simp [writePump, h.marshalled msg]

theorem readPump_writePump {message : Bytes} {f : Frame} (hbuilds : Builds message f) :
    readPump json (writePump json message) = some (.frame f) := by
  rw [h.writePump_of_readBinary hbuilds.readBinary_eq, readPump, hbuilds.readBinary_eq]
  rfl

end Json.Objects

theorem readText_ne_frame (json : Json) (message : Bytes) (f : Frame) :
    readText json message ≠ some (.frame f) := by
  unfold readText
  cases json.unmarshalMessage message with
  | none => simp
  | some msg => cases htype : msg.type <;> simp [htype]

/-- Every message keeps its meaning between two peers: frames are sent as binary messages and
decoded to what they were built from, control messages are sent as text, and what differs is
not decoded as equal. -/
theorem peer_frames_round_trip (json : Json) (h : json.Objects) :
    (∀ message f, Builds message f →
      writePump json message = (.binary, message) ∧
        readPump json (writePump json message) = some (.frame f)) ∧
    (∀ msg, writePump json (json.marshal msg) = (.text, json.marshal msg)) ∧
    (∀ message f message' f', Builds message f → Builds message' f' → f ≠ f' →
      readPump json (writePump json message) ≠ readPump json (writePump json message')) ∧
    ∀ message f msg, Builds message f →
      readPump json (writePump json message) ≠
        readPump json (writePump json (json.marshal msg)) := by
  refine ⟨?_, h.writePump_marshal, ?_, ?_⟩
  · intro message f hbuilds
    exact ⟨h.writePump_of_readBinary hbuilds.readBinary_eq, h.readPump_writePump hbuilds⟩
  · intro message f message' f' hbuilds hbuilds' hne heq
    rw [h.readPump_writePump hbuilds, h.readPump_writePump hbuilds'] at heq
    exact hne (Received.frame.inj (Option.some.inj heq))
  · intro message f msg hbuilds heq
    rw [h.readPump_writePump hbuilds, h.writePump_marshal] at heq
    exact readText_ne_frame json _ f heq.symm

def isJSONSpace (b : UInt8) : Bool := b == 0x20 || b == 0x09 || b == 0x0A || b == 0x0D

def typeText : PeerMessageType → List Char
  | .announce => "announce".toList
  | .tunnelRequest => "tunnel_request".toList
  | .other text => text

/-- The object with the type of a message. -/
def marshalType (type : PeerMessageType) : Bytes :=
  let text := "\"type\":\"".toList ++ typeText type ++ ['"']
  0x7B :: text.map (fun c => UInt8.ofNat c.toNat) ++ [0x7D]

def announcement : PeerMessage where
  version := 0
  type := .announce
  hostnames := []
  clientID := Vector.replicate clientIDLength 0
  connPort := 0
  clientIP := []
  hostname := []
  transport := []
  isTLS := false

/-- A `Json` that writes the type only, and tells an object by its braces. -/
def braces : Json where
  marshal msg := marshalType msg.type
  unmarshalMap message :=
    (message.dropWhile isJSONSpace).head? == some 0x7B && message.getLast? == some 0x7D
  unmarshalMessage message :=
    if message = marshalType .announce then some announcement else none

theorem braces_objects : braces.Objects where
  control := by
    intro controlByte rest hl hu
    have hspace : isJSONSpace controlByte = false := by
      simp only [isJSONSpace, Bool.or_eq_false_iff, beq_eq_false_iff_ne]
      refine ⟨⟨⟨?_, ?_⟩, ?_⟩, ?_⟩ <;> rintro rfl <;> revert hl hu <;> decide
    have hbrace : controlByte ≠ 0x7B := by
      rintro rfl
      revert hu
      decide
    simp [braces, hspace, hbrace]
  marshalled := by
    intro msg
    have hfirst : ((marshalType msg.type).dropWhile isJSONSpace).head? = some 0x7B := by
      have hbrace : isJSONSpace 0x7B = false := by decide
      simp [marshalType, hbrace]
    have hlast : (marshalType msg.type).getLast? = some 0x7D := List.getLast?_concat
    simp [braces, hfirst, hlast]

/-- A payload that is a JSON object, the largest grant, and an announcement. -/
theorem peer_frames_round_trip_braces :
    let id : ClientID := Vector.replicate clientIDLength 0x7B
    readPump braces (writePump braces (TunneledConn.write id [0x7B, 0x7D])) =
        some (.frame (.data id [0x7B, 0x7D])) ∧
      readPump braces (writePump braces (makeTunnelCreditMessage id 64)) =
        some (.frame (.credits id 64)) ∧
      (writePump braces (braces.marshal announcement)).1 = .text ∧
      readPump braces (writePump braces (TunneledConn.pause id)) ≠
        readPump braces (writePump braces (TunneledConn.resume id)) := by
  intro id
  obtain ⟨hframe, htext, hdiffer, -⟩ := peer_frames_round_trip braces braces_objects
  refine ⟨(hframe _ _ (.write id _)).2, (hframe _ _ (.credits id 64 (by decide) (by decide))).2,
    ?_, hdiffer _ _ _ _ (.pause id) (.resume id) (by simp)⟩
  rw [htext]

/-! ### What is accepted -/

theorem capCredits_mem (credits : ℤ) :
    1 ≤ capCredits credits ∧ capCredits credits ≤ defaultCreditCapacity := by
  have hcap : (defaultCreditCapacity : ℤ) = 64 := rfl
  unfold capCredits
  split_ifs <;> omega

/-- Whatever bytes arrive, what is decoded is what some sender could have meant. -/
theorem exists_builds {message : Bytes} {f : Frame} (h : readBinary message = some f) :
    ∃ message', Builds message' f := by
  obtain ⟨controlByte, rest, -, -, hdecoded⟩ := decoded_of_readBinary h
  cases hdecoded with
  | data => exact ⟨_, .write _ _⟩
  | close => exact ⟨_, .close _⟩
  | pause => exact ⟨_, .pause _⟩
  | resume => exact ⟨_, .resume _⟩
  | credits n => exact ⟨_, .credits _ _ (capCredits_mem n).1 (capCredits_mem n).2⟩

theorem clientIDOf_toList {controlByte : UInt8} {rest : Bytes} (h : clientIDLength ≤ rest.length) :
    (clientIDOf (controlByte :: rest)).toList = rest.take clientIDLength := by
  apply List.ext_getElem
  · simp [h]
  · intro i hi hi'
    have hlt : i < rest.length := by
      rw [Vector.length_toList] at hi
      omega
    simp [clientIDOf, List.getElem?_eq_getElem hlt]

/-- Data is decoded from one message only. -/
theorem readBinary_eq_data_iff {message : Bytes} {id : ClientID} {payload : Bytes} :
    readBinary message = some (.data id payload) ↔ message = TunneledConn.write id payload := by
  constructor
  · intro h
    obtain ⟨controlByte, rest, rfl, hlength, hdecoded⟩ := decoded_of_readBinary h
    cases hdecoded with
    | data =>
      rw [TunneledConn.write, header_eq, clientIDOf_toList hlength, List.cons_append,
        Nat.add_comm, List.drop_succ_cons, List.take_append_drop]
  · rintro rfl
    exact readBinary_data id payload

/-! ### The connections to a peer -/

/-- The messages for the send channel. -/
inductive Outgoing where
  | frame (message : Bytes) (f : Frame) (builds : Builds message f)
  | control (msg : PeerMessage)

namespace Outgoing

def bytes (json : Json) : Outgoing → Bytes
  | .frame message _ _ => message
  | .control msg => json.marshal msg

/-- What the other side is to act on. -/
def meaning (json : Json) : Outgoing → Option Received
  | .frame _ f _ => some (.frame f)
  | .control msg => readText json (json.marshal msg)

end Outgoing

/-- A connection in one direction: what was written to it, the messages that are still to be
read, and what the other peer's `readPump`, as long as it runs, has made of the others. -/
structure Connection where
  written : List Outgoing
  wire : List (MessageType × Bytes)
  received : List Received
  reading : Bool

/-- The way to a peer: the send channel, the connections that were made one after the other, the
latest first, and as history what `Send` has accepted. The `writePump` of the latest connection
runs while `writing`. -/
structure Link where
  send : List Outgoing
  connections : List Connection
  writing : Bool
  accepted : List Outgoing

/-- A step of a sender, of `Connect`, of the `writePump`, or of the other peer's `readPump` of any
connection. A write that fails may get through all the same. -/
inductive Action where
  | send (message : Outgoing)
  | connect
  | write
  | writeFailed (arrives : Bool)
  | disconnect
  | read (k : ℕ)
  | stop (k : ℕ)

def Action.FailsWrite : Action → Prop
  | .writeFailed _ => True
  | _ => False

namespace Connection

def opened : Connection := ⟨[], [], [], true⟩

def write (json : Json) (c : Connection) (message : Outgoing) : Connection :=
  { c with
    written := c.written ++ [message]
    wire := c.wire ++ [writePump json (message.bytes json)] }

def read (json : Json) (c : Connection) : Option Connection :=
  match c.wire with
  | [] => none
  | message :: wire =>
      if c.reading then
        some { c with wire := wire, received := c.received ++ (readPump json message).toList }
      else none

def stop (c : Connection) : Connection := { c with reading := false }

/-- What was meant with the messages that were written. -/
def meant (json : Json) (c : Connection) : List Received :=
  c.written.filterMap (Outgoing.meaning json)

/-- What was read and what is still to be read is what was meant. -/
def Faithful (json : Json) (c : Connection) : Prop :=
  c.received ++ c.wire.filterMap (readPump json) = c.meant json

variable {json : Json} {c c' : Connection}

theorem readPump_bytes (h : json.Objects) (message : Outgoing) :
    readPump json (writePump json (message.bytes json)) = message.meaning json := by
  cases message with
  | frame message f builds => exact h.readPump_writePump builds
  | control msg =>
    rw [Outgoing.bytes, h.writePump_marshal]
    rfl

theorem Faithful.write (h : json.Objects) (hc : c.Faithful json) (message : Outgoing) :
    (c.write json message).Faithful json := by
  have hread := readPump_bytes h message
  rw [Faithful, meant] at hc ⊢
  simp only [Connection.write, List.filterMap_append, ← List.append_assoc, hc]
  simp only [List.filterMap_cons, List.filterMap_nil, hread]

theorem read_eq_some (h : c.read json = some c') :
    ∃ message wire, c.wire = message :: wire ∧
      c' = { c with wire := wire, received := c.received ++ (readPump json message).toList } := by
  unfold Connection.read at h
  split at h
  · cases h
  · rename_i message wire hwire
    split_ifs at h
    exact ⟨message, wire, hwire, (Option.some.inj h).symm⟩

theorem Faithful.read (hc : c.Faithful json) (h : c.read json = some c') :
    c'.Faithful json := by
  obtain ⟨message, wire, hwire, rfl⟩ := read_eq_some h
  rw [Faithful, hwire, List.filterMap_cons] at hc
  refine Eq.trans ?_ hc
  cases readPump json message <;> simp

theorem Faithful.received_begins (hc : c.Faithful json) : c.received <+: c.meant json :=
  hc ▸ List.prefix_append _ _

theorem Faithful.received_eq (hc : c.Faithful json) (hwire : c.wire = []) :
    c.received = c.meant json := by
  simpa [Faithful, hwire] using hc

end Connection

namespace Link

def start : Link := ⟨[], [], false, []⟩

def sendCapacity : ℕ := 256

def step (json : Json) (s : Link) : Action → Option Link
  | .send message =>
      if s.send.length < sendCapacity then
        some { s with send := s.send ++ [message], accepted := s.accepted ++ [message] }
      else some s
  -- `handleConnection` has returned from the last connection
  | .connect =>
      if s.writing then none
      else some { s with connections := .opened :: s.connections, writing := true }
  | .write =>
      match s.writing, s.send, s.connections with
      | true, message :: send, c :: connections =>
          some { s with send := send, connections := c.write json message :: connections }
      | _, _, _ => none
  | .writeFailed arrives =>
      match s.writing, s.send, s.connections with
      | true, message :: send, c :: connections =>
          let c := if arrives then c.write json message else c
          some { s with send := send, connections := c :: connections, writing := false }
      | _, _, _ => none
  | .disconnect => some { s with writing := false }
  | .read k =>
      match s.connections[k]? with
      | none => none
      | some c => (c.read json).map fun c => { s with connections := s.connections.set k c }
  | .stop k =>
      match s.connections[k]? with
      | none => none
      | some c => some { s with connections := s.connections.set k c.stop }

/-- What was written to the connections, one after the other. -/
def written (s : Link) : List Outgoing := s.connections.reverse.flatMap Connection.written

/-- What was read from the connections, one after the other. -/
def received (s : Link) : List Received := s.connections.reverse.flatMap Connection.received

/-- What was meant with the accepted messages. -/
def meant (json : Json) (s : Link) : List Received := s.accepted.filterMap (Outgoing.meaning json)

def Faithful (json : Json) (s : Link) : Prop := ∀ c ∈ s.connections, c.Faithful json

variable {json : Json} {s t : Link} {a : Action}

/-- What a step does to the channel and to the connections. -/
inductive Effect (json : Json) (s : Link) : Action → Link → Prop where
  | accepts (message : Outgoing) :
      Effect json s (.send message)
        { s with send := s.send ++ [message], accepted := s.accepted ++ [message] }
  | drops (message : Outgoing) : Effect json s (.send message) s
  | connects :
      Effect json s .connect
        { s with connections := .opened :: s.connections, writing := true }
  | writes {message : Outgoing} {send : List Outgoing} {c : Connection} {cs : List Connection}
      (hsend : s.send = message :: send) (hcs : s.connections = c :: cs) :
      Effect json s .write { s with send := send, connections := c.write json message :: cs }
  | arrives {message : Outgoing} {send : List Outgoing} {c : Connection} {cs : List Connection}
      (hsend : s.send = message :: send) (hcs : s.connections = c :: cs) :
      Effect json s (.writeFailed true)
        { s with send := send, connections := c.write json message :: cs, writing := false }
  | loses {message : Outgoing} {send : List Outgoing} (hsend : s.send = message :: send) :
      Effect json s (.writeFailed false) { s with send := send, writing := false }
  | disconnects : Effect json s .disconnect { s with writing := false }
  | reads {k : ℕ} {c c' : Connection} (hk : s.connections[k]? = some c)
      (hread : c.read json = some c') :
      Effect json s (.read k) { s with connections := s.connections.set k c' }
  | stops {k : ℕ} {c : Connection} (hk : s.connections[k]? = some c) :
      Effect json s (.stop k) { s with connections := s.connections.set k c.stop }

theorem step_effect (hstep : step json s a = some t) : Effect json s a t := by
  cases a with
  | send message =>
    rw [step] at hstep
    split_ifs at hstep <;> obtain rfl := Option.some.inj hstep
    · exact .accepts message
    · exact .drops message
  | connect =>
    rw [step] at hstep
    split_ifs at hstep
    obtain rfl := Option.some.inj hstep
    exact .connects
  | write =>
    rw [step] at hstep
    split at hstep
    · rename_i hsend hcs
      obtain rfl := Option.some.inj hstep
      exact .writes hsend hcs
    · cases hstep
  | writeFailed arrives =>
    rw [step] at hstep
    split at hstep
    · rename_i hsend hcs
      obtain rfl := Option.some.inj hstep
      cases arrives with
      | true => exact .arrives hsend hcs
      | false =>
        rw [if_neg Bool.false_ne_true, ← hcs]
        exact .loses hsend
    · cases hstep
  | disconnect =>
    obtain rfl := Option.some.inj hstep
    exact .disconnects
  | read k =>
    rw [step] at hstep
    split at hstep
    · cases hstep
    · rename_i c hk
      obtain ⟨c', hread, rfl⟩ := Option.map_eq_some_iff.mp hstep
      exact .reads hk hread
  | stop k =>
    rw [step] at hstep
    split at hstep
    · cases hstep
    · rename_i c hk
      obtain rfl := Option.some.inj hstep
      exact .stops hk

theorem Faithful.set (hs : s.Faithful json) {c : Connection} (hc : c.Faithful json) (k : ℕ) :
    Faithful json { s with connections := s.connections.set k c } := by
  intro d hd
  rcases List.mem_or_eq_of_mem_set hd with hmem | rfl
  · exact hs d hmem
  · exact hc

theorem Faithful.write (h : json.Objects) (hs : s.Faithful json) {c : Connection}
    {cs : List Connection} (hcs : s.connections = c :: cs) (message : Outgoing) :
    ∀ d ∈ c.write json message :: cs, d.Faithful json := by
  rw [Faithful, hcs, List.forall_mem_cons] at hs
  exact List.forall_mem_cons.mpr ⟨hs.1.write h message, hs.2⟩

theorem Faithful.effect (h : json.Objects) (hs : s.Faithful json) (heffect : Effect json s a t) :
    t.Faithful json := by
  cases heffect with
  | accepts | drops | loses | disconnects => exact hs
  | connects => exact List.forall_mem_cons.mpr ⟨rfl, hs⟩
  | writes hsend hcs => exact hs.write h hcs _
  | arrives hsend hcs => exact hs.write h hcs _
  | reads hk hread =>
    have hc := hs _ (List.mem_of_getElem? hk)
    exact hs.set (hc.read hread) _
  | stops hk =>
    have hc := hs _ (List.mem_of_getElem? hk)
    exact hs.set (show Connection.Faithful json (Connection.stop _) from hc) _

theorem written_cons {c : Connection} {cs : List Connection} (hcs : s.connections = c :: cs) :
    s.written = cs.reverse.flatMap Connection.written ++ c.written := by
  simp [written, hcs]

theorem written_set {k : ℕ} {c c' : Connection} (hk : s.connections[k]? = some c)
    (hwritten : c'.written = c.written) :
    written { s with connections := s.connections.set k c' } = s.written := by
  obtain ⟨hlt, rfl⟩ := List.getElem?_eq_some_iff.mp hk
  have hmap : (s.connections.set k c').map Connection.written =
      s.connections.map Connection.written := by
    have hlength : k < (s.connections.map Connection.written).length := by simpa using hlt
    have hself := List.set_getElem_self hlength
    rwa [List.getElem_map, ← hwritten, ← List.map_set] at hself
  simp only [written, List.flatMap_def, List.map_reverse, hmap]

theorem written_write {message : Outgoing} {send : List Outgoing} {c : Connection}
    {cs : List Connection} (hsend : s.send = message :: send) (hcs : s.connections = c :: cs)
    (writing : Bool) :
    written { s with
        send := send, connections := c.write json message :: cs, writing := writing } ++ send =
      s.written ++ s.send := by
  rw [written_cons hcs, written_cons rfl, hsend]
  simp [Connection.write]

/-- Messages are only added to those that are written or wait, and only a failing write loses
one of them. -/
def Accounts (s : Link) (a : Action) (t : Link) : Prop :=
  ∃ sent, t.accepted = s.accepted ++ sent ∧
    (t.written ++ t.send).Sublist (s.written ++ s.send ++ sent) ∧
    (¬ a.FailsWrite → t.written ++ t.send = s.written ++ s.send ++ sent)

theorem Accounts.of_eq (haccepted : t.accepted = s.accepted)
    (heq : t.written ++ t.send = s.written ++ s.send) : Accounts s a t := by
  refine ⟨[], ?_, ?_, fun _ => ?_⟩ <;> rw [List.append_nil]
  · exact haccepted
  · rw [heq]
  · exact heq

theorem Effect.accounts (heffect : Effect json s a t) : Accounts s a t := by
  cases heffect with
  | accepts message =>
    have heq : s.written ++ (s.send ++ [message]) = s.written ++ s.send ++ [message] :=
      (List.append_assoc _ _ _).symm
    exact ⟨[message], rfl, heq ▸ List.Sublist.refl _, fun _ => heq⟩
  | drops | disconnects => exact .of_eq rfl rfl
  | connects => exact .of_eq rfl (by simp [written, Connection.opened])
  | writes hsend hcs => exact .of_eq rfl (written_write hsend hcs _)
  | arrives hsend hcs => exact .of_eq rfl (written_write hsend hcs _)
  | loses hsend =>
    refine ⟨[], (List.append_nil _).symm, ?_, fun hkept => absurd trivial hkept⟩
    rw [List.append_nil, hsend]
    exact (List.Sublist.refl s.written).append (List.sublist_cons_self _ _)
  | reads hk hread =>
    obtain ⟨message, wire, -, rfl⟩ := Connection.read_eq_some hread
    exact .of_eq rfl (congrArg (· ++ s.send) (written_set hk rfl))
  | stops hk => exact .of_eq rfl (congrArg (· ++ s.send) (written_set hk rfl))

theorem faithful_of_run (h : json.Objects) {as : List Action}
    (hrun : run (step json) start as = some s) : s.Faithful json :=
  invariant_run (I := Faithful json) (fun _ _ _ hs hstep => hs.effect h (step_effect hstep))
    (fun _ hmem => absurd hmem List.not_mem_nil) hrun

theorem written_sublist {as : List Action} (hrun : run (step json) start as = some s) :
    s.written.Sublist s.accepted := by
  have hinv : (s.written ++ s.send).Sublist s.accepted := by
    refine invariant_run (I := fun s => (s.written ++ s.send).Sublist s.accepted) ?_
      (List.Sublist.refl _) hrun
    intro s a t hs hstep
    obtain ⟨sent, haccepted, hsublist, -⟩ := (step_effect hstep).accounts
    rw [haccepted]
    exact hsublist.trans (hs.append (List.Sublist.refl sent))
  exact (List.sublist_append_left _ _).trans hinv

theorem written_of_kept {as : List Action}
    (hkept : Along (step json) (fun _ a => ¬ a.FailsWrite) start as)
    (hrun : run (step json) start as = some s) : s.written ++ s.send = s.accepted := by
  refine invariant_along (I := fun s => s.written ++ s.send = s.accepted) ?_ rfl hkept hrun
  intro s a t hs hkeeps hstep
  obtain ⟨sent, haccepted, -, heq⟩ := (step_effect hstep).accounts
  rw [haccepted, heq hkeeps, hs]

theorem meant_written (json : Json) (s : Link) :
    s.written.filterMap (Outgoing.meaning json) =
      s.connections.reverse.flatMap (Connection.meant json) := by
  rw [written, List.filterMap_flatMap]
  rfl

theorem Faithful.received_sublist (hs : s.Faithful json) :
    s.received.Sublist (s.written.filterMap (Outgoing.meaning json)) := by
  rw [meant_written, received]
  exact List.Sublist.flatMap_right _ fun c hc =>
    (hs c (List.mem_reverse.mp hc)).received_begins.sublist

/-- Over connections that are made one after the other, whatever is lost with them: the other
peer reads from each the first messages that were written to it, as they were meant; connection by
connection these are accepted messages in their order, none twice. Without a failing write every
accepted message is written once or waits, and has been read when nothing is under way. -/
theorem link_delivers (h : json.Objects) {as : List Action}
    (hrun : run (step json) start as = some s) :
    (∀ c ∈ s.connections, c.received <+: c.meant json) ∧ s.written.Sublist s.accepted ∧
      s.received.Sublist (s.meant json) ∧
      (Along (step json) (fun _ a => ¬ a.FailsWrite) start as →
        s.written ++ s.send = s.accepted ∧
          (s.send = [] → (∀ c ∈ s.connections, c.wire = []) → s.received = s.meant json)) := by
  have hfaithful := faithful_of_run h hrun
  have hwritten := written_sublist hrun
  refine ⟨fun c hc => (hfaithful c hc).received_begins, hwritten,
    hfaithful.received_sublist.trans (hwritten.filterMap _), fun hkept => ?_⟩
  have haccepted := written_of_kept hkept hrun
  refine ⟨haccepted, fun hsend hwires => ?_⟩
  rw [hsend, List.append_nil] at haccepted
  rw [meant, ← haccepted, meant_written, received]
  refine List.flatMap_congr fun c hc => ?_
  have hmem := List.mem_reverse.mp hc
  exact (hfaithful c hmem).received_eq (hwires c hmem)

/-- The first message is written to a connection whose end is noticed by the next write. That
message is lost; a third one is read from the new connection before the first from the old one. -/
def lostAnnouncement : List Action :=
  let data := Outgoing.frame _ _ (.write (Vector.replicate clientIDLength 0x7B) [0x7B, 0x7D])
  [.connect, .send data, .send (.control announcement), .write, .writeFailed false, .connect,
    .send (.control announcement), .write, .read 0, .read 1]

theorem link_delivers_lostAnnouncement :
    ∃ s, run (step braces) start lostAnnouncement = some s ∧ s.connections.length = 2 ∧
      s.received.length = 2 ∧ (s.meant braces).length = 3 ∧
      s.received.Sublist (s.meant braces) := by
  obtain ⟨s, hrun, hconnections, hreceived, hmeant⟩ : ∃ s,
      run (step braces) start lostAnnouncement = some s ∧ s.connections.length = 2 ∧
        s.received.length = 2 ∧ (s.meant braces).length = 3 :=
    exists_run_of_any (by decide +kernel)
  exact ⟨s, hrun, hconnections, hreceived, hmeant, (link_delivers braces_objects hrun).2.2.1⟩

end Link

end NexusProxy.Peer.Frames
