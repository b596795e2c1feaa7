import NexusProxy.Proxy.Listener

/-! The data frames of a proxied stream: `Client.Start` sends the sniffed prelude and then
one frame per read, `readOutboundConn` one frame per read. -/
namespace NexusProxy.Proxy
open Hostnames Protocol Readers

def copyBufferSize : ℕ := 32 * 1024

/-- The message that `Backend.SendData` builds. -/
def dataMessage (id : ClientID) (data : Bytes) : Bytes :=
  controlByteData :: id.toList ++ data

/-- How a call of `SendData` ends: refused before the frame is queued (backend closed,
client gone, no credit, data channel full), or queued, possibly just before `quit`. -/
inductive SendOutcome where
  | refused
  | queued (closing : Bool)
  deriving DecidableEq

/-- `SendData`: the frame it queues, and whether it returns without an error. -/
def sendData (id : ClientID) (data : Bytes) : SendOutcome → List Bytes × Bool
  | .refused => ([], false)
  | .queued closing => ([dataMessage id data], !closing)

/-- What one iteration of the loop in `Client.Start` depends on besides the connection. -/
structure Turn where
  recentActivity : Bool
  send : SendOutcome

/-- The loop of `Client.Start`, for as many iterations as there are turns. -/
def pump (id : ClientID) : List Turn → NetConn → List Bytes
  | [], _ => []
  | turn :: turns, conn =>
      match conn.read copyBufferSize with
      | ((_, some .timeout), conn) => if turn.recentActivity then pump id turns conn else []
      | ((_, some _), _) => []
      | ((data, none), conn) =>
          let sent := sendData id data turn.send
          if sent.2 then sent.1 ++ pump id turns conn else sent.1

/-- `Client.Start` after a successful `AddClient`: the frames it queues. -/
def start (id : ClientID) (initial : Bytes) (first : SendOutcome) (turns : List Turn)
    (conn : NetConn) : List Bytes :=
  if initial = [] then pump id turns conn
  else
    let sent := sendData id initial first
    if sent.2 then sent.1 ++ pump id turns conn else sent.1

/-- `readOutboundConn`, for as many iterations as there are outcomes. -/
def readOutboundConn (id : ClientID) : List SendOutcome → NetConn → List Bytes
  | [], _ => []
  | outcome :: outcomes, conn =>
      let ((data, err), conn) := conn.read copyBufferSize
      let sent := if 0 < data.length then sendData id data outcome else ([], true)
      if sent.2 = false ∨ err ≠ none then sent.1
      else sent.1 ++ readOutboundConn id outcomes conn

theorem read_length (conn : NetConn) (size : ℕ) : (conn.read size).1.1.length ≤ size := by
  induction conn with
  | tcp arrivals =>
    cases arrivals with
    | nil => exact Nat.zero_le _
    | cons arrival rest =>
      cases arrival with
      | failure e => exact Nat.zero_le _
      | data bytes => exact List.length_take_le size bytes
  | prelude r conn ih =>
    cases r with
    | nil => exact ih
    | cons b r => exact List.length_take_le size _

theorem dataMessage_fits (id : ClientID) (data : Bytes) :
    (dataMessage id data).length ≤ maxMessageSize ↔ data.length ≤ 32 * 1024 := by
  simp only [dataMessage, maxMessageSize, messageHeaderLength, List.length_append,
    List.length_cons, Vector.length_toList]
  omega

theorem sendData_fits {id : ClientID} {data : Bytes} (h : data.length ≤ 32 * 1024)
    (outcome : SendOutcome) : ∀ frame ∈ (sendData id data outcome).1,
      frame.length ≤ maxMessageSize := by
  intro frame hframe
  cases outcome with
  | refused => cases hframe
  | queued closing =>
    obtain rfl : frame = dataMessage id data := by simpa [sendData] using hframe
    exact (dataMessage_fits id data).mpr h

theorem pump_fits (id : ClientID) (turns : List Turn) (conn : NetConn) :
    ∀ frame ∈ pump id turns conn, frame.length ≤ maxMessageSize := by
  induction turns generalizing conn with
  | nil => simp [pump]
  | cons turn turns ih =>
    have hlen := read_length conn copyBufferSize
    obtain ⟨⟨⟨data, err⟩, rest⟩, hread⟩ : ∃ r, conn.read copyBufferSize = r := ⟨_, rfl⟩
    rw [hread] at hlen
    intro frame hframe
    cases err with
    | none =>
      simp only [pump, hread] at hframe
      split_ifs at hframe
      · rcases List.mem_append.mp hframe with hsent | hlater
        · exact sendData_fits hlen turn.send frame hsent
        · exact ih rest frame hlater
      · exact sendData_fits hlen turn.send frame hframe
    | some e =>
      cases e with
      | timeout =>
        simp only [pump, hread] at hframe
        split_ifs at hframe
        · exact ih rest frame hframe
        · cases hframe
      | _ => simp [pump, hread] at hframe

theorem readOutboundConn_fits (id : ClientID) (outcomes : List SendOutcome) (conn : NetConn) :
    ∀ frame ∈ readOutboundConn id outcomes conn, frame.length ≤ maxMessageSize := by
  induction outcomes generalizing conn with
  | nil => simp [readOutboundConn]
  | cons outcome outcomes ih =>
    have hlen := read_length conn copyBufferSize
    obtain ⟨⟨⟨data, err⟩, rest⟩, hread⟩ : ∃ r, conn.read copyBufferSize = r := ⟨_, rfl⟩
    rw [hread] at hlen
    obtain ⟨sent, hdef⟩ : ∃ sent, sent =
        if 0 < data.length then sendData id data outcome else ([], true) := ⟨_, rfl⟩
    have hsent : ∀ frame ∈ sent.1, frame.length ≤ maxMessageSize := by
      rw [hdef]
      split_ifs
      · exact sendData_fits hlen outcome
      · simp
    intro frame hframe
    simp only [readOutboundConn, hread, ← hdef] at hframe
    split_ifs at hframe
    · exact hsent frame hframe
    · rcases List.mem_append.mp hframe with hnow | hlater
      · exact hsent frame hnow
      · exact ih rest frame hlater

/-- All frames of a client fit if and only if its prelude does. -/
theorem start_fits (id : ClientID) (initial : Bytes) (conn : NetConn) :
    (∀ first turns, ∀ frame ∈ start id initial first turns conn,
      frame.length ≤ maxMessageSize) ↔ initial.length ≤ 32 * 1024 := by
  constructor
  · intro h
    by_cases hnil : initial = []
    · simp [hnil]
    · have hframe := h (.queued true) [] (dataMessage id initial)
        (by simp [start, hnil, sendData])
      exact (dataMessage_fits id initial).mp hframe
  · intro h first turns frame hframe
    unfold start at hframe
    dsimp only at hframe
    split_ifs at hframe
    · exact pump_fits id turns conn frame hframe
    · rcases List.mem_append.mp hframe with hsent | hlater
      · exact sendData_fits h first frame hsent
      · exact pump_fits id turns conn frame hlater
    · exact sendData_fits h first frame hframe

namespace Listener
variable {B P : Type*} (l : Listener B P)

/-- The client is routed by its SNI, or the HTTP sniff keeps at most a copy buffer: it
reads no more, or it discards a request without a host. -/
def SmallPrelude (conn : NetConn) : Prop :=
  (l.peekTLS conn).1.err = none ∨
    Hostless (readRequestEnd l.readRequest (l.reinstated conn) httpPreludeCap).1 ∨
    (readRequestEnd l.readRequest (l.reinstated conn) httpPreludeCap).2.2.buf.length ≤ 32 * 1024

theorem peekHTTP_prelude_small {conn : NetConn}
    (htls : ¬((l.peekTLS conn).1.err = none ∧ (l.peekTLS conn).1.sni ≠ []))
    (hlarge : (l.peekHTTP conn).1.err ≠ some .preludeTooLarge) :
    (l.peekHTTP conn).1.prelude.length ≤ 32 * 1024 ↔ l.SmallPrelude conn := by
  obtain ⟨-, hlost, hkept⟩ := requestPeek_prelude hlarge
  have herr : (l.peekTLS conn).1.err ≠ none := by
    intro hnone
    exact htls ⟨hnone, (l.peekTLS_err conn).mp hnone⟩
  unfold SmallPrelude
  rw [or_iff_right herr]
  by_cases hno : Hostless (readRequestEnd l.readRequest (l.reinstated conn) httpPreludeCap).1
  · have hnil : (l.peekHTTP conn).1.prelude = [] := hlost hno
    simp [hnil, hno]
  · have hbuf : (l.peekHTTP conn).1.prelude =
        (readRequestEnd l.readRequest (l.reinstated conn) httpPreludeCap).2.2.buf := hkept hno
    rw [hbuf, or_iff_right hno]

theorem sniff_prelude_small {localPort : ℕ} {conn conn' : NetConn} {key : List Char}
    {prelude : Bytes} {isTLS : Bool}
    (h : l.sniff localPort conn = .route key prelude isTLS conn') :
    prelude.length ≤ 32 * 1024 ↔ l.SmallPrelude conn := by
  unfold sniff at h
  dsimp only at h
  split_ifs at h with htrunc htls hok hacme hlarge
  · cases h
    have hlen := peekSNIAndPrelude_length l.unicode l.handshake conn tlsPreludeCap
    exact ⟨fun _ => .inl htls.1, fun _ => hlen⟩
  · cases h
    exact l.peekHTTP_prelude_small htls (by rw [hok.1]; simp)
  · cases h
    exact l.peekHTTP_prelude_small htls hlarge

/-- Every frame of the proxied and of the outbound streams fits the receiver's limit,
exactly when the prelude of the sniff is small. -/
theorem frames_fit_read_limit {localPort : ℕ} {conn conn' : NetConn} {b : B} {key : List Char}
    {prelude : Bytes} {isTLS : Bool}
    (h : l.handleConnection localPort conn = .backend b key prelude isTLS conn') :
    ((∀ id first turns, ∀ frame ∈ start id prelude first turns conn',
        frame.length ≤ maxMessageSize) ∧
      ∀ id outcomes outbound, ∀ frame ∈ readOutboundConn id outcomes outbound,
        frame.length ≤ maxMessageSize) ↔ l.SmallPrelude conn := by
  have hroute := (l.handleConnection_backend h).1
  rw [← l.sniff_prelude_small hroute]
  constructor
  · intro hall
    exact (start_fits default prelude conn').mp (hall.1 default)
  · intro hsmall
    exact ⟨fun id => (start_fits id prelude conn').mpr hsmall, readOutboundConn_fits⟩

theorem frames_fit_read_limit_greeting : ∃ prelude conn',
    (portClaimed none).handleConnection 9000 (.tcp [.data [5, 1], .data [0]]) =
        .backend () (routeKey .tcp 9000) prelude false conn' ∧
      ∀ id first turns, ∀ frame ∈ start id prelude first turns conn',
        frame.length ≤ maxMessageSize := by
  have h : (portClaimed none).handleConnection 9000 (.tcp [.data [5, 1], .data [0]]) =
      .backend () (routeKey .tcp 9000) [5, 1] false (.prelude [] (.tcp [.data [0]])) := by
    decide +kernel
  have hsmall : (portClaimed none).SmallPrelude (.tcp [.data [5, 1], .data [0]]) :=
    .inr (.inr (by decide +kernel))
  exact ⟨_, _, h, (((portClaimed none).frames_fit_read_limit h).mpr hsmall).1⟩

/-- Fill a buffer of `size` bytes `times` times before returning. -/
def readTimes {α : Type*} (result : α) (size : ℕ) : ℕ → Program UInt8 ReadError α
  | 0 => .done result
  | times + 1 => .read size fun _ => readTimes result size times

theorem readTimes_exec {α : Type*} (result : α) {size times : ℕ} {bytes : Bytes}
    {c : LimitedCapture} (hsize : 0 < size) (hbytes : times * size < bytes.length)
    (hroom : c.buf.length + times * size ≤ c.limit) :
    (readTimes result size times).exec (tap NetConn.read LimitedCapture.tee)
        (.tcp [.data bytes], c) =
      (result, .tcp [.data (bytes.drop (times * size))],
        { c with buf := c.buf ++ bytes.take (times * size) }) := by
  induction times generalizing bytes c with
  | zero => simp [readTimes, Program.exec]
  | succ times ih =>
    rw [Nat.succ_mul] at hbytes hroom ⊢
    have hread : NetConn.read (.tcp [.data bytes]) size =
        ((bytes.take size, none), .tcp [.data (bytes.drop size)]) := by
      simp only [NetConn.read]
      rw [if_neg (by omega)]
    have htee : c.tee (bytes.take size) = { c with buf := c.buf ++ bytes.take size } := by
      have hlen : (bytes.take size).length = size := List.length_take_of_le (by omega)
      simp only [LimitedCapture.tee, LimitedCapture.write, hlen]
      rw [if_pos hsize, if_neg (by omega), if_neg (by omega), if_neg (by omega)]
    simp only [readTimes, Program.exec, tap, hread, htee]
    rw [ih (by simp; omega) (by simp; omega), List.drop_drop, List.append_assoc, ← List.take_add,
      Nat.add_comm size]

/-- A relay on which `http.ReadRequest` fills its buffer nine times to read the headers. -/
def longHeaders : Listener Unit Unit :=
  { portClaimed none with
    readRequest := readTimes (some ⟨['a'], none⟩) 4096 9
    selectBackend := fun _ => some () }

theorem longHeaders_sniff {bytes : Bytes} (h : 9 * 4096 < bytes.length) :
    longHeaders.sniff 80 (.tcp [.failure .timeout, .data bytes]) =
      .route ['a'] (bytes.take (9 * 4096)) false (.tcp [.data (bytes.drop (9 * 4096))]) := by
  have htls : longHeaders.peekTLS (.tcp [.failure .timeout, .data bytes]) =
      (⟨[], [], false, some .handshake⟩, .tcp [.data bytes]) := rfl
  have hend := readTimes_exec (some ⟨['a'], none⟩ : Option Request)
    (c := newLimitedCapture httpPreludeCap) (by decide) h (by decide)
  have hhttp : longHeaders.peekHTTP (.tcp [.failure .timeout, .data bytes]) =
      (⟨['a'], ['/'], bytes.take (9 * 4096), none⟩, .tcp [.data (bytes.drop (9 * 4096))]) := by
    have hread : longHeaders.readRequest = readTimes (some ⟨['a'], none⟩) 4096 9 := rfl
    simp only [peekHTTP, peekHTTPHostAndPrelude, reinstated, htls, hread, withPrelude, if_true,
      hend]
    rfl
  unfold sniff
  rw [htls, hhttp]
  rfl

theorem longHeaders_oversized {bytes : Bytes} (h : 9 * 4096 < bytes.length) :
    ∃ key prelude isTLS conn',
      longHeaders.handleConnection 80 (.tcp [.failure .timeout, .data bytes]) =
        .backend () key prelude isTLS conn' ∧
      ∃ frame ∈ start default prelude (.queued false) [] conn',
        maxMessageSize < frame.length := by
  have hlen : (bytes.take (9 * 4096)).length = 9 * 4096 := List.length_take_of_le h.le
  have hne : bytes.take (9 * 4096) ≠ [] := List.ne_nil_of_length_pos (by omega)
  refine ⟨['a'], bytes.take (9 * 4096), false, .tcp [.data (bytes.drop (9 * 4096))], ?_,
    dataMessage default (bytes.take (9 * 4096)), ?_, ?_⟩
  · unfold handleConnection
    rw [longHeaders_sniff h]
    rfl
  · simp [start, hne, sendData]
  · rw [← not_le, dataMessage_fits, hlen]
    decide

/-- A request with 36 KiB of headers becomes one frame that the receiver refuses. -/
theorem frames_exceed_read_limit : ∃ key prelude isTLS conn',
    longHeaders.handleConnection 80
        (.tcp [.failure .timeout, .data (List.replicate 40000 65)]) =
      .backend () key prelude isTLS conn' ∧
    ∃ frame ∈ start default prelude (.queued false) [] conn', maxMessageSize < frame.length :=
  longHeaders_oversized (by rw [List.length_replicate]; decide)

end Listener
end NexusProxy.Proxy
