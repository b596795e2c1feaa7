import NexusProxy.Protocol
import NexusProxy.Proxy.Sniff

/-! `Listener.handleConnection`: the sniffs decide the route of an accepted connection, and
the bytes they consumed are handed on with it. -/
namespace NexusProxy.Proxy
open Hostnames Protocol Readers

/-- The listener with the library code it runs on a connection. -/
structure Listener (B P : Type*) where
  unicode : Unicode
  handshake : Program UInt8 ReadError Handshake
  readRequest : Program UInt8 ReadError (Option Request)
  hubPublicHostname : List Char
  acmeHandler : Bool
  selectBackend : List Char → Option B
  getPeerForHostname : List Char → Option P

/-- The caps that `handleConnection` passes to the peeks. -/
def tlsPreludeCap : ℕ := 32 <<< 10

def httpPreludeCap : ℕ := 64 <<< 10

def acmeChallengePath : List Char := "/.well-known/acme-challenge/".toList

/-- What the sniffs decide. -/
inductive Sniffed where
  | drop
  | acme (conn : NetConn)
  | route (key : List Char) (prelude : Bytes) (isTLS : Bool) (conn : NetConn)

/-- The bytes that go on after the sniffs. -/
def Sniffed.handedOn : Sniffed → Option Bytes
  | .drop => none
  | .acme conn => some conn.stream
  | .route _ prelude _ conn => some (prelude ++ conn.stream)

/-- What becomes of a connection. -/
inductive Dispatch (B P : Type*) where
  | closed
  | acme (conn : NetConn)
  | backend (b : B) (key : List Char) (prelude : Bytes) (isTLS : Bool) (conn : NetConn)
  | tunnel (p : P) (key : List Char) (isTLS : Bool) (conn : NetConn)
  deriving DecidableEq

def Dispatch.handedOn {B P : Type*} : Dispatch B P → Option Bytes
  | .closed => none
  | .acme conn => some conn.stream
  | .backend _ _ prelude _ conn => some (prelude ++ conn.stream)
  | .tunnel _ _ _ conn => some conn.stream

namespace Listener
variable {B P : Type*} (l : Listener B P)

def peekTLS (conn : NetConn) : TlsPeek × NetConn :=
  peekSNIAndPrelude l.unicode l.handshake conn tlsPreludeCap

def reinstated (conn : NetConn) : NetConn :=
  withPrelude (l.peekTLS conn).2 (l.peekTLS conn).1.prelude

def peekHTTP (conn : NetConn) : HttpPeek × NetConn :=
  peekHTTPHostAndPrelude l.unicode l.readRequest (l.reinstated conn) httpPreludeCap

/-- `handleConnection` up to the choice of the route. -/
def sniff (localPort : ℕ) (conn : NetConn) : Sniffed :=
  let tls := (l.peekTLS conn).1
  if tls.truncated then .drop
  else if tls.err = none ∧ tls.sni ≠ [] then
    .route (normalize l.unicode tls.sni) tls.prelude true (l.peekTLS conn).2
  else
    let http := (l.peekHTTP conn).1
    let conn := (l.peekHTTP conn).2
    if http.err = none ∧ http.host ≠ [] then
      if l.acmeHandler ∧ http.host = normalize l.unicode l.hubPublicHostname ∧ localPort = 80 ∧
          acmeChallengePath <+: http.path then
        .acme (withPrelude conn http.prelude)
      else .route http.host http.prelude false conn
    else if http.err = some .preludeTooLarge then .drop
    else .route (routeKey .tcp localPort) http.prelude (tls.err = some .missingSNI) conn

/-- `handleConnection`. A nil peer manager knows no peer. -/
def handleConnection (localPort : ℕ) (conn : NetConn) : Dispatch B P :=
  match l.sniff localPort conn with
  | .drop => .closed
  | .acme conn => .acme conn
  | .route key prelude isTLS conn =>
      match l.selectBackend key with
      | some b => .backend b key prelude isTLS conn
      | none =>
          match l.getPeerForHostname key with
          | some p => .tunnel p key isTLS (withPrelude conn prelude)
          | none => .closed

/-- The HTTP sniff is reached and consumes a request that names no host. -/
def ConsumesHostless (conn : NetConn) : Prop :=
  (l.peekTLS conn).1.err ≠ none ∧
    Hostless (readRequestEnd l.readRequest (l.reinstated conn) httpPreludeCap).1 ∧
    (readRequestEnd l.readRequest (l.reinstated conn) httpPreludeCap).2.2.buf ≠ []

theorem peekTLS_err (conn : NetConn) :
    (l.peekTLS conn).1.err = none ↔ (l.peekTLS conn).1.sni ≠ [] := by
  unfold peekTLS peekSNIAndPrelude
  dsimp only
  split_ifs with hmal hsni
  · simp
  · simp
  · simp [hsni]

theorem reinstated_stream {conn : NetConn} (h : (l.peekTLS conn).1.truncated = false) :
    (l.reinstated conn).stream = conn.stream := by
  unfold reinstated
  rw [withPrelude_stream]
  exact peekSNIAndPrelude_lossless l.unicode l.handshake conn tlsPreludeCap h

theorem handleConnection_sniff {localPort : ℕ} {conn : NetConn} {bytes : Bytes}
    (h : (l.handleConnection localPort conn).handedOn = some bytes) :
    (l.sniff localPort conn).handedOn = some bytes := by
  unfold handleConnection at h
  cases hs : l.sniff localPort conn with
  | drop => simp [hs, Dispatch.handedOn] at h
  | acme conn => simpa [hs, Dispatch.handedOn, Sniffed.handedOn] using h
  | route key prelude isTLS conn =>
    simp only [hs] at h
    split at h
    · exact h
    · split at h
      · simpa [Dispatch.handedOn, Sniffed.handedOn] using h
      · cases h

theorem handleConnection_backend {localPort : ℕ} {conn conn' : NetConn} {b : B}
    {key : List Char} {prelude : Bytes} {isTLS : Bool}
    (h : l.handleConnection localPort conn = .backend b key prelude isTLS conn') :
    l.sniff localPort conn = .route key prelude isTLS conn' ∧ l.selectBackend key = some b := by
  unfold handleConnection at h
  cases hs : l.sniff localPort conn with
  | drop => simp [hs] at h
  | acme conn => simp [hs] at h
  | route key prelude isTLS conn =>
    simp only [hs] at h
    split at h
    · next hsel =>
      cases h
      exact ⟨rfl, hsel⟩
    · split at h <;> cases h

theorem peekHTTP_handedOn {conn : NetConn} (htrunc : (l.peekTLS conn).1.truncated = false)
    (htls : ¬((l.peekTLS conn).1.err = none ∧ (l.peekTLS conn).1.sni ≠ []))
    (hlarge : (l.peekHTTP conn).1.err ≠ some .preludeTooLarge) :
    (l.peekHTTP conn).1.prelude ++ (l.peekHTTP conn).2.stream = conn.stream ↔
      ¬l.ConsumesHostless conn := by
  have herr : (l.peekTLS conn).1.err ≠ none := by
    intro hnone
    exact htls ⟨hnone, (l.peekTLS_err conn).mp hnone⟩
  have hlossless := peekHTTPHostAndPrelude_lossless l.unicode l.readRequest (l.reinstated conn)
    httpPreludeCap hlarge
  rw [l.reinstated_stream htrunc] at hlossless
  unfold ConsumesHostless
  rw [and_iff_right herr]
  exact hlossless

theorem sniff_handedOn {localPort : ℕ} {conn : NetConn} {bytes : Bytes}
    (h : (l.sniff localPort conn).handedOn = some bytes) :
    bytes = conn.stream ↔ ¬l.ConsumesHostless conn := by
  unfold sniff at h
  dsimp only at h
  split_ifs at h with htrunc htls hok hacme hlarge
  · cases h
  · cases h
    have hall := peekSNIAndPrelude_lossless l.unicode l.handshake conn tlsPreludeCap
      ((Bool.not_eq_true _).mp htrunc)
    exact ⟨fun _ hcon => hcon.1 htls.1, fun _ => hall⟩
  · rw [Sniffed.handedOn, withPrelude_stream, Option.some.injEq] at h
    rw [← h]
    exact l.peekHTTP_handedOn ((Bool.not_eq_true _).mp htrunc) htls (by rw [hok.1]; simp)
  · cases h
    exact l.peekHTTP_handedOn ((Bool.not_eq_true _).mp htrunc) htls (by rw [hok.1]; simp)
  · cases h
  · cases h
    exact l.peekHTTP_handedOn ((Bool.not_eq_true _).mp htrunc) htls hlarge

/-- The bytes handed on are the client's stream, except when the sniff has consumed a
request that names no host. -/
theorem handleConnection_loses_nothing {localPort : ℕ} {conn : NetConn} {bytes : Bytes}
    (h : (l.handleConnection localPort conn).handedOn = some bytes) :
    bytes = conn.stream ↔ ¬l.ConsumesHostless conn := by
  have hsniff := l.handleConnection_sniff h
  exact l.sniff_handedOn hsniff

/-- A relay with one backend, which claims port 9000. Neither parser takes what it is
given for TLS, and `http.ReadRequest` ends with `request`. -/
def portClaimed (request : Option Request) : Listener Unit Unit where
  unicode := ⟨(· == ' '), Char.toLower, fun _ => none⟩
  handshake := .read 517 fun _ => .done ⟨none, true⟩
  readRequest := .read 4096 fun _ => .done request
  hubPublicHostname := []
  acmeHandler := false
  selectBackend key := if key = routeKey .tcp 9000 then some () else none
  getPeerForHostname _ := none

theorem handleConnection_loses_nothing_greeting :
    ((portClaimed none).handleConnection 9000 (.tcp [.data [5, 1], .data [0]])).handedOn =
        some [5, 1, 0] ∧
      [5, 1, 0] = (NetConn.tcp [.data [5, 1], .data [0]]).stream := by
  have h : ((portClaimed none).handleConnection 9000 (.tcp [.data [5, 1], .data [0]])).handedOn =
      some [5, 1, 0] := by decide +kernel
  refine ⟨h, ((portClaimed none).handleConnection_loses_nothing h).mpr ?_⟩
  rintro ⟨-, ⟨req, hreq, -⟩, -⟩
  cases hreq

/-- `GET / HTTP/1.0` without a `Host` header. -/
def hostlessRequest : Bytes :=
  [71, 69, 84, 32, 47, 32, 72, 84, 84, 80, 47, 49, 46, 48, 13, 10, 13, 10]

theorem handleConnection_drops_hostless_request :
    ((portClaimed (some ⟨[], some ⟨[], ['/']⟩⟩)).handleConnection 9000
        (.tcp [.data hostlessRequest])).handedOn = some [] ∧
      (NetConn.tcp [.data hostlessRequest]).stream = hostlessRequest := by
  decide +kernel

end Listener
end NexusProxy.Proxy
