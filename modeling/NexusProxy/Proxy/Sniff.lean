import NexusProxy.Hostnames
import NexusProxy.Lib.Readers

/-! The protocol sniffs of the listener: connections, the two recorders, and the functions
that peek at the TLS ClientHello and at the HTTP request. -/
namespace NexusProxy.Proxy
open Hostnames Readers

abbrev Bytes := List UInt8

inductive ReadError where
  | eof
  | timeout
  | failed
  deriving DecidableEq

/-- What the network delivers to one `Read` after the other. -/
inductive Arrival where
  | data (bytes : Bytes)
  | failure (e : ReadError)
  deriving DecidableEq

/-- A `net.Conn`: the accepted one, or a `preludeConn` over another. -/
inductive NetConn where
  | tcp (arrivals : List Arrival)
  | prelude (r : Bytes) (conn : NetConn)
  deriving DecidableEq

namespace NetConn

/-- `Read` with a buffer of `size` bytes. A chunk that does not fit stays for the next
read; a `preludeConn` is an `io.MultiReader` over its prelude and its connection. -/
def read : NetConn → ℕ → Answer UInt8 ReadError × NetConn
  | tcp [], _ => (([], some .eof), tcp [])
  | tcp (.failure e :: rest), _ => (([], some e), tcp rest)
  | tcp (.data bytes :: rest), size =>
      ((bytes.take size, none),
        tcp (if bytes.length ≤ size then rest else .data (bytes.drop size) :: rest))
  | prelude [] conn, size => ((conn.read size).1, prelude [] (conn.read size).2)
  | prelude r conn, size => ((r.take size, none), prelude (r.drop size) conn)

/-- All bytes that reads will return. -/
def stream : NetConn → Bytes
  | tcp arrivals => arrivals.flatMap fun
      | .data bytes => bytes
      | .failure _ => []
  | prelude r conn => r ++ conn.stream

theorem read_lossless : Lossless read stream := by
  intro conn size
  induction conn with
  | tcp arrivals =>
    cases arrivals with
    | nil => rfl
    | cons arrival rest =>
      cases arrival with
      | failure e => rfl
      | data bytes =>
        simp only [read, stream, List.flatMap_cons]
        split_ifs with hle
        · rw [List.take_of_length_le hle]
        · rw [List.flatMap_cons, ← List.append_assoc, List.take_append_drop]
  | prelude r conn ih =>
    cases r with
    | nil => simpa only [read, stream, List.nil_append] using ih
    | cons b r =>
      simp only [read, stream]
      rw [← List.append_assoc, List.take_append_drop]

theorem read_error {conn : NetConn} {size : ℕ} (h : (conn.read size).1.2 ≠ none) :
    (conn.read size).1.1 = [] := by
  induction conn with
  | tcp arrivals =>
    cases arrivals with
    | nil => rfl
    | cons arrival rest =>
      cases arrival with
      | failure e => rfl
      | data bytes => exact absurd rfl h
  | prelude r conn ih =>
    cases r with
    | nil => exact ih h
    | cons b r => exact absurd rfl h

end NetConn

def withPrelude (conn : NetConn) (prelude : Bytes) : NetConn :=
  if prelude = [] then conn else .prelude prelude conn

@[simp] theorem withPrelude_stream (conn : NetConn) (prelude : Bytes) :
    (withPrelude conn prelude).stream = prelude ++ conn.stream := by
  unfold withPrelude
  split_ifs with h
  · rw [h, List.nil_append]
  · rfl

/-- `readRecorder`: it stops recording at `max` bytes. -/
structure ReadRecorder where
  max : ℕ
  buf : Bytes
  capped : Bool
  deriving DecidableEq

/-- The part of `readRecorder.Read` after the read itself. -/
def ReadRecorder.record (r : ReadRecorder) (p : Bytes) : ReadRecorder :=
  if 0 < p.length ∧ r.capped = false then
    let remain := r.max - r.buf.length
    if remain = 0 then { r with capped := true }
    else if remain < p.length then { r with buf := r.buf ++ p.take remain, capped := true }
    else { r with buf := r.buf ++ p }
  else r

/-- `limitedCapture`, the writer behind the `TeeReader`. -/
structure LimitedCapture where
  buf : Bytes
  limit : ℕ
  overflow : Bool
  deriving DecidableEq

def newLimitedCapture (limit : ℕ) : LimitedCapture := ⟨[], limit, false⟩

/-- `limitedCapture.Write`, which never fails. -/
def LimitedCapture.write (c : LimitedCapture) (p : Bytes) : LimitedCapture :=
  if c.limit = 0 then { c with buf := c.buf ++ p }
  else
    let remaining := c.limit - c.buf.length
    if remaining = 0 then { c with overflow := true }
    else if remaining < p.length then { c with buf := c.buf ++ p.take remaining, overflow := true }
    else { c with buf := c.buf ++ p }

/-- `io.TeeReader` writes only what was read. -/
def LimitedCapture.tee (c : LimitedCapture) (p : Bytes) : LimitedCapture :=
  if 0 < p.length then c.write p else c

theorem readRecorder_captures :
    Captures ReadRecorder.record ReadRecorder.buf ReadRecorder.capped := by
  intro r p hcut
  unfold ReadRecorder.record at hcut ⊢
  dsimp only at hcut ⊢
  split_ifs at hcut ⊢ with hpos hzero hlt
  · exact ⟨hpos.2, rfl⟩
  · refine ⟨hcut, ?_⟩
    have hnil : p = [] := by
      by_contra hne
      exact hpos ⟨List.length_pos_iff.mpr hne, hcut⟩
    rw [hnil, List.append_nil]

theorem limitedCapture_captures :
    Captures LimitedCapture.tee LimitedCapture.buf LimitedCapture.overflow := by
  intro c p hcut
  unfold LimitedCapture.tee LimitedCapture.write at hcut ⊢
  dsimp only at hcut ⊢
  split_ifs at hcut ⊢ with hpos hlimit hzero hlt
  · exact ⟨hcut, rfl⟩
  · exact ⟨hcut, rfl⟩
  · have hnil : p = [] := List.length_eq_zero_iff.mp (by omega)
    exact ⟨hcut, by rw [hnil, List.append_nil]⟩

theorem readRecorder_le {limit : ℕ} (r : ReadRecorder) (p : Bytes)
    (h : r.max = limit ∧ r.buf.length ≤ limit) :
    (r.record p).max = limit ∧ (r.record p).buf.length ≤ limit := by
  unfold ReadRecorder.record
  dsimp only
  split_ifs
  · exact h
  · simp only [List.length_append, List.length_take]
    omega
  · simp only [List.length_append]
    omega
  · exact h

/-- How `tls.Server(..).Handshake()` ends: the name of the ClientHello that was passed to
`GetConfigForClient`, and whether the error is another one than `errAbortHandshake`. -/
structure Handshake where
  serverName : Option (List Char)
  malformed : Bool
  deriving DecidableEq

inductive PeekError where
  | missingSNI
  | handshake
  deriving DecidableEq

structure TlsPeek where
  sni : List Char
  prelude : Bytes
  truncated : Bool
  err : Option PeekError
  deriving DecidableEq

/-- `PeekSNIAndPrelude`, given the handshake as a program that reads the connection. -/
def peekSNIAndPrelude (u : Unicode) (handshake : Program UInt8 ReadError Handshake)
    (conn : NetConn) (maxPrelude : ℕ) : TlsPeek × NetConn :=
  let out := handshake.exec (tap NetConn.read ReadRecorder.record) (conn, ⟨maxPrelude, [], false⟩)
  let rc := out.2.2
  let sni :=
    match out.1.serverName with
    | some name => toLower u name
    | none => []
  (if out.1.malformed then ⟨[], rc.buf, rc.capped, some .handshake⟩
    else if sni = [] then ⟨[], rc.buf, rc.capped, some .missingSNI⟩
    else ⟨sni, rc.buf, rc.capped, none⟩, out.2.1)

structure Url where
  host : List Char
  path : List Char
  deriving DecidableEq

/-- The fields of an `http.Request` that the sniff looks at. -/
structure Request where
  host : List Char
  url : Option Url
  deriving DecidableEq

inductive HttpError where
  | preludeTooLarge
  | notHTTP
  | readRequest
  | hostNotFound
  deriving DecidableEq

structure HttpPeek where
  host : List Char
  path : List Char
  prelude : Bytes
  err : Option HttpError
  deriving DecidableEq

def lastIndexOf (c : Char) (s : List Char) : Option ℕ :=
  (s.reverse.idxOf? c).map fun i => s.length - 1 - i

def splitHostPort (hostport : List Char) : Option (List Char × List Char) :=
  match lastIndexOf ':' hostport with
  | none => none
  | some i =>
      if hostport.head? = some '[' then
        match hostport.idxOf? ']' with
        | none => none
        | some close =>
            if close + 1 ≠ i then none
            else if '[' ∈ hostport.drop 1 then none
            else if ']' ∈ hostport.drop (close + 1) then none
            else some ((hostport.take close).drop 1, hostport.drop (i + 1))
      else if ':' ∈ hostport.take i then none
      else if '[' ∈ hostport then none
      else if ']' ∈ hostport then none
      else some (hostport.take i, hostport.drop (i + 1))

example : splitHostPort ['[', ':', ':', '1', ']', ':', '8', '0'] =
    some ([':', ':', '1'], ['8', '0']) := by decide

/-- The `Host` header, or the host of an absolute request URL. -/
def Request.anyHost (req : Request) : List Char :=
  if req.host = [] then
    match req.url with
    | some url => url.host
    | none => []
  else req.host

/-- The part of `PeekHTTPHostAndPrelude` after `http.ReadRequest`; `none` is a request
that does not parse. -/
def requestPeek (u : Unicode) (result : Option Request) (captured : LimitedCapture) : HttpPeek :=
  let prelude := captured.buf
  if captured.overflow then ⟨[], [], prelude, some .preludeTooLarge⟩
  else match result with
    | none =>
        if prelude = [] then ⟨[], [], [], some .notHTTP⟩
        else ⟨[], [], prelude, some .readRequest⟩
    | some req =>
        let host := req.anyHost
        if host = [] then ⟨[], [], [], some .hostNotFound⟩
        else
          let host :=
            match splitHostPort host with
            | some (h, _) => h
            | none => host
          let path :=
            match req.url with
            | some url => url.path
            | none => []
          ⟨normalize u host, if path = [] then ['/'] else path, prelude, none⟩

/-- `PeekHTTPHostAndPrelude`, given `http.ReadRequest` with its `bufio.Reader` as a program
that reads the connection. -/
def peekHTTPHostAndPrelude (u : Unicode)
    (readRequest : Program UInt8 ReadError (Option Request)) (conn : NetConn) (maxPrelude : ℕ) :
    HttpPeek × NetConn :=
  let out :=
    readRequest.exec (tap NetConn.read LimitedCapture.tee) (conn, newLimitedCapture maxPrelude)
  (requestPeek u out.1 out.2.2, out.2.1)

def Hostless (result : Option Request) : Prop := ∃ req, result = some req ∧ req.anyHost = []

/-- Every branch returns what was captured, except the one of a request without a host. -/
theorem requestPeek_prelude {u : Unicode} {result : Option Request} {captured : LimitedCapture}
    (h : (requestPeek u result captured).err ≠ some .preludeTooLarge) :
    captured.overflow = false ∧
      (Hostless result → (requestPeek u result captured).prelude = []) ∧
      (¬Hostless result → (requestPeek u result captured).prelude = captured.buf) := by
  cases hover : captured.overflow with
  | true => exact absurd (by simp [requestPeek, hover]) h
  | false =>
    refine ⟨rfl, ?_, ?_⟩
    · rintro ⟨req, rfl, hhost⟩
      simp [requestPeek, hover, hhost]
    · intro hno
      cases result with
      | none =>
        by_cases hnil : captured.buf = [] <;> simp [requestPeek, hover, hnil]
      | some req =>
        have hhost : req.anyHost ≠ [] := fun hnil => hno ⟨req, rfl, hnil⟩
        simp [requestPeek, hover, hhost]

section Peeks
variable (u : Unicode) (handshake : Program UInt8 ReadError Handshake)
  (readRequest : Program UInt8 ReadError (Option Request)) (conn : NetConn) (maxPrelude : ℕ)

def peekSNIEnd : NetConn × ReadRecorder :=
  (handshake.exec (tap NetConn.read ReadRecorder.record) (conn, ⟨maxPrelude, [], false⟩)).2

theorem peekSNIAndPrelude_prelude :
    (peekSNIAndPrelude u handshake conn maxPrelude).1.prelude =
        (peekSNIEnd handshake conn maxPrelude).2.buf ∧
      (peekSNIAndPrelude u handshake conn maxPrelude).1.truncated =
        (peekSNIEnd handshake conn maxPrelude).2.capped := by
  unfold peekSNIAndPrelude peekSNIEnd
  dsimp only
  split_ifs <;> exact ⟨rfl, rfl⟩

theorem peekSNIAndPrelude_lossless
    (h : (peekSNIAndPrelude u handshake conn maxPrelude).1.truncated = false) :
    (peekSNIAndPrelude u handshake conn maxPrelude).1.prelude ++
      (peekSNIAndPrelude u handshake conn maxPrelude).2.stream = conn.stream := by
  obtain ⟨hprelude, htruncated⟩ := peekSNIAndPrelude_prelude u handshake conn maxPrelude
  rw [htruncated] at h
  rw [hprelude]
  exact (handshake.exec_tap NetConn.read_lossless readRecorder_captures conn _ h).2

theorem peekSNIAndPrelude_length :
    (peekSNIAndPrelude u handshake conn maxPrelude).1.prelude.length ≤ maxPrelude := by
  rw [(peekSNIAndPrelude_prelude u handshake conn maxPrelude).1]
  have hle : (peekSNIEnd handshake conn maxPrelude).2.max = maxPrelude ∧
      (peekSNIEnd handshake conn maxPrelude).2.buf.length ≤ maxPrelude :=
    handshake.exec_tap_invariant
      (I := fun r : ReadRecorder => r.max = maxPrelude ∧ r.buf.length ≤ maxPrelude)
      readRecorder_le ⟨rfl, Nat.zero_le _⟩
  exact hle.2

def readRequestEnd : Option Request × NetConn × LimitedCapture :=
  readRequest.exec (tap NetConn.read LimitedCapture.tee) (conn, newLimitedCapture maxPrelude)

/-- What the HTTP sniff returns continues with the connection to the stream, unless it has
consumed a request without a host. -/
theorem peekHTTPHostAndPrelude_lossless
    (h : (peekHTTPHostAndPrelude u readRequest conn maxPrelude).1.err ≠ some .preludeTooLarge) :
    (peekHTTPHostAndPrelude u readRequest conn maxPrelude).1.prelude ++
        (peekHTTPHostAndPrelude u readRequest conn maxPrelude).2.stream = conn.stream ↔
      ¬(Hostless (readRequestEnd readRequest conn maxPrelude).1 ∧
        (readRequestEnd readRequest conn maxPrelude).2.2.buf ≠ []) := by
  obtain ⟨hover, hlost, hkept⟩ := requestPeek_prelude h
  have hend := (readRequest.exec_tap NetConn.read_lossless limitedCapture_captures conn _ hover).2
  change (readRequestEnd readRequest conn maxPrelude).2.2.buf ++
    (readRequestEnd readRequest conn maxPrelude).2.1.stream = [] ++ conn.stream at hend
  by_cases hno : Hostless (readRequestEnd readRequest conn maxPrelude).1
  · have hnil : (peekHTTPHostAndPrelude u readRequest conn maxPrelude).1.prelude = [] := hlost hno
    rw [hnil, List.nil_append]
    constructor
    · intro heq hcon
      have heq : (readRequestEnd readRequest conn maxPrelude).2.1.stream = conn.stream := heq
      rw [List.nil_append, ← heq] at hend
      exact hcon.2 (List.append_left_eq_self.mp hend)
    · intro hnot
      have hbuf : (readRequestEnd readRequest conn maxPrelude).2.2.buf = [] := by
        by_contra hne
        exact hnot ⟨hno, hne⟩
      rw [hbuf] at hend
      exact hend
  · have hbuf : (peekHTTPHostAndPrelude u readRequest conn maxPrelude).1.prelude =
        (readRequestEnd readRequest conn maxPrelude).2.2.buf := hkept hno
    rw [hbuf]
    exact ⟨fun _ hcon => hno hcon.1, fun _ => hend⟩

end Peeks

end NexusProxy.Proxy
