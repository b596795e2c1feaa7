import NexusProxy.Hub.Reauth
import NexusProxy.Lib.Recognizers
import NexusProxy.Lib.Slices

/-! The SOCKS5 side of the outbound proxy: negotiation and CONNECT request as parsers of the
bytes that a local program sends, the target address that is built from a request, and what
the relay's checks make of that address. -/
namespace NexusProxy.Client.Socks5
open Proxy Protocol Checks Recognizers Slices Hub

def socks5Version : UInt8 := 0x05
def socks5AuthNone : UInt8 := 0x00
def socks5AuthNoAccpt : UInt8 := 0xFF
def socks5CmdConnect : UInt8 := 0x01
def socks5AtypIPv4 : UInt8 := 0x01
def socks5AtypDomain : UInt8 := 0x03
def socks5AtypIPv6 : UInt8 := 0x04

def socks5RepSuccess : UInt8 := 0x00
def socks5RepGeneralFailure : UInt8 := 0x01
def socks5RepConnRefused : UInt8 := 0x05
def socks5RepCmdNotSupported : UInt8 := 0x07
def socks5RepAddrNotSupp : UInt8 := 0x08

/-- The accepted connection: what its reads will return, what has been written to it, and how
the next writes end. A write that fails may have written some bytes. -/
structure Conn where
  input : List Arrival
  sent : Bytes
  writes : List (Option ℕ)
  deriving DecidableEq

/-- The parts of the exchange that `io.ReadFull` reads. -/
inductive Field where
  | methodHeader
  | methods
  | requestHeader
  | ipv4Addr
  | domainLength
  | domain
  | ipv6Addr
  | port
  deriving DecidableEq

inductive Failure where
  | read (field : Field)
  | write
  | version (v : UInt8)
  | noMethods
  | noSupportedMethod
  | command (cmd : UInt8)
  | emptyDomain
  | addressType (atyp : UInt8)
  deriving DecidableEq

abbrev Parser (α : Type) := ExceptT Failure (StateM Conn) α

section Reads

/-- `io.ReadFull` with `need` bytes still missing: it reads until they are there, or until a
read fails. -/
def fill : ℕ → List Arrival → Option Bytes × List Arrival
  | 0, arrivals => (some [], arrivals)
  | _ + 1, [] => (none, [])
  | _ + 1, .failure _ :: rest => (none, rest)
  | need + 1, .data bytes :: rest =>
      if bytes.length ≤ need + 1 then
        let out := fill (need + 1 - bytes.length) rest
        (out.1.map (bytes ++ ·), out.2)
      else (some (bytes.take (need + 1)), .data (bytes.drop (need + 1)) :: rest)

/-- Each turn of `io.ReadFull` is one `Read` of the connection. -/
theorem fill_succ (need : ℕ) (arrivals : List Arrival) :
    fill (need + 1) arrivals =
      match (NetConn.tcp arrivals).read (need + 1) with
      | ((_, some _), .tcp rest) => (none, rest)
      | ((bytes, none), .tcp rest) =>
          ((fill (need + 1 - bytes.length) rest).1.map (bytes ++ ·),
            (fill (need + 1 - bytes.length) rest).2)
      | (_, .prelude _ _) => (none, arrivals) := by
  match arrivals with
  | [] => rfl
  | .failure _ :: _ => rfl
  | .data bytes :: rest =>
    by_cases hle : bytes.length ≤ need + 1
    · simp [fill, NetConn.read, hle, List.take_of_length_le hle]
    · have hfull : need + 1 - (bytes.take (need + 1)).length = 0 := by
        rw [List.length_take]
        omega
      simp only [fill, NetConn.read, if_neg hle, hfull, Option.map_some, List.append_nil]

/-- The bytes that arrive before the first failure of a read. -/
def available : List Arrival → Bytes
  | [] => []
  | .failure _ :: _ => []
  | .data bytes :: rest => bytes ++ available rest

/-- `io.ReadFull` depends on the bytes that arrive and not on their chunks. -/
theorem fill_spec (need : ℕ) (arrivals : List Arrival) :
    if need ≤ (available arrivals).length then
      (fill need arrivals).1 = some ((available arrivals).take need) ∧
        available (fill need arrivals).2 = (available arrivals).drop need
    else (fill need arrivals).1 = none := by
  induction arrivals generalizing need with
  | nil => cases need <;> simp [fill, available]
  | cons arrival rest ih =>
    cases need with
    | zero => simp [fill]
    | succ need =>
      cases arrival with
      | failure e => simp [fill, available]
      | data bytes =>
        by_cases hle : bytes.length ≤ need + 1
        · have hrest := ih (need + 1 - bytes.length)
          simp only [fill, if_pos hle, available, List.length_append]
          by_cases henough : need + 1 ≤ bytes.length + (available rest).length
          · rw [if_pos (by omega)] at hrest
            rw [if_pos henough, hrest.1, hrest.2, List.take_append, List.drop_append,
              List.take_of_length_le hle, List.drop_eq_nil_of_le hle]
            exact ⟨rfl, rfl⟩
          · rw [if_neg (by omega)] at hrest
            rw [if_neg henough, hrest]
            rfl
        · have hlt : need + 1 ≤ bytes.length := by omega
          have henough : need + 1 ≤ (available (.data bytes :: rest)).length := by
            simp only [available, List.length_append]
            omega
          rw [if_pos henough]
          simp only [fill, if_neg hle, available, List.take_append_of_le_length hlt,
            List.drop_append_of_le_length hlt, and_self]

end Reads

def readFull (size : ℕ) (field : Field) : Parser Bytes := do
  let c ← get
  let out := fill size c.input
  set { c with input := out.2 }
  match out.1 with
  | some bytes => return bytes
  | none => throw (.read field)

/-- `conn.Write`; the answer is whether it succeeded. -/
def write (p : Bytes) : Parser Bool := do
  let c ← get
  match c.writes with
  | some n :: rest =>
      set { c with sent := c.sent ++ p.take n, writes := rest }
      return false
  | writes =>
      set { c with sent := c.sent ++ p, writes := writes.tail }
      return true

/-- The bytes of a reply; the bind address is always `0.0.0.0:0`. -/
def reply (rep : UInt8) : Bytes :=
  [socks5Version, rep, 0x00, socks5AtypIPv4, 0, 0, 0, 0, 0, 0]

def socks5SendReply (rep : UInt8) : Parser Bool := write (reply rep)

/-- The method negotiation. Only the method without authentication is supported. -/
def socks5Handshake : Parser Unit := do
  let header ← readFull 2 .methodHeader
  if header.getD 0 0 ≠ socks5Version then throw (.version (header.getD 0 0))
  else if header.getD 1 0 = 0 then throw .noMethods
  else do
    let methods ← readFull (header.getD 1 0).toNat .methods
    if socks5AuthNone ∉ methods then do
      let _ ← write [socks5Version, socks5AuthNoAccpt]
      throw .noSupportedMethod
    else do
      let written ← write [socks5Version, socks5AuthNone]
      if written = false then throw .write else return ()

def ipv4Text (addr : Bytes) : List Char :=
  (['.'].intercalate (addr.map fun b => itoa b.toNat))

/-- A number in lower-case hexadecimal digits, without leading zeros. -/
def hexText (n : ℕ) : List Char :=
  if n = 0 then ['0'] else ((Nat.digits 16 n).map Nat.digitChar).reverse

def groups : Bytes → List ℕ
  | high :: low :: rest => (256 * high.toNat + low.toNat) :: groups rest
  | _ => []

/-- The first longest run of at least two zero groups, as its start and its end. -/
def zeroRun (g : List ℕ) : Option (ℕ × ℕ) :=
  (List.range g.length).foldl (fun best i =>
    let l := ((g.drop i).takeWhile (· == 0)).length
    if 2 ≤ l ∧ (best.map fun run => run.2 - run.1).getD 0 < l then some (i, i + l) else best) none

/-- `net.IP.String` of sixteen bytes: an IPv4-mapped address is written as an IPv4 address, and
in any other one the longest run of zero groups is written as `::`. -/
def ipv6Text (addr : Bytes) : List Char :=
  if addr.take 12 = List.replicate 10 0 ++ [0xFF, 0xFF] then ipv4Text (addr.drop 12)
  else
    let g := groups addr
    let text (part : List ℕ) := [':'].intercalate (part.map hexText)
    match zeroRun g with
    | none => text g
    | some (first, last) => text (g.take first) ++ [':', ':'] ++ text (g.drop last)

/-- An ASCII text as the bytes of a Go string. -/
def ascii (text : List Char) : Bytes := text.map fun c => UInt8.ofNat c.toNat

/-- The part of `socks5ReadConnect` that reads `DST.ADDR`. -/
def readAddress (atyp : UInt8) : Parser Bytes :=
  if atyp = socks5AtypIPv4 then do
    let addr ← readFull 4 .ipv4Addr
    return ascii (ipv4Text addr)
  else if atyp = socks5AtypDomain then do
    let lenBuf ← readFull 1 .domainLength
    if lenBuf.getD 0 0 = 0 then throw .emptyDomain
    else readFull (lenBuf.getD 0 0).toNat .domain
  else if atyp = socks5AtypIPv6 then do
    let addr ← readFull 16 .ipv6Addr
    return ascii (ipv6Text addr)
  else do
    let _ ← socks5SendReply socks5RepAddrNotSupp
    throw (.addressType atyp)

/-- `socks5ReadConnect`: the host, as the bytes of a Go string, and the port. -/
def socks5ReadConnect : Parser (Bytes × ℕ) := do
  let header ← readFull 4 .requestHeader
  if header.getD 0 0 ≠ socks5Version then throw (.version (header.getD 0 0))
  else if header.getD 1 0 ≠ socks5CmdConnect then do
    let _ ← socks5SendReply socks5RepCmdNotSupported
    throw (.command (header.getD 1 0))
  else do
    let host ← readAddress (header.getD 3 0)
    let portBuf ← readFull 2 .port
    return (host, ofBigEndian portBuf)

/-- What `handleSocks5Conn` reads before it turns to the relay. -/
def accept : Parser (Bytes × ℕ) := do
  socks5Handshake
  socks5ReadConnect

def joinHostPort (host port : Bytes) : Bytes :=
  if 58 ∈ host then 91 :: host ++ [93, 58] ++ port else host ++ 58 :: port

def socks5TargetAddr (host : Bytes) (port : ℕ) : Bytes := joinHostPort host (ascii (itoa port))

section Grammar

/-- The first message of a client: the methods it offers. -/
structure Greeting where
  methods : Bytes
  nonempty : methods ≠ []
  fits : methods.length ≤ 255

def Greeting.wire (g : Greeting) : Bytes :=
  socks5Version :: UInt8.ofNat g.methods.length :: g.methods

structure Domain where
  name : Bytes
  nonempty : name ≠ []
  fits : name.length ≤ 255

/-- `ATYP` and `DST.ADDR`. -/
inductive Address where
  | ipv4 (addr : Vector UInt8 4)
  | domain (d : Domain)
  | ipv6 (addr : Vector UInt8 16)

namespace Address

def atyp : Address → UInt8
  | ipv4 _ => socks5AtypIPv4
  | domain _ => socks5AtypDomain
  | ipv6 _ => socks5AtypIPv6

def wire : Address → Bytes
  | ipv4 addr => addr.toList
  | domain d => UInt8.ofNat d.name.length :: d.name
  | ipv6 addr => addr.toList

def host : Address → Bytes
  | ipv4 addr => ascii (ipv4Text addr.toList)
  | domain d => d.name
  | ipv6 addr => ascii (ipv6Text addr.toList)

end Address

/-- A CONNECT request. The reserved byte may have any value. -/
structure Request where
  rsv : UInt8
  address : Address
  port : Fin 65536

def Request.wire (r : Request) : Bytes :=
  [socks5Version, socks5CmdConnect, r.rsv, r.address.atyp] ++ r.address.wire ++
    bigEndian 2 r.port

end Grammar

section Recognition

def view (c : Conn) : Bytes := available c.input

/-- Every write to the connection will succeed. -/
def Ready (c : Conn) : Prop := ∀ w ∈ c.writes, w = none

theorem outcome_readFull (size : ℕ) (field : Field) (c : Conn) :
    outcome (readFull size field) c =
      ((match (fill size c.input).1 with
        | some bytes => .ok bytes
        | none => .error (.read field)), { c with input := (fill size c.input).2 }) := by
  change outcome (match (fill size c.input).1 with
    | some bytes => return bytes
    | none => throw (.read field) : Parser Bytes) { c with input := (fill size c.input).2 } = _
  cases (fill size c.input).1 <;> rfl

theorem readFull_recognizes (size : ℕ) (field : Field) :
    Recognizes view Ready (readFull size field) (fun bytes w => bytes = w ∧ w.length = size) where
  sound := by
    intro c bytes c' h
    rw [outcome_readFull] at h
    have hspec := fill_spec size c.input
    split_ifs at hspec with hle
    · rw [hspec.1] at h
      cases h
      refine ⟨_, ⟨rfl, List.length_take_of_le hle⟩, ?_⟩
      rw [view, view, hspec.2, List.take_append_drop]
    · rw [hspec] at h
      cases h
  complete := by
    rintro c bytes w rest hready ⟨rfl, rfl⟩ hview
    rw [view] at hview
    have hspec := fill_spec bytes.length c.input
    rw [hview, if_pos (by simp), List.take_left, List.drop_left] at hspec
    rw [outcome_readFull, hspec.1]
    exact ⟨_, rfl, hspec.2, hready⟩

theorem outcome_write_throw {α : Type} (p : Bytes) (e : Failure) (c : Conn) (a : α) (c' : Conn) :
    outcome (write p >>= fun _ => throw e : Parser α) c ≠ (.ok a, c') := by
  intro h
  obtain ⟨_, _, _, h⟩ := outcome_bind_ok.mp h
  cases h

theorem outcome_write (p : Bytes) (c : Conn) :
    outcome (write p) c =
      match c.writes with
      | some n :: rest => (.ok false, { c with sent := c.sent ++ p.take n, writes := rest })
      | writes => (.ok true, { c with sent := c.sent ++ p, writes := writes.tail }) := by
  change outcome (match c.writes with
    | some n :: rest => do
        set { c with sent := c.sent ++ p.take n, writes := rest }
        return false
    | writes => do
        set { c with sent := c.sent ++ p, writes := writes.tail }
        return true : Parser Bool) c = _
  rcases c.writes with _ | ⟨_ | n, rest⟩ <;> rfl

theorem outcome_write_ready (p : Bytes) {c : Conn} (h : Ready c) :
    outcome (write p) c =
      (.ok true, { c with sent := c.sent ++ p, writes := c.writes.tail }) := by
  rw [outcome_write]
  split
  case h_1 n rest hwrites =>
    have hnone := h (some n) (hwrites ▸ List.mem_cons_self)
    cases hnone
  case h_2 => rfl

theorem acceptReply_recognizes (p : Bytes) :
    Recognizes view Ready (do
      let written ← write p
      if written = false then throw .write else return () : Parser Unit)
      (fun _ w => w = []) where
  sound := by
    intro c _ c' h
    obtain ⟨written, c'', hwrite, h⟩ := outcome_bind_ok.mp h
    rw [outcome_write] at hwrite
    refine ⟨[], rfl, ?_⟩
    cases written with
    | false => cases h
    | true =>
      cases h
      split at hwrite
      · cases hwrite
      · cases hwrite
        rfl
  complete := by
    rintro c ⟨⟩ w rest hready rfl hview
    refine ⟨_, outcome_bind_ok.mpr ⟨true, _, outcome_write_ready p hready, rfl⟩, hview, ?_⟩
    intro w hw
    exact hready w (List.mem_of_mem_tail hw)

theorem toNat_length {n : ℕ} (h : n ≤ 255) : (UInt8.ofNat n).toNat = n := by
  rw [UInt8.toNat_ofNat']
  omega

theorem socks5Handshake_recognizes :
    Recognizes view Ready socks5Handshake
      (fun _ w => ∃ g : Greeting, socks5AuthNone ∈ g.methods ∧ w = g.wire) := by
  unfold socks5Handshake
  refine ((readFull_recognizes 2 .methodHeader).bind fun header =>
    .guard (fun c a c' h => by cases h) fun _ => .guard (fun c a c' h => by cases h) fun _ =>
      (readFull_recognizes _ .methods).bind fun methods =>
        .guard (outcome_write_throw _ _) fun _ => acceptReply_recognizes _).congr ?_
  intro _ w
  constructor
  · rintro ⟨header, front, back, ⟨rfl, hlen⟩, ⟨hver, hcount, methods, front', back',
      ⟨rfl, hmethods⟩, ⟨hnone, rfl⟩, rfl⟩, rfl⟩
    obtain ⟨ver, count, rfl⟩ := List.length_eq_two.mp hlen
    simp only [List.getD_cons_zero, List.getD_cons_succ, not_not] at hver hcount hmethods hnone
    refine ⟨⟨methods, ?_, ?_⟩, hnone, ?_⟩
    · rintro rfl
      exact absurd hnone List.not_mem_nil
    · rw [hmethods]
      exact Nat.le_of_lt_succ count.toNat_lt
    · simp [Greeting.wire, hver, hmethods]
  · rintro ⟨g, hnone, rfl⟩
    have hcount : UInt8.ofNat g.methods.length ≠ 0 := by
      intro h
      have hzero := congrArg UInt8.toNat h
      rw [toNat_length g.fits] at hzero
      exact g.nonempty (List.length_eq_zero_iff.mp hzero)
    refine ⟨[socks5Version, UInt8.ofNat g.methods.length], _, g.methods, ⟨rfl, rfl⟩,
      ⟨by simp, by simpa using hcount, g.methods, _, [], ⟨rfl, ?_⟩, ⟨by simpa using hnone, rfl⟩,
        (List.append_nil _).symm⟩, rfl⟩
    simpa using (toNat_length g.fits).symm

theorem readIP_recognizes (size : ℕ) (field : Field) (text : Bytes → List Char) :
    Recognizes view Ready (do
      let addr ← readFull size field
      return ascii (text addr) : Parser Bytes)
      (fun host w => w.length = size ∧ host = ascii (text w)) := by
  refine ((readFull_recognizes size field).bind fun addr => .pure _).congr ?_
  intro host w
  constructor
  · rintro ⟨addr, front, back, ⟨rfl, hlen⟩, ⟨rfl, rfl⟩, rfl⟩
    rw [List.append_nil]
    exact ⟨hlen, rfl⟩
  · rintro ⟨hlen, rfl⟩
    exact ⟨w, w, [], ⟨rfl, hlen⟩, ⟨rfl, rfl⟩, (List.append_nil w).symm⟩

theorem readDomain_recognizes :
    Recognizes view Ready (do
      let lenBuf ← readFull 1 .domainLength
      if lenBuf.getD 0 0 = 0 then throw .emptyDomain
      else readFull (lenBuf.getD 0 0).toNat .domain : Parser Bytes)
      (fun host w => ∃ d : Domain, host = d.name ∧ w = UInt8.ofNat d.name.length :: d.name) := by
  refine ((readFull_recognizes 1 .domainLength).bind fun lenBuf =>
    .guard (fun c a c' h => by cases h) fun _ => readFull_recognizes _ .domain).congr ?_
  intro host w
  constructor
  · rintro ⟨lenBuf, front, back, ⟨rfl, hlen⟩, ⟨hzero, rfl, hname⟩, rfl⟩
    obtain ⟨len, rfl⟩ := List.length_eq_one_iff.mp hlen
    simp only [List.getD_cons_zero] at hzero hname
    refine ⟨⟨host, ?_, ?_⟩, rfl, ?_⟩
    · rintro rfl
      exact hzero (UInt8.toNat_inj.mp hname.symm)
    · rw [hname]
      exact Nat.le_of_lt_succ len.toNat_lt
    · simp [hname]
  · rintro ⟨d, rfl, rfl⟩
    have hlen := toNat_length d.fits
    refine ⟨[UInt8.ofNat d.name.length], _, d.name, ⟨rfl, rfl⟩, ⟨?_, rfl, ?_⟩, rfl⟩
    · intro hzero
      have hnil := congrArg UInt8.toNat hzero
      rw [List.getD_cons_zero, hlen] at hnil
      exact d.nonempty (List.length_eq_zero_iff.mp hnil)
    · rw [List.getD_cons_zero, hlen]

theorem readAddress_recognizes (atyp : UInt8) :
    Recognizes view Ready (readAddress atyp)
      (fun host w => ∃ a : Address, a.atyp = atyp ∧ host = a.host ∧ w = a.wire) := by
  unfold readAddress
  split_ifs with h4 hd h6
  · refine (readIP_recognizes 4 .ipv4Addr ipv4Text).congr fun host w => ?_
    constructor
    · rintro ⟨hlen, rfl⟩
      exact ⟨.ipv4 ⟨w.toArray, by simpa using hlen⟩, h4.symm, rfl, rfl⟩
    · rintro ⟨a, hatyp, rfl, rfl⟩
      cases a with
      | ipv4 addr => exact ⟨addr.length_toList, rfl⟩
      | domain d =>
        exact absurd (hatyp.trans h4) (show socks5AtypDomain ≠ socks5AtypIPv4 by decide)
      | ipv6 addr => exact absurd (hatyp.trans h4) (show socks5AtypIPv6 ≠ socks5AtypIPv4 by decide)
  · refine readDomain_recognizes.congr fun host w => ?_
    constructor
    · rintro ⟨d, rfl, rfl⟩
      exact ⟨.domain d, hd.symm, rfl, rfl⟩
    · rintro ⟨a, hatyp, rfl, rfl⟩
      cases a with
      | ipv4 addr =>
        exact absurd (hatyp.trans hd) (show socks5AtypIPv4 ≠ socks5AtypDomain by decide)
      | domain d => exact ⟨d, rfl, rfl⟩
      | ipv6 addr =>
        exact absurd (hatyp.trans hd) (show socks5AtypIPv6 ≠ socks5AtypDomain by decide)
  · refine (readIP_recognizes 16 .ipv6Addr ipv6Text).congr fun host w => ?_
    constructor
    · rintro ⟨hlen, rfl⟩
      exact ⟨.ipv6 ⟨w.toArray, by simpa using hlen⟩, h6.symm, rfl, rfl⟩
    · rintro ⟨a, hatyp, rfl, rfl⟩
      cases a with
      | ipv4 addr => exact absurd (hatyp.trans h6) (show socks5AtypIPv4 ≠ socks5AtypIPv6 by decide)
      | domain d =>
        exact absurd (hatyp.trans h6) (show socks5AtypDomain ≠ socks5AtypIPv6 by decide)
      | ipv6 addr => exact ⟨addr.length_toList, rfl⟩
  · constructor
    · intro c host c' h
      exact absurd h (outcome_write_throw _ _ _ _ _)
    · rintro c host w rest - ⟨a, hatyp, -⟩
      cases a with
      | ipv4 addr => exact absurd hatyp.symm h4
      | domain d => exact absurd hatyp.symm hd
      | ipv6 addr => exact absurd hatyp.symm h6

theorem ofBigEndian_two (high low : UInt8) :
    ofBigEndian [high, low] = 256 * high.toNat + low.toNat := by
  simp [ofBigEndian]

theorem bigEndian_ofBigEndian {bytes : Bytes} (h : bytes.length = 2) :
    ofBigEndian bytes < 65536 ∧ bigEndian 2 (ofBigEndian bytes) = bytes := by
  obtain ⟨high, low, rfl⟩ := List.length_eq_two.mp h
  have hhigh := high.toNat_lt
  have hlow := low.toNat_lt
  rw [ofBigEndian_two]
  refine ⟨by omega, ?_⟩
  simp only [bigEndian, List.cons.injEq, and_true]
  constructor
  · apply UInt8.toNat_inj.mp
    rw [UInt8.toNat_ofNat']
    omega
  · apply UInt8.toNat_inj.mp
    rw [UInt8.toNat_ofNat']
    omega

theorem socks5ReadConnect_recognizes :
    Recognizes view Ready socks5ReadConnect
      (fun result w => ∃ r : Request, result = (r.address.host, r.port.val) ∧ w = r.wire) := by
  unfold socks5ReadConnect
  refine ((readFull_recognizes 4 .requestHeader).bind fun header =>
    .guard (fun c a c' h => by cases h) fun _ =>
      .guard (outcome_write_throw _ _) fun _ => (readAddress_recognizes _).bind fun host =>
        (readFull_recognizes 2 .port).bind fun portBuf => .pure _).congr ?_
  intro result w
  constructor
  · rintro ⟨header, front, back, ⟨rfl, hlen⟩, ⟨hver, hcmd, host, front', back',
      ⟨a, hatyp, rfl, rfl⟩, ⟨portBuf, front'', back'', ⟨rfl, hport⟩, ⟨rfl, rfl⟩, rfl⟩, rfl⟩, rfl⟩
    obtain ⟨hlt, hbytes⟩ := bigEndian_ofBigEndian hport
    obtain ⟨ver, cmd, rsv, atyp, rfl⟩ : ∃ ver cmd rsv atyp, header = [ver, cmd, rsv, atyp] := by
      match header, hlen with
      | [ver, cmd, rsv, atyp], _ => exact ⟨ver, cmd, rsv, atyp, rfl⟩
    simp only [List.getD_cons_zero, List.getD_cons_succ, not_not] at hver hcmd hatyp
    refine ⟨⟨rsv, a, ⟨ofBigEndian portBuf, hlt⟩⟩, rfl, ?_⟩
    simp [Request.wire, hver, hcmd, hatyp, hbytes]
  · rintro ⟨⟨rsv, a, port⟩, rfl, rfl⟩
    have hport : ofBigEndian (bigEndian 2 port.val) = port.val := ofBigEndian_bigEndian port.isLt
    refine ⟨[socks5Version, socks5CmdConnect, rsv, a.atyp], _, a.wire ++ bigEndian 2 port,
      ⟨rfl, rfl⟩, ⟨by simp, by simp, a.host, a.wire, bigEndian 2 port, ⟨a, by simp, rfl, rfl⟩,
        ⟨bigEndian 2 port, _, [], ⟨rfl, length_bigEndian 2 _⟩, ⟨by rw [hport], rfl⟩,
          (List.append_nil _).symm⟩, rfl⟩, ?_⟩
    simp [Request.wire]

theorem accept_recognizes :
    Recognizes view Ready accept (fun result w => ∃ (g : Greeting) (r : Request),
      socks5AuthNone ∈ g.methods ∧ result = (r.address.host, r.port.val) ∧
        w = g.wire ++ r.wire) := by
  refine (socks5Handshake_recognizes.bind fun _ => socks5ReadConnect_recognizes).congr ?_
  intro result w
  constructor
  · rintro ⟨_, _, _, ⟨g, hnone, rfl⟩, ⟨r, hresult, rfl⟩, rfl⟩
    exact ⟨g, r, hnone, hresult, rfl⟩
  · rintro ⟨g, r, hnone, hresult, rfl⟩
    exact ⟨(), _, _, ⟨g, hnone, rfl⟩, ⟨r, hresult, rfl⟩, rfl⟩

end Recognition

section Replies

/-- Whatever is sent meanwhile, with how the computation ends, is as told. -/
def Sends {α : Type} (x : Parser α) (P : Except Failure α → Bytes → Prop) : Prop :=
  ∀ c, ∃ w, (outcome x c).2.sent = c.sent ++ w ∧ P (outcome x c).1 w

namespace Sends
variable {α β : Type}

theorem mono {x : Parser α} {P Q : Except Failure α → Bytes → Prop} (hx : Sends x P)
    (h : ∀ result w, P result w → Q result w) : Sends x Q := by
  intro c
  obtain ⟨w, hsent, hw⟩ := hx c
  exact ⟨w, hsent, h _ w hw⟩

theorem bind {x : Parser α} {f : α → Parser β} {P : Except Failure α → Bytes → Prop}
    {Q : α → Except Failure β → Bytes → Prop} (hx : Sends x P) (hf : ∀ a, Sends (f a) (Q a)) :
    Sends (x >>= f) (fun result w => (∃ e, result = .error e ∧ P (.error e) w) ∨
      ∃ a front back, P (.ok a) front ∧ Q a result back ∧ w = front ++ back) := by
  intro c
  obtain ⟨front, hfront, hP⟩ := hx c
  rw [outcome_bind]
  generalize outcome x c = out at hfront hP ⊢
  obtain ⟨e | a, c'⟩ := out
  · exact ⟨front, hfront, .inl ⟨e, rfl, hP⟩⟩
  · obtain ⟨back, hback, hQ⟩ := hf a c'
    refine ⟨front ++ back, ?_, .inr ⟨a, front, back, hP, hQ, rfl⟩⟩
    exact hback.trans ((congrArg (· ++ back) hfront).trans (List.append_assoc _ _ _))

theorem fail (e : Failure) :
    Sends (throw e : Parser α) (fun result w => result = .error e ∧ w = []) :=
  fun _ => ⟨[], (List.append_nil _).symm, rfl, rfl⟩

theorem readFull (size : ℕ) (field : Field) :
    Sends (readFull size field) (fun _ w => w = []) := by
  intro c
  rw [outcome_readFull]
  exact ⟨[], (List.append_nil _).symm, rfl⟩

theorem silent_bind {x : Parser α} {f : α → Parser β} {Q : Except Failure β → Bytes → Prop}
    (hx : Sends x (fun _ w => w = [])) (hf : ∀ a, Sends (f a) Q)
    (herror : ∀ e, Q (.error e) []) : Sends (x >>= f) Q := by
  refine (hx.bind hf).mono ?_
  rintro result w (⟨e, rfl, rfl⟩ | ⟨a, front, back, rfl, hQ, rfl⟩)
  · exact herror e
  · exact hQ

theorem write (p : Bytes) : Sends (write p)
    (fun result w => ∃ written, result = .ok written ∧ w <+: p ∧ (written = true → w = p)) := by
  intro c
  rw [outcome_write]
  split
  case h_1 n rest _ => exact ⟨p.take n, rfl, false, rfl, List.take_prefix n p, by simp⟩
  case h_2 => exact ⟨p, rfl, true, rfl, List.prefix_rfl, fun _ => rfl⟩

theorem write_fail (p : Bytes) (e : Failure) : Sends
    (Socks5.write p >>= fun _ => throw e : Parser α)
    (fun result w => result = .error e ∧ w <+: p) := by
  refine ((write p).bind fun _ => fail e).mono ?_
  rintro result w (⟨e, rfl, written, h, -⟩ | ⟨a, front, back, ⟨written, -, hw, -⟩, ⟨rfl, rfl⟩, rfl⟩)
  · cases h
  · rw [List.append_nil]
    exact ⟨rfl, hw⟩

end Sends

/-- What the negotiation answers: the accepted method if it succeeds, and otherwise at most a
part of that answer, or the refusal of every method. -/
def HandshakeReply (result : Except Failure Unit) (w : Bytes) : Prop :=
  match result with
  | .ok _ => w = [socks5Version, socks5AuthNone]
  | .error _ => w <+: [socks5Version, socks5AuthNone] ∨ w <+: [socks5Version, socks5AuthNoAccpt]

theorem socks5Handshake_sends : Sends socks5Handshake HandshakeReply := by
  have hnothing : ∀ e, HandshakeReply (.error e) [] := fun e => .inl List.nil_prefix
  have hfail : ∀ e, Sends (throw e) HandshakeReply := by
    intro e
    refine (Sends.fail e).mono ?_
    rintro result w ⟨rfl, rfl⟩
    exact hnothing e
  unfold socks5Handshake
  refine (Sends.readFull 2 .methodHeader).silent_bind (fun header => ?_) hnothing
  split_ifs
  · exact hfail _
  · exact hfail _
  refine (Sends.readFull _ .methods).silent_bind (fun methods => ?_) hnothing
  split_ifs
  · refine ((Sends.write _).bind
      (Q := fun written result w => w = [] ∧ (result = .ok () → written = true)) ?_).mono ?_
    · intro written c
      cases written
      · exact ⟨[], (List.append_nil _).symm, rfl, fun h => by cases h⟩
      · exact ⟨[], (List.append_nil _).symm, rfl, fun _ => rfl⟩
    · rintro result w (⟨e, rfl, written, h, -⟩ |
        ⟨a, front, back, ⟨written, h, hw, hall⟩, ⟨rfl, hok⟩, rfl⟩)
      · cases h
      · obtain rfl := Except.ok.inj h
        rw [List.append_nil]
        cases result with
        | error e => exact .inl hw
        | ok _ => exact hall (hok rfl)
  · refine (Sends.write_fail _ _).mono ?_
    rintro result w ⟨rfl, hw⟩
    exact .inr hw

/-- What `socks5ReadConnect` answers: at most a refusal, and nothing if it succeeds. -/
def ConnectReply {α : Type} (result : Except Failure α) (w : Bytes) : Prop :=
  match result with
  | .ok _ => w = []
  | .error _ => w <+: reply socks5RepCmdNotSupported ∨ w <+: reply socks5RepAddrNotSupp

theorem connectReply_nil {α : Type} (result : Except Failure α) : ConnectReply result [] := by
  cases result with
  | error e => exact .inl List.nil_prefix
  | ok _ => rfl

theorem silent_connectReply {α : Type} {x : Parser α} (h : Sends x fun _ w => w = []) :
    Sends x ConnectReply := by
  refine h.mono ?_
  rintro result w rfl
  exact connectReply_nil result

theorem readAddress_sends (atyp : UInt8) : Sends (readAddress atyp) ConnectReply := by
  have hpure : ∀ host : Bytes, Sends (pure host) fun _ w => w = [] :=
    fun host c => ⟨[], (List.append_nil _).symm, rfl⟩
  unfold readAddress
  split_ifs
  · exact silent_connectReply
      ((Sends.readFull 4 .ipv4Addr).silent_bind (fun _ => hpure _) fun _ => rfl)
  · refine silent_connectReply
      ((Sends.readFull 1 .domainLength).silent_bind (fun lenBuf => ?_) fun _ => rfl)
    split_ifs
    · exact (Sends.fail _).mono fun _ _ h => h.2
    · exact Sends.readFull _ .domain
  · exact silent_connectReply
      ((Sends.readFull 16 .ipv6Addr).silent_bind (fun _ => hpure _) fun _ => rfl)
  · refine (Sends.write_fail _ _).mono ?_
    rintro result w ⟨rfl, hw⟩
    exact .inr hw

theorem socks5ReadConnect_sends : Sends socks5ReadConnect ConnectReply := by
  unfold socks5ReadConnect
  refine (Sends.readFull 4 .requestHeader).silent_bind (fun header => ?_) fun _ =>
    connectReply_nil _
  split_ifs
  · exact silent_connectReply ((Sends.fail _).mono fun _ _ h => h.2)
  · refine (Sends.write_fail _ _).mono ?_
    rintro result w ⟨rfl, hw⟩
    exact .inl hw
  · refine ((readAddress_sends _).bind (Q := fun _ _ w => w = []) fun host =>
      (Sends.readFull 2 .port).silent_bind
        (fun _ c => ⟨[], (List.append_nil _).symm, rfl⟩) fun _ => rfl).mono ?_
    rintro result w (⟨e, rfl, hw⟩ | ⟨host, front, back, hfront, rfl, rfl⟩)
    · exact hw
    · rw [hfront]
      exact connectReply_nil result

/-- Everything that may be sent when a request is not accepted. -/
def Refusal (w : Bytes) : Prop :=
  w <+: [socks5Version, socks5AuthNoAccpt] ∨
    ∃ rep ∈ [socks5RepCmdNotSupported, socks5RepAddrNotSupp],
      w <+: [socks5Version, socks5AuthNone] ++ reply rep

theorem accept_sends : Sends accept (fun result w =>
    match result with
    | .ok _ => w = [socks5Version, socks5AuthNone]
    | .error _ => Refusal w) := by
  refine (socks5Handshake_sends.bind fun _ => socks5ReadConnect_sends).mono ?_
  rintro result w (⟨e, rfl, hw⟩ | ⟨_, front, back, rfl, hback, rfl⟩)
  · obtain hw | hw := hw
    · exact .inr ⟨_, List.mem_cons_self, hw.trans (List.prefix_append _ _)⟩
    · exact .inl hw
  · cases result with
    | ok _ =>
      obtain rfl := hback
      rfl
    | error e =>
      obtain hback | hback := hback
      · exact .inr ⟨_, List.mem_cons_self, (List.prefix_append_right_inj _).mpr hback⟩
      · exact .inr ⟨_, List.mem_cons_of_mem _ List.mem_cons_self,
          (List.prefix_append_right_inj _).mpr hback⟩

end Replies

/-- A connection is accepted exactly when its bytes, in whatever chunks they arrive, begin with
a greeting that offers the method without authentication and a CONNECT request; only those
bytes are consumed, only the method is answered, and a success is never announced. -/
theorem socks5_exchange_exact (c : Conn) :
    (∀ host port c', outcome accept c = (.ok (host, port), c') →
      c'.sent = c.sent ++ [socks5Version, socks5AuthNone] ∧ ∃ (g : Greeting) (r : Request),
        socks5AuthNone ∈ g.methods ∧ host = r.address.host ∧ port = r.port.val ∧
          available c.input = g.wire ++ r.wire ++ available c'.input) ∧
      (Ready c → ∀ (g : Greeting) (r : Request) (rest : Bytes), socks5AuthNone ∈ g.methods →
        available c.input = g.wire ++ r.wire ++ rest →
          ∃ c', outcome accept c = (.ok (r.address.host, r.port.val), c') ∧
            available c'.input = rest) ∧
      ∀ e c', outcome accept c = (.error e, c') → ∃ w, c'.sent = c.sent ++ w ∧ Refusal w := by
  obtain ⟨w, hsent, hw⟩ := accept_sends c
  refine ⟨?_, ?_, ?_⟩
  · intro host port c' h
    obtain ⟨wire, ⟨g, r, hnone, hresult, rfl⟩, hview⟩ := accept_recognizes.sound h
    rw [h] at hsent hw
    obtain rfl := hw
    exact ⟨hsent, g, r, hnone, congrArg Prod.fst hresult, congrArg Prod.snd hresult, hview⟩
  · intro hready g r rest hnone hview
    obtain ⟨c', h, hrest, -⟩ :=
      accept_recognizes.complete hready ⟨g, r, hnone, rfl, rfl⟩ hview
    exact ⟨c', h, hrest⟩
  · intro e c' h
    rw [h] at hsent hw
    exact ⟨w, hsent, hw⟩

/-- A request for port 443 of the host `h`, in three chunks, with a first byte of data. -/
def httpsRequest : Conn where
  input := [.data [5, 2, 2, 0], .data [5, 1, 0], .data [3, 1, 104, 1, 187, 22]]
  sent := []
  writes := []

def httpsAccepted : Conn where
  input := [.data [22]]
  sent := [5, 0]
  writes := []

theorem socks5_exchange_exact_https :
    outcome accept httpsRequest = (.ok ([104], 443), httpsAccepted) ∧
      httpsAccepted.sent = httpsRequest.sent ++ [socks5Version, socks5AuthNone] := by
  have haccept : outcome accept httpsRequest = (.ok ([104], 443), httpsAccepted) := rfl
  exact ⟨haccept, ((socks5_exchange_exact httpsRequest).1 _ _ _ haccept).1⟩

end NexusProxy.Client.Socks5
