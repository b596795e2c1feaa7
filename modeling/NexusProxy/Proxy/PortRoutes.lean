import NexusProxy.Hub.Handshake
import NexusProxy.Hub.Registry
import NexusProxy.Proxy.Listener

/-! Port-claim pools share one map with the pools of hostnames. Which backends a port pool
holds, and which connections reach it. -/
namespace NexusProxy.Hub
open Hostnames Protocol

def Backend.ClaimsPort (b : Backend) : Transport → ℤ → Prop
  | .tcp, port => port ∈ b.tcpPorts
  | .udp, port => ∃ route ∈ b.udpRoutes, route.port = port

theorem Backend.ClaimsPort.mem_exactKeys {b : Backend} {t : Transport} {port : ℤ}
    (h : b.ClaimsPort t port) (u : Unicode) : routeKey t port ∈ b.exactKeys u := by
  unfold Backend.exactKeys
  cases t with
  | tcp =>
    apply List.mem_append_left
    apply List.mem_append_right
    exact List.mem_map_of_mem h
  | udp =>
    obtain ⟨route, hroute, rfl⟩ := h
    apply List.mem_append_right
    exact List.mem_map_of_mem (f := fun route => routeKey .udp route.port) hroute

theorem Backend.claimsPort_of_mem_exactKeys {b : Backend} {u : Unicode} {t : Transport} {port : ℤ}
    (hnames : ∀ n ∈ b.hostnames, ¬Reserved n) (h : routeKey t port ∈ b.exactKeys u) :
    b.ClaimsPort t port := by
  unfold Backend.exactKeys at h
  rcases List.mem_append.mp h with h | h
  · rcases List.mem_append.mp h with h | h
    · have hname := hnames _ (List.mem_of_mem_filter h)
      exact absurd ⟨t, List.prefix_append _ _⟩ hname
    · obtain ⟨p, hp, heq⟩ := List.mem_map.mp h
      obtain ⟨rfl, rfl⟩ := routeKey_injective heq
      exact hp
  · obtain ⟨route, hroute, heq⟩ := List.mem_map.mp h
    obtain ⟨rfl, rfl⟩ := routeKey_injective heq
    exact ⟨route, hroute, rfl⟩

variable {f : FloatAbs}

def System.PortClaimed (s : System f) (t : Transport) (port : ℤ) : Prop :=
  ∃ b ∈ s.registered, b.ClaimsPort t port

theorem System.Consistent.port_pool {u : Unicode} {s : System f} (h : s.Consistent u)
    (hnames : ∀ b ∈ s.registered, ∀ n ∈ b.hostnames, ¬Reserved n) {t : Transport} {port : ℤ}
    {b : Backend} (hb : b ∈ s.hub.pools.contents (routeKey t port)) :
    b ∈ s.registered ∧ b.ClaimsPort t port := by
  obtain ⟨hreg, hkey⟩ := (h.exact.mem_contents _ _).mp hb
  exact ⟨hreg, b.claimsPort_of_mem_exactKeys (hnames b hreg) hkey⟩

theorem System.Consistent.select_port {u : Unicode} {s : System f} (h : s.Consistent u)
    {t : Transport} {port : ℤ} (hclaim : s.PortClaimed t port) :
    ∃ b ∈ s.hub.pools.contents (routeKey t port),
      (s.hub.selectBackend u (routeKey t port)).1 = .ok b := by
  obtain ⟨c, hc, hport⟩ := hclaim
  obtain ⟨b, hb, hkey, hsel⟩ := h.select_exact ⟨c, hc, hport.mem_exactKeys u⟩
  exact ⟨b, (h.exact.mem_contents _ _).mpr ⟨hb, hkey⟩, hsel⟩

end NexusProxy.Hub

namespace NexusProxy.Proxy
open Hostnames Hub Protocol Readers

/-- The canonical name of the host that a request is for, without a port. -/
def Request.hostName (u : Unicode) (req : Request) : List Char :=
  normalize u (match splitHostPort req.anyHost with
    | some (h, _) => h
    | none => req.anyHost)

/-- The path of a request's URL, `/` by default. -/
def Request.urlPath (req : Request) : List Char :=
  let path :=
    match req.url with
    | some url => url.path
    | none => []
  if path = [] then ['/'] else path

theorem requestPeek_named {u : Unicode} {req : Request} {captured : LimitedCapture}
    (hover : captured.overflow = false) (hhost : req.anyHost ≠ []) :
    requestPeek u (some req) captured =
      ⟨req.hostName u, req.urlPath, captured.buf, none⟩ := by
  simp only [requestPeek, hover, hhost, Bool.false_eq_true, if_false]
  rfl

theorem requestPeek_err {u : Unicode} {result : Option Request} {captured : LimitedCapture}
    (h : (requestPeek u result captured).err = none) :
    captured.overflow = false ∧ ∃ req, result = some req ∧ req.anyHost ≠ [] := by
  cases hover : captured.overflow with
  | true => simp [requestPeek, hover] at h
  | false =>
    refine ⟨rfl, ?_⟩
    cases result with
    | none =>
      by_cases hnil : captured.buf = [] <;> simp [requestPeek, hover, hnil] at h
    | some req =>
      refine ⟨req, rfl, ?_⟩
      intro hhost
      simp [requestPeek, hover, hhost] at h

namespace Listener
variable {B P : Type*}

/-- The listener in front of a hub. -/
def onHub {f : FloatAbs} (l : Listener B P) (h : HubImpl f) : Listener Backend P where
  unicode := l.unicode
  handshake := l.handshake
  readRequest := l.readRequest
  hubPublicHostname := l.hubPublicHostname
  acmeHandler := l.acmeHandler
  selectBackend key := (h.selectBackend l.unicode key).1.toOption
  getPeerForHostname := l.getPeerForHostname

variable (l : Listener B P)

def readRequestOn (conn : NetConn) : Option Request × NetConn × LimitedCapture :=
  readRequestEnd l.readRequest (l.reinstated conn) httpPreludeCap

/-- The request is an ACME challenge that the relay answers itself. -/
def Intercepts (localPort : ℕ) (req : Request) : Prop :=
  req.hostName l.unicode ≠ [] ∧ l.acmeHandler = true ∧
    req.hostName l.unicode = normalize l.unicode l.hubPublicHostname ∧ localPort = 80 ∧
    acmeChallengePath <+: req.urlPath

/-- The SNI of the connection stands for `name`. -/
def AsksBySNI (conn : NetConn) (name : List Char) : Prop :=
  (l.peekTLS conn).1.truncated = false ∧ (l.peekTLS conn).1.err = none ∧
    normalize l.unicode (l.peekTLS conn).1.sni = name

/-- Without an SNI, the Host value of the connection stands for `name`. -/
def AsksByHost (localPort : ℕ) (conn : NetConn) (name : List Char) : Prop :=
  (l.peekTLS conn).1.truncated = false ∧ (l.peekTLS conn).1.err ≠ none ∧
    (l.readRequestOn conn).2.2.overflow = false ∧
    ∃ req, (l.readRequestOn conn).1 = some req ∧ req.anyHost ≠ [] ∧
      ¬l.Intercepts localPort req ∧ req.hostName l.unicode = name

/-- The client supplies neither an SNI nor a Host value. -/
def Nameless (conn : NetConn) : Prop :=
  (l.peekTLS conn).1.sni = [] ∧ ∀ req, (l.readRequestOn conn).1 = some req → req.anyHost = []

theorem peekHTTP_eq (conn : NetConn) :
    (l.peekHTTP conn).1 =
      requestPeek l.unicode (l.readRequestOn conn).1 (l.readRequestOn conn).2.2 := rfl

theorem sniff_of_sni {conn : NetConn} {name : List Char} (h : l.AsksBySNI conn name)
    (localPort : ℕ) :
    ∃ prelude isTLS rest, l.sniff localPort conn = .route name prelude isTLS rest := by
  obtain ⟨htrunc, herr, hname⟩ := h
  have hsni := (l.peekTLS_err conn).mp herr
  exact ⟨(l.peekTLS conn).1.prelude, true, (l.peekTLS conn).2, by
    simp [sniff, htrunc, herr, hsni, hname]⟩

theorem sniff_of_host {localPort : ℕ} {conn : NetConn} {name : List Char}
    (h : l.AsksByHost localPort conn name) :
    ∃ prelude isTLS rest, l.sniff localPort conn =
      .route (if name = [] then routeKey .tcp localPort else name) prelude isTLS rest := by
  obtain ⟨htrunc, herr, hover, req, hreq, hhost, hacme, hname⟩ := h
  have hpeek : (l.peekHTTP conn).1 =
      ⟨name, req.urlPath, (l.readRequestOn conn).2.2.buf, none⟩ := by
    rw [peekHTTP_eq, hreq, requestPeek_named hover hhost, hname]
  have htls : ¬((l.peekTLS conn).1.err = none ∧ (l.peekTLS conn).1.sni ≠ []) := fun h => herr h.1
  unfold Intercepts at hacme
  rw [hname] at hacme
  unfold sniff
  dsimp only
  rw [hpeek, if_neg (by simp [htrunc]), if_neg htls]
  by_cases hnil : name = []
  · rw [if_neg fun h => h.2 hnil, if_neg (by simp), if_pos hnil]
    exact ⟨_, _, _, rfl⟩
  · rw [if_pos ⟨rfl, hnil⟩, if_neg fun h => hacme ⟨hnil, h⟩, if_neg hnil]
    exact ⟨_, _, _, rfl⟩

/-- Where the HTTP sniff finds a host, it is that of a request. -/
theorem peekHTTP_named {conn : NetConn} (h : (l.peekHTTP conn).1.err = none) :
    (l.readRequestOn conn).2.2.overflow = false ∧
      ∃ req, (l.readRequestOn conn).1 = some req ∧ req.anyHost ≠ [] ∧
        (l.peekHTTP conn).1 =
          ⟨req.hostName l.unicode, req.urlPath, (l.readRequestOn conn).2.2.buf, none⟩ := by
  rw [peekHTTP_eq] at h ⊢
  obtain ⟨hover, req, hreq, hhost⟩ := requestPeek_err h
  refine ⟨hover, req, hreq, hhost, ?_⟩
  rw [hreq]
  exact requestPeek_named hover hhost

/-- Where it finds none, the client has supplied no Host value. -/
theorem peekHTTP_hostless {conn : NetConn} (h : (l.peekHTTP conn).1.err ≠ none)
    (hlarge : (l.peekHTTP conn).1.err ≠ some .preludeTooLarge) :
    ∀ req, (l.readRequestOn conn).1 = some req → req.anyHost = [] := by
  intro req hreq
  by_contra hhost
  rw [peekHTTP_eq, hreq] at h hlarge
  obtain ⟨hover, -⟩ := requestPeek_prelude hlarge
  apply h
  rw [requestPeek_named hover hhost]

/-- A routed connection that asks for no name is nameless, and goes to the pool of its
port. -/
theorem sniff_of_nameless {localPort : ℕ} {conn rest : NetConn} {key : List Char}
    {prelude : Bytes} {isTLS : Bool} (hs : l.sniff localPort conn = .route key prelude isTLS rest)
    (hsni : ∀ name, ¬l.AsksBySNI conn name) (hhost : ∀ name, ¬l.AsksByHost localPort conn name) :
    key = routeKey .tcp localPort ∧ l.Nameless conn := by
  unfold sniff at hs
  dsimp only at hs
  split_ifs at hs with htrunc htls hok hacme hlarge
  · exact absurd ⟨(Bool.not_eq_true _).mp htrunc, htls.1, rfl⟩ (hsni _)
  · have herr := fun hnone => htls ⟨hnone, (l.peekTLS_err conn).mp hnone⟩
    obtain ⟨hover, req, hreq, hreqHost, hpeek⟩ := l.peekHTTP_named hok.1
    rw [hpeek] at hacme
    exact absurd ⟨(Bool.not_eq_true _).mp htrunc, herr, hover, req, hreq, hreqHost,
      fun hi => hacme hi.2, rfl⟩ (hhost _)
  · have herr := fun hnone => htls ⟨hnone, (l.peekTLS_err conn).mp hnone⟩
    have hnosni : (l.peekTLS conn).1.sni = [] := by
      by_contra hne
      exact herr ((l.peekTLS_err conn).mpr hne)
    cases hs
    refine ⟨rfl, hnosni, ?_⟩
    by_cases hnone : (l.peekHTTP conn).1.err = none
    · obtain ⟨hover, req, hreq, hreqHost, hpeek⟩ := l.peekHTTP_named hnone
      have hempty : req.hostName l.unicode = [] := by
        by_contra hne
        apply hok
        rw [hpeek]
        exact ⟨rfl, hne⟩
      exact absurd ⟨(Bool.not_eq_true _).mp htrunc, herr, hover, req, hreq, hreqHost,
        fun hi => hi.1 hempty, rfl⟩ (hhost _)
    · exact l.peekHTTP_hostless hnone hlarge

theorem AsksBySNI.not_nameless {conn : NetConn} {name : List Char} (h : l.AsksBySNI conn name) :
    ¬l.Nameless conn := by
  intro hno
  exact (l.peekTLS_err conn).mp h.2.1 hno.1

theorem AsksByHost.not_nameless {localPort : ℕ} {conn : NetConn} {name : List Char}
    (h : l.AsksByHost localPort conn name) : ¬l.Nameless conn := by
  intro hno
  obtain ⟨-, -, -, req, hreq, hhost, -⟩ := h
  exact hhost (hno.2 req hreq)

section
variable {f : FloatAbs} {s : System f} {localPort : ℕ} {conn : NetConn}

/-- A backend of a port pool is given the connection only for the port that the connection
came in on, and only if the client supplies no name. -/
def RoutesApart (s : System f) (localPort : ℕ) (conn : NetConn) : Prop :=
  ∀ b key prelude isTLS rest,
    (l.onHub s.hub).handleConnection localPort conn = .backend b key prelude isTLS rest →
    ∀ t port, key = routeKey t port → b ∈ s.hub.pools.contents key →
      t = .tcp ∧ port = localPort ∧ l.Nameless conn

/-- The name that the client supplies is the route key of a claimed port, or it is a Host
value with an empty name and the port of the connection is claimed. -/
def Leaks (s : System f) (localPort : ℕ) (conn : NetConn) : Prop :=
  (∃ t port, s.PortClaimed t port ∧
    (l.AsksBySNI conn (routeKey t port) ∨ l.AsksByHost localPort conn (routeKey t port))) ∨
  s.PortClaimed .tcp localPort ∧ l.AsksByHost localPort conn []

variable {l}

theorem onHub_dispatches (h : s.Consistent l.unicode) {t : Transport} {port : ℤ}
    (hclaim : s.PortClaimed t port)
    (hroute : ∃ prelude isTLS rest,
      l.sniff localPort conn = .route (routeKey t port) prelude isTLS rest) :
    ∃ b ∈ s.hub.pools.contents (routeKey t port), ∃ prelude isTLS rest,
      (l.onHub s.hub).handleConnection localPort conn =
        .backend b (routeKey t port) prelude isTLS rest := by
  obtain ⟨b, hb, hsel⟩ := h.select_port hclaim
  obtain ⟨prelude, isTLS, rest, hsniff⟩ := hroute
  have hsniff :
      (l.onHub s.hub).sniff localPort conn = .route (routeKey t port) prelude isTLS rest :=
    hsniff
  have hok : (l.onHub s.hub).selectBackend (routeKey t port) = some b := by
    change (s.hub.selectBackend l.unicode (routeKey t port)).1.toOption = some b
    rw [hsel]
    rfl
  refine ⟨b, hb, prelude, isTLS, rest, ?_⟩
  rw [handleConnection, hsniff]
  dsimp only
  rw [hok]

theorem RoutesApart.not_leaks (h : s.Consistent l.unicode)
    (happart : l.RoutesApart s localPort conn) :
    ¬l.Leaks s localPort conn := by
  have hnameless {t : Transport} {port : ℤ} (hclaim : s.PortClaimed t port)
      (hroute : ∃ prelude isTLS rest,
        l.sniff localPort conn = .route (routeKey t port) prelude isTLS rest) :
      l.Nameless conn := by
    obtain ⟨b, hb, prelude, isTLS, rest, hback⟩ := onHub_dispatches h hclaim hroute
    exact (happart b _ prelude isTLS rest hback t port rfl hb).2.2
  rintro (⟨t, port, hclaim, hsni | hhost⟩ | ⟨hclaim, hhost⟩)
  · exact hsni.not_nameless l (hnameless hclaim (l.sniff_of_sni hsni localPort))
  · have hroute := l.sniff_of_host hhost
    rw [if_neg (routeKey_ne_nil t port)] at hroute
    exact hhost.not_nameless l (hnameless hclaim hroute)
  · have hroute := l.sniff_of_host hhost
    rw [if_pos rfl] at hroute
    exact hhost.not_nameless l (hnameless hclaim hroute)

theorem routesApart_of_not_leaks (h : s.Consistent l.unicode)
    (hnames : ∀ b ∈ s.registered, ∀ n ∈ b.hostnames, ¬Reserved n)
    (hleaks : ¬l.Leaks s localPort conn) : l.RoutesApart s localPort conn := by
  intro b key prelude isTLS rest hback t port hkey hb
  obtain ⟨hsniff, -⟩ := (l.onHub s.hub).handleConnection_backend hback
  have hsniff : l.sniff localPort conn = .route key prelude isTLS rest := hsniff
  subst hkey
  obtain ⟨hreg, hport⟩ := h.port_pool hnames hb
  have hclaim : s.PortClaimed t port := ⟨b, hreg, hport⟩
  by_cases hsni : ∃ name, l.AsksBySNI conn name
  · obtain ⟨name, hsni⟩ := hsni
    obtain ⟨_, _, _, hroute⟩ := l.sniff_of_sni hsni localPort
    rw [hsniff] at hroute
    cases hroute
    exact absurd (Or.inl ⟨t, port, hclaim, Or.inl hsni⟩) hleaks
  by_cases hhost : ∃ name, l.AsksByHost localPort conn name
  · obtain ⟨name, hhost⟩ := hhost
    obtain ⟨_, _, _, hroute⟩ := l.sniff_of_host hhost
    rw [hsniff] at hroute
    split_ifs at hroute with hnil
    · have hkey : routeKey t port = routeKey .tcp localPort := by
        injection hroute
      obtain ⟨rfl, rfl⟩ := routeKey_injective hkey
      rw [hnil] at hhost
      exact absurd (Or.inr ⟨hclaim, hhost⟩) hleaks
    · cases hroute
      exact absurd (Or.inl ⟨t, port, hclaim, Or.inr hhost⟩) hleaks
  · obtain ⟨hkey, hnameless⟩ :=
      l.sniff_of_nameless hsniff (not_exists.mp hsni) (not_exists.mp hhost)
    obtain ⟨rfl, rfl⟩ := routeKey_injective hkey
    exact ⟨rfl, rfl, hnameless⟩

/-- Port pools hold port claims only, and connections reach them only as the port-claim
route intends, exactly when the name that the client supplies does not lead there. -/
theorem port_pools_apart {calls : List Call}
    (hrun : Transition.run (System.step l.unicode) System.start calls = some s)
    (haccepted : ∀ b ∈ s.registered, ∃ env, b.Accepted env) (localPort : ℕ) (conn : NetConn) :
    (∀ t port, ∀ b ∈ s.hub.pools.contents (routeKey t port), b.ClaimsPort t port) ∧
      (l.RoutesApart s localPort conn ↔ ¬l.Leaks s localPort conn) := by
  have h := System.run_consistent l.unicode hrun
  have hnames : ∀ b ∈ s.registered, ∀ n ∈ b.hostnames, ¬Reserved n := by
    intro b hb
    obtain ⟨env, henv⟩ := haccepted b hb
    exact henv.hostnames
  constructor
  · intro t port b hb
    exact (h.port_pool hnames hb).2
  · exact ⟨fun happart => happart.not_leaks h, routesApart_of_not_leaks h hnames⟩

end

end Listener

def mailEnv : Environment where
  unicode := plainNames
  format := ⟨id, itoa⟩
  config :=
    { allowedTCPPortClaims := [25]
      allowedUDPPortClaims := [53]
      udpFlowIdleTimeoutDefaultSeconds := 0
      udpFlowIdleTimeoutMinSeconds := 0
      udpFlowIdleTimeoutMaxSeconds := 0
      allowOutbound := false
      allowedOutboundPorts := [] }
  parseURL := fun _ => .error []
  now := 0

def mailClaims : Claims where
  hostnames := []
  tcpPorts := [25]
  udpRoutes := [⟨53, none⟩]
  weight := 0
  weight_lt := no_weight_lt
  sessionNonce := ['x']
  handshakeMaxAgeSeconds := none
  reauthIntervalSeconds := none
  reauthGraceSeconds := none
  maintenanceGraceCapSeconds := none
  authorizerStatusURI := []
  policyVersion := []
  outboundAllowed := false
  allowedOutboundPorts := []
  issuedAt := none

def mailHolder : Backend where
  id := ['m']
  hostnames := []
  tcpPorts := [25]
  udpRoutes := [⟨53, 30 * 10 ^ 9⟩]
  weight := 1
  weight_pos := one_weight_pos
  weight_lt := one_weight_lt

theorem mailHolder_accepted : mailHolder.Accepted mailEnv :=
  ⟨mailClaims, mailClaims, ['x'], _, rfl, rfl⟩

theorem port_pools_apart_greeting :
    ∃ s : System exactAbs, Transition.run (System.step plainNames) System.start
        [.register mailHolder] = some s ∧
      (∀ b ∈ s.hub.pools.contents (routeKey .tcp 25), b.ClaimsPort .tcp 25) ∧
      (Listener.portClaimed none).RoutesApart s 25 (.tcp [.data [5, 1]]) := by
  have hex : ∃ s : System exactAbs, Transition.run (System.step plainNames) System.start
      [.register mailHolder] = some s ∧ s.registered = [mailHolder] :=
    Transition.exists_run_of_any (by decide +kernel)
  obtain ⟨s, hrun, hreg⟩ := hex
  have haccepted : ∀ b ∈ s.registered, ∃ env, b.Accepted env := by
    intro b hb
    rw [hreg, List.mem_singleton] at hb
    exact ⟨mailEnv, hb ▸ mailHolder_accepted⟩
  have happart := Listener.port_pools_apart (l := Listener.portClaimed none) hrun haccepted 25
    (.tcp [.data [5, 1]])
  have hsni (name : List Char) :
      ¬(Listener.portClaimed none).AsksBySNI (.tcp [.data [5, 1]]) name := by
    intro h
    exact absurd h.2.1 (by decide +kernel)
  have hhost (name : List Char) :
      ¬(Listener.portClaimed none).AsksByHost 25 (.tcp [.data [5, 1]]) name := by
    rintro ⟨-, -, -, req, hreq, -⟩
    have hnone : ((Listener.portClaimed none).readRequestOn (.tcp [.data [5, 1]])).1 = none := by
      decide +kernel
    rw [hnone] at hreq
    cases hreq
  refine ⟨s, hrun, happart.1 .tcp 25, happart.2.mpr ?_⟩
  rintro (⟨t, port, -, h | h⟩ | ⟨-, h⟩)
  · exact hsni _ h
  · exact hhost _ h
  · exact hhost _ h

def helloFor (name : List Char) : Listener Unit Unit :=
  { Listener.portClaimed none with handshake := .read 517 fun _ => .done ⟨some name, false⟩ }

/-- The SNI `udp:53` takes a TLS connection on port 443 to the pool of a UDP port. -/
theorem sni_reaches_udp_pool :
    mailHolder.Accepted mailEnv ∧
      ∃ s : System exactAbs, Transition.run (System.step plainNames) System.start
          [.register mailHolder] = some s ∧
        mailHolder ∈ s.hub.pools.contents (routeKey .udp 53) ∧
        ((helloFor "udp:53".toList).onHub s.hub).handleConnection 443 (.tcp [.data [22, 3, 1]]) =
          .backend mailHolder (routeKey .udp 53) [22, 3, 1] true (.tcp []) :=
  ⟨mailHolder_accepted, Transition.exists_run_of_any (by decide +kernel)⟩

end NexusProxy.Proxy
