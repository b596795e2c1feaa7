import NexusProxy.Hub.Handshake
import NexusProxy.Proxy.Sniff

/-! The attested part of a backend's session: how `NewBackend` starts it, how `applyClaims`
renews it at each reauthentication, and what `handleOutboundConnect` lets it dial. -/
namespace NexusProxy.Hub
open Checks FixedWidth Protocol Proxy

/-- The fields of a backend that come from its claims: those of the pools, the policy of
reauthentication, and what it may dial. -/
structure Session extends Backend where
  policyVersion : List Char
  reauthInterval : ℤ
  reauthGrace : ℤ
  maintenanceCap : ℤ
  maintenanceUsed : ℤ
  authorizerStatusURI : List Char
  outboundAllowed : Bool
  allowedOutboundPorts : List ℤ
  outboundPortsExplicit : Bool

/-- `NewBackend`. The cap defaults to the configured number of seconds, or to half an hour. -/
def newSession (maintenanceGraceDefaultSeconds : ℤ) (id : List Char)
    (attested : AttestationMetadata) : Session where
  toBackend := newBackend id attested
  policyVersion := attested.policyVersion
  reauthInterval := attested.reauthInterval
  reauthGrace :=
    if 0 < attested.reauthInterval ∧ attested.reauthGrace ≤ 0 then defaultReauthGrace
    else attested.reauthGrace
  maintenanceCap :=
    attested.maintenanceCap.getD (secondsOr maintenanceGraceDefaultSeconds (30 * 60))
  maintenanceUsed := 0
  authorizerStatusURI := attested.authorizerStatusURI
  outboundAllowed := attested.outboundAllowed
  allowedOutboundPorts := attested.allowedOutboundPorts
  outboundPortsExplicit := attested.outboundPortsExplicit

def positiveSeconds (claimed : Option ℤ) (otherwise : ℤ) : ℤ :=
  match claimed with
  | some n => if 0 < n then seconds n else otherwise
  | none => otherwise

def checkStatusURI (env : Environment) (claims : Claims) (rejected : List RejectedClaim)
    (truncated : Bool) : Except HandshakeError Unit :=
  if claims.authorizerStatusURI ≠ [] then
    match validateAuthorizerStatusURI env claims.authorizerStatusURI with
    | .error (.plain err) =>
        .error (.terminal ("invalid authorizer_status_uri in reauth token: ".toList ++ err)
          rejected truncated .inputMalformed)
    | result => result
  else .ok ()

/-- `applyClaims`: the checks, and then the changes, in the order of the source. -/
def applyClaims (env : Environment) (claims : Claims) :
    ExceptT HandshakeError (StateM Session) (List RejectedClaim × Bool) := do
  let sets ← check (claimSets env claims "claims missing hostnames and port claims".toList)
  let b ← get
  check (failIf (sameStringSets sets.hosts.accepted b.hostnames = false)
    (.terminal "hostnames in token differ from registered set".toList
      sets.rejected sets.truncated .policyShaped))
  check (failIf (sameIntSets sets.tcp.accepted b.tcpPorts = false)
    (.terminal "tcp port claims in token differ from registered set".toList
      sets.rejected sets.truncated .policyShaped))
  check (failIf (sameUDPRoutes sets.udp.accepted b.udpRoutes = false)
    (.terminal "udp route claims in token differ from registered set".toList
      sets.rejected sets.truncated .policyShaped))
  check (failIf (claims.outboundAllowed ≠ b.outboundAllowed)
    (.terminal "outbound_allowed in token differs from registered value".toList
      sets.rejected sets.truncated .policyShaped))
  let outbound ← check (malformed
    (normalizeOutboundPortClaims env.config claims.outboundAllowed claims.allowedOutboundPorts))
  let rejected := sets.rejected ++ outbound.rejected
  let truncated := sets.truncated || outbound.truncated
  check (failIf (sameIntSets outbound.accepted b.allowedOutboundPorts = false)
    (.terminal "outbound port claims in token differ from registered set".toList
      rejected truncated .policyShaped))
  check (failIf (decide (claims.allowedOutboundPorts ≠ []) ≠ b.outboundPortsExplicit)
    (.terminal "outbound_ports_explicit in token differs from registered value".toList
      rejected truncated .policyShaped))
  -- the handshake compares a positive weight only
  check (failIf (claims.weight ≠ 0 ∧ claims.weight ≠ b.weight)
    (.terminal "weight change requested via token is not supported".toList
      rejected truncated .policyShaped))
  check (failIf (claims.maintenanceGraceCapSeconds.any (· < 0))
    (.terminal "maintenance_grace_cap_seconds cannot be negative".toList
      rejected truncated .inputMalformed))
  check (checkStatusURI env claims rejected truncated)
  modify fun b => { b with reauthInterval := positiveSeconds claims.reauthIntervalSeconds 0 }
  modify fun b =>
    { b with
      reauthGrace :=
        if 0 < b.reauthInterval then positiveSeconds claims.reauthGraceSeconds defaultReauthGrace
        else b.reauthGrace }
  modify fun b =>
    { b with
      maintenanceCap := (claims.maintenanceGraceCapSeconds.map seconds).getD b.maintenanceCap }
  modify fun b => { b with authorizerStatusURI := claims.authorizerStatusURI }
  modify fun b => { b with policyVersion := claims.policyVersion, maintenanceUsed := 0 }
  return (rejected, truncated)

namespace Session

def renewed (claims : Claims) (b : Session) : Session :=
  { b with
    reauthInterval := positiveSeconds claims.reauthIntervalSeconds 0
    reauthGrace :=
      if 0 < positiveSeconds claims.reauthIntervalSeconds 0 then
        positiveSeconds claims.reauthGraceSeconds defaultReauthGrace
      else b.reauthGrace
    maintenanceCap := (claims.maintenanceGraceCapSeconds.map seconds).getD b.maintenanceCap
    authorizerStatusURI := claims.authorizerStatusURI
    policyVersion := claims.policyVersion
    maintenanceUsed := 0 }

end Session

/-- No change comes before the last check. -/
theorem applyClaims_commits (env : Environment) (claims : Claims) :
    Commits (Session.renewed claims) (applyClaims env claims) := by
  apply Commits.check_bind
  intro sets
  apply Commits.get_bind
  intro b
  apply Commits.check_bind
  intro _
  apply Commits.check_bind
  intro _
  apply Commits.check_bind
  intro _
  apply Commits.check_bind
  intro _
  apply Commits.check_bind
  intro outbound
  apply Commits.check_bind
  intro _
  apply Commits.check_bind
  intro _
  apply Commits.check_bind
  intro _
  apply Commits.check_bind
  intro _
  apply Commits.check_bind
  intro _ b
  exact Or.inr ⟨_, rfl⟩

/-- Two states of a session agree in everything that is registered. -/
structure Session.SameRegistered (b b' : Session) : Prop where
  backend : b'.toBackend = b.toBackend
  outboundAllowed : b'.outboundAllowed = b.outboundAllowed
  allowedOutboundPorts : b'.allowedOutboundPorts = b.allowedOutboundPorts
  outboundPortsExplicit : b'.outboundPortsExplicit = b.outboundPortsExplicit

theorem Session.renewed_same (claims : Claims) (b : Session) :
    b.SameRegistered (b.renewed claims) := ⟨rfl, rfl, rfl, rfl⟩

theorem positiveSeconds_pos {claimed : Option ℤ} {otherwise : ℤ} (hotherwise : 0 < otherwise)
    (hfits : ∀ n ∈ claimed, IsInt64 (n * 10 ^ 9)) : 0 < positiveSeconds claimed otherwise := by
  unfold positiveSeconds
  split
  · next n =>
    split_ifs with hpos
    · obtain ⟨hl, hu⟩ := hfits n rfl
      unfold seconds
      rw [int64_eq hl hu]
      omega
    · exact hotherwise
  · exact hotherwise

/-- A failed reauthentication changes nothing. A successful one keeps what is registered, and
leaves a positive grace period with a positive interval. -/
theorem applyClaims_transactional (env : Environment) (claims : Claims) (b : Session) :
    (∀ e b', outcome (applyClaims env claims) b = (.error e, b') → b' = b) ∧
      ∀ out b', outcome (applyClaims env claims) b = (.ok out, b') →
        b.SameRegistered b' ∧
          ((∀ n ∈ claims.reauthGraceSeconds, IsInt64 (n * 10 ^ 9)) →
            0 < b'.reauthInterval → 0 < b'.reauthGrace) := by
  rcases applyClaims_commits env claims b with ⟨e, herror⟩ | ⟨out, hok⟩
  · rw [herror]
    constructor
    · rintro e' b' h
      exact (Prod.mk.inj h).2.symm
    · rintro out b' h
      cases (Prod.mk.inj h).1
  · rw [hok]
    constructor
    · rintro e b' h
      cases (Prod.mk.inj h).1
    · rintro out' b' h
      obtain rfl := (Prod.mk.inj h).2
      refine ⟨b.renewed_same claims, ?_⟩
      intro hfits hinterval
      have hgrace : (b.renewed claims).reauthGrace =
          positiveSeconds claims.reauthGraceSeconds defaultReauthGrace := if_pos hinterval
      rw [hgrace]
      exact positiveSeconds_pos (by decide) hfits

/-- A hub that lets its backends dial the ports 443 and 8443. -/
def dialEnv : Environment where
  unicode := ⟨(· == ' '), Char.toLower, fun _ => none⟩
  format := ⟨id, fun _ => []⟩
  config :=
    { allowedTCPPortClaims := [25]
      allowedUDPPortClaims := []
      udpFlowIdleTimeoutDefaultSeconds := 0
      udpFlowIdleTimeoutMinSeconds := 0
      udpFlowIdleTimeoutMaxSeconds := 0
      allowOutbound := true
      allowedOutboundPorts := [443, 8443] }
  parseURL := fun _ => .error []
  now := 0

/-- A token for TCP port 25 that lists two outbound ports and asks for reauthentication. -/
def dialClaims (weight : ℤ) (h : weight < 2 ^ 63) : Claims where
  hostnames := []
  tcpPorts := [25]
  udpRoutes := []
  weight := weight
  weight_lt := h
  sessionNonce := ['x']
  handshakeMaxAgeSeconds := none
  reauthIntervalSeconds := some 60
  reauthGraceSeconds := none
  maintenanceGraceCapSeconds := none
  authorizerStatusURI := []
  policyVersion := []
  outboundAllowed := true
  allowedOutboundPorts := [443, 22]
  issuedAt := none

/-- What the handshake makes of it when it claims no positive weight. -/
def dialAttested : AttestationMetadata where
  hostnames := []
  tcpPorts := [25]
  udpRoutes := []
  weight := 1
  weight_pos := one_weight_pos
  weight_lt := one_weight_lt
  reauthInterval := 60 * 10 ^ 9
  reauthGrace := 10 * 10 ^ 9
  maintenanceCap := none
  authorizerStatusURI := []
  policyVersion := []
  outboundAllowed := true
  allowedOutboundPorts := [443]
  outboundPortsExplicit := true
  rejected := [⟨.outboundPort, .outboundPortNotAllowed, ['2', '2'],
    "outbound port 22 is not in allowedOutboundPorts".toList⟩]
  truncated := false

theorem applyClaims_transactional_dial :
    ∃ out b', outcome (applyClaims dialEnv (dialClaims 0 (by decide)))
        (newSession 0 ['b'] dialAttested) = (.ok out, b') ∧
      (newSession 0 ['b'] dialAttested).SameRegistered b' ∧ 0 < b'.reauthGrace := by
  have hrun : outcome (applyClaims dialEnv (dialClaims 0 (by decide)))
      (newSession 0 ['b'] dialAttested) =
        (.ok (dialAttested.rejected, false),
          (newSession 0 ['b'] dialAttested).renewed (dialClaims 0 (by decide))) := rfl
  obtain ⟨hsame, hgrace⟩ := (applyClaims_transactional dialEnv (dialClaims 0 (by decide))
    (newSession 0 ['b'] dialAttested)).2 _ _ hrun
  exact ⟨_, _, hrun, hsame, hgrace (by simp [dialClaims]) (by decide)⟩

def reauths (env : Environment) (later : List Claims) (b : Session) : Session :=
  later.foldl (fun b claims => (outcome (applyClaims env claims) b).2) b

theorem reauths_same (env : Environment) (later : List Claims) (b : Session) :
    b.SameRegistered (reauths env later b) := by
  induction later generalizing b with
  | nil => exact ⟨rfl, rfl, rfl, rfl⟩
  | cons claims later ih =>
    have hstep : b.SameRegistered (outcome (applyClaims env claims) b).2 := by
      rcases applyClaims_commits env claims b with ⟨e, herror⟩ | ⟨out, hok⟩
      · rw [herror]
        exact ⟨rfl, rfl, rfl, rfl⟩
      · rw [hok]
        exact b.renewed_same claims
    have hrest := ih (outcome (applyClaims env claims) b).2
    exact ⟨hrest.backend.trans hstep.backend, hrest.outboundAllowed.trans hstep.outboundAllowed,
      hrest.allowedOutboundPorts.trans hstep.allowedOutboundPorts,
      hrest.outboundPortsExplicit.trans hstep.outboundPortsExplicit⟩

/-- The session is registered with what the first stage has accepted. -/
structure Session.Registers (b : Session) (info : Stage0Info) : Prop where
  hostnames : b.hostnames = info.hostnames
  tcpPorts : b.tcpPorts = info.tcpPorts
  udpRoutes : b.udpRoutes = info.udpRoutes
  weight : b.weight = info.weight
  outboundAllowed : b.outboundAllowed = info.outboundAllowed
  allowedOutboundPorts : b.allowedOutboundPorts = info.allowedOutboundPorts
  outboundPortsExplicit : b.outboundPortsExplicit = info.outboundPortsExplicit

theorem reauths_registers {env : Environment} {claims : Claims} {info : Stage0Info}
    {attested : AttestationMetadata} {outbound : Normalized ℤ}
    (hfrom : attested.From env claims info outbound) (grace : ℤ) (id : List Char)
    (later : List Claims) : (reauths env later (newSession grace id attested)).Registers info := by
  have hsame := reauths_same env later (newSession grace id attested)
  have hreg := hfrom.registration
  constructor
  · exact (congrArg Backend.hostnames hsame.backend).trans (congrArg Registration.hostnames hreg)
  · exact (congrArg Backend.tcpPorts hsame.backend).trans (congrArg Registration.tcpPorts hreg)
  · exact (congrArg Backend.udpRoutes hsame.backend).trans (congrArg Registration.udpRoutes hreg)
  · exact (congrArg Backend.weight hsame.backend).trans (congrArg Registration.weight hreg)
  · exact hsame.outboundAllowed.trans hfrom.outboundAllowed
  · exact hsame.allowedOutboundPorts.trans hfrom.allowedOutboundPorts
  · exact hsame.outboundPortsExplicit.trans hfrom.outboundPortsExplicit

/-- `strconv.Atoi`; `none` is an error. -/
def strconvAtoi (text : List Char) : Option ℤ :=
  let digits := if text.head? = some '-' ∨ text.head? = some '+' then text.tail else text
  if digits = [] ∨ digits.any (fun c => !c.isDigit) then none
  else
    let n : ℤ := Nat.ofDigits 10 (digits.reverse.map fun c => c.toNat - 48)
    let value := if text.head? = some '-' then -n else n
    if -2 ^ 63 ≤ value ∧ value < 2 ^ 63 then some value else none

example : strconvAtoi ['+', '4', '4', '3'] = some 443 := by decide

def maxTargetAddrLen : ℕ := 260

def portAllowed (allowlist : List ℤ) (port : ℤ) : Bool := decide (port ∈ allowlist)

def targetPort (addr : List Char) : Except (List Char) ℤ :=
  match splitHostPort addr with
  | none => .error "invalid target address".toList
  | some (host, portStr) =>
      if host = [] ∨ portStr = [] then .error "invalid target address".toList
      else
        match strconvAtoi portStr with
        | none => .error "invalid target port".toList
        | some port =>
            if port ≤ 0 ∨ 65535 < port then .error "invalid target port".toList else .ok port

/-- The checks of `handleOutboundConnect` up to the port lists. An error is the reason in the
`EventOutboundResult` that it sends. -/
def outboundTarget (cfg : Config) (b : Session) (addr : List Char) : Except (List Char) ℤ := do
  failIf (cfg.allowOutbound = false) "outbound connections disabled on this proxy".toList
  failIf (b.outboundAllowed = false) "outbound connections not allowed for this backend".toList
  failIf (maxTargetAddrLen < (addr.map Char.utf8Size).sum) "target address too long".toList
  failIf (addr.any fun c => c.toNat < 0x20 || c.toNat == 0x7f)
    "target address contains control characters".toList
  let port ← targetPort addr
  failIf (cfg.allowedOutboundPorts ≠ [] ∧ portAllowed cfg.allowedOutboundPorts port = false)
    ("outbound port ".toList ++ itoa port ++ " not allowed by server".toList)
  failIf (b.outboundPortsExplicit = true ∧ portAllowed b.allowedOutboundPorts port = false)
    ("outbound port ".toList ++ itoa port ++ " not allowed for this backend".toList)
  return port

theorem outboundTarget_ok {cfg : Config} {b : Session} {addr : List Char} {port : ℤ}
    (h : outboundTarget cfg b addr = .ok port) :
    cfg.allowOutbound = true ∧ b.outboundAllowed = true ∧
      (cfg.allowedOutboundPorts ≠ [] → port ∈ cfg.allowedOutboundPorts) ∧
      (b.outboundPortsExplicit = true → port ∈ b.allowedOutboundPorts) := by
  unfold outboundTarget at h
  obtain ⟨_, hserver, h⟩ := parts_of_ok h
  obtain ⟨_, hbackend, h⟩ := parts_of_ok h
  obtain ⟨_, -, h⟩ := parts_of_ok h
  obtain ⟨_, -, h⟩ := parts_of_ok h
  obtain ⟨target, -, h⟩ := parts_of_ok h
  obtain ⟨_, hserverPorts, h⟩ := parts_of_ok h
  obtain ⟨_, hports, h⟩ := parts_of_ok h
  obtain rfl := Except.ok.inj h
  have hserverPorts := failIf_eq_ok.mp hserverPorts
  have hports := failIf_eq_ok.mp hports
  simp only [portAllowed, decide_eq_false_iff_not, not_and, not_not] at hserverPorts hports
  exact ⟨(Bool.not_eq_false _).mp (failIf_eq_ok.mp hserver),
    (Bool.not_eq_false _).mp (failIf_eq_ok.mp hbackend), hserverPorts, hports⟩

theorem sameIntSets_mem {a b : List ℤ} (h : sameIntSets a b = true) (x : ℤ) : x ∈ a ↔ x ∈ b := by
  simp only [sameIntSets, Bool.and_eq_true, decide_eq_true_eq] at h
  rw [← List.mem_insertionSort (· ≤ ·), h.2, List.mem_insertionSort]

theorem normalizeOutboundPortClaims_claimed {cfg : Config} {outboundAllowed : Bool}
    {ports : List ℤ} {out : Normalized ℤ}
    (h : normalizeOutboundPortClaims cfg outboundAllowed ports = .ok out) {port : ℤ}
    (hport : port ∈ out.accepted) : port ∈ ports := by
  unfold normalizeOutboundPortClaims at h
  split_ifs at h
  · rw [← Except.ok.inj h] at hport
    cases hport
  · rw [← Except.ok.inj h] at hport
    cases hport
  · exact (((addPorts_spec h).2.2 port).mp hport).1

/-- The token lists outbound ports, and the server's policy rejects every one of them. -/
def Claims.AllRejected (cfg : Config) (claims : Claims) : Prop :=
  claims.allowedOutboundPorts ≠ [] ∧
    ∃ out, normalizeOutboundPortClaims cfg claims.outboundAllowed claims.allowedOutboundPorts =
      .ok out ∧ out.accepted = []

/-- Whatever reauthentications follow a handshake, a port that the session may dial is allowed
by the server and by the claims of both tokens. -/
theorem outbound_confined {env : Environment} {claims0 claims1 : Claims} {nonce : List Char}
    {attested : AttestationMetadata}
    (hshake : performHandshake env claims0 claims1 nonce = .ok attested) (grace : ℤ)
    (id : List Char) (later : List Claims) {addr : List Char} {port : ℤ}
    (h : outboundTarget env.config (reauths env later (newSession grace id attested)) addr =
      .ok port) :
    env.config.allowOutbound = true ∧ claims0.outboundAllowed = true ∧
      claims1.outboundAllowed = true ∧
      (env.config.allowedOutboundPorts ≠ [] → port ∈ env.config.allowedOutboundPorts) ∧
      (claims0.allowedOutboundPorts ≠ [] ∨ claims1.allowedOutboundPorts ≠ [] →
        port ∈ claims0.allowedOutboundPorts ∧ port ∈ claims1.allowedOutboundPorts) ∧
      ¬claims0.AllRejected env.config ∧ ¬claims1.AllRejected env.config := by
  obtain ⟨hserver, hallowed, hserverPorts, hports⟩ := outboundTarget_ok h
  unfold performHandshake at hshake
  obtain ⟨info, hinfo, hattested⟩ := parts_of_ok hshake
  obtain ⟨sets0, outbound0, from0⟩ := validateStage0Claims_from hinfo
  obtain ⟨outbound1, from1⟩ := buildMetadataFromClaims_from hattested
  have hreg := reauths_registers from1 grace id later
  rw [hreg.outboundAllowed, from0.outboundAllowed] at hallowed
  rw [hreg.outboundPortsExplicit, hreg.allowedOutboundPorts, from0.outboundPortsExplicit,
    from0.allowedOutboundPorts, decide_eq_true_iff] at hports
  have hallowed1 : claims1.outboundAllowed = true := by
    rw [from1.claimedAllowed, from0.outboundAllowed, hallowed]
  -- the bit of a listed claim is the same for both tokens
  have hlists : claims1.allowedOutboundPorts ≠ [] ↔ claims0.allowedOutboundPorts ≠ [] :=
    decide_eq_decide.mp (from1.claimedExplicit.trans from0.outboundPortsExplicit)
  have hmem1 (hlist : claims0.allowedOutboundPorts ≠ []) : port ∈ outbound1.accepted := by
    rw [sameIntSets_mem from1.claimedPorts, from0.allowedOutboundPorts]
    exact hports hlist
  refine ⟨hserver, hallowed, hallowed1, hserverPorts, ?_, ?_, ?_⟩
  · rw [hlists, or_self]
    intro hlist
    exact ⟨normalizeOutboundPortClaims_claimed from0.claimedOutbound (hports hlist),
      normalizeOutboundPortClaims_claimed from1.claimedOutbound (hmem1 hlist)⟩
  · rintro ⟨hlist, out, hout, hempty⟩
    rw [from0.claimedOutbound] at hout
    have hmem := hports hlist
    rw [Except.ok.inj hout, hempty] at hmem
    cases hmem
  · rintro ⟨hlist, out, hout, hempty⟩
    rw [from1.claimedOutbound] at hout
    have hmem := hmem1 (hlists.mp hlist)
    rw [Except.ok.inj hout, hempty] at hmem
    cases hmem

theorem outbound_confined_dial :
    performHandshake dialEnv (dialClaims 0 (by decide)) (dialClaims 0 (by decide)) ['x'] =
        .ok dialAttested ∧
      outboundTarget dialEnv.config
          (reauths dialEnv [dialClaims 0 (by decide)] (newSession 0 ['b'] dialAttested))
          ['h', ':', '4', '4', '3'] = .ok 443 ∧
      443 ∈ (dialClaims 0 (by decide)).allowedOutboundPorts := by
  have hshake : performHandshake dialEnv (dialClaims 0 (by decide)) (dialClaims 0 (by decide))
      ['x'] = .ok dialAttested := rfl
  have htarget : outboundTarget dialEnv.config
      (reauths dialEnv [dialClaims 0 (by decide)] (newSession 0 ['b'] dialAttested))
      ['h', ':', '4', '4', '3'] = .ok 443 := rfl
  obtain ⟨-, -, -, -, hlisted, -⟩ := outbound_confined hshake 0 ['b'] [_] htarget
  exact ⟨hshake, htarget, (hlisted (Or.inl (by decide))).1⟩

theorem sameStringSets_of_perm {a b : List (List Char)} (h : a.Perm b) :
    sameStringSets a b = true := by
  have hfold (a b : List (List Char)) (h : a.Perm b) :
      b.foldl (fun counts v =>
        counts.bind fun rest => if v ∈ rest then some (rest.erase v) else none) (some a) =
        some [] := by
    induction b generalizing a with
    | nil => rw [List.perm_nil.mp h, List.foldl_nil]
    | cons v b ih =>
      have hmem : v ∈ a := h.mem_iff.mpr List.mem_cons_self
      rw [List.foldl_cons, Option.bind_some, if_pos hmem]
      apply ih
      simpa using h.erase v
  unfold sameStringSets
  rw [hfold a b h, h.length_eq]
  simp

theorem sameIntSets_of_perm {a b : List ℤ} (h : a.Perm b) : sameIntSets a b = true := by
  have hsort : a.insertionSort (· ≤ ·) = b.insertionSort (· ≤ ·) := by
    apply List.Perm.eq_of_sortedLE List.sortedLE_insertionSort List.sortedLE_insertionSort
    exact ((List.perm_insertionSort _ a).trans h).trans (List.perm_insertionSort _ b).symm
  unfold sameIntSets
  rw [hsort, h.length_eq]
  simp

theorem sameUDPRoutes_of_perm {a b : List UDPRoutePolicy} (hdistinct : DistinctPorts a)
    (h : a.Perm b) : sameUDPRoutes a b = true := by
  have htotal : Std.Total fun r s : UDPRoutePolicy => r.port ≤ s.port :=
    ⟨fun r s => le_total r.port s.port⟩
  have htrans : IsTrans UDPRoutePolicy fun r s => r.port ≤ s.port :=
    ⟨fun _ _ _ => le_trans⟩
  have hsort : a.insertionSort (fun r s => r.port ≤ s.port) =
      b.insertionSort fun r s => r.port ≤ s.port := by
    apply List.Perm.eq_of_pairwise _ (List.pairwise_insertionSort _ a)
      (List.pairwise_insertionSort _ b)
    · exact ((List.perm_insertionSort _ a).trans h).trans (List.perm_insertionSort _ b).symm
    · intro r s hr hs hrs hsr
      rw [List.mem_insertionSort] at hr hs
      exact hdistinct.eq hr (h.mem_iff.mpr hs) (le_antisymm hrs hsr)
  unfold sameUDPRoutes
  rw [hsort, h.length_eq]
  simp

/-- The same claims for reauthentication, up to the order and repetition of list entries. -/
structure Claims.Same (c c' : Claims) : Prop where
  hostnames : ∀ n, n ∈ c'.hostnames ↔ n ∈ c.hostnames
  tcpPorts : ∀ p, p ∈ c'.tcpPorts ↔ p ∈ c.tcpPorts
  udpRoutes : ∀ r, r ∈ c'.udpRoutes ↔ r ∈ c.udpRoutes
  allowedOutboundPorts : ∀ p, p ∈ c'.allowedOutboundPorts ↔ p ∈ c.allowedOutboundPorts
  outboundAllowed : c'.outboundAllowed = c.outboundAllowed
  weight : c'.weight = c.weight
  maintenanceGraceCapSeconds : c'.maintenanceGraceCapSeconds = c.maintenanceGraceCapSeconds
  authorizerStatusURI : c'.authorizerStatusURI = c.authorizerStatusURI

variable {env : Environment} {c c' : Claims}

theorem claimedHosts_congr (hsame : c.Same c') {out : Normalized (List Char)}
    (h : claimedHosts env c = .ok out) :
    ∃ out', claimedHosts env c' = .ok out' ∧ out'.accepted.Perm out.accepted := by
  have hnil : c'.hostnames = [] ↔ c.hostnames = [] := by
    simp only [List.eq_nil_iff_forall_not_mem, hsame.hostnames]
  unfold claimedHosts at h ⊢
  simp only [hnil]
  split_ifs at h ⊢
  · exact ⟨out, h, List.Perm.refl _⟩
  · obtain ⟨out', hout', hperm⟩ :=
      normalizeHostnames_congr (malformed_eq_ok.mp h) hsame.hostnames
    exact ⟨out', malformed_eq_ok.mpr hout', hperm⟩

theorem claimSets_congr (hsame : c.Same c') {missing missing' : List Char} {sets : ClaimSets}
    (h : claimSets env c missing = .ok sets) :
    ∃ sets', claimSets env c' missing' = .ok sets' ∧
      sets'.hosts.accepted.Perm sets.hosts.accepted ∧
      sets'.tcp.accepted.Perm sets.tcp.accepted ∧
      sets'.udp.accepted.Perm sets.udp.accepted ∧ DistinctPorts sets'.udp.accepted := by
  obtain ⟨hhosts, htcp, hudp, hsome⟩ := claimSets_eq_ok.mp h
  obtain ⟨hosts', hhosts', hhostsPerm⟩ := claimedHosts_congr hsame hhosts
  obtain ⟨tcp', htcp', htcpPerm⟩ := normalizeTCPPortClaims_congr htcp hsame.tcpPorts
  obtain ⟨udp', hudp', hdistinct, hudpPerm⟩ := normalizeUDPRouteClaims_congr hudp hsame.udpRoutes
  refine ⟨⟨hosts', tcp', udp'⟩, claimSets_eq_ok.mpr ⟨hhosts', htcp', hudp', ?_⟩, hhostsPerm,
    htcpPerm, hudpPerm, hdistinct⟩
  rintro ⟨h₁, h₂, h₃⟩
  apply hsome
  exact ⟨(h₁ ▸ hhostsPerm).nil_eq.symm, (h₂ ▸ htcpPerm).nil_eq.symm, (h₃ ▸ hudpPerm).nil_eq.symm⟩

theorem checkStatusURI_eq_ok {claims : Claims} {rejected : List RejectedClaim} {truncated : Bool} :
    checkStatusURI env claims rejected truncated = .ok () ↔
      (claims.authorizerStatusURI ≠ [] →
        validateAuthorizerStatusURI env claims.authorizerStatusURI = .ok ()) := by
  unfold checkStatusURI
  split_ifs with hempty
  · simp only [ne_eq, hempty, not_false_eq_true, true_imp_iff]
    split
    · next err herr => simp [herr]
    · rfl
  · simp [hempty]

theorem applyClaims_succeeds {claims : Claims} {b : Session} :
    Succeeds (applyClaims env claims) b ↔
      ∃ sets, claimSets env claims "claims missing hostnames and port claims".toList = .ok sets ∧
        sameStringSets sets.hosts.accepted b.hostnames = true ∧
        sameIntSets sets.tcp.accepted b.tcpPorts = true ∧
        sameUDPRoutes sets.udp.accepted b.udpRoutes = true ∧
        claims.outboundAllowed = b.outboundAllowed ∧
        ∃ outbound, normalizeOutboundPortClaims env.config claims.outboundAllowed
            claims.allowedOutboundPorts = .ok outbound ∧
          sameIntSets outbound.accepted b.allowedOutboundPorts = true ∧
          decide (claims.allowedOutboundPorts ≠ []) = b.outboundPortsExplicit ∧
          ¬(claims.weight ≠ 0 ∧ claims.weight ≠ b.weight) ∧
          ¬claims.maintenanceGraceCapSeconds.any (· < 0) = true ∧
          (claims.authorizerStatusURI ≠ [] →
            validateAuthorizerStatusURI env claims.authorizerStatusURI = .ok ()) := by
  unfold applyClaims
  simp only [succeeds_check_bind, succeeds_get_bind, succeeds_modify_bind, succeeds_pure,
    malformed_eq_ok, Unique.exists_iff, PUnit.default_eq_unit, failIf_eq_ok, checkStatusURI_eq_ok,
    Bool.not_eq_false, ne_eq, not_not, and_true]

/-- Claims that pass both stages of the handshake pass every later reauthentication, unless
their weight is negative: the handshake turns such a weight into 1, and reauthentication
compares it as it is. -/
theorem reauth_succeeds_iff {nonce : List Char} {attested : AttestationMetadata}
    (hshake : performHandshake env c c nonce = .ok attested) (grace : ℤ) (id : List Char)
    (later : List Claims) (hsame : c.Same c') :
    Succeeds (applyClaims env c') (reauths env later (newSession grace id attested)) ↔
      0 ≤ c.weight := by
  unfold performHandshake at hshake
  obtain ⟨info, hinfo, hattested⟩ := parts_of_ok hshake
  obtain ⟨sets, outbound, from0⟩ := validateStage0Claims_from hinfo
  obtain ⟨outbound1, from1⟩ := buildMetadataFromClaims_from hattested
  have hreg := reauths_registers from1 grace id later
  have hweight := hreg.weight.trans from0.weight
  rw [applyClaims_succeeds]
  constructor
  · rintro ⟨_, -, -, -, -, -, _, -, -, -, hkept, -, -⟩
    rw [hsame.weight, hweight] at hkept
    split_ifs at hkept with hle
    · omega
    · omega
  · intro hnonneg
    obtain ⟨sets', hsets', hhosts, htcp, hudp, hdistinct⟩ := claimSets_congr hsame from0.claimed
    obtain ⟨outbound', houtbound', hports⟩ :=
      normalizeOutboundPortClaims_congr from0.claimedOutbound hsame.allowedOutboundPorts
    have hlist : c'.allowedOutboundPorts = [] ↔ c.allowedOutboundPorts = [] := by
      simp only [List.eq_nil_iff_forall_not_mem, hsame.allowedOutboundPorts]
    refine ⟨sets', hsets', ?_, ?_, ?_, ?_, outbound', ?_, ?_, ?_, ?_, ?_, ?_⟩
    · rw [hreg.hostnames, from0.hostnames]
      exact sameStringSets_of_perm hhosts
    · rw [hreg.tcpPorts, from0.tcpPorts]
      exact sameIntSets_of_perm htcp
    · rw [hreg.udpRoutes, from0.udpRoutes]
      exact sameUDPRoutes_of_perm hdistinct hudp
    · rw [hreg.outboundAllowed, hsame.outboundAllowed, from1.claimedAllowed]
    · rw [hsame.outboundAllowed]
      exact houtbound'
    · rw [hreg.allowedOutboundPorts, from0.allowedOutboundPorts]
      exact sameIntSets_of_perm hports
    · rw [hreg.outboundPortsExplicit, ← from1.claimedExplicit]
      simp only [ne_eq, hlist]
    · rw [hsame.weight, hweight]
      split_ifs with hle
      · omega
      · omega
    · rw [hsame.maintenanceGraceCapSeconds]
      exact from1.cap
    · rw [hsame.authorizerStatusURI]
      exact from1.uri

theorem reauth_succeeds_iff_dial :
    performHandshake dialEnv (dialClaims 5 (by decide)) (dialClaims 5 (by decide)) ['x'] =
        .ok { dialAttested with weight := 5, weight_pos := by decide, weight_lt := by decide } ∧
      Succeeds (applyClaims dialEnv
          { dialClaims 5 (by decide) with allowedOutboundPorts := [22, 443, 443] })
        (newSession 0 ['b']
          { dialAttested with weight := 5, weight_pos := by decide, weight_lt := by decide }) := by
  have hshake : performHandshake dialEnv (dialClaims 5 (by decide)) (dialClaims 5 (by decide))
      ['x'] = .ok
        { dialAttested with weight := 5, weight_pos := by decide, weight_lt := by decide } := rfl
  have hsame : (dialClaims 5 (by decide)).Same
      { dialClaims 5 (by decide) with allowedOutboundPorts := [22, 443, 443] } := by
    constructor <;> simp [dialClaims, or_comm]
  exact ⟨hshake, (reauth_succeeds_iff hshake 0 ['b'] [] hsame).mpr (by decide)⟩

/-- A weight of -1 is accepted by the handshake and refused by the first reauthentication with
the same claims. -/
theorem negative_weight_refused :
    performHandshake dialEnv (dialClaims (-1) (by decide)) (dialClaims (-1) (by decide)) ['x'] =
        .ok dialAttested ∧
      outcome (applyClaims dialEnv (dialClaims (-1) (by decide)))
          (newSession 0 ['b'] dialAttested) =
        (.error (.terminal "weight change requested via token is not supported".toList
          dialAttested.rejected false .policyShaped), newSession 0 ['b'] dialAttested) :=
  ⟨rfl, rfl⟩

end NexusProxy.Hub
