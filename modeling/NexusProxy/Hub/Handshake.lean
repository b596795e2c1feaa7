import NexusProxy.Hub.Claims
import NexusProxy.Lib.Checks

/-! The two stages of the attestation handshake: what a token pair must contain, and what
a backend gets registered with. -/
namespace NexusProxy.Hub
open Checks FixedWidth Hostnames

/-- The claims of a token that has passed the validator. -/
structure Claims where
  hostnames : List (List Char)
  tcpPorts : List ℤ
  udpRoutes : List UDPRouteClaim
  weight : ℤ
  weight_lt : weight < 2 ^ 63
  sessionNonce : List Char
  handshakeMaxAgeSeconds : Option ℤ
  reauthIntervalSeconds : Option ℤ
  reauthGraceSeconds : Option ℤ
  maintenanceGraceCapSeconds : Option ℤ
  authorizerStatusURI : List Char
  policyVersion : List Char
  outboundAllowed : Bool
  allowedOutboundPorts : List ℤ
  /-- The time of `iat`, if there is one and it is not the zero time. -/
  issuedAt : Option ℤ

/-- What a backend may be registered with: the accepted claims and its weight. -/
structure Registration where
  hostnames : List (List Char)
  tcpPorts : List ℤ
  udpRoutes : List UDPRoutePolicy
  weight : ℤ
  weight_pos : 0 < weight
  weight_lt : weight < 2 ^ 63

structure Stage0Info extends Registration where
  outboundAllowed : Bool
  allowedOutboundPorts : List ℤ
  outboundPortsExplicit : Bool

structure AttestationMetadata extends Registration where
  reauthInterval : ℤ
  reauthGrace : ℤ
  /-- `MaintenanceCap`, when `HasMaintenanceCap` is set. -/
  maintenanceCap : Option ℤ
  authorizerStatusURI : List Char
  policyVersion : List Char
  outboundAllowed : Bool
  allowedOutboundPorts : List ℤ
  outboundPortsExplicit : Bool
  rejected : List RejectedClaim
  truncated : Bool

inductive TerminalKind where
  | policyShaped
  | inputMalformed
  deriving DecidableEq

/-- A failed handshake. A `terminalWithRejected` has a kind and carries the rejected claims. -/
inductive HandshakeError where
  | terminal (err : List Char) (rejected : List RejectedClaim) (truncated : Bool)
      (kind : TerminalKind)
  | plain (err : List Char)

/-- The library code and the settings of a hub, and the time of a check. -/
structure Environment where
  unicode : Unicode
  format : Format
  config : Config
  /-- `url.Parse`: the scheme and the host, or the text of the error. -/
  parseURL : List Char → Except (List Char) (List Char × List Char)
  now : ℤ

def defaultReauthGrace : ℤ := seconds 10

/-- `time.Since`, which saturates. -/
def since (now t : ℤ) : ℤ := max (-2 ^ 63) (min maxInt64 (now - t))

/-- A normalizer's error ends the handshake. -/
def malformed {α : Type*} : Except (List Char) α → Except HandshakeError α
  | .error err => .error (.terminal err [] false .inputMalformed)
  | .ok a => .ok a

/-- The sets that remain of a token's claims. -/
structure ClaimSets where
  hosts : Normalized (List Char)
  tcp : Normalized ℤ
  udp : Normalized UDPRoutePolicy

namespace ClaimSets

def rejected (s : ClaimSets) : List RejectedClaim :=
  s.hosts.rejected ++ s.tcp.rejected ++ s.udp.rejected

def truncated (s : ClaimSets) : Bool := s.hosts.truncated || s.tcp.truncated || s.udp.truncated

end ClaimSets

section
variable (env : Environment)

def claimedHosts (claims : Claims) : Except HandshakeError (Normalized (List Char)) :=
  if claims.hostnames = [] then .ok .empty
  else malformed (normalizeHostnames env.unicode env.format claims.hostnames)

/-- The calls of the normalizers that both stages start with. -/
def claimSets (claims : Claims) (missing : List Char) : Except HandshakeError ClaimSets := do
  let hosts ← claimedHosts env claims
  let tcp ← malformed (normalizeTCPPortClaims env.config claims.tcpPorts)
  let udp ← malformed (normalizeUDPRouteClaims env.format env.config claims.udpRoutes)
  let sets : ClaimSets := ⟨hosts, tcp, udp⟩
  failIf (hosts.accepted = [] ∧ tcp.accepted = [] ∧ udp.accepted = [])
    (.terminal missing sets.rejected sets.truncated .policyShaped)
  return sets

/-- The check of `handshake_max_age_seconds`. -/
def checkAge (claims : Claims) : Except HandshakeError Unit :=
  match claims.handshakeMaxAgeSeconds with
  | none => .ok ()
  | some maxAge =>
      if 0 < maxAge then
        match claims.issuedAt with
        | none => .error (.plain "stage0 token missing iat for handshake_max_age_seconds".toList)
        | some issuedAt =>
            failIf (seconds maxAge < since env.now issuedAt)
              (.plain ("stage0 token exceeded handshake_max_age_seconds: age=".toList ++
                env.format.duration (since env.now issuedAt)))
      else .ok ()

def validateStage0Claims (claims : Claims) : Except HandshakeError Stage0Info := do
  let sets ← claimSets env claims "stage0 token missing hostnames and port claims".toList
  let outbound ← malformed
    (normalizeOutboundPortClaims env.config claims.outboundAllowed claims.allowedOutboundPorts)
  checkAge env claims
  return {
    hostnames := sets.hosts.accepted
    tcpPorts := sets.tcp.accepted
    udpRoutes := sets.udp.accepted
    weight := if claims.weight ≤ 0 then 1 else claims.weight
    weight_pos := by split_ifs <;> omega
    weight_lt := by
      have := claims.weight_lt
      split_ifs <;> omega
    outboundAllowed := claims.outboundAllowed
    allowedOutboundPorts := outbound.accepted
    outboundPortsExplicit := decide (claims.allowedOutboundPorts ≠ []) }

/-- `sameStringSets`: take the elements of `b` out of the counts of `a`. -/
def sameStringSets (a b : List (List Char)) : Bool :=
  decide (a.length = b.length) &&
    decide (b.foldl (fun counts v =>
      counts.bind fun rest => if v ∈ rest then some (rest.erase v) else none) (some a) = some [])

def sameIntSets (a b : List ℤ) : Bool :=
  decide (a.length = b.length) &&
    decide (a.insertionSort (· ≤ ·) = b.insertionSort (· ≤ ·))

def sameUDPRoutes (a b : List UDPRoutePolicy) : Bool :=
  decide (a.length = b.length) &&
    decide (a.insertionSort (fun r s => r.port ≤ s.port) =
      b.insertionSort fun r s => r.port ≤ s.port)

def validateAuthorizerStatusURI (raw : List Char) : Except HandshakeError Unit :=
  match env.parseURL raw with
  | .error err => .error (.plain ("invalid authorizer_status_uri: ".toList ++ err))
  | .ok (scheme, host) => do
      failIf (scheme ≠ "https".toList)
        (.plain "authorizer_status_uri must use https scheme".toList)
      failIf (host = []) (.plain "authorizer_status_uri missing host".toList)

/-- The interval and the grace period of reauthentication. -/
def reauthPolicy (claims : Claims) : ℤ × ℤ :=
  match claims.reauthIntervalSeconds with
  | none => (0, 0)
  | some interval =>
      if 0 < interval then
        match claims.reauthGraceSeconds with
        | none => (seconds interval, defaultReauthGrace)
        | some grace =>
            (seconds interval, if 0 < grace then seconds grace else defaultReauthGrace)
      else (0, 0)

def buildMetadataFromClaims (claims : Claims) (expected : Stage0Info) (nonce : List Char) :
    Except HandshakeError AttestationMetadata := do
  failIf (claims.sessionNonce ≠ nonce)
    (.plain ("session nonce mismatch: expected ".toList ++ nonce ++ " got ".toList ++
      claims.sessionNonce))
  let sets ← claimSets env claims "attested token missing hostnames and port claims".toList
  failIf (sameStringSets sets.hosts.accepted expected.hostnames = false)
    (.plain "attested token hostnames differ from handshake token".toList)
  failIf (sameIntSets sets.tcp.accepted expected.tcpPorts = false)
    (.plain "attested token tcp port claims differ from handshake token".toList)
  failIf (sameUDPRoutes sets.udp.accepted expected.udpRoutes = false)
    (.plain "attested token udp route claims differ from handshake token".toList)
  failIf (claims.outboundAllowed ≠ expected.outboundAllowed)
    (.plain "attested token outbound_allowed differs from handshake token".toList)
  let outbound ← malformed
    (normalizeOutboundPortClaims env.config claims.outboundAllowed claims.allowedOutboundPorts)
  failIf (sameIntSets outbound.accepted expected.allowedOutboundPorts = false)
    (.plain "attested token outbound port claims differ from handshake token".toList)
  failIf (decide (claims.allowedOutboundPorts ≠ []) ≠ expected.outboundPortsExplicit)
    (.plain "attested token outbound_ports_explicit differs from handshake token".toList)
  failIf (0 < claims.weight ∧ claims.weight ≠ expected.weight)
    (.plain "attested token weight differs from handshake token".toList)
  failIf (claims.maintenanceGraceCapSeconds.any (· < 0))
    (.plain "maintenance_grace_cap_seconds cannot be negative".toList)
  if claims.authorizerStatusURI ≠ [] then validateAuthorizerStatusURI env claims.authorizerStatusURI
  return {
    toRegistration := expected.toRegistration
    reauthInterval := (reauthPolicy claims).1
    reauthGrace := (reauthPolicy claims).2
    maintenanceCap := claims.maintenanceGraceCapSeconds.map seconds
    authorizerStatusURI := claims.authorizerStatusURI
    policyVersion := claims.policyVersion
    outboundAllowed := expected.outboundAllowed
    allowedOutboundPorts := expected.allowedOutboundPorts
    outboundPortsExplicit := expected.outboundPortsExplicit
    rejected := sets.rejected ++ outbound.rejected
    truncated := sets.truncated || outbound.truncated }

/-- `performHandshake` on the claims of the two tokens and the nonce in between. -/
def performHandshake (claims0 claims1 : Claims) (nonce : List Char) :
    Except HandshakeError AttestationMetadata := do
  let info0 ← validateStage0Claims env claims0
  buildMetadataFromClaims env claims1 info0 nonce

end

theorem malformed_eq_ok {α : Type*} {x : Except (List Char) α} {a : α} :
    malformed x = .ok a ↔ x = .ok a := by
  cases x with
  | error err => simp [malformed]
  | ok b => simp [malformed]

variable {env : Environment}

theorem claimSets_eq_ok {claims : Claims} {missing : List Char} {sets : ClaimSets} :
    claimSets env claims missing = .ok sets ↔
      claimedHosts env claims = .ok sets.hosts ∧
        normalizeTCPPortClaims env.config claims.tcpPorts = .ok sets.tcp ∧
        normalizeUDPRouteClaims env.format env.config claims.udpRoutes = .ok sets.udp ∧
        ¬(sets.hosts.accepted = [] ∧ sets.tcp.accepted = [] ∧ sets.udp.accepted = []) := by
  unfold claimSets
  constructor
  · intro h
    obtain ⟨hosts, hhosts, h⟩ := parts_of_ok h
    obtain ⟨tcp, htcp, h⟩ := parts_of_ok h
    obtain ⟨udp, hudp, h⟩ := parts_of_ok h
    obtain ⟨_, hsome, h⟩ := parts_of_ok h
    obtain rfl := Except.ok.inj h
    exact ⟨hhosts, malformed_eq_ok.mp htcp, malformed_eq_ok.mp hudp, failIf_eq_ok.mp hsome⟩
  · rintro ⟨hhosts, htcp, hudp, hsome⟩
    rw [hhosts, malformed_eq_ok.mpr htcp, malformed_eq_ok.mpr hudp]
    show (failIf _ _ >>= fun _ => Except.ok sets) = _
    rw [failIf_eq_ok.mpr hsome]
    rfl

theorem claimSets_hosts {claims : Claims} {missing : List Char} {sets : ClaimSets}
    (h : claimSets env claims missing = .ok sets) : ∀ n ∈ sets.hosts.accepted, ¬Reserved n := by
  have hhosts := (claimSets_eq_ok.mp h).1
  unfold claimedHosts at hhosts
  split_ifs at hhosts with hnil
  · rw [← Except.ok.inj hhosts]
    intro n hn
    cases hn
  · exact normalizeHostnames_accepted (malformed_eq_ok.mp hhosts)

/-- What the first stage takes from a token that it accepts. -/
structure Stage0Info.From (env : Environment) (claims : Claims) (info : Stage0Info)
    (sets : ClaimSets) (outbound : Normalized ℤ) : Prop where
  claimed : claimSets env claims "stage0 token missing hostnames and port claims".toList = .ok sets
  claimedOutbound : normalizeOutboundPortClaims env.config claims.outboundAllowed
    claims.allowedOutboundPorts = .ok outbound
  hostnames : info.hostnames = sets.hosts.accepted
  tcpPorts : info.tcpPorts = sets.tcp.accepted
  udpRoutes : info.udpRoutes = sets.udp.accepted
  weight : info.weight = if claims.weight ≤ 0 then 1 else claims.weight
  outboundAllowed : info.outboundAllowed = claims.outboundAllowed
  allowedOutboundPorts : info.allowedOutboundPorts = outbound.accepted
  outboundPortsExplicit : info.outboundPortsExplicit = decide (claims.allowedOutboundPorts ≠ [])

theorem validateStage0Claims_from {claims : Claims} {info : Stage0Info}
    (h : validateStage0Claims env claims = .ok info) :
    ∃ sets outbound, info.From env claims sets outbound := by
  unfold validateStage0Claims at h
  obtain ⟨sets, hsets, h⟩ := parts_of_ok h
  obtain ⟨outbound, houtbound, h⟩ := parts_of_ok h
  obtain ⟨_, -, h⟩ := parts_of_ok h
  obtain rfl := Except.ok.inj h
  exact ⟨sets, outbound, hsets, malformed_eq_ok.mp houtbound, rfl, rfl, rfl, rfl, rfl, rfl, rfl⟩

theorem validateStage0Claims_hostnames {claims : Claims} {info : Stage0Info}
    (h : validateStage0Claims env claims = .ok info) : ∀ n ∈ info.hostnames, ¬Reserved n := by
  obtain ⟨sets, outbound, hfrom⟩ := validateStage0Claims_from h
  rw [hfrom.hostnames]
  exact claimSets_hosts hfrom.claimed

/-- What the second stage has checked in a token that it accepts, and what it returns. -/
structure AttestationMetadata.From (env : Environment) (claims : Claims) (expected : Stage0Info)
    (attested : AttestationMetadata) (outbound : Normalized ℤ) : Prop where
  claimedOutbound : normalizeOutboundPortClaims env.config claims.outboundAllowed
    claims.allowedOutboundPorts = .ok outbound
  claimedAllowed : claims.outboundAllowed = expected.outboundAllowed
  claimedPorts : sameIntSets outbound.accepted expected.allowedOutboundPorts = true
  claimedExplicit : decide (claims.allowedOutboundPorts ≠ []) = expected.outboundPortsExplicit
  cap : ¬claims.maintenanceGraceCapSeconds.any (· < 0) = true
  uri : claims.authorizerStatusURI ≠ [] →
    validateAuthorizerStatusURI env claims.authorizerStatusURI = .ok ()
  registration : attested.toRegistration = expected.toRegistration
  outboundAllowed : attested.outboundAllowed = expected.outboundAllowed
  allowedOutboundPorts : attested.allowedOutboundPorts = expected.allowedOutboundPorts
  outboundPortsExplicit : attested.outboundPortsExplicit = expected.outboundPortsExplicit

theorem buildMetadataFromClaims_from {claims : Claims} {expected : Stage0Info}
    {nonce : List Char} {attested : AttestationMetadata}
    (h : buildMetadataFromClaims env claims expected nonce = .ok attested) :
    ∃ outbound, attested.From env claims expected outbound := by
  unfold buildMetadataFromClaims at h
  obtain ⟨_, -, h⟩ := parts_of_ok h
  obtain ⟨sets, -, h⟩ := parts_of_ok h
  obtain ⟨_, -, h⟩ := parts_of_ok h
  obtain ⟨_, -, h⟩ := parts_of_ok h
  obtain ⟨_, -, h⟩ := parts_of_ok h
  obtain ⟨_, hallowed, h⟩ := parts_of_ok h
  obtain ⟨outbound, houtbound, h⟩ := parts_of_ok h
  obtain ⟨_, hports, h⟩ := parts_of_ok h
  obtain ⟨_, hexplicit, h⟩ := parts_of_ok h
  obtain ⟨_, -, h⟩ := parts_of_ok h
  obtain ⟨_, hcap, h⟩ := parts_of_ok h
  have hallowed := not_not.mp (failIf_eq_ok.mp hallowed)
  have hports := (Bool.not_eq_false _).mp (failIf_eq_ok.mp hports)
  have hexplicit := not_not.mp (failIf_eq_ok.mp hexplicit)
  have hcap := failIf_eq_ok.mp hcap
  refine ⟨outbound, ?_⟩
  split at h
  · obtain ⟨_, huri, h⟩ := parts_of_ok h
    obtain rfl := Except.ok.inj h
    exact ⟨malformed_eq_ok.mp houtbound, hallowed, hports, hexplicit, hcap, fun _ => huri, rfl, rfl,
      rfl, rfl⟩
  · next hempty =>
    obtain rfl := Except.ok.inj h
    exact ⟨malformed_eq_ok.mp houtbound, hallowed, hports, hexplicit, hcap,
      fun hne => absurd hne hempty, rfl, rfl, rfl, rfl⟩

/-- `NewBackend`, as far as the pools are concerned. -/
def newBackend (id : List Char) (attested : AttestationMetadata) : Backend where
  id := id
  hostnames := attested.hostnames
  tcpPorts := attested.tcpPorts
  udpRoutes := attested.udpRoutes
  weight := attested.weight
  weight_pos := attested.weight_pos
  weight_lt := attested.weight_lt

/-- The backend comes out of some handshake. -/
def Backend.Accepted (env : Environment) (b : Backend) : Prop :=
  ∃ claims0 claims1 nonce attested,
    performHandshake env claims0 claims1 nonce = .ok attested ∧ b = newBackend b.id attested

/-- No backend that passes the handshake has a hostname in the name space of the port
pools. -/
theorem Backend.Accepted.hostnames {b : Backend} (h : b.Accepted env) :
    ∀ n ∈ b.hostnames, ¬Reserved n := by
  obtain ⟨claims0, claims1, nonce, attested, hshake, hb⟩ := h
  unfold performHandshake at hshake
  obtain ⟨info0, hinfo, hattested⟩ := parts_of_ok hshake
  obtain ⟨_, hfrom⟩ := buildMetadataFromClaims_from hattested
  have hreg := hfrom.registration
  have hnames : b.hostnames = info0.hostnames := by
    rw [hb]
    exact congrArg Registration.hostnames hreg
  rw [hnames]
  exact validateStage0Claims_hostnames hinfo

end NexusProxy.Hub
