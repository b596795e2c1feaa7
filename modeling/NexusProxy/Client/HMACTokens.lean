import NexusProxy.Client.TokenProviders
import NexusProxy.Hub.Reauth
import NexusProxy.Hub.Validator

/-! Tokens that a backend signs itself. With the secret of the relay and the cache time well
inside the lifetime of a token, a handshake comes out as the relay's policy on the configured
claims has it, whatever the cache holds. -/
namespace NexusProxy.Client.Tokens
open Checks Hostnames Hub

/-- The options that `IssueToken` of `HMACTokenProvider` reads. -/
structure AttestationOptions where
  cacheHandshake : ℤ
  tokenTTL : ℤ
  handshakeMaxAgeSeconds : ℤ
  reauthIntervalSeconds : ℤ
  reauthGraceSeconds : ℤ
  maintenanceGraceCapSeconds : ℤ
  authorizerStatusURI : List Char
  policyVersion : List Char
  outboundAllowed : Bool
  allowedOutboundPorts : List ℤ

/-- The provider without its cache. The secret is the one that `NewHMACTokenProvider` has found. -/
structure HMACTokenProvider where
  secret : List Char
  opts : AttestationOptions
  backendName : List Char
  hostnames : List (List Char)
  tcpPorts : List ℤ
  udpRoutes : List UDPRouteConfig
  weight : ℤ
  weight_lt : weight < 2 ^ 63

def optionalInt (n : ℤ) : Option ℤ := if n ≤ 0 then none else some n

namespace HMACTokenProvider
variable (p : HMACTokenProvider)

def ttl : ℤ := if p.opts.tokenTTL ≤ 0 then 30 * 10 ^ 9 else p.opts.tokenTTL

def claims (numericDate : ℤ → ℤ) (stage : TokenStage) (nonce : List Char) (now : ℤ) :
    TokenClaims where
  hostnames := p.hostnames
  tcpPorts := p.tcpPorts
  udpRoutes := p.udpRoutes.map fun r => ⟨r.port, r.flowIdleTimeoutSeconds⟩
  weight := p.weight
  weight_lt := p.weight_lt
  sessionNonce := if stage ≠ .handshake then nonce else []
  handshakeMaxAgeSeconds :=
    if stage = .handshake then optionalInt p.opts.handshakeMaxAgeSeconds else none
  reauthIntervalSeconds := optionalInt p.opts.reauthIntervalSeconds
  reauthGraceSeconds := optionalInt p.opts.reauthGraceSeconds
  maintenanceGraceCapSeconds := optionalInt p.opts.maintenanceGraceCapSeconds
  authorizerStatusURI := p.opts.authorizerStatusURI
  policyVersion := p.opts.policyVersion
  outboundAllowed := p.opts.outboundAllowed
  allowedOutboundPorts := if p.opts.outboundAllowed then p.opts.allowedOutboundPorts else []
  issuedAt := some (numericDate now)
  issuer := tokenIssuer
  subject := p.backendName
  audience := [tokenAudience]
  expiresAt := some (numericDate (now + p.ttl))
  notBefore := none

def signToken (jwt : JWT) (stage : TokenStage) (nonce : List Char) (now : ℤ) : Token :=
  ⟨jwt.sign p.secret (p.claims jwt.numericDate stage nonce now), some (now + p.ttl)⟩

/-- `IssueToken`, with the three times that it reads: for the look into the cache, for the claims
and for the store. Of the request it uses the stage and the nonce. -/
def issueToken (jwt : JWT) (cache : TokenCache) (stage : TokenStage) (nonce : List Char)
    (looked now stored : ℤ) : Token × TokenCache :=
  if stage = .handshake ∧ 0 < p.opts.cacheHandshake then
    match cache.get looked with
    | some tok => (tok, cache)
    | none =>
        let result := p.signToken jwt stage nonce now
        (result, .set result p.opts.cacheHandshake stored)
  else (p.signToken jwt stage nonce now, cache)

end HMACTokenProvider

/-- `Client.issueToken` on the token of the provider. -/
def tokenText (u : Unicode) (tok : Token) : Except (List Char) (List Char) :=
  if trimSpace u tok.value = [] then .error "token provider returned empty token".toList
  else .ok (trimSpace u tok.value)

/-- The times of a call of `IssueToken`. -/
structure Times where
  looked : ℤ
  issued : ℤ
  stored : ℤ

section
variable (u : Unicode) (jwt : JWT) (p : HMACTokenProvider)

/-- The two tokens that `connectAndAuthenticate` sends: one before and one for the challenge. -/
def connectAndAuthenticate (cache : TokenCache) (nonce : List Char) (t₀ t₁ : Times) :
    Except (List Char) (List Char × List Char) := do
  let (tok0, cache) := p.issueToken jwt cache .handshake [] t₀.looked t₀.issued t₀.stored
  let handshakeToken ← tokenText u tok0
  failIf (trimSpace u nonce = []) "challenge missing nonce".toList
  let (tok1, _) := p.issueToken jwt cache .attest nonce t₁.looked t₁.issued t₁.stored
  let attestedToken ← tokenText u tok1
  return (handshakeToken, attestedToken)

/-- The cache after some handshakes. Calls for other stages leave it alone, and those that use it
hold its lock to the end. -/
def cacheAfter : List Times → TokenCache → TokenCache
  | [], cache => cache
  | t :: ts, cache =>
      cacheAfter ts (p.issueToken jwt cache .handshake [] t.looked t.issued t.stored).2

theorem claimed_weight_pos (claims : Claims) :
    0 < if claims.weight ≤ 0 then 1 else claims.weight := by
  split_ifs <;> omega

theorem claimed_weight_lt (claims : Claims) :
    (if claims.weight ≤ 0 then 1 else claims.weight) < 2 ^ 63 := by
  have hlt := claims.weight_lt
  split_ifs <;> omega

/-- What the relay makes of the configured claims, without any tokens. -/
def attestConfigured (env : Environment) (claims : Claims) :
    Except HandshakeError AttestationMetadata := do
  let sets ← claimSets env claims "stage0 token missing hostnames and port claims".toList
  let outbound ← malformed
    (normalizeOutboundPortClaims env.config claims.outboundAllowed claims.allowedOutboundPorts)
  if claims.authorizerStatusURI ≠ [] then validateAuthorizerStatusURI env claims.authorizerStatusURI
  return {
    hostnames := sets.hosts.accepted
    tcpPorts := sets.tcp.accepted
    udpRoutes := sets.udp.accepted
    weight := if claims.weight ≤ 0 then 1 else claims.weight
    weight_pos := claimed_weight_pos claims
    weight_lt := claimed_weight_lt claims
    reauthInterval := (reauthPolicy claims).1
    reauthGrace := (reauthPolicy claims).2
    maintenanceCap := claims.maintenanceGraceCapSeconds.map seconds
    authorizerStatusURI := claims.authorizerStatusURI
    policyVersion := claims.policyVersion
    outboundAllowed := claims.outboundAllowed
    allowedOutboundPorts := outbound.accepted
    outboundPortsExplicit := decide (claims.allowedOutboundPorts ≠ [])
    rejected := sets.rejected ++ outbound.rejected
    truncated := sets.truncated || outbound.truncated }

/-- `jwt.NewNumericDate` cuts a time to the seconds. -/
def Truncates : Prop := ∀ t, jwt.numericDate t ≤ t ∧ t < jwt.numericDate t + 10 ^ 9

/-- A token that is signed with the secret, for the audience and from the issuer that are asked
for and without an earliest time, is read back until it expires. The text of a token has no space
at its ends. -/
structure Reads (c : TokenClaims) : Prop where
  parse : ∀ now audience, audience ∈ c.audience → c.notBefore = none →
    (∀ expiry ∈ c.expiresAt, now < expiry) →
      jwt.parse p.secret audience c.issuer now (jwt.sign p.secret c) = .ok (c, true)
  nonempty : jwt.sign p.secret c ≠ []
  trimmed : trimSpace u (jwt.sign p.secret c) = jwt.sign p.secret c

/-- The cached token was signed for the handshake, and its deadline is bounded by that time. -/
def CacheBound (delay : ℤ) (cache : TokenCache) : Prop :=
  ∀ expiry, cache.expiry = some expiry → ∃ issued,
    cache.token = p.signToken jwt .handshake [] issued ∧
      expiry ≤ issued + delay + p.opts.cacheHandshake

variable {u jwt p} {delay : ℤ} {cache : TokenCache}

theorem CacheBound.issueToken (h : CacheBound jwt p delay cache) {t : Times}
    (ht : t.stored ≤ t.issued + delay) :
    CacheBound jwt p delay
      (p.issueToken jwt cache .handshake [] t.looked t.issued t.stored).2 := by
  unfold HMACTokenProvider.issueToken
  split_ifs with hcaches
  · cases hget : cache.get t.looked with
    | some tok => exact h
    | none =>
      intro expiry hexpiry
      obtain ⟨htoken, hle, -⟩ := TokenCache.set_expiry hcaches.2 hexpiry
      exact ⟨t.issued, htoken, by omega⟩
  · exact h

theorem cacheAfter_bound {ts : List Times} (h : CacheBound jwt p delay cache)
    (hts : ∀ t ∈ ts, t.stored ≤ t.issued + delay) :
    CacheBound jwt p delay (cacheAfter jwt p ts cache) := by
  induction ts generalizing cache with
  | nil => exact h
  | cons t ts ih =>
    rw [cacheAfter]
    apply ih (h.issueToken (hts t List.mem_cons_self))
    intro t' ht'
    exact hts t' (List.mem_cons_of_mem t ht')

/-- The handshake token is of the claimed kind, and not older than the cache time and the delays
when the relay checks it. -/
theorem issueToken_handshake (h : CacheBound jwt p delay cache) (hdelay : 0 ≤ delay) {t : Times}
    {checked : ℤ} (hlooked : checked ≤ t.looked + delay) (hissued : checked ≤ t.issued + delay) :
    ∃ issued, (p.issueToken jwt cache .handshake [] t.looked t.issued t.stored).1 =
        p.signToken jwt .handshake [] issued ∧
      checked ≤ issued + (max 0 p.opts.cacheHandshake + 2 * delay) := by
  unfold HMACTokenProvider.issueToken
  split_ifs with hcaches
  · cases hget : cache.get t.looked with
    | some tok =>
      obtain ⟨rfl, expiry, hexpiry, hle⟩ := TokenCache.get_eq_some hget
      obtain ⟨issued, htoken, hbound⟩ := h expiry hexpiry
      exact ⟨issued, htoken, by omega⟩
    | none => exact ⟨t.issued, rfl, by omega⟩
  · exact ⟨t.issued, rfl, by omega⟩

theorem localValidate_signed {stage : TokenStage} {nonce : List Char} {issued now : ℤ}
    (hdates : Truncates jwt) (hreads : Reads u jwt p (p.claims jwt.numericDate stage nonce issued))
    (h : now + 10 ^ 9 ≤ issued + p.ttl) :
    localValidate jwt p.secret now (p.signToken jwt stage nonce issued).value =
      .ok (p.claims jwt.numericDate stage nonce issued).toClaims := by
  have hbefore : ∀ expiry ∈ (p.claims jwt.numericDate stage nonce issued).expiresAt,
      now < expiry := by
    intro expiry hexpiry
    obtain rfl := Option.some.inj hexpiry
    have hdate := hdates (issued + p.ttl)
    omega
  have hparse := hreads.parse now tokenAudience (List.mem_singleton_self _) rfl hbefore
  exact localValidate_ok.mpr ⟨_, hparse, rfl⟩

theorem tokenText_signed {stage : TokenStage} {nonce : List Char} {issued : ℤ}
    (hreads : Reads u jwt p (p.claims jwt.numericDate stage nonce issued)) :
    tokenText u (p.signToken jwt stage nonce issued) =
      .ok (p.signToken jwt stage nonce issued).value := by
  unfold tokenText HMACTokenProvider.signToken
  rw [hreads.trimmed, if_neg hreads.nonempty]

theorem checkAge_signed {env : Environment} {issued : ℤ} (hdates : Truncates jwt)
    (h : 0 < p.opts.handshakeMaxAgeSeconds →
      env.now + 10 ^ 9 ≤ issued + seconds p.opts.handshakeMaxAgeSeconds)
    (hage : 0 < p.opts.handshakeMaxAgeSeconds → 0 ≤ seconds p.opts.handshakeMaxAgeSeconds) :
    checkAge env (p.claims jwt.numericDate .handshake [] issued).toClaims = .ok () := by
  by_cases hmax : p.opts.handshakeMaxAgeSeconds ≤ 0
  · simp [checkAge, HMACTokenProvider.claims, optionalInt, hmax]
  · have hpos : 0 < p.opts.handshakeMaxAgeSeconds := not_le.mp hmax
    have hdate := hdates issued
    have hsince : ¬seconds p.opts.handshakeMaxAgeSeconds <
        since env.now (jwt.numericDate issued) := by
      have hbound := h hpos
      have hnonneg := hage hpos
      unfold since
      omega
    simp only [checkAge, HMACTokenProvider.claims, optionalInt, if_neg hmax, if_pos hpos, if_true]
    exact failIf_eq_ok.mpr hsince

/-- What the first stage keeps of a token with these claims. -/
def stage0Info (claims : Claims) (sets : ClaimSets) (outbound : Normalized ℤ) : Stage0Info where
  hostnames := sets.hosts.accepted
  tcpPorts := sets.tcp.accepted
  udpRoutes := sets.udp.accepted
  weight := if claims.weight ≤ 0 then 1 else claims.weight
  weight_pos := claimed_weight_pos claims
  weight_lt := claimed_weight_lt claims
  outboundAllowed := claims.outboundAllowed
  allowedOutboundPorts := outbound.accepted
  outboundPortsExplicit := decide (claims.allowedOutboundPorts ≠ [])

theorem buildMetadataFromClaims_same {env : Environment} {claims : Claims} {sets : ClaimSets}
    {outbound : Normalized ℤ} {missing nonce : List Char} (hnonce : claims.sessionNonce = nonce)
    (hsets : claimSets env claims missing = .ok sets)
    (houtbound : normalizeOutboundPortClaims env.config claims.outboundAllowed
      claims.allowedOutboundPorts = .ok outbound)
    (hcap : claims.maintenanceGraceCapSeconds.any (· < 0) = false) :
    buildMetadataFromClaims env claims (stage0Info claims sets outbound) nonce =
      attestConfigured env claims := by
  have hsets' (missing' : List Char) : claimSets env claims missing' = .ok sets :=
    claimSets_eq_ok.mpr (claimSets_eq_ok.mp hsets)
  have hudp : DistinctPorts sets.udp.accepted := by
    have hsame : claims.Same claims :=
      ⟨fun _ => .rfl, fun _ => .rfl, fun _ => .rfl, fun _ => .rfl, rfl, rfl, rfl, rfl⟩
    obtain ⟨sets', hsets'', -, -, -, hdistinct⟩ : ∃ sets',
        claimSets env claims missing = .ok sets' ∧ _ ∧ _ ∧ _ ∧
          DistinctPorts sets'.udp.accepted := claimSets_congr hsame hsets
    obtain rfl := Except.ok.inj (hsets.symm.trans hsets'')
    exact hdistinct
  have hhosts : sameStringSets sets.hosts.accepted sets.hosts.accepted = true :=
    sameStringSets_of_perm (List.Perm.refl _)
  have htcp : sameIntSets sets.tcp.accepted sets.tcp.accepted = true :=
    sameIntSets_of_perm (List.Perm.refl _)
  have hroutes : sameUDPRoutes sets.udp.accepted sets.udp.accepted = true :=
    sameUDPRoutes_of_perm hudp (List.Perm.refl _)
  have hports : sameIntSets outbound.accepted outbound.accepted = true :=
    sameIntSets_of_perm (List.Perm.refl _)
  have hweight : ¬(0 < claims.weight ∧
      ¬claims.weight = if claims.weight ≤ 0 then 1 else claims.weight) := by
    split_ifs <;> omega
  have hbind {α β : Type} (a : α) (f : α → Except HandshakeError β) : (.ok a >>= f) = f a := rfl
  unfold buildMetadataFromClaims attestConfigured
  rw [hsets', hsets', malformed_eq_ok.mpr houtbound]
  simp only [stage0Info, hbind, hnonce, hhosts, htcp, hroutes, hports, hcap, failIf, hweight,
    ne_eq, not_true_eq_false, Bool.true_eq_false, Bool.false_eq_true, if_false]

theorem stages_configured {env : Environment} {date : ℤ → ℤ} {nonce : List Char}
    {issued₀ issued₁ now₀ now₁ : ℤ}
    (hage : checkAge { env with now := now₀ } (p.claims date .handshake [] issued₀).toClaims =
      .ok ()) :
    (validateStage0Claims { env with now := now₀ }
        (p.claims date .handshake [] issued₀).toClaims >>= fun info0 =>
          buildMetadataFromClaims { env with now := now₁ }
            (p.claims date .attest nonce issued₁).toClaims info0 nonce) =
      attestConfigured env (p.claims date .attest nonce 0).toClaims := by
  have hclaimSets (missing : List Char) :
      claimSets { env with now := now₀ } (p.claims date .handshake [] issued₀).toClaims missing =
        claimSets env (p.claims date .attest nonce 0).toClaims missing := rfl
  have hcap : (p.claims date .attest nonce 0).maintenanceGraceCapSeconds.any (· < 0) = false := by
    simp only [HMACTokenProvider.claims, optionalInt]
    split_ifs with hpos
    · rfl
    · simpa using (not_le.mp hpos).le
  unfold validateStage0Claims
  rw [hclaimSets, hage]
  cases hsets : claimSets env (p.claims date .attest nonce 0).toClaims
      "stage0 token missing hostnames and port claims".toList with
  | error err =>
    unfold attestConfigured
    rw [hsets]
    rfl
  | ok sets =>
    cases houtbound : normalizeOutboundPortClaims env.config
        (p.claims date .attest nonce 0).outboundAllowed
        (p.claims date .attest nonce 0).allowedOutboundPorts with
    | error err =>
      have hmalformed : malformed (normalizeOutboundPortClaims env.config
          (p.claims date .handshake [] issued₀).outboundAllowed
          (p.claims date .handshake [] issued₀).allowedOutboundPorts) =
          .error (.terminal err [] false .inputMalformed) := congrArg malformed houtbound
      unfold attestConfigured
      rw [hsets, houtbound, hmalformed]
      rfl
    | ok outbound =>
      have hmalformed : malformed (normalizeOutboundPortClaims env.config
          (p.claims date .handshake [] issued₀).outboundAllowed
          (p.claims date .handshake [] issued₀).allowedOutboundPorts) =
          .ok outbound := congrArg malformed houtbound
      rw [hmalformed]
      exact buildMetadataFromClaims_same rfl hsets houtbound hcap

/-- A backend that signs with the secret of the relay is attested exactly as the policy of the
relay has it for the configured claims, with the same result or the same error, after any
handshakes and whatever the cache then holds, as long as the cache time, the delays and a second
fit into the lifetime of a token and into `handshake_max_age_seconds`. -/
theorem hmac_backend_attested {env : Environment} {nonce : List Char} {earlier : List Times}
    {t₀ t₁ : Times} {checked₀ checked₁ : ℤ} (hdelay : 0 ≤ delay)
    (hearlier : ∀ t ∈ earlier, t.stored ≤ t.issued + delay)
    (hlooked : checked₀ ≤ t₀.looked + delay) (hissued₀ : checked₀ ≤ t₀.issued + delay)
    (hissued₁ : checked₁ ≤ t₁.issued + delay) (hnonce : trimSpace u nonce ≠ [])
    (hdates : Truncates jwt)
    (hreads₀ : ∀ issued, Reads u jwt p (p.claims jwt.numericDate .handshake [] issued))
    (hreads₁ : ∀ issued, Reads u jwt p (p.claims jwt.numericDate .attest nonce issued))
    (httl : max 0 p.opts.cacheHandshake + 2 * delay + 10 ^ 9 ≤ p.ttl)
    (hage : 0 < p.opts.handshakeMaxAgeSeconds →
      max 0 p.opts.cacheHandshake + 2 * delay + 10 ^ 9 ≤ seconds p.opts.handshakeMaxAgeSeconds) :
    ∃ token0 token1,
      connectAndAuthenticate u jwt p (cacheAfter jwt p earlier .zero) nonce t₀ t₁ =
        .ok (token0, token1) ∧
      authenticate env (localValidate jwt p.secret) token0 nonce token1 checked₀ checked₁ =
        attestConfigured env (p.claims jwt.numericDate .attest nonce 0).toClaims := by
  have hzero : CacheBound jwt p delay .zero := by
    intro expiry hexpiry
    cases hexpiry
  obtain ⟨issued, htoken, hfresh⟩ :=
    issueToken_handshake (cacheAfter_bound hzero hearlier) hdelay hlooked hissued₀
  have hattest (c : TokenCache) :
      (p.issueToken jwt c .attest nonce t₁.looked t₁.issued t₁.stored).1 =
        p.signToken jwt .attest nonce t₁.issued := by
    simp [HMACTokenProvider.issueToken]
  have hvalid₀ : localValidate jwt p.secret checked₀ _ = _ :=
    localValidate_signed hdates (hreads₀ issued) (by omega)
  have hvalid₁ : localValidate jwt p.secret checked₁ _ = _ :=
    localValidate_signed hdates (hreads₁ t₁.issued) (by omega)
  have hchecked : checkAge { env with now := checked₀ }
      (p.claims jwt.numericDate .handshake [] issued).toClaims = .ok () := by
    apply checkAge_signed hdates
    · intro hpos
      have := hage hpos
      show checked₀ + 10 ^ 9 ≤ _
      omega
    · intro hpos
      have := hage hpos
      omega
  refine ⟨(p.signToken jwt .handshake [] issued).value,
    (p.signToken jwt .attest nonce t₁.issued).value, ?_, ?_⟩
  · unfold connectAndAuthenticate
    dsimp only
    rw [htoken, hattest, tokenText_signed (hreads₀ issued), tokenText_signed (hreads₁ _),
      failIf_eq_ok.mpr hnonce]
    rfl
  · unfold authenticate
    rw [hvalid₀, hvalid₁]
    exact stages_configured hchecked

end

/-- A backend that claims port 25, keeps a handshake token for ten seconds and signs for sixty. -/
def mailProvider : HMACTokenProvider where
  secret := ['k']
  opts :=
    { cacheHandshake := 10 * 10 ^ 9
      tokenTTL := 60 * 10 ^ 9
      handshakeMaxAgeSeconds := 30
      reauthIntervalSeconds := 60
      reauthGraceSeconds := 0
      maintenanceGraceCapSeconds := 0
      authorizerStatusURI := []
      policyVersion := []
      outboundAllowed := false
      allowedOutboundPorts := [] }
  backendName := ['b']
  hostnames := []
  tcpPorts := [25]
  udpRoutes := []
  weight := 1
  weight_lt := one_weight_lt

def wholeSeconds (t : ℤ) : ℤ := t / 10 ^ 9 * 10 ^ 9

def mailClaims : TokenStage → List Char → ℤ → TokenClaims := mailProvider.claims wholeSeconds

/-- Its tokens, for one nonce: the secret, the stage and the date. -/
def mailTokens : JWT where
  sign secret c := secret ++ (if c.sessionNonce = [] then 'h' else 'a') ::
    Protocol.itoa (c.issuedAt.getD 0)
  numericDate := wholeSeconds
  parse secret audience issuer now text :=
    let check (c : TokenClaims) : Except (List Char) (TokenClaims × Bool) :=
      if (∀ expiry ∈ c.expiresAt, now < expiry) ∧ audience ∈ c.audience ∧ issuer = c.issuer then
        .ok (c, true)
      else .error []
    if secret.isPrefixOf text then
      match text.drop secret.length with
      | 'h' :: date => check (mailClaims .handshake [] (Protocol.atoi date))
      | 'a' :: date => check (mailClaims .attest ['x'] (Protocol.atoi date))
      | _ => .error []
    else .error []

theorem mailTokens_truncates : Truncates mailTokens := by
  intro t
  show wholeSeconds t ≤ t ∧ t < wholeSeconds t + 10 ^ 9
  unfold wholeSeconds
  omega

theorem mailClaims_date (stage : TokenStage) (nonce : List Char) (t : ℤ) :
    mailClaims stage nonce (wholeSeconds t) = mailClaims stage nonce t := by
  have hdate : wholeSeconds (wholeSeconds t) = wholeSeconds t := by
    unfold wholeSeconds
    omega
  have hexpiry : wholeSeconds (wholeSeconds t + mailProvider.ttl) =
      wholeSeconds (t + mailProvider.ttl) := by
    show wholeSeconds (wholeSeconds t + 60 * 10 ^ 9) = wholeSeconds (t + 60 * 10 ^ 9)
    unfold wholeSeconds
    omega
  unfold mailClaims HMACTokenProvider.claims
  rw [hdate, hexpiry]

theorem itoa_ne_space (n : ℤ) : ∀ c ∈ Protocol.itoa n, c ≠ ' ' := by
  have hdigit : ∀ d < 10, Nat.digitChar d ≠ ' ' := by decide
  have htext (n : ℕ) : ∀ c ∈ ((Nat.digits 10 n).map Nat.digitChar).reverse, c ≠ ' ' := by
    intro c hc
    rw [List.mem_reverse, List.mem_map] at hc
    obtain ⟨d, hd, rfl⟩ := hc
    exact hdigit d (Nat.digits_lt_base (by decide) hd)
  match n with
  | .ofNat 0 =>
    intro c hc
    obtain rfl := List.mem_singleton.mp hc
    decide
  | .ofNat (n + 1) => exact htext (n + 1)
  | .negSucc n =>
    intro c hc
    rcases List.mem_cons.mp hc with rfl | hc
    · decide
    · exact htext (n + 1) c hc

theorem mailTokens_trimmed {text : List Char} (h : ∀ c ∈ text, c ≠ ' ') :
    trimSpace dialEnv.unicode text = text := by
  have hspace : ∀ c ∈ text, ¬dialEnv.unicode.isSpace c = true := by
    intro c hc hsp
    exact h c hc (by simpa [dialEnv] using hsp)
  unfold trimSpace
  rw [List.dropWhile_eq_self_iff.mpr, List.rdropWhile_eq_self_iff.mpr]
  · intro hne
    exact hspace _ (List.getLast_mem hne)
  · intro hne
    exact hspace _ (List.getElem_mem hne)

theorem mailTokens_reads {stage : TokenStage} {nonce : List Char}
    (h : stage = .handshake ∧ nonce = [] ∨ stage = .attest ∧ nonce = ['x']) (issued : ℤ) :
    Reads dialEnv.unicode mailTokens mailProvider (mailClaims stage nonce issued) := by
  have htext : ∃ c : Char, c ≠ ' ' ∧
      mailTokens.sign ['k'] (mailClaims stage nonce issued) =
        'k' :: c :: Protocol.itoa (wholeSeconds issued) ∧
      ∀ audience issuer now,
        mailTokens.parse ['k'] audience issuer now
            ('k' :: c :: Protocol.itoa (wholeSeconds issued)) =
          let claims := mailClaims stage nonce
            (Protocol.atoi (Protocol.itoa (wholeSeconds issued)))
          if (∀ expiry ∈ claims.expiresAt, now < expiry) ∧ audience ∈ claims.audience ∧
            issuer = claims.issuer then .ok (claims, true) else .error [] := by
    rcases h with ⟨rfl, rfl⟩ | ⟨rfl, rfl⟩
    · exact ⟨'h', by decide, rfl, fun _ _ _ => rfl⟩
    · exact ⟨'a', by decide, rfl, fun _ _ _ => rfl⟩
  obtain ⟨c, hc, htext, hparse⟩ := htext
  have hsecret : mailProvider.secret = ['k'] := rfl
  refine ⟨fun now audience haudience _ hexpiry => ?_, ?_, ?_⟩ <;> rw [hsecret, htext]
  · rw [hparse, Protocol.atoi_itoa, mailClaims_date]
    exact if_pos ⟨hexpiry, haudience, rfl⟩
  · exact List.cons_ne_nil _ _
  · apply mailTokens_trimmed
    simp only [List.mem_cons, forall_eq_or_imp]
    exact ⟨by decide, hc, itoa_ne_space _⟩

/-- The second handshake finds the token of the first in the cache. -/
theorem hmac_backend_attested_mail :
    ∃ token0 token1,
      connectAndAuthenticate dialEnv.unicode mailTokens mailProvider
        (cacheAfter mailTokens mailProvider [⟨0, 1, 2⟩] .zero) ['x'] ⟨9, 9, 9⟩ ⟨12, 12, 12⟩ =
          .ok (token0, token1) ∧
      authenticate dialEnv (localValidate mailTokens ['k']) token0 ['x'] token1 11 14 =
        attestConfigured dialEnv (mailClaims .attest ['x'] 0).toClaims := by
  exact hmac_backend_attested (show (0 : ℤ) ≤ 2 by decide) (by decide) (by decide) (by decide)
    (by decide) (by decide) mailTokens_truncates (mailTokens_reads (.inl ⟨rfl, rfl⟩))
    (mailTokens_reads (.inr ⟨rfl, rfl⟩)) (by decide) fun _ => by decide

end NexusProxy.Client.Tokens
