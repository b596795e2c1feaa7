import NexusProxy.Hub.Handshake

/-! Package `auth`: a backend's token is checked with a shared secret, or by a remote verifier
with the secret as a fallback. -/
namespace NexusProxy.Hub
open Checks

/-- The payload of a token: the claims of the backend, and those that the JWT library checks. -/
structure TokenClaims extends Claims where
  issuer : List Char
  subject : List Char
  audience : List (List Char)
  expiresAt : Option ℤ
  notBefore : Option ℤ

def tokenIssuer : List Char := "authorizer".toList

def tokenAudience : List Char := "nexus".toList

/-- The JWT library. `parse` reads a token at a time and checks that it is signed with the secret
by an HMAC method and is for the audience and from the issuer. Beside the claims it returns
whether the token is valid; an error is the text of its own. -/
structure JWT where
  sign : List Char → TokenClaims → List Char
  numericDate : ℤ → ℤ
  parse : (secret audience issuer : List Char) → (now : ℤ) → (token : List Char) →
    Except (List Char) (TokenClaims × Bool)

/-- `localValidator.Validate`. -/
def localValidate (jwt : JWT) (secret : List Char) (now : ℤ) (token : List Char) :
    Except (List Char) Claims :=
  match jwt.parse secret tokenAudience tokenIssuer now token with
  | .error err => .error ("jwt validation failed: ".toList ++ err)
  | .ok (c, valid) => if valid then .ok c.toClaims else .error "invalid jwt token".toList

structure RemoteResponse where
  valid : Bool
  claims : Option Claims
  error : List Char

/-- How the request to the remote verifier ends. The body may fail to decode. -/
inductive VerifierReply where
  | failed (err : List Char)
  | response (status : ℕ) (body : Except (List Char) RemoteResponse)

/-- `remoteValidator.Validate`, with the verdict of the fallback if there is one. -/
def remoteValidate (fmt : ℕ → List Char) (fallback : Option (Except (List Char) Claims)) :
    VerifierReply → Except (List Char) Claims
  | .failed err => fallback.getD (.error ("remote verifier request failed: ".toList ++ err))
  | .response status body =>
      if 500 ≤ status then
        fallback.getD (.error ("remote verifier returned status ".toList ++ fmt status))
      else if status ≠ 200 then
        .error ("remote verifier rejected token with status ".toList ++ fmt status)
      else
        match body with
        | .error err => .error ("decode remote verifier response: ".toList ++ err)
        | .ok r =>
            if r.valid then
              match r.claims with
              | none => .error "remote verifier returned no claims".toList
              | some claims => .ok claims
            else if r.error ≠ [] then
              .error ("remote verifier invalid token: ".toList ++ r.error)
            else .error "remote verifier rejected token".toList

/-- The settings of `NewValidator`, its library code, and the remote verifier. -/
structure ValidatorSetup where
  jwt : JWT
  backendsJWTSecret : List Char
  remoteVerifierURL : List Char
  reply : ℤ → List Char → VerifierReply
  itoa : ℕ → List Char

def newValidator (v : ValidatorSetup) :
    Except (List Char) (ℤ → List Char → Except (List Char) Claims) :=
  let fallback (now : ℤ) (token : List Char) :=
    if v.backendsJWTSecret = [] then none
    else some (localValidate v.jwt v.backendsJWTSecret now token)
  if v.remoteVerifierURL = [] then
    if v.backendsJWTSecret = [] then
      .error "backendsJWTSecret must be set when remoteVerifierURL is not configured".toList
    else .ok (localValidate v.jwt v.backendsJWTSecret)
  else .ok fun now token => remoteValidate v.itoa (fallback now token) (v.reply now token)

theorem localValidate_ok {jwt : JWT} {secret token : List Char} {now : ℤ} {claims : Claims} :
    localValidate jwt secret now token = .ok claims ↔
      ∃ c, jwt.parse secret tokenAudience tokenIssuer now token = .ok (c, true) ∧
        c.toClaims = claims := by
  unfold localValidate
  rcases hparse : jwt.parse secret tokenAudience tokenIssuer now token with err | ⟨c, valid⟩
  · simp
  · cases valid with
    | true => simp
    | false => simp

/-- A verdict of the remote verifier stands; the fallback speaks only when there is none. -/
theorem remoteValidate_ok {fmt : ℕ → List Char} {fallback : Option (Except (List Char) Claims)}
    {reply : VerifierReply} {claims : Claims} (h : remoteValidate fmt fallback reply = .ok claims) :
    fallback = some (.ok claims) ∨ ∃ err, reply = .response 200 (.ok ⟨true, some claims, err⟩) := by
  have hfallback {err : List Char} (h : fallback.getD (.error err) = .ok claims) :
      fallback = some (.ok claims) := by
    cases fallback with
    | none => cases h
    | some verdict => exact congrArg some h
  cases reply with
  | failed err => exact .inl (hfallback h)
  | response status body =>
    simp only [remoteValidate] at h
    split_ifs at h with hserver hstatus
    · exact .inl (hfallback h)
    · obtain rfl := not_not.mp hstatus
      rcases body with err | ⟨valid, claimed, err⟩
      · cases h
      · dsimp only at h
        split_ifs at h with hvalid
        obtain rfl : valid = true := hvalid
        cases claimed with
        | none => cases h
        | some claims' =>
          obtain rfl := Except.ok.inj h
          exact .inr ⟨err, rfl⟩

/-- A token is accepted on the word of the remote verifier, or else because it is signed with the
secret. -/
theorem newValidator_accepts {v : ValidatorSetup}
    {validate : ℤ → List Char → Except (List Char) Claims} (h : newValidator v = .ok validate)
    {now : ℤ} {token : List Char} {claims : Claims} (hok : validate now token = .ok claims) :
    localValidate v.jwt v.backendsJWTSecret now token = .ok claims ∨
      ∃ err, v.reply now token = .response 200 (.ok ⟨true, some claims, err⟩) := by
  unfold newValidator at h
  dsimp only at h
  by_cases hurl : v.remoteVerifierURL = []
  · rw [if_pos hurl] at h
    split_ifs at h
    obtain rfl := Except.ok.inj h
    exact .inl hok
  · rw [if_neg hurl] at h
    obtain rfl := Except.ok.inj h
    rcases remoteValidate_ok hok with hfallback | hremote
    · split_ifs at hfallback
      exact .inl (Option.some.inj hfallback)
    · exact .inr hremote

/-- `performHandshake`: the two tokens, the nonce in between, and the times of the checks. -/
def authenticate (env : Environment) (validate : ℤ → List Char → Except (List Char) Claims)
    (stage0Token nonce stage1Token : List Char) (now₀ now₁ : ℤ) :
    Except HandshakeError AttestationMetadata := do
  let claims0 ← (validate now₀ stage0Token).mapError fun err =>
    .plain ("stage0 token validation failed: ".toList ++ err)
  let info0 ← validateStage0Claims { env with now := now₀ } claims0
  let claims1 ← (validate now₁ stage1Token).mapError fun err =>
    .plain ("stage1 token validation failed: ".toList ++ err)
  buildMetadataFromClaims { env with now := now₁ } claims1 info0 nonce

end NexusProxy.Hub
