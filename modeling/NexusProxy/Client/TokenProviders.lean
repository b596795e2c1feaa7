import NexusProxy.Hostnames
import NexusProxy.Lib.Transition
import NexusProxy.Protocol

/-! The tokens that a backend shows to the relay, and the provider that asks an external
command for them. Calls of the provider may overlap: the cache of handshake tokens is locked for
a look and for a store, and not while the command runs. -/
namespace NexusProxy.Client.Tokens
open Hostnames Protocol Transition

inductive TokenStage where
  | handshake
  | attest
  | reauth
  deriving DecidableEq

def TokenStage.text : TokenStage → List Char
  | handshake => "handshake".toList
  | attest => "attest".toList
  | reauth => "reauth".toList

/-- A token, with its expiry unless that is the zero time. -/
structure Token where
  value : List Char
  expiry : Option ℤ
  deriving DecidableEq

structure UDPRouteConfig where
  port : ℤ
  flowIdleTimeoutSeconds : Option ℤ
  deriving DecidableEq

structure TokenRequest where
  stage : TokenStage
  sessionNonce : List Char
  backendName : List Char
  hostnames : List (List Char)
  tcpPorts : List ℤ
  udpRoutes : List UDPRouteConfig
  weight : ℤ
  outboundAllowed : Bool
  allowedOutboundPorts : List ℤ
  deriving DecidableEq

/-! ### The cache of one token -/

/-- A cached token until its deadline. Without a deadline there is no entry. -/
structure TokenCache where
  token : Token
  expiry : Option ℤ
  deriving DecidableEq

namespace TokenCache

def zero : TokenCache := ⟨⟨[], none⟩, none⟩

def get (tc : TokenCache) (now : ℤ) : Option Token :=
  match tc.expiry with
  | none => none
  | some expiry => if expiry < now then none else some tc.token

def set (tok : Token) (ttl now : ℤ) : TokenCache :=
  if tok.value = [] then zero
  else
    match tok.expiry with
    | none => if ttl ≤ 0 then ⟨tok, none⟩ else ⟨tok, some (now + ttl)⟩
    | some expiry =>
        if 0 < ttl ∧ now + ttl < expiry then ⟨tok, some (now + ttl)⟩ else ⟨tok, some expiry⟩

theorem get_eq_some {tc : TokenCache} {now : ℤ} {tok : Token} (h : tc.get now = some tok) :
    tok = tc.token ∧ ∃ expiry, tc.expiry = some expiry ∧ now ≤ expiry := by
  unfold get at h
  cases hexpiry : tc.expiry with
  | none =>
    rw [hexpiry] at h
    cases h
  | some expiry =>
    rw [hexpiry] at h
    dsimp only at h
    split_ifs at h with hpast
    exact ⟨(Option.some.inj h).symm, expiry, rfl, not_lt.mp hpast⟩

theorem set_expiry {tok : Token} {ttl now expiry : ℤ} (httl : 0 < ttl)
    (h : (set tok ttl now).expiry = some expiry) :
    (set tok ttl now).token = tok ∧ expiry ≤ now + ttl ∧ ∀ e, tok.expiry = some e → expiry ≤ e := by
  unfold set at h ⊢
  by_cases hvalue : tok.value = []
  · rw [if_pos hvalue] at h
    cases h
  · rw [if_neg hvalue] at h ⊢
    cases hexpiry : tok.expiry with
    | none =>
      rw [hexpiry] at h
      dsimp only at h ⊢
      rw [if_neg (not_le.mpr httl)] at h ⊢
      refine ⟨rfl, (Option.some.inj h).ge, fun e he => ?_⟩
      cases he
    | some own =>
      rw [hexpiry] at h
      dsimp only at h ⊢
      by_cases hearlier : 0 < ttl ∧ now + ttl < own
      · rw [if_pos hearlier] at h ⊢
        obtain rfl := Option.some.inj h
        refine ⟨rfl, le_rfl, fun e he => ?_⟩
        obtain rfl := Option.some.inj he
        exact hearlier.2.le
      · rw [if_neg hearlier] at h ⊢
        obtain rfl := Option.some.inj h
        refine ⟨rfl, ?_, fun e he => ?_⟩
        · exact not_lt.mp fun hlt => hearlier ⟨httl, hlt⟩
        · exact (Option.some.inj he).le

end TokenCache

/-! ### The command -/

/-- The library code that reads the output of the command. -/
structure Library where
  unicode : Unicode
  /-- `json.Unmarshal` into the two fields, or the text of the error. -/
  decode : List Char → Except (List Char) (List Char × List Char)
  /-- `time.Parse` with RFC 3339, where the zero time counts as none. -/
  parseTime : List Char → Option ℤ

def Library.parseTokenOutput (lib : Library) (raw : List Char) : Except (List Char) Token :=
  let payload := trimSpace lib.unicode raw
  if payload = [] then .error "attestation command returned empty token".toList
  else if payload.head? = some '{' then
    match lib.decode payload with
    | .error err =>
        .error ("failed to decode attestation command JSON: ".toList ++ err)
    | .ok (token, expiry) =>
        if trimSpace lib.unicode token = [] then
          .error "attestation command JSON missing token".toList
        else
          .ok ⟨trimSpace lib.unicode token, if expiry = [] then none else lib.parseTime expiry⟩
  else
    let tokenValue := trimSpace lib.unicode (payload.takeWhile (· ≠ '\n'))
    if tokenValue = [] then
      .error "attestation command output did not contain a token".toList
    else .ok ⟨tokenValue, none⟩

/-- What `NewCommandTokenProvider` keeps of the options, and the environment of the process.
`env` has the variables of the configuration in the order in which the map gives them. -/
structure CommandConfig where
  environ : List (List Char)
  env : List (List Char × List Char)
  cacheHandshake : ℤ

def formatEnv (extra : List (List Char × List Char)) : List (List Char) :=
  extra.map fun x => x.1 ++ '=' :: x.2

def formatTCPPorts (ports : List ℤ) : List Char := [','].intercalate (ports.map itoa)

def formatUDPRoutes (routes : List UDPRouteConfig) : List Char :=
  [','].intercalate (routes.map fun r =>
    match r.flowIdleTimeoutSeconds with
    | some timeout => itoa r.port ++ ':' :: itoa timeout
    | none => itoa r.port)

/-- The environment of the command. The handshake has no nonce yet. -/
def CommandConfig.commandEnv (cfg : CommandConfig) (req : TokenRequest) : List (List Char) :=
  cfg.environ ++ formatEnv cfg.env ++ formatEnv [
    ("NEXUS_ATTESTATION_STAGE".toList, req.stage.text),
    ("NEXUS_BACKEND_NAME".toList, req.backendName),
    ("NEXUS_HOSTNAMES".toList, [','].intercalate req.hostnames),
    ("NEXUS_WEIGHT".toList, itoa req.weight),
    ("NEXUS_TCP_PORTS".toList, formatTCPPorts req.tcpPorts),
    ("NEXUS_UDP_ROUTES".toList, formatUDPRoutes req.udpRoutes),
    ("NEXUS_OUTBOUND_ALLOWED".toList,
      if req.outboundAllowed then "true".toList else "false".toList),
    ("NEXUS_ALLOWED_OUTBOUND_PORTS".toList, formatTCPPorts req.allowedOutboundPorts),
    ("NEXUS_SESSION_NONCE".toList, if req.stage = .handshake then [] else req.sessionNonce)]

/-- How the command ended. -/
inductive Outcome where
  | timedOut (err : List Char)
  | failed (err out : List Char)
  | exited (out : List Char)

/-! ### Calls that overlap -/

/-- Where a call of `IssueToken` stands, with the time of its answer at the end. -/
inductive Call where
  | idle
  | started (req : TokenRequest)
  | running (req : TokenRequest)
  | storing (req : TokenRequest) (tok : Token)
  | done (req : TokenRequest) (result : Except (List Char) Token) (time : ℤ)

/-- A run of the command that has exited. -/
structure Run where
  call : ℕ
  request : TokenRequest
  env : List (List Char)
  out : List Char
  time : ℤ

/-- The provider with its calls and its clock, and the runs of the command as history. -/
structure State where
  clock : ℤ
  handshakeCache : List Char → TokenCache
  calls : ℕ → Call
  runs : List Run

inductive Action where
  | pass (d : ℕ)
  | issueToken (id : ℕ) (req : TokenRequest)
  | lookUp (id : ℕ)
  | finish (id : ℕ) (outcome : Outcome)
  | store (id : ℕ)

def init (clock : ℤ) : State := ⟨clock, fun _ => .zero, fun _ => .idle, []⟩

def State.set (s : State) (id : ℕ) (call : Call) : State :=
  { s with calls := Function.update s.calls id call }

section
variable (lib : Library) (cfg : CommandConfig)

/-- The two tests of the stage and of the setting. -/
def CommandConfig.Caches (req : TokenRequest) : Prop :=
  req.stage = .handshake ∧ 0 < cfg.cacheHandshake

instance (req : TokenRequest) : Decidable (cfg.Caches req) := inferInstanceAs (Decidable (_ ∧ _))

def answer (req : TokenRequest) (time : ℤ) : Outcome → Call
  | .timedOut err => .done req (.error ("attestation command timed out: ".toList ++ err)) time
  | .failed err out =>
      .done req (.error ("attestation command failed: ".toList ++ err ++ " (output: ".toList ++
        trimSpace lib.unicode out ++ ")".toList)) time
  | .exited out =>
      match lib.parseTokenOutput out with
      | .error err => .done req (.error err) time
      | .ok tok =>
          if cfg.Caches req ∧ tok.value ≠ [] then .storing req tok else .done req (.ok tok) time

def step (s : State) : Action → Option State
  | .pass d => some { s with clock := s.clock + d }
  | .issueToken id req =>
      match s.calls id with
      | .idle => some (s.set id (.started req))
      | _ => none
  | .lookUp id =>
      match s.calls id with
      | .started req =>
          if cfg.Caches req then
            match (s.handshakeCache req.backendName).get s.clock with
            | some tok => some (s.set id (.done req (.ok tok) s.clock))
            | none => some (s.set id (.running req))
          else some (s.set id (.running req))
      | _ => none
  | .finish id outcome =>
      match s.calls id with
      | .running req => some { s.set id (answer lib cfg req s.clock outcome) with
          runs :=
            match outcome with
            | .exited out => ⟨id, req, cfg.commandEnv req, out, s.clock⟩ :: s.runs
            | _ => s.runs }
      | _ => none
  | .store id =>
      match s.calls id with
      | .storing req tok => some { s.set id (.done req (.ok tok) s.clock) with
          handshakeCache := Function.update s.handshakeCache req.backendName
            (.set tok cfg.cacheHandshake s.clock) }
      | _ => none

/-! ### Where the tokens come from -/

/-- A run of the command that had ended by then has produced the token. -/
def Produced (runs : List Run) (P : Run → Prop) (tok : Token) (time : ℤ) : Prop :=
  ∃ r ∈ runs, P r ∧ r.env = cfg.commandEnv r.request ∧ lib.parseTokenOutput r.out = .ok tok ∧
    r.time ≤ time

def OwnRun (id : ℕ) (req : TokenRequest) (r : Run) : Prop := r.call = id ∧ r.request = req

/-- A run of the command for the handshake of this backend. -/
def HandshakeRun (name : List Char) (r : Run) : Prop :=
  r.request.stage = .handshake ∧ r.request.backendName = name

/-- The token came from the command for a handshake of this backend, and the deadline is within
the cache time from when it was stored and within its own lifetime. -/
def Cached (runs : List Run) (name : List Char) (tok : Token) (time deadline : ℤ) : Prop :=
  ∃ stored ≤ time, Produced lib cfg runs (HandshakeRun name) tok stored ∧
    deadline ≤ stored + cfg.cacheHandshake ∧ ∀ e, tok.expiry = some e → deadline ≤ e

variable {lib cfg} {runs runs' : List Run} {tok : Token} {time time' : ℤ}

theorem Produced.mono {P Q : Run → Prop} (h : Produced lib cfg runs P tok time)
    (hPQ : ∀ r, P r → Q r) (hruns : runs ⊆ runs') (htime : time ≤ time') :
    Produced lib cfg runs' Q tok time' := by
  obtain ⟨r, hr, hP, henv, htok, hle⟩ := h
  exact ⟨r, hruns hr, hPQ r hP, henv, htok, hle.trans htime⟩

theorem Cached.mono {name : List Char} {deadline deadline' : ℤ}
    (h : Cached lib cfg runs name tok time deadline) (hruns : runs ⊆ runs') (htime : time ≤ time')
    (hdeadline : deadline' ≤ deadline) : Cached lib cfg runs' name tok time' deadline' := by
  obtain ⟨stored, hstored, hproduced, hcache, hown⟩ := h
  exact ⟨stored, hstored.trans htime, hproduced.mono (fun _ hr => hr) hruns le_rfl,
    hdeadline.trans hcache, fun e he => hdeadline.trans (hown e he)⟩

variable (lib cfg)

/-- What a call knows about the token that it holds or has returned. -/
def Call.Good (runs : List Run) (clock : ℤ) (id : ℕ) : Call → Prop
  | .storing req tok => cfg.Caches req ∧ Produced lib cfg runs (OwnRun id req) tok clock
  | .done req (.ok tok) time => Produced lib cfg runs (OwnRun id req) tok time ∨
      cfg.Caches req ∧ Cached lib cfg runs req.backendName tok time time
  | _ => True

structure State.Good (s : State) : Prop where
  cached : ∀ name deadline, (s.handshakeCache name).expiry = some deadline →
    Cached lib cfg s.runs name (s.handshakeCache name).token s.clock deadline
  calls : ∀ id, (s.calls id).Good lib cfg s.runs s.clock id

variable {lib cfg}

theorem Call.Good.mono {id : ℕ} {call : Call} (h : call.Good lib cfg runs time id)
    (hruns : runs ⊆ runs') (htime : time ≤ time') : call.Good lib cfg runs' time' id := by
  cases call with
  | storing req tok => exact ⟨h.1, h.2.mono (fun _ hr => hr) hruns htime⟩
  | done req result answered =>
    cases result with
    | error err => trivial
    | ok tok =>
      rcases h with hown | ⟨hcaches, hcached⟩
      · exact .inl (hown.mono (fun _ hr => hr) hruns le_rfl)
      · exact .inr ⟨hcaches, hcached.mono hruns le_rfl le_rfl⟩
  | _ => trivial

theorem good_init (clock : ℤ) : (init clock).Good lib cfg where
  cached := by
    intro name deadline h
    cases h
  calls _ := trivial

theorem State.Good.set {s : State} (h : s.Good lib cfg) {id : ℕ} {call : Call}
    (hruns : s.runs ⊆ runs) (hcall : call.Good lib cfg runs s.clock id) :
    State.Good lib cfg { s.set id call with runs := runs } where
  cached name deadline hexpiry := (h.cached name deadline hexpiry).mono hruns le_rfl le_rfl
  calls := by
    refine (Function.forall_update_iff s.calls (fun j c => c.Good lib cfg runs s.clock j)).mpr
      ⟨hcall, fun j _ => ?_⟩
    exact (h.calls j).mono hruns le_rfl

theorem good_answer {id : ℕ} {req : TokenRequest} {clock : ℤ} (out : List Char) (runs : List Run) :
    (answer lib cfg req clock (.exited out)).Good lib cfg
      (⟨id, req, cfg.commandEnv req, out, clock⟩ :: runs) clock id := by
  simp only [answer]
  cases hparse : lib.parseTokenOutput out with
  | error err => trivial
  | ok tok =>
    have hown : Produced lib cfg (⟨id, req, cfg.commandEnv req, out, clock⟩ :: runs)
        (OwnRun id req) tok clock :=
      ⟨_, List.mem_cons_self, ⟨rfl, rfl⟩, rfl, hparse, le_rfl⟩
    dsimp only
    split_ifs with hcaches
    · exact ⟨hcaches.1, hown⟩
    · exact .inl hown

theorem good_lookUp {s t : State} {id : ℕ} (h : s.Good lib cfg)
    (hstep : step lib cfg s (.lookUp id) = some t) : t.Good lib cfg := by
  simp only [step] at hstep
  split at hstep
  · rename_i req hcall
    split_ifs at hstep with hcaches
    · cases hget : (s.handshakeCache req.backendName).get s.clock with
      | none =>
        rw [hget] at hstep
        obtain rfl := Option.some.inj hstep
        exact h.set (List.Subset.refl _) trivial
      | some tok =>
        rw [hget] at hstep
        obtain rfl := Option.some.inj hstep
        obtain ⟨rfl, deadline, hdeadline, hle⟩ := TokenCache.get_eq_some hget
        have hcached := h.cached req.backendName deadline hdeadline
        exact h.set (List.Subset.refl _)
          (.inr ⟨hcaches, hcached.mono (List.Subset.refl _) le_rfl hle⟩)
    · obtain rfl := Option.some.inj hstep
      exact h.set (List.Subset.refl _) trivial
  · cases hstep

theorem good_store {s t : State} {id : ℕ} (h : s.Good lib cfg)
    (hstep : step lib cfg s (.store id) = some t) : t.Good lib cfg := by
  simp only [step] at hstep
  split at hstep
  · rename_i req tok hcall
    obtain rfl := Option.some.inj hstep
    have hstoring := h.calls id
    rw [hcall] at hstoring
    obtain ⟨hcaches, hown⟩ := hstoring
    have hset : State.Good lib cfg (s.set id (.done req (.ok tok) s.clock)) :=
      h.set (List.Subset.refl _) (.inl hown)
    refine ⟨?_, hset.calls⟩
    refine (Function.forall_update_iff s.handshakeCache (fun name tc => ∀ deadline,
      tc.expiry = some deadline → Cached lib cfg s.runs name tc.token s.clock deadline)).mpr
      ⟨fun deadline hdeadline => ?_, fun name _ => h.cached name⟩
    obtain ⟨htoken, hcache, hexpiry⟩ := TokenCache.set_expiry hcaches.2 hdeadline
    rw [htoken]
    refine ⟨s.clock, le_rfl, hown.mono (fun r hr => ?_) (List.Subset.refl _) le_rfl, hcache,
      hexpiry⟩
    exact ⟨hr.2 ▸ hcaches.1, congrArg _ hr.2⟩
  · cases hstep

theorem good_step {s t : State} {a : Action} (h : s.Good lib cfg)
    (hstep : step lib cfg s a = some t) : t.Good lib cfg := by
  cases a with
  | pass d =>
    obtain rfl := Option.some.inj hstep
    have hclock : s.clock ≤ s.clock + d := by omega
    refine ⟨fun name deadline hexpiry => ?_, fun id => ?_⟩
    · exact (h.cached name deadline hexpiry).mono (List.Subset.refl _) hclock le_rfl
    · exact (h.calls id).mono (List.Subset.refl _) hclock
  | issueToken id req =>
    simp only [step] at hstep
    split at hstep
    · obtain rfl := Option.some.inj hstep
      exact h.set (List.Subset.refl _) trivial
    · cases hstep
  | lookUp id => exact good_lookUp h hstep
  | finish id outcome =>
    simp only [step] at hstep
    split at hstep
    · obtain rfl := Option.some.inj hstep
      cases outcome with
      | timedOut err => exact h.set (List.Subset.refl _) trivial
      | failed err out => exact h.set (List.Subset.refl _) trivial
      | exited out => exact h.set (List.subset_cons_self _ _) (good_answer out s.runs)
    · cases hstep
  | store id => exact good_store h hstep

/-- In every overlap of calls, a token is the output of the call's own run of the command, with
the nonce of the request in its environment, or it is a handshake token that the command gave for
the same backend, read from the cache before the cache time and its own lifetime were over. -/
theorem command_tokens_fresh {clock : ℤ} {actions : List Action} {s : State}
    (h : run (step lib cfg) (init clock) actions = some s) {id : ℕ} {req : TokenRequest}
    (hdone : s.calls id = .done req (.ok tok) time) :
    Produced lib cfg s.runs (OwnRun id req) tok time ∨
      req.stage = .handshake ∧ ∃ stored ≤ time,
        Produced lib cfg s.runs (HandshakeRun req.backendName) tok stored ∧
        time ≤ stored + cfg.cacheHandshake ∧ ∀ e, tok.expiry = some e → time ≤ e := by
  have hgood := invariant_run (I := State.Good lib cfg) (fun _ _ _ hs hstep => good_step hs hstep)
    (good_init clock) h
  have hcall := hgood.calls id
  rw [hdone] at hcall
  rcases hcall with hown | ⟨hcaches, hcached⟩
  · exact .inl hown
  · exact .inr ⟨hcaches.1, hcached⟩

end

/-- A command that prints its token on a line. -/
def plainLibrary : Library := ⟨⟨fun c => c == ' ' || c == '\n', id, fun _ => none⟩,
  fun _ => .error [], fun _ => none⟩

def handshakeRequest : TokenRequest := ⟨.handshake, [], ['b'], [], [25], [], 1, false, []⟩

/-- The second of two handshakes finds the token of the first. -/
def twoHandshakes : List Action :=
  [.issueToken 0 handshakeRequest, .lookUp 0, .pass 2, .finish 0 (.exited ['t', '\n']), .pass 1,
    .store 0, .pass 50, .issueToken 1 handshakeRequest, .lookUp 1]

theorem command_tokens_fresh_twoHandshakes :
    ∃ s, run (step plainLibrary ⟨[], [], 60⟩) (init 0) twoHandshakes = some s ∧
      s.calls 1 = .done handshakeRequest (.ok ⟨['t'], none⟩) 53 ∧
      (Produced plainLibrary ⟨[], [], 60⟩ s.runs (OwnRun 1 handshakeRequest) ⟨['t'], none⟩ 53 ∨
        ∃ stored ≤ 53, Produced plainLibrary ⟨[], [], 60⟩ s.runs (HandshakeRun ['b']) ⟨['t'], none⟩
          stored ∧ 53 ≤ stored + 60) := by
  obtain ⟨s, hrun, hdone⟩ : ∃ s, run (step plainLibrary ⟨[], [], 60⟩) (init 0) twoHandshakes =
      some s ∧ s.calls 1 = .done handshakeRequest (.ok ⟨['t'], none⟩) 53 := ⟨_, rfl, rfl⟩
  refine ⟨s, hrun, hdone, ?_⟩
  rcases command_tokens_fresh hrun hdone with hown | ⟨-, stored, hle, hproduced, hlive, -⟩
  · exact .inl hown
  · exact .inr ⟨stored, hle, hproduced, hlive⟩

end NexusProxy.Client.Tokens
