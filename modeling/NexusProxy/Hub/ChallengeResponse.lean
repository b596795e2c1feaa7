import NexusProxy.Client.TokenProviders
import NexusProxy.Hub.Reauth
import NexusProxy.Hub.Validator
import NexusProxy.Lib.Transition

/-! Challenge and response between relays and backends, with the network in the hands of an
adversary: any text may reach any session at any time, and a backend answers whatever challenge
it is shown. The adversary cannot sign tokens and cannot guess a nonce. -/
namespace NexusProxy.Hub.ChallengeResponse
open Checks Client.Tokens Transition
open scoped List

/-- A session of the relay: `performHandshake` up to the challenge, from there to the metadata,
and then the turns of `reauthLoop`. -/
inductive Phase where
  | awaiting
  | challenged (info0 : Stage0Info) (nonce : List Char)
  | registered (session : Session)
  | reauthing (session : Session) (nonce : List Char)
  | closed

namespace Phase

/-- The nonce of a challenge that has not been answered. -/
def pending : Phase → Option (List Char)
  | challenged _ nonce | reauthing _ nonce => some nonce
  | _ => none

def session : Phase → Option Session
  | registered session | reauthing session _ => some session
  | _ => none

end Phase

inductive Event where
  | generated (session : ℕ) (nonce : List Char)
  | signed (backend : ℕ) (stage : TokenStage) (nonce text : List Char)
  | accepted (session : ℕ) (nonce text : List Char)

structure State where
  sessions : ℕ → Phase
  log : List Event

def init : State := ⟨fun _ => .awaiting, []⟩

/-- What happens next, with the texts that arrive, the nonces that `generateNonce` draws and the
times of the checks. A session may end at any point. -/
inductive Action where
  | issueToken (backend : ℕ) (stage : TokenStage) (nonce text : List Char)
  | readStage0 (i : ℕ) (text : List Char) (now : ℤ) (nonce : List Char)
  | readStage1 (i : ℕ) (text : List Char) (now : ℤ)
  | challengeReauth (i : ℕ) (nonce : List Char)
  | processReauthToken (i : ℕ) (text : List Char) (now : ℤ)
  | close (i : ℕ)

def State.set (s : State) (i : ℕ) (phase : Phase) (events : List Event) : State :=
  ⟨Function.update s.sessions i phase, s.log ++ events⟩

section
variable (env : Environment) (validate : ℤ → List Char → Except (List Char) Claims)
  (maintenanceGraceDefaultSeconds : ℤ) (name : ℕ → List Char)

/-- `validateStage0Claims` on the claims of a token, if the validator accepts it. -/
def stage0 (text : List Char) (now : ℤ) : Option Stage0Info := do
  let claims ← (validate now text).toOption
  (validateStage0Claims { env with now := now } claims).toOption

def stage1 (info0 : Stage0Info) (nonce text : List Char) (now : ℤ) :
    Option AttestationMetadata := do
  let claims ← (validate now text).toOption
  (buildMetadataFromClaims env claims info0 nonce).toOption

/-- `processReauthToken`: the renewed session, or nothing after an error. -/
def renew (session : Session) (nonce text : List Char) (now : ℤ) : Option Session := do
  let claims ← (validate now text).toOption
  if claims.sessionNonce = nonce then
    match outcome (applyClaims env claims) session with
    | (.ok _, session) => some session
    | (.error _, _) => none
  else none

def step (s : State) : Action → Option State
  | .issueToken backend stage nonce text =>
      -- the handshake token has no nonce
      some { s with log := s.log ++
        [.signed backend stage (if stage = .handshake then [] else nonce) text] }
  | .readStage0 i text now nonce =>
      match s.sessions i with
      | .awaiting =>
          match stage0 env validate text now with
          | some info0 => some (s.set i (.challenged info0 nonce) [.generated i nonce])
          | none => some (s.set i .closed [])
      | _ => none
  | .readStage1 i text now =>
      match s.sessions i with
      | .challenged info0 nonce =>
          match stage1 env validate info0 nonce text now with
          | some attested =>
              some (s.set i
                (.registered (newSession maintenanceGraceDefaultSeconds (name i) attested))
                [.accepted i nonce text])
          | none => some (s.set i .closed [])
      | _ => none
  | .challengeReauth i nonce =>
      match s.sessions i with
      | .registered session =>
          if 0 < session.reauthInterval then
            some (s.set i (.reauthing session nonce) [.generated i nonce])
          else none
      | _ => none
  | .processReauthToken i text now =>
      match s.sessions i with
      | .reauthing session nonce =>
          match renew env validate session nonce text now with
          | some session => some (s.set i (.registered session) [.accepted i nonce text])
          | none => some (s.set i .closed [])
      | _ => none
  | .close i => some (s.set i .closed [])

/-! ### What the adversary cannot do -/

/-- A nonce that nobody has seen. -/
structure Fresh (log : List Event) (nonce : List Char) : Prop where
  nonempty : nonce ≠ []
  generated : ∀ i, .generated i nonce ∉ log
  signed : ∀ backend stage text, .signed backend stage nonce text ∉ log

/-- Under the secret of the relay, and in the word of its verifier, there are only texts that some
backend has signed, with the nonce that it signed. -/
structure Trusted (v : ValidatorSetup) (log : List Event) (text : List Char) (now : ℤ) : Prop where
  secret : ∀ c, v.jwt.parse v.backendsJWTSecret tokenAudience tokenIssuer now text =
    .ok (c, true) → ∃ backend stage, .signed backend stage c.sessionNonce text ∈ log
  verifier : ∀ claims err, v.reply now text = .response 200 (.ok ⟨true, some claims, err⟩) →
    ∃ backend stage, .signed backend stage claims.sessionNonce text ∈ log

/-- Nonces are fresh, texts are trusted, and a text is signed for one nonce only. -/
def Assumed (v : ValidatorSetup) (s : State) : Action → Prop
  | .issueToken _ stage nonce text => ∀ backend stage' nonce',
      .signed backend stage' nonce' text ∈ s.log →
        nonce' = if stage = .handshake then [] else nonce
  | .readStage0 _ _ _ nonce | .challengeReauth _ nonce => Fresh s.log nonce
  | .readStage1 _ text now | .processReauthToken _ text now => Trusted v s.log text now
  | .close _ => True

variable {env validate maintenanceGraceDefaultSeconds name} {v : ValidatorSetup} {s t : State}

theorem Trusted.signed (hv : newValidator v = .ok validate) {text : List Char} {now : ℤ}
    (h : Trusted v s.log text now) {claims : Claims} (hok : validate now text = .ok claims) :
    ∃ backend stage, .signed backend stage claims.sessionNonce text ∈ s.log := by
  rcases newValidator_accepts hv hok with hlocal | ⟨err, hremote⟩
  · obtain ⟨c, hparse, rfl⟩ := localValidate_ok.mp hlocal
    exact h.secret c hparse
  · exact h.verifier claims err hremote

variable (env validate maintenanceGraceDefaultSeconds name)

/-- The effect of a step under the assumptions. -/
inductive Effect (s : State) : State → Prop
  | sign (backend : ℕ) (stage : TokenStage) (nonce text : List Char)
      (handshake : stage = .handshake → nonce = [])
      (one : ∀ backend' stage' nonce', .signed backend' stage' nonce' text ∈ s.log →
        nonce' = nonce) :
      Effect s { s with log := s.log ++ [.signed backend stage nonce text] }
  | close (i : ℕ) : Effect s (s.set i .closed [])
  | challenge (i : ℕ) (info0 : Stage0Info) (nonce text : List Char) (now : ℤ)
      (fresh : Fresh s.log nonce) (info : stage0 env validate text now = some info0) :
      Effect s (s.set i (.challenged info0 nonce) [.generated i nonce])
  | attest (i : ℕ) (info0 : Stage0Info) (nonce text : List Char) (now : ℤ)
      (attested : AttestationMetadata) (phase : s.sessions i = .challenged info0 nonce)
      (signed : ∃ backend stage, .signed backend stage nonce text ∈ s.log)
      (result : stage1 env validate info0 nonce text now = some attested) :
      Effect s (s.set i
        (.registered (newSession maintenanceGraceDefaultSeconds (name i) attested))
        [.accepted i nonce text])
  | challengeReauth (i : ℕ) (session : Session) (nonce : List Char)
      (phase : s.sessions i = .registered session) (fresh : Fresh s.log nonce) :
      Effect s (s.set i (.reauthing session nonce) [.generated i nonce])
  | renew (i : ℕ) (old session : Session) (nonce text : List Char) (now : ℤ)
      (phase : s.sessions i = .reauthing old nonce)
      (signed : ∃ backend stage, .signed backend stage nonce text ∈ s.log)
      (result : ChallengeResponse.renew env validate old nonce text now = some session) :
      Effect s (s.set i (.registered session) [.accepted i nonce text])

variable {env validate maintenanceGraceDefaultSeconds name}

theorem toOption_eq_some {ε α : Type*} {x : Except ε α} {a : α} :
    x.toOption = some a ↔ x = .ok a := by
  cases x with
  | error err => simp [Except.toOption]
  | ok b => simp [Except.toOption]

theorem stage1_eq_some {info0 : Stage0Info} {nonce text : List Char} {now : ℤ}
    {attested : AttestationMetadata}
    (h : stage1 env validate info0 nonce text now = some attested) :
    ∃ claims, validate now text = .ok claims ∧ claims.sessionNonce = nonce ∧
      buildMetadataFromClaims env claims info0 nonce = .ok attested := by
  obtain ⟨claims, hclaims, hbuild⟩ := Option.bind_eq_some_iff.mp h
  have hbuild := toOption_eq_some.mp hbuild
  refine ⟨claims, toOption_eq_some.mp hclaims, ?_, hbuild⟩
  unfold buildMetadataFromClaims at hbuild
  obtain ⟨_, hnonce, -⟩ := parts_of_ok hbuild
  exact not_not.mp (failIf_eq_ok.mp hnonce)

theorem renew_eq_some {old session : Session} {nonce text : List Char} {now : ℤ}
    (h : renew env validate old nonce text now = some session) :
    (∃ claims, validate now text = .ok claims ∧ claims.sessionNonce = nonce) ∧
      old.SameRegistered session := by
  obtain ⟨claims, hclaims, h⟩ := Option.bind_eq_some_iff.mp h
  split_ifs at h with hnonce
  refine ⟨⟨claims, toOption_eq_some.mp hclaims, hnonce⟩, ?_⟩
  rcases applyClaims_commits env claims old with ⟨err, herror⟩ | ⟨out, hok⟩
  · rw [herror] at h
    cases h
  · rw [hok] at h
    obtain rfl := Option.some.inj h
    exact old.renewed_same claims

theorem step_effect (hv : newValidator v = .ok validate) {a : Action} (hassumed : Assumed v s a)
    (h : step env validate maintenanceGraceDefaultSeconds name s a = some t) :
    Effect env validate maintenanceGraceDefaultSeconds name s t := by
  cases a with
  | issueToken backend stage nonce text =>
    obtain rfl := Option.some.inj h
    exact .sign _ _ _ _ (fun hstage => if_pos hstage) hassumed
  | readStage0 i text now nonce =>
    simp only [step] at h
    split at h
    · cases hinfo : stage0 env validate text now with
      | none =>
        rw [hinfo] at h
        obtain rfl := Option.some.inj h
        exact .close i
      | some info0 =>
        rw [hinfo] at h
        obtain rfl := Option.some.inj h
        exact .challenge i info0 nonce text now hassumed hinfo
    · cases h
  | readStage1 i text now =>
    simp only [step] at h
    split at h
    · rename_i info0 nonce hphase
      cases hresult : stage1 env validate info0 nonce text now with
      | none =>
        rw [hresult] at h
        obtain rfl := Option.some.inj h
        exact .close i
      | some attested =>
        rw [hresult] at h
        obtain rfl := Option.some.inj h
        obtain ⟨claims, hok, rfl, -⟩ := stage1_eq_some hresult
        exact .attest i info0 _ text now attested hphase (Trusted.signed hv hassumed hok) hresult
    · cases h
  | challengeReauth i nonce =>
    simp only [step] at h
    split at h
    · rename_i session hphase
      split_ifs at h
      obtain rfl := Option.some.inj h
      exact .challengeReauth i session nonce hphase hassumed
    · cases h
  | processReauthToken i text now =>
    simp only [step] at h
    split at h
    · rename_i old nonce hphase
      cases hresult : renew env validate old nonce text now with
      | none =>
        rw [hresult] at h
        obtain rfl := Option.some.inj h
        exact .close i
      | some session =>
        rw [hresult] at h
        obtain rfl := Option.some.inj h
        obtain ⟨⟨claims, hok, rfl⟩, -⟩ := renew_eq_some hresult
        exact .renew i old session _ text now hphase (Trusted.signed hv hassumed hok) hresult
    · cases h
  | close i =>
    obtain rfl := Option.some.inj h
    exact .close i

/-! ### The order of the events -/

/-- The challenges that have been answered, with the tokens that answered them. -/
def answers (log : List Event) : List (List Char × List Char) :=
  log.filterMap fun
    | .accepted _ nonce text => some (nonce, text)
    | _ => none

structure Ordered (s : State) : Prop where
  unique : ∀ i j nonce, .generated i nonce ∈ s.log → .generated j nonce ∈ s.log → i = j
  generated : ∀ i nonce, .generated i nonce ∈ s.log → nonce ≠ []
  handshake : ∀ backend nonce text, .signed backend .handshake nonce text ∈ s.log → nonce = []
  one : ∀ backend stage nonce backend' stage' nonce' text,
    .signed backend stage nonce text ∈ s.log → .signed backend' stage' nonce' text ∈ s.log →
      nonce = nonce'
  after : ∀ i nonce backend stage text, .generated i nonce ∈ s.log →
    .signed backend stage nonce text ∈ s.log →
      [.generated i nonce, .signed backend stage nonce text] <+ s.log
  accepted : ∀ i nonce text, .accepted i nonce text ∈ s.log → ∃ backend stage,
    stage ≠ .handshake ∧
      [.generated i nonce, .signed backend stage nonce text, .accepted i nonce text] <+ s.log
  once : ((answers s.log).map Prod.fst).Nodup
  pending : ∀ i nonce, (s.sessions i).pending = some nonce →
    .generated i nonce ∈ s.log ∧ nonce ∉ (answers s.log).map Prod.fst

theorem mem_answers {log : List Event} {nonce text : List Char} :
    (nonce, text) ∈ answers log ↔ ∃ i, .accepted i nonce text ∈ log := by
  simp only [answers, List.mem_filterMap]
  constructor
  · rintro ⟨e, he, hsome⟩
    cases e with
    | accepted i n x =>
      obtain ⟨rfl, rfl⟩ := Prod.mk.inj (Option.some.inj hsome)
      exact ⟨i, he⟩
    | _ => cases hsome
  · rintro ⟨i, he⟩
    exact ⟨_, he, rfl⟩

theorem ordered_init : Ordered init := by
  refine ⟨?_, ?_, ?_, ?_, ?_, ?_, List.nodup_nil, ?_⟩ <;> simp [init, Phase.pending]

namespace Ordered

theorem sign (h : Ordered s) {backend : ℕ} {stage : TokenStage} {nonce text : List Char}
    (hhandshake : stage = .handshake → nonce = [])
    (hone : ∀ backend' stage' nonce', .signed backend' stage' nonce' text ∈ s.log →
      nonce' = nonce) :
    Ordered { s with log := s.log ++ [.signed backend stage nonce text] } := by
  have hgrows : s.log <+ s.log ++ [.signed backend stage nonce text] :=
    List.sublist_append_left _ _
  have hanswers : answers (s.log ++ [.signed backend stage nonce text]) = answers s.log := by
    simp [answers]
  refine ⟨?_, ?_, ?_, ?_, ?_, ?_, ?_, ?_⟩
  · simpa using h.unique
  · simpa using h.generated
  · intro b n x hmem
    rcases List.mem_append.mp hmem with hold | hnew
    · exact h.handshake b n x hold
    · cases List.mem_singleton.mp hnew
      exact hhandshake rfl
  · intro b st n b' st' n' x hmem hmem'
    rcases List.mem_append.mp hmem with hold | hnew
    · rcases List.mem_append.mp hmem' with hold' | hnew'
      · exact h.one b st n b' st' n' x hold hold'
      · cases List.mem_singleton.mp hnew'
        exact hone b st n hold
    · cases List.mem_singleton.mp hnew
      rcases List.mem_append.mp hmem' with hold' | hnew'
      · exact (hone b' st' n' hold').symm
      · cases List.mem_singleton.mp hnew'
        rfl
  · intro i n b st x hgen hmem
    have hgen : .generated i n ∈ s.log := by simpa using hgen
    rcases List.mem_append.mp hmem with hold | hnew
    · exact (h.after i n b st x hgen hold).trans hgrows
    · rw [List.mem_singleton.mp hnew]
      exact (List.singleton_sublist.mpr hgen).append (List.Sublist.refl _)
  · intro i n x hmem
    obtain ⟨b, st, hstage, horder⟩ := h.accepted i n x (by simpa using hmem)
    exact ⟨b, st, hstage, horder.trans hgrows⟩
  · rw [hanswers]
    exact h.once
  · intro i n hpending
    rw [hanswers]
    exact ⟨hgrows.mem (h.pending i n hpending).1, (h.pending i n hpending).2⟩

theorem challenge (h : Ordered s) {i : ℕ} {phase : Phase} {nonce : List Char}
    (hphase : phase.pending = some nonce) (hfresh : Fresh s.log nonce) :
    Ordered (s.set i phase [.generated i nonce]) := by
  have hgrows : s.log <+ s.log ++ [.generated i nonce] := List.sublist_append_left _ _
  have hanswers : answers (s.log ++ [.generated i nonce]) = answers s.log := by simp [answers]
  have hcases {j : ℕ} {n : List Char} (hmem : .generated j n ∈ s.log ++ [.generated i nonce]) :
      .generated j n ∈ s.log ∧ n ≠ nonce ∨ j = i ∧ n = nonce := by
    rcases List.mem_append.mp hmem with hold | hnew
    · refine .inl ⟨hold, ?_⟩
      rintro rfl
      exact hfresh.generated j hold
    · cases List.mem_singleton.mp hnew
      exact .inr ⟨rfl, rfl⟩
  refine ⟨?_, ?_, ?_, ?_, ?_, ?_, ?_, ?_⟩
  · intro j k n hj hk
    rcases hcases hj with ⟨hold, hne⟩ | ⟨rfl, rfl⟩
    · rcases hcases hk with ⟨hold', -⟩ | ⟨-, heq⟩
      · exact h.unique j k n hold hold'
      · exact absurd heq hne
    · rcases hcases hk with ⟨-, hne⟩ | ⟨rfl, -⟩
      · exact absurd rfl hne
      · rfl
  · intro j n hj
    rcases hcases hj with ⟨hold, -⟩ | ⟨-, rfl⟩
    · exact h.generated j n hold
    · exact hfresh.nonempty
  · simpa [State.set] using h.handshake
  · simpa [State.set] using h.one
  · intro j n b st x hj hmem
    have hsigned : .signed b st n x ∈ s.log := by simpa [State.set] using hmem
    rcases hcases hj with ⟨hold, -⟩ | ⟨-, rfl⟩
    · exact (h.after j n b st x hold hsigned).trans hgrows
    · exact absurd hsigned (hfresh.signed b st x)
  · intro j n x hmem
    obtain ⟨b, st, hstage, horder⟩ := h.accepted j n x (by simpa [State.set] using hmem)
    exact ⟨b, st, hstage, horder.trans hgrows⟩
  · show ((answers (s.log ++ _)).map Prod.fst).Nodup
    rw [hanswers]
    exact h.once
  · intro j n hpending
    show .generated j n ∈ s.log ++ _ ∧ n ∉ (answers (s.log ++ _)).map Prod.fst
    rw [hanswers]
    by_cases hj : j = i
    · subst hj
      simp only [State.set, Function.update_self, hphase, Option.some.injEq] at hpending
      subst hpending
      refine ⟨List.mem_append_right _ (List.mem_singleton_self _), fun hmem => ?_⟩
      obtain ⟨⟨_, x⟩, hx, rfl⟩ := List.mem_map.mp hmem
      obtain ⟨k, hk⟩ := mem_answers.mp hx
      obtain ⟨b, st, -, horder⟩ := h.accepted k _ x hk
      exact hfresh.generated k (horder.mem List.mem_cons_self)
    · simp only [State.set, Function.update_of_ne hj] at hpending
      exact ⟨hgrows.mem (h.pending j n hpending).1, (h.pending j n hpending).2⟩

theorem accept (h : Ordered s) {i : ℕ} {phase : Phase} {nonce text : List Char}
    (hpending : (s.sessions i).pending = some nonce) (hphase : phase.pending = none)
    (hsigned : ∃ backend stage, .signed backend stage nonce text ∈ s.log) :
    Ordered (s.set i phase [.accepted i nonce text]) := by
  obtain ⟨hgen, hopen⟩ := h.pending i nonce hpending
  have hgrows : s.log <+ s.log ++ [.accepted i nonce text] := List.sublist_append_left _ _
  have hanswers : (answers (s.log ++ [.accepted i nonce text])).map Prod.fst =
      (answers s.log).map Prod.fst ++ [nonce] := by simp [answers]
  refine ⟨?_, ?_, ?_, ?_, ?_, ?_, ?_, ?_⟩
  · simpa [State.set] using h.unique
  · simpa [State.set] using h.generated
  · simpa [State.set] using h.handshake
  · simpa [State.set] using h.one
  · intro j n b st x hj hmem
    have hj : .generated j n ∈ s.log := by simpa [State.set] using hj
    have hmem : .signed b st n x ∈ s.log := by simpa [State.set] using hmem
    exact (h.after j n b st x hj hmem).trans hgrows
  · intro j n x hmem
    rcases List.mem_append.mp hmem with hold | hnew
    · obtain ⟨b, st, hstage, horder⟩ := h.accepted j n x hold
      exact ⟨b, st, hstage, horder.trans hgrows⟩
    · cases List.mem_singleton.mp hnew
      obtain ⟨b, st, hmem⟩ := hsigned
      refine ⟨b, st, ?_, (h.after i nonce b st text hgen hmem).append (List.Sublist.refl _)⟩
      rintro rfl
      exact h.generated i nonce hgen (h.handshake b nonce text hmem)
  · show ((answers (s.log ++ _)).map Prod.fst).Nodup
    rw [hanswers]
    exact h.once.append (List.nodup_singleton _) (by simpa using hopen)
  · intro j n hj
    show .generated j n ∈ s.log ++ _ ∧ n ∉ (answers (s.log ++ _)).map Prod.fst
    rw [hanswers]
    by_cases hji : j = i
    · subst hji
      simp [State.set, hphase] at hj
    · simp only [State.set, Function.update_of_ne hji] at hj
      obtain ⟨hgen', hopen'⟩ := h.pending j n hj
      refine ⟨hgrows.mem hgen', ?_⟩
      simp only [List.mem_append, List.mem_singleton, not_or]
      refine ⟨hopen', ?_⟩
      rintro rfl
      exact hji (h.unique j i n hgen' hgen)

theorem close (h : Ordered s) (i : ℕ) : Ordered (s.set i .closed []) := by
  have hlog : s.log ++ [] = s.log := List.append_nil _
  refine ⟨?_, ?_, ?_, ?_, ?_, ?_, ?_, ?_⟩ <;> simp only [State.set, hlog]
  · exact h.unique
  · exact h.generated
  · exact h.handshake
  · exact h.one
  · exact h.after
  · exact h.accepted
  · exact h.once
  · intro j n hj
    by_cases hji : j = i
    · subst hji
      simp [Phase.pending] at hj
    · rw [Function.update_of_ne hji] at hj
      exact h.pending j n hj

/-- A text answers one challenge, because it carries one nonce. -/
theorem texts_nodup (h : Ordered s) : ((answers s.log).map Prod.snd).Nodup := by
  refine List.Nodup.map_on ?_ (List.Nodup.of_map _ h.once)
  rintro ⟨n, x⟩ hx ⟨n', _⟩ hx' rfl
  obtain ⟨i, hi⟩ := mem_answers.mp hx
  obtain ⟨j, hj⟩ := mem_answers.mp hx'
  obtain ⟨b, st, -, horder⟩ := h.accepted i n x hi
  obtain ⟨b', st', -, horder'⟩ := h.accepted j n' x hj
  have hn : n = n' := h.one b st n b' st' n' x (horder.mem (by simp)) (horder'.mem (by simp))
  rw [hn]

end Ordered

theorem Effect.ordered (h : Effect env validate maintenanceGraceDefaultSeconds name s t)
    (hs : Ordered s) : Ordered t := by
  cases h with
  | sign backend stage nonce text hhandshake hone => exact hs.sign hhandshake hone
  | close i => exact hs.close i
  | challenge i info0 nonce text now hfresh _ => exact hs.challenge rfl hfresh
  | attest i info0 nonce text now attested hphase hsigned _ =>
    exact hs.accept (by rw [hphase]; rfl) rfl hsigned
  | challengeReauth i session nonce hphase hfresh => exact hs.challenge rfl hfresh
  | renew i old session nonce text now hphase hsigned _ =>
    exact hs.accept (by rw [hphase]; rfl) rfl hsigned

/-! ### What is registered -/

variable (env validate maintenanceGraceDefaultSeconds name)

/-- The session came out of a handshake whose second token was accepted here, and nothing that is
registered has changed since. -/
def Admitted (log : List Event) (i : ℕ) (session : Session) : Prop :=
  ∃ nonce text now₀ now₁ claims0 claims1 attested, .accepted i nonce text ∈ log ∧
    validate now₁ text = .ok claims1 ∧
    performHandshake { env with now := now₀ } claims0 claims1 nonce = .ok attested ∧
    (newSession maintenanceGraceDefaultSeconds (name i) attested).SameRegistered session

structure Registered (s : State) : Prop where
  info : ∀ i info0 nonce, s.sessions i = .challenged info0 nonce →
    ∃ claims0 now₀, validateStage0Claims { env with now := now₀ } claims0 = .ok info0
  session : ∀ i session, (s.sessions i).session = some session →
    Admitted env validate maintenanceGraceDefaultSeconds name s.log i session

variable {env validate maintenanceGraceDefaultSeconds name}

theorem Admitted.mono {log log' : List Event} {i : ℕ} {session session' : Session}
    (h : Admitted env validate maintenanceGraceDefaultSeconds name log i session)
    (hlog : log ⊆ log') (hsame : session.SameRegistered session') :
    Admitted env validate maintenanceGraceDefaultSeconds name log' i session' := by
  obtain ⟨nonce, text, now₀, now₁, claims0, claims1, attested, hmem, hok, hshake, hsame'⟩ := h
  refine ⟨nonce, text, now₀, now₁, claims0, claims1, attested, hlog hmem, hok, hshake, ?_⟩
  exact ⟨hsame.backend.trans hsame'.backend, hsame.outboundAllowed.trans hsame'.outboundAllowed,
    hsame.allowedOutboundPorts.trans hsame'.allowedOutboundPorts,
    hsame.outboundPortsExplicit.trans hsame'.outboundPortsExplicit⟩

theorem Registered.set {i : ℕ} {phase : Phase} {events : List Event}
    (h : Registered env validate maintenanceGraceDefaultSeconds name s)
    (hinfo : ∀ info0 nonce, phase = .challenged info0 nonce →
      ∃ claims0 now₀, validateStage0Claims { env with now := now₀ } claims0 = .ok info0)
    (hsession : ∀ session, phase.session = some session →
      Admitted env validate maintenanceGraceDefaultSeconds name (s.log ++ events) i session) :
    Registered env validate maintenanceGraceDefaultSeconds name (s.set i phase events) := by
  constructor
  · exact (Function.forall_update_iff s.sessions fun _ p => ∀ info0 nonce,
      p = .challenged info0 nonce → ∃ claims0 now₀,
        validateStage0Claims { env with now := now₀ } claims0 = .ok info0).mpr
      ⟨hinfo, fun j _ => h.info j⟩
  · refine (Function.forall_update_iff s.sessions fun j p => ∀ session, p.session = some session →
      Admitted env validate maintenanceGraceDefaultSeconds name (s.log ++ events) j session).mpr
      ⟨hsession, fun j _ session hj => ?_⟩
    exact (h.session j session hj).mono (List.subset_append_left _ _) ⟨rfl, rfl, rfl, rfl⟩

theorem Effect.registered (h : Effect env validate maintenanceGraceDefaultSeconds name s t)
    (hs : Registered env validate maintenanceGraceDefaultSeconds name s) :
    Registered env validate maintenanceGraceDefaultSeconds name t := by
  cases h with
  | sign backend stage nonce text _ _ =>
    refine ⟨hs.info, fun i session hsession => ?_⟩
    exact (hs.session i session hsession).mono (List.subset_append_left _ _) ⟨rfl, rfl, rfl, rfl⟩
  | close i => exact hs.set (fun _ _ h => by cases h) fun _ h => by cases h
  | challenge i info0 nonce text now _ hinfo =>
    refine hs.set (fun info n hphase => ?_) fun _ h => by cases h
    cases hphase
    obtain ⟨claims, -, hstage0⟩ := Option.bind_eq_some_iff.mp hinfo
    exact ⟨claims, now, toOption_eq_some.mp hstage0⟩
  | attest i info0 nonce text now attested hphase _ hresult =>
    refine hs.set (fun _ _ h => by cases h) fun session hsession => ?_
    obtain rfl := Option.some.inj hsession
    obtain ⟨claims0, now₀, hinfo⟩ := hs.info i info0 nonce hphase
    obtain ⟨claims1, hok, -, hbuild⟩ := stage1_eq_some hresult
    refine ⟨nonce, text, now₀, now, claims0, claims1, attested,
      List.mem_append_right _ (List.mem_singleton_self _), hok, ?_, ⟨rfl, rfl, rfl, rfl⟩⟩
    unfold performHandshake
    rw [hinfo]
    -- the second stage does not look at the clock
    exact hbuild
  | challengeReauth i session nonce hphase _ =>
    refine hs.set (fun _ _ h => by cases h) fun session' hsession => ?_
    obtain rfl := Option.some.inj hsession
    have hadmitted := hs.session i session (by rw [hphase]; rfl)
    exact hadmitted.mono (List.subset_append_left _ _) ⟨rfl, rfl, rfl, rfl⟩
  | renew i old session nonce text now hphase _ hresult =>
    refine hs.set (fun _ _ h => by cases h) fun session' hsession => ?_
    obtain rfl := Option.some.inj hsession
    have hadmitted := hs.session i old (by rw [hphase]; rfl)
    exact hadmitted.mono (List.subset_append_left _ _) (renew_eq_some hresult).2

/-- Whatever reaches the sessions of the relay, in any order: each token that is accepted for a
challenge was signed by a backend after the nonce was drawn and before it was accepted, no token
is accepted twice, and a registered session has what its second handshake token was signed for. -/
theorem tokens_answer_challenges (hv : newValidator v = .ok validate) {actions : List Action}
    (hassumed : Along (step env validate maintenanceGraceDefaultSeconds name) (Assumed v) init
      actions)
    (h : run (step env validate maintenanceGraceDefaultSeconds name) init actions = some s) :
    (∀ i nonce text, .accepted i nonce text ∈ s.log → ∃ backend stage, stage ≠ .handshake ∧
      [.generated i nonce, .signed backend stage nonce text, .accepted i nonce text] <+ s.log) ∧
      ((answers s.log).map Prod.snd).Nodup ∧
      ∀ i session, (s.sessions i).session = some session →
        Admitted env validate maintenanceGraceDefaultSeconds name s.log i session := by
  have hinv : Ordered s ∧ Registered env validate maintenanceGraceDefaultSeconds name s := by
    refine invariant_along (I := fun s => Ordered s ∧ Registered env validate _ name s)
      (fun s a t hs ha hstep => ?_) ⟨ordered_init, ?_⟩ hassumed h
    · have heffect := step_effect hv ha hstep
      exact ⟨heffect.ordered hs.1, heffect.registered hs.2⟩
    · constructor
      · intro i info0 nonce hphase
        cases hphase
      · intro i session hsession
        cases hsession
  obtain ⟨hordered, hregistered⟩ := hinv
  exact ⟨hordered.accepted, hordered.texts_nodup, hregistered.session⟩

end

/-- Tokens of one backend that claims port 25: the secret, and then the nonce. -/
def dialTokens : JWT where
  sign secret c := secret ++ c.sessionNonce
  numericDate t := t
  parse secret audience issuer now text :=
    if secret.isPrefixOf text ∧ audience = tokenAudience ∧ issuer = tokenIssuer ∧ now < 30 then
      .ok ({ dialClaims 0 no_weight_lt with
        sessionNonce := text.drop secret.length
        issuer := tokenIssuer
        subject := ['b']
        audience := [tokenAudience]
        expiresAt := some 30
        notBefore := none }, true)
    else .error []

def dialSetup : ValidatorSetup := ⟨dialTokens, ['k'], [], fun _ _ => .failed [], fun _ => []⟩

/-- The backend is registered and reauthenticates once. -/
def dialSession : List Action :=
  [.issueToken 0 .handshake [] ['k'], .readStage0 0 ['k'] 0 ['x'],
    .issueToken 0 .attest ['x'] ['k', 'x'], .readStage1 0 ['k', 'x'] 1, .challengeReauth 0 ['y'],
    .issueToken 0 .reauth ['y'] ['k', 'y'], .processReauthToken 0 ['k', 'y'] 2]

theorem tokens_answer_challenges_dialSession :
    ∃ s, run (step dialEnv (localValidate dialTokens ['k']) 0 fun _ => ['b']) init dialSession =
        some s ∧
      .accepted 0 ['y'] ['k', 'y'] ∈ s.log ∧ ∃ backend stage, stage ≠ .handshake ∧
        [.generated 0 ['y'], .signed backend stage ['y'] ['k', 'y'],
          .accepted 0 ['y'] ['k', 'y']] <+ s.log := by
  have hcons {s t : State} {a : Action} {as : List Action}
      (hassumed : Assumed dialSetup s a)
      (hstep : step dialEnv (localValidate dialTokens ['k']) 0 (fun _ => ['b']) s a = some t)
      (hrest : Along (step dialEnv (localValidate dialTokens ['k']) 0 fun _ => ['b'])
        (Assumed dialSetup) t as) :
      Along (step dialEnv (localValidate dialTokens ['k']) 0 fun _ => ['b']) (Assumed dialSetup) s
        (a :: as) := by
    refine ⟨hassumed, fun u hu => ?_⟩
    obtain rfl := Option.some.inj (hstep.symm.trans hu)
    exact hrest
  have hassumed : Along (step dialEnv (localValidate dialTokens ['k']) 0 fun _ => ['b'])
      (Assumed dialSetup) init dialSession := by
    refine hcons ?_ rfl (hcons ?_ rfl (hcons ?_ rfl (hcons ?_ rfl (hcons ?_ rfl
      (hcons ?_ rfl (hcons ?_ rfl trivial))))))
    · simp [Assumed, init]
    · refine ⟨by decide, ?_, ?_⟩
      · simp [init]
      · simp [init]
    · simp [Assumed, init, State.set]
    · refine ⟨fun c hc => ?_, fun claims err hreply => by cases hreply⟩
      cases hc
      exact ⟨0, .attest, by simp [init, State.set, dialSetup]⟩
    · refine ⟨by decide, ?_, ?_⟩
      · simp [init, State.set]
      · simp [init, State.set]
    · simp [Assumed, init, State.set]
    · refine ⟨fun c hc => ?_, fun claims err hreply => by cases hreply⟩
      cases hc
      exact ⟨0, .reauth, by simp [init, State.set, dialSetup]⟩
  obtain ⟨s, hrun, hmem⟩ : ∃ s, run (step dialEnv (localValidate dialTokens ['k']) 0 fun _ => ['b'])
      init dialSession = some s ∧ .accepted 0 ['y'] ['k', 'y'] ∈ s.log :=
    ⟨_, rfl, by simp [init, State.set]⟩
  exact ⟨s, hrun, hmem, (tokens_answer_challenges (v := dialSetup) rfl hassumed hrun).1 _ _ _ hmem⟩

end NexusProxy.Hub.ChallengeResponse
