import Mathlib.Tactic
import NexusProxy.Lib.Transition

/-! The exchange of a reauthentication: `performReauth` with its nonce, its stale token and its
grace timer, the challenge on its way to the backend, and the answer on its way through
`handleTextMessage` and the one-slot channel. A token stands for the nonce that it answers. -/
namespace NexusProxy.Hub.ReauthExchange
open Transition

/-- `performReauth`, by what it has done. In `armed` the timer runs and the select is still to
be evaluated, in `waiting` it is blocked there. -/
inductive Phase where
  | idle
  | prepared
  | challenged
  | drained
  | armed
  | waiting
  | taken (token : ℕ)
  | timedOut
  | failed
  deriving DecidableEq

def Phase.awaiting : Phase → Bool
  | challenged | drained | armed | waiting => true
  | idle | prepared | taken _ | timedOut | failed => false

/-- The read pump: between messages, about to look at `reauthPending`, about to send. -/
inductive Pump where
  | idle
  | checking (token : ℕ)
  | sending (token : ℕ)
  deriving DecidableEq

def Pump.token : Pump → Option ℕ
  | idle => none
  | checking token | sending token => some token

/-- The fields of the backend that the exchange touches and the messages under way. `timely`
and `processed` are history: the answers read before the timer of their challenge fired, and
the tokens that `performReauth` took to `processReauthToken`. -/
structure Exchange where
  phase : Phase
  nonce : ℕ
  reauthPending : Bool
  reauthTokens : Option ℕ
  fired : Bool
  pump : Pump
  outgoingControl : List ℕ
  toBackend : List ℕ
  toHub : List ℕ
  timely : List ℕ
  processed : List ℕ
  deriving DecidableEq

/-- The steps of `performReauth`, of its timer, of the way to the backend and back, and of the
read pump. -/
inductive Action where
  | prepareForNonce
  | enqueueChallenge (queued : Bool)
  | drainStale
  | newTimer
  | block
  | takeToken
  | seeTimer
  | finish
  | fire
  | writePump
  | answer
  | read
  | checkPending
  | sendToken
  deriving DecidableEq

namespace Exchange

def start : Exchange where
  phase := .idle
  nonce := 0
  reauthPending := false
  reauthTokens := none
  fired := false
  pump := .idle
  outgoingControl := []
  toBackend := []
  toHub := []
  timely := []
  processed := []

def take (s : Exchange) (token : ℕ) : Exchange :=
  { s with phase := .taken token, processed := s.processed ++ [token] }

/-- The select of `performReauth` takes the timer; `clearPendingNonce` follows. -/
def timeOut (s : Exchange) : Exchange := { s with phase := .timedOut, reauthPending := false }

def step (s : Exchange) : Action → Option Exchange
  | .prepareForNonce =>
      if s.phase = .idle then
        some { s with phase := .prepared, nonce := s.nonce + 1, reauthPending := true }
      else none
  | .enqueueChallenge queued =>
      if s.phase = .prepared then
        if queued then
          some { s with phase := .challenged, outgoingControl := s.outgoingControl ++ [s.nonce] }
        else some { s with phase := .failed, reauthPending := false }
      else none
  | .drainStale =>
      if s.phase = .challenged then some { s with phase := .drained, reauthTokens := none }
      else none
  | .newTimer =>
      if s.phase = .drained then some { s with phase := .armed, fired := false } else none
  | .block =>
      if s.phase = .armed ∧ s.reauthTokens = none ∧ s.fired = false then
        some { s with phase := .waiting }
      else none
  | .takeToken =>
      match s.reauthTokens with
      | none => none
      | some token =>
          if s.phase = .armed then some ({ s with reauthTokens := none }.take token) else none
  | .seeTimer => if s.phase = .armed ∧ s.fired = true then some s.timeOut else none
  | .finish =>
      match s.phase with
      | .taken token =>
          some { s with
            phase := if token = s.nonce then .idle else .failed
            reauthPending := false }
      | _ => none
  | .fire =>
      match s.phase with
      | .armed => some { s with fired := true }
      -- a goroutine that is blocked in the select receives at once
      | .waiting => some s.timeOut
      | _ => none
  | .writePump =>
      match s.outgoingControl with
      | [] => none
      | n :: rest => some { s with outgoingControl := rest, toBackend := s.toBackend ++ [n] }
  | .answer =>
      match s.toBackend with
      | [] => none
      | n :: rest => some { s with toBackend := rest, toHub := s.toHub ++ [n] }
  | .read =>
      match s.toHub with
      | [] => none
      | n :: rest =>
          if s.pump = .idle then
            some { s with
              toHub := rest
              pump := .checking n
              timely :=
                if s.phase ≠ .timedOut ∧ s.fired = false then s.timely ++ [n] else s.timely }
          else none
  | .checkPending =>
      match s.pump with
      | .checking n => some { s with pump := if s.reauthPending then .sending n else .idle }
      | _ => none
  | .sendToken =>
      match s.pump with
      | .sending n =>
          if s.phase = .waiting then some ({ s with pump := .idle }.take n)
          else some { s with pump := .idle, reauthTokens := some (s.reauthTokens.getD n) }
      | _ => none

/-- The tokens between the read pump and `performReauth`. -/
def held (s : Exchange) : List ℕ := s.pump.token.toList ++ s.reauthTokens.toList

/-- The challenges and answers under way, the farthest first. -/
def flow (s : Exchange) : List ℕ := s.held ++ s.toHub ++ s.toBackend ++ s.outgoingControl

/-- Every answer that was read in time has been taken by `performReauth`, or is still on its way
to it while it has not timed out. -/
def Kept (s : Exchange) : Prop :=
  s.timely = s.processed ++ if s.phase = .timedOut then [] else s.held

instance (s : Exchange) : Decidable s.Kept := inferInstanceAs (Decidable (_ = _))

/-- The stale drain comes before the answer to the challenge. When the timer fires,
`performReauth` is blocked in its select and the read pump is between two messages. -/
def Orderly (s : Exchange) : Action → Prop
  | .drainStale => s.reauthTokens ≠ some s.nonce
  | .fire => s.phase = .waiting ∧ s.pump = .idle
  | _ => True

instance (s : Exchange) : ∀ a, Decidable (s.Orderly a)
  | .drainStale => inferInstanceAs (Decidable (_ ≠ _))
  | .fire => inferInstanceAs (Decidable (_ ∧ _))
  | .prepareForNonce | .enqueueChallenge _ | .newTimer | .block | .takeToken | .seeTimer | .finish
  | .writePump | .answer | .read | .checkPending | .sendToken => inferInstanceAs (Decidable True)

/-- What holds in orderly runs: until it times out, `performReauth` has one challenge under way
or none, and its timer has not fired. -/
structure Single (s : Exchange) : Prop where
  flow : s.phase ≠ .timedOut → s.flow = if s.phase.awaiting then [s.nonce] else []
  pending : s.phase = .prepared ∨ s.phase.awaiting = true → s.reauthPending = true
  empty : s.phase = .waiting → s.reauthTokens = none
  fired : s.fired = false
  kept : s.Kept

theorem start_single : start.Single where
  flow := by simp [start, flow, held, Phase.awaiting, Pump.token]
  pending := by simp [start, Phase.awaiting]
  empty := by simp [start]
  fired := rfl
  kept := by decide

variable {s t : Exchange}

theorem Single.of_held (h : s.Single) (hphase : s.phase ≠ .timedOut) (hheld : s.held ≠ []) :
    s.phase.awaiting = true ∧ s.held = [s.nonce] ∧ s.outgoingControl = [] ∧ s.toBackend = [] ∧
      s.toHub = [] := by
  have hflow := h.flow hphase
  unfold Exchange.flow at hflow
  have hlength := congrArg List.length hflow
  have hpos := List.length_pos_iff.mpr hheld
  split_ifs at hflow hlength with hawaiting
  · simp only [List.length_append, List.length_singleton] at hlength
    have hcontrol : s.outgoingControl = [] := List.length_eq_zero_iff.mp (by omega)
    have hbackend : s.toBackend = [] := List.length_eq_zero_iff.mp (by omega)
    have hhub : s.toHub = [] := List.length_eq_zero_iff.mp (by omega)
    simp only [hcontrol, hbackend, hhub, List.append_nil] at hflow
    exact ⟨hawaiting, hflow, hcontrol, hbackend, hhub⟩
  · simp only [List.length_append, List.length_nil] at hlength
    omega

theorem Single.of_pump (h : s.Single) (hphase : s.phase ≠ .timedOut) {n : ℕ}
    (hpump : s.pump.token = some n) :
    s.phase.awaiting = true ∧ n = s.nonce ∧ s.reauthTokens = none := by
  have hne : s.held ≠ [] := by simp [held, hpump]
  obtain ⟨hawaiting, hheld, -⟩ := h.of_held hphase hne
  cases hslot : s.reauthTokens with
  | none => simpa [held, hpump, hslot, hawaiting] using hheld
  | some m => simp [held, hpump, hslot] at hheld

theorem Single.of_slot (h : s.Single) (hphase : s.phase ≠ .timedOut) {n : ℕ}
    (hslot : s.reauthTokens = some n) :
    s.phase.awaiting = true ∧ n = s.nonce ∧ s.pump.token = none := by
  have hne : s.held ≠ [] := by simp [held, hslot]
  obtain ⟨hawaiting, hheld, -⟩ := h.of_held hphase hne
  cases hpump : s.pump.token with
  | none => simpa [held, hpump, hslot, hawaiting] using hheld
  | some m => simp [held, hpump, hslot] at hheld

theorem Single.of_phase (h : s.Single) {p : Phase} (hfrom : s.phase ≠ .timedOut)
    (hto : p ≠ .timedOut) (hawaiting : p.awaiting = s.phase.awaiting)
    (hprepared : p ≠ .prepared) (hempty : p = .waiting → s.reauthTokens = none) :
    Single { s with phase := p } := by
  constructor
  · intro _
    show s.flow = _
    rw [h.flow hfrom, hawaiting]
  · rintro (hp | hp)
    · exact absurd hp hprepared
    · exact h.pending (Or.inr (hawaiting ▸ hp))
  · exact hempty
  · exact h.fired
  · have hkept := h.kept
    unfold Kept at hkept ⊢
    rw [if_neg hfrom] at hkept
    rw [if_neg hto]
    exact hkept

theorem Single.of_wire (h : s.Single) {control backend hub : List ℕ}
    (hsame : hub ++ backend ++ control = s.toHub ++ s.toBackend ++ s.outgoingControl) :
    Single { s with outgoingControl := control, toBackend := backend, toHub := hub } := by
  refine ⟨?_, h.pending, h.empty, h.fired, h.kept⟩
  intro hphase
  rw [show Exchange.flow _ = s.held ++ (hub ++ backend ++ control) by
    simp [Exchange.flow, held], hsame, ← h.flow hphase]
  simp [Exchange.flow]

theorem Single.of_timedOut (h : s.Single) (hs : s.phase = .timedOut) (ht : t.phase = .timedOut)
    (hfired : t.fired = s.fired) (htimely : t.timely = s.timely)
    (hprocessed : t.processed = s.processed) : t.Single := by
  constructor
  · intro hphase
    exact absurd ht hphase
  · rw [ht]
    rintro (hp | hp)
    · cases hp
    · cases hp
  · rw [ht]
    intro hp
    cases hp
  · rw [hfired]
    exact h.fired
  · have hkept := h.kept
    unfold Kept at hkept ⊢
    rw [if_pos hs] at hkept
    rw [if_pos ht, htimely, hprocessed]
    exact hkept

theorem Single.read (h : s.Single) {n : ℕ} {rest : List ℕ} (hhub : s.toHub = n :: rest)
    (hpump : s.pump = .idle) :
    Single { s with
      toHub := rest
      pump := .checking n
      timely :=
        if s.phase ≠ .timedOut ∧ s.fired = false then s.timely ++ [n] else s.timely } := by
  by_cases hphase : s.phase = .timedOut
  · apply h.of_timedOut hphase
    · exact hphase
    · rfl
    · exact if_neg fun hc => hc.1 hphase
    · rfl
  · have hone : s.flow.length ≤ 1 := by
      rw [h.flow hphase]
      split <;> simp
    have hslot : s.reauthTokens = none := by
      simp only [Exchange.flow, hhub, List.length_append, List.length_cons] at hone
      have hheld : s.held = [] := List.length_eq_zero_iff.mp (by omega)
      simpa [held, hpump, Pump.token] using hheld
    rw [if_pos ⟨hphase, h.fired⟩]
    refine ⟨?_, h.pending, h.empty, h.fired, ?_⟩
    · intro _
      have hflow := h.flow hphase
      simpa [Exchange.flow, held, hhub, hpump, hslot, Pump.token] using hflow
    · have hkept := h.kept
      simp only [Kept, if_neg hphase, held, hpump, hslot, Pump.token] at hkept ⊢
      simpa using hkept

theorem Single.checkPending (h : s.Single) {n : ℕ} (hpump : s.pump = .checking n) :
    Single { s with pump := if s.reauthPending then .sending n else .idle } := by
  by_cases hphase : s.phase = .timedOut
  · exact h.of_timedOut hphase hphase rfl rfl rfl
  · obtain ⟨hawaiting, -, -⟩ := h.of_pump hphase (n := n) (by rw [hpump]; rfl)
    rw [if_pos (h.pending (Or.inr hawaiting))]
    refine ⟨?_, h.pending, h.empty, h.fired, ?_⟩
    · intro _
      have hflow := h.flow hphase
      simpa [Exchange.flow, held, hpump, Pump.token] using hflow
    · have hkept := h.kept
      simpa [Kept, held, hpump, Pump.token] using hkept

theorem Single.sendToken (h : s.Single) {n : ℕ} (hpump : s.pump = .sending n)
    (hwaiting : s.phase ≠ .waiting) :
    Single { s with pump := .idle, reauthTokens := some (s.reauthTokens.getD n) } := by
  by_cases hphase : s.phase = .timedOut
  · exact h.of_timedOut hphase hphase rfl rfl rfl
  · obtain ⟨-, -, hslot⟩ := h.of_pump hphase (n := n) (by rw [hpump]; rfl)
    constructor
    · intro _
      have hflow := h.flow hphase
      simpa [Exchange.flow, held, hpump, hslot, Pump.token] using hflow
    · exact h.pending
    · intro hp
      exact absurd hp hwaiting
    · exact h.fired
    · have hkept := h.kept
      simpa [Kept, held, hpump, hslot, Pump.token] using hkept

theorem Single.take (h : s.Single) {pump : Pump} (hphase : s.phase ≠ .timedOut)
    (hheld : s.held = [s.nonce]) (hpump : pump.token = none) :
    ({ s with pump := pump, reauthTokens := none }.take s.nonce).Single := by
  obtain ⟨-, -, hc, hb, hh⟩ := h.of_held hphase (by rw [hheld]; exact List.cons_ne_nil _ _)
  constructor
  · intro _
    simp [Exchange.flow, held, Exchange.take, hpump, hc, hb, hh, Phase.awaiting]
  · rintro (hp | hp)
    · cases hp
    · cases hp
  · intro hp
    cases hp
  · exact h.fired
  · have hkept := h.kept
    unfold Kept at hkept
    rw [if_neg hphase, hheld] at hkept
    simp [Kept, held, Exchange.take, hpump, hkept]

theorem Single.prepareForNonce (h : s.Single) (hphase : s.phase = .idle) :
    Single { s with phase := .prepared, nonce := s.nonce + 1, reauthPending := true } := by
  have hne : s.phase ≠ .timedOut := by simp [hphase]
  have hflow := h.flow hne
  have hkept := h.kept
  rw [hphase] at hflow
  unfold Kept at hkept
  rw [if_neg hne] at hkept
  constructor
  · intro _
    exact hflow
  · intro _
    rfl
  · intro hp
    cases hp
  · exact h.fired
  · unfold Kept
    rw [if_neg (by simp)]
    exact hkept

theorem Single.enqueueChallenge (h : s.Single) (hphase : s.phase = .prepared) :
    Single { s with
      phase := .challenged
      outgoingControl := s.outgoingControl ++ [s.nonce] } := by
  have hne : s.phase ≠ .timedOut := by simp [hphase]
  have hflow := h.flow hne
  have hkept := h.kept
  simp only [hphase, Phase.awaiting, Bool.false_eq_true, if_false, Exchange.flow,
    List.append_eq_nil_iff] at hflow
  obtain ⟨⟨⟨hheld, hh⟩, hb⟩, hc⟩ := hflow
  unfold Kept at hkept
  rw [if_neg hne] at hkept
  constructor
  · intro _
    show s.held ++ s.toHub ++ s.toBackend ++ (s.outgoingControl ++ [s.nonce]) = [s.nonce]
    rw [hc, hb, hh, hheld]
    rfl
  · intro _
    exact h.pending (Or.inl hphase)
  · intro hp
    cases hp
  · exact h.fired
  · unfold Kept
    rw [if_neg (by simp)]
    exact hkept

theorem Single.of_quiet (h : s.Single) {p : Phase} (hfrom : s.phase ≠ .timedOut)
    (hawaiting : s.phase.awaiting = false) (hp : p = .idle ∨ p = .failed) :
    Single { s with phase := p, reauthPending := false } := by
  have hflow := h.flow hfrom
  have hkept := h.kept
  rw [hawaiting, if_neg Bool.false_ne_true] at hflow
  unfold Kept at hkept
  rw [if_neg hfrom] at hkept
  constructor
  · intro _
    show s.flow = _
    rcases hp with rfl | rfl
    · exact hflow
    · exact hflow
  · rcases hp with rfl | rfl
    · simp [Phase.awaiting]
    · simp [Phase.awaiting]
  · rcases hp with rfl | rfl
    · simp
    · simp
  · exact h.fired
  · unfold Kept
    rcases hp with rfl | rfl
    · exact hkept
    · exact hkept

theorem Single.drainStale (h : s.Single) (hphase : s.phase = .challenged)
    (hok : s.reauthTokens ≠ some s.nonce) :
    Single { s with phase := .drained, reauthTokens := none } := by
  have hne : s.phase ≠ .timedOut := by simp [hphase]
  have hslot : s.reauthTokens = none := by
    cases hslot : s.reauthTokens with
    | none => rfl
    | some n =>
      obtain ⟨-, rfl, -⟩ := h.of_slot hne hslot
      exact absurd hslot hok
  have hdrained := h.of_phase (p := .drained) hne (by simp) (by simp [hphase, Phase.awaiting])
    (by simp) (by simp)
  rw [← hslot]
  exact hdrained

theorem Single.timeOut (h : s.Single) (hphase : s.phase = .waiting) (hpump : s.pump = .idle) :
    s.timeOut.Single := by
  constructor
  · intro hne
    exact absurd rfl hne
  · rintro (hp | hp)
    · cases hp
    · cases hp
  · intro hp
    cases hp
  · exact h.fired
  · have hkept := h.kept
    have hheld : s.held = [] := by simp [held, hpump, Pump.token, h.empty hphase]
    unfold Kept at hkept ⊢
    rw [hheld, ite_self] at hkept
    exact hkept

theorem Single.newTimer (h : s.Single) (hphase : s.phase = .drained) :
    Single { s with phase := .armed, fired := false } := by
  rw [← h.fired]
  apply h.of_phase
  · simp [hphase]
  · simp
  · simp [hphase, Phase.awaiting]
  · simp
  · simp

theorem Single.block (h : s.Single) (hphase : s.phase = .armed) (hslot : s.reauthTokens = none) :
    Single { s with phase := .waiting } := by
  apply h.of_phase
  · simp [hphase]
  · simp
  · simp [hphase, Phase.awaiting]
  · simp
  · intro _
    exact hslot

theorem Single.takeToken (h : s.Single) {token : ℕ} (hslot : s.reauthTokens = some token)
    (hphase : s.phase = .armed) : ({ s with reauthTokens := none }.take token).Single := by
  have hne : s.phase ≠ .timedOut := by simp [hphase]
  obtain ⟨-, rfl, hpump⟩ := h.of_slot hne hslot
  apply h.take hne
  · simp [held, hslot, hpump]
  · exact hpump

theorem Single.finish (h : s.Single) {token : ℕ} (hphase : s.phase = .taken token) :
    Single { s with
      phase := if token = s.nonce then .idle else .failed
      reauthPending := false } := by
  apply h.of_quiet
  · simp [hphase]
  · simp [hphase, Phase.awaiting]
  · split
    · exact Or.inl rfl
    · exact Or.inr rfl

theorem Single.handOver (h : s.Single) {n : ℕ} (hpump : s.pump = .sending n)
    (hphase : s.phase = .waiting) : ({ s with pump := .idle }.take n).Single := by
  have hne : s.phase ≠ .timedOut := by simp [hphase]
  obtain ⟨-, rfl, hslot⟩ := h.of_pump hne (n := n) (by rw [hpump]; rfl)
  rw [hslot]
  apply h.take hne
  · simp [held, hslot, hpump, Pump.token]
  · rfl

theorem step_single {a : Action} (h : s.Single) (hok : s.Orderly a) (hstep : s.step a = some t) :
    t.Single := by
  cases a with
  | prepareForNonce =>
    obtain ⟨hphase, rfl⟩ := guarded hstep
    exact h.prepareForNonce hphase
  | enqueueChallenge queued =>
    obtain ⟨hphase, hstep⟩ := Option.ite_none_right_eq_some.mp hstep
    cases queued with
    | true =>
      cases hstep
      exact h.enqueueChallenge hphase
    | false =>
      cases hstep
      exact h.of_quiet (by simp [hphase]) (by simp [hphase, Phase.awaiting]) (Or.inr rfl)
  | drainStale =>
    obtain ⟨hphase, rfl⟩ := guarded hstep
    exact h.drainStale hphase hok
  | newTimer =>
    obtain ⟨hphase, rfl⟩ := guarded hstep
    exact h.newTimer hphase
  | block =>
    obtain ⟨⟨hphase, hslot, -⟩, rfl⟩ := guarded hstep
    exact h.block hphase hslot
  | takeToken =>
    simp only [step] at hstep
    split at hstep
    · cases hstep
    · next token hslot =>
      obtain ⟨hphase, rfl⟩ := guarded hstep
      exact h.takeToken hslot hphase
  | seeTimer =>
    obtain ⟨⟨-, hfired⟩, -⟩ := guarded hstep
    exact absurd hfired (by simp [h.fired])
  | finish =>
    simp only [step] at hstep
    split at hstep
    · next token hphase =>
      cases hstep
      exact h.finish hphase
    · cases hstep
  | fire =>
    obtain ⟨hphase, hpump⟩ := hok
    simp only [step, hphase] at hstep
    cases hstep
    exact h.timeOut hphase hpump
  | writePump =>
    simp only [step] at hstep
    split at hstep
    · cases hstep
    · next n rest hcontrol =>
      cases hstep
      exact h.of_wire (by simp [hcontrol])
  | answer =>
    simp only [step] at hstep
    split at hstep
    · cases hstep
    · next n rest hbackend =>
      cases hstep
      exact h.of_wire (by simp [hbackend])
  | read =>
    simp only [step] at hstep
    split at hstep
    · cases hstep
    · next n rest hhub =>
      obtain ⟨hpump, rfl⟩ := guarded hstep
      exact h.read hhub hpump
  | checkPending =>
    simp only [step] at hstep
    split at hstep
    · next n hpump =>
      cases hstep
      exact h.checkPending hpump
    · cases hstep
  | sendToken =>
    simp only [step] at hstep
    split at hstep
    · next n hpump =>
      split_ifs at hstep with hphase
      · cases hstep
        exact h.handOver hpump hphase
      · cases hstep
        exact h.sendToken hpump hphase
    · cases hstep

theorem run_single {actions : List Action} (horderly : Along step Orderly start actions)
    (hrun : run step start actions = some s) : s.Single :=
  invariant_along (fun _ _ _ h hok hstep => step_single h hok hstep) start_single horderly hrun

/-- In orderly runs no answer that is read before its timer fires is lost. -/
theorem timely_answers_taken {actions : List Action}
    (horderly : Along step Orderly start actions) (hrun : run step start actions = some s) :
    s.Kept := by
  have h := run_single horderly hrun
  exact h.kept

/-- One round in which the answer arrives while `performReauth` waits, and a second one in which
it is in the slot before the select. -/
def twoRounds : List Action :=
  [.prepareForNonce, .enqueueChallenge true, .drainStale, .newTimer, .block, .writePump, .answer,
    .read, .checkPending, .sendToken, .finish, .prepareForNonce, .enqueueChallenge true,
    .writePump, .answer, .read, .drainStale, .checkPending, .sendToken, .newTimer, .takeToken]

theorem timely_answers_taken_twice :
    ∃ s, run step start twoRounds = some s ∧ s.timely = [1, 2] ∧ s.processed = [1, 2] := by
  have hex : ∃ s, run step start twoRounds = some s ∧ (s.timely = [1, 2] ∧ s.held = []) :=
    exists_run_of_any (by decide +kernel)
  obtain ⟨s, hrun, htimely, hheld⟩ := hex
  have hkept : s.Kept := timely_answers_taken (by decide +kernel) hrun
  unfold Kept at hkept
  rw [htimely, hheld, ite_self, List.append_nil] at hkept
  exact ⟨s, hrun, htimely, hkept.symm⟩

/-- The answer is in the slot when the stale drain runs, and the round times out. -/
theorem answer_drained :
    ∃ s, run step start
        [.prepareForNonce, .enqueueChallenge true, .writePump, .answer, .read, .checkPending,
          .sendToken, .drainStale, .newTimer, .block, .fire] = some s ∧
      (s.phase = .timedOut ∧ s.timely = [1] ∧ s.processed = [] ∧ ¬s.Kept) :=
  exists_run_of_any (by decide +kernel)

end Exchange

end NexusProxy.Hub.ReauthExchange
