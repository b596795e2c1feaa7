import NexusProxy.Flow.ForwardCredits

/-! The write channel of a TCP connection under forward credits: when the tokens that the relay
holds and the frames and credits on their way cannot exceed the channel. -/
namespace NexusProxy.Flow.ForwardCredits
open FixedWidth Protocol Transition

/-- The step takes the branch of `handleDataMessage` that closes the connection because the write
buffer is full. -/
def BufferFull (s : Conn) : Action → Prop
  | .deliverData _ => s.isUDP = false ∧ localConnWriteBuffer ≤ s.writeCh
  | _ => False

instance (s : Conn) : DecidablePred (BufferFull s)
  | .deliverData _ => inferInstanceAs (Decidable (_ ∧ _))
  | .sendData | .activate | .take | .writeDone .. | .creditFlush _ | .deliverControl =>
      .isFalse fun h => h

/-- A frame that the relay sends before the first grant is registered leaves room for that
grant. -/
def LeavesRoom (s : Conn) : Action → Prop
  | .sendData => s.forwardCredits = none → outstanding s < localConnWriteBuffer
  | _ => True

instance (s : Conn) : DecidablePred (LeavesRoom s)
  | .sendData => inferInstanceAs (Decidable (_ → _))
  | .deliverData _ | .activate | .take | .writeDone .. | .creditFlush _ | .deliverControl =>
      .isTrue trivial

def tokens (s : Conn) : ℤ := (s.forwardCredits.elim 0 Semaphore.tokens : ℕ)

/-- Tokens, frames and credits together fit into the write channel. -/
structure Bounded (s : Conn) : Prop where
  isTCP : s.isUDP = false
  consumed_nonneg : 0 ≤ s.forwardConsumed
  credits_nonneg : ∀ msg ∈ s.toHub, 0 ≤ msg.credits
  bound : tokens s + outstanding s ≤ localConnWriteBuffer

theorem start_bounded {f : FlowControl} (hf : f.withDefaults.maxBuffer ≤ localConnWriteBuffer) :
    Bounded (start f false) where
  isTCP := rfl
  consumed_nonneg := le_rfl
  credits_nonneg := (start_conserved f false).credits_nonneg
  bound := by simpa [start, tokens, outstanding, Control.credits] using hf

namespace Bounded
variable {s t : Conn}

theorem moves (h : Bounded s) (hst : Moves s t) : Bounded t where
  isTCP := hst.isUDP.trans h.isTCP
  consumed_nonneg := hst.consumed_nonneg
  credits_nonneg := hst.credits_nonneg h.credits_nonneg
  bound := by
    have hbound := h.bound
    have hout := hst.outstanding_le
    rw [tokens, hst.forwardCredits, ← tokens]
    omega

theorem creditsInFlight_nonneg (h : Bounded s) : 0 ≤ creditsInFlight s.toHub :=
  List.sum_nonneg (by simpa using h.credits_nonneg)

theorem tokens_nonneg (s : Conn) : 0 ≤ tokens s := by
  unfold tokens
  omega

theorem writeCh_lt (h : Bounded s) (hpos : 0 < s.toClient) : s.writeCh < localConnWriteBuffer := by
  have hbound := h.bound
  have hcredits := h.creditsInFlight_nonneg
  have hconsumed := h.consumed_nonneg
  have htokens := tokens_nonneg s
  unfold outstanding at hbound
  split_ifs at hbound <;> omega

theorem sendData (h : Bounded s) (hroom : LeavesRoom s .sendData)
    (ht : ForwardCredits.sendData s = some t) : Bounded t := by
  have hbound := h.bound
  unfold ForwardCredits.sendData at ht
  cases hsem : s.forwardCredits with
  | none =>
    have hroom := hroom hsem
    simp only [hsem, Option.some.injEq] at ht
    subst ht
    refine ⟨h.isTCP, h.consumed_nonneg, h.credits_nonneg, ?_⟩
    simp only [tokens, hsem, outstanding, Option.elim_none] at hroom hbound ⊢
    push_cast
    omega
  | some sem =>
    simp only [hsem, Option.map_eq_some_iff] at ht
    obtain ⟨sem', hacq, rfl⟩ := ht
    obtain ⟨-, htok⟩ := Semaphore.acquire_eq_some hacq
    refine ⟨h.isTCP, h.consumed_nonneg, h.credits_nonneg, ?_⟩
    simp only [tokens, hsem, outstanding, Option.elim_some] at hbound ⊢
    push_cast
    omega

theorem handleControl {msg : Control} {rest : List Control} (h : Bounded s)
    (hub : s.toHub = msg :: rest) :
    Bounded (ForwardCredits.handleControl { s with toHub := rest } msg) := by
  have hrest : ∀ m ∈ rest, 0 ≤ m.credits := fun m hm => h.credits_nonneg m (by simp [hub, hm])
  have hmsg : 0 ≤ msg.credits := h.credits_nonneg msg (by simp [hub])
  have hout : outstanding s = outstanding { s with toHub := rest } + msg.credits := by
    simp only [outstanding, hub, creditsInFlight_cons]
    omega
  have hbound := h.bound
  cases msg with
  | pauseStream =>
    refine ⟨h.isTCP, h.consumed_nonneg, hrest, ?_⟩
    rw [hout, Control.credits, add_zero] at hbound
    exact hbound
  | resumeStream credits =>
    refine ⟨h.isTCP, h.consumed_nonneg, hrest, ?_⟩
    have htokens : tokens (ForwardCredits.handleControl { s with toHub := rest }
        (.resumeStream credits)) ≤ tokens s + credits := by
      by_cases hpos : 0 < credits
      · rw [ForwardCredits.handleControl, handleResumeStream_eq _ hpos]
        simp only [tokens, Option.elim_some, Semaphore.offerMany_tokens]
        cases s.forwardCredits with
        | none =>
          simp only [Option.getD_none, Semaphore.empty_tokens, Option.elim_none]
          omega
        | some sem =>
          simp only [Option.getD_some, Option.elim_some]
          omega
      · simp [ForwardCredits.handleControl, handleResumeStream, addForwardCredits, hpos, tokens]
        exact hmsg
    simp only [Control.credits] at hout
    have hsame : outstanding (ForwardCredits.handleControl { s with toHub := rest }
        (.resumeStream credits)) = outstanding { s with toHub := rest } := rfl
    omega

theorem counted (h : Bounded s) (a : Action) : Counted s a := by
  cases a with
  | deliverData pauseQueued => exact fun hudp => by simp [h.isTCP] at hudp
  | writeDone ok resumeQueued flushQueued =>
    refine ⟨fun hudp => by simp [h.isTCP] at hudp, ?_⟩
    have hbound := h.bound
    have hcredits := h.creditsInFlight_nonneg
    have htokens := tokens_nonneg s
    unfold outstanding localConnWriteBuffer at hbound
    split_ifs at hbound <;> omega
  | sendData => trivial
  | activate => trivial
  | take => trivial
  | creditFlush flushQueued => trivial
  | deliverControl => trivial

theorem step {a : Action} (h : Bounded s) (hroom : LeavesRoom s a)
    (hstep : ForwardCredits.step s a = some t) : Bounded t := by
  obtain ⟨-, ⟨rfl, hsend⟩ | ⟨msg, rest, hub, rfl⟩ | hmoves⟩ :=
    step_effect h.consumed_nonneg (h.counted a) hstep
  · exact h.sendData hroom hsend
  · exact h.handleControl hub
  · exact h.moves hmoves

theorem not_bufferFull {a : Action} (h : Bounded s) (hstep : ForwardCredits.step s a = some t) :
    ¬ BufferFull s a := by
  cases a with
  | deliverData pauseQueued =>
    rintro ⟨-, hfull⟩
    unfold ForwardCredits.step at hstep
    split_ifs at hstep
    simp only [openStep, Option.ite_none_right_eq_some] at hstep
    exact absurd hfull (not_le.mpr (h.writeCh_lt hstep.1))
  | _ => exact id

end Bounded

/-- A relay that obeys the credits, and leaves room for the first grant until it is registered,
never overflows a client whose grants fit into the channel. -/
theorem forward_never_overflows {f : FlowControl}
    (hbuffer : f.withDefaults.maxBuffer ≤ localConnWriteBuffer) {as : List Action} {s : Conn}
    (hroom : Along step LeavesRoom (start f false) as)
    (hrun : run step (start f false) as = some s) {a : Action} {t : Conn}
    (hstep : step s a = some t) : ¬ BufferFull s a := by
  have h : Bounded s :=
    invariant_along (fun _ _ _ hI hG hs => hI.step hG hs) (start_bounded hbuffer) hroom hrun
  exact h.not_bufferFull hstep

/-- The initial grant is registered, or not, and `n` frames are sent of which all but the last
are delivered. -/
def burst (registered : Bool) (n : ℕ) : List Action :=
  (if registered then [.deliverControl] else []) ++ List.replicate n .sendData ++
    List.replicate (n - 1) (.deliverData true)

theorem full_window_fits :
    ∃ s t, run step (start ⟨0, 0, 0⟩ false) (burst true 64) = some s ∧
      step s (.deliverData true) = some t ∧ s.writeCh = 63 ∧
      ¬ BufferFull s (.deliverData true) := by
  have hrun : ∃ s, run step (start ⟨0, 0, 0⟩ false) (burst true 64) = some s ∧
      ((step s (.deliverData true)).isSome ∧ s.writeCh = 63) :=
    exists_run_of_any (by decide +kernel)
  obtain ⟨s, hs, hsome, hfilled⟩ := hrun
  obtain ⟨t, ht⟩ := Option.isSome_iff_exists.mp hsome
  exact ⟨s, t, hs, ht, hfilled, forward_never_overflows (by decide) (by decide +kernel) hs ht⟩

/-- Frames that are sent before the grant is registered are not counted, and a window beyond the
channel is granted all the same: either way the connection is closed. -/
theorem writeCh_overflows :
    (FlowControl.Valid ⟨0, 0, 0⟩ ∧
      ∃ s, run step (start ⟨0, 0, 0⟩ false) (burst false 65) = some s ∧
        BufferFull s (.deliverData true) ∧
        (step s (.deliverData true)).map Conn.state = some .closed) ∧
      FlowControl.Valid ⟨16, 48, 65⟩ ∧
        ∃ s, run step (start ⟨16, 48, 65⟩ false) (burst true 65) = some s ∧
          BufferFull s (.deliverData true) ∧
          (step s (.deliverData true)).map Conn.state = some .closed :=
  ⟨⟨by decide, exists_run_of_any (by decide +kernel)⟩, by decide,
    exists_run_of_any (by decide +kernel)⟩

end NexusProxy.Flow.ForwardCredits
