import Mathlib.Algebra.BigOperators.Group.List.Basic
import NexusProxy.Lib.Semaphore
import NexusProxy.Lib.Transition
import NexusProxy.Protocol

/-! The credits of one direction of a tunnelled TCP stream: the sender's channel, the data and
credit messages under way, and the goroutines that retry a credit message for which the send
queue had no room. -/
namespace NexusProxy.Peer.TunnelCredits
open Protocol Transition

/-- The sender is `StartTunnel` at the origin, or `TunneledConn.Write` at the destination. -/
inductive Direction where
  | toDestination
  | toOrigin
  deriving DecidableEq

/-- What the sender is about to do, and whether it holds a credit for it. -/
inductive Sender where
  | acquiring
  | reading (credited : Bool)
  | sending (credited : Bool)
  deriving DecidableEq

/-- A `retryCreditSend` goroutine. -/
structure Retry where
  credits : ℕ
  attempts : ℕ
  deriving DecidableEq

/-- `active` is `sendActive` or `creditActive`, `credits` the channel `sendCh` or `sendCredits`
and `consumed` the counter `forwardConsumed` or `recvConsumed`. `abandoned` is history: the
credits that retries have given up. -/
structure Link where
  isOpen : Bool
  active : Bool
  credits : Semaphore
  sender : Sender
  data : ℕ
  consumed : ℕ
  creditMessages : List ℕ
  retries : List Retry
  abandoned : ℕ
  deriving DecidableEq

/-- Booleans say whether `p.Send` has room, and whether a write succeeds. -/
inductive Action where
  | acquire
  | read
  | send (accepted : Bool)
  | receive (written accepted : Bool)
  | retry (i : ℕ) (accepted : Bool)
  | deliverCredits
  deriving DecidableEq

/-- The other side has queued the initial grant. -/
def start : Link where
  isOpen := true
  active := false
  credits := .empty defaultCreditCapacity
  sender := .acquiring
  data := 0
  consumed := 0
  creditMessages := [defaultCreditCapacity]
  retries := []
  abandoned := 0

def maxAttempts : ℕ := 5

/-- `StartTunnel` waits for the client's data once it has a credit. -/
def afterAcquire (dir : Direction) (credited : Bool) : Sender :=
  match dir with
  | .toDestination => .reading credited
  | .toOrigin => .sending credited

def acquire (dir : Direction) (s : Link) : Option Link :=
  if s.sender = .acquiring then
    if s.active then
      s.credits.acquire.map fun credits =>
        { s with credits := credits, sender := afterAcquire dir true }
    else some { s with sender := afterAcquire dir false }
  else none

/-- A data message that finds no room: `StartTunnel` drops it and refunds the credit, while the
error of `TunneledConn.Write` closes the tunnel. -/
def sendFailed (dir : Direction) (s : Link) : Link :=
  match dir with
  | .toDestination =>
      { s with
        credits := if s.active then s.credits.offer else s.credits
        sender := .acquiring }
  | .toOrigin => { s with isOpen := false }

/-- The replenishment of `HandleTunnelData` and of the origin's `readPump`, which write the
payload first. -/
def receive (s : Link) (written accepted : Bool) : Link :=
  let s := { s with data := s.data - 1 }
  if written then
    let consumed := s.consumed + 1
    if creditReplenishBatch ≤ consumed then
      if accepted then
        { s with consumed := 0, creditMessages := s.creditMessages ++ [consumed] }
      else { s with consumed := 0, retries := s.retries ++ [⟨consumed, 0⟩] }
    else { s with consumed := consumed }
  else { s with isOpen := false }

def retryCreditSend (s : Link) (i : ℕ) (r : Retry) (accepted : Bool) : Link :=
  if accepted then
    { s with
      creditMessages := s.creditMessages ++ [r.credits], retries := s.retries.eraseIdx i }
  else if r.attempts + 1 = maxAttempts then
    { s with retries := s.retries.eraseIdx i, abandoned := s.abandoned + r.credits }
  else { s with retries := s.retries.set i { r with attempts := r.attempts + 1 } }

def clampCredits (credits : ℕ) : ℕ :=
  if credits = 0 ∨ defaultCreditCapacity < credits then defaultCreditCapacity else credits

def openStep (dir : Direction) (s : Link) : Action → Option Link
  | .acquire => acquire dir s
  | .read =>
      match s.sender with
      | .reading credited => some { s with sender := .sending credited }
      | _ => none
  | .send accepted =>
      match s.sender with
      | .sending _ =>
          some (if accepted then { s with data := s.data + 1, sender := .acquiring }
            else sendFailed dir s)
      | _ => none
  | .receive written accepted => if 0 < s.data then some (receive s written accepted) else none
  | .retry i accepted =>
      match s.retries[i]? with
      | some r => some (retryCreditSend s i r accepted)
      | none => none
  | .deliverCredits =>
      match s.creditMessages with
      | credits :: rest => some
          { s with
            active := true
            credits := s.credits.offerMany (clampCredits credits)
            creditMessages := rest }
      | [] => none

def step (dir : Direction) (s : Link) (a : Action) : Option Link :=
  if s.isOpen then openStep dir s a else none

/-- Nothing is under way and nobody retries; the sender waits for a credit or for data. -/
structure Quiescent (s : Link) : Prop where
  isOpen : s.isOpen = true
  sender : ∀ credited, s.sender ≠ .sending credited
  data : s.data = 0
  creditMessages : s.creditMessages = []
  retries : s.retries = []

/-- The credits that a direction can lose: `StartTunnel` may hold one while it reads. -/
def tolerance : Direction → ℕ
  | .toDestination => 6 * creditReplenishBatch
  | .toOrigin => 7 * creditReplenishBatch

/-- A retry that gives up does not exceed what the direction can lose. -/
def GivesUpFew (dir : Direction) (s : Link) : Action → Prop
  | .retry i false => ∀ r ∈ s.retries[i]?, r.attempts + 1 = maxAttempts →
      s.abandoned + r.credits ≤ tolerance dir
  | _ => True

section Invariant
variable {dir : Direction} {s t : Link}

def Sender.held : Sender → ℕ
  | .reading true | .sending true => 1
  | .acquiring | .reading false | .sending false => 0

@[simp] theorem held_acquiring : Sender.acquiring.held = 0 := rfl

theorem held_le (sender : Sender) : sender.held ≤ 1 := by
  unfold Sender.held
  split <;> omega

/-- Credits, wherever they are, and those that were given up. -/
def circulating (s : Link) : ℕ :=
  s.credits.tokens + s.sender.held + s.data + s.consumed + s.creditMessages.sum +
    (s.retries.map Retry.credits).sum + s.abandoned

/-- The initial grant comes first, and from then on no credit is missing. -/
def Covered (s : Link) : Prop :=
  if s.active then defaultCreditCapacity ≤ circulating s
  else s.creditMessages.head? = some defaultCreditCapacity

def InRange (credits : ℕ) : Prop := 0 < credits ∧ credits ≤ defaultCreditCapacity

structure Conserved (dir : Direction) (s : Link) : Prop where
  capacity : s.credits.capacity = defaultCreditCapacity
  reads : dir = .toOrigin → ∀ credited, s.sender ≠ .reading credited
  consumed_lt : s.consumed < creditReplenishBatch
  messages : ∀ credits ∈ s.creditMessages, InRange credits
  retries : ∀ r ∈ s.retries, InRange r.credits
  abandoned_le : s.abandoned ≤ tolerance dir
  covered : s.isOpen = true → Covered s

theorem start_conserved (dir : Direction) : Conserved dir start where
  capacity := rfl
  reads _ _ h := nomatch h
  consumed_lt := by decide
  messages := by unfold InRange; decide
  retries _ h := nomatch h
  abandoned_le := Nat.zero_le _
  covered _ := rfl

theorem clampCredits_eq {credits : ℕ} (h : InRange credits) : clampCredits credits = credits :=
  if_neg (by unfold InRange at h; omega)

namespace Conserved

theorem covered_of_le (hs : Covered s) (hactive : t.active = s.active) (more : List ℕ)
    (hmessages : t.creditMessages = s.creditMessages ++ more)
    (hle : circulating s ≤ circulating t) : Covered t := by
  unfold Covered at hs ⊢
  rw [hactive, hmessages]
  split_ifs at hs ⊢ with hact
  · exact hs.trans hle
  · rw [List.head?_append, hs]
    rfl

theorem acquire (h : Conserved dir s) (hopen : s.isOpen = true)
    (ht : TunnelCredits.acquire dir s = some t) : Conserved dir t := by
  have hreads (credited : Bool) :
      dir = .toOrigin → ∀ c, afterAcquire dir credited ≠ .reading c := by
    rintro rfl c heq
    cases heq
  unfold TunnelCredits.acquire at ht
  split_ifs at ht with hsender hactive
  · obtain ⟨credits, hacq, rfl⟩ := Option.map_eq_some_iff.mp ht
    obtain ⟨hcap, htok⟩ := Semaphore.acquire_eq_some hacq
    refine
      { h with
        capacity := hcap.trans h.capacity
        reads := hreads true
        covered := fun _ => ?_ }
    refine covered_of_le (h.covered hopen) rfl [] (List.append_nil _).symm ?_
    have hheld : (afterAcquire dir true).held = 1 := by cases dir <;> rfl
    simp only [circulating, hsender, hheld, held_acquiring]
    omega
  · cases ht
    refine { h with reads := hreads false, covered := fun _ => ?_ }
    refine covered_of_le (h.covered hopen) rfl [] (List.append_nil _).symm ?_
    simp only [circulating, hsender, held_acquiring]
    omega

theorem read {credited : Bool} (h : Conserved dir s) (hopen : s.isOpen = true)
    (hsender : s.sender = .reading credited) :
    Conserved dir { s with sender := .sending credited } := by
  refine { h with reads := fun _ _ heq => (nomatch heq), covered := fun _ => ?_ }
  refine covered_of_le (h.covered hopen) rfl [] (List.append_nil _).symm ?_
  have hheld : (Sender.sending credited).held = (Sender.reading credited).held := by
    cases credited <;> rfl
  simp only [circulating, hsender, hheld, le_refl]

theorem send (h : Conserved dir s) (hopen : s.isOpen = true) :
    Conserved dir { s with data := s.data + 1, sender := .acquiring } := by
  refine { h with reads := fun _ _ heq => (nomatch heq), covered := fun _ => ?_ }
  refine covered_of_le (h.covered hopen) rfl [] (List.append_nil _).symm ?_
  have hheld := held_le s.sender
  simp only [circulating, held_acquiring]
  omega

theorem sendFailed (h : Conserved dir s) (hopen : s.isOpen = true) :
    Conserved dir (TunnelCredits.sendFailed dir s) := by
  cases dir with
  | toOrigin => exact { h with covered := fun hclosed => (nomatch hclosed) }
  | toDestination =>
    have hcap := h.capacity
    refine
      { h with
        capacity := ?_
        reads := fun _ _ heq => (nomatch heq)
        covered := fun _ => ?_ }
    · dsimp only [TunnelCredits.sendFailed]
      split_ifs
      · rw [Semaphore.offer_capacity, hcap]
      · exact hcap
    · have hcovered := h.covered hopen
      have hheld := held_le s.sender
      unfold Covered TunnelCredits.sendFailed at *
      dsimp only
      split_ifs at hcovered ⊢
      · simp only [circulating, held_acquiring, Semaphore.offer_tokens, hcap] at hcovered ⊢
        omega
      · exact hcovered

theorem receive (h : Conserved dir s) (hopen : s.isOpen = true) (hpos : 0 < s.data)
    (written accepted : Bool) : Conserved dir (TunnelCredits.receive s written accepted) := by
  have hlt := h.consumed_lt
  have hzero : 0 < creditReplenishBatch := by decide
  have hbatch : InRange (s.consumed + 1) := by
    unfold InRange
    unfold creditReplenishBatch at hlt
    unfold defaultCreditCapacity
    omega
  unfold TunnelCredits.receive
  dsimp only
  split_ifs with hwritten hfull haccepted
  · refine { h with consumed_lt := hzero, messages := ?_, covered := fun _ => ?_ }
    · intro credits hmem
      rcases List.mem_append.mp hmem with hmem | hmem
      · exact h.messages credits hmem
      · obtain rfl := List.mem_singleton.mp hmem
        exact hbatch
    · refine covered_of_le (h.covered hopen) rfl [s.consumed + 1] rfl ?_
      simp only [circulating, List.sum_append, List.sum_singleton]
      omega
  · refine { h with consumed_lt := hzero, retries := ?_, covered := fun _ => ?_ }
    · intro r hmem
      rcases List.mem_append.mp hmem with hmem | hmem
      · exact h.retries r hmem
      · obtain rfl := List.mem_singleton.mp hmem
        exact hbatch
    · refine covered_of_le (h.covered hopen) rfl [] (List.append_nil _).symm ?_
      simp only [circulating, List.map_append, List.sum_append, List.map_singleton,
        List.sum_singleton]
      omega
  · refine { h with consumed_lt := not_le.mp hfull, covered := fun _ => ?_ }
    refine covered_of_le (h.covered hopen) rfl [] (List.append_nil _).symm ?_
    simp only [circulating]
    omega
  · exact { h with covered := fun hclosed => (nomatch hclosed) }

theorem retryCreditSend {i : ℕ} {r : Retry} {accepted : Bool} (h : Conserved dir s)
    (hopen : s.isOpen = true) (hi : s.retries[i]? = some r)
    (hfew : GivesUpFew dir s (.retry i accepted)) :
    Conserved dir (TunnelCredits.retryCreditSend s i r accepted) := by
  have hrange : InRange r.credits := h.retries r (List.mem_of_getElem? hi)
  obtain ⟨hlt, hget⟩ : ∃ hlt : i < (s.retries.map Retry.credits).length,
      (s.retries.map Retry.credits)[i] = r.credits := by
    obtain ⟨hlt, hget⟩ := List.getElem?_eq_some_iff.mp hi
    exact ⟨by simpa using hlt, by simp [hget]⟩
  have hsum : r.credits + ((s.retries.eraseIdx i).map Retry.credits).sum =
      (s.retries.map Retry.credits).sum := by
    rw [← hget, ← List.eraseIdx_map]
    exact List.CommMonoid.add_sum_eraseIdx hlt
  have herase : ∀ r' ∈ s.retries.eraseIdx i, InRange r'.credits :=
    fun r' hr' => h.retries r' (List.mem_of_mem_eraseIdx hr')
  unfold TunnelCredits.retryCreditSend
  split_ifs with haccepted hlast
  · refine { h with messages := ?_, retries := herase, covered := fun _ => ?_ }
    · intro credits hmem
      rcases List.mem_append.mp hmem with hmem | hmem
      · exact h.messages credits hmem
      · obtain rfl := List.mem_singleton.mp hmem
        exact hrange
    · refine covered_of_le (h.covered hopen) rfl [r.credits] rfl ?_
      simp only [circulating, List.sum_append, List.sum_singleton]
      omega
  · obtain rfl : accepted = false := Bool.eq_false_iff.mpr haccepted
    refine
      { h with
        retries := herase
        abandoned_le := hfew r hi hlast
        covered := fun _ => ?_ }
    refine covered_of_le (h.covered hopen) rfl [] (List.append_nil _).symm ?_
    simp only [circulating]
    omega
  · refine { h with retries := ?_, covered := fun _ => ?_ }
    · intro r' hr'
      rcases List.mem_or_eq_of_mem_set hr' with hr' | rfl
      · exact h.retries r' hr'
      · exact hrange
    · refine covered_of_le (h.covered hopen) rfl [] (List.append_nil _).symm ?_
      have hsame : (s.retries.set i { r with attempts := r.attempts + 1 }).map Retry.credits =
          s.retries.map Retry.credits := by
        rw [List.map_set, ← hget]
        exact List.set_getElem_self hlt
      simp only [circulating, hsame, le_refl]

theorem deliverCredits {credits : ℕ} {rest : List ℕ} (h : Conserved dir s)
    (hopen : s.isOpen = true) (hmessages : s.creditMessages = credits :: rest) :
    Conserved dir { s with
      active := true
      credits := s.credits.offerMany (clampCredits credits)
      creditMessages := rest } := by
  have hrange : InRange credits := h.messages credits (by simp [hmessages])
  have hcap := h.capacity
  have hcovered := h.covered hopen
  refine
    { h with
      capacity := (Semaphore.offerMany_capacity _ _).trans hcap
      messages := fun c hc => h.messages c (by simp [hmessages, hc])
      covered := fun _ => ?_ }
  unfold Covered at hcovered ⊢
  rw [if_pos rfl, clampCredits_eq hrange]
  simp only [circulating, Semaphore.offerMany_tokens, hcap]
  split_ifs at hcovered
  · simp only [circulating, hmessages, List.sum_cons] at hcovered
    omega
  · rw [hmessages, List.head?_cons, Option.some.injEq] at hcovered
    omega

theorem step {a : Action} (h : Conserved dir s) (hfew : GivesUpFew dir s a)
    (hstep : TunnelCredits.step dir s a = some t) : Conserved dir t := by
  unfold TunnelCredits.step at hstep
  split_ifs at hstep with hopen
  cases a with
  | acquire => exact h.acquire hopen hstep
  | read =>
    rw [openStep] at hstep
    split at hstep
    · next hsender => exact Option.some.inj hstep ▸ h.read hopen hsender
    · cases hstep
  | send accepted =>
    rw [openStep] at hstep
    split at hstep
    · split_ifs at hstep
      · exact Option.some.inj hstep ▸ h.send hopen
      · exact Option.some.inj hstep ▸ h.sendFailed hopen
    · cases hstep
  | receive written accepted =>
    simp only [openStep, Option.ite_none_right_eq_some, Option.some.injEq] at hstep
    obtain ⟨hpos, rfl⟩ := hstep
    exact h.receive hopen hpos written accepted
  | retry i accepted =>
    rw [openStep] at hstep
    split at hstep
    · next hi => exact Option.some.inj hstep ▸ h.retryCreditSend hopen hi hfew
    · cases hstep
  | deliverCredits =>
    rw [openStep] at hstep
    split at hstep
    · next hmessages => exact Option.some.inj hstep ▸ h.deliverCredits hopen hmessages
    · cases hstep

end Conserved

/-- As long as the retries have not given up too many batches, a tunnel at rest has a credit. -/
theorem credit_left {as : List Action} (hfew : Along (step dir) (GivesUpFew dir) start as)
    (hrun : run (step dir) start as = some s) (hactive : s.active = true) (hq : Quiescent s) :
    0 < s.credits.tokens := by
  have h : Conserved dir s :=
    invariant_along (fun _ _ _ hI hG hs => hI.step hG hs) (start_conserved dir) hfew hrun
  have hcovered := h.covered hq.isOpen
  rw [Covered, if_pos hactive, circulating, hq.data, hq.creditMessages, hq.retries] at hcovered
  have hlt := h.consumed_lt
  have hlost := h.abandoned_le
  have hheld := held_le s.sender
  simp only [List.sum_nil, List.map_nil] at hcovered
  unfold defaultCreditCapacity at hcovered
  unfold creditReplenishBatch at hlt
  cases dir with
  | toDestination =>
    simp only [tolerance, creditReplenishBatch] at hlost
    omega
  | toOrigin =>
    -- `TunneledConn.Write` sends at once, so at rest it holds nothing.
    have hnone : s.sender = .acquiring := by
      cases hsender : s.sender with
      | acquiring => rfl
      | reading credited => exact absurd hsender (h.reads rfl credited)
      | sending credited => exact absurd hsender (hq.sender credited)
    rw [hnone, held_acquiring] at hcovered
    simp only [tolerance, creditReplenishBatch] at hlost
    omega

end Invariant

instance (dir : Direction) (s : Link) (a : Action) : Decidable (GivesUpFew dir s a) := by
  unfold GivesUpFew
  split <;> infer_instance

instance (s : Link) : Decidable (Quiescent s) :=
  decidable_of_iff (s.isOpen = true ∧ (s.sender ≠ .sending true ∧ s.sender ≠ .sending false) ∧
      s.data = 0 ∧ s.creditMessages = [] ∧ s.retries = [])
    ⟨fun ⟨h₁, h₂, h₃, h₄, h₅⟩ => ⟨h₁, by rintro (_ | _) <;> simp [h₂], h₃, h₄, h₅⟩,
      fun ⟨h₁, h₂, h₃, h₄, h₅⟩ => ⟨h₁, ⟨h₂ true, h₂ false⟩, h₃, h₄, h₅⟩⟩

/-- A batch of data is sent and consumed, and its credits go to a retry that fails a number of
times before it has room or gives up. -/
def batch (dir : Direction) (failures : ℕ) : List Action :=
  let frame := match dir with
    | .toDestination => [.acquire, .read, .send true]
    | .toOrigin => [.acquire, .send true]
  (List.replicate creditReplenishBatch frame).flatten ++
    List.replicate creditReplenishBatch (.receive true false) ++
    List.replicate failures (.retry 0 false) ++
    if failures < maxAttempts then [.retry 0 true, .deliverCredits] else []

/-- The initial grant arrives, one batch is given up and the next one is retried in time. -/
def oneLoss (dir : Direction) : List Action := .deliverCredits :: (batch dir 5 ++ batch dir 4)

theorem oneLoss_credit_left :
    (∃ s, run (step .toDestination) start (oneLoss .toDestination) = some s ∧ Quiescent s ∧
      0 < s.credits.tokens) ∧
    ∃ s, run (step .toOrigin) start (oneLoss .toOrigin) = some s ∧ Quiescent s ∧
      0 < s.credits.tokens := by
  have hleft (dir : Direction) : ∃ s, run (step dir) start (oneLoss dir) = some s ∧
      Quiescent s ∧ 0 < s.credits.tokens := by
    have hrun : ∃ s, run (step dir) start (oneLoss dir) = some s ∧
        (Quiescent s ∧ s.active = true) := by
      cases dir <;> exact exists_run_of_any (by decide +kernel)
    have hfew : Along (step dir) (GivesUpFew dir) start (oneLoss dir) := by
      cases dir <;> decide +kernel
    obtain ⟨s, hs, hq, hactive⟩ := hrun
    exact ⟨s, hs, hq, credit_left hfew hs hactive hq⟩
  exact ⟨hleft .toDestination, hleft .toOrigin⟩

/-- Eight batches are given up one after the other. -/
def eightLosses (dir : Direction) : List Action :=
  .deliverCredits :: (List.replicate 8 (batch dir 5)).flatten

/-- Nothing is under way, the tunnel is open and its sender has no credit left. -/
theorem eightLosses_stalled :
    (∃ s, run (step .toDestination) start (eightLosses .toDestination) = some s ∧ Quiescent s ∧
      s.active = true ∧ s.credits.tokens = 0) ∧
    ∃ s, run (step .toOrigin) start (eightLosses .toOrigin) = some s ∧ Quiescent s ∧
      s.active = true ∧ s.credits.tokens = 0 :=
  ⟨exists_run_of_any (by decide +kernel), exists_run_of_any (by decide +kernel)⟩

end NexusProxy.Peer.TunnelCredits
