import NexusProxy.Lib.Transition
import NexusProxy.Lib.FixedWidth
import NexusProxy.Lib.Semaphore
import NexusProxy.Protocol

/-! Forward flow control of one connection: the relay's token semaphore, the frames it
sends, the client's write channel with its consumed counter, and the credit messages
that travel back. -/
namespace NexusProxy.Flow.ForwardCredits
open FixedWidth Protocol Transition

def localConnWriteBuffer : ℕ := 64

def maxForwardCreditCapacity : ℤ := 2 ^ 20

/-- The flow control section of a backend's configuration. -/
structure FlowControl where
  lowWaterMark : ℤ
  highWaterMark : ℤ
  maxBuffer : ℤ
  deriving DecidableEq

/-- The defaults that `New` and `LoadConfig` fill in. -/
def FlowControl.withDefaults (f : FlowControl) : FlowControl where
  lowWaterMark := if f.lowWaterMark ≤ 0 then 16 else f.lowWaterMark
  highWaterMark := if f.highWaterMark ≤ 0 then 48 else f.highWaterMark
  maxBuffer := if f.maxBuffer ≤ 0 then 64 else f.maxBuffer

/-- The thresholds that `LoadConfig` accepts; `New` does not check them. -/
def FlowControl.Valid (f : FlowControl) : Prop :=
  f.withDefaults.lowWaterMark < f.withDefaults.highWaterMark ∧
    f.withDefaults.highWaterMark < f.withDefaults.maxBuffer

instance (f : FlowControl) : Decidable f.Valid := inferInstanceAs (Decidable (_ ∧ _))

inductive ConnState where
  | pending
  | active
  | closed
  deriving DecidableEq

/-- Messages of the client on this connection's behalf. A plain resume carries no credits. -/
inductive Control where
  | pauseStream
  | resumeStream (credits : ℤ)
  deriving DecidableEq

structure Conn where
  isUDP : Bool
  flow : FlowControl
  forwardCredits : Option Semaphore
  hubPaused : Bool
  toClient : ℕ
  toHub : List Control
  state : ConnState
  level : ℤ
  paused : Bool
  writeCh : ℕ
  writing : Bool
  forwardConsumed : ℤ
  creditFlushTimer : Bool
  deriving DecidableEq

/-- Booleans say whether a control message found room, and whether a local write succeeded. -/
inductive Action where
  | sendData
  | deliverData (pauseQueued : Bool)
  | activate
  | take
  | writeDone (ok resumeQueued flushQueued : Bool)
  | creditFlush (flushQueued : Bool)
  | deliverControl
  deriving DecidableEq

/-- The client has stored the connection and enqueued its initial grant. -/
def start (f : FlowControl) (isUDP : Bool) : Conn where
  isUDP := isUDP
  flow := f.withDefaults
  forwardCredits := none
  hubPaused := false
  toClient := 0
  toHub := [.resumeStream f.withDefaults.maxBuffer]
  state := .pending
  level := 0
  paused := false
  writeCh := 0
  writing := false
  forwardConsumed := 0
  creditFlushTimer := false

/-- `enqueueControl`, whose error the callers ignore. -/
def enqueueControl (s : Conn) (queued : Bool) (msg : Control) : Conn :=
  if queued then { s with toHub := s.toHub ++ [msg] } else s

/-- `acquireForwardCredit` and the send; a connection without semaphore is unlimited. -/
def sendData (s : Conn) : Option Conn :=
  match s.forwardCredits with
  | none => some { s with toClient := s.toClient + 1 }
  | some sem =>
      sem.acquire.map fun sem =>
        { s with forwardCredits := some sem, toClient := s.toClient + 1 }

/-- The pause check of `handleDataMessage`. -/
def raiseLevel (s : Conn) (pauseQueued : Bool) : Conn :=
  let s := { s with level := s.level + 1 }
  if s.flow.highWaterMark ≤ s.level ∧ s.paused = false then
    enqueueControl { s with paused := true } pauseQueued .pauseStream
  else s

def handleDataMessage (s : Conn) (pauseQueued : Bool) : Conn :=
  if s.isUDP then
    -- an active connection is written directly, and the outcome only counts drops
    if s.state = .active then s
    else if s.writeCh < localConnWriteBuffer then { s with writeCh := s.writeCh + 1 }
    else s
  else
    let s := raiseLevel s pauseQueued
    if s.writeCh < localConnWriteBuffer then { s with writeCh := s.writeCh + 1 }
    else { s with level := s.level - 1, state := .closed }

def flushForwardCredits (s : Conn) (queued : Bool) : Conn :=
  let pending := s.forwardConsumed
  if pending ≤ 0 then { s with forwardConsumed := 0 }
  else if queued then
    { s with forwardConsumed := 0, toHub := s.toHub ++ [.resumeStream pending] }
  else s

/-- A flush of `writeToLocal`, which arms its retry timer while credits are left. -/
def flushAndRearm (s : Conn) (queued : Bool) : Conn :=
  let s := flushForwardCredits s queued
  { s with creditFlushTimer := decide (0 < s.forwardConsumed) }

/-- The resume check of `writeToLocal`. -/
def lowerLevel (s : Conn) (resumeQueued : Bool) : Conn :=
  if s.isUDP then s
  else
    let s := { s with level := s.level - 1 }
    if s.paused ∧ s.level ≤ s.flow.lowWaterMark then
      enqueueControl { s with paused := false } resumeQueued (.resumeStream 0)
    else s

/-- The counter update of `writeToLocal` after a successful write. -/
def consume (s : Conn) (flushQueued : Bool) : Conn :=
  let s := { s with forwardConsumed := int32 (s.forwardConsumed + 1) }
  if (creditReplenishBatch : ℤ) ≤ s.forwardConsumed then flushAndRearm s flushQueued else s

/-- The rest of a `writeToLocal` iteration once `conn.Write` returns. -/
def writeToLocal (s : Conn) (ok resumeQueued flushQueued : Bool) : Conn :=
  let s := { s with writing := false }
  if ok then consume (lowerLevel s resumeQueued) flushQueued
  else if s.isUDP then s
  else { s with state := .closed }

/-- The forward credit part of the relay's `handleResumeStream`. -/
def addForwardCredits (forwardCredits : Option Semaphore) (credits : ℤ) : Option Semaphore :=
  if 0 < credits then
    let credits := if maxForwardCreditCapacity < credits then maxForwardCreditCapacity else credits
    let capacity :=
      if (defaultCreditCapacity : ℤ) < credits then credits else defaultCreditCapacity
    some ((forwardCredits.getD (.empty capacity.toNat)).offerMany credits.toNat)
  else forwardCredits

def handleResumeStream (s : Conn) (credits : ℤ) : Conn :=
  { s with hubPaused := false, forwardCredits := addForwardCredits s.forwardCredits credits }

def handleControl (s : Conn) : Control → Conn
  | .pauseStream => { s with hubPaused := true }
  | .resumeStream credits => handleResumeStream s credits

def openStep (s : Conn) : Action → Option Conn
  | .sendData => sendData s
  | .deliverData pauseQueued =>
      if 0 < s.toClient then
        some (handleDataMessage { s with toClient := s.toClient - 1 } pauseQueued)
      else none
  | .activate => if s.state = .pending then some { s with state := .active } else none
  | .take =>
      if s.state = .active ∧ s.writing = false ∧ 0 < s.writeCh then
        some { s with writeCh := s.writeCh - 1, writing := true }
      else none
  | .writeDone ok resumeQueued flushQueued =>
      if s.writing then some (writeToLocal s ok resumeQueued flushQueued) else none
  | .creditFlush flushQueued =>
      if s.creditFlushTimer ∧ s.writing = false then some (flushAndRearm s flushQueued) else none
  | .deliverControl =>
      match s.toHub with
      | [] => none
      | msg :: rest => some (handleControl { s with toHub := rest } msg)

def step (s : Conn) (a : Action) : Option Conn :=
  if s.state = .closed then none else openStep s a

/-- No frame or credit message is in flight, nothing is buffered, no handler is in the
middle of a step and no failed flush waits for its retry. -/
structure Quiescent (s : Conn) : Prop where
  isOpen : s.state ≠ .closed
  toClient : s.toClient = 0
  toHub : s.toHub = []
  writeCh : s.writeCh = 0
  writing : s.writing = false
  creditFlushTimer : s.creditFlushTimer = false

instance (s : Conn) : Decidable (Quiescent s) :=
  decidable_of_iff (s.state ≠ .closed ∧ s.toClient = 0 ∧ s.toHub = [] ∧ s.writeCh = 0 ∧
      s.writing = false ∧ s.creditFlushTimer = false)
    ⟨fun ⟨h₁, h₂, h₃, h₄, h₅, h₆⟩ => ⟨h₁, h₂, h₃, h₄, h₅, h₆⟩,
      fun ⟨h₁, h₂, h₃, h₄, h₅, h₆⟩ => ⟨h₁, h₂, h₃, h₄, h₅, h₆⟩⟩

/-- At rest with a registered window and no token left. -/
def Stalled (s : Conn) : Prop :=
  Quiescent s ∧ s.forwardCredits.map Semaphore.tokens = some 0

instance (s : Conn) : Decidable (Stalled s) := inferInstanceAs (Decidable (_ ∧ _))

def Control.credits : Control → ℤ
  | .pauseStream => 0
  | .resumeStream credits => credits

def creditsInFlight (msgs : List Control) : ℤ := (msgs.map Control.credits).sum

/-- Tokens that have left the semaphore and are still due to come back. -/
def outstanding (s : Conn) : ℤ :=
  s.toClient + s.writeCh + (if s.writing then 1 else 0) + s.forwardConsumed +
    creditsInFlight s.toHub

/-- The tokens the first grant registers. -/
def window (f : FlowControl) : ℤ := min f.withDefaults.maxBuffer maxForwardCreditCapacity

/-- Before registration the initial grant leads the messages; afterwards every token is
in the semaphore or due to come back. -/
def Covered (f : FlowControl) (s : Conn) : Prop :=
  match s.forwardCredits with
  | none => s.toHub.head? = some (.resumeStream f.withDefaults.maxBuffer)
  | some sem => window f ≤ sem.capacity ∧ sem.capacity ≤ maxForwardCreditCapacity ∧
      window f ≤ sem.tokens + outstanding s

structure Conserved (f : FlowControl) (s : Conn) : Prop where
  consumed_nonneg : 0 ≤ s.forwardConsumed
  credits_nonneg : ∀ msg ∈ s.toHub, 0 ≤ msg.credits
  covered : s.state ≠ .closed → Covered f s

/-- A full batch is only left unflushed while the retry timer is armed. -/
def Flushed (s : Conn) : Prop :=
  s.creditFlushTimer = false → s.forwardConsumed < creditReplenishBatch

/-- The frame of this step leaves the client on a path that counts it, and the 32-bit
counter holds it. -/
def Counted (s : Conn) : Action → Prop
  | .deliverData _ =>
      s.isUDP = true → s.state = .pending ∧ s.writeCh < localConnWriteBuffer
  | .writeDone ok _ _ =>
      (s.isUDP = true → ok = true) ∧ s.forwardConsumed + 1 < 2 ^ 31
  | _ => True

instance (s : Conn) (a : Action) : Decidable (Counted s a) := by
  cases a <;> unfold Counted <;> infer_instance

theorem withDefaults_maxBuffer_pos (f : FlowControl) : 0 < f.withDefaults.maxBuffer := by
  simp only [FlowControl.withDefaults]
  split_ifs <;> omega

theorem start_conserved (f : FlowControl) (isUDP : Bool) : Conserved f (start f isUDP) where
  consumed_nonneg := le_rfl
  credits_nonneg msg hmsg := by
    rw [List.mem_singleton.mp hmsg]
    exact (withDefaults_maxBuffer_pos f).le
  covered _ := rfl

@[simp] theorem creditsInFlight_nil : creditsInFlight [] = 0 := rfl

@[simp] theorem creditsInFlight_cons (msg : Control) (msgs : List Control) :
    creditsInFlight (msg :: msgs) = msg.credits + creditsInFlight msgs := by
  simp [creditsInFlight]

@[simp] theorem creditsInFlight_append (msgs more : List Control) :
    creditsInFlight (msgs ++ more) = creditsInFlight msgs + creditsInFlight more := by
  simp [creditsInFlight]

/-- A step of the client moves frames and credits along; only one that closes the connection
loses any. -/
structure Moves (s t : Conn) : Prop where
  isUDP : t.isUDP = s.isUDP
  forwardCredits : t.forwardCredits = s.forwardCredits
  consumed_nonneg : 0 ≤ t.forwardConsumed
  messages : ∃ more, t.toHub = s.toHub ++ more ∧ ∀ msg ∈ more, 0 ≤ msg.credits
  outstanding_le : outstanding t ≤ outstanding s
  outstanding_eq : t.state ≠ .closed → outstanding t = outstanding s

theorem Moves.of_eq {s t : Conn} (hudp : t.isUDP = s.isUDP)
    (hsem : t.forwardCredits = s.forwardCredits) (hn : 0 ≤ t.forwardConsumed)
    (more : List Control) (hub : t.toHub = s.toHub ++ more)
    (hmore : ∀ msg ∈ more, 0 ≤ msg.credits) (hout : outstanding t = outstanding s) : Moves s t :=
  ⟨hudp, hsem, hn, ⟨more, hub, hmore⟩, hout.le, fun _ => hout⟩

theorem Moves.credits_nonneg {s t : Conn} (h : Moves s t)
    (hs : ∀ msg ∈ s.toHub, 0 ≤ msg.credits) : ∀ msg ∈ t.toHub, 0 ≤ msg.credits := by
  obtain ⟨more, hub, hmore⟩ := h.messages
  intro msg hmsg
  rw [hub, List.mem_append] at hmsg
  exact hmsg.elim (hs msg) (hmore msg)

theorem Conserved.moves {f : FlowControl} {s t : Conn} (h : Conserved f s) (hs : s.state ≠ .closed)
    (hst : Moves s t) : Conserved f t where
  consumed_nonneg := hst.consumed_nonneg
  credits_nonneg := hst.credits_nonneg h.credits_nonneg
  covered ht := by
    have hc := h.covered hs
    obtain ⟨more, hub, -⟩ := hst.messages
    unfold Covered at hc ⊢
    rw [hst.forwardCredits, hub]
    cases hsem : s.forwardCredits with
    | none =>
      simp only [hsem] at hc ⊢
      rw [List.head?_append, hc]
      rfl
    | some sem =>
      simp only [hsem] at hc ⊢
      rw [hst.outstanding_eq ht]
      exact hc

/-- The watermark checks touch the level, the pause flag and messages without credits. -/
def SameCredits (s t : Conn) : Prop :=
  ∃ (level : ℤ) (paused : Bool) (more : List Control), (∀ msg ∈ more, msg.credits = 0) ∧
    t = { s with level := level, paused := paused, toHub := s.toHub ++ more }

theorem enqueueControl_sameCredits (s : Conn) (queued : Bool) {msg : Control}
    (h : msg.credits = 0) : SameCredits s (enqueueControl s queued msg) := by
  cases queued with
  | false => exact ⟨s.level, s.paused, [], by simp, by simp [enqueueControl]⟩
  | true => exact ⟨s.level, s.paused, [msg], by simpa using h, rfl⟩

theorem raiseLevel_sameCredits (s : Conn) (queued : Bool) :
    SameCredits s (raiseLevel s queued) := by
  unfold raiseLevel
  dsimp only
  split_ifs
  · have hpause : Control.credits .pauseStream = 0 := rfl
    obtain ⟨l, p, more, hmore, he⟩ := enqueueControl_sameCredits
      { s with level := s.level + 1, paused := true } queued hpause
    exact ⟨l, p, more, hmore, he⟩
  · exact ⟨s.level + 1, s.paused, [], by simp, by simp⟩

theorem lowerLevel_sameCredits (s : Conn) (queued : Bool) :
    SameCredits s (lowerLevel s queued) := by
  unfold lowerLevel
  dsimp only
  split_ifs
  · exact ⟨s.level, s.paused, [], by simp, by simp⟩
  · have hresume : Control.credits (.resumeStream 0) = 0 := rfl
    obtain ⟨l, p, more, hmore, he⟩ := enqueueControl_sameCredits
      { s with level := s.level - 1, paused := false } queued hresume
    exact ⟨l, p, more, hmore, he⟩
  · exact ⟨s.level - 1, s.paused, [], by simp, by simp⟩

theorem creditsInFlight_eq_zero {msgs : List Control} (h : ∀ msg ∈ msgs, msg.credits = 0) :
    creditsInFlight msgs = 0 := by
  induction msgs with
  | nil => rfl
  | cons msg msgs ih =>
    rw [creditsInFlight_cons, h msg (by simp), ih fun m hm => h m (by simp [hm])]
    rfl

theorem SameCredits.outstanding_eq {s t : Conn} (h : SameCredits s t) :
    outstanding t = outstanding s := by
  obtain ⟨l, p, more, hmore, rfl⟩ := h
  simp [outstanding, creditsInFlight_eq_zero hmore]

section Steps
variable {f : FlowControl} {s t : Conn}

theorem sendData_conserved (h : Conserved f s) (hs : s.state ≠ .closed)
    (ht : sendData s = some t) : Conserved f t := by
  have hc := h.covered hs
  unfold sendData at ht
  unfold Covered at hc
  cases hsem : s.forwardCredits with
  | none =>
    simp only [hsem, Option.some.injEq] at ht hc
    subst ht
    exact ⟨h.consumed_nonneg, h.credits_nonneg, fun _ => by simpa [Covered, hsem] using hc⟩
  | some sem =>
    simp only [hsem, Option.map_eq_some_iff] at ht hc
    obtain ⟨sem', hacq, rfl⟩ := ht
    obtain ⟨hcap, htok⟩ := Semaphore.acquire_eq_some hacq
    refine ⟨h.consumed_nonneg, h.credits_nonneg, fun _ => ?_⟩
    simp only [Covered, hcap]
    refine ⟨hc.1, hc.2.1, ?_⟩
    have hw := hc.2.2
    simp only [outstanding] at hw ⊢
    push_cast at hw ⊢
    omega

theorem deliverData_moves {pauseQueued : Bool} (hn : 0 ≤ s.forwardConsumed)
    (hg : Counted s (.deliverData pauseQueued)) (hpos : 0 < s.toClient) :
    Moves s (handleDataMessage { s with toClient := s.toClient - 1 } pauseQueued) := by
  unfold handleDataMessage
  dsimp only
  by_cases hudp : s.isUDP = true
  · obtain ⟨hpend, hroom⟩ := hg hudp
    rw [if_pos hudp, if_neg (by simp [hpend]), if_pos hroom]
    refine .of_eq rfl rfl hn [] (by simp) (by simp) ?_
    simp only [outstanding]
    push_cast
    omega
  rw [if_neg hudp]
  obtain ⟨l, p, more, hmore, he⟩ :=
    raiseLevel_sameCredits { s with toClient := s.toClient - 1 } pauseQueued
  have hout := (raiseLevel_sameCredits { s with toClient := s.toClient - 1 }
    pauseQueued).outstanding_eq
  rw [he] at hout ⊢
  have hmore' : ∀ msg ∈ more, 0 ≤ msg.credits := fun msg hmsg => (hmore msg hmsg).ge
  simp only [outstanding] at hout
  split_ifs
  · refine .of_eq rfl rfl hn more rfl hmore' ?_
    simp only [outstanding]
    push_cast
    omega
  · refine ⟨rfl, rfl, hn, ⟨more, rfl, hmore'⟩, ?_, fun hopen => absurd rfl hopen⟩
    simp only [outstanding]
    omega

/-- A flush moves the whole count into a credit message or keeps it for the retry. -/
theorem flushAndRearm_moves (hn : 0 ≤ s.forwardConsumed) (queued : Bool) :
    Moves s (flushAndRearm s queued) := by
  unfold flushAndRearm flushForwardCredits
  dsimp only
  split_ifs with hzero hqueued
  · have h0 : s.forwardConsumed = 0 := by omega
    refine .of_eq rfl rfl le_rfl [] (by simp) (by simp) ?_
    simp [outstanding, h0]
  · refine .of_eq rfl rfl le_rfl [.resumeStream s.forwardConsumed] rfl
      (by simpa [Control.credits]) ?_
    simp [outstanding, Control.credits]
    omega
  · exact .of_eq rfl rfl hn [] (by simp) (by simp) rfl

theorem flushAndRearm_state (s : Conn) (queued : Bool) :
    (flushAndRearm s queued).state = s.state := by
  unfold flushAndRearm flushForwardCredits
  dsimp only
  split_ifs <;> rfl

theorem flushAndRearm_flushed (s : Conn) (queued : Bool) : Flushed (flushAndRearm s queued) := by
  intro htimer
  have hleft : ¬ 0 < (flushAndRearm s queued).forwardConsumed := of_decide_eq_false htimer
  have hbatch : (0 : ℤ) < creditReplenishBatch := by decide
  omega

theorem consume_flushed (s : Conn) (queued : Bool) : Flushed (consume s queued) := by
  unfold consume
  dsimp only
  split_ifs with hbatch
  · exact flushAndRearm_flushed _ queued
  · exact fun _ => not_le.mp hbatch

theorem writeToLocal_flushed (hf : Flushed s) (ok resumeQueued flushQueued : Bool) :
    Flushed (writeToLocal s ok resumeQueued flushQueued) := by
  unfold writeToLocal
  dsimp only
  split_ifs
  · exact consume_flushed _ flushQueued
  · exact hf
  · exact hf

theorem handleDataMessage_flushed (hf : Flushed s) (pauseQueued : Bool) :
    Flushed (handleDataMessage s pauseQueued) := by
  obtain ⟨l, p, more, -, he⟩ := raiseLevel_sameCredits s pauseQueued
  unfold handleDataMessage
  dsimp only
  rw [he]
  split_ifs <;> exact hf

theorem Moves.trans {s t u : Conn} (hst : Moves s t) (htu : Moves t u)
    (hclosed : t.state = .closed → u.state = .closed) : Moves s u where
  isUDP := htu.isUDP.trans hst.isUDP
  forwardCredits := htu.forwardCredits.trans hst.forwardCredits
  consumed_nonneg := htu.consumed_nonneg
  messages := by
    obtain ⟨more, hub, hmore⟩ := hst.messages
    obtain ⟨more', hub', hmore'⟩ := htu.messages
    refine ⟨more ++ more', by rw [hub', hub, List.append_assoc], fun msg hmsg => ?_⟩
    exact (List.mem_append.mp hmsg).elim (hmore msg) (hmore' msg)
  outstanding_le := htu.outstanding_le.trans hst.outstanding_le
  outstanding_eq hu :=
    (htu.outstanding_eq hu).trans (hst.outstanding_eq fun ht => hu (hclosed ht))

theorem writeToLocal_moves {ok resumeQueued flushQueued : Bool} (hn : 0 ≤ s.forwardConsumed)
    (hw : s.writing = true) (hg : Counted s (.writeDone ok resumeQueued flushQueued)) :
    Moves s (writeToLocal s ok resumeQueued flushQueued) := by
  unfold writeToLocal
  dsimp only
  cases ok with
  | false =>
    have htcp : ¬s.isUDP = true := fun hudp => absurd (hg.1 hudp) (by decide)
    rw [if_neg (by decide), if_neg htcp]
    refine ⟨rfl, rfl, hn, ⟨[], by simp, by simp⟩, ?_, fun hopen => absurd rfl hopen⟩
    simp [outstanding, hw]
  | true =>
    rw [if_pos rfl]
    have hsame := lowerLevel_sameCredits { s with writing := false } resumeQueued
    have hout := hsame.outstanding_eq
    obtain ⟨l, p, more, hmore, he⟩ := hsame
    have hint : int32 (s.forwardConsumed + 1) = s.forwardConsumed + 1 :=
      int32_eq (by omega) hg.2
    rw [he] at hout ⊢
    unfold consume
    dsimp only
    rw [hint]
    have hcounted : Moves s
        { s with
          writing := false, level := l, paused := p, toHub := s.toHub ++ more,
          forwardConsumed := s.forwardConsumed + 1 } := by
      refine .of_eq rfl rfl (by simp; omega) more rfl (fun msg hmsg => (hmore msg hmsg).ge) ?_
      simp only [outstanding, hw] at hout ⊢
      simp at hout ⊢
      omega
    split_ifs with hbatch
    · refine hcounted.trans (flushAndRearm_moves hcounted.consumed_nonneg flushQueued) ?_
      rw [flushAndRearm_state]
      exact id
    · exact hcounted

theorem outstanding_nonneg (hn : 0 ≤ s.forwardConsumed)
    (hc : ∀ msg ∈ s.toHub, 0 ≤ msg.credits) : 0 ≤ outstanding s := by
  have hsum : 0 ≤ creditsInFlight s.toHub := List.sum_nonneg (by simpa using hc)
  unfold outstanding
  split_ifs <;> omega

theorem replenish_covered {sem : Semaphore} {credits w : ℤ} (hpos : 0 < credits)
    (hcap : w ≤ sem.capacity) (hmax : sem.capacity ≤ maxForwardCreditCapacity) {out : ℤ}
    (hout : 0 ≤ out) (hw : w ≤ sem.tokens + (out + credits)) :
    w ≤ (sem.offerMany (min credits maxForwardCreditCapacity).toNat).tokens + out := by
  have hle := sem.tokens_le
  rw [Semaphore.offerMany_tokens]
  unfold maxForwardCreditCapacity at *
  push_cast
  omega

theorem register_covered {credits : ℤ} (hpos : 0 < credits) :
    let granted := min credits maxForwardCreditCapacity
    let sem := (Semaphore.empty (max granted defaultCreditCapacity).toNat).offerMany granted.toNat
    granted ≤ sem.capacity ∧ sem.capacity ≤ maxForwardCreditCapacity ∧ granted ≤ sem.tokens := by
  intro granted sem
  have htok : sem.tokens = _ := Semaphore.offerMany_tokens _ _
  have hcap : sem.capacity = (max granted defaultCreditCapacity).toNat := by simp [sem]
  simp only [Semaphore.empty_capacity, Semaphore.empty_tokens] at htok
  have hg : 0 < granted ∧ granted ≤ maxForwardCreditCapacity :=
    ⟨lt_min hpos (by decide), min_le_right _ _⟩
  have hd : (defaultCreditCapacity : ℤ) ≤ maxForwardCreditCapacity := by decide
  rw [htok, hcap]
  push_cast
  omega

theorem handleResumeStream_eq (s : Conn) {credits : ℤ} (hpos : 0 < credits) :
    handleResumeStream s credits =
      { s with
        hubPaused := false
        forwardCredits := some ((s.forwardCredits.getD (.empty
          (max (min credits maxForwardCreditCapacity) defaultCreditCapacity).toNat)).offerMany
            (min credits maxForwardCreditCapacity).toNat) } := by
  have hclamp : (if maxForwardCreditCapacity < credits then maxForwardCreditCapacity
      else credits) = min credits maxForwardCreditCapacity := by
    split_ifs <;> omega
  have hcap : (if (defaultCreditCapacity : ℤ) < min credits maxForwardCreditCapacity then
      min credits maxForwardCreditCapacity else defaultCreditCapacity) =
      max (min credits maxForwardCreditCapacity) defaultCreditCapacity := by
    split_ifs <;> omega
  simp only [handleResumeStream, addForwardCredits, if_pos hpos, hclamp, hcap]

theorem handleControl_conserved {msg : Control} {rest : List Control} (h : Conserved f s)
    (hs : s.state ≠ .closed) (hub : s.toHub = msg :: rest) :
    Conserved f (handleControl { s with toHub := rest } msg) := by
  have hc := h.covered hs
  have hrest : ∀ m ∈ rest, 0 ≤ m.credits := fun m hm => h.credits_nonneg m (by simp [hub, hm])
  have hmsg : 0 ≤ msg.credits := h.credits_nonneg msg (by simp [hub])
  have hout : outstanding s = outstanding { s with toHub := rest } + msg.credits := by
    simp only [outstanding, hub, creditsInFlight_cons]
    omega
  have hfirst : s.forwardCredits = none → msg = .resumeStream f.withDefaults.maxBuffer := by
    intro hnone
    simpa [Covered, hnone, hub] using hc
  have hzero : msg.credits = 0 → ∃ sem, s.forwardCredits = some sem := by
    intro h0
    cases hsem : s.forwardCredits with
    | some sem => exact ⟨sem, rfl⟩
    | none =>
      rw [hfirst hsem] at h0
      exact absurd h0 (withDefaults_maxBuffer_pos f).ne'
  have hkeep : msg.credits = 0 → ∀ paused : Bool,
      Conserved f { s with toHub := rest, hubPaused := paused } := by
    intro h0 paused
    obtain ⟨sem, hsem⟩ := hzero h0
    refine ⟨h.consumed_nonneg, hrest, fun _ => ?_⟩
    simp only [Covered, hsem] at hc ⊢
    exact ⟨hc.1, hc.2.1, by rw [hout, h0, add_zero] at hc; exact hc.2.2⟩
  cases msg with
  | pauseStream => exact hkeep rfl true
  | resumeStream credits =>
    by_cases hpos : 0 < credits
    · have hn : 0 ≤ outstanding { s with toHub := rest } :=
        outstanding_nonneg h.consumed_nonneg hrest
      rw [handleControl, handleResumeStream_eq _ hpos]
      refine ⟨h.consumed_nonneg, hrest, fun _ => ?_⟩
      cases hsem : s.forwardCredits with
      | none =>
        obtain ⟨hcap, hmax, htok⟩ := register_covered hpos
        have hfull : credits = f.withDefaults.maxBuffer := by simpa using hfirst hsem
        simp only [Covered, Option.getD_none, window, ← hfull]
        exact ⟨hcap, hmax, le_add_of_le_of_nonneg htok hn⟩
      | some sem =>
        simp only [Covered, hsem] at hc
        rw [hout] at hc
        simp only [Covered, Option.getD_some, Semaphore.offerMany_capacity]
        exact ⟨hc.1, hc.2.1, replenish_covered hpos hc.1 hc.2.1 hn hc.2.2⟩
    · have h0 : credits = 0 := le_antisymm (not_lt.mp hpos) hmsg
      subst h0
      exact hkeep rfl false

/-- What a step can do: the relay sends or receives, or the client moves frames and credits. -/
theorem step_effect {a : Action} (hn : 0 ≤ s.forwardConsumed) (hg : Counted s a)
    (hstep : step s a = some t) :
    s.state ≠ .closed ∧
      (a = .sendData ∧ sendData s = some t ∨
        (∃ msg rest, s.toHub = msg :: rest ∧ t = handleControl { s with toHub := rest } msg) ∨
          Moves s t) := by
  unfold step at hstep
  split_ifs at hstep with hs
  refine ⟨hs, ?_⟩
  cases a with
  | sendData => exact Or.inl ⟨rfl, hstep⟩
  | deliverData pauseQueued =>
    simp only [openStep, Option.ite_none_right_eq_some, Option.some.injEq] at hstep
    obtain ⟨hpos, rfl⟩ := hstep
    exact Or.inr (Or.inr (deliverData_moves hn hg hpos))
  | activate =>
    simp only [openStep, Option.ite_none_right_eq_some, Option.some.injEq] at hstep
    obtain ⟨-, rfl⟩ := hstep
    exact Or.inr (Or.inr (.of_eq rfl rfl hn [] (by simp) (by simp) rfl))
  | take =>
    simp only [openStep, Option.ite_none_right_eq_some, Option.some.injEq] at hstep
    obtain ⟨⟨-, hw, hpos⟩, rfl⟩ := hstep
    refine Or.inr (Or.inr (.of_eq rfl rfl hn [] (by simp) (by simp) ?_))
    simp only [outstanding, hw]
    simp
    omega
  | writeDone ok resumeQueued flushQueued =>
    simp only [openStep, Option.ite_none_right_eq_some, Option.some.injEq] at hstep
    obtain ⟨hw, rfl⟩ := hstep
    exact Or.inr (Or.inr (writeToLocal_moves hn hw hg))
  | creditFlush flushQueued =>
    simp only [openStep, Option.ite_none_right_eq_some, Option.some.injEq] at hstep
    obtain ⟨-, rfl⟩ := hstep
    exact Or.inr (Or.inr (flushAndRearm_moves hn flushQueued))
  | deliverControl =>
    cases hub : s.toHub with
    | nil => simp [openStep, hub] at hstep
    | cons msg rest =>
      simp only [openStep, hub, Option.some.injEq] at hstep
      exact Or.inr (Or.inl ⟨msg, rest, rfl, hstep.symm⟩)

theorem step_flushed {a : Action} (hf : Flushed s) (hstep : step s a = some t) : Flushed t := by
  unfold step at hstep
  split_ifs at hstep with hs
  cases a with
  | sendData =>
    rw [openStep, sendData] at hstep
    split at hstep
    · cases hstep
      exact hf
    · obtain ⟨sem, -, rfl⟩ := Option.map_eq_some_iff.mp hstep
      exact hf
  | deliverData pauseQueued =>
    simp only [openStep, Option.ite_none_right_eq_some, Option.some.injEq] at hstep
    obtain ⟨-, rfl⟩ := hstep
    exact handleDataMessage_flushed (s := { s with toClient := s.toClient - 1 }) hf pauseQueued
  | activate =>
    simp only [openStep, Option.ite_none_right_eq_some, Option.some.injEq] at hstep
    obtain ⟨-, rfl⟩ := hstep
    exact hf
  | take =>
    simp only [openStep, Option.ite_none_right_eq_some, Option.some.injEq] at hstep
    obtain ⟨-, rfl⟩ := hstep
    exact hf
  | writeDone ok resumeQueued flushQueued =>
    simp only [openStep, Option.ite_none_right_eq_some, Option.some.injEq] at hstep
    obtain ⟨-, rfl⟩ := hstep
    exact writeToLocal_flushed hf ok resumeQueued flushQueued
  | creditFlush flushQueued =>
    simp only [openStep, Option.ite_none_right_eq_some, Option.some.injEq] at hstep
    obtain ⟨-, rfl⟩ := hstep
    exact flushAndRearm_flushed s flushQueued
  | deliverControl =>
    rw [openStep] at hstep
    split at hstep
    · cases hstep
    · next msg rest hub =>
      cases hstep
      cases msg <;> exact hf

theorem step_conserved {a : Action} (h : Conserved f s) (hg : Counted s a)
    (hstep : step s a = some t) : Conserved f t := by
  obtain ⟨hs, ⟨rfl, hsend⟩ | ⟨msg, rest, hub, rfl⟩ | hmoves⟩ :=
    step_effect h.consumed_nonneg hg hstep
  · exact sendData_conserved h hs hsend
  · exact handleControl_conserved h hs hub
  · exact h.moves hs hmoves

end Steps

/-- With a window of at least one batch, a run in which every frame is counted leaves a
token in the semaphore whenever the connection comes to rest. -/
theorem forward_token_left {f : FlowControl} {isUDP : Bool} {as : List Action} {s : Conn}
    {sem : Semaphore} (hbuffer : (creditReplenishBatch : ℤ) ≤ f.withDefaults.maxBuffer)
    (hcounted : Along step Counted (start f isUDP) as)
    (hrun : run step (start f isUDP) as = some s) (hq : Quiescent s)
    (hsem : s.forwardCredits = some sem) : 0 < sem.tokens := by
  have hstart : Flushed (start f isUDP) := fun _ => by simp [start, creditReplenishBatch]
  have h : Conserved f s :=
    invariant_along (fun _ _ _ hI hG hs => step_conserved hI hG hs) (start_conserved f isUDP)
      hcounted hrun
  have hf : Flushed s := invariant_run (fun _ _ _ hI hs => step_flushed hI hs) hstart hrun
  have hc := h.covered hq.isOpen
  have hlt := hf hq.creditFlushTimer
  simp only [Covered, hsem, outstanding, hq.toClient, hq.writeCh, hq.writing, hq.toHub,
    creditsInFlight_nil] at hc
  have hw : (creditReplenishBatch : ℤ) ≤ window f := le_min hbuffer (by decide)
  have hcov := hc.2.2
  simp at hcov
  omega

/-- The dial completes, the initial grant arrives and `n` frames are sent and written. -/
def writtenFrames (n : ℕ) : List Action :=
  [.activate, .deliverControl] ++ (List.replicate n
    [.sendData, .deliverData true, .take, .writeDone true true true]).flatten

/-- The dial completes, the initial grant arrives and `n` frames are sent and delivered. -/
def directFrames (n : ℕ) : List Action :=
  [.activate, .deliverControl] ++ (List.replicate n [.sendData, .deliverData true]).flatten

theorem forward_token_left_defaults :
    ∃ s sem, run step (start ⟨0, 0, 0⟩ false) (writtenFrames 7) = some s ∧
      s.forwardCredits = some sem ∧ 0 < sem.tokens := by
  have hrun : ∃ s, run step (start ⟨0, 0, 0⟩ false) (writtenFrames 7) = some s ∧
      (Quiescent s ∧ s.forwardCredits.isSome) := exists_run_of_any (by decide +kernel)
  obtain ⟨s, hs, hq, hsome⟩ := hrun
  obtain ⟨sem, hsem⟩ := Option.isSome_iff_exists.mp hsome
  exact ⟨s, sem, hs, hsem, forward_token_left (by decide) (by decide +kernel) hs hq hsem⟩

/-- A window below one batch is never replenished, and frames written directly to an
active UDP connection are never counted. -/
theorem forward_tokens_exhausted :
    (∃ s, run step (start ⟨1, 2, 4⟩ false) (writtenFrames 4) = some s ∧ Stalled s) ∧
      ∃ s, run step (start ⟨0, 0, 0⟩ true) (directFrames 64) = some s ∧ Stalled s :=
  ⟨exists_run_of_any (by decide +kernel), exists_run_of_any (by decide +kernel)⟩

end NexusProxy.Flow.ForwardCredits
