import NexusProxy.Flow.ForwardCredits

/-! The watermarks of one TCP connection, step by step: the read pump raises the level and pauses
the relay, the write goroutine lowers it and resumes the relay, and each sets the flag and
enqueues its message in separate steps. -/
namespace NexusProxy.Flow.PauseResume
open ForwardCredits FixedWidth Protocol Transition

/-- Where `handleDataMessage` is. -/
inductive Reader where
  | idle
  | raised (currentLevel : ℤ)
  | pausing
  | sendingPause
  | enqueuing
  deriving DecidableEq

/-- Where `writeToLocal` is. -/
inductive Writer where
  | idle
  | writing
  | written
  | lowered (newLevel : ℤ)
  | clearing
  | resuming
  | consuming
  deriving DecidableEq

structure Split where
  conn : Conn
  reader : Reader
  writer : Writer
  deriving DecidableEq

inductive Action where
  | sendData
  | deliverControl
  | activate
  | raiseLevel
  | checkHigh
  | setPaused
  | enqueuePause
  | enqueueData
  | take
  | write (ok : Bool)
  | lowerLevel
  | checkLow
  | clearPaused
  | enqueueResume
  | consume (flushQueued : Bool)
  | creditFlush (flushQueued : Bool)
  deriving DecidableEq

def start (f : FlowControl) : Split := ⟨ForwardCredits.start f false, .idle, .idle⟩

/-- The steps of `handleDataMessage`. -/
def readerStep (s : Split) : Action → Option Split
  | .raiseLevel =>
      if s.reader = .idle ∧ 0 < s.conn.toClient then
        some { s with
          conn := { s.conn with toClient := s.conn.toClient - 1, level := s.conn.level + 1 }
          reader := .raised (s.conn.level + 1) }
      else none
  | .checkHigh =>
      match s.reader with
      | .raised currentLevel =>
          if s.conn.flow.highWaterMark ≤ currentLevel ∧ s.conn.paused = false then
            some { s with reader := .pausing }
          else some { s with reader := .enqueuing }
      | _ => none
  | .setPaused =>
      if s.reader = .pausing then
        some { s with conn := { s.conn with paused := true }, reader := .sendingPause }
      else none
  | .enqueuePause =>
      if s.reader = .sendingPause then
        some { s with conn := enqueueControl s.conn true .pauseStream, reader := .enqueuing }
      else none
  | .enqueueData =>
      if s.reader = .enqueuing then
        if s.conn.writeCh < localConnWriteBuffer then
          some { s with conn := { s.conn with writeCh := s.conn.writeCh + 1 }, reader := .idle }
        else
          some { s with
            conn := { s.conn with level := s.conn.level - 1, state := .closed }, reader := .idle }
      else none
  | _ => none

/-- The steps of `writeToLocal`. -/
def writerStep (s : Split) : Action → Option Split
  | .take =>
      if s.writer = .idle ∧ s.conn.state = .active ∧ 0 < s.conn.writeCh then
        some { s with
          conn := { s.conn with writeCh := s.conn.writeCh - 1, writing := true }
          writer := .writing }
      else none
  | .write ok =>
      if s.writer = .writing then
        if ok then some { s with writer := .written }
        else some { s with
          conn := { s.conn with writing := false, state := .closed }, writer := .idle }
      else none
  | .lowerLevel =>
      if s.writer = .written then
        some { s with
          conn := { s.conn with level := s.conn.level - 1 }
          writer := .lowered (s.conn.level - 1) }
      else none
  | .checkLow =>
      match s.writer with
      | .lowered newLevel =>
          if s.conn.paused = true ∧ newLevel ≤ s.conn.flow.lowWaterMark then
            some { s with writer := .clearing }
          else some { s with writer := .consuming }
      | _ => none
  | .clearPaused =>
      if s.writer = .clearing then
        some { s with conn := { s.conn with paused := false }, writer := .resuming }
      else none
  | .enqueueResume =>
      if s.writer = .resuming then
        some { s with conn := enqueueControl s.conn true (.resumeStream 0), writer := .consuming }
      else none
  | .consume flushQueued =>
      if s.writer = .consuming then
        some { s with
          conn := ForwardCredits.consume { s.conn with writing := false } flushQueued
          writer := .idle }
      else none
  | .creditFlush flushQueued =>
      if s.writer = .idle ∧ s.conn.creditFlushTimer = true then
        some { s with conn := flushAndRearm s.conn flushQueued }
      else none
  | _ => none

/-- The steps of the relay, and the end of the dial. -/
def hubStep (s : Split) : Action → Option Split
  | .sendData => (ForwardCredits.sendData s.conn).map fun conn => { s with conn := conn }
  | .deliverControl =>
      match s.conn.toHub with
      | [] => none
      | msg :: rest => some { s with conn := handleControl { s.conn with toHub := rest } msg }
  | .activate =>
      if s.conn.state = .pending then
        some { s with conn := { s.conn with state := .active } }
      else none
  | _ => none

def step (s : Split) (a : Action) : Option Split :=
  if s.conn.state = .closed then none
  else (readerStep s a).or ((writerStep s a).or (hubStep s a))

def readFrame : List Action := [.raiseLevel, .checkHigh, .enqueueData]

def finishWrite (resumes flushQueued : Bool) : List Action :=
  [Action.write true, .lowerLevel, .checkLow] ++
    (if resumes then [Action.clearPaused, .enqueueResume] else []) ++ [Action.consume flushQueued]

def writeFrame (resumes : Bool) : List Action := .take :: finishWrite resumes true

section Coarse
variable {c d : Conn}

def Split.ofConn (c : Conn) : Split := ⟨c, .idle, if c.writing then .writing else .idle⟩

/-- The messages of the watermarks find room. -/
def Enqueued : ForwardCredits.Action → Prop
  | .deliverData pauseQueued => pauseQueued = true
  | .writeDone _ resumeQueued _ => resumeQueued = true
  | _ => True

theorem handleDataMessage_run {s : Split} (hopen : s.conn.state ≠ .closed)
    (hudp : s.conn.isUDP = false) (hidle : s.reader = .idle) (hpos : 0 < s.conn.toClient) :
    ∃ as, run step s as = some { s with
      conn := handleDataMessage { s.conn with toClient := s.conn.toClient - 1 } true } := by
  by_cases hpause : s.conn.flow.highWaterMark ≤ s.conn.level + 1 ∧ s.conn.paused = false
  · refine ⟨[.raiseLevel, .checkHigh, .setPaused, .enqueuePause, .enqueueData], ?_⟩
    by_cases hroom : s.conn.writeCh < localConnWriteBuffer <;>
      simp [run_cons, step, hopen, readerStep, hidle, hpos, hpause, hroom, handleDataMessage,
        hudp, raiseLevel, enqueueControl]
  · refine ⟨readFrame, ?_⟩
    by_cases hroom : s.conn.writeCh < localConnWriteBuffer <;>
      simp [run_cons, step, hopen, readerStep, hidle, hpos, hpause, hroom, handleDataMessage,
        hudp, raiseLevel, readFrame]

theorem writeToLocal_run {s : Split} (hopen : s.conn.state ≠ .closed)
    (hudp : s.conn.isUDP = false) (hwriting : s.writer = .writing) (flushQueued : Bool) :
    ∃ as, run step s as =
      some { s with conn := writeToLocal s.conn true true flushQueued, writer := .idle } := by
  by_cases hresume : s.conn.paused = true ∧ s.conn.level ≤ s.conn.flow.lowWaterMark + 1
  · refine ⟨finishWrite true flushQueued, ?_⟩
    simp [run_cons, finishWrite, step, hopen, readerStep, writerStep, hwriting, hresume,
      writeToLocal, hudp, lowerLevel, enqueueControl]
  · refine ⟨finishWrite false flushQueued, ?_⟩
    simp [run_cons, finishWrite, step, hopen, readerStep, writerStep, hwriting, hresume,
      writeToLocal, hudp, lowerLevel]

theorem flushAndRearm_frame (c : Conn) (queued : Bool) :
    (flushAndRearm c queued).writing = c.writing ∧ (flushAndRearm c queued).isUDP = c.isUDP := by
  unfold flushAndRearm flushForwardCredits
  dsimp only
  split_ifs <;> exact ⟨rfl, rfl⟩

theorem handleDataMessage_frame (c : Conn) (queued : Bool) :
    (handleDataMessage c queued).writing = c.writing ∧
      (handleDataMessage c queued).isUDP = c.isUDP := by
  obtain ⟨l, p, more, -, he⟩ := raiseLevel_sameCredits c queued
  unfold handleDataMessage
  dsimp only
  rw [he]
  split_ifs <;> exact ⟨rfl, rfl⟩

theorem writeToLocal_frame (c : Conn) (ok resumeQueued flushQueued : Bool) :
    (writeToLocal c ok resumeQueued flushQueued).writing = false ∧
      (writeToLocal c ok resumeQueued flushQueued).isUDP = c.isUDP := by
  obtain ⟨l, p, more, -, he⟩ := lowerLevel_sameCredits { c with writing := false } resumeQueued
  unfold writeToLocal
  dsimp only
  rw [he]
  split_ifs
  · unfold ForwardCredits.consume
    dsimp only
    split_ifs
    · exact flushAndRearm_frame _ flushQueued
    · exact ⟨rfl, rfl⟩
  · exact ⟨rfl, rfl⟩
  · exact ⟨rfl, rfl⟩

/-- Every step of the coarse model is a run of the steps here. -/
theorem coarse_step {a : ForwardCredits.Action} (hudp : c.isUDP = false) (ha : Enqueued a)
    (hstep : ForwardCredits.step c a = some d) :
    d.isUDP = false ∧ ∃ as, run step (.ofConn c) as = some (.ofConn d) := by
  unfold ForwardCredits.step at hstep
  split_ifs at hstep with hopen
  cases a with
  | sendData =>
    have hframe : d.writing = c.writing ∧ d.isUDP = c.isUDP := by
      rw [openStep, ForwardCredits.sendData] at hstep
      split at hstep
      · cases hstep
        exact ⟨rfl, rfl⟩
      · obtain ⟨sem, -, rfl⟩ := Option.map_eq_some_iff.mp hstep
        exact ⟨rfl, rfl⟩
    refine ⟨hframe.2.trans hudp, [.sendData], ?_⟩
    rw [openStep] at hstep
    simp [run_cons, step, Split.ofConn, hopen, readerStep, writerStep, hubStep, hstep, hframe.1]
  | deliverData pauseQueued =>
    obtain rfl : pauseQueued = true := ha
    simp only [openStep, Option.ite_none_right_eq_some, Option.some.injEq] at hstep
    obtain ⟨hpos, rfl⟩ := hstep
    obtain ⟨as, has⟩ := handleDataMessage_run (s := .ofConn c) hopen hudp rfl hpos
    refine ⟨(handleDataMessage_frame _ _).2.trans hudp, as, has.trans ?_⟩
    rw [Split.ofConn, Split.ofConn, (handleDataMessage_frame _ _).1]
  | activate =>
    simp only [openStep, Option.ite_none_right_eq_some, Option.some.injEq] at hstep
    obtain ⟨hpending, rfl⟩ := hstep
    refine ⟨hudp, [.activate], ?_⟩
    simp [run_cons, step, Split.ofConn, readerStep, writerStep, hubStep, hpending]
  | take =>
    simp only [openStep, Option.ite_none_right_eq_some, Option.some.injEq] at hstep
    obtain ⟨⟨hactive, hwriting, hpos⟩, rfl⟩ := hstep
    refine ⟨hudp, [.take], ?_⟩
    simp [run_cons, step, Split.ofConn, readerStep, writerStep, hactive, hwriting, hpos]
  | writeDone ok resumeQueued flushQueued =>
    obtain rfl : resumeQueued = true := ha
    simp only [openStep, Option.ite_none_right_eq_some, Option.some.injEq] at hstep
    obtain ⟨hwriting, rfl⟩ := hstep
    have hwriter : (Split.ofConn c).writer = .writing := if_pos hwriting
    cases ok with
    | true =>
      obtain ⟨as, has⟩ := writeToLocal_run (s := .ofConn c) hopen hudp hwriter flushQueued
      refine ⟨(writeToLocal_frame _ _ _ _).2.trans hudp, as, has.trans ?_⟩
      rw [Split.ofConn, Split.ofConn, (writeToLocal_frame _ _ _ _).1]
      rfl
    | false =>
      refine ⟨(writeToLocal_frame _ _ _ _).2.trans hudp, [.write false], ?_⟩
      simp [run_cons, step, Split.ofConn, hopen, readerStep, writerStep, hwriting, writeToLocal,
        hudp]
  | creditFlush flushQueued =>
    simp only [openStep, Option.ite_none_right_eq_some, Option.some.injEq] at hstep
    obtain ⟨⟨htimer, hwriting⟩, rfl⟩ := hstep
    refine ⟨(flushAndRearm_frame _ _).2.trans hudp, [.creditFlush flushQueued], ?_⟩
    simp [run_cons, step, Split.ofConn, hopen, readerStep, writerStep, hwriting, htimer,
      (flushAndRearm_frame _ _).1]
  | deliverControl =>
    rw [openStep] at hstep
    split at hstep
    · cases hstep
    · next msg rest hub =>
      cases hstep
      have hframe : (handleControl { c with toHub := rest } msg).writing = c.writing ∧
          (handleControl { c with toHub := rest } msg).isUDP = c.isUDP := by
        cases msg <;> exact ⟨rfl, rfl⟩
      refine ⟨hframe.2.trans hudp, [.deliverControl], ?_⟩
      simp [run_cons, step, Split.ofConn, hopen, readerStep, writerStep, hubStep, hub, hframe.1]

/-- Runs of the coarse model, in which every message of the watermarks finds room, are runs of
the model here. -/
theorem coarse_run {as : List ForwardCredits.Action} (hudp : c.isUDP = false)
    (has : ∀ a ∈ as, Enqueued a) (hrun : run ForwardCredits.step c as = some d) :
    ∃ bs, run step (.ofConn c) bs = some (.ofConn d) := by
  induction as generalizing c with
  | nil =>
    obtain rfl : c = d := by simpa using hrun
    exact ⟨[], rfl⟩
  | cons a as ih =>
    obtain ⟨e, he, hrest⟩ := run_cons_some.mp hrun
    obtain ⟨hudp', bs, hbs⟩ := coarse_step hudp (has a List.mem_cons_self) he
    obtain ⟨bs', hbs'⟩ := ih hudp' (fun a ha => has a (List.mem_cons_of_mem _ ha)) hrest
    exact ⟨bs ++ bs', by rw [run_append, hbs]; exact hbs'⟩

end Coarse

/-- The write channel is empty, neither goroutine is in the middle of a step, and the relay has
all messages. -/
structure Quiescent (s : Split) : Prop where
  isOpen : s.conn.state ≠ .closed
  writeCh : s.conn.writeCh = 0
  reader : s.reader = .idle
  writer : s.writer = .idle
  toHub : s.conn.toHub = []

/-- The message of a pause is enqueued while the flag is set, or before the message of the resume
that has cleared it. -/
def PauseInOrder (s : Split) : Action → Prop
  | .enqueuePause => s.conn.paused = true ∨ s.writer = .resuming
  | _ => True

instance (s : Split) (a : Action) : Decidable (PauseInOrder s a) := by
  cases a <;> unfold PauseInOrder <;> infer_instance

section Invariant
variable {s t : Split}

/-- Whether the relay pauses the connection once it has the messages. -/
def pausedAfter (paused : Bool) (msgs : List Control) : Bool :=
  msgs.foldl (fun _ msg => decide (msg = .pauseStream)) paused

def Reader.held : Reader → ℕ
  | .idle => 0
  | .raised _ | .pausing | .sendingPause | .enqueuing => 1

def Writer.held : Writer → ℕ
  | .writing | .written => 1
  | .idle | .lowered _ | .clearing | .resuming | .consuming => 0

def Writer.willCheck : Writer → Bool
  | .writing | .written | .lowered _ | .clearing => true
  | .idle | .resuming | .consuming => false

def Split.waiting (s : Split) : ℕ := s.conn.writeCh + s.reader.held

/-- A set flag will be seen, and the last message to the relay is a pause only while the flag
is set or a resume is about to follow. -/
structure Matched (s : Split) : Prop where
  low : 1 ≤ s.conn.flow.lowWaterMark
  level : s.conn.state ≠ .closed → s.conn.level = s.waiting + s.writer.held
  lowered : s.conn.state ≠ .closed → ∀ n, s.writer = .lowered n → n ≤ s.waiting
  seen : s.conn.state ≠ .closed → s.conn.paused = true →
    0 < s.waiting ∨ s.writer.willCheck = true
  ordered : pausedAfter s.conn.hubPaused s.conn.toHub = true →
    s.conn.paused = true ∨ s.writer = .resuming

theorem pausedAfter_append (paused : Bool) (msgs : List Control) (msg : Control) :
    pausedAfter paused (msgs ++ [msg]) = decide (msg = .pauseStream) := by
  rw [pausedAfter, List.foldl_append]
  rfl

/-- A step that only sends credits. -/
def SendsCredits (c d : Conn) : Prop :=
  ∃ (consumed : ℤ) (timer : Bool) (more : List Control), (∀ msg ∈ more, msg ≠ .pauseStream) ∧
    d = { c with
      forwardConsumed := consumed, creditFlushTimer := timer, toHub := c.toHub ++ more }

theorem flushAndRearm_sendsCredits (c : Conn) (queued : Bool) :
    SendsCredits c (flushAndRearm c queued) := by
  unfold flushAndRearm flushForwardCredits
  dsimp only
  split_ifs
  · exact ⟨0, _, [], by simp, by rw [List.append_nil]⟩
  · exact ⟨0, _, [.resumeStream c.forwardConsumed], by simp, rfl⟩
  · exact ⟨c.forwardConsumed, _, [], by simp, by rw [List.append_nil]⟩

theorem consume_sendsCredits (c : Conn) (queued : Bool) :
    SendsCredits c (ForwardCredits.consume c queued) := by
  unfold ForwardCredits.consume
  dsimp only
  split_ifs
  · obtain ⟨n, timer, more, hmore, heq⟩ := flushAndRearm_sendsCredits
      { c with forwardConsumed := int32 (c.forwardConsumed + 1) } queued
    exact ⟨n, timer, more, hmore, heq⟩
  · exact ⟨int32 (c.forwardConsumed + 1), c.creditFlushTimer, [], by simp, by
      rw [List.append_nil]⟩

theorem pausedAfter_of_credits {paused : Bool} {msgs more : List Control}
    (hmore : ∀ msg ∈ more, msg ≠ .pauseStream)
    (h : pausedAfter paused (msgs ++ more) = true) : pausedAfter paused msgs = true := by
  rcases List.eq_nil_or_concat more with rfl | ⟨init, msg, rfl⟩
  · simpa using h
  · rw [List.concat_eq_append, ← List.append_assoc, pausedAfter_append, decide_eq_true_eq] at h
    exact absurd h (hmore msg (by simp))

namespace Matched

theorem start_matched (f : FlowControl) : Matched (start f) where
  low := by
    simp only [start, ForwardCredits.start, FlowControl.withDefaults]
    split_ifs <;> omega
  level _ := rfl
  lowered _ _ h := nomatch h
  seen _ h := nomatch h
  ordered h := by simp [start, ForwardCredits.start, pausedAfter] at h

theorem keeps_waiting (h : Matched s) (hflow : t.conn.flow = s.conn.flow)
    (hstate : t.conn.state = s.conn.state) (hlevel : t.conn.level = s.conn.level)
    (hwaiting : t.waiting = s.waiting) (hpos : 0 < s.waiting) (hwriter : t.writer = s.writer)
    (hordered : pausedAfter t.conn.hubPaused t.conn.toHub = true →
      t.conn.paused = true ∨ t.writer = .resuming) : Matched t where
  low := by rw [hflow]; exact h.low
  level := by rw [hstate, hlevel, hwaiting, hwriter]; exact h.level
  lowered := by rw [hstate, hwaiting, hwriter]; exact h.lowered
  seen _ _ := Or.inl (by rwa [hwaiting])
  ordered := hordered

theorem closed (hlow : 1 ≤ t.conn.flow.lowWaterMark) (hclosed : t.conn.state = .closed)
    (hordered : pausedAfter t.conn.hubPaused t.conn.toHub = true →
      t.conn.paused = true ∨ t.writer = .resuming) : Matched t where
  low := hlow
  level hopen := absurd hclosed hopen
  lowered hopen := absurd hclosed hopen
  seen hopen := absurd hclosed hopen
  ordered := hordered

/-- The read pump counts a frame before it looks at the flag, so a flag that it sets is seen. -/
theorem readerStep {a : Action} (h : Matched s) (hopen : s.conn.state ≠ .closed)
    (hguard : PauseInOrder s a) (hstep : PauseResume.readerStep s a = some t) : Matched t := by
  cases a with
  | raiseLevel =>
    have hlevel := h.level hopen
    simp only [PauseResume.readerStep, Option.ite_none_right_eq_some, Option.some.injEq] at hstep
    obtain ⟨⟨hidle, -⟩, rfl⟩ := hstep
    simp only [Split.waiting, hidle, Reader.held] at hlevel
    refine ⟨h.low, fun _ => ?_, fun _ n hn => ?_, fun _ _ => Or.inl (Nat.succ_pos _), h.ordered⟩
    · simp only [Split.waiting, Reader.held]
      push_cast
      omega
    · have hle := h.lowered hopen n hn
      simp only [Split.waiting, hidle, Reader.held] at hle ⊢
      push_cast
      omega
  | checkHigh =>
    rw [PauseResume.readerStep] at hstep
    split at hstep
    · next hraised =>
      have hwaiting : s.waiting = s.conn.writeCh + 1 := by rw [Split.waiting, hraised]; rfl
      split_ifs at hstep <;> cases hstep <;>
        exact h.keeps_waiting rfl rfl rfl hwaiting.symm (by omega) rfl h.ordered
    · cases hstep
  | setPaused =>
    simp only [PauseResume.readerStep, Option.ite_none_right_eq_some, Option.some.injEq] at hstep
    obtain ⟨hpausing, rfl⟩ := hstep
    have hwaiting : s.waiting = s.conn.writeCh + 1 := by rw [Split.waiting, hpausing]; rfl
    exact h.keeps_waiting rfl rfl rfl hwaiting.symm (by omega) rfl fun _ => Or.inl rfl
  | enqueuePause =>
    simp only [PauseResume.readerStep, Option.ite_none_right_eq_some, Option.some.injEq] at hstep
    obtain ⟨hsending, rfl⟩ := hstep
    have hwaiting : s.waiting = s.conn.writeCh + 1 := by rw [Split.waiting, hsending]; rfl
    exact h.keeps_waiting rfl rfl rfl hwaiting.symm (by omega) rfl fun _ => hguard
  | enqueueData =>
    simp only [PauseResume.readerStep, Option.ite_none_right_eq_some] at hstep
    obtain ⟨henqueuing, hstep⟩ := hstep
    have hwaiting : s.waiting = s.conn.writeCh + 1 := by rw [Split.waiting, henqueuing]; rfl
    split_ifs at hstep with hroom <;> cases hstep
    · exact h.keeps_waiting rfl rfl rfl hwaiting.symm (by omega) rfl h.ordered
    · exact closed h.low rfl h.ordered
  | _ => cases hstep

/-- The write goroutine looks at the flag after every frame, and leaves it set only while more
than one frame waits. -/
theorem writerStep {a : Action} (h : Matched s) (hopen : s.conn.state ≠ .closed)
    (hstep : PauseResume.writerStep s a = some t) : Matched t := by
  have hlevel := h.level hopen
  cases a with
  | take =>
    simp only [PauseResume.writerStep, Option.ite_none_right_eq_some, Option.some.injEq] at hstep
    obtain ⟨⟨hidle, -, hpos⟩, rfl⟩ := hstep
    simp only [Split.waiting, hidle, Writer.held] at hlevel
    refine ⟨h.low, fun _ => ?_, (fun _ _ hn => by cases hn), fun _ _ => Or.inr rfl,
      fun hpaused => ?_⟩
    · simp only [Split.waiting, Writer.held]
      push_cast
      omega
    · exact Or.inl ((h.ordered hpaused).resolve_right (by simp [hidle]))
  | write ok =>
    simp only [PauseResume.writerStep, Option.ite_none_right_eq_some] at hstep
    obtain ⟨hwriting, hstep⟩ := hstep
    have hordered (hpaused : pausedAfter s.conn.hubPaused s.conn.toHub = true) :
        s.conn.paused = true := (h.ordered hpaused).resolve_right (by simp [hwriting])
    split_ifs at hstep <;> cases hstep
    · rw [hwriting] at hlevel
      exact ⟨h.low, fun _ => hlevel, (fun _ _ hn => by cases hn), fun _ _ => Or.inr rfl,
        fun hpaused => Or.inl (hordered hpaused)⟩
    · exact closed h.low rfl fun hpaused => Or.inl (hordered hpaused)
  | lowerLevel =>
    simp only [PauseResume.writerStep, Option.ite_none_right_eq_some, Option.some.injEq] at hstep
    obtain ⟨hwritten, rfl⟩ := hstep
    simp only [hwritten, Writer.held, Nat.cast_one] at hlevel
    refine ⟨h.low, fun _ => ?_, fun _ n hn => ?_, fun _ _ => Or.inr rfl, fun hpaused => ?_⟩
    · simp only [Split.waiting, Writer.held] at hlevel ⊢
      omega
    · obtain rfl := Writer.lowered.inj hn
      simp only [Split.waiting] at hlevel ⊢
      omega
    · exact Or.inl ((h.ordered hpaused).resolve_right (by simp [hwritten]))
  | checkLow =>
    rw [PauseResume.writerStep] at hstep
    split at hstep
    · next n hlowered =>
      have hle := h.lowered hopen n hlowered
      have hlow := h.low
      have hordered (hpaused : pausedAfter s.conn.hubPaused s.conn.toHub = true) :
          s.conn.paused = true := (h.ordered hpaused).resolve_right (by simp [hlowered])
      rw [hlowered] at hlevel
      split_ifs at hstep with hcheck <;> cases hstep
      · exact ⟨h.low, fun _ => hlevel, (fun _ _ hn => by cases hn), fun _ _ => Or.inr rfl,
          fun hpaused => Or.inl (hordered hpaused)⟩
      · refine ⟨h.low, fun _ => hlevel, (fun _ _ hn => by cases hn), fun _ hflag => ?_,
          fun hpaused => Or.inl (hordered hpaused)⟩
        have hhigh : s.conn.flow.lowWaterMark < n := not_le.mp fun hn => hcheck ⟨hflag, hn⟩
        refine Or.inl ?_
        simp only [Split.waiting] at hle ⊢
        omega
    · cases hstep
  | clearPaused =>
    simp only [PauseResume.writerStep, Option.ite_none_right_eq_some, Option.some.injEq] at hstep
    obtain ⟨hclearing, rfl⟩ := hstep
    rw [hclearing] at hlevel
    exact ⟨h.low, fun _ => hlevel, (fun _ _ hn => by cases hn), (fun _ hflag => by cases hflag),
      fun _ => Or.inr rfl⟩
  | enqueueResume =>
    simp only [PauseResume.writerStep, Option.ite_none_right_eq_some, Option.some.injEq] at hstep
    obtain ⟨hresuming, rfl⟩ := hstep
    rw [hresuming] at hlevel
    refine ⟨h.low, fun _ => hlevel, (fun _ _ hn => by cases hn), fun _ hflag => ?_,
      fun hpaused => ?_⟩
    · exact Or.inl ((h.seen hopen hflag).resolve_right (by simp [hresuming, Writer.willCheck]))
    · simp [enqueueControl, pausedAfter_append] at hpaused
  | consume flushQueued =>
    simp only [PauseResume.writerStep, Option.ite_none_right_eq_some, Option.some.injEq] at hstep
    obtain ⟨hconsuming, rfl⟩ := hstep
    obtain ⟨n, timer, more, hmore, heq⟩ :=
      consume_sendsCredits { s.conn with writing := false } flushQueued
    rw [hconsuming] at hlevel
    rw [heq]
    refine ⟨h.low, fun _ => hlevel, (fun _ _ hn => by cases hn), fun _ hflag => ?_,
      fun hpaused => ?_⟩
    · exact Or.inl ((h.seen hopen hflag).resolve_right (by simp [hconsuming, Writer.willCheck]))
    · have hbefore := h.ordered (pausedAfter_of_credits hmore hpaused)
      exact Or.inl (hbefore.resolve_right (by simp [hconsuming]))
  | creditFlush flushQueued =>
    simp only [PauseResume.writerStep, Option.ite_none_right_eq_some, Option.some.injEq] at hstep
    obtain ⟨-, rfl⟩ := hstep
    obtain ⟨n, timer, more, hmore, heq⟩ := flushAndRearm_sendsCredits s.conn flushQueued
    rw [heq]
    exact ⟨h.low, h.level, h.lowered, h.seen,
      fun hpaused => h.ordered (pausedAfter_of_credits hmore hpaused)⟩
  | _ => cases hstep

theorem hubStep {a : Action} (h : Matched s) (hopen : s.conn.state ≠ .closed)
    (hstep : PauseResume.hubStep s a = some t) : Matched t := by
  cases a with
  | sendData =>
    obtain ⟨conn, hconn, rfl⟩ := Option.map_eq_some_iff.mp hstep
    rw [ForwardCredits.sendData] at hconn
    split at hconn
    · cases hconn
      exact ⟨h.low, h.level, h.lowered, h.seen, h.ordered⟩
    · obtain ⟨sem, -, rfl⟩ := Option.map_eq_some_iff.mp hconn
      exact ⟨h.low, h.level, h.lowered, h.seen, h.ordered⟩
  | deliverControl =>
    rw [PauseResume.hubStep] at hstep
    split at hstep
    · cases hstep
    · next msg rest hub =>
      cases hstep
      have hordered := h.ordered
      rw [hub, pausedAfter, List.foldl_cons] at hordered
      cases msg <;> exact ⟨h.low, h.level, h.lowered, h.seen, hordered⟩
  | activate =>
    simp only [PauseResume.hubStep, Option.ite_none_right_eq_some, Option.some.injEq] at hstep
    obtain ⟨-, rfl⟩ := hstep
    exact ⟨h.low, fun _ => h.level hopen, fun _ => h.lowered hopen, fun _ => h.seen hopen,
      h.ordered⟩
  | _ => cases hstep

theorem step {a : Action} (h : Matched s) (hguard : PauseInOrder s a)
    (hstep : PauseResume.step s a = some t) : Matched t := by
  unfold PauseResume.step at hstep
  split_ifs at hstep with hopen
  simp only [Option.or_eq_some_iff] at hstep
  rcases hstep with hreader | ⟨-, hwriter | ⟨-, hhub⟩⟩
  · exact h.readerStep hopen hguard hreader
  · exact h.writerStep hopen hwriter
  · exact h.hubStep hopen hhub

theorem not_paused (h : Matched s) (hq : Quiescent s) : s.conn.hubPaused = false := by
  have hwaiting : s.waiting = 0 := by
    rw [Split.waiting, hq.writeCh, hq.reader]
    rfl
  have hflag : s.conn.paused ≠ true := by
    intro hpaused
    rcases h.seen hq.isOpen hpaused with hpos | hcheck
    · omega
    · rw [hq.writer] at hcheck
      cases hcheck
  have hordered := h.ordered
  rw [hq.toHub] at hordered
  refine Bool.eq_false_iff.mpr fun hpaused => ?_
  rcases hordered hpaused with hset | hresuming
  · exact hflag hset
  · rw [hq.writer] at hresuming
    cases hresuming

end Matched

end Invariant

/-- If every pause is enqueued while the flag is set, or before the resume that has cleared it,
the relay is not paused when the connection comes to rest. -/
theorem resumed_at_rest {f : FlowControl} {as : List Action} {s : Split}
    (horder : Along step PauseInOrder (start f) as) (hrun : run step (start f) as = some s)
    (hq : Quiescent s) : s.conn.hubPaused = false := by
  have h : Matched s :=
    invariant_along (fun _ _ _ hI hG hs => hI.step hG hs) (Matched.start_matched f) horder hrun
  exact h.not_paused hq

/-- With the default watermarks one frame is written, and 48 more arrive. The last of them raises
the level to the high mark, and its pause is enqueued at once or only after the write goroutine
has written the other 47. -/
def highMark (atOnce : Bool) : List Action :=
  let pause := [Action.enqueuePause, .enqueueData]
  let drain := (List.replicate 31 (writeFrame false)).flatten ++ writeFrame true ++
    (List.replicate 15 (writeFrame false)).flatten
  [Action.activate, .deliverControl] ++ List.replicate 49 Action.sendData ++ readFrame ++
    writeFrame false ++ (List.replicate 47 readFrame).flatten ++
    [Action.raiseLevel, .checkHigh, .setPaused] ++
    (if atOnce then pause ++ drain else drain ++ pause) ++ writeFrame false ++
    List.replicate 8 Action.deliverControl

instance (s : Split) : Decidable (Quiescent s) :=
  decidable_of_iff (s.conn.state ≠ .closed ∧ s.conn.writeCh = 0 ∧ s.reader = .idle ∧
      s.writer = .idle ∧ s.conn.toHub = [])
    ⟨fun ⟨h₁, h₂, h₃, h₄, h₅⟩ => ⟨h₁, h₂, h₃, h₄, h₅⟩,
      fun ⟨h₁, h₂, h₃, h₄, h₅⟩ => ⟨h₁, h₂, h₃, h₄, h₅⟩⟩

theorem pause_at_once_resumed :
    ∃ s, run step (start ⟨0, 0, 0⟩) (highMark true) = some s ∧ Quiescent s ∧
      s.conn.hubPaused = false := by
  have hrun : ∃ s, run step (start ⟨0, 0, 0⟩) (highMark true) = some s ∧ Quiescent s :=
    exists_run_of_any (by decide +kernel)
  obtain ⟨s, hs, hq⟩ := hrun
  exact ⟨s, hs, hq, resumed_at_rest (by decide +kernel) hs hq⟩

/-- The write goroutine has seen the flag, cleared it and sent its resume before the pause is
enqueued: the relay stays paused, and nothing is left that would resume it. -/
theorem late_pause_stays :
    FlowControl.Valid ⟨0, 0, 0⟩ ∧
      ∃ s, run step (start ⟨0, 0, 0⟩) (highMark false) = some s ∧ Quiescent s ∧
        s.conn.paused = false ∧ s.conn.hubPaused = true :=
  ⟨by decide, exists_run_of_any (by decide +kernel)⟩

end NexusProxy.Flow.PauseResume
