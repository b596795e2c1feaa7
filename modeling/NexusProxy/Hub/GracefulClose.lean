import NexusProxy.Flow.ReverseCredits
import NexusProxy.Proxy.Sniff

/-! The end of a client's `bufferedConn`: the `drain` goroutine with its gate and its flush,
and the goroutine that closes the connection, by `GracefulCloseConn` after `EventDisconnect`
or by `RemoveClient` after a refused frame. Replenishment moves no data and is left out. -/
namespace NexusProxy.Hub.GracefulClose
open Flow.ReverseCredits Proxy Transition

/-- Where `drain` stands. `gate` holds a frame that waits for bandwidth, `lastWriting` writes
it although `quit` came first, `failed` has signalled `quit` after a failed write. -/
inductive Drain where
  | idle
  | gate (data : Bytes)
  | writing (data : Bytes)
  | lastWriting (data : Bytes)
  | flushing
  | flushWriting (data : Bytes)
  | failed
  | exited
  deriving DecidableEq

namespace Drain

/-- The frame that `drain` has received and not yet written. -/
def held : Drain → List Bytes
  | gate data | writing data | lastWriting data | flushWriting data => [data]
  | idle | flushing | failed | exited => []

/-- The points that `drain` reaches only after it has seen `quit`. -/
def Stopping : Drain → Prop
  | idle | gate _ | writing _ => False
  | lastWriting _ | flushing | flushWriting _ | failed | exited => True

end Drain

/-- Where the closing goroutine stands. `stopWrites` and `wait` are the two halves of
`StopWrites`, called for the half-close (`full = false`) or by `Close`. -/
inductive Closer where
  | absent
  | stopWrites (full : Bool)
  | wait (full : Bool)
  | closeWrite
  | grace
  | closeConn
  | join
  | finished
  deriving DecidableEq

/-- A client's connection. `tcp` tells whether unwrapping it ends at a `*net.TCPConn`, and
`shut` whether its write side is shut down. `accepted`, `written` and `timedOut` are history:
the frames taken by `Write`, what reached the connection, and whether a wait of `StopWrites`
before the shutdown ended by its timeout. -/
structure Conn where
  tcp : Bool
  writeCh : List Bytes
  quit : Bool
  drain : Drain
  closer : Closer
  shut : Bool
  accepted : List Bytes
  written : List Bytes
  timedOut : Bool
  deriving DecidableEq

/-- What `drain` does. `write` is the end of a pending write: the whole frame (`none`), or an
error after some of its bytes. -/
inductive DrainStep where
  | receive
  | pass
  | seeQuit
  | write (result : Option ℕ)
  | exit
  | closeFailed
  deriving DecidableEq

/-- What the closing goroutine does. The wait of `StopWrites` ends by `seeDone` or `timeout`. -/
inductive CloserStep where
  | signalQuit
  | seeDone
  | timeout
  | closeWrite
  | graceEnd
  | closeConn
  | join
  deriving DecidableEq

/-- `frame` and `disconnect` arrive from the backend. -/
inductive Action where
  | frame (data : Bytes)
  | disconnect
  | drain (step : DrainStep)
  | closer (step : CloserStep)
  deriving DecidableEq

namespace Conn

def new (tcp : Bool) : Conn where
  tcp := tcp
  writeCh := []
  quit := false
  drain := .idle
  closer := .absent
  shut := false
  accepted := []
  written := []
  timedOut := false

/-- `Write` on the read pump; an error makes the pump call `RemoveClient`, which closes. -/
def frame (c : Conn) (data : Bytes) : Conn :=
  if c.quit = false ∧ c.writeCh.length < clientWriteBufferSize then
    { c with writeCh := c.writeCh ++ [data], accepted := c.accepted ++ [data] }
  else { c with closer := .stopWrites true }

/-- Where `drain` goes after a write. Only a failure in the main loop closes the connection,
and only one in `flushRemaining` ends the flush. -/
def afterWrite (ok : Bool) : Drain → Drain
  | .writing _ => if ok then .idle else .failed
  | .lastWriting _ => .flushing
  | .flushWriting _ => if ok then .flushing else .exited
  | d => d

def pending : Drain → Option Bytes
  | .writing data | .lastWriting data | .flushWriting data => some data
  | .idle | .gate _ | .flushing | .failed | .exited => none

def write (c : Conn) (data : Bytes) : Option ℕ → Option Conn
  | none =>
      if c.shut then none
      else some { c with drain := afterWrite true c.drain, written := c.written ++ [data] }
  | some n =>
      some { c with
        drain := afterWrite false c.drain
        written := c.written ++ [data.take n]
        -- the main loop signals `quit` so that `Write` refuses further frames
        quit := c.quit || afterWrite false c.drain = .failed }

def drainStep (c : Conn) : DrainStep → Option Conn
  | .receive =>
      match c.drain, c.writeCh with
      | .idle, data :: rest => some { c with drain := .gate data, writeCh := rest }
      | .flushing, data :: rest => some { c with drain := .flushWriting data, writeCh := rest }
      | _, _ => none
  | .pass =>
      match c.drain with
      | .gate data => some { c with drain := .writing data }
      | _ => none
  | .seeQuit =>
      match c.drain with
      | .idle => if c.quit then some { c with drain := .flushing } else none
      | .gate data => if c.quit then some { c with drain := .lastWriting data } else none
      | _ => none
  | .write result => (pending c.drain).bind fun data => c.write data result
  | .exit =>
      if c.drain = .flushing ∧ c.writeCh = [] then some { c with drain := .exited } else none
  | .closeFailed =>
      if c.drain = .failed then some { c with drain := .exited, shut := true } else none

def closerStep (c : Conn) : CloserStep → Option Conn
  | .signalQuit =>
      match c.closer with
      | .stopWrites full => some { c with closer := .wait full, quit := true }
      | _ => none
  | .seeDone =>
      match c.closer with
      | .wait full =>
          if c.drain = .exited then
            some { c with closer := if full then .closeConn else .closeWrite }
          else none
      | _ => none
  | .timeout =>
      match c.closer with
      | .wait full =>
          some { c with
            closer := if full then .closeConn else .closeWrite
            timedOut := c.timedOut || !c.shut }
      | _ => none
  | .closeWrite =>
      if c.closer = .closeWrite then some { c with closer := .grace, shut := true } else none
  | .graceEnd => if c.closer = .grace then some { c with closer := .stopWrites true } else none
  | .closeConn =>
      if c.closer = .closeConn then some { c with closer := .join, shut := true } else none
  | .join =>
      if c.closer = .join ∧ c.drain = .exited then some { c with closer := .finished } else none

/-- Once the closing goroutine runs, the client is no longer registered and the read pump
discards what arrives for it. -/
def step (c : Conn) : Action → Option Conn
  | .frame data => if c.closer = .absent then some (c.frame data) else some c
  | .disconnect =>
      if c.closer = .absent then some { c with closer := .stopWrites !c.tcp } else some c
  | .drain step => c.drainStep step
  | .closer step => c.closerStep step

/-- No write fails other than because the hub has shut the write side down. -/
def Sound (c : Conn) : Action → Prop
  | .drain (.write result) => result.isSome = true → c.shut = true
  | _ => True

instance (c : Conn) : ∀ a, Decidable (c.Sound a)
  | .drain (.write _) => inferInstanceAs (Decidable (_ → _))
  | .drain .receive | .drain .pass | .drain .seeQuit | .drain .exit | .drain .closeFailed
  | .frame _ | .disconnect | .closer _ => inferInstanceAs (Decidable True)

/-- What holds in sound runs. While the write side is open no frame is lost or reordered, and
`drain` exits with nothing left. The closing goroutine shuts the write side down after `drain`
has exited, or after a timeout. -/
structure Flushing (c : Conn) : Prop where
  inOrder : c.shut = false → c.accepted = c.written ++ c.drain.held ++ c.writeCh
  emptied : c.drain = .exited → c.shut = false → c.writeCh = []
  stopping : c.drain.Stopping → c.quit = true
  failed : c.drain = .failed → c.shut = true
  waited : c.closer = .closeWrite ∨ c.closer = .closeConn → c.shut = false →
    c.timedOut = false → c.drain = .exited
  complete : c.shut = true → c.timedOut = false → c.drain = .exited ∧ c.written = c.accepted

theorem new_flushing (tcp : Bool) : (new tcp).Flushing where
  inOrder := by simp [new, Drain.held]
  emptied := by simp [new]
  stopping := by simp [new, Drain.Stopping]
  failed := by simp [new]
  waited := by simp [new]
  complete := by simp [new]

variable {c d : Conn}

theorem Flushing.written_of_exited (h : c.Flushing) (hexited : c.drain = .exited)
    (hopen : c.shut = false) : c.written = c.accepted := by
  simp [h.inOrder hopen, hexited, Drain.held, h.emptied hexited hopen]

theorem Flushing.frame (h : c.Flushing) (data : Bytes) :
    (c.frame data).Flushing := by
  unfold Conn.frame
  split
  · next hroom =>
    have hrunning : c.drain ≠ .exited := by
      intro hexited
      have hquit := h.stopping (by rw [hexited]; trivial)
      rw [hroom.1] at hquit
      cases hquit
    constructor
    · intro hopen
      simp [h.inOrder hopen]
    · intro hexited
      exact absurd hexited hrunning
    · exact h.stopping
    · exact h.failed
    · exact h.waited
    · intro hshut htimely
      exact absurd (h.complete hshut htimely).1 hrunning
  · constructor
    · exact h.inOrder
    · exact h.emptied
    · exact h.stopping
    · exact h.failed
    · rintro (hcloser | hcloser)
      · cases hcloser
      · cases hcloser
    · exact h.complete

/-- What a step of a running `drain` has to show: while the write side is open it loses no
frame and fails no write. Once it is shut down, a timely closer has found `drain` exited. -/
theorem Flushing.of_drain (h : c.Flushing) {p : Drain} {writeCh written : List Bytes}
    {quit : Bool} (hrunning : c.drain ≠ .exited) (hstopping : p.Stopping → quit = true)
    (hopen : c.shut = false → c.accepted = written ++ p.held ++ writeCh ∧
      p ≠ .failed ∧ (p = .exited → writeCh = [])) :
    Flushing { c with drain := p, writeCh := writeCh, quit := quit, written := written } := by
  constructor
  · intro hd
    exact (hopen hd).1
  · intro hexited hd
    exact (hopen hd).2.2 hexited
  · exact hstopping
  · intro hfailed
    rw [← Bool.not_eq_false]
    intro hd
    exact (hopen hd).2.1 hfailed
  · intro hcl hc htimely
    exact absurd (h.waited hcl hc htimely) hrunning
  · intro hc htimely
    exact absurd (h.complete hc htimely).1 hrunning

theorem Flushing.receive (h : c.Flushing) (hstep : c.drainStep .receive = some d) :
    d.Flushing := by
  simp only [drainStep] at hstep
  split at hstep
  · next data rest hdrain hch =>
    cases hstep
    apply h.of_drain
    · simp [hdrain]
    · intro hstopping
      exact hstopping.elim
    · intro hopen
      simp [h.inOrder hopen, hdrain, hch, Drain.held]
  · next data rest hdrain hch =>
    cases hstep
    apply h.of_drain
    · simp [hdrain]
    · intro _
      exact h.stopping (by rw [hdrain]; trivial)
    · intro hopen
      simp [h.inOrder hopen, hdrain, hch, Drain.held]
  · cases hstep

theorem Flushing.of_held (h : c.Flushing) {p : Drain} (hrunning : c.drain ≠ .exited)
    (hheld : p.held = c.drain.held) (hstopping : p.Stopping → c.quit = true)
    (hfailed : p ≠ .failed) (hexited : p = .exited → c.writeCh = []) :
    Flushing { c with drain := p } := by
  apply h.of_drain hrunning hstopping
  intro hopen
  rw [hheld]
  exact ⟨h.inOrder hopen, hfailed, hexited⟩

theorem Flushing.pass (h : c.Flushing) (hstep : c.drainStep .pass = some d) : d.Flushing := by
  simp only [drainStep] at hstep
  split at hstep
  · next data hdrain =>
    cases hstep
    apply h.of_held
    · simp [hdrain]
    · rw [hdrain]
      rfl
    · intro hstopping
      exact hstopping.elim
    · simp
    · simp
  · cases hstep

theorem Flushing.seeQuit (h : c.Flushing) (hstep : c.drainStep .seeQuit = some d) :
    d.Flushing := by
  simp only [drainStep] at hstep
  split at hstep
  · next hdrain =>
    split at hstep
    · next hquit =>
      cases hstep
      apply h.of_held
      · simp [hdrain]
      · rw [hdrain]
        rfl
      · intro _
        exact hquit
      · simp
      · simp
    · cases hstep
  · next data hdrain =>
    split at hstep
    · next hquit =>
      cases hstep
      apply h.of_held
      · simp [hdrain]
      · rw [hdrain]
        rfl
      · intro _
        exact hquit
      · simp
      · simp
    · cases hstep
  · cases hstep

theorem Flushing.exit (h : c.Flushing) (hstep : c.drainStep .exit = some d) : d.Flushing := by
  simp only [drainStep] at hstep
  split at hstep
  · next hempty =>
    obtain ⟨hdrain, hch⟩ := hempty
    cases hstep
    apply h.of_held
    · simp [hdrain]
    · rw [hdrain]
      rfl
    · intro _
      exact h.stopping (by rw [hdrain]; trivial)
    · simp
    · intro _
      exact hch
  · cases hstep

theorem Flushing.writeSucceeds (h : c.Flushing) {data : Bytes}
    (hpending : pending c.drain = some data) (hstep : c.write data none = some d) :
    d.Flushing := by
  simp only [write] at hstep
  split at hstep
  · cases hstep
  · cases hstep
    have hheld : c.drain.held = [data] ∧ (afterWrite true c.drain).held = [] := by
      cases hdrain : c.drain <;> simp_all [pending, Drain.held, afterWrite]
    apply h.of_drain
    · intro hexited
      simp [hexited, pending] at hpending
    · intro hstopping
      apply h.stopping
      cases hdrain : c.drain <;> simp_all [afterWrite, Drain.Stopping]
    · intro hopen
      refine ⟨?_, ?_, ?_⟩
      · simp [h.inOrder hopen, hheld]
      · cases hdrain : c.drain <;> simp_all [afterWrite, pending]
      · cases hdrain : c.drain <;> simp_all [afterWrite, pending]

theorem Flushing.writeFails (h : c.Flushing) {data : Bytes} {n : ℕ}
    (hpending : pending c.drain = some data) (hshut : c.shut = true)
    (hstep : c.write data (some n) = some d) : d.Flushing := by
  simp only [write] at hstep
  cases hstep
  apply h.of_drain
  · intro hexited
    simp [hexited, pending] at hpending
  · intro hstopping
    have hquit := h.stopping
    cases hdrain : c.drain <;> simp_all [afterWrite, Drain.Stopping, pending]
  · intro hopen
    rw [hshut] at hopen
    cases hopen

theorem Flushing.closeFailed (h : c.Flushing) (hstep : c.drainStep .closeFailed = some d) :
    d.Flushing := by
  simp only [drainStep] at hstep
  split at hstep
  · next hdrain =>
    cases hstep
    have hshut := h.failed hdrain
    rw [← hshut]
    apply h.of_drain
    · simp [hdrain]
    · intro _
      exact h.stopping (by rw [hdrain]; trivial)
    · intro hopen
      rw [hshut] at hopen
      cases hopen
  · cases hstep

theorem Flushing.drainStep (h : c.Flushing) {step : DrainStep} (hsound : c.Sound (.drain step))
    (hstep : c.drainStep step = some d) : d.Flushing := by
  cases step with
  | receive => exact h.receive hstep
  | pass => exact h.pass hstep
  | seeQuit => exact h.seeQuit hstep
  | write result =>
    simp only [Conn.drainStep, Option.bind_eq_some_iff] at hstep
    obtain ⟨data, hpending, hwrite⟩ := hstep
    cases result with
    | none => exact h.writeSucceeds hpending hwrite
    | some n => exact h.writeFails hpending (hsound rfl) hwrite
  | exit => exact h.exit hstep
  | closeFailed => exact h.closeFailed hstep

theorem Flushing.of_closer (h : c.Flushing) {closer : Closer} {quit timedOut : Bool}
    (hquit : c.quit = true → quit = true) (htimedOut : timedOut = false → c.timedOut = false)
    (hwaited : closer = .closeWrite ∨ closer = .closeConn → c.shut = false →
      timedOut = false → c.drain = .exited) :
    Flushing { c with closer := closer, quit := quit, timedOut := timedOut } := by
  constructor
  · exact h.inOrder
  · exact h.emptied
  · intro hstopping
    exact hquit (h.stopping hstopping)
  · exact h.failed
  · exact hwaited
  · intro hshut htimely
    exact h.complete hshut (htimedOut htimely)

/-- The shutdown: after a wait that was not cut short, all frames are written. -/
theorem Flushing.shutdown (h : c.Flushing) {closer : Closer}
    (hcloser : c.closer = .closeWrite ∨ c.closer = .closeConn)
    (hnext : closer ≠ .closeWrite ∧ closer ≠ .closeConn) :
    Flushing { c with closer := closer, shut := true } := by
  constructor
  · intro hopen
    cases hopen
  · intro _ hopen
    cases hopen
  · exact h.stopping
  · intro _
    rfl
  · rintro (hcl | hcl)
    · exact absurd hcl hnext.1
    · exact absurd hcl hnext.2
  · intro _ htimely
    cases hshut : c.shut with
    | false =>
      have hexited := h.waited hcloser hshut htimely
      exact ⟨hexited, h.written_of_exited hexited hshut⟩
    | true => exact h.complete hshut htimely

theorem Flushing.closerStep (h : c.Flushing) {step : CloserStep}
    (hstep : c.closerStep step = some d) : d.Flushing := by
  cases step with
  | signalQuit =>
    simp only [Conn.closerStep] at hstep
    split at hstep
    · cases hstep
      apply h.of_closer
      · intro _
        rfl
      · exact id
      · simp
    · cases hstep
  | seeDone =>
    simp only [Conn.closerStep] at hstep
    split at hstep
    · split at hstep
      · next hexited =>
        cases hstep
        apply h.of_closer id id
        intro _ _ _
        exact hexited
      · cases hstep
    · cases hstep
  | timeout =>
    simp only [Conn.closerStep] at hstep
    split at hstep
    · cases hstep
      apply h.of_closer id
      · intro htimely
        exact (Bool.or_eq_false_iff.mp htimely).1
      · intro _ hopen htimely
        simp [hopen] at htimely
    · cases hstep
  | closeWrite =>
    simp only [Conn.closerStep] at hstep
    split at hstep
    · next hcloser =>
      cases hstep
      exact h.shutdown (Or.inl hcloser) (by decide)
    · cases hstep
  | graceEnd =>
    simp only [Conn.closerStep] at hstep
    split at hstep
    · cases hstep
      apply h.of_closer id id
      simp
    · cases hstep
  | closeConn =>
    simp only [Conn.closerStep] at hstep
    split at hstep
    · next hcloser =>
      cases hstep
      exact h.shutdown (Or.inr hcloser) (by decide)
    · cases hstep
  | join =>
    simp only [Conn.closerStep] at hstep
    split at hstep
    · cases hstep
      apply h.of_closer id id
      simp
    · cases hstep

theorem step_flushing {a : Action} (h : c.Flushing) (hsound : c.Sound a)
    (hstep : c.step a = some d) : d.Flushing := by
  cases a with
  | frame data =>
    simp only [step] at hstep
    split at hstep
    · cases hstep
      exact h.frame data
    · cases hstep
      exact h
  | disconnect =>
    simp only [step] at hstep
    split at hstep
    · cases hstep
      apply h.of_closer id id
      simp
    · cases hstep
      exact h
  | drain step => exact h.drainStep hsound hstep
  | closer step => exact h.closerStep hstep

theorem run_flushing {tcp : Bool} {actions : List Action}
    (hsound : Along step Sound (new tcp) actions)
    (hrun : run step (new tcp) actions = some c) : c.Flushing :=
  invariant_along (fun _ _ _ h hok hstep => step_flushing h hok hstep) (new_flushing tcp)
    hsound hrun

/-- While the write side is open, the connection has received a prefix of the accepted frames,
and all of them when it is shut down, unless a wait of `StopWrites` timed out before. -/
theorem frames_flushed {tcp : Bool} {actions : List Action}
    (hsound : Along step Sound (new tcp) actions)
    (hrun : run step (new tcp) actions = some c) :
    (c.shut = false → c.written <+: c.accepted) ∧
      (c.shut = true → c.timedOut = false → c.written = c.accepted) := by
  have h := run_flushing hsound hrun
  constructor
  · intro hopen
    rw [h.inOrder hopen, List.append_assoc]
    exact List.prefix_append _ _
  · intro hshut htimely
    exact (h.complete hshut htimely).2

/-- Two frames and a disconnect. The first frame waits at the gate when `quit` is signalled. -/
def flushTrace : List Action :=
  [.frame [72], .frame [105], .drain .receive, .disconnect, .closer .signalQuit, .drain .seeQuit,
    .drain (.write none), .drain .receive, .drain (.write none), .drain .exit, .closer .seeDone,
    .closer .closeWrite]

theorem frames_flushed_two :
    ∃ c, run step (new true) flushTrace = some c ∧ c.shut = true ∧
      c.accepted = [[72], [105]] ∧ c.written = c.accepted := by
  have hex : ∃ c, run step (new true) flushTrace = some c ∧
      (c.shut = true ∧ c.timedOut = false ∧ c.accepted = [[72], [105]]) :=
    exists_run_of_any (by decide +kernel)
  obtain ⟨c, hrun, hshut, htimely, haccepted⟩ := hex
  have hwritten := (frames_flushed (by decide +kernel) hrun).2 hshut htimely
  exact ⟨c, hrun, hshut, haccepted, hwritten⟩

/-- The wait of `StopWrites` times out while `drain` is in its write. -/
def cutOffTrace : List Action :=
  [.frame [72], .frame [105], .drain .receive, .drain .pass, .disconnect, .closer .signalQuit,
    .closer .timeout, .closer .closeWrite, .drain (.write (some 0)), .drain .closeFailed]

/-- The half-close cuts off both frames. -/
theorem frames_cut_off :
    Along step Sound (new true) cutOffTrace ∧
      ∃ c, run step (new true) cutOffTrace = some c ∧
        (c.shut = true ∧ c.accepted = [[72], [105]] ∧ c.written = [[]] ∧ c.drain = .exited) :=
  ⟨by decide +kernel, exists_run_of_any (by decide +kernel)⟩

end Conn

end NexusProxy.Hub.GracefulClose
