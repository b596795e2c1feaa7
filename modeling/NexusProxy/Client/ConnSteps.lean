import NexusProxy.Client.Connection

/-! What one action of a connection can do: an access of a ledger call, or a step
outside the ledger that moves at most one parked goroutine to an entry point. -/
namespace NexusProxy.Client
open FixedWidth Threads Transition

variable {F : Type*}

/-- `drainConnectionQueue` has not reached `DrainYielded`. -/
def Drain.BeforeYield : Drain F → Prop
  | .getQueue _ | .loadConn _ | .loop _ | .acquiring _ | .pull _ | .write _ _ | .releasing => True
  | _ => False

/-- `drainConnectionQueue` is waiting for a ledger call to return. -/
def Drain.Calling : Drain F → Prop
  | .acquiring _ | .releasing | .yielding => True
  | _ => False

def Op.Parked : Op → Prop
  | .idle | .ret _ => True
  | _ => False

/-- Where each goroutine enters the ledger. -/
def Op.Entry : Tid → Op → Prop
  | _, .idle => True
  | .producer, .enqUnlimited => True
  | .writePump, .acqUnlimited | .writePump, .relUnlimited | .writePump, .yieldClear => True
  | .handler _, .repUnlimited _ => True
  | .handler _, .initLock n => 0 < n
  | .timer _, .fireLock _ => True
  | .teardown, .kickLock _ => True
  | _, _ => False

/-- Points that no invariant of the ledger restricts. -/
structure Op.Quiet (o : Op) : Prop where
  critical : ¬o.Critical
  closing : ¬o.Closing
  notifying : ¬o.Notifying
  initMax : o ≠ .initMax
  fireAdd : o ≠ .fireAdd
  fireReset : o ≠ .fireReset
  fits : o.Fits maxReverseCreditCapacity

theorem Op.Entry.quiet {u : Tid} {o : Op} (h : Op.Entry u o) : o.Quiet := by
  cases u <;> cases o <;> first
    | exact (h : False).elim
    | constructor <;> simp_all [Op.Entry, Op.Critical, Op.Closing, Op.Notifying, Op.Fits]

/-- A kind of point that the entries of `NotifyEnqueue` and `DrainYielded` belong to. -/
structure Op.Follows (W : Op → Prop) : Prop where
  enqUnlimited : W .enqUnlimited
  yieldClear : W .yieldClear
  parked : ∀ o : Op, o.Parked → ¬W o

theorem Op.watchful_follows (unlimited : Bool) : Op.Follows (Op.Watchful unlimited) := by
  refine ⟨trivial, trivial, fun o ho hw => ?_⟩
  cases o <;> simp_all [Op.Parked, Op.Watchful]

theorem Op.arming_follows : Op.Follows Op.Arming := by
  refine ⟨trivial, trivial, fun o ho hw => ?_⟩
  cases o <;> simp_all [Op.Parked, Op.Arming]

def Action.thread : Action F → Tid
  | .access t => t
  | .enqueueData _ | .push | .loadConn | .enqueued => .producer
  | .dataReady _ | .drain => .writePump
  | .resumeStream i _ | .outboundResult i _ | .handled i => .handler i
  | .fire gen | .fired gen => .timer gen
  | .teardown => .teardown

/-- What the teardown has done before it makes its next step: closed `quit`, deleted the
queue, deleted the connection, queued the disconnect. -/
def Teardown.effects : Teardown → Bool × Bool × Bool × Bool
  | .live | .safeClose => (false, false, false, false)
  | .kickstart | .kickstarting | .waitDrained | .cleanupQueue => (true, false, false, false)
  | .discard | .deleteConn => (true, true, false, false)
  | .sendDisconnect => (true, true, true, false)
  | .done => (true, true, true, true)

namespace Conn

/-- The steps of `drainConnectionQueue`, each with the control it starts from. -/
inductive DrainEffect (s : Conn F) : Conn F → Prop where
  | getQueue {left : ℕ} (hd : s.drain = .getQueue left) :
      DrainEffect s { s with drain := if s.queueDeleted then .noQueue else .loadConn left }
  | noQueue (hd : s.drain = .noQueue) :
      DrainEffect s { s with drain := if s.connDeleted then .idle else .noQueueClosing }
  | noQueueClosing (hd : s.drain = .noQueueClosing) :
      DrainEffect s { s with drain := if s.quit then .closeOnDrained else .idle }
  | loadConn {left : ℕ} (hd : s.drain = .loadConn left) :
      DrainEffect s { s with drain := if s.connDeleted then .idle else .loop left }
  | loopDone (hd : s.drain = .loop 0) : DrainEffect s s.yield
  | acquire {left : ℕ} (hd : s.drain = .loop (left + 1)) :
      DrainEffect s ({ s with drain := .acquiring left }.setOp .writePump .tryAcquire)
  | acquired {left : ℕ} (hd : s.drain = .acquiring left) (hop : s.op .writePump = .ret true) :
      DrainEffect s ({ s with drain := .pull left }.setOp .writePump .idle)
  | refused {left : ℕ} (hd : s.drain = .acquiring left) (hop : s.op .writePump = .ret false) :
      DrainEffect s s.yield
  | pull {left : ℕ} {frame : F} {rest : List F} (hd : s.drain = .pull left)
      (hq : s.queue = frame :: rest) :
      DrainEffect s { s with queue := rest, drain := .write left frame }
  | empty {left : ℕ} (hd : s.drain = .pull left) (hq : s.queue = []) :
      DrainEffect s ({ s with drain := .releasing }.setOp .writePump .release)
  | write {left : ℕ} {frame : F} (hd : s.drain = .write left frame) :
      DrainEffect s { s with sent := s.sent ++ [frame], drain := .loop left }
  | released {ok : Bool} (hd : s.drain = .releasing) (hop : s.op .writePump = .ret ok) :
      DrainEffect s s.yield
  | yielded {ok : Bool} (hd : s.drain = .yielding) (hop : s.op .writePump = .ret ok) :
      DrainEffect s ({ s with drain := .isClosing }.setOp .writePump .idle)
  | isClosing (hd : s.drain = .isClosing) :
      DrainEffect s { s with drain := if s.quit then .lenQueue else .idle }
  | lenQueue (hd : s.drain = .lenQueue) :
      DrainEffect s { s with drain := if s.queue.isEmpty then .latePull else .idle }
  | latePull {frame : F} {rest : List F} (hd : s.drain = .latePull)
      (hq : s.queue = frame :: rest) :
      DrainEffect s { s with queue := rest, drain := .lateWrite frame }
  | lateEmpty (hd : s.drain = .latePull) (hq : s.queue = []) :
      DrainEffect s { s with drain := .closeOnDrained }
  | lateWrite {frame : F} (hd : s.drain = .lateWrite frame) :
      DrainEffect s { s with sent := s.sent ++ [frame], drain := .lateLen }
  | lateLen (hd : s.drain = .lateLen) :
      DrainEffect s { s with drain := if s.queue.isEmpty then .closeOnDrained else .idle }
  | closeOnDrained (hd : s.drain = .closeOnDrained) :
      DrainEffect s { s with drained := true, drain := .idle }

/-- The steps of the teardown, each with the control it starts from. -/
inductive TeardownEffect (s : Conn F) : Conn F → Prop where
  | swap (hd : s.teardown = .live) :
      TeardownEffect s { s with teardown := .safeClose, atCas := s.pushed.length }
  | safeClose (hd : s.teardown = .safeClose) :
      TeardownEffect s { s with quit := true, teardown := .kickstart }
  | kickstart (hd : s.teardown = .kickstart) :
      TeardownEffect s ({ s with teardown := .kickstarting }.setOp .teardown
        (.kickstartAndClose creditReplenishBatch))
  | kickstarted {ok : Bool} (hd : s.teardown = .kickstarting) (hop : s.op .teardown = .ret ok) :
      TeardownEffect s ({ s with teardown := .waitDrained }.setOp .teardown .idle)
  | waitDrained (hd : s.teardown = .waitDrained) (hdrained : s.drained = true) :
      TeardownEffect s { s with teardown := .cleanupQueue }
  | cleanupQueue (hd : s.teardown = .cleanupQueue) :
      TeardownEffect s { s with queueDeleted := true, teardown := .discard }
  | discard {frame : F} {rest : List F} (hd : s.teardown = .discard)
      (hq : s.queue = frame :: rest) : TeardownEffect s { s with queue := rest }
  | discarded (hd : s.teardown = .discard) (hq : s.queue = []) :
      TeardownEffect s { s with teardown := .deleteConn }
  | deleteConn (hd : s.teardown = .deleteConn) :
      TeardownEffect s { s with connDeleted := true, teardown := .sendDisconnect }
  | sendDisconnect (hd : s.teardown = .sendDisconnect) :
      TeardownEffect s { s with disconnectQueued := true, teardown := .done }

section Effects
variable {s t : Conn F}

theorem access_eq_some {u : Tid} (h : s.access u = some t) :
    ∃ l o, (s.op u).step (!s.queue.isEmpty) s.ledger = some (l, o) ∧
      t = { s with ledger := l, op := Function.update s.op u o } := by
  obtain ⟨⟨l, o⟩, hstep, rfl⟩ := Option.map_eq_some_iff.mp h
  exact ⟨l, o, hstep, rfl⟩

theorem push_eq_some (h : s.push = some t) :
    ∃ frame, s.producer = .holding frame ∧
      t = { s with
        queue := s.queue ++ [frame], pushed := s.pushed ++ [frame], producer := .pushed } := by
  unfold push at h
  split at h
  · next frame hp =>
    split_ifs at h
    cases h
    exact ⟨frame, hp, rfl⟩
  · cases h

theorem dataReady_eq_some {m : ℕ} (h : s.dataReady m = some t) :
    s.drain = .idle ∧ t = { s with
      ledger := { s.ledger with wakeups := s.ledger.wakeups - 1 }, drain := .getQueue m } := by
  unfold dataReady at h
  split at h
  · next hd =>
    split_ifs at h
    cases h
    exact ⟨hd, rfl⟩
  · cases h

theorem returned_eq_some {u : Tid} (h : s.returned u = some t) :
    ∃ ok, s.op u = .ret ok ∧ t = s.setOp u .idle := by
  unfold returned at h
  split at h
  · next ok hop =>
    cases h
    exact ⟨ok, hop, rfl⟩
  · cases h

theorem drainStep_effect (h : s.drainStep = some t) : DrainEffect s t := by
  unfold drainStep at h
  split at h
  · cases h
  · next left hd =>
    cases h
    exact .getQueue hd
  · next hd =>
    cases h
    exact .noQueue hd
  · next hd =>
    cases h
    exact .noQueueClosing hd
  · next left hd =>
    cases h
    exact .loadConn hd
  · next hd =>
    cases h
    exact .loopDone hd
  · next left hd =>
    cases h
    exact .acquire hd
  · next left hd =>
    split at h
    · next hop =>
      cases h
      exact .acquired hd hop
    · next hop =>
      cases h
      exact .refused hd hop
    · cases h
  · next left hd =>
    split at h
    · next frame rest hq =>
      cases h
      exact .pull hd hq
    · next hq =>
      cases h
      exact .empty hd hq
  · next left frame hd =>
    cases h
    exact .write hd
  · next hd =>
    split at h
    · next ok hop =>
      cases h
      exact .released hd hop
    · cases h
  · next hd =>
    split at h
    · next ok hop =>
      cases h
      exact .yielded hd hop
    · cases h
  · next hd =>
    cases h
    exact .isClosing hd
  · next hd =>
    cases h
    exact .lenQueue hd
  · next hd =>
    split at h
    · next frame rest hq =>
      cases h
      exact .latePull hd hq
    · next hq =>
      cases h
      exact .lateEmpty hd hq
  · next frame hd =>
    cases h
    exact .lateWrite hd
  · next hd =>
    cases h
    exact .lateLen hd
  · next hd =>
    cases h
    exact .closeOnDrained hd

theorem teardownStep_effect (h : s.teardownStep = some t) : TeardownEffect s t := by
  unfold teardownStep at h
  split at h
  · next hd =>
    cases h
    exact .swap hd
  · next hd =>
    cases h
    exact .safeClose hd
  · next hd =>
    cases h
    exact .kickstart hd
  · next hd =>
    split at h
    · next ok hop =>
      cases h
      exact .kickstarted hd hop
    · cases h
  · next hd =>
    split_ifs at h with hdrained
    cases h
    exact .waitDrained hd hdrained
  · next hd =>
    cases h
    exact .cleanupQueue hd
  · next hd =>
    split at h
    · next frame rest hq =>
      cases h
      exact .discard hd hq
    · next hq =>
      cases h
      exact .discarded hd hq
  · next hd =>
    cases h
    exact .deleteConn hd
  · next hd =>
    cases h
    exact .sendDisconnect hd
  · cases h

end Effects

/-- Control that is not waiting for a ledger call has none in progress. -/
structure Typed (s : Conn F) : Prop where
  producer : s.producer ≠ .notifying → s.op .producer = .idle
  writePump : ¬s.drain.Calling → s.op .writePump = .idle
  teardown : s.teardown ≠ .kickstarting → s.op .teardown = .idle
  spending : ∀ t, (s.op t).Spending → t = .writePump ∧ s.drain.BeforeYield
  effects : (s.quit, s.queueDeleted, s.connDeleted, s.disconnectQueued) = s.teardown.effects

/-- Some goroutine still has to look at the queue, or stands at a point of kind `W`. -/
def Responsible (W : Op → Prop) (s : Conn F) : Prop :=
  s.drain.BeforeYield ∨ s.producer = .pushed ∨ At W s.op

/-- An action outside the ledger: it leaves the ledger's flags alone, moves at most one
parked thread to an entry point, and hands over the responsibility for the queue. -/
structure Outside (s t : Conn F) : Prop where
  available : t.ledger.available = s.ledger.available
  unlimited : t.ledger.unlimited = s.ledger.unlimited
  signaled : t.ledger.signaled = s.ledger.signaled
  probeFired : t.ledger.probeFired = s.ledger.probeFired
  closed : t.ledger.closed = s.ledger.closed
  probeMu : t.ledger.probeMu = s.ledger.probeMu
  maxCap : t.ledger.maxCap = s.ledger.maxCap
  moved : t.op = s.op ∨
    ∃ u o, t.op = Function.update s.op u o ∧ (s.op u).Parked ∧ Op.Entry u o
  wakeups : s.ledger.wakeups ≤ t.ledger.wakeups ∨ t.drain.BeforeYield
  beforeYield : t.queueDeleted = false → s.drain.BeforeYield →
    t.drain.BeforeYield ∨ t.op .writePump = .yieldClear
  pushed : t.queueDeleted = false → s.producer = .pushed →
    t.producer = .pushed ∨ t.op .producer = .enqUnlimited
  queue : t.queue ≠ [] → s.queue ≠ [] ∨ t.producer = .pushed

section Outside
variable {s t : Conn F}

theorem Outside.of_ledger (hl : t.ledger = s.ledger)
    (hm : t.op = s.op ∨ ∃ u o, t.op = Function.update s.op u o ∧ (s.op u).Parked ∧ Op.Entry u o)
    (hb : t.queueDeleted = false → s.drain.BeforeYield →
      t.drain.BeforeYield ∨ t.op .writePump = .yieldClear)
    (hp : t.queueDeleted = false → s.producer = .pushed →
      t.producer = .pushed ∨ t.op .producer = .enqUnlimited)
    (hq : t.queue ≠ [] → s.queue ≠ [] ∨ t.producer = .pushed) : Outside s t where
  available := by rw [hl]
  unlimited := by rw [hl]
  signaled := by rw [hl]
  probeFired := by rw [hl]
  closed := by rw [hl]
  probeMu := by rw [hl]
  maxCap := by rw [hl]
  moved := hm
  wakeups := .inl (by rw [hl])
  beforeYield := hb
  pushed := hp
  queue := hq

theorem Outside.of_drain (hl : t.ledger = s.ledger) (ho : t.op = s.op)
    (hb : t.queueDeleted = false → s.drain.BeforeYield → t.drain.BeforeYield)
    (hp : t.producer = s.producer) (hq : t.queue ≠ [] → s.queue ≠ []) : Outside s t :=
  .of_ledger hl (.inl ho) (fun hd h => .inl (hb hd h)) (fun _ h => .inl (hp.trans h))
    (fun h => .inl (hq h))

theorem Outside.of_call {o : Op} (hl : t.ledger = s.ledger)
    (ho : t.op = Function.update s.op .writePump o) (hpark : (s.op .writePump).Parked)
    (he : Op.Entry .writePump o) (hb : s.drain.BeforeYield → t.drain.BeforeYield ∨ o = .yieldClear)
    (hp : t.producer = s.producer) (hq : t.queue = s.queue) : Outside s t := by
  refine .of_ledger hl (.inr ⟨_, o, ho, hpark, he⟩) (fun _ h => ?_) (fun _ h => .inl (hp.trans h))
    (fun h => .inl (hq ▸ h))
  rcases hb h with h | rfl
  · exact .inl h
  · exact .inr (by rw [ho, Function.update_self])

theorem yield_outside (hpark : (s.op .writePump).Parked) : Outside s s.yield :=
  .of_call rfl rfl hpark trivial (fun _ => .inr rfl) rfl rfl

theorem Typed.parked (hs : Typed s) (hd : ¬s.drain.Calling) : (s.op .writePump).Parked := by
  rw [hs.writePump hd]
  trivial

theorem Typed.deleted (hs : Typed s) (hd : s.connDeleted = true) : s.queueDeleted = true := by
  have he := hs.effects
  cases ht : s.teardown <;> simp_all [Teardown.effects]

theorem Typed.connPresent (hs : Typed s) (hd : s.queueDeleted = false) :
    s.connDeleted = false := by
  cases hc : s.connDeleted with
  | false => rfl
  | true => rw [hs.deleted hc] at hd; cases hd

theorem drainStep_outside (hs : Typed s) (h : s.drainStep = some t) : Outside s t := by
  have hidle := hs.parked
  cases drainStep_effect h with
  | getQueue =>
    refine .of_drain rfl rfl (fun hdel _ => ?_) rfl id
    simp only at hdel
    simp [hdel, Drain.BeforeYield]
  | loadConn =>
    refine .of_drain rfl rfl (fun hdel _ => ?_) rfl id
    simp [hs.connPresent hdel, Drain.BeforeYield]
  | loopDone hd => exact yield_outside (hidle (by simp [hd, Drain.Calling]))
  | acquire hd | empty hd =>
    exact .of_call rfl rfl (hidle (by simp [hd, Drain.Calling])) trivial
      (fun _ => .inl trivial) rfl rfl
  | acquired hd hop =>
    exact .of_call rfl rfl (by rw [hop]; trivial) trivial (fun _ => .inl trivial) rfl rfl
  | refused hd hop | released hd hop => exact yield_outside (by rw [hop]; trivial)
  | yielded hd hop =>
    exact .of_call rfl rfl (by rw [hop]; trivial) trivial
      (fun hb => by simp [hd, Drain.BeforeYield] at hb) rfl rfl
  | pull hd hq => exact .of_drain rfl rfl (fun _ _ => trivial) rfl (fun _ => by simp [hq])
  | write => exact .of_drain rfl rfl (fun _ _ => trivial) rfl id
  | latePull hd hq =>
    exact .of_drain rfl rfl (fun _ hb => by simp [hd, Drain.BeforeYield] at hb) rfl
      (fun _ => by simp [hq])
  | noQueue hd | noQueueClosing hd | isClosing hd | lenQueue hd | lateEmpty hd | lateWrite hd
  | lateLen hd | closeOnDrained hd =>
    exact .of_drain rfl rfl (fun _ hb => by simp [hd, Drain.BeforeYield] at hb) rfl id

theorem enqueueData_outside {frame : F} (h : s.enqueueData frame = some t) : Outside s t := by
  unfold enqueueData at h
  cases hp : s.producer with
  | idle =>
    simp only [hp, Option.some.injEq] at h
    subst h
    split_ifs
    · exact .of_drain rfl rfl (fun _ => id) rfl id
    · exact .of_ledger rfl (.inl rfl) (fun _ => .inl) (fun _ hpush => by simp [hp] at hpush) .inl
  | _ => simp [hp] at h

theorem push_outside (h : s.push = some t) : Outside s t := by
  obtain ⟨frame, -, rfl⟩ := push_eq_some h
  exact .of_ledger rfl (.inl rfl) (fun _ => .inl) (fun _ _ => .inl rfl) (fun _ => .inr rfl)

theorem loadConn_outside (hs : Typed s) (h : s.loadConn = some t) : Outside s t := by
  unfold loadConn at h
  cases hp : s.producer with
  | pushed =>
    simp only [hp, Option.some.injEq] at h
    subst h
    have hpark : (s.op .producer).Parked := by rw [hs.producer (by simp [hp])]; trivial
    cases hc : s.connDeleted with
    | true =>
      refine .of_ledger rfl (.inl rfl) (fun _ => .inl) (fun hd _ => ?_) .inl
      rw [show s.queueDeleted = true from hs.deleted hc] at hd
      cases hd
    | false =>
      exact .of_ledger rfl (.inr ⟨_, _, rfl, hpark, trivial⟩) (fun _ => .inl)
        (fun _ _ => .inr (by simp [setOp, Op.notifyEnqueue])) .inl
  | _ => simp [hp] at h

theorem enqueued_outside (h : s.enqueued = some t) : Outside s t := by
  unfold enqueued at h
  split at h
  · next b hp hop =>
    cases h
    refine .of_ledger rfl (.inr ⟨_, _, rfl, ?_, trivial⟩) (fun _ => .inl)
      (fun _ hpush => by simp [hp] at hpush) .inl
    rw [hop]
    trivial
  · cases h

theorem dataReady_outside {m : ℕ} (h : s.dataReady m = some t) : Outside s t := by
  obtain ⟨-, rfl⟩ := dataReady_eq_some h
  exact ⟨rfl, rfl, rfl, rfl, rfl, rfl, rfl, .inl rfl, .inr trivial, fun _ _ => .inl trivial,
    fun _ => .inl, .inl⟩

theorem Outside.of_setOp {u : Tid} {o : Op} (hpark : (s.op u).Parked) (he : Op.Entry u o) :
    Outside s (s.setOp u o) :=
  .of_ledger rfl (.inr ⟨u, o, rfl, hpark, he⟩) (fun _ => .inl) (fun _ => .inl) .inl

theorem handle_outside {i : ℕ} {o : Op} (he : Op.Entry (.handler i) o)
    (h : s.handle i o = some t) : Outside s t := by
  unfold handle at h
  split_ifs at h with hidle
  cases h
  exact .of_setOp (by rw [hidle]; trivial) he

theorem returned_outside {u : Tid} (h : s.returned u = some t) : Outside s t := by
  obtain ⟨ok, hop, rfl⟩ := returned_eq_some h
  exact .of_setOp (by rw [hop]; trivial) trivial

theorem resumeStream_outside {i : ℕ} {credits : ℤ} (h : s.resumeStream i credits = some t) :
    Outside s t := by
  unfold resumeStream at h
  split_ifs at h
  · cases h
    exact .of_drain rfl rfl (fun _ => id) rfl id
  · have he : Op.Entry (.handler i) (.replenish (clampReverseCredits credits)) := trivial
    exact handle_outside he h

theorem clampReverseCredits_pos {credits : ℤ} (h : 0 < credits) :
    0 < clampReverseCredits credits := by
  unfold clampReverseCredits
  split_ifs
  · exact h
  · decide

theorem outboundResult_outside {i : ℕ} {credits : ℤ} (h : s.outboundResult i credits = some t) :
    Outside s t := by
  unfold outboundResult at h
  dsimp only at h
  have he : Op.Entry (.handler i) (.initCredits
      (if 0 < credits then clampReverseCredits credits else maxInt64)) := by
    change 0 < ite _ _ _
    split_ifs with hpos
    · exact clampReverseCredits_pos hpos
    · decide
  by_cases hpend : s.outboundPending = true
  · rw [if_pos hpend] at h
    by_cases hdel : s.connDeleted = true
    · rw [if_pos hdel] at h
      cases h
      exact .of_drain rfl rfl (fun _ => id) rfl id
    · rw [if_neg hdel] at h
      have ho := handle_outside he h
      exact ⟨ho.available, ho.unlimited, ho.signaled, ho.probeFired, ho.closed, ho.probeMu,
        ho.maxCap, ho.moved, ho.wakeups, ho.beforeYield, ho.pushed, ho.queue⟩
  · rw [if_neg hpend] at h
    cases h
    exact .of_drain rfl rfl (fun _ => id) rfl id

theorem fire_outside {gen : ℕ} (h : s.fire gen = some t) : Outside s t := by
  unfold fire at h
  split_ifs at h with hg
  cases h
  exact ⟨rfl, rfl, rfl, rfl, rfl, rfl, rfl, .inr ⟨_, _, rfl, by rw [hg.2]; trivial, trivial⟩,
    .inl le_rfl, fun _ => .inl, fun _ => .inl, .inl⟩

theorem teardownStep_outside (hs : Typed s) (h : s.teardownStep = some t) : Outside s t := by
  cases teardownStep_effect h with
  | kickstart hd =>
    have hpark : (s.op .teardown).Parked := by
      rw [hs.teardown (by simp [hd])]
      trivial
    exact .of_ledger rfl (.inr ⟨_, _, rfl, hpark, trivial⟩) (fun _ => .inl) (fun _ => .inl) .inl
  | kickstarted hd hop =>
    exact .of_ledger rfl (.inr ⟨_, _, rfl, by rw [hop]; trivial, trivial⟩) (fun _ => .inl)
      (fun _ => .inl) .inl
  | discard hd hq => exact .of_drain rfl rfl (fun _ => id) rfl (fun _ => by simp [hq])
  | _ => exact .of_drain rfl rfl (fun _ => id) rfl id

/-- Every action is an access of a thread's ledger call or an outside step. -/
theorem step_cases {a : Action F} (hs : Typed s) (h : s.step a = some t) :
    (∃ u, a = .access u ∧ s.access u = some t) ∨ Outside s t := by
  cases a with
  | access u => exact .inl ⟨u, rfl, h⟩
  | enqueueData frame => exact .inr (enqueueData_outside h)
  | push => exact .inr (push_outside h)
  | loadConn => exact .inr (loadConn_outside hs h)
  | enqueued => exact .inr (enqueued_outside h)
  | dataReady m => exact .inr (dataReady_outside h)
  | drain => exact .inr (drainStep_outside hs h)
  | resumeStream i credits => exact .inr (resumeStream_outside h)
  | outboundResult i credits => exact .inr (outboundResult_outside h)
  | handled i => exact .inr (returned_outside h)
  | fire gen => exact .inr (fire_outside h)
  | fired gen => exact .inr (returned_outside h)
  | teardown => exact .inr (teardownStep_outside hs h)

end Outside

section Typed
variable {s t : Conn F}

theorem start_typed (initial : ℤ) (outbound : Bool) : Typed (start (F := F) initial outbound) where
  producer _ := rfl
  writePump _ := rfl
  teardown _ := rfl
  spending _ hu := absurd hu id
  effects := rfl

theorem Typed.not_spending (hs : Typed s) (hpark : (s.op .writePump).Parked) (u : Tid) :
    ¬(s.op u).Spending := by
  intro hu
  rw [(hs.spending u hu).1] at hu
  cases hop : s.op .writePump <;> simp_all [Op.Parked, Op.Spending]

theorem Typed.access {u : Tid} (hs : Typed s) (h : s.access u = some t) : Typed t := by
  obtain ⟨l, o, hstep, rfl⟩ := access_eq_some h
  have hne : s.op u ≠ .idle := by
    intro hidle
    rw [hidle] at hstep
    cases hstep
  have hkeep : ∀ v, s.op v = .idle → Function.update s.op u o v = .idle := by
    intro v hv
    by_cases huv : v = u
    · exact absurd (huv ▸ hv) hne
    · rw [Function.update_of_ne huv, hv]
  refine ⟨fun hp => hkeep _ (hs.producer hp), fun hd => hkeep _ (hs.writePump hd),
    fun ht => hkeep _ (hs.teardown ht), fun v hv => ?_, hs.effects⟩
  have hv : (Function.update s.op u o v).Spending := hv
  by_cases huv : v = u
  · subst huv
    rw [Function.update_self] at hv
    exact hs.spending v ((Op.step_access hstep).spending hv)
  · rw [Function.update_of_ne huv] at hv
    exact hs.spending v hv

theorem Typed.of_move {u : Tid} {o : Op} (hs : Typed s) (hu : u ≠ .writePump)
    (ho : t.op = Function.update s.op u o) (hns : ¬o.Spending)
    (hprod : t.producer ≠ .notifying → t.op .producer = .idle)
    (htear : t.teardown ≠ .kickstarting → t.op .teardown = .idle) (hd : t.drain = s.drain)
    (he : (t.quit, t.queueDeleted, t.connDeleted, t.disconnectQueued) = t.teardown.effects) :
    Typed t := by
  refine ⟨hprod, fun hc => ?_, htear, fun v hv => ?_, he⟩
  · rw [ho, Function.update_of_ne hu.symm]
    exact hs.writePump (hd ▸ hc)
  · rw [ho] at hv
    rw [hd]
    by_cases huv : v = u
    · subst huv
      rw [Function.update_self] at hv
      exact absurd hv hns
    · rw [Function.update_of_ne huv] at hv
      exact hs.spending v hv

theorem Typed.of_writer {o : Op} (hs : Typed s) (hpark : (s.op .writePump).Parked)
    (ho : t.op = Function.update s.op .writePump o) (hcall : ¬t.drain.Calling → o = .idle)
    (hspend : o.Spending → t.drain.BeforeYield) (hp : t.producer = s.producer)
    (ht : t.teardown = s.teardown)
    (he : (t.quit, t.queueDeleted, t.connDeleted, t.disconnectQueued) = t.teardown.effects) :
    Typed t := by
  refine ⟨fun h => ?_, fun h => ?_, fun h => ?_, fun v hv => ?_, he⟩
  · rw [ho, Function.update_of_ne (by decide)]
    exact hs.producer (hp ▸ h)
  · rw [ho, Function.update_self]
    exact hcall h
  · rw [ho, Function.update_of_ne (by decide)]
    exact hs.teardown (ht ▸ h)
  · rw [ho] at hv
    by_cases huv : v = .writePump
    · subst huv
      rw [Function.update_self] at hv
      exact ⟨rfl, hspend hv⟩
    · rw [Function.update_of_ne huv] at hv
      exact absurd hv (hs.not_spending hpark v)

theorem Typed.of_drain (hs : Typed s) (hd : ¬s.drain.Calling) (ho : t.op = s.op)
    (hp : t.producer = s.producer) (ht : t.teardown = s.teardown)
    (he : (t.quit, t.queueDeleted, t.connDeleted, t.disconnectQueued) = t.teardown.effects) :
    Typed t :=
  hs.of_writer (hs.parked hd) (by rw [ho, ← hs.writePump hd, Function.update_eq_self])
    (fun _ => rfl) (fun h => absurd h id) hp ht he

theorem Typed.of_same (hs : Typed s) (ho : t.op = s.op) (hd : t.drain = s.drain)
    (hp : t.producer ≠ .notifying → s.producer ≠ .notifying)
    (ht : t.teardown ≠ .kickstarting → s.teardown ≠ .kickstarting)
    (he : (t.quit, t.queueDeleted, t.connDeleted, t.disconnectQueued) = t.teardown.effects) :
    Typed t := by
  refine ⟨fun h => ?_, fun h => ?_, fun h => ?_, fun v hv => ?_, he⟩
  · rw [ho]
    exact hs.producer (hp h)
  · rw [ho]
    exact hs.writePump (hd ▸ h)
  · rw [ho]
    exact hs.teardown (ht h)
  · rw [hd]
    exact hs.spending v (ho ▸ hv)

theorem yield_typed (hs : Typed s) (hpark : (s.op .writePump).Parked) : Typed s.yield :=
  hs.of_writer hpark rfl (fun h => absurd trivial h) (fun h => absurd h id) rfl rfl hs.effects

theorem drainStep_typed (hs : Typed s) (h : s.drainStep = some t) : Typed t := by
  cases drainStep_effect h with
  | loopDone hd => exact yield_typed hs (hs.parked (by simp [hd, Drain.Calling]))
  | acquire hd | empty hd =>
    exact hs.of_writer (hs.parked (by simp [hd, Drain.Calling])) rfl
      (fun hc => absurd trivial hc) (fun _ => trivial) rfl rfl hs.effects
  | acquired hd hop | yielded hd hop =>
    exact hs.of_writer (by rw [hop]; trivial) rfl (fun _ => rfl) (fun hsp => absurd hsp id)
      rfl rfl hs.effects
  | refused hd hop | released hd hop => exact yield_typed hs (by rw [hop]; trivial)
  | getQueue hd | noQueue hd | noQueueClosing hd | loadConn hd | pull hd | write hd
  | isClosing hd | lenQueue hd | latePull hd | lateEmpty hd | lateWrite hd | lateLen hd
  | closeOnDrained hd =>
    exact hs.of_drain (by simp [hd, Drain.Calling]) rfl rfl rfl hs.effects

theorem Typed.of_setOp {u : Tid} {o : Op} (hs : Typed s) (hp : u ≠ .producer)
    (hw : u ≠ .writePump) (ht : u ≠ .teardown) (ho : ¬o.Spending) : Typed (s.setOp u o) := by
  refine hs.of_move hw rfl ho (fun h => ?_) (fun h => ?_) rfl hs.effects
  · exact (Function.update_of_ne hp.symm ..).trans (hs.producer h)
  · exact (Function.update_of_ne ht.symm ..).trans (hs.teardown h)

theorem handle_typed {i : ℕ} {o : Op} (hs : Typed s) (ho : ¬o.Spending)
    (h : s.handle i o = some t) : Typed t := by
  unfold handle at h
  split_ifs at h
  cases h
  exact hs.of_setOp (by simp) (by simp) (by simp) ho

theorem returned_typed {u : Tid} (hs : Typed s) (hp : u ≠ .producer) (hw : u ≠ .writePump)
    (ht : u ≠ .teardown) (h : s.returned u = some t) : Typed t := by
  obtain ⟨ok, -, rfl⟩ := returned_eq_some h
  exact hs.of_setOp hp hw ht id

theorem resumeStream_typed {i : ℕ} {credits : ℤ} (hs : Typed s)
    (h : s.resumeStream i credits = some t) : Typed t := by
  unfold resumeStream at h
  split_ifs at h
  · cases h
    exact hs
  · exact handle_typed hs id h

theorem outboundResult_typed {i : ℕ} {credits : ℤ} (hs : Typed s)
    (h : s.outboundResult i credits = some t) : Typed t := by
  unfold outboundResult at h
  dsimp only at h
  have hs' : Typed { s with outboundPending := false } :=
    hs.of_same rfl rfl id id hs.effects
  by_cases hpend : s.outboundPending = true
  · rw [if_pos hpend] at h
    by_cases hdel : s.connDeleted = true
    · rw [if_pos hdel] at h
      cases h
      exact hs'
    · rw [if_neg hdel] at h
      exact handle_typed hs' id h
  · rw [if_neg hpend] at h
    cases h
    exact hs

theorem fire_typed {gen : ℕ} (hs : Typed s) (h : s.fire gen = some t) : Typed t := by
  unfold fire at h
  split_ifs at h
  cases h
  have hs' : Typed { s with ledger := { s.ledger with timers := s.ledger.timers.erase gen } } :=
    hs.of_same rfl rfl id id hs.effects
  exact hs'.of_setOp (by simp) (by simp) (by simp) id

theorem enqueueData_typed {frame : F} (hs : Typed s) (h : s.enqueueData frame = some t) :
    Typed t := by
  unfold enqueueData at h
  cases hp : s.producer with
  | idle =>
    simp only [hp, Option.some.injEq] at h
    subst h
    split_ifs
    · exact hs
    · exact hs.of_same rfl rfl (fun _ => by simp [hp]) id hs.effects
  | _ => simp [hp] at h

theorem push_typed (hs : Typed s) (h : s.push = some t) : Typed t := by
  obtain ⟨frame, hp, rfl⟩ := push_eq_some h
  exact hs.of_same rfl rfl (fun _ => by simp [hp]) id hs.effects

theorem loadConn_typed (hs : Typed s) (h : s.loadConn = some t) : Typed t := by
  unfold loadConn at h
  cases hp : s.producer with
  | pushed =>
    simp only [hp, Option.some.injEq] at h
    subst h
    split_ifs
    · exact hs.of_same rfl rfl (fun _ => by simp [hp]) id hs.effects
    · exact hs.of_move (by decide) rfl id (fun hn => absurd rfl hn)
        (fun ht => by simpa [setOp] using hs.teardown ht) rfl hs.effects
  | _ => simp [hp] at h

theorem enqueued_typed (hs : Typed s) (h : s.enqueued = some t) : Typed t := by
  unfold enqueued at h
  split at h
  · cases h
    exact hs.of_move (by decide) rfl id (fun _ => by simp [setOp])
      (fun ht => by simpa [setOp] using hs.teardown ht) rfl hs.effects
  · cases h

theorem dataReady_typed {m : ℕ} (hs : Typed s) (h : s.dataReady m = some t) : Typed t := by
  obtain ⟨hd, rfl⟩ := dataReady_eq_some h
  exact hs.of_drain (by simp [hd, Drain.Calling]) rfl rfl rfl hs.effects

theorem teardownStep_typed (hs : Typed s) (h : s.teardownStep = some t) : Typed t := by
  have he := hs.effects
  cases teardownStep_effect h with
  | kickstart hd =>
    exact hs.of_move (by decide) rfl id (fun hp => by simpa [setOp] using hs.producer hp)
      (fun ht => absurd rfl ht) rfl (by simp_all [setOp, Teardown.effects])
  | kickstarted hd hop =>
    exact hs.of_move (by decide) rfl id (fun hp => by simpa [setOp] using hs.producer hp)
      (fun _ => by simp [setOp]) rfl (by simp_all [setOp, Teardown.effects])
  | swap hd | safeClose hd | waitDrained hd | cleanupQueue hd | discard hd | discarded hd
  | deleteConn hd | sendDisconnect hd =>
    exact hs.of_same rfl rfl id (fun _ => by simp [hd]) (by simp_all [Teardown.effects])

theorem step_typed {a : Action F} (hs : Typed s) (h : s.step a = some t) : Typed t := by
  cases a with
  | access u => exact hs.access h
  | enqueueData frame => exact enqueueData_typed hs h
  | push => exact push_typed hs h
  | loadConn => exact loadConn_typed hs h
  | enqueued => exact enqueued_typed hs h
  | dataReady m => exact dataReady_typed hs h
  | drain => exact drainStep_typed hs h
  | resumeStream i credits => exact resumeStream_typed hs h
  | outboundResult i credits => exact outboundResult_typed hs h
  | handled i => exact returned_typed hs (by simp) (by simp) (by simp) h
  | fire gen => exact fire_typed hs h
  | fired gen => exact returned_typed hs (by simp) (by simp) (by simp) h
  | teardown => exact teardownStep_typed hs h

end Typed

section Frame
variable {s t : Conn F}

theorem drainStep_frame (h : s.drainStep = some t) :
    t.teardown = s.teardown ∧ t.queueDeleted = s.queueDeleted ∧ t.quit = s.quit ∧
      t.atCas = s.atCas ∧ t.disconnectQueued = s.disconnectQueued ∧ t.pushed = s.pushed := by
  cases drainStep_effect h <;> exact ⟨rfl, rfl, rfl, rfl, rfl, rfl⟩

theorem step_frame {a : Action F} (ha : a ≠ .teardown) (h : s.step a = some t) :
    t.teardown = s.teardown ∧ t.queueDeleted = s.queueDeleted ∧ t.quit = s.quit ∧
      t.atCas = s.atCas ∧ t.disconnectQueued = s.disconnectQueued := by
  cases a with
  | access u =>
    obtain ⟨l, o, -, rfl⟩ := access_eq_some h
    exact ⟨rfl, rfl, rfl, rfl, rfl⟩
  | drain =>
    obtain ⟨ht, hd, hq, hc, hs, -⟩ := drainStep_frame h
    exact ⟨ht, hd, hq, hc, hs⟩
  | teardown => exact absurd rfl ha
  | _ =>
    simp only [step, enqueueData, push, loadConn, enqueued, dataReady, resumeStream, handle,
      outboundResult, returned, fire, setOp] at h
    (repeat' split at h) <;> cases h <;> simp

theorem step_queueDeleted {a : Action F} (h : s.step a = some t) (hd : t.queueDeleted = false) :
    s.queueDeleted = false := by
  by_cases ha : a = .teardown
  · subst ha
    cases teardownStep_effect h with
    | cleanupQueue => cases hd
    | _ => exact hd
  · rw [← (step_frame ha h).2.1]
    exact hd

/-- An action moves no thread but its own. -/
theorem step_op_eq {a : Action F} {u : Tid} (h : s.step a = some t) (hu : u ≠ a.thread) :
    t.op u = s.op u := by
  cases a with
  | access v =>
    obtain ⟨l, o, -, rfl⟩ := access_eq_some h
    exact Function.update_of_ne hu ..
  | drain =>
    cases drainStep_effect h <;> first | rfl | exact Function.update_of_ne hu ..
  | teardown => cases teardownStep_effect h <;> first | rfl | exact Function.update_of_ne hu ..
  | _ =>
    simp only [step, enqueueData, push, loadConn, enqueued, dataReady, resumeStream, handle,
      outboundResult, returned, fire, setOp] at h
    (repeat' split at h) <;> cases h <;>
      first | rfl | exact Function.update_of_ne hu ..

theorem run_op_eq {as : List (Action F)} {u : Tid} (h : run step s as = some t)
    (hu : u ∉ as.map Action.thread) : t.op u = s.op u := by
  induction as generalizing s with
  | nil =>
    obtain rfl : s = t := by simpa using h
    rfl
  | cons a as ih =>
    obtain ⟨v, hv, ht⟩ := run_cons_some.mp h
    simp only [List.map_cons, List.mem_cons, not_or] at hu
    rw [ih ht hu.2, step_op_eq hv hu.1]

/-- Whether a run has left every thread idle is decided by the threads it has moved. -/
theorem idle_of_run {as : List (Action F)} {initial : ℤ} {outbound : Bool}
    (h : run step (start initial outbound) as = some t)
    (hop : ∀ u ∈ as.map Action.thread, t.op u = .idle) (hp : t.producer = .idle)
    (hd : t.drain = .idle) : Idle t := by
  refine ⟨fun u => ?_, hp, hd⟩
  by_cases hu : u ∈ as.map Action.thread
  · exact hop u hu
  · rw [run_op_eq h hu]
    rfl

end Frame

end Conn
end NexusProxy.Client
