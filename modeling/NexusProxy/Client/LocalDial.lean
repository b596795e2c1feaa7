import NexusProxy.Lib.Collections
import NexusProxy.Lib.Transition

/-! The local dial of a connection. `establishLocalConnection` publishes the socket it has dialed
while any number of goroutines may be closing the connection. -/
namespace NexusProxy.Client.LocalDial
open Collections Transition

inductive ConnState where
  | pending
  | active
  | draining
  | closed
  deriving DecidableEq

/-- What follows a `conn.Close()` of `establishLocalConnection`. -/
inductive Next where
  | transitionToClosed
  | delete
  | returns
  deriving DecidableEq

/-- Where `establishLocalConnection` stands: what it does next. -/
inductive Dial where
  | dial
  | checkSession
  | checkClosing
  | assign
  | recheckClosing
  | activate
  | startReader
  | startWriter
  | close (next : Next)
  | delete
  | done
  deriving DecidableEq

/-- Where a call of `transitionToClosed`, or a goroutine it has started, stands. -/
inductive Task where
  | load
  | swap (old : ConnState)
  | safeClose (old : ConnState)
  | closeQuit (old : ConnState)
  | startCloser (old : ConnState)
  | finalize (old : ConnState)
  | delete
  | readConn
  | closeConn
  | done
  deriving DecidableEq

/-- The swap from Pending to Active that works, and the start of the two pumps. -/
inductive Event where
  | activated
  | copyLocalToNexus
  | writeToLocal
  deriving DecidableEq

/-- A connection and its socket. `conn` says whether the field is assigned, `localConns` whether
the id is in the map; `dialed`, `closed` and `events` are history. -/
structure State where
  state : ConnState
  quit : Bool
  closeOnce : Bool
  conn : Bool
  localConns : Bool
  dialed : Bool
  closed : Bool
  events : List Event
  dial : Dial
  tasks : List Task

/-- The connection is stored and pending, and the dial is about to begin. -/
def init : State where
  state := .pending
  quit := false
  closeOnce := false
  conn := false
  localConns := true
  dialed := false
  closed := false
  events := []
  dial := .dial
  tasks := []

namespace State

def isClosing (s : State) : Bool := s.quit

/-- The connection is published in one critical section, and read in another. -/
def establish (s : State) (ok : Bool) : Option State :=
  match s.dial with
  | .dial =>
      if ok then some { s with dialed := true, dial := .checkSession }
      else some { s with dial := .done, tasks := s.tasks ++ [.load] }
  | .checkSession =>
      some { s with dial := if ok then .checkClosing else .close .transitionToClosed }
  | .checkClosing => some { s with dial := if s.isClosing then .close .delete else .assign }
  | .assign => some { s with conn := true, dial := .recheckClosing }
  | .recheckClosing => some { s with dial := if s.isClosing then .close .delete else .activate }
  | .activate =>
      if s.state = .pending then
        some { s with state := .active, events := s.events ++ [.activated], dial := .startReader }
      else some { s with dial := .close .returns }
  | .startReader =>
      some { s with events := s.events ++ [.copyLocalToNexus], dial := .startWriter }
  | .startWriter => some { s with events := s.events ++ [.writeToLocal], dial := .done }
  -- a call of `transitionToClosed` comes last, and goes on as a task
  | .close .transitionToClosed =>
      some { s with closed := true, dial := .done, tasks := s.tasks ++ [.load] }
  | .close .delete => some { s with closed := true, dial := .delete }
  | .close .returns => some { s with closed := true, dial := .done }
  | .delete => some { s with localConns := false, dial := .done }
  | .done => none

/-- A step of a task; with it the tasks that it starts. `async` says whether the session has a
channel to wait on while the queue is drained. -/
def advance (s : State) (async : Bool) : Task → Option (State × Task × List Task)
  | .load => some (s, if s.state = .closed then .done else .swap s.state, [])
  | .swap old =>
      if s.state = old then some ({ s with state := .closed }, .safeClose old, [])
      else some (s, .load, [])
  | .safeClose old =>
      if s.closeOnce then some (s, .finalize old, [])
      else some ({ s with closeOnce := true }, .closeQuit old, [])
  | .closeQuit old => some ({ s with quit := true }, .startCloser old, [])
  | .startCloser old => some (s, .finalize old, [.readConn])
  | .finalize old =>
      if (old = .active ∨ old = .draining) ∧ async then some (s, .done, [.delete])
      else some (s, .delete, [])
  | .delete => some ({ s with localConns := false }, .done, [])
  -- the closer, once its wait is over
  | .readConn => some (s, if s.conn then .closeConn else .done, [])
  | .closeConn => some ({ s with closed := true }, .done, [])
  | .done => none

end State

inductive Action where
  | establish (ok : Bool)
  | transitionToClosed
  | drain
  | advance (i : ℕ) (async : Bool)

/-- `drain` is the swap from Active to Draining in `Stop`. -/
def step (s : State) : Action → Option State
  | .establish ok => s.establish ok
  | .transitionToClosed => some { s with tasks := s.tasks ++ [.load] }
  | .drain => if s.state = .active then some { s with state := .draining } else none
  | .advance i async =>
      match s.tasks[i]? with
      | some task => (s.advance async task).map fun (t, task', started) =>
          { t with tasks := s.tasks.set i task' ++ started }
      | none => none

/-! ### What is still to be done -/

/-- The socket is dialed and the call has not decided what becomes of it. -/
def Dial.handles : Dial → Bool
  | .checkSession | .checkClosing | .assign | .recheckClosing | .activate | .close _ => true
  | _ => false

/-- The socket is published and not yet in use. -/
def Dial.assigned : Dial → Bool
  | .recheckClosing | .activate => true
  | _ => false

def pumpsStarted : List Event := [.activated, .copyLocalToNexus, .writeToLocal]

/-- What has happened when the call stands at a point. -/
def Dial.Follows (events : List Event) : Dial → Prop
  | .startReader => events = pumpsStarted.take 1
  | .startWriter => events = pumpsStarted.take 2
  | .done => events = [] ∨ events = pumpsStarted
  | _ => events = []

theorem Dial.Follows.pumps {events : List Event} {d : Dial} (h : d.Follows events) :
    events <+: pumpsStarted := by
  cases d with
  | startReader => exact h ▸ List.take_prefix 1 pumpsStarted
  | startWriter => exact h ▸ List.take_prefix 2 pumpsStarted
  | done =>
    rcases h with rfl | rfl
    · exact List.nil_prefix
    · exact List.prefix_rfl
  | _ =>
    obtain rfl : events = [] := h
    exact List.nil_prefix

namespace Task

def isSafeClose : Task → Bool
  | .safeClose _ => true
  | _ => false

/-- The task will close the socket, if it is published. -/
def closes : Task → Bool
  | .safeClose _ | .closeQuit _ | .startCloser _ | .readConn | .closeConn => true
  | _ => false

/-- The task, or one that it starts, will delete the id. -/
def deletes : Task → Bool
  | .safeClose _ | .closeQuit _ | .startCloser _ | .finalize _ | .delete => true
  | _ => false

end Task

/-- What a step of a task does. -/
structure TaskStep (s : State) (task : Task) (t : State) (task' : Task) (started : List Task) :
    Prop where
  dial : t.dial = s.dial
  events : t.events = s.events
  dialed : t.dialed = s.dialed
  conn : t.conn = s.conn
  closed : s.closed = true → t.closed = true
  deleted : s.localConns = false → t.localConns = false
  swaps : ∀ x ∈ task' :: started, x ≠ .swap .closed
  /-- One call for each connection gets to close it. -/
  once : (task' :: started).countP Task.isSafeClose + t.closeOnce.toNat +
      (if s.state = .closed then 1 else 0) =
    task.isSafeClose.toNat + s.closeOnce.toNat + if t.state = .closed then 1 else 0
  closes : t.state = .closed → t.closed = true ∨ (∃ x ∈ task' :: started, x.closes = true) ∨
    s.state = .closed ∧ (task.closes = true → s.conn = false)
  deletes : t.state = .closed → t.localConns = false ∨
    (∃ x ∈ task' :: started, x.deletes = true) ∨ s.state = .closed ∧ task.deletes = false

theorem advance_taskStep {s t : State} {async : Bool} {task task' : Task} {started : List Task}
    (hswap : task ≠ .swap .closed) (honce : task.isSafeClose = true → s.closeOnce = false)
    (h : s.advance async task = some (t, task', started)) : TaskStep s task t task' started := by
  cases task with
  | load =>
    cases h
    refine ⟨rfl, rfl, rfl, rfl, id, id, ?_, ?_, fun hc => .inr (.inr ⟨hc, fun hk => by cases hk⟩),
      fun hc => .inr (.inr ⟨hc, rfl⟩)⟩
    · intro x hx
      rw [List.mem_singleton.mp hx]
      split_ifs with hclosed <;> simp [hclosed]
    · split_ifs <;> rfl
  | swap old =>
    rw [State.advance] at h
    split_ifs at h with hold <;> cases h
    · -- the state was not Closed, so that this is the one call that closes the connection
      have hopen : s.state ≠ .closed := by
        rintro hclosed
        exact hswap (by rw [← hold, hclosed])
      refine ⟨rfl, rfl, rfl, rfl, id, id, by simp, ?_, ?_, ?_⟩
      · rw [if_neg hopen, if_pos rfl]
        simp [Task.isSafeClose, add_comm]
      · exact fun _ => .inr (.inl ⟨_, List.mem_cons_self, rfl⟩)
      · exact fun _ => .inr (.inl ⟨_, List.mem_cons_self, rfl⟩)
    · exact ⟨rfl, rfl, rfl, rfl, id, id, by simp, rfl,
        fun hc => .inr (.inr ⟨hc, fun hk => by cases hk⟩), fun hc => .inr (.inr ⟨hc, rfl⟩)⟩
  | safeClose old =>
    rw [State.advance, honce rfl] at h
    cases h
    refine ⟨rfl, rfl, rfl, rfl, id, id, by simp, ?_, ?_, ?_⟩
    · rw [honce rfl]
      simp [Task.isSafeClose]
    · exact fun _ => .inr (.inl ⟨_, List.mem_cons_self, rfl⟩)
    · exact fun _ => .inr (.inl ⟨_, List.mem_cons_self, rfl⟩)
  | closeQuit old =>
    cases h
    exact ⟨rfl, rfl, rfl, rfl, id, id, by simp, by simp [Task.isSafeClose],
      fun _ => .inr (.inl ⟨_, List.mem_cons_self, rfl⟩),
      fun _ => .inr (.inl ⟨_, List.mem_cons_self, rfl⟩)⟩
  | startCloser old =>
    cases h
    exact ⟨rfl, rfl, rfl, rfl, id, id, by simp, rfl,
      fun _ => .inr (.inl ⟨.readConn, by simp, rfl⟩),
      fun _ => .inr (.inl ⟨_, List.mem_cons_self, rfl⟩)⟩
  | finalize old =>
    rw [State.advance] at h
    split_ifs at h <;> cases h
    · exact ⟨rfl, rfl, rfl, rfl, id, id, by simp, rfl,
        fun hc => .inr (.inr ⟨hc, fun hk => by cases hk⟩),
        fun _ => .inr (.inl ⟨.delete, by simp, rfl⟩)⟩
    · exact ⟨rfl, rfl, rfl, rfl, id, id, by simp, rfl,
        fun hc => .inr (.inr ⟨hc, fun hk => by cases hk⟩),
        fun _ => .inr (.inl ⟨_, List.mem_cons_self, rfl⟩)⟩
  | delete =>
    cases h
    exact ⟨rfl, rfl, rfl, rfl, id, fun _ => rfl, by simp, rfl,
      fun hc => .inr (.inr ⟨hc, fun hk => by cases hk⟩), fun _ => .inl rfl⟩
  | readConn =>
    cases h
    cases hconn : s.conn with
    | true =>
      exact ⟨rfl, rfl, rfl, rfl, id, id, by simp, rfl,
        fun _ => .inr (.inl ⟨_, List.mem_cons_self, rfl⟩), fun hc => .inr (.inr ⟨hc, rfl⟩)⟩
    | false =>
      exact ⟨rfl, rfl, rfl, rfl, id, id, by simp, rfl,
        fun hc => .inr (.inr ⟨hc, fun _ => hconn⟩), fun hc => .inr (.inr ⟨hc, rfl⟩)⟩
  | closeConn =>
    cases h
    exact ⟨rfl, rfl, rfl, rfl, fun _ => rfl, id, by simp, rfl, fun _ => .inl rfl,
      fun hc => .inr (.inr ⟨hc, rfl⟩)⟩
  | done => cases h

/-! ### Every run -/

structure Tracked (s : State) : Prop where
  follows : s.dial.Follows s.events
  assigned : s.dial.assigned = true ∨ s.events ≠ [] → s.conn = true
  handled : s.dialed = true → s.closed = true ∨ s.events ≠ [] ∨ s.dial.handles = true
  swaps : ∀ task ∈ s.tasks, task ≠ .swap .closed
  once : s.tasks.countP Task.isSafeClose + s.closeOnce.toNat = if s.state = .closed then 1 else 0
  closes : s.state = .closed → s.events ≠ [] →
    s.closed = true ∨ Any (fun task => task.closes = true) s.tasks
  deletes : s.state = .closed →
    s.localConns = false ∨ Any (fun task => task.deletes = true) s.tasks

theorem tracked_init : Tracked init where
  follows := rfl
  assigned := by
    rintro (h | h)
    · cases h
    · exact absurd rfl h
  handled := fun h => by cases h
  swaps := fun _ h => by cases h
  once := rfl
  closes := fun h => by cases h
  deletes := fun h => by cases h

variable {s t : State}

theorem Tracked.calls (h : Tracked s) : Tracked { s with tasks := s.tasks ++ [.load] } where
  follows := h.follows
  assigned := h.assigned
  handled := h.handled
  swaps := by
    intro task htask
    rcases List.mem_append.mp htask with htask | htask
    · exact h.swaps task htask
    · rw [List.mem_singleton.mp htask]
      exact Task.noConfusion
  once := by
    rw [countP_concat]
    exact h.once
  closes := fun hc he => (h.closes hc he).imp_right Any.concat
  deletes := fun hc => (h.deletes hc).imp_right Any.concat

theorem any_set_append {k : Task → Bool} {tasks started : List Task} {i : ℕ} {task task' : Task}
    (h : Any (fun x => k x = true) tasks) (hi : tasks[i]? = some task) (hk : k task = false) :
    Any (fun x => k x = true) (tasks.set i task' ++ started) := by
  rcases h.set_or hi task' with htask | ⟨x, hx, hkx⟩
  · rw [hk] at htask
    cases htask
  · exact ⟨x, List.mem_append_left started hx, hkx⟩

theorem any_of_started {k : Task → Bool} {tasks started : List Task} {i : ℕ} {task task' : Task}
    (hi : tasks[i]? = some task) (h : ∃ x ∈ task' :: started, k x = true) :
    Any (fun x => k x = true) (tasks.set i task' ++ started) := by
  obtain ⟨x, hx, hk⟩ := h
  refine ⟨x, ?_, hk⟩
  rcases List.mem_cons.mp hx with rfl | hx
  · exact List.mem_append_left _ (List.mem_set (List.getElem?_eq_some_iff.mp hi).1 x)
  · exact List.mem_append_right _ hx

theorem Tracked.closeOnce_eq_false {task : Task} (h : Tracked s) (hmem : task ∈ s.tasks)
    (hsafe : task.isSafeClose = true) : s.closeOnce = false := by
  have hpos : 0 < s.tasks.countP Task.isSafeClose := List.countP_pos_iff.mpr ⟨task, hmem, hsafe⟩
  have hcount := h.once
  have hle : (if s.state = .closed then 1 else 0) ≤ 1 := by split_ifs <;> omega
  cases hcloseOnce : s.closeOnce with
  | false => rfl
  | true =>
    rw [hcloseOnce, Bool.toNat_true] at hcount
    omega

theorem Tracked.advance {i : ℕ} {async : Bool} {task task' : Task} {started : List Task}
    (h : Tracked s) (hi : s.tasks[i]? = some task)
    (hadvance : s.advance async task = some (t, task', started)) :
    Tracked { t with tasks := s.tasks.set i task' ++ started } := by
  have hmem := List.mem_of_getElem? hi
  have hstep := advance_taskStep (h.swaps task hmem) (h.closeOnce_eq_false hmem) hadvance
  exact {
    follows := by
      dsimp only
      rw [hstep.dial, hstep.events]
      exact h.follows
    assigned := by
      dsimp only
      rw [hstep.dial, hstep.events, hstep.conn]
      exact h.assigned
    handled := by
      dsimp only
      rw [hstep.dial, hstep.events, hstep.dialed]
      exact fun hd => (h.handled hd).imp_left hstep.closed
    swaps := by
      intro x hx
      rcases List.mem_append.mp hx with hx | hx
      · exact forall_mem_set h.swaps (hstep.swaps task' List.mem_cons_self) x hx
      · exact hstep.swaps x (List.mem_cons_of_mem task' hx)
    once := by
      have hbefore := h.once
      have hset := countP_set_add (b := task') hi Task.isSafeClose
      have hmoves := hstep.once
      have hcons : (task' :: started).countP Task.isSafeClose =
          started.countP Task.isSafeClose + task'.isSafeClose.toNat := by
        rw [List.countP_cons]
        cases task'.isSafeClose <;> rfl
      dsimp only
      rw [List.countP_append]
      omega
    closes := by
      dsimp only
      rw [hstep.events]
      intro hc he
      rcases hstep.closes hc with hclosed | hstarted | ⟨hbefore, hunassigned⟩
      · exact .inl hclosed
      · exact .inr (any_of_started hi hstarted)
      · have hconn := h.assigned (.inr he)
        have htask : task.closes = false := by
          refine Bool.eq_false_iff.mpr fun hk => ?_
          rw [hunassigned hk] at hconn
          cases hconn
        exact (h.closes hbefore he).imp hstep.closed fun hany => any_set_append hany hi htask
    deletes := by
      intro hc
      rcases hstep.deletes hc with hdeleted | hstarted | ⟨hbefore, htask⟩
      · exact .inl hdeleted
      · exact .inr (any_of_started hi hstarted)
      · exact (h.deletes hbefore).imp hstep.deleted fun hany => any_set_append hany hi htask }

theorem Tracked.moves (h : Tracked s) (htasks : t.tasks = s.tasks)
    (hstate : t.state = .closed ↔ s.state = .closed) (honce : t.closeOnce = s.closeOnce)
    (hclosed : s.closed = true → t.closed = true)
    (hdeleted : s.localConns = false → t.localConns = false)
    (hevents : t.state = .closed → t.events ≠ [] → s.events ≠ [])
    (hfollows : t.dial.Follows t.events)
    (hassigned : t.dial.assigned = true ∨ t.events ≠ [] → t.conn = true)
    (hhandled : t.dialed = true → t.closed = true ∨ t.events ≠ [] ∨ t.dial.handles = true) :
    Tracked t where
  follows := hfollows
  assigned := hassigned
  handled := hhandled
  swaps := htasks ▸ h.swaps
  once := by
    rw [htasks, honce, h.once]
    simp only [hstate]
  closes := by
    intro hc he
    rw [htasks]
    exact (h.closes (hstate.mp hc) (hevents hc he)).imp_left hclosed
  deletes := by
    intro hc
    rw [htasks]
    exact (h.deletes (hstate.mp hc)).imp_left hdeleted

theorem Tracked.establish {ok : Bool} (h : Tracked s) (hstep : s.establish ok = some t) :
    Tracked t := by
  have hfollows := h.follows
  have hassigned := h.assigned
  have hhandled := h.handled
  unfold State.establish at hstep
  cases hdial : s.dial <;> rw [hdial] at hstep hfollows hassigned hhandled
  case dial =>
    dsimp only at hstep
    split_ifs at hstep <;> cases hstep
    · exact h.moves rfl Iff.rfl rfl id id (fun _ he => he) hfollows hassigned
        fun _ => .inr (.inr rfl)
    · have hdone : Tracked { s with dial := .done } :=
        h.moves rfl Iff.rfl rfl id id (fun _ he => he) (.inl hfollows) hassigned hhandled
      exact hdone.calls
  case checkSession | checkClosing =>
    cases hstep
    split_ifs <;> exact h.moves rfl Iff.rfl rfl id id (fun _ he => he) hfollows hassigned hhandled
  case assign =>
    cases hstep
    exact h.moves rfl Iff.rfl rfl id id (fun _ he => he) hfollows (fun _ => rfl) hhandled
  case recheckClosing =>
    have hconn : s.conn = true := hassigned (.inl rfl)
    cases hstep
    split_ifs <;>
      exact h.moves rfl Iff.rfl rfl id id (fun _ he => he) hfollows (fun _ => hconn) hhandled
  case activate =>
    have hconn : s.conn = true := hassigned (.inl rfl)
    dsimp only at hstep
    split_ifs at hstep with hpending <;> cases hstep
    · -- the state was Pending, so nobody has begun to close the connection
      refine h.moves rfl ?_ rfl id id (fun hc => by cases hc) ?_ (fun _ => hconn) fun _ => ?_
      · simp [hpending]
      · rw [hfollows]
        rfl
      · simp
    · exact h.moves rfl Iff.rfl rfl id id (fun _ he => he) hfollows (fun _ => hconn) hhandled
  case startReader =>
    have hopen : s.events ≠ [] := by
      rw [hfollows]
      decide
    cases hstep
    refine h.moves rfl Iff.rfl rfl id id (fun _ _ => hopen) ?_ (fun _ => hassigned (.inr hopen))
      fun _ => ?_
    · rw [hfollows]
      rfl
    · simp
  case startWriter =>
    have hopen : s.events ≠ [] := by
      rw [hfollows]
      decide
    cases hstep
    refine h.moves rfl Iff.rfl rfl id id (fun _ _ => hopen) (.inr ?_)
      (fun _ => hassigned (.inr hopen)) fun _ => ?_
    · rw [hfollows]
      rfl
    · simp
  case close next =>
    cases next with
    | transitionToClosed =>
      cases hstep
      have hdone : Tracked { s with closed := true, dial := .done } :=
        h.moves rfl Iff.rfl rfl (fun _ => rfl) id (fun _ he => he) (.inl hfollows) hassigned
          fun _ => .inl rfl
      exact hdone.calls
    | delete =>
      cases hstep
      exact h.moves rfl Iff.rfl rfl (fun _ => rfl) id (fun _ he => he) hfollows hassigned
        fun _ => .inl rfl
    | returns =>
      cases hstep
      exact h.moves rfl Iff.rfl rfl (fun _ => rfl) id (fun _ he => he) (.inl hfollows) hassigned
        fun _ => .inl rfl
  case delete =>
    cases hstep
    exact h.moves rfl Iff.rfl rfl id (fun _ => rfl) (fun _ he => he) (.inl hfollows) hassigned
      hhandled
  case done => cases hstep

theorem Tracked.step {a : Action} (h : Tracked s) (hstep : LocalDial.step s a = some t) :
    Tracked t := by
  cases a with
  | establish ok => exact h.establish hstep
  | transitionToClosed =>
    cases hstep
    exact h.calls
  | drain =>
    rw [LocalDial.step] at hstep
    split_ifs at hstep with hactive
    cases hstep
    refine h.moves rfl ?_ rfl id id (fun _ he => he) h.follows h.assigned h.handled
    simp [hactive]
  | advance i async =>
    rw [LocalDial.step] at hstep
    split at hstep
    · next task hi =>
      obtain ⟨⟨u, task', started⟩, hadvance, rfl⟩ := Option.map_eq_some_iff.mp hstep
      exact h.advance hi hadvance
    · cases hstep

/-- `establishLocalConnection` has returned, and so has every task. -/
def Finished (s : State) : Prop := s.dial = .done ∧ ∀ task ∈ s.tasks, task = .done

instance decidableFinished (s : State) : Decidable (Finished s) :=
  inferInstanceAs (Decidable (s.dial = .done ∧ ∀ task ∈ s.tasks, task = .done))

theorem Finished.not_any {k : Task → Bool} (h : Finished s) (hk : k .done = false) :
    ¬ Any (fun task => k task = true) s.tasks := by
  rintro ⟨task, htask, hkind⟩
  rw [h.2 task htask, hk] at hkind
  cases hkind

/-- Whatever the interleaving: once every call has returned, a connection that is Closed has left
the map and its socket is closed; and the pumps are started once, after the swap. -/
theorem local_connection_not_leaked {trace : List Action} (hrun : run step init trace = some t) :
    (Finished t → t.state = .closed →
      (t.dialed = true → t.closed = true) ∧ t.localConns = false) ∧
    t.events <+: [.activated, .copyLocalToNexus, .writeToLocal] := by
  have h : Tracked t := invariant_run (fun _ _ _ hI hs => hI.step hs) tracked_init hrun
  constructor
  · intro hfinished hclosed
    constructor
    · intro hdialed
      by_cases hopen : t.events = []
      · rcases h.handled hdialed with hsocket | hevents | hhandles
        · exact hsocket
        · exact absurd hopen hevents
        · rw [hfinished.1] at hhandles
          cases hhandles
      · exact (h.closes hclosed hopen).resolve_right (hfinished.not_any rfl)
    · exact (h.deletes hclosed).resolve_right (hfinished.not_any rfl)
  · exact h.follows.pumps

/-- The connection is closed while the dial is under way, and the closer looks for the socket
before it is published. -/
def closedBeforeAssign : List Action :=
  List.replicate 3 (.establish true) ++ [.transitionToClosed] ++
    List.replicate 7 (.advance 0 true) ++ [.advance 1 true] ++ List.replicate 4 (.establish true)

theorem local_connection_not_leaked_closed :
    ∃ t, run step init closedBeforeAssign = some t ∧
      (t.dialed = true ∧ t.closed = true ∧ t.localConns = false) ∧
      t.events <+: [.activated, .copyLocalToNexus, .writeToLocal] := by
  obtain ⟨t, hrun, hfinished, hclosed, hdialed⟩ : ∃ t, run step init closedBeforeAssign = some t ∧
      (Finished t ∧ t.state = .closed ∧ t.dialed = true) := exists_run_of_any (by decide +kernel)
  obtain ⟨hleak, hevents⟩ := local_connection_not_leaked hrun
  obtain ⟨hsocket, hdeleted⟩ := hleak hfinished hclosed
  exact ⟨t, hrun, ⟨hdialed, hsocket hdialed, hdeleted⟩, hevents⟩

end NexusProxy.Client.LocalDial
