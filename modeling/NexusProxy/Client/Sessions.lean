import NexusProxy.Lib.Collections
import NexusProxy.Lib.Transition

/-! Sessions of the client one after the other: the pumps of the current one, the manager that
ends it and begins the next, and the goroutines of connections, whose messages all go through the
one control queue. -/
namespace NexusProxy.Client.Sessions
open Transition Collections

def controlQueueSize : ℕ := 64

inductive Kind where
  | disconnect
  | resumeStream
  | credits
  deriving DecidableEq

/-- A message about a connection, which stands for its client id. -/
structure Message where
  kind : Kind
  conn : ℕ
  deriving DecidableEq

/-- `created` is history, the session whose read pump made the connection; `session` is what
`activeSession.Load` returned then. -/
structure Conn where
  created : ℕ
  session : Option ℕ
  deriving DecidableEq

/-- What sends a message about a connection: `finalize` of `transitionToClosed`, the disconnect of
`establishLocalConnection`, the resume and the credits of `writeToLocal`, and the initial grant of
the read pump. -/
inductive Task where
  | finalize
  | establish
  | resume
  | flushForwardCredits
  | grant
  deriving DecidableEq

def Task.kind : Task → Kind
  | .finalize | .establish => .disconnect
  | .resume => .resumeStream
  | .flushForwardCredits | .grant => .credits

/-- A goroutine looks at the session of its connection, then `enqueue` loads the active session,
looks at it and selects. -/
inductive Phase where
  | checking
  | loading
  | loaded (session : Option ℕ)
  | pushing
  | done
  deriving DecidableEq

/-- Only the resume and the grant go straight to `enqueueControl`. -/
def Task.first : Task → Phase
  | .finalize | .establish | .flushForwardCredits => .checking
  | .resume | .grant => .loading

structure Goroutine where
  conn : ℕ
  task : Task
  phase : Phase
  deriving DecidableEq

/-- The write pump runs or is in its deferred function. -/
inductive WritePump where
  | running
  | stopping
  | closing
  | closed
  | clearing
  | exited
  deriving DecidableEq

inductive ReadPump where
  | idle
  | granting (i : ℕ)
  | exited
  deriving DecidableEq

/-- The manager waits for the pumps, clears the queue, or is between two sessions. -/
inductive Manager where
  | waiting
  | clearing
  | offline
  deriving DecidableEq

/-- `connected` and `done` are those of the current session; earlier ones are over. `written` is
history: what went out, and on which session's WebSocket. -/
structure State where
  current : ℕ
  activeSession : Option ℕ
  connected : Bool
  done : Bool
  writePump : WritePump
  readPump : ReadPump
  manager : Manager
  conns : List Conn
  goroutines : List Goroutine
  controlSend : List Message
  written : List (ℕ × Message)
  deriving DecidableEq

inductive Action where
  | beginSession
  | connect
  | granted
  | spawn (conn : ℕ) (task : Task)
  | check (i : ℕ)
  | load (i : ℕ)
  | checkActive (i : ℕ)
  | push (i : ℕ)
  | giveUp (i : ℕ)
  | write (ok : Bool)
  | stop
  | disconnected
  | closeDone
  | deactivate
  | drain
  | exitWrite
  | exitRead
  | wait
  | cleared
  deriving DecidableEq

namespace State

def start : State where
  current := 0
  activeSession := none
  connected := false
  done := true
  writePump := .exited
  readPump := .exited
  manager := .offline
  conns := []
  goroutines := []
  controlSend := []
  written := []

def isConnected (s : State) (session : Option ℕ) : Bool :=
  session == some s.current && s.connected

/-- A receive from `Done` finds it closed; that of a nil session never is. -/
def isDone (s : State) (session : Option ℕ) : Bool :=
  session.any fun n => decide (n ≠ s.current) || s.done

/-- The liveness check of a goroutine, on the session of its connection. -/
def alive (s : State) (task : Task) (conn : Conn) : Bool :=
  match task with
  | .finalize => conn.session.isSome && !s.isDone conn.session
  | _ => s.isConnected conn.session

def setPhase (s : State) (i : ℕ) (g : Goroutine) (phase : Phase) : State :=
  { s with goroutines := s.goroutines.set i { g with phase := phase } }

def goroutineStep (s : State) : Action → Option State
  | .spawn conn task =>
      if conn < s.conns.length ∧ task ≠ .grant then
        some { s with goroutines := s.goroutines ++ [⟨conn, task, task.first⟩] }
      else none
  | .check i =>
      match s.goroutines[i]? with
      | some g =>
          if g.phase = .checking then
            match s.conns[g.conn]? with
            | some conn =>
                if s.alive g.task conn then
                  some (s.setPhase i g (if g.task = .flushForwardCredits then .pushing
                    else .loading))
                else some (s.setPhase i g .done)
            | none => none
          else none
      | none => none
  | .load i =>
      match s.goroutines[i]? with
      | some g =>
          if g.phase = .loading then some (s.setPhase i g (.loaded s.activeSession)) else none
      | none => none
  | .checkActive i =>
      match s.goroutines[i]? with
      | some g =>
          match g.phase with
          | .loaded session =>
              some (s.setPhase i g (if s.isConnected session then .pushing else .done))
          | _ => none
      | none => none
  -- a select with room in the queue may push even when the session is over
  | .push i =>
      match s.goroutines[i]? with
      | some g =>
          if g.phase = .pushing ∧ s.controlSend.length < controlQueueSize then
            some { s.setPhase i g .done with
              controlSend := s.controlSend ++ [⟨g.task.kind, g.conn⟩] }
          else none
      | none => none
  | .giveUp i =>
      match s.goroutines[i]? with
      | some g => if g.phase = .pushing then some (s.setPhase i g .done) else none
      | none => none
  | _ => none

def pumpStep (s : State) : Action → Option State
  | .connect =>
      if s.readPump = .idle then
        some { s with
          conns := s.conns ++ [⟨s.current, s.activeSession⟩]
          goroutines := s.goroutines ++ [⟨s.conns.length, .grant, Task.first .grant⟩]
          readPump := .granting s.goroutines.length }
      else none
  | .granted =>
      match s.readPump with
      | .granting i =>
          if (s.goroutines[i]?).all (fun g => g.phase = .done) then
            some { s with readPump := .idle }
          else none
      | _ => none
  | .exitRead => if s.readPump = .idle then some { s with readPump := .exited } else none
  | .write ok =>
      match s.controlSend with
      | m :: rest =>
          if s.writePump = .running then
            if ok then some { s with controlSend := rest, written := s.written ++ [(s.current, m)] }
            else some { s with controlSend := rest, writePump := .stopping }
          else none
      | [] => none
  | .stop => if s.writePump = .running then some { s with writePump := .stopping } else none
  | .disconnected =>
      if s.writePump = .stopping then some { s with connected := false, writePump := .closing }
      else none
  | .closeDone =>
      if s.writePump = .closing then some { s with done := true, writePump := .closed } else none
  | .deactivate =>
      if s.writePump = .closed then
        some { s with activeSession := none, writePump := .clearing }
      else none
  | .exitWrite =>
      if s.writePump = .clearing ∧ s.controlSend = [] then some { s with writePump := .exited }
      else none
  | _ => none

def managerStep (s : State) : Action → Option State
  | .beginSession =>
      if s.manager = .offline then
        some { s with
          current := s.current + 1
          activeSession := some (s.current + 1)
          connected := true
          done := false
          writePump := .running
          readPump := .idle
          manager := .waiting }
      else none
  | .wait =>
      if s.manager = .waiting ∧ s.writePump = .exited ∧ s.readPump = .exited then
        some { s with manager := .clearing }
      else none
  | .drain =>
      match s.controlSend with
      | _ :: rest =>
          if s.writePump = .clearing ∨ s.manager = .clearing then
            some { s with controlSend := rest }
          else none
      | [] => none
  | .cleared =>
      if s.manager = .clearing ∧ s.controlSend = [] then some { s with manager := .offline }
      else none
  | _ => none

def step (s : State) (a : Action) : Option State :=
  (goroutineStep s a).or ((pumpStep s a).or (managerStep s a))

def CreatedIn (s : State) (conn session : ℕ) : Prop :=
  (s.conns[conn]?).map Conn.created = some session

instance (s : State) (conn session : ℕ) : Decidable (s.CreatedIn conn session) :=
  inferInstanceAs (Decidable (_ = _))

/-- A goroutine of a connection puts its message into the queue while the client is in the session
of the connection, and the manager has not yet cleared the queue after it. -/
def InSession (s : State) : Action → Prop
  | .push i => ∀ g ∈ s.goroutines[i]?, g.task ≠ .grant →
      s.CreatedIn g.conn s.current ∧ s.manager ≠ .offline
  | _ => True

instance (s : State) (a : Action) : Decidable (s.InSession a) := by
  cases a <;> unfold InSession <;> infer_instance

/-- What a step does to the queue, the connections and the history. -/
inductive Effect (s : State) : State → Prop where
  /-- A goroutine goes on without a push. -/
  | moves {i : ℕ} {g : Goroutine} (hi : s.goroutines[i]? = some g) (hphase : g.phase ≠ .done)
      (phase : Phase) : Effect s (s.setPhase i g phase)
  | pushes {i : ℕ} {g : Goroutine} (hi : s.goroutines[i]? = some g) (hphase : g.phase ≠ .done)
      (hguard : g.task ≠ .grant → s.CreatedIn g.conn s.current ∧ s.manager ≠ .offline) :
      Effect s { s.setPhase i g .done with
        controlSend := s.controlSend ++ [⟨g.task.kind, g.conn⟩] }
  | spawns (g : Goroutine) (htask : g.task ≠ .grant) :
      Effect s { s with goroutines := s.goroutines ++ [g] }
  | connects (hidle : s.readPump = .idle) : Effect s { s with
      conns := s.conns ++ [⟨s.current, s.activeSession⟩]
      goroutines := s.goroutines ++ [⟨s.conns.length, .grant, .loading⟩]
      readPump := .granting s.goroutines.length }
  | grants {i : ℕ} (hreader : s.readPump = .granting i)
      (hdone : ∀ g ∈ s.goroutines[i]?, g.phase = .done) : Effect s { s with readPump := .idle }
  | exitsRead (hidle : s.readPump = .idle) : Effect s { s with readPump := .exited }
  | writes {m : Message} {rest : List Message} (hqueue : s.controlSend = m :: rest) :
      Effect s { s with controlSend := rest, written := s.written ++ [(s.current, m)] }
  /-- Messages are removed, and the write pump goes on. -/
  | drops (rest : List Message) (hsub : ∀ m ∈ rest, m ∈ s.controlSend) (activeSession : Option ℕ)
      (connected done : Bool) (writePump : WritePump) : Effect s { s with
        controlSend := rest, activeSession := activeSession, connected := connected, done := done
        writePump := writePump }
  | waits (hreader : s.readPump = .exited) (hwaiting : s.manager = .waiting) :
      Effect s { s with manager := .clearing }
  | clears (hqueue : s.controlSend = []) (hclearing : s.manager = .clearing) :
      Effect s { s with manager := .offline }
  | begins (hoffline : s.manager = .offline) : Effect s { s with
      current := s.current + 1
      activeSession := some (s.current + 1)
      connected := true
      done := false
      writePump := .running
      readPump := .idle
      manager := .waiting }

variable {s t : State}

theorem goroutineStep_effect {a : Action} (hguard : s.InSession a)
    (h : s.goroutineStep a = some t) : Effect s t := by
  cases a with
  | spawn conn task =>
    simp only [goroutineStep, Option.ite_none_right_eq_some, Option.some.injEq] at h
    obtain ⟨⟨-, htask⟩, rfl⟩ := h
    exact .spawns _ htask
  | check i =>
    rw [goroutineStep] at h
    split at h
    · next g hi =>
      simp only [Option.ite_none_right_eq_some] at h
      obtain ⟨hphase, h⟩ := h
      have hne : g.phase ≠ .done := by simp [hphase]
      split at h
      · split_ifs at h <;> exact Option.some.inj h ▸ .moves hi hne _
      · cases h
    · cases h
  | load i =>
    rw [goroutineStep] at h
    split at h
    · next g hi =>
      simp only [Option.ite_none_right_eq_some, Option.some.injEq] at h
      obtain ⟨hphase, rfl⟩ := h
      exact .moves hi (by simp [hphase]) _
    · cases h
  | checkActive i =>
    rw [goroutineStep] at h
    split at h
    · next g hi =>
      split at h
      · next hphase => exact Option.some.inj h ▸ .moves hi (by simp [hphase]) _
      · cases h
    · cases h
  | push i =>
    rw [goroutineStep] at h
    split at h
    · next g hi =>
      simp only [Option.ite_none_right_eq_some, Option.some.injEq] at h
      obtain ⟨⟨hphase, -⟩, rfl⟩ := h
      exact .pushes hi (by simp [hphase]) (hguard g hi)
    · cases h
  | giveUp i =>
    rw [goroutineStep] at h
    split at h
    · next g hi =>
      simp only [Option.ite_none_right_eq_some, Option.some.injEq] at h
      obtain ⟨hphase, rfl⟩ := h
      exact .moves hi (by simp [hphase]) _
    · cases h
  | _ => cases h

theorem pumpStep_effect {a : Action} (h : s.pumpStep a = some t) : Effect s t := by
  cases a with
  | connect =>
    simp only [pumpStep, Option.ite_none_right_eq_some, Option.some.injEq] at h
    obtain ⟨hidle, rfl⟩ := h
    exact .connects hidle
  | granted =>
    rw [pumpStep] at h
    split at h
    · next i hreader =>
      simp only [Option.ite_none_right_eq_some, Option.some.injEq] at h
      obtain ⟨hdone, rfl⟩ := h
      refine .grants hreader fun g hg => ?_
      rw [Option.mem_def.mp hg] at hdone
      simpa using hdone
    · cases h
  | exitRead =>
    simp only [pumpStep, Option.ite_none_right_eq_some, Option.some.injEq] at h
    obtain ⟨hidle, rfl⟩ := h
    exact .exitsRead hidle
  | write ok =>
    rw [pumpStep] at h
    split at h
    · next m rest hqueue =>
      simp only [Option.ite_none_right_eq_some] at h
      obtain ⟨-, h⟩ := h
      split_ifs at h <;> cases h
      · exact .writes hqueue
      · exact .drops rest (fun m hm => by rw [hqueue]; exact List.mem_cons_of_mem _ hm) _ _ _ _
    · cases h
  | stop | disconnected | closeDone | deactivate | exitWrite =>
    simp only [pumpStep, Option.ite_none_right_eq_some, Option.some.injEq] at h
    obtain ⟨-, rfl⟩ := h
    exact .drops s.controlSend (fun _ hm => hm) _ _ _ _
  | _ => cases h

theorem managerStep_effect {a : Action} (h : s.managerStep a = some t) : Effect s t := by
  cases a with
  | beginSession =>
    simp only [managerStep, Option.ite_none_right_eq_some, Option.some.injEq] at h
    obtain ⟨hoffline, rfl⟩ := h
    exact .begins hoffline
  | wait =>
    simp only [managerStep, Option.ite_none_right_eq_some, Option.some.injEq] at h
    obtain ⟨⟨hwaiting, -, hreader⟩, rfl⟩ := h
    exact .waits hreader hwaiting
  | drain =>
    rw [managerStep] at h
    split at h
    · next rest hqueue =>
      simp only [Option.ite_none_right_eq_some, Option.some.injEq] at h
      obtain ⟨-, rfl⟩ := h
      exact .drops rest (fun m hm => by rw [hqueue]; exact List.mem_cons_of_mem _ hm) _ _ _ _
    · cases h
  | cleared =>
    simp only [managerStep, Option.ite_none_right_eq_some, Option.some.injEq] at h
    obtain ⟨⟨hclearing, hqueue⟩, rfl⟩ := h
    exact .clears hqueue hclearing
  | _ => cases h

theorem step_effect {a : Action} (hguard : s.InSession a) (h : s.step a = some t) :
    Effect s t := by
  rw [step] at h
  simp only [Option.or_eq_some_iff] at h
  rcases h with h | ⟨-, h | ⟨-, h⟩⟩
  · exact goroutineStep_effect hguard h
  · exact pumpStep_effect h
  · exact managerStep_effect h

section Invariant

/-- What is queued belongs to the current session, the queue is empty between two sessions, and
the read pump stays until its grant is queued. -/
structure Separated (s : State) : Prop where
  queued : ∀ m ∈ s.controlSend, s.CreatedIn m.conn s.current
  cleared : s.manager = .offline → s.controlSend = []
  written : ∀ e ∈ s.written, s.CreatedIn e.2.conn e.1
  grants : ∀ i g, s.goroutines[i]? = some g → g.task = .grant → g.phase ≠ .done →
    s.readPump = .granting i ∧ s.CreatedIn g.conn s.current
  reader : s.manager ≠ .waiting → s.readPump = .exited

theorem start_separated : start.Separated where
  queued _ h := nomatch h
  cleared _ := rfl
  written _ h := nomatch h
  grants i g h := by simp [start] at h
  reader _ := rfl

theorem CreatedIn.concat {conn session : ℕ} (h : s.CreatedIn conn session) (c : Conn)
    (ht : t.conns = s.conns ++ [c]) : t.CreatedIn conn session := by
  obtain ⟨c', hc', hcreated⟩ := Option.map_eq_some_iff.mp h
  have hlt : conn < s.conns.length := (List.getElem?_eq_some_iff.mp hc').1
  rw [CreatedIn, ht, List.getElem?_append_left hlt, hc']
  exact congrArg some hcreated

theorem Separated.grants_set (h : s.Separated) {i : ℕ} {g : Goroutine} {phase : Phase}
    (hi : s.goroutines[i]? = some g) (hphase : g.phase ≠ .done) :
    ∀ j g', (s.goroutines.set i { g with phase := phase })[j]? = some g' → g'.task = .grant →
      g'.phase ≠ .done → s.readPump = .granting j ∧ s.CreatedIn g'.conn s.current := by
  intro j g' hj htask hne
  by_cases hji : j = i
  · subst hji
    have hlt : j < s.goroutines.length := (List.getElem?_eq_some_iff.mp hi).1
    rw [List.getElem?_set_self hlt, Option.some.injEq] at hj
    subst hj
    exact h.grants j g hi htask hphase
  · rw [List.getElem?_set_ne (Ne.symm hji)] at hj
    exact h.grants j g' hj htask hne

theorem Separated.granted (h : s.Separated) (hreader : ∀ i, s.readPump ≠ .granting i) {i : ℕ}
    {g : Goroutine} (hi : s.goroutines[i]? = some g) (htask : g.task = .grant) :
    g.phase = .done := by
  by_contra hne
  exact hreader i (h.grants i g hi htask hne).1

theorem Separated.waiting (h : s.Separated) (hreader : s.readPump ≠ .exited) :
    s.manager = .waiting := by
  by_contra hmanager
  exact hreader (h.reader hmanager)

/-- Whoever pushes, the message belongs to the current session, and it will be cleared. -/
theorem Separated.push_in_session (h : s.Separated) {i : ℕ} {g : Goroutine}
    (hi : s.goroutines[i]? = some g) (hphase : g.phase ≠ .done)
    (hguard : g.task ≠ .grant → s.CreatedIn g.conn s.current ∧ s.manager ≠ .offline) :
    s.CreatedIn g.conn s.current ∧ s.manager ≠ .offline := by
  by_cases htask : g.task = .grant
  · obtain ⟨hreader, hcreated⟩ := h.grants i g hi htask hphase
    have hwaiting : s.manager = .waiting := h.waiting (by simp [hreader])
    exact ⟨hcreated, by simp [hwaiting]⟩
  · exact hguard htask

theorem Separated.connects (h : s.Separated) (hidle : s.readPump = .idle) :
    Separated { s with
      conns := s.conns ++ [⟨s.current, s.activeSession⟩]
      goroutines := s.goroutines ++ [⟨s.conns.length, .grant, .loading⟩]
      readPump := .granting s.goroutines.length } where
  queued m hm := (h.queued m hm).concat _ rfl
  cleared := h.cleared
  written e he := (h.written e he).concat _ rfl
  grants j g hj htask hne := by
    by_cases hlt : j < s.goroutines.length
    · rw [List.getElem?_append_left hlt] at hj
      exact absurd (h.granted (by simp [hidle]) hj htask) hne
    · rw [List.getElem?_append_right (not_lt.mp hlt), List.getElem?_singleton] at hj
      split_ifs at hj with hj0
      obtain rfl := Option.some.inj hj
      have hjlen : j = s.goroutines.length := by omega
      exact ⟨by rw [hjlen], by simp [CreatedIn]⟩
  reader hmanager := absurd (h.waiting (by simp [hidle])) hmanager

theorem Separated.effect (h : s.Separated) (heffect : Effect s t) : t.Separated := by
  cases heffect with
  | moves hi hphase phase =>
    exact { h with grants := h.grants_set hi hphase }
  | pushes hi hphase hguard =>
    rename_i i g
    obtain ⟨hcreated, hmanager⟩ := h.push_in_session hi hphase hguard
    refine
      { h with
        queued := fun m hm => ?_
        cleared := fun hoffline => absurd hoffline hmanager
        grants := h.grants_set hi hphase }
    rcases List.mem_append.mp hm with hm | hm
    · exact h.queued m hm
    · obtain rfl := List.mem_singleton.mp hm
      exact hcreated
  | spawns g htask =>
    refine { h with grants := fun j g' hj htask' hne => ?_ }
    by_cases hlt : j < s.goroutines.length
    · rw [List.getElem?_append_left hlt] at hj
      exact h.grants j g' hj htask' hne
    · rw [List.getElem?_append_right (not_lt.mp hlt), List.getElem?_singleton] at hj
      split_ifs at hj
      exact absurd (Option.some.inj hj ▸ htask') htask
  | connects hidle => exact h.connects hidle
  | grants hreader hdone =>
    rename_i i
    refine { h with grants := fun j g' hj htask hne => ?_, reader := fun hmanager => ?_ }
    · obtain ⟨hgranting, -⟩ := h.grants j g' hj htask hne
      rw [hreader, ReadPump.granting.injEq] at hgranting
      subst hgranting
      exact absurd (hdone g' hj) hne
    · exact absurd (h.waiting (by simp [hreader])) hmanager
  | exitsRead hidle =>
    refine { h with grants := fun j g' hj htask hne => ?_, reader := fun _ => rfl }
    exact absurd (h.granted (by simp [hidle]) hj htask) hne
  | writes hqueue =>
    rename_i m rest
    refine
      { h with
        queued := fun m' hm' => h.queued m' (by rw [hqueue]; exact List.mem_cons_of_mem _ hm')
        cleared := fun hoffline => ?_
        written := fun e he => ?_ }
    · have hempty := h.cleared hoffline
      rw [hqueue] at hempty
      cases hempty
    · rcases List.mem_append.mp he with he | he
      · exact h.written e he
      · obtain rfl := List.mem_singleton.mp he
        exact h.queued m (by rw [hqueue]; exact List.mem_cons_self)
  | drops rest hsub activeSession connected done writePump =>
    refine
      { h with
        queued := fun m hm => h.queued m (hsub m hm)
        cleared := fun hoffline => ?_ }
    refine List.eq_nil_iff_forall_not_mem.mpr fun m hm => ?_
    have hmem := hsub m hm
    rw [h.cleared hoffline] at hmem
    cases hmem
  | waits hreader hwaiting =>
    exact { h with cleared := fun hoffline => (nomatch hoffline), reader := fun _ => hreader }
  | clears hqueue hclearing =>
    exact { h with cleared := fun _ => hqueue, reader := fun _ => h.reader (by simp [hclearing]) }
  | begins hoffline =>
    have hempty := h.cleared hoffline
    have hexited := h.reader (by simp [hoffline])
    refine
      { h with
        queued := fun m hm => ?_
        cleared := fun hoffline => (nomatch hoffline)
        grants := fun j g' hj htask hne => ?_
        reader := fun hmanager => absurd rfl hmanager }
    · dsimp only at hm
      rw [hempty] at hm
      cases hm
    · exact absurd (h.granted (by simp [hexited]) hj htask) hne

/-- If the goroutines of connections push only in the session of their connection and before the
queue is cleared, whatever is written on a session's WebSocket is about a connection of it. -/
theorem no_frame_crosses {as : List Action} (hin : Along step InSession start as)
    (hrun : run step start as = some s) : ∀ e ∈ s.written, s.CreatedIn e.2.conn e.1 := by
  have h : s.Separated :=
    invariant_along (fun _ _ _ hI hG hs => hI.effect (step_effect hG hs)) start_separated hin hrun
  exact h.written

end Invariant

/-- A session begins, and its read pump makes a connection and grants it credits. -/
def opened (grant : ℕ) : List Action :=
  [.beginSession, .connect, .load grant, .checkActive grant, .push grant, .granted]

/-- The pumps exit and the manager clears the queue. -/
def ended : List Action :=
  [.stop, .disconnected, .closeDone, .deactivate, .exitWrite, .exitRead, .wait, .cleared]

/-- Two sessions, with a connection each that sends its messages in time. -/
def twoSessions : List Action :=
  opened 0 ++ [.spawn 0 .resume, .load 1, .checkActive 1, .push 1, .write true, .write true,
    .spawn 0 .finalize, .check 2, .load 2, .checkActive 2, .push 2, .write true] ++ ended ++
  opened 3 ++ [.spawn 1 .flushForwardCredits, .check 4, .push 4, .write true, .write true]

theorem twoSessions_separate : ∃ s, run step start twoSessions = some s ∧
    s.written = [(1, ⟨.credits, 0⟩), (1, ⟨.resumeStream, 0⟩), (1, ⟨.disconnect, 0⟩),
      (2, ⟨.credits, 1⟩), (2, ⟨.credits, 1⟩)] ∧
    ∀ e ∈ s.written, s.CreatedIn e.2.conn e.1 := by
  have hin : Along step InSession start twoSessions := by decide +kernel
  have hrun : ∃ s, run step start twoSessions = some s ∧
      s.written = [(1, ⟨.credits, 0⟩), (1, ⟨.resumeStream, 0⟩), (1, ⟨.disconnect, 0⟩),
        (2, ⟨.credits, 1⟩), (2, ⟨.credits, 1⟩)] :=
    exists_run_of_any (by decide +kernel)
  obtain ⟨s, hs, hwritten⟩ := hrun
  exact ⟨s, hs, hwritten, no_frame_crosses hin hs⟩

/-- A goroutine of the first session's connection makes some steps in that session and the others
in the next one. -/
def crossing (before after : List Action) : List Action :=
  opened 0 ++ [.write true] ++ before ++ ended ++ [.beginSession] ++ after ++ [.write true]

/-- Each of the four senders writes on the second session: three of them pass their checks in the
first one, and the resume looks at no session but the active one. -/
theorem stale_frames_cross :
    (∃ s, run step start
        (crossing [.spawn 0 .finalize, .check 1, .load 1, .checkActive 1] [.push 1]) = some s ∧
      (2, ⟨.disconnect, 0⟩) ∈ s.written ∧ ¬ s.CreatedIn 0 2) ∧
    (∃ s, run step start
        (crossing [.spawn 0 .establish, .check 1, .load 1, .checkActive 1] [.push 1]) = some s ∧
      (2, ⟨.disconnect, 0⟩) ∈ s.written ∧ ¬ s.CreatedIn 0 2) ∧
    (∃ s, run step start
        (crossing [.spawn 0 .flushForwardCredits, .check 1] [.push 1]) = some s ∧
      (2, ⟨.credits, 0⟩) ∈ s.written ∧ ¬ s.CreatedIn 0 2) ∧
    ∃ s, run step start
        (crossing [] [.spawn 0 .resume, .load 1, .checkActive 1, .push 1]) = some s ∧
      (2, ⟨.resumeStream, 0⟩) ∈ s.written ∧ ¬ s.CreatedIn 0 2 :=
  ⟨exists_run_of_any (by decide +kernel), exists_run_of_any (by decide +kernel),
    exists_run_of_any (by decide +kernel), exists_run_of_any (by decide +kernel)⟩

end State

end NexusProxy.Client.Sessions
