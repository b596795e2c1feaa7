import NexusProxy.Client.LocalDial
import NexusProxy.Flow.ForwardCredits

/-! The gauges of the client's statistics. Each is adjusted by the goroutines that change what it
counts, a moment after the change: the dial, the calls of `transitionToClosed`, the read pump and
`writeToLocal`. -/
namespace NexusProxy.Client.Gauges
open Collections Transition
open Flow.ForwardCredits (FlowControl localConnWriteBuffer)
open LocalDial (ConnState)

/-- The goroutine that opens a connection and dials, by what it does next. A dial that finds the
connection closing does not get past `activate`. -/
inductive Dial where
  | countPending
  | dial
  | activate
  | uncountPending
  | countActive
  | startWriter
  | done
  deriving DecidableEq

/-- `writeToLocal`. -/
inductive Writer where
  | absent
  | select
  | write
  | check (newLevel : ℤ)
  | resume
  | uncountPaused
  | checkDraining
  | done
  deriving DecidableEq

/-- `stored` tells whether the id is in `localConns`; of the queue only the length matters. -/
structure Conn where
  isUDP : Bool
  state : ConnState
  quit : Bool
  stored : Bool
  paused : Bool
  level : ℤ
  writeCh : ℕ
  dial : Dial
  writer : Writer
  deriving DecidableEq

/-- A call of `transitionToClosed`. -/
inductive Close where
  | load
  | swap (old : ConnState)
  | uncount (old : ConnState)
  | safeClose
  | delete
  | done
  deriving DecidableEq

/-- The read pump in `handleDataMessage`, with the connection of the frame. -/
inductive Reader where
  | idle
  | raise (i : ℕ)
  | check (i : ℕ)
  | pause (i : ℕ)
  | countPaused (i : ℕ)
  | enqueue (i : ℕ)
  deriving DecidableEq

/-- What a step adds to the gauges, and whether it starts a call of `transitionToClosed`. -/
structure Delta where
  pending : ℤ := 0
  active : ℤ := 0
  paused : ℤ := 0
  closes : Bool := false

structure State where
  flow : FlowControl
  conns : List Conn
  closers : List (ℕ × Close)
  reader : Reader
  pendingConns : ℤ
  activeConns : ℤ
  pausedConns : ℤ

/-- `connect` is `EventConnect` or a SOCKS5 request, `data` a frame for a connection, `close` one
of the many reasons to call `transitionToClosed` and `drain` the swap to Draining in `Stop`. The
rest are steps of the goroutines; `ok` tells whether a dial or a write succeeds, and for a writer
in its select whether it takes a frame or sees `quit`. -/
inductive Action where
  | connect (isUDP : Bool)
  | dial (i : ℕ) (ok : Bool)
  | close (i : ℕ)
  | closer (j : ℕ)
  | drain (i : ℕ)
  | data (i : ℕ)
  | read
  | write (i : ℕ) (ok : Bool)
  deriving DecidableEq

namespace Conn

def new (isUDP : Bool) : Conn where
  isUDP := isUDP
  state := .pending
  quit := false
  stored := true
  paused := false
  level := 0
  writeCh := 0
  dial := .countPending
  writer := .absent

def dialStep (c : Conn) (ok : Bool) : Option (Conn × Delta) :=
  match c.dial with
  | .countPending => some ({ c with dial := .dial }, { pending := 1 })
  | .dial =>
      if ok then some ({ c with dial := .activate }, {})
      else some ({ c with dial := .done }, { closes := true })
  | .activate =>
      if c.state = .pending then some ({ c with state := .active, dial := .uncountPending }, {})
      else some ({ c with dial := .done }, {})
  | .uncountPending => some ({ c with dial := .countActive }, { pending := -1 })
  | .countActive => some ({ c with dial := .startWriter }, { active := 1 })
  | .startWriter => some ({ c with dial := .done, writer := .select }, {})
  | .done => none

/-- `writeToLocal` calls `transitionToClosed` whenever it returns. -/
def writerStep (c : Conn) (flow : FlowControl) (ok : Bool) : Option (Conn × Delta) :=
  match c.writer with
  | .select =>
      if ok then
        if 0 < c.writeCh then some ({ c with writeCh := c.writeCh - 1, writer := .write }, {})
        else none
      else if c.quit then some ({ c with writer := .done }, { closes := true })
      else none
  | .write =>
      if ok then
        if c.isUDP then some ({ c with writer := .checkDraining }, {})
        else some ({ c with level := c.level - 1, writer := .check (c.level - 1) }, {})
      else if c.isUDP then some ({ c with writer := .select }, {})
      else some ({ c with writer := .done }, { closes := true })
  | .check newLevel =>
      if c.paused = true ∧ newLevel ≤ flow.lowWaterMark then some ({ c with writer := .resume }, {})
      else some ({ c with writer := .checkDraining }, {})
  | .resume => some ({ c with paused := false, writer := .uncountPaused }, {})
  | .uncountPaused => some ({ c with writer := .checkDraining }, { paused := -1 })
  | .checkDraining =>
      if c.state = .draining ∧ c.writeCh = 0 then
        some ({ c with writer := .done }, { closes := true })
      else some ({ c with writer := .select }, {})
  | .absent | .done => none

/-- A draining connection was counted as active. -/
def closeStep (c : Conn) : Close → Option (Conn × Close × Delta)
  | .load => some (c, if c.state = .closed then .done else .swap c.state, {})
  | .swap old =>
      if c.state = old then some ({ c with state := .closed }, .uncount old, {})
      else some (c, .load, {})
  | .uncount old =>
      some (c, .safeClose,
        match old with
        | .pending => { pending := -1 }
        | .active | .draining => { active := -1 }
        | .closed => {})
  | .safeClose => some ({ c with quit := true }, .delete, {})
  | .delete => some ({ c with stored := false }, .done, {})
  | .done => none

/-- The part of `handleDataMessage` for TCP, after the check of the state. -/
def readStep (c : Conn) (flow : FlowControl) : Reader → Option (Conn × Reader × Delta)
  | .raise i =>
      some ({ c with level := c.level + 1 },
        if flow.highWaterMark ≤ c.level + 1 then .check i else .enqueue i, {})
  | .check i => some (c, if c.paused then .enqueue i else .pause i, {})
  | .pause i => some ({ c with paused := true }, .countPaused i, {})
  | .countPaused i => some (c, .enqueue i, { paused := 1 })
  | .enqueue _ =>
      if c.writeCh < localConnWriteBuffer then
        some ({ c with writeCh := c.writeCh + 1 }, .idle, {})
      else some ({ c with level := c.level - 1 }, .idle, { closes := true })
  | .idle => none

/-- What becomes of a datagram that arrives before the dial is over. -/
def bufferDatagram (c : Conn) : Conn :=
  if c.state = .pending ∧ c.writeCh < localConnWriteBuffer then
    { c with writeCh := c.writeCh + 1 }
  else c

end Conn

def Reader.conn : Reader → Option ℕ
  | .idle => none
  | .raise i | .check i | .pause i | .countPaused i | .enqueue i => some i

namespace State

def start (flow : FlowControl) : State := ⟨flow.withDefaults, [], [], .idle, 0, 0, 0⟩

def update (s : State) (i : ℕ) (c : Conn) (delta : Delta) : State :=
  { s with
    conns := s.conns.set i c
    closers := if delta.closes then s.closers ++ [(i, .load)] else s.closers
    pendingConns := s.pendingConns + delta.pending
    activeConns := s.activeConns + delta.active
    pausedConns := s.pausedConns + delta.paused }

/-- `handleDataMessage` up to its branch on the transport. -/
def receive (s : State) (i : ℕ) (c : Conn) : State :=
  if c.stored = true ∧ (c.state = .active ∨ c.state = .pending) then
    if c.isUDP then s.update i c.bufferDatagram {}
    else { s with reader := .raise i }
  else s

def step (s : State) : Action → Option State
  | .connect isUDP => some { s with conns := s.conns ++ [.new isUDP] }
  | .dial i ok =>
      (s.conns[i]?).bind fun c => (c.dialStep ok).map fun (c, delta) => s.update i c delta
  | .close i => (s.conns[i]?).map fun _ => { s with closers := s.closers ++ [(i, .load)] }
  | .closer j =>
      (s.closers[j]?).bind fun (i, close) =>
        (s.conns[i]?).bind fun c =>
          (c.closeStep close).map fun (c, close, delta) =>
            { s with closers := s.closers.set j (i, close) }.update i c delta
  | .drain i =>
      (s.conns[i]?).bind fun c =>
        if c.state = .active then some (s.update i { c with state := .draining } {}) else none
  | .data i => if s.reader = .idle then (s.conns[i]?).map fun c => s.receive i c else none
  | .read =>
      s.reader.conn.bind fun i =>
        (s.conns[i]?).bind fun c =>
          (c.readStep s.flow s.reader).map fun (c, reader, delta) =>
            { s with reader := reader }.update i c delta
  | .write i ok =>
      (s.conns[i]?).bind fun c =>
        (c.writerStep s.flow ok).map fun (c, delta) => s.update i c delta

/-- What a step does. -/
inductive Stepped (s : State) : Action → State → Prop
  | connect (isUDP : Bool) :
      Stepped s (.connect isUDP) { s with conns := s.conns ++ [Conn.new isUDP] }
  | dial {i : ℕ} {ok : Bool} {c c' : Conn} {delta : Delta} (hc : s.conns[i]? = some c)
      (hdial : c.dialStep ok = some (c', delta)) : Stepped s (.dial i ok) (s.update i c' delta)
  | close (i : ℕ) : Stepped s (.close i) { s with closers := s.closers ++ [(i, Close.load)] }
  | closer {i j : ℕ} {c c' : Conn} {close close' : Close} {delta : Delta}
      (hj : s.closers[j]? = some (i, close)) (hc : s.conns[i]? = some c)
      (hclose : c.closeStep close = some (c', close', delta)) :
      Stepped s (.closer j)
        ({ s with closers := s.closers.set j (i, close') }.update i c' delta)
  | drain {i : ℕ} {c : Conn} (hc : s.conns[i]? = some c) (hactive : c.state = .active) :
      Stepped s (.drain i) (s.update i { c with state := .draining } {})
  | data {i : ℕ} {c : Conn} (hidle : s.reader = .idle) (hc : s.conns[i]? = some c) :
      Stepped s (.data i) (s.receive i c)
  | read {i : ℕ} {c c' : Conn} {reader : Reader} {delta : Delta} (hi : s.reader.conn = some i)
      (hc : s.conns[i]? = some c)
      (hread : c.readStep s.flow s.reader = some (c', reader, delta)) :
      Stepped s .read ({ s with reader := reader }.update i c' delta)
  | write {i : ℕ} {ok : Bool} {c c' : Conn} {delta : Delta} (hc : s.conns[i]? = some c)
      (hwrite : c.writerStep s.flow ok = some (c', delta)) :
      Stepped s (.write i ok) (s.update i c' delta)

theorem stepped {s t : State} {action : Action} (h : s.step action = some t) :
    Stepped s action t := by
  cases action with
  | connect isUDP =>
    cases h
    exact .connect isUDP
  | dial i ok =>
    obtain ⟨c, hc, hmap⟩ := Option.bind_eq_some_iff.mp h
    obtain ⟨⟨c', delta⟩, hdial, rfl⟩ := Option.map_eq_some_iff.mp hmap
    exact .dial hc hdial
  | close i =>
    obtain ⟨c, hc, rfl⟩ := Option.map_eq_some_iff.mp h
    exact .close i
  | closer j =>
    obtain ⟨⟨i, close⟩, hj, hbind⟩ := Option.bind_eq_some_iff.mp h
    obtain ⟨c, hc, hmap⟩ := Option.bind_eq_some_iff.mp hbind
    obtain ⟨⟨c', close', delta⟩, hclose, rfl⟩ := Option.map_eq_some_iff.mp hmap
    exact .closer hj hc hclose
  | drain i =>
    obtain ⟨c, hc, hdrain⟩ := Option.bind_eq_some_iff.mp h
    split_ifs at hdrain with hactive
    cases hdrain
    exact .drain hc hactive
  | data i =>
    dsimp only [step] at h
    split_ifs at h with hidle
    obtain ⟨c, hc, rfl⟩ := Option.map_eq_some_iff.mp h
    exact .data hidle hc
  | read =>
    obtain ⟨i, hi, hbind⟩ := Option.bind_eq_some_iff.mp h
    obtain ⟨c, hc, hmap⟩ := Option.bind_eq_some_iff.mp hbind
    obtain ⟨⟨c', reader, delta⟩, hread, rfl⟩ := Option.map_eq_some_iff.mp hmap
    exact .read hi hc hread
  | write i ok =>
    obtain ⟨c, hc, hmap⟩ := Option.bind_eq_some_iff.mp h
    obtain ⟨⟨c', delta⟩, hwrite, rfl⟩ := Option.map_eq_some_iff.mp hmap
    exact .write hc hwrite

end State

/-! ### What the gauges owe -/

/-- What the dial has yet to add to `pendingConns`. -/
def Dial.pendingOwed : Dial → ℤ
  | .countPending => 1
  | .uncountPending => -1
  | _ => 0

def Dial.activeOwed : Dial → ℤ
  | .uncountPending | .countActive => 1
  | _ => 0

def Close.pendingDue : Close → ℤ
  | .uncount .pending => 1
  | _ => 0

def Close.activeDue : Close → ℤ
  | .uncount .active | .uncount .draining => 1
  | _ => 0

def Reader.pausedOwed : Reader → ℤ
  | .countPaused _ => 1
  | _ => 0

namespace Conn

/-- The share of a connection in `pendingConns`. -/
def pendingDue (c : Conn) : ℤ := (if c.state = .pending then 1 else 0) - c.dial.pendingOwed

def activeDue (c : Conn) : ℤ :=
  (if c.state = .active ∨ c.state = .draining then 1 else 0) - c.dial.activeOwed

def pausedDue (c : Conn) : ℤ :=
  (if c.paused then 1 else 0) + if c.writer = .uncountPaused then 1 else 0

/-- The writer starts when the dial is over, and resumes a paused connection only. -/
structure Sound (c : Conn) : Prop where
  started : c.writer ≠ .absent → c.dial = .done
  resuming : c.writer = .resume → c.paused = true

theorem Sound.of_absent {c : Conn} (h : c.writer = .absent) : c.Sound :=
  ⟨fun hwriter => absurd h hwriter, fun hwriter => by rw [h] at hwriter; cases hwriter⟩

/-- The shares of a connection move with the gauges. -/
structure Moves (c : Conn) (delta : Delta) (c' : Conn) : Prop where
  sound : c'.Sound
  pending : c'.pendingDue = c.pendingDue + delta.pending
  active : c'.activeDue = c.activeDue + delta.active
  paused : c'.pausedDue = c.pausedDue + delta.paused
  unpaused : c.paused = false → c'.paused = false

variable {c c' : Conn} {delta : Delta} {ok : Bool} {flow : FlowControl}

theorem dialStep_moves (h : c.Sound) (hstep : c.dialStep ok = some (c', delta)) :
    c.Moves delta c' := by
  have habsent : c.dial ≠ .done → c.writer = .absent := by
    intro hdial
    by_contra hwriter
    exact hdial (h.started hwriter)
  unfold dialStep at hstep
  split at hstep
  case h_6 hdial =>
    have hwriter := habsent (by simp [hdial])
    cases hstep
    refine ⟨⟨fun _ => rfl, fun hwriter => by cases hwriter⟩, ?_, ?_, ?_, id⟩ <;>
      simp [pendingDue, activeDue, pausedDue, hdial, hwriter, Dial.pendingOwed, Dial.activeOwed]
  case h_7 => cases hstep
  all_goals
    rename_i hdial
    have hwriter := habsent (by simp [hdial])
    (try split_ifs at hstep with hstate) <;> cases hstep <;>
      refine ⟨.of_absent hwriter, ?_, ?_, ?_, id⟩ <;>
      simp [pendingDue, activeDue, pausedDue, Dial.pendingOwed, Dial.activeOwed, *]

theorem Moves.of_writer {w w' : Writer} {closes : Bool} (hwriter : c.writer = w)
    (hfrom : w ≠ .absent ∧ w ≠ .uncountPaused) (hto : w' ≠ .uncountPaused)
    (hresume : w' = .resume → c.paused = true) (h : c.Sound) (level : ℤ) (writeCh : ℕ) :
    c.Moves { closes := closes }
      { c with level := level, writeCh := writeCh, writer := w' } := by
  subst hwriter
  refine ⟨⟨fun _ => h.started hfrom.1, hresume⟩, ?_, ?_, ?_, id⟩
  · exact (add_zero _).symm
  · exact (add_zero _).symm
  · simp [pausedDue, hfrom.2, hto]

theorem writerStep_moves (h : c.Sound) (hstep : c.writerStep flow ok = some (c', delta)) :
    c.Moves delta c' := by
  unfold writerStep at hstep
  split at hstep
  case h_3 hwriter =>
    split_ifs at hstep with hlow
    · cases hstep
      exact .of_writer hwriter (by simp) (by simp) (fun _ => hlow.1) h _ _
    · cases hstep
      exact .of_writer hwriter (by simp) (by simp) (by simp) h _ _
  case h_4 hwriter =>
    cases hstep
    refine ⟨⟨fun _ => h.started (by simp [hwriter]), fun hresume => by cases hresume⟩, ?_, ?_, ?_,
      fun _ => rfl⟩
    · exact (add_zero _).symm
    · exact (add_zero _).symm
    · simp [pausedDue, hwriter, h.resuming hwriter]
  case h_5 hwriter =>
    cases hstep
    refine ⟨⟨fun _ => h.started (by simp [hwriter]), fun hresume => by cases hresume⟩, ?_, ?_, ?_,
      id⟩
    · exact (add_zero _).symm
    · exact (add_zero _).symm
    · simp [pausedDue, hwriter]
  all_goals
    rename_i hwriter
    (try split_ifs at hstep) <;> cases hstep <;>
      exact .of_writer hwriter (by simp) (by simp) (by simp) h _ _

/-- The share that a call of `transitionToClosed` takes out of a connection is its own until it
has adjusted the gauge. -/
theorem closeStep_moves {close close' : Close} (h : c.Sound)
    (hstep : c.closeStep close = some (c', close', delta)) :
    c'.Sound ∧ c'.pausedDue = c.pausedDue ∧ c'.paused = c.paused ∧ delta.paused = 0 ∧
      delta.closes = false ∧
      c'.pendingDue + close'.pendingDue = c.pendingDue + close.pendingDue + delta.pending ∧
      c'.activeDue + close'.activeDue = c.activeDue + close.activeDue + delta.active := by
  cases close with
  | load =>
    cases hstep
    split_ifs <;> simp [h, Close.pendingDue, Close.activeDue]
  | swap old =>
    simp only [closeStep] at hstep
    split_ifs at hstep with hstate
    · cases hstep
      refine ⟨⟨h.started, h.resuming⟩, rfl, rfl, rfl, rfl, ?_, ?_⟩
      · cases old <;> simp [pendingDue, hstate, Close.pendingDue]
        omega
      · cases old <;> simp [activeDue, hstate, Close.activeDue] <;> omega
    · cases hstep
      simp [h, Close.pendingDue, Close.activeDue]
  | uncount old =>
    cases hstep
    cases old <;> simp [h, Close.pendingDue, Close.activeDue]
  | safeClose | delete =>
    cases hstep
    refine ⟨⟨h.started, h.resuming⟩, rfl, rfl, rfl, rfl, ?_, ?_⟩
    · simp [pendingDue, Close.pendingDue]
    · simp [activeDue, Close.activeDue]
  | done => cases hstep

/-- Only the pause itself sets the flag, and owes the gauge for it. -/
theorem readStep_moves {reader reader' : Reader} (h : c.Sound)
    (hpause : ∀ i, reader = .pause i → c.paused = false)
    (hstep : c.readStep flow reader = some (c', reader', delta)) :
    c'.Sound ∧ c'.pendingDue = c.pendingDue ∧ c'.activeDue = c.activeDue ∧ delta.pending = 0 ∧
      delta.active = 0 ∧
      c'.pausedDue - reader'.pausedOwed = c.pausedDue - reader.pausedOwed + delta.paused ∧
      ∀ i, reader' = .pause i → reader.conn = some i ∧ c'.paused = false := by
  cases reader with
  | raise i =>
    cases hstep
    refine ⟨⟨h.started, h.resuming⟩, rfl, rfl, rfl, rfl, ?_, ?_⟩
    · split_ifs <;> simp [pausedDue, Reader.pausedOwed]
    · split_ifs <;> simp
  | check i =>
    cases hstep
    refine ⟨h, rfl, rfl, rfl, rfl, ?_, ?_⟩
    · split_ifs <;> simp [Reader.pausedOwed]
    · split_ifs with hpaused <;> simp [hpaused, Reader.conn]
  | pause i =>
    cases hstep
    refine ⟨⟨h.started, fun _ => rfl⟩, rfl, rfl, rfl, rfl, ?_, fun j hj => by cases hj⟩
    simp [pausedDue, hpause i rfl, Reader.pausedOwed]
  | countPaused i =>
    cases hstep
    exact ⟨h, rfl, rfl, rfl, rfl, by simp [Reader.pausedOwed], fun j hj => by cases hj⟩
  | enqueue i =>
    simp only [readStep] at hstep
    split_ifs at hstep <;> cases hstep <;>
      exact ⟨⟨h.started, h.resuming⟩, rfl, rfl, rfl, rfl, (add_zero _).symm,
        fun j hj => by cases hj⟩
  | idle => cases hstep

end Conn

namespace State

/-- Every gauge is the sum of the shares in it. -/
structure Balanced (s : State) : Prop where
  sound : ∀ c ∈ s.conns, c.Sound
  pausing : ∀ i, s.reader = .pause i → ∀ c ∈ s.conns[i]?, c.paused = false
  pending : s.pendingConns =
    (s.conns.map Conn.pendingDue).sum + (s.closers.map fun t => t.2.pendingDue).sum
  active : s.activeConns =
    (s.conns.map Conn.activeDue).sum + (s.closers.map fun t => t.2.activeDue).sum
  paused : s.pausedConns = (s.conns.map Conn.pausedDue).sum - s.reader.pausedOwed

theorem start_balanced (flow : FlowControl) : (start flow).Balanced where
  sound := fun c hc => (List.not_mem_nil hc).elim
  pausing := fun i hi => by cases hi
  pending := rfl
  active := rfl
  paused := rfl

variable {s t : State} {i : ℕ} {c c' : Conn} {delta : Delta}

theorem sum_closers (s : State) (closes : Bool) (i : ℕ) {f : Close → ℤ} (hf : f .load = 0) :
    (List.map (fun t => f t.2) (if closes then s.closers ++ [(i, .load)] else s.closers)).sum =
      (s.closers.map fun t => f t.2).sum := by
  split_ifs
  · rw [sum_map_concat, hf, add_zero]
  · rfl

theorem unpaused_set {l : List Conn} {j : ℕ} (h : ∀ x ∈ l[j]?, x.paused = false)
    (hc : l[i]? = some c) (hunpaused : c.paused = false → c'.paused = false) :
    ∀ x ∈ (l.set i c')[j]?, x.paused = false := by
  intro x hx
  rw [List.getElem?_set] at hx
  split_ifs at hx with hij hi
  · cases hx
    exact hunpaused (h c (hij ▸ hc))
  · cases hx
  · exact h x hx

theorem Balanced.change (h : s.Balanced) (hc : s.conns[i]? = some c) (hsound : c'.Sound)
    {closers : List (ℕ × Close)} {reader : Reader} {p a z : ℤ}
    (hpausing : ∀ j, reader = .pause j → ∀ x ∈ (s.conns.set i c')[j]?, x.paused = false)
    (hp : c'.pendingDue + (closers.map fun t => t.2.pendingDue).sum =
      c.pendingDue + (s.closers.map fun t => t.2.pendingDue).sum + p)
    (ha : c'.activeDue + (closers.map fun t => t.2.activeDue).sum =
      c.activeDue + (s.closers.map fun t => t.2.activeDue).sum + a)
    (hz : c'.pausedDue - reader.pausedOwed = c.pausedDue - s.reader.pausedOwed + z) :
    Balanced ⟨s.flow, s.conns.set i c', closers, reader, s.pendingConns + p, s.activeConns + a,
      s.pausedConns + z⟩ := by
  refine ⟨forall_mem_set h.sound hsound, hpausing, ?_, ?_, ?_⟩
  · have hset := sum_map_set hc c' Conn.pendingDue
    have hbalance := h.pending
    dsimp only
    omega
  · have hset := sum_map_set hc c' Conn.activeDue
    have hbalance := h.active
    dsimp only
    omega
  · have hset := sum_map_set hc c' Conn.pausedDue
    have hbalance := h.paused
    dsimp only
    omega

theorem Balanced.update (h : s.Balanced) (hc : s.conns[i]? = some c) (hmoves : c.Moves delta c') :
    (s.update i c' delta).Balanced := by
  refine h.change hc hmoves.sound ?_ ?_ ?_ ?_
  · intro j hj
    exact unpaused_set (h.pausing j hj) hc hmoves.unpaused
  · rw [sum_closers s delta.closes i (f := Close.pendingDue) rfl, hmoves.pending]
    omega
  · rw [sum_closers s delta.closes i (f := Close.activeDue) rfl, hmoves.active]
    omega
  · rw [hmoves.paused]
    omega

theorem Balanced.connect (h : s.Balanced) (isUDP : Bool) :
    { s with conns := s.conns ++ [Conn.new isUDP] }.Balanced := by
  refine ⟨forall_mem_concat h.sound (.of_absent rfl), ?_, ?_, ?_, ?_⟩
  · intro j hj x hx
    rw [List.getElem?_append] at hx
    split_ifs at hx
    · exact h.pausing j hj x hx
    · rw [List.mem_singleton.mp (List.mem_of_getElem? hx)]
      rfl
  · rw [sum_map_concat, show (Conn.new isUDP).pendingDue = 0 from rfl, add_zero]
    exact h.pending
  · rw [sum_map_concat, show (Conn.new isUDP).activeDue = 0 from rfl, add_zero]
    exact h.active
  · rw [sum_map_concat, show (Conn.new isUDP).pausedDue = 0 from rfl, add_zero]
    exact h.paused

theorem Balanced.close (h : s.Balanced) (i : ℕ) :
    { s with closers := s.closers ++ [(i, Close.load)] }.Balanced := by
  refine ⟨h.sound, h.pausing, ?_, ?_, h.paused⟩
  · rw [sum_map_concat, show Close.load.pendingDue = 0 from rfl, add_zero]
    exact h.pending
  · rw [sum_map_concat, show Close.load.activeDue = 0 from rfl, add_zero]
    exact h.active

theorem Balanced.closer (h : s.Balanced) {j : ℕ} {close close' : Close}
    (hj : s.closers[j]? = some (i, close)) (hc : s.conns[i]? = some c)
    (hstep : c.closeStep close = some (c', close', delta)) :
    ({ s with closers := s.closers.set j (i, close') }.update i c' delta).Balanced := by
  obtain ⟨hsound, hpausedDue, hpaused, hdelta, hcloses, hpending, hactive⟩ :=
    Conn.closeStep_moves (h.sound c (List.mem_of_getElem? hc)) hstep
  refine h.change hc hsound ?_ ?_ ?_ ?_
  · intro k hk
    exact unpaused_set (h.pausing k hk) hc fun hfalse => hpaused.trans hfalse
  · have hset := sum_map_set hj (i, close') fun t => t.2.pendingDue
    simp only [hcloses, Bool.false_eq_true, if_false] at hset ⊢
    omega
  · have hset := sum_map_set hj (i, close') fun t => t.2.activeDue
    simp only [hcloses, Bool.false_eq_true, if_false] at hset ⊢
    omega
  · rw [hpausedDue, hdelta, add_zero]

theorem Balanced.receive (h : s.Balanced) (hidle : s.reader = .idle) (hc : s.conns[i]? = some c) :
    (s.receive i c).Balanced := by
  unfold State.receive
  split_ifs
  · have hsound := h.sound c (List.mem_of_getElem? hc)
    refine h.update hc ?_
    unfold Conn.bufferDatagram
    split_ifs
    · exact ⟨⟨hsound.started, hsound.resuming⟩, (add_zero _).symm, (add_zero _).symm,
        (add_zero _).symm, id⟩
    · exact ⟨hsound, (add_zero _).symm, (add_zero _).symm, (add_zero _).symm, id⟩
  · refine ⟨h.sound, (fun j hj => by cases hj), h.pending, h.active, ?_⟩
    have hpaused := h.paused
    rw [hidle] at hpaused
    exact hpaused
  · exact h

theorem Balanced.read (h : s.Balanced) {reader : Reader} (hi : s.reader.conn = some i)
    (hc : s.conns[i]? = some c) (hstep : c.readStep s.flow s.reader = some (c', reader, delta)) :
    ({ s with reader := reader }.update i c' delta).Balanced := by
  have hpause : ∀ j, s.reader = .pause j → c.paused = false := by
    intro j hj
    obtain rfl : j = i := by
      rw [hj] at hi
      exact Option.some.inj hi
    exact h.pausing j hj c hc
  obtain ⟨hsound, hpendingDue, hactiveDue, hpending, hactive, hpaused, hpausing⟩ :=
    Conn.readStep_moves (h.sound c (List.mem_of_getElem? hc)) hpause hstep
  refine h.change hc hsound ?_ ?_ ?_ hpaused
  · intro j hj x hx
    obtain ⟨hconn, hc'⟩ := hpausing j hj
    obtain rfl : i = j := Option.some.inj (hi.symm.trans hconn)
    rw [List.getElem?_set_self (List.getElem?_eq_some_iff.mp hc).1] at hx
    cases hx
    exact hc'
  · rw [sum_closers s delta.closes i (f := Close.pendingDue) rfl, hpendingDue, hpending, add_zero]
  · rw [sum_closers s delta.closes i (f := Close.activeDue) rfl, hactiveDue, hactive, add_zero]

theorem Balanced.step (h : s.Balanced) {action : Action} (hstep : s.step action = some t) :
    t.Balanced := by
  cases stepped hstep with
  | connect isUDP => exact h.connect isUDP
  | dial hc hdial =>
    exact h.update hc (Conn.dialStep_moves (h.sound _ (List.mem_of_getElem? hc)) hdial)
  | close i => exact h.close i
  | closer hj hc hclose => exact h.closer hj hc hclose
  | drain hc hactive =>
    have hsound := h.sound _ (List.mem_of_getElem? hc)
    refine h.update hc ⟨⟨hsound.started, hsound.resuming⟩, ?_, ?_, ?_, id⟩
    · simp [Conn.pendingDue, hactive]
    · simp [Conn.activeDue, hactive]
    · exact (add_zero _).symm
  | data hidle hc => exact h.receive hidle hc
  | read hi hc hread => exact h.read hi hc hread
  | write hc hwrite =>
    exact h.update hc (Conn.writerStep_moves (h.sound _ (List.mem_of_getElem? hc)) hwrite)

end State

/-! ### At rest -/

/-- Before the dial's answer, or after it. -/
def Dial.Resting : Dial → Prop
  | .dial | .done => True
  | _ => False

def Writer.Resting : Writer → Prop
  | .absent | .select | .write | .done => True
  | _ => False

instance decidableDialResting : DecidablePred Dial.Resting := by
  intro d
  unfold Dial.Resting
  split <;> infer_instance

instance decidableWriterResting : DecidablePred Writer.Resting := by
  intro w
  unfold Writer.Resting
  split <;> infer_instance

namespace Conn

def isPending (c : Conn) : Bool := c.state = .pending

def isActive (c : Conn) : Bool := c.state = .active ∨ c.state = .draining

/-- Paused and not yet closed. -/
def isPaused (c : Conn) : Bool := c.paused = true ∧ c.state ≠ .closed

end Conn

namespace State
variable {s t : State}

/-- No handler is in the middle of its work. -/
structure AtRest (s : State) : Prop where
  reader : s.reader = .idle
  closers : ∀ t ∈ s.closers, t.2 = .done
  dials : ∀ c ∈ s.conns, c.dial.Resting
  writers : ∀ c ∈ s.conns, c.writer.Resting

instance decidableAtRest (s : State) : Decidable s.AtRest :=
  decidable_of_iff (s.reader = .idle ∧ (∀ t ∈ s.closers, t.2 = .done) ∧
      (∀ c ∈ s.conns, c.dial.Resting) ∧ ∀ c ∈ s.conns, c.writer.Resting)
    ⟨fun h => ⟨h.1, h.2.1, h.2.2.1, h.2.2.2⟩, fun h => ⟨h.reader, h.closers, h.dials, h.writers⟩⟩

def ClosedUnpaused (s : State) : Prop := ∀ c ∈ s.conns, c.state = .closed → c.paused = false

theorem AtRest.closers_due (h : s.AtRest) {f : Close → ℤ} (hf : f .done = 0) :
    (s.closers.map fun t => f t.2).sum = 0 := by
  apply List.sum_eq_zero
  intro x hx
  obtain ⟨t, ht, rfl⟩ := List.mem_map.mp hx
  rw [h.closers t ht, hf]

theorem Balanced.pending_exact (h : s.Balanced) (hrest : s.AtRest) :
    s.pendingConns = s.conns.countP Conn.isPending := by
  have hdue : s.conns.map Conn.pendingDue = s.conns.map fun c => if c.isPending then 1 else 0 := by
    apply List.map_congr_left
    intro c hc
    have hdial := hrest.dials c hc
    cases hpoint : c.dial <;> simp_all [Conn.pendingDue, Conn.isPending, Dial.pendingOwed,
      Dial.Resting]
  rw [h.pending, hdue, sum_map_ite, hrest.closers_due rfl, add_zero]

theorem Balanced.active_exact (h : s.Balanced) (hrest : s.AtRest) :
    s.activeConns = s.conns.countP Conn.isActive := by
  have hdue : s.conns.map Conn.activeDue = s.conns.map fun c => if c.isActive then 1 else 0 := by
    apply List.map_congr_left
    intro c hc
    have hdial := hrest.dials c hc
    cases hpoint : c.dial <;> simp_all [Conn.activeDue, Conn.isActive, Dial.activeOwed,
      Dial.Resting]
  rw [h.active, hdue, sum_map_ite, hrest.closers_due rfl, add_zero]

/-- The gauge counts the closed connections with the flag up as well. -/
theorem Balanced.paused_eq (h : s.Balanced) (hrest : s.AtRest) :
    s.pausedConns = s.conns.countP Conn.isPaused +
      s.conns.countP fun c => c.paused && decide (c.state = .closed) := by
  have hdue : s.conns.map Conn.pausedDue = s.conns.map fun c =>
      (if c.isPaused then 1 else 0) +
        if (c.paused && decide (c.state = .closed)) then 1 else 0 := by
    apply List.map_congr_left
    intro c hc
    have hwriter := hrest.writers c hc
    have hnot : c.writer ≠ .uncountPaused := by
      intro hpoint
      rw [hpoint] at hwriter
      exact hwriter
    by_cases hclosed : c.state = .closed <;> cases hpaused : c.paused <;>
      simp [Conn.pausedDue, Conn.isPaused, hnot, hclosed, hpaused]
  rw [h.paused, hdue, List.sum_map_add, sum_map_ite, sum_map_ite, hrest.reader]
  exact sub_zero _

theorem Balanced.paused_exact_iff (h : s.Balanced) (hrest : s.AtRest) :
    s.pausedConns = s.conns.countP Conn.isPaused ↔ s.ClosedUnpaused := by
  rw [h.paused_eq hrest, add_eq_left, Nat.cast_eq_zero, List.countP_eq_zero]
  refine forall₂_congr fun c _ => ?_
  cases c.paused <;> simp

/-- The swap to Closed finds the flag down, and a pause finds the connection open. -/
def ClosesUnpaused (s : State) : Action → Prop
  | .closer j => ∀ t ∈ s.closers[j]?, ∀ c ∈ s.conns[t.1]?, t.2 = .swap c.state → c.paused = false
  | .read => ∀ i ∈ s.reader.conn, ∀ c ∈ s.conns[i]?, s.reader = .pause i → c.state ≠ .closed
  | _ => True

instance decidableClosesUnpaused (s : State) : DecidablePred s.ClosesUnpaused := by
  intro action
  unfold ClosesUnpaused
  split <;> infer_instance

theorem dialStep_closed {c c' : Conn} {delta : Delta} {ok : Bool}
    (hstep : c.dialStep ok = some (c', delta)) :
    c'.paused = c.paused ∧ (c'.state = .closed → c.state = .closed) := by
  unfold Conn.dialStep at hstep
  split at hstep <;> (try split_ifs at hstep) <;> cases hstep <;> simp

theorem writerStep_closed {c c' : Conn} {flow : FlowControl} {delta : Delta} {ok : Bool}
    (hstep : c.writerStep flow ok = some (c', delta)) :
    (c.paused = false → c'.paused = false) ∧ c'.state = c.state := by
  unfold Conn.writerStep at hstep
  split at hstep <;> (try split_ifs at hstep) <;> cases hstep <;> simp

theorem ClosedUnpaused.step (h : s.ClosedUnpaused) {action : Action}
    (hguard : s.ClosesUnpaused action) (hstep : s.step action = some t) : t.ClosedUnpaused := by
  cases stepped hstep with
  | connect isUDP => exact forall_mem_concat h fun hstate => by cases hstate
  | close i => exact h
  | drain hc hactive => exact forall_mem_set h fun hstate => by cases hstate
  | @dial i ok c c' delta hc hdial =>
    obtain ⟨hpaused, hclosed⟩ := dialStep_closed hdial
    refine forall_mem_set h fun hstate => ?_
    exact hpaused.trans (h c (List.mem_of_getElem? hc) (hclosed hstate))
  | @write i ok c c' delta hc hwrite =>
    obtain ⟨hpaused, hstate⟩ := writerStep_closed hwrite
    refine forall_mem_set h fun hclosed => ?_
    exact hpaused (h c (List.mem_of_getElem? hc) (hstate ▸ hclosed))
  | @data i c hidle hc =>
    have hopen := h c (List.mem_of_getElem? hc)
    unfold State.receive
    split_ifs
    · refine forall_mem_set h ?_
      unfold Conn.bufferDatagram
      split_ifs <;> exact hopen
    · exact h
    · exact h
  | @closer i j c c' close close' delta hj hc hclose =>
    have hopen := h c (List.mem_of_getElem? hc)
    refine forall_mem_set h fun hstate => ?_
    cases close with
    | swap old =>
      simp only [Conn.closeStep] at hclose
      split_ifs at hclose with hold
      · cases hclose
        exact hguard (i, .swap old) hj c hc (hold ▸ rfl)
      · cases hclose
        exact hopen hstate
    | done => cases hclose
    | _ =>
      cases hclose
      exact hopen hstate
  | @read i c c' reader delta hi hc hread =>
    have hopen := h c (List.mem_of_getElem? hc)
    refine forall_mem_set h fun hstate => ?_
    cases hpoint : s.reader with
    | pause k =>
      rw [hpoint] at hread hi
      cases hread
      obtain rfl : k = i := Option.some.inj hi
      exact absurd hstate (hguard k (hpoint ▸ hi) c hc hpoint)
    | enqueue k =>
      rw [hpoint] at hread
      simp only [Conn.readStep] at hread
      split_ifs at hread <;> cases hread <;> exact hopen hstate
    | idle =>
      rw [hpoint] at hread
      cases hread
    | _ =>
      rw [hpoint] at hread
      cases hread
      exact hopen hstate

end State

/-- At rest the gauges of pending and of active connections are exact. That of paused connections
is exact if no closed connection has its flag up, and only then; so it is if every connection is
closed with its flag down. -/
theorem gauges_exact (flow : FlowControl) (actions : List Action) (s : State)
    (hrun : run State.step (.start flow) actions = some s) (hrest : s.AtRest) :
    s.pendingConns = s.conns.countP Conn.isPending ∧
      s.activeConns = s.conns.countP Conn.isActive ∧
      (s.pausedConns = s.conns.countP Conn.isPaused ↔ s.ClosedUnpaused) ∧
      (Along State.step State.ClosesUnpaused (.start flow) actions →
        s.pausedConns = s.conns.countP Conn.isPaused) := by
  have h : s.Balanced := invariant_run (fun _ _ _ h hstep => h.step hstep)
    (State.start_balanced flow) hrun
  have hiff := h.paused_exact_iff hrest
  refine ⟨h.pending_exact hrest, h.active_exact hrest, hiff, fun hguard => hiff.mpr ?_⟩
  exact invariant_along (fun _ _ _ h hguard hstep => State.ClosedUnpaused.step h hguard hstep)
    (fun c hc => (List.not_mem_nil hc).elim) hguard hrun

/-- A connection is dialed, and its second frame reaches the high water mark. -/
def pausedConnection : List Action :=
  .connect false :: List.replicate 6 (.dial 0 true) ++
    .data 0 :: List.replicate 2 .read ++ .data 0 :: List.replicate 5 .read

/-- The connection is closed, and its writer sees `quit` and returns. -/
def closeConnection : List Action :=
  .close 0 :: List.replicate 5 (.closer 0) ++ [.write 0 false, .closer 1]

/-- A frame is written first, which resumes the connection. -/
theorem gauges_exact_resumed :
    ∃ s, run State.step (.start ⟨1, 2, 3⟩)
        (pausedConnection ++ List.replicate 6 (.write 0 true) ++ closeConnection) = some s ∧
      s.AtRest ∧ s.pausedConns = s.conns.countP Conn.isPaused := by
  obtain ⟨s, hrun, hrest⟩ : ∃ s, run State.step (.start ⟨1, 2, 3⟩)
      (pausedConnection ++ List.replicate 6 (.write 0 true) ++ closeConnection) = some s ∧
        s.AtRest := exists_run_of_any (by decide +kernel)
  refine ⟨s, hrun, hrest, ?_⟩
  exact (gauges_exact ⟨1, 2, 3⟩ _ s hrun hrest).2.2.2 (by decide +kernel)

/-- A connection that is closed while paused stays in the gauge. -/
theorem paused_gauge_drifts :
    ∃ s, run State.step (.start ⟨1, 2, 3⟩) (pausedConnection ++ closeConnection) = some s ∧
      s.AtRest ∧ s.conns.countP Conn.isPaused = 0 ∧ s.pausedConns = 1 :=
  exists_run_of_any (by decide +kernel)

end NexusProxy.Client.Gauges
