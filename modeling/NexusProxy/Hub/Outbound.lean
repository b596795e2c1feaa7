import NexusProxy.Lib.Collections
import NexusProxy.Lib.Transition
import NexusProxy.Hub.ClientMaps

/-! The outbound connections of a backend: `readPump` checks the limit and starts the dials, each
dial goroutine registers its connection step by step, and clients are removed meanwhile by any
goroutine. Every access to a map or a counter is one step. -/
namespace NexusProxy.Hub
set_option linter.unusedSectionVars false
open Collections Transition

/-- Who put an entry into `clients`. -/
inductive Owner where
  | inbound
  | outbound (dial : ℕ)
  deriving DecidableEq

def Owner.isOutbound : Owner → Bool
  | .inbound => false
  | .outbound _ => true

/-- What a dial goroutine has done so far. -/
inductive DialPhase where
  | dialing
  /-- `DialContext` has returned. -/
  | ended (ok : Bool)
  /-- The in-flight slot is released and `AddOutboundClient` comes next. -/
  | registering
  /-- `LoadOrStore` has found an entry. -/
  | rejected
  | inserted
  /-- The id is in `outboundIDs` too. -/
  | stored
  /-- The connection is counted: `AddOutboundClient` has returned. -/
  | registered
  /-- The success result is queued. -/
  | resulted
  | reading
  /-- `RemoveClient` comes next. -/
  | removing
  | finished
  deriving DecidableEq

namespace DialPhase

def holdsSlot : DialPhase → Bool
  | .dialing | .ended _ => true
  | _ => false

def uncounted : DialPhase → Bool
  | .inserted | .stored => true
  | _ => false

/-- `AddOutboundClient` has returned without an error, or the goroutine is done. -/
def settled : DialPhase → Bool
  | .registered | .resulted | .reading | .removing | .finished => true
  | _ => false

theorem holdsSlot_of_settled {p : DialPhase} (h : p.settled = true) : p.holdsSlot = false := by
  cases p with
  | registered | resulted | reading | removing | finished => rfl
  | _ => cases h

theorem ne_of_settled {p q : DialPhase} (hp : p.settled = true) (hq : q.settled = false) :
    p ≠ q := by
  rintro rfl
  rw [hp] at hq
  cases hq

theorem uncounted_of_settled {p : DialPhase} (h : p.settled = true) : p.uncounted = false := by
  cases p with
  | registered | resulted | reading | removing | finished => rfl
  | _ => cases h

end DialPhase

structure Dial (ι : Type*) where
  id : ι
  phase : DialPhase
  connOpen : Bool

/-- What a call that removes a client has done since its `LoadAndDelete` on `clients`. -/
inductive RemovalPhase where
  | deleted
  /-- The id was in `outboundIDs`; the counter has not been decremented. -/
  | releasing
  /-- The connection is about to be closed, at once or after the grace period. -/
  | closing
  | finished
  deriving DecidableEq

structure Removal (ι : Type*) where
  id : ι
  owner : Owner
  phase : RemovalPhase

namespace Removal
variable {ι : Type*}

/-- A dialed connection has left `clients`, and its slot may still be released. -/
def owes (r : Removal ι) : Bool :=
  r.owner.isOutbound && (r.phase == .deleted || r.phase == .releasing)

end Removal

/-- Where `readPump` stands. -/
inductive Pump (ι : Type*) where
  | ready
  /-- The limit check has loaded `outboundConnCount`. -/
  | checked (id : ι) (count : ℤ)
  /-- The check has passed. -/
  | reserving (id : ι)
  /-- `EventDisconnect` has deleted a client. -/
  | removing (removal : ℕ)
  deriving DecidableEq

def Pump.isChecked {ι : Type*} : Pump ι → Bool
  | .checked _ _ => true
  | _ => false

structure Outbound (ι : Type*) extends Slots ι Owner where
  inFlightDials : ℤ
  pump : Pump ι
  dials : List (Dial ι)
  removals : List (Removal ι)
  /-- The ids that the backend has disconnected since it last asked for them. -/
  disconnected : Finset ι

namespace Outbound
variable {ι : Type*}

inductive Action (ι : Type*) where
  /-- `EventOutboundConnect`, up to the first load of the limit check. -/
  | request (id : ι)
  | loadInFlight
  /-- The slot is reserved and the goroutine started. -/
  | reserve
  | disconnect (id : ι)
  /-- `readPump` is done with an `EventDisconnect`. -/
  | resume
  | addClient (id : ι)
  /-- `RemoveClient`, called by any goroutine. -/
  | removeClient (id : ι)
  | dial (d : ℕ) (outcome : Bool)
  | removal (r : ℕ)
  deriving DecidableEq

def start : Outbound ι where
  toSlots := Slots.empty
  inFlightDials := 0
  pump := .ready
  dials := []
  removals := []
  disconnected := ∅

def established (s : Outbound ι) : ℕ := countValues Owner.isOutbound s.clients

def inPhase (p : DialPhase → Bool) (dials : List (Dial ι)) : ℕ :=
  dials.countP fun dial => p dial.phase

variable [DecidableEq ι]

/-- A new client gets a random id. -/
def Fresh (s : Outbound ι) (id : ι) : Prop :=
  id ∉ s.clients ∧ id ∉ s.outboundIDs ∧ id ∉ s.disconnected ∧
    (∀ dial ∈ s.dials, dial.id ≠ id) ∧ ∀ r ∈ s.removals, r.id ≠ id

instance (s : Outbound ι) (id : ι) : Decidable (s.Fresh id) := by
  unfold Fresh
  infer_instance

/-- `LoadAndDelete` on `clients`, and what follows if there was an entry. -/
def beginRemoval (s : Outbound ι) (id : ι) : Outbound ι :=
  match s.clients.lookup id with
  | none => s
  | some owner =>
      { s with
        clients := s.clients.erase id
        removals := s.removals ++ [⟨id, owner, .deleted⟩] }

def closeConn (s : Outbound ι) : Owner → Outbound ι
  | .inbound => s
  | .outbound d =>
      match s.dials[d]? with
      | none => s
      | some dial => { s with dials := s.dials.set d { dial with connOpen := false } }

def removalStep (s : Outbound ι) (r : ℕ) (rem : Removal ι) : RemovalPhase → Option (Outbound ι)
  | .deleted =>
      if rem.id ∈ s.outboundIDs then
        some { s with
          outboundIDs := s.outboundIDs.erase rem.id
          removals := s.removals.set r { rem with phase := .releasing } }
      else some { s with removals := s.removals.set r { rem with phase := .closing } }
  | .releasing =>
      some { s with
        outboundConnCount := s.outboundConnCount - 1
        removals := s.removals.set r { rem with phase := .closing } }
  | .closing =>
      some ({ s with removals := s.removals.set r { rem with phase := .finished } }.closeConn
        rem.owner)
  | .finished => none

def setDial (s : Outbound ι) (d : ℕ) (next : Dial ι) : Outbound ι :=
  { s with dials := s.dials.set d next }

/-- The Boolean is the outcome of the dial, or of sending its result. -/
def dialStep (s : Outbound ι) (d : ℕ) (dial : Dial ι) : DialPhase → Bool → Option (Outbound ι)
  | .dialing, ok =>
      some (s.setDial d { dial with phase := .ended ok, connOpen := ok })
  | .ended true, _ =>
      some { s with
        inFlightDials := s.inFlightDials - 1
        dials := s.dials.set d { dial with phase := .registering } }
  | .ended false, _ =>
      some { s with
        inFlightDials := s.inFlightDials - 1
        dials := s.dials.set d { dial with phase := .finished } }
  | .registering, _ =>
      if dial.id ∈ s.clients then
        some (s.setDial d { dial with phase := .rejected })
      else
        some { s with
          clients := s.clients.insert dial.id (.outbound d)
          dials := s.dials.set d { dial with phase := .inserted } }
  | .rejected, _ =>
      some (s.setDial d { dial with phase := .finished, connOpen := false })
  | .inserted, _ =>
      some { s with
        outboundIDs := insert dial.id s.outboundIDs
        dials := s.dials.set d { dial with phase := .stored } }
  | .stored, _ =>
      some { s with
        outboundConnCount := s.outboundConnCount + 1
        dials := s.dials.set d { dial with phase := .registered } }
  | .registered, true => some (s.setDial d { dial with phase := .resulted })
  | .registered, false => some (s.setDial d { dial with phase := .removing })
  | .resulted, _ =>
      if dial.id ∈ s.clients then
        some (s.setDial d { dial with phase := .reading })
      else some (s.setDial d { dial with phase := .finished })
  | .reading, _ => some (s.setDial d { dial with phase := .removing })
  | .removing, _ =>
      some ((s.beginRemoval dial.id).setDial d { dial with phase := .finished })
  | .finished, _ => none

/-- `m` is `maxOutboundConns`; a negative one means no limit. -/
def step (m : ℤ) (s : Outbound ι) : Action ι → Option (Outbound ι)
  | .request id =>
      if s.pump = .ready then
        some { s with
          pump := if 0 ≤ m then .checked id s.outboundConnCount else .reserving id }
      else none
  | .loadInFlight =>
      match s.pump with
      | .checked id count =>
          some { s with pump := if m ≤ count + s.inFlightDials then .ready else .reserving id }
      | _ => none
  | .reserve =>
      match s.pump with
      | .reserving id =>
          some { s with
            inFlightDials := s.inFlightDials + 1
            pump := .ready
            dials := s.dials ++ [⟨id, .dialing, false⟩]
            disconnected := s.disconnected.erase id }
      | _ => none
  | .disconnect id =>
      if s.pump = .ready then
        some { s.beginRemoval id with
          pump := if id ∈ s.clients then .removing s.removals.length else .ready
          disconnected := insert id s.disconnected }
      else none
  | .resume =>
      match s.pump with
      | .removing r =>
          match s.removals[r]? with
          | some rem =>
              if rem.phase = .closing ∨ rem.phase = .finished then some { s with pump := .ready }
              else none
          | none => none
      | _ => none
  | .addClient id =>
      if s.Fresh id then some { s with clients := s.clients.insert id .inbound } else none
  | .removeClient id => some (s.beginRemoval id)
  | .dial d outcome => s.dials[d]?.bind fun dial => s.dialStep d dial dial.phase outcome
  | .removal r => s.removals[r]?.bind fun rem => s.removalStep r rem rem.phase

def connect (id : ι) : List (Action ι) := [.request id, .loadInFlight, .reserve]

def dialThrough (d : ℕ) : List (Action ι) := List.replicate 5 (.dial d true)

/-! ### The steps of one call together -/

variable {m : ℤ} {s t : Outbound ι}

/-- Steps of a registration that nothing interrupts are `AddOutboundClient`. -/
theorem registration_slots {d : ℕ} {dial : Dial ι} (hd : s.dials[d]? = some dial)
    (hphase : dial.phase = .registering) (hid : dial.id ∉ s.clients) :
    (run (step m) s [.dial d true, .dial d true, .dial d true]).map Outbound.toSlots =
      s.toSlots.addOutboundClient dial.id (.outbound d) := by
  have hlt : d < s.dials.length := (List.getElem?_eq_some_iff.mp hd).1
  simp only [run, step, hd, Option.bind_some, dialStep, hphase, hid, if_false,
    List.getElem?_set_self hlt, List.getElem?_set_self, List.length_set, hlt, Option.map_some,
    Slots.addOutboundClient]

/-- Steps of a removal that nothing interrupts are `remove`. -/
theorem removal_slots {id : ι} (hid : id ∈ s.clients) :
    (run (step m) s (.removeClient id ::
      List.replicate (if id ∈ s.outboundIDs then 2 else 1) (.removal s.removals.length))).map
      Outbound.toSlots = some (s.toSlots.remove id) := by
  obtain ⟨owner, howner⟩ := Option.isSome_iff_exists.mp (AList.lookup_isSome.mpr hid)
  by_cases hdialed : id ∈ s.outboundIDs
  · simp [run, step, beginRemoval, howner, removalStep, hdialed, Slots.remove, hid,
      Slots.releaseOutboundSlot, List.replicate]
  · simp [run, step, beginRemoval, howner, removalStep, hdialed, Slots.remove, hid,
      Slots.releaseOutboundSlot]

/-! ### What a step can do -/

/-- The steps with what makes them possible. -/
inductive Effect (m : ℤ) (s : Outbound ι) : Action ι → Outbound ι → Prop
  | request {id} (hpump : s.pump = .ready) (hm : 0 ≤ m) :
      Effect m s (.request id) { s with pump := .checked id s.outboundConnCount }
  | unlimited {id} (hpump : s.pump = .ready) (hm : m < 0) :
      Effect m s (.request id) { s with pump := .reserving id }
  | refuse {id count} (hpump : s.pump = .checked id count) (hm : m ≤ count + s.inFlightDials) :
      Effect m s .loadInFlight { s with pump := .ready }
  | pass {id count} (hpump : s.pump = .checked id count) (hm : count + s.inFlightDials < m) :
      Effect m s .loadInFlight { s with pump := .reserving id }
  | reserve {id} (hpump : s.pump = .reserving id) :
      Effect m s .reserve
        { s with
          inFlightDials := s.inFlightDials + 1
          pump := .ready
          dials := s.dials ++ [⟨id, .dialing, false⟩]
          disconnected := s.disconnected.erase id }
  | disconnect {id} (hpump : s.pump = .ready) (pump : Pump ι)
      (hnext : pump = .ready ∨ ∃ r, pump = .removing r) :
      Effect m s (.disconnect id)
        { s.beginRemoval id with pump, disconnected := insert id s.disconnected }
  | resume {r} (hpump : s.pump = .removing r) : Effect m s .resume { s with pump := .ready }
  | addClient {id} (hfresh : s.Fresh id) :
      Effect m s (.addClient id) { s with clients := s.clients.insert id .inbound }
  | removeClient {id} : Effect m s (.removeClient id) (s.beginRemoval id)
  | dialEnds {d dial ok} (hd : s.dials[d]? = some dial) (hphase : dial.phase = .dialing) :
      Effect m s (.dial d ok)
        (s.setDial d { dial with phase := .ended ok, connOpen := ok })
  | release {d dial b} (hd : s.dials[d]? = some dial) (hphase : dial.phase = .ended true) :
      Effect m s (.dial d b)
        { s with
          inFlightDials := s.inFlightDials - 1
          dials := s.dials.set d { dial with phase := .registering } }
  | fail {d dial b} (hd : s.dials[d]? = some dial) (hphase : dial.phase = .ended false) :
      Effect m s (.dial d b)
        { s with
          inFlightDials := s.inFlightDials - 1
          dials := s.dials.set d { dial with phase := .finished } }
  | reject {d dial b} (hd : s.dials[d]? = some dial) (hphase : dial.phase = .registering)
      (hid : dial.id ∈ s.clients) :
      Effect m s (.dial d b) (s.setDial d { dial with phase := .rejected })
  | insert {d dial b} (hd : s.dials[d]? = some dial) (hphase : dial.phase = .registering)
      (hid : dial.id ∉ s.clients) :
      Effect m s (.dial d b)
        { s with
          clients := s.clients.insert dial.id (.outbound d)
          dials := s.dials.set d { dial with phase := .inserted } }
  | discard {d dial b} (hd : s.dials[d]? = some dial) (hphase : dial.phase = .rejected) :
      Effect m s (.dial d b)
        (s.setDial d { dial with phase := .finished, connOpen := false })
  | store {d dial b} (hd : s.dials[d]? = some dial) (hphase : dial.phase = .inserted) :
      Effect m s (.dial d b)
        { s with
          outboundIDs := insert dial.id s.outboundIDs
          dials := s.dials.set d { dial with phase := .stored } }
  | count {d dial b} (hd : s.dials[d]? = some dial) (hphase : dial.phase = .stored) :
      Effect m s (.dial d b)
        { s with
          outboundConnCount := s.outboundConnCount + 1
          dials := s.dials.set d { dial with phase := .registered } }
  | proceed {d dial b} (hd : s.dials[d]? = some dial) (hphase : dial.phase.settled = true)
      (next : DialPhase) (hnext : next.settled = true) :
      Effect m s (.dial d b) (s.setDial d { dial with phase := next })
  | remove {d dial b} (hd : s.dials[d]? = some dial) (hphase : dial.phase = .removing) :
      Effect m s (.dial d b)
        ((s.beginRemoval dial.id).setDial d { dial with phase := .finished })
  | unmark {r rem} (hr : s.removals[r]? = some rem) (hphase : rem.phase = .deleted)
      (hid : rem.id ∈ s.outboundIDs) :
      Effect m s (.removal r)
        { s with
          outboundIDs := s.outboundIDs.erase rem.id
          removals := s.removals.set r { rem with phase := .releasing } }
  | unmarked {r rem} (hr : s.removals[r]? = some rem) (hphase : rem.phase = .deleted)
      (hid : rem.id ∉ s.outboundIDs) :
      Effect m s (.removal r)
        { s with removals := s.removals.set r { rem with phase := .closing } }
  | decrement {r rem} (hr : s.removals[r]? = some rem) (hphase : rem.phase = .releasing) :
      Effect m s (.removal r)
        { s with
          outboundConnCount := s.outboundConnCount - 1
          removals := s.removals.set r { rem with phase := .closing } }
  | close {r rem} (hr : s.removals[r]? = some rem) (hphase : rem.phase = .closing) :
      Effect m s (.removal r)
        ({ s with removals := s.removals.set r { rem with phase := .finished } }.closeConn
          rem.owner)

theorem dialStep_effect {d : ℕ} {dial : Dial ι} {b : Bool} (hd : s.dials[d]? = some dial)
    (ht : s.dialStep d dial dial.phase b = some t) : Effect m s (.dial d b) t := by
  generalize hphase : dial.phase = phase at ht
  cases phase with
  | dialing =>
    cases ht
    exact .dialEnds hd hphase
  | ended ok =>
    cases ok with
    | true =>
      cases ht
      exact .release hd hphase
    | false =>
      cases ht
      exact .fail hd hphase
  | registering =>
    unfold dialStep at ht
    split_ifs at ht with hid
    · cases ht
      exact .reject hd hphase hid
    · cases ht
      exact .insert hd hphase hid
  | rejected =>
    cases ht
    exact .discard hd hphase
  | inserted =>
    cases ht
    exact .store hd hphase
  | stored =>
    cases ht
    exact .count hd hphase
  | registered =>
    have hsettled : dial.phase.settled = true := by rw [hphase]; rfl
    cases b with
    | true =>
      cases ht
      exact .proceed hd hsettled .resulted rfl
    | false =>
      cases ht
      exact .proceed hd hsettled .removing rfl
  | resulted =>
    have hsettled : dial.phase.settled = true := by rw [hphase]; rfl
    unfold dialStep at ht
    split_ifs at ht
    · cases ht
      exact .proceed hd hsettled .reading rfl
    · cases ht
      exact .proceed hd hsettled .finished rfl
  | reading =>
    cases ht
    exact .proceed hd (by rw [hphase]; rfl) .removing rfl
  | removing =>
    cases ht
    exact .remove hd hphase
  | finished => cases ht

theorem removalStep_effect {r : ℕ} {rem : Removal ι} (hr : s.removals[r]? = some rem)
    (ht : s.removalStep r rem rem.phase = some t) : Effect m s (.removal r) t := by
  generalize hphase : rem.phase = phase at ht
  cases phase with
  | deleted =>
    unfold removalStep at ht
    split_ifs at ht with hid
    · cases ht
      exact .unmark hr hphase hid
    · cases ht
      exact .unmarked hr hphase hid
  | releasing =>
    cases ht
    exact .decrement hr hphase
  | closing =>
    cases ht
    exact .close hr hphase
  | finished => cases ht

theorem step_effect {a : Action ι} (hstep : step m s a = some t) : Effect m s a t := by
  cases a with
  | request id =>
    rw [step] at hstep
    split at hstep
    · next hpump =>
      cases hstep
      split
      · next hm => exact .request hpump hm
      · next hm => exact .unlimited hpump (by omega)
    · cases hstep
  | loadInFlight =>
    rw [step] at hstep
    split at hstep
    · next id count hpump =>
      cases hstep
      split
      · next hm => exact .refuse hpump hm
      · next hm => exact .pass hpump (by omega)
    · cases hstep
  | reserve =>
    rw [step] at hstep
    split at hstep
    · next hpump =>
      cases hstep
      exact .reserve hpump
    · cases hstep
  | disconnect id =>
    rw [step] at hstep
    split at hstep
    · next hpump =>
      cases hstep
      apply Effect.disconnect hpump
      split
      · exact Or.inr ⟨_, rfl⟩
      · exact Or.inl rfl
    · cases hstep
  | resume =>
    rw [step] at hstep
    split at hstep
    · next r hpump =>
      split at hstep
      · split at hstep
        · cases hstep
          exact .resume hpump
        · cases hstep
      · cases hstep
    · cases hstep
  | addClient id =>
    rw [step] at hstep
    split at hstep
    · next hfresh =>
      cases hstep
      exact .addClient hfresh
    · cases hstep
  | removeClient id =>
    cases hstep
    exact .removeClient
  | dial d b =>
    obtain ⟨dial, hd, ht⟩ := Option.bind_eq_some_iff.mp hstep
    exact dialStep_effect hd ht
  | removal r =>
    obtain ⟨rem, hr, ht⟩ := Option.bind_eq_some_iff.mp hstep
    exact removalStep_effect hr ht

/-! ### In-flight dials -/

theorem inPhase_set {dials : List (Dial ι)} {d : ℕ} {dial : Dial ι} (hd : dials[d]? = some dial)
    (next : Dial ι) (p : DialPhase → Bool) :
    inPhase p (dials.set d next) + (p dial.phase).toNat = inPhase p dials + (p next.phase).toNat :=
  countP_set_add hd fun dial => p dial.phase

theorem inPhase_set_same {dials : List (Dial ι)} {d : ℕ} {dial : Dial ι}
    (hd : dials[d]? = some dial) {next : Dial ι} {p : DialPhase → Bool}
    (hp : p next.phase = p dial.phase) : inPhase p (dials.set d next) = inPhase p dials :=
  countP_set_same (p := fun dial : Dial ι => p dial.phase) hd hp

theorem inPhase_enter (p : DialPhase → Bool) {dials : List (Dial ι)} {d : ℕ} {dial : Dial ι}
    (hd : dials[d]? = some dial) (next : Dial ι) (hold : p dial.phase = false)
    (hnew : p next.phase = true) : inPhase p (dials.set d next) = inPhase p dials + 1 :=
  countP_set_enter (p := fun dial : Dial ι => p dial.phase) hd hold hnew

theorem inPhase_leave (p : DialPhase → Bool) {dials : List (Dial ι)} {d : ℕ} {dial : Dial ι}
    (hd : dials[d]? = some dial) (next : Dial ι) (hold : p dial.phase = true)
    (hnew : p next.phase = false) : inPhase p (dials.set d next) + 1 = inPhase p dials :=
  countP_set_leave (p := fun dial : Dial ι => p dial.phase) hd hold hnew

theorem inPhase_proceed {dials : List (Dial ι)} {d : ℕ} {dial next : Dial ι}
    (hd : dials[d]? = some dial) (hphase : dial.phase.settled = true)
    (hnext : next.phase.settled = true) {p : DialPhase → Bool}
    (hp : ∀ {q : DialPhase}, q.settled = true → p q = false) :
    inPhase p (dials.set d next) = inPhase p dials :=
  inPhase_set_same hd ((hp hnext).trans (hp hphase).symm)

/-- The counter of in-flight dials is the number of dials that hold a slot. -/
def InFlight (s : Outbound ι) : Prop :=
  s.inFlightDials = inPhase DialPhase.holdsSlot s.dials

theorem beginRemoval_cases {P : Outbound ι → Prop} (s : Outbound ι) (id : ι)
    (hnone : s.clients.lookup id = none → P s)
    (hsome : ∀ owner, s.clients.lookup id = some owner →
      P { s with
        clients := s.clients.erase id
        removals := s.removals ++ [⟨id, owner, .deleted⟩] }) :
    P (s.beginRemoval id) := by
  unfold beginRemoval
  split
  · next hlookup => exact hnone hlookup
  · next owner hlookup => exact hsome owner hlookup

theorem beginRemoval_inFlightDials (s : Outbound ι) (id : ι) :
    (s.beginRemoval id).inFlightDials = s.inFlightDials :=
  beginRemoval_cases (P := fun t => t.inFlightDials = s.inFlightDials) s id (fun _ => rfl)
    fun _ _ => rfl

theorem beginRemoval_count (s : Outbound ι) (id : ι) :
    (s.beginRemoval id).outboundConnCount = s.outboundConnCount :=
  beginRemoval_cases (P := fun t => t.outboundConnCount = s.outboundConnCount) s id
    (fun _ => rfl) fun _ _ => rfl

theorem beginRemoval_pump (s : Outbound ι) (id : ι) : (s.beginRemoval id).pump = s.pump :=
  beginRemoval_cases (P := fun t => t.pump = s.pump) s id (fun _ => rfl) fun _ _ => rfl

theorem beginRemoval_dials (s : Outbound ι) (id : ι) : (s.beginRemoval id).dials = s.dials :=
  beginRemoval_cases (P := fun t => t.dials = s.dials) s id (fun _ => rfl) fun _ _ => rfl

theorem dial_of_beginRemoval {d : ℕ} {dial : Dial ι} (hd : s.dials[d]? = some dial) (id : ι) :
    (s.beginRemoval id).dials[d]? = some dial := by
  rw [beginRemoval_dials]
  exact hd

theorem closeConn_cases {P : Outbound ι → Prop} (s : Outbound ι) (owner : Owner) (hsame : P s)
    (hclose : ∀ d dial, owner = .outbound d → s.dials[d]? = some dial →
      P { s with dials := s.dials.set d { dial with connOpen := false } }) :
    P (s.closeConn owner) := by
  cases owner with
  | inbound => exact hsame
  | outbound d =>
    rw [closeConn]
    cases hd : s.dials[d]? with
    | none => exact hsame
    | some dial => exact hclose d dial rfl hd

theorem InFlight.of_same (h : s.InFlight) (hcount : t.inFlightDials = s.inFlightDials)
    (hdials : inPhase DialPhase.holdsSlot t.dials = inPhase DialPhase.holdsSlot s.dials) :
    t.InFlight := by
  unfold InFlight
  rw [hcount, hdials]
  exact h

theorem InFlight.beginRemoval (h : s.InFlight) (id : ι) : (s.beginRemoval id).InFlight :=
  h.of_same (beginRemoval_inFlightDials s id) (by rw [beginRemoval_dials])

theorem InFlight.reserve (h : s.InFlight) (id : ι) :
    s.inFlightDials + 1 = inPhase DialPhase.holdsSlot (s.dials ++ [⟨id, .dialing, false⟩]) := by
  unfold inPhase
  rw [countP_concat, h]
  rfl

theorem InFlight.release (h : s.InFlight) {d : ℕ} {dial next : Dial ι}
    (hd : s.dials[d]? = some dial) (hheld : dial.phase.holdsSlot = true)
    (hfree : next.phase.holdsSlot = false) :
    s.inFlightDials - 1 = inPhase DialPhase.holdsSlot (s.dials.set d next) := by
  have hleave := inPhase_leave DialPhase.holdsSlot hd next hheld hfree
  rw [h]
  omega

theorem start_inFlight : (start : Outbound ι).InFlight := rfl

theorem step_inFlight {a : Action ι} (h : s.InFlight) (hstep : step m s a = some t) :
    t.InFlight := by
  cases step_effect hstep with
  | request | unlimited | refuse | pass | resume | addClient | unmark | unmarked | decrement =>
    exact h.of_same rfl rfl
  | reserve => exact h.reserve _
  | disconnect => exact (h.beginRemoval _).of_same rfl rfl
  | removeClient => exact h.beginRemoval _
  | dialEnds hd hphase => exact h.of_same rfl (inPhase_set_same hd (by rw [hphase]; rfl))
  | release hd hphase | fail hd hphase =>
    exact h.release hd (by rw [hphase]; rfl) rfl
  | reject hd hphase | insert hd hphase | discard hd hphase | store hd hphase
  | count hd hphase => exact h.of_same rfl (inPhase_set_same hd (by rw [hphase]; rfl))
  | proceed hd hphase next hnext =>
    exact h.of_same rfl (inPhase_proceed hd hphase hnext DialPhase.holdsSlot_of_settled)
  | @remove _ dial _ hd hphase =>
    have hremoval := h.beginRemoval dial.id
    exact hremoval.of_same rfl (inPhase_set_same (dial_of_beginRemoval hd _) (by rw [hphase]; rfl))
  | close =>
    apply closeConn_cases
    · exact h.of_same rfl rfl
    · intro d dial _ hd
      exact h.of_same rfl (inPhase_set_same hd rfl)

end Outbound

end NexusProxy.Hub
