import NexusProxy.Lib.Calls
import NexusProxy.Bandwidth.ActiveCount
import NexusProxy.Protocol
import Mathlib.Data.List.DropRight

/-! The table of UDP flows that are forwarded to peers. Each operation of the table is atomic; the
calls that use it, any number of them at a time, make several operations each, and between them
calls of the bandwidth scheduler. -/
namespace NexusProxy.Peer.UDPFlows
open Calls Collections Transition
open Bandwidth.ActiveCount (Scheduler Op newScheduler)

/-- `udpOutboundKey`. -/
structure Key (Addr : Type*) where
  client : Addr
  dstPort : ℤ
  deriving DecidableEq

/-- `udpOutboundFlow`, the part that does not change. -/
structure Flow (Addr : Type*) where
  id : ℕ
  key : Key Addr
  routeKey : List Char
  idleTimeout : ℤ
  deriving DecidableEq

def tunnelID (routeKey : List Char) : List Char := ['t', 'u', 'n', 'n', 'e', 'l', ':'] ++ routeKey

theorem tunnelID_injective : Function.Injective tunnelID :=
  List.append_right_injective _

variable {Addr : Type*}

def Flow.bandwidthID (f : Flow Addr) : List Char := tunnelID f.routeKey

/-- An element of the list. -/
structure Entry (Addr : Type*) where
  flow : Flow Addr
  lastSeen : ℤ

def Entry.expired (now : ℤ) (e : Entry Addr) : Bool :=
  0 < e.flow.idleTimeout && 0 < e.lastSeen && e.flow.idleTimeout < now - e.lastSeen

/-- `udpOutboundFlowTable`, the most recent flow in front. The two maps of the source are the
entries by their key and by their id, of which there is one each. `created` is history, every flow
ever made; a flow's id is its place there, so that no id is used twice. -/
structure Table (Addr : Type*) where
  maxFlows : ℕ
  lru : List (Entry Addr)
  created : List (Flow Addr)
  keys : ((lru.map Entry.flow).map Flow.key).Nodup
  ids : ((lru.map Entry.flow).map Flow.id).Nodup
  known : ∀ f ∈ lru.map Entry.flow, created[f.id]? = some f

/-- What a call of `ForwardUDP` knows of its datagram. -/
structure Datagram (Addr : Type*) where
  key : Key Addr
  routeKey : List Char
  idleTimeout : ℤ

namespace Table

def new (maxFlows : ℤ) : Table Addr where
  maxFlows := if maxFlows ≤ 0 then 200000 else maxFlows.toNat
  lru := []
  created := []
  keys := List.nodup_nil
  ids := List.nodup_nil
  known := fun _ h => by simp at h

def flows (t : Table Addr) : List (Flow Addr) := t.lru.map Entry.flow

/-- Only the given entries are left. -/
def keep (t : Table Addr) (entries : List (Entry Addr)) (h : entries.Sublist t.lru) :
    Table Addr where
  maxFlows := t.maxFlows
  lru := entries
  created := t.created
  keys := ((h.map _).map _).nodup t.keys
  ids := ((h.map _).map _).nodup t.ids
  known := fun f hf => t.known f ((h.map _).subset hf)

/-- The first entry with the property is touched and moved to the front. -/
def touch (t : Table Addr) (p : Flow Addr → Bool) (now : ℤ) : Option (Flow Addr × Table Addr) :=
  match h : t.lru.find? (p ∘ Entry.flow) with
  | none => none
  | some e =>
      have hperm := (perm_of_find? h).map Entry.flow
      some (e.flow,
        { maxFlows := t.maxFlows
          lru := ⟨e.flow, now⟩ :: t.lru.eraseP (p ∘ Entry.flow)
          created := t.created
          keys := (hperm.map _).nodup t.keys
          ids := (hperm.map _).nodup t.ids
          known := fun f hf => t.known f (hperm.mem_iff.mpr hf) })

theorem touch_eq_none {t : Table Addr} {p : Flow Addr → Bool} {now : ℤ} :
    t.touch p now = none ↔ ∀ e ∈ t.lru, ¬ p e.flow = true := by
  unfold touch
  split
  · next h => exact iff_of_true rfl (List.find?_eq_none.mp h)
  · next e h =>
    have hp : (p ∘ Entry.flow) e = true := List.find?_some h
    exact iff_of_false (by simp) fun hall => hall e (List.mem_of_find?_eq_some h) hp

theorem touch_of_find? {t : Table Addr} {p : Flow Addr → Bool} {e : Entry Addr}
    (h : t.lru.find? (p ∘ Entry.flow) = some e) (now : ℤ) :
    ∃ t', t.touch p now = some (e.flow, t') ∧
      t'.lru = ⟨e.flow, now⟩ :: t.lru.eraseP (p ∘ Entry.flow) ∧ t'.maxFlows = t.maxFlows := by
  unfold touch
  split
  · next hnone =>
    rw [h] at hnone
    cases hnone
  · next found hfound =>
    obtain rfl := Option.some.inj (h.symm.trans hfound)
    exact ⟨_, rfl, rfl, rfl⟩

def getByID (t : Table Addr) (id : ℕ) (now : ℤ) : Option (Flow Addr × Table Addr) :=
  t.touch (fun f => f.id = id) now

def peekByID (t : Table Addr) (id : ℕ) : Option (Flow Addr) := t.flows.find? fun f => f.id = id

def remove (t : Table Addr) (flow : Flow Addr) : Option (Table Addr) :=
  if t.flows.any fun f => f.id = flow.id then
    some (t.keep (t.lru.eraseP fun e => e.flow.id = flow.id) List.eraseP_sublist)
  else none

def isFull (t : Table Addr) : Bool := t.maxFlows ≤ t.lru.length

def evictOldest (t : Table Addr) : Option (Flow Addr × Table Addr) :=
  t.lru.getLast?.map fun e => (e.flow, t.keep t.lru.dropLast (List.dropLast_sublist _))

/-- Removes flows from the back until one is not expired, and returns them in that order. -/
def reapExpired (t : Table Addr) (now : ℤ) : List (Flow Addr) × Table Addr :=
  ((t.lru.rtakeWhile (Entry.expired now)).reverse.map Entry.flow,
    t.keep (t.lru.rdropWhile (Entry.expired now)) (List.rdropWhile_prefix _ _).sublist)

/-- A flow with a new id in front of a table that has no flow with its key. -/
def push (t : Table Addr) (d : Datagram Addr) (now : ℤ)
    (h : d.key ∉ t.flows.map Flow.key) : Table Addr where
  maxFlows := t.maxFlows
  lru := ⟨⟨t.created.length, d.key, d.routeKey, d.idleTimeout⟩, now⟩ :: t.lru
  created := t.created ++ [⟨t.created.length, d.key, d.routeKey, d.idleTimeout⟩]
  keys := List.nodup_cons.mpr ⟨h, t.keys⟩
  ids := by
    refine List.nodup_cons.mpr ⟨fun hmem => ?_, t.ids⟩
    obtain ⟨f, hf, hid⟩ := List.mem_map.mp hmem
    have hlt := (List.getElem?_eq_some_iff.mp (t.known f hf)).1
    exact absurd hid hlt.ne
  known := by
    intro f hf
    rcases List.mem_cons.mp hf with rfl | hf
    · simp
    · have hlt := (List.getElem?_eq_some_iff.mp (t.known f hf)).1
      rw [List.getElem?_append_left hlt]
      exact t.known f hf

/-- What an operation does: `gone` leaves the table, and the others stay, in some order. -/
structure Leaves (t t' : Table Addr) (gone : List (Flow Addr)) : Prop where
  perm : t.flows.Perm (gone ++ t'.flows)
  created : t'.created = t.created
  maxFlows : t'.maxFlows = t.maxFlows

variable {t t' : Table Addr} {f : Flow Addr} {d : Datagram Addr} {now : ℤ}

theorem leaves_touch {p : Flow Addr → Bool} (h : t.touch p now = some (f, t')) :
    t.Leaves t' [] ∧ f ∈ t.flows := by
  unfold touch at h
  split at h
  · cases h
  · next e he =>
    obtain ⟨rfl, rfl⟩ := Prod.mk.inj (Option.some.inj h)
    have hperm := (perm_of_find? he).map Entry.flow
    exact ⟨⟨hperm, rfl, rfl⟩, List.mem_map_of_mem (List.mem_of_find?_eq_some he)⟩

theorem leaves_remove (h : t.remove f = some t') (hf : t.created[f.id]? = some f) :
    t.Leaves t' [f] := by
  unfold remove at h
  split_ifs at h with hany
  obtain rfl := Option.some.inj h
  have hfind : (t.lru.find? fun e => e.flow.id = f.id).isSome := by
    rw [List.find?_isSome]
    simpa [flows] using hany
  obtain ⟨e, he⟩ := Option.isSome_iff_exists.mp hfind
  -- the entry with this id is that of the flow: both were created under it
  have hid : e.flow.id = f.id := by simpa using List.find?_some he
  have hknown := t.known e.flow (List.mem_map_of_mem (List.mem_of_find?_eq_some he))
  have hflow : e.flow = f := by
    rw [hid, hf] at hknown
    exact (Option.some.inj hknown).symm
  exact ⟨hflow ▸ (perm_of_find? he).map Entry.flow, rfl, rfl⟩

theorem leaves_evictOldest (h : t.evictOldest = some (f, t')) : t.Leaves t' [f] := by
  obtain ⟨e, he, heq⟩ := Option.map_eq_some_iff.mp h
  obtain ⟨rfl, rfl⟩ := Prod.mk.inj heq
  obtain ⟨front, hfront⟩ := List.getLast?_eq_some_iff.mp he
  refine ⟨?_, rfl, rfl⟩
  show (t.lru.map Entry.flow).Perm (e.flow :: t.lru.dropLast.map Entry.flow)
  rw [hfront, List.dropLast_concat, List.map_append]
  exact List.perm_append_singleton _ _

theorem evictOldest_eq_none : t.evictOldest = none ↔ t.lru = [] := by
  simp [evictOldest]

theorem leaves_reapExpired (t : Table Addr) (now : ℤ) :
    t.Leaves (t.reapExpired now).2 (t.reapExpired now).1 := by
  refine ⟨?_, rfl, rfl⟩
  show (t.lru.map Entry.flow).Perm
    ((t.lru.rtakeWhile (Entry.expired now)).reverse.map Entry.flow ++
      (t.lru.rdropWhile (Entry.expired now)).map Entry.flow)
  rw [← List.map_append]
  apply List.Perm.map
  have hsplit : t.lru = t.lru.rdropWhile (Entry.expired now) ++
      t.lru.rtakeWhile (Entry.expired now) := by
    rw [List.rdropWhile, List.rtakeWhile, ← List.reverse_append, List.takeWhile_append_dropWhile,
      List.reverse_reverse]
  conv_lhs => rw [hsplit]
  exact (List.perm_append_comm).trans ((List.reverse_perm _).symm.append_right _)

variable [DecidableEq Addr]

def getByKey (t : Table Addr) (key : Key Addr) (now : ℤ) : Option (Flow Addr × Table Addr) :=
  t.touch (fun f => f.key = key) now

theorem notMem_of_getByKey {key : Key Addr}
    (h : t.getByKey key now = none) : key ∉ t.flows.map Flow.key := by
  intro hmem
  obtain ⟨f, hf, rfl⟩ := List.mem_map.mp hmem
  obtain ⟨e, he, rfl⟩ := List.mem_map.mp hf
  rw [getByKey, touch_eq_none] at h
  simpa using h e he

/-- Whether a flow was added, the flow with the key, and the table. -/
def addIfAbsent (t : Table Addr) (d : Datagram Addr) (now : ℤ) : Bool × Flow Addr × Table Addr :=
  match h : t.getByKey d.key now with
  | some (existing, touched) => (false, existing, touched)
  | none =>
      (true, ⟨t.created.length, d.key, d.routeKey, d.idleTimeout⟩,
        t.push d now (notMem_of_getByKey h))

theorem leaves_addIfAbsent (h : t.addIfAbsent d now = (false, f, t')) :
    t.Leaves t' [] ∧ f ∈ t.flows := by
  unfold addIfAbsent at h
  split at h
  · next existing touched hget =>
    obtain ⟨-, hnext⟩ := Prod.mk.inj h
    obtain ⟨rfl, rfl⟩ := Prod.mk.inj hnext
    exact leaves_touch hget
  · simp at h

theorem addIfAbsent_added (h : t.addIfAbsent d now = (true, f, t')) :
    t'.flows = f :: t.flows ∧ f = ⟨t.created.length, d.key, d.routeKey, d.idleTimeout⟩ ∧
      t'.created = t.created ++ [f] ∧ t'.maxFlows = t.maxFlows := by
  unfold addIfAbsent at h
  split at h
  · simp at h
  · obtain ⟨-, hnext⟩ := Prod.mk.inj h
    obtain ⟨rfl, rfl⟩ := Prod.mk.inj hnext
    exact ⟨rfl, rfl, rfl, rfl⟩

end Table

/-! ### Calls -/

/-- The instructions of `ForwardUDP`, of the handlers of peers and of the reaper. A call of the
scheduler is one instruction for each of its atomic steps; it is about the bandwidth id of a
flow. -/
inductive Instr (Addr : Type*) where
  | getByKey (d : Datagram Addr)
  | sendFast (flow : Flow Addr) (d : Datagram Addr)
  | getPeer (d : Datagram Addr)
  | isFull (d : Datagram Addr)
  | evictOldest (d : Datagram Addr)
  | addIfAbsent (d : Datagram Addr)
  | sendOpen (flow : Flow Addr)
  | sendDatagram (flow : Flow Addr)
  | remove (flow : Flow Addr)
  | cleanup (flow : Flow Addr)
  | reapExpired
  | getByID (id : ℕ)
  | writeTo (flow : Flow Addr)
  | peekByID (id : ℕ)
  | schedule (flow : Flow Addr) (op : Op (List Char))

structure Memory (Addr : Type*) where
  table : Table Addr
  scheduler : Scheduler (List Char)

/-- What the rest of the program decides: the reading of the clock, whether a peer has the route,
and whether a send is allowed and works. -/
structure Choice where
  now : ℤ
  found : Bool
  failed : Bool

/-- The calls of the scheduler, for the bandwidth id of a flow. -/
def schedule (flow : Flow Addr) : Op (List Char) → List (Instr Addr)
  | .done => []
  | op => [.schedule flow op]

def requestSend (s : Scheduler (List Char)) (flow : Flow Addr) : List (Instr Addr) :=
  schedule flow (s.start (.requestSend flow.bandwidthID))

def registerShared (s : Scheduler (List Char)) (flow : Flow Addr) : List (Instr Addr) :=
  schedule flow (s.start (.registerShared flow.bandwidthID))

def unregisterShared (s : Scheduler (List Char)) (flow : Flow Addr) : List (Instr Addr) :=
  schedule flow (s.start (.unregisterShared flow.bandwidthID))

variable [DecidableEq Addr]

def exec (c : Choice) (m : Memory Addr) : Instr Addr → Option (Memory Addr × List (Instr Addr))
  -- `ForwardUDP`, the fast path; a send that is not allowed is dropped like one that works
  | .getByKey d =>
      match m.table.getByKey d.key c.now with
      | some (flow, table) =>
          some ({ m with table := table }, requestSend m.scheduler flow ++ [.sendFast flow d])
      | none => some (m, [.getPeer d])
  | .sendFast flow d => some (m, if c.failed then [.remove flow, .getPeer d] else [])
  | .getPeer d => some (m, if c.found then [.isFull d] else [])
  | .isFull d => some (m, if m.table.isFull then [.evictOldest d] else [.addIfAbsent d])
  | .evictOldest d =>
      match m.table.evictOldest with
      | some (flow, table) => some ({ m with table := table }, [.cleanup flow, .addIfAbsent d])
      | none => some (m, [.addIfAbsent d])
  | .addIfAbsent d =>
      match m.table.addIfAbsent d c.now with
      | (false, flow, table) =>
          some ({ m with table := table }, requestSend m.scheduler flow ++ [.sendDatagram flow])
      | (true, flow, table) =>
          some ({ m with table := table }, registerShared m.scheduler flow ++ [.sendOpen flow])
  | .sendOpen flow =>
      some (m, if c.failed then [.remove flow]
        else requestSend m.scheduler flow ++ [.sendDatagram flow])
  | .sendDatagram flow => some (m, if c.failed then [.remove flow] else [])
  | .remove flow =>
      match m.table.remove flow with
      | some table => some ({ m with table := table }, [.cleanup flow])
      | none => some (m, [])
  | .cleanup flow => some (m, unregisterShared m.scheduler flow)
  | .reapExpired =>
      let (flows, table) := m.table.reapExpired c.now
      some ({ m with table := table }, flows.map .cleanup)
  -- `HandleOutboundUDPData`
  | .getByID id =>
      match m.table.getByID id c.now with
      | some (flow, table) => some ({ m with table := table }, [.writeTo flow])
      | none => some (m, [])
  | .writeTo flow => some (m, if c.failed then [.remove flow] else [])
  -- `HandleOutboundUDPClose`
  | .peekByID id =>
      match m.table.peekByID id with
      | some flow => some (m, [.remove flow])
      | none => some (m, [])
  | .schedule flow op =>
      (m.scheduler.advance none false op).map fun (scheduler, op) =>
        ({ m with scheduler := scheduler }, schedule flow op)

abbrev State (Addr : Type*) := System (Memory Addr) (Instr Addr)

inductive Action (Addr : Type*) where
  | forwardUDP (d : Datagram Addr)
  | handleOutboundUDPData (id : ℕ)
  | handleOutboundUDPClose (id : ℕ)
  | reap
  | go (g : ℕ) (c : Choice)

def step (s : State Addr) : Action Addr → Option (State Addr)
  | .forwardUDP d => some (spawn s [.getByKey d])
  | .handleOutboundUDPData id => some (spawn s [.getByID id])
  | .handleOutboundUDPClose id => some (spawn s [.peekByID id])
  | .reap => some (spawn s [.reapExpired])
  | .go g c => Calls.step (fun _ => exec c) s g

def init (maxFlows totalMbps : ℤ) : State Addr :=
  ⟨⟨.new maxFlows, newScheduler totalMbps⟩, []⟩

/-! ### What an instruction does -/

def Instr.flow? : Instr Addr → Option (Flow Addr)
  | .sendFast f _ | .sendOpen f | .sendDatagram f | .remove f | .cleanup f | .writeTo f
  | .schedule f _ => some f
  | _ => none

/-- An instruction that cleans up, or is a step of a call of the scheduler. -/
def Instr.isCall : Instr Addr → Bool
  | .cleanup _ | .schedule _ _ => true
  | _ => false

/-- An instruction that adds nothing and is no part of a registration. -/
def Instr.Plain : Instr Addr → Prop
  | .addIfAbsent _ | .cleanup _ => False
  | .schedule f op => op = .load f.bandwidthID
  | _ => True

/-- A call that has passed the check of the capacity and has not made its addition. -/
def Instr.adds : Instr Addr → ℕ
  | .addIfAbsent _ => 1
  | _ => 0

/-- A call passes the check of the capacity without taking a flow out: the table is not full, or
it was and there is nothing left to evict. -/
def Instr.Passes (m : Memory Addr) : Instr Addr → Prop
  | .isFull _ => m.table.isFull = false
  | .evictOldest _ => m.table.lru.length = 0
  | _ => False

instance decidablePasses (m : Memory Addr) : DecidablePred (Instr.Passes m)
  | .isFull _ => inferInstanceAs (Decidable (m.table.isFull = false))
  | .evictOldest _ => inferInstanceAs (Decidable (m.table.lru.length = 0))
  | .getByKey _ | .sendFast _ _ | .getPeer _ | .addIfAbsent _ | .sendOpen _ | .sendDatagram _
  | .remove _ | .cleanup _ | .reapExpired | .getByID _ | .writeTo _ | .peekByID _
  | .schedule _ _ => isFalse id

/-- What an instruction does to the table and to the scheduler. -/
inductive Effect (m : Memory Addr) : Instr Addr → Memory Addr → List (Instr Addr) → Prop where
  /-- It finds a flow, or decides how the call goes on. -/
  | looks {i : Instr Addr} {table : Table Addr} {pushed : List (Instr Addr)}
      (hleaves : m.table.Leaves table []) (hi : i.isCall = false)
      (hpushed : ∀ j ∈ pushed, j.Plain)
      (hflow : ∀ j ∈ pushed, ∀ f ∈ j.flow?, f ∈ m.table.flows ∨ f ∈ i.flow?) :
      Effect m i { m with table := table } pushed
  | passes {i : Instr Addr} {d : Datagram Addr} (hi : i.Passes m) :
      Effect m i m [.addIfAbsent d]
  /-- Flows leave the table and are cleaned up. -/
  | removes {i : Instr Addr} {table : Table Addr} {gone : List (Flow Addr)}
      {rest : List (Instr Addr)} (hleaves : m.table.Leaves table gone) (hi : i.isCall = false)
      (hrest : ∀ j ∈ rest, ∃ d, j = .addIfAbsent d) (hlength : rest.length ≤ gone.length) :
      Effect m i { m with table := table } (gone.map .cleanup ++ rest)
  | adds {d : Datagram Addr} {f : Flow Addr} {table : Table Addr}
      (hflows : table.flows = f :: m.table.flows) (hid : f.id = m.table.created.length)
      (hcreated : table.created = m.table.created ++ [f])
      (hmax : table.maxFlows = m.table.maxFlows) :
      Effect m (.addIfAbsent d) { m with table := table }
        (registerShared m.scheduler f ++ [.sendOpen f])
  | cleansUp (f : Flow Addr) : Effect m (.cleanup f) m (unregisterShared m.scheduler f)
  | schedules {f : Flow Addr} {op op' : Op (List Char)} {scheduler : Scheduler (List Char)}
      (hadvance : m.scheduler.advance none false op = some (scheduler, op')) :
      Effect m (.schedule f op) { m with scheduler := scheduler } (schedule f op')

section Effects
variable {m m' : Memory Addr} {i : Instr Addr} {pushed : List (Instr Addr)} {c : Choice}

omit [DecidableEq Addr] in
theorem mem_requestSend {s : Scheduler (List Char)} {flow : Flow Addr} {j : Instr Addr}
    (h : j ∈ requestSend s flow) : j = .schedule flow (.load flow.bandwidthID) := by
  unfold requestSend Bandwidth.ActiveCount.Scheduler.start at h
  dsimp only at h
  split_ifs at h
  · cases h
  · exact List.mem_singleton.mp h

omit [DecidableEq Addr] in
theorem forall_requestSend {s : Scheduler (List Char)} {flow : Flow Addr} {last : Instr Addr}
    {P : Instr Addr → Prop} (hrequest : P (.schedule flow (.load flow.bandwidthID)))
    (hlast : P last) : ∀ j ∈ requestSend s flow ++ [last], P j := by
  intro j hj
  rcases List.mem_append.mp hj with hj | hj
  · rw [mem_requestSend hj]
    exact hrequest
  · rw [List.mem_singleton.mp hj]
    exact hlast

omit [DecidableEq Addr] in
theorem Table.leaves_refl (t : Table Addr) : t.Leaves t [] := ⟨List.Perm.refl _, rfl, rfl⟩

omit [DecidableEq Addr] in
theorem Effect.stays (hi : i.isCall = false) (hpushed : ∀ j ∈ pushed, j.Plain)
    (hflow : ∀ j ∈ pushed, ∀ f ∈ j.flow?, f ∈ m.table.flows ∨ f ∈ i.flow?) :
    Effect m i m pushed :=
  .looks (Table.leaves_refl m.table) hi hpushed hflow

omit [DecidableEq Addr] in
theorem Effect.ends (hi : i.isCall = false) : Effect m i m [] :=
  .stays hi (fun _ h => by cases h) (fun _ h => by cases h)

omit [DecidableEq Addr] in
theorem Effect.fails {f : Flow Addr} (hi : i.isCall = false) (hf : i.flow? = some f)
    (failed : Bool) : Effect m i m (if failed then [.remove f] else []) := by
  cases failed with
  | false => exact .ends hi
  | true =>
    refine .stays hi ?_ ?_
    · intro j hj
      rw [List.mem_singleton.mp hj]
      trivial
    · intro j hj f' hf'
      rw [List.mem_singleton.mp hj] at hf'
      exact .inr (hf.trans hf')

theorem exec_effect (hknown : ∀ f ∈ i.flow?, m.table.created[f.id]? = some f)
    (h : exec c m i = some (m', pushed)) : Effect m i m' pushed := by
  cases i with
  | getByKey d =>
    rw [exec] at h
    split at h
    · next flow table hget =>
      obtain ⟨rfl, rfl⟩ := Prod.mk.inj (Option.some.inj h)
      obtain ⟨hleaves, hmem⟩ := Table.leaves_touch hget
      refine .looks hleaves rfl (forall_requestSend rfl trivial) (forall_requestSend ?_ ?_)
      all_goals
        intro f hf
        obtain rfl := Option.some.inj hf
        exact .inl hmem
    · obtain ⟨rfl, rfl⟩ := Prod.mk.inj (Option.some.inj h)
      exact .stays rfl (by simp [Instr.Plain]) (by simp [Instr.flow?])
  | sendFast flow d =>
    obtain ⟨rfl, rfl⟩ := Prod.mk.inj (Option.some.inj h)
    split_ifs
    · exact .stays rfl (by simp [Instr.Plain]) (by simp [Instr.flow?])
    · exact .ends rfl
  | getPeer d =>
    obtain ⟨rfl, rfl⟩ := Prod.mk.inj (Option.some.inj h)
    split_ifs
    · exact .stays rfl (by simp [Instr.Plain]) (by simp [Instr.flow?])
    · exact .ends rfl
  | isFull d =>
    obtain ⟨rfl, rfl⟩ := Prod.mk.inj (Option.some.inj h)
    split_ifs with hfull
    · exact .stays rfl (by simp [Instr.Plain]) (by simp [Instr.flow?])
    · exact .passes (Bool.eq_false_iff.mpr hfull)
  | evictOldest d =>
    rw [exec] at h
    split at h
    · next flow table hevict =>
      obtain ⟨rfl, rfl⟩ := Prod.mk.inj (Option.some.inj h)
      have heffect : Effect m (.evictOldest d) _ ([flow].map .cleanup ++ [.addIfAbsent d]) :=
        .removes (Table.leaves_evictOldest hevict) rfl (by simp) le_rfl
      exact heffect
    · next hevict =>
      obtain ⟨rfl, rfl⟩ := Prod.mk.inj (Option.some.inj h)
      exact .passes (List.length_eq_zero_iff.mpr (Table.evictOldest_eq_none.mp hevict))
  | addIfAbsent d =>
    rw [exec] at h
    split at h
    · next flow table hadd =>
      obtain ⟨rfl, rfl⟩ := Prod.mk.inj (Option.some.inj h)
      obtain ⟨hleaves, hmem⟩ := Table.leaves_addIfAbsent hadd
      refine .looks hleaves rfl (forall_requestSend rfl trivial) (forall_requestSend ?_ ?_)
      all_goals
        intro f hf
        obtain rfl := Option.some.inj hf
        exact .inl hmem
    · next flow table hadd =>
      obtain ⟨rfl, rfl⟩ := Prod.mk.inj (Option.some.inj h)
      obtain ⟨hflows, hflow, hcreated, hmax⟩ := Table.addIfAbsent_added hadd
      exact .adds hflows (congrArg Flow.id hflow) hcreated hmax
  | sendOpen flow =>
    obtain ⟨rfl, rfl⟩ := Prod.mk.inj (Option.some.inj h)
    split_ifs
    · exact .stays rfl (by simp [Instr.Plain]) (by simp [Instr.flow?])
    · refine .stays rfl (forall_requestSend rfl trivial) (forall_requestSend ?_ ?_)
      all_goals
        intro f hf
        exact .inr hf
  | sendDatagram flow =>
    obtain ⟨rfl, rfl⟩ := Prod.mk.inj (Option.some.inj h)
    exact .fails rfl rfl _
  | remove flow =>
    rw [exec] at h
    split at h
    · next table hremove =>
      obtain ⟨rfl, rfl⟩ := Prod.mk.inj (Option.some.inj h)
      have heffect : Effect m (.remove flow) _ ([flow].map .cleanup ++ []) :=
        .removes (Table.leaves_remove hremove (hknown flow rfl)) rfl (by simp) (by simp)
      exact heffect
    · obtain ⟨rfl, rfl⟩ := Prod.mk.inj (Option.some.inj h)
      exact .ends rfl
  | cleanup flow =>
    obtain ⟨rfl, rfl⟩ := Prod.mk.inj (Option.some.inj h)
    exact .cleansUp flow
  | reapExpired =>
    obtain ⟨rfl, rfl⟩ := Prod.mk.inj (Option.some.inj h)
    have heffect : Effect m .reapExpired _ ((m.table.reapExpired c.now).1.map .cleanup ++ []) :=
      .removes (Table.leaves_reapExpired m.table c.now) rfl (by simp) (by simp)
    rwa [List.append_nil] at heffect
  | getByID id =>
    rw [exec] at h
    split at h
    · next flow table hget =>
      obtain ⟨rfl, rfl⟩ := Prod.mk.inj (Option.some.inj h)
      obtain ⟨hleaves, hmem⟩ := Table.leaves_touch hget
      exact .looks hleaves rfl (by simp [Instr.Plain]) (by simp [Instr.flow?, hmem])
    · obtain ⟨rfl, rfl⟩ := Prod.mk.inj (Option.some.inj h)
      exact .ends rfl
  | writeTo flow =>
    obtain ⟨rfl, rfl⟩ := Prod.mk.inj (Option.some.inj h)
    exact .fails rfl rfl _
  | peekByID id =>
    rw [exec] at h
    split at h
    · next flow hpeek =>
      obtain ⟨rfl, rfl⟩ := Prod.mk.inj (Option.some.inj h)
      have hmem := List.mem_of_find?_eq_some hpeek
      exact .stays rfl (by simp [Instr.Plain]) (by simp [Instr.flow?, hmem])
    · obtain ⟨rfl, rfl⟩ := Prod.mk.inj (Option.some.inj h)
      exact .ends rfl
  | schedule flow op =>
    obtain ⟨⟨scheduler, op'⟩, hadvance, hnext⟩ := Option.map_eq_some_iff.mp h
    obtain ⟨rfl, rfl⟩ := Prod.mk.inj hnext
    exact .schedules hadvance

omit [DecidableEq Addr] in
theorem mem_registerShared {s : Scheduler (List Char)} {flow : Flow Addr} {j : Instr Addr}
    (h : j ∈ registerShared s flow) : j = .schedule flow (.lockRetain flow.bandwidthID) :=
  List.mem_singleton.mp h

omit [DecidableEq Addr] in
theorem mem_schedule {flow : Flow Addr} {op : Op (List Char)} {j : Instr Addr}
    (h : j ∈ schedule flow op) : j = .schedule flow op := by
  cases op with
  | done => cases h
  | _ => exact List.mem_singleton.mp h

omit [DecidableEq Addr] in
theorem Effect.created (h : Effect m i m' pushed) {id : ℕ} {f : Flow Addr}
    (hf : m.table.created[id]? = some f) : m'.table.created[id]? = some f := by
  cases h with
  | looks hleaves => exact hleaves.created ▸ hf
  | removes hleaves => exact hleaves.created ▸ hf
  | adds hflows hid hcreated hmax =>
    dsimp only
    rw [hcreated, List.getElem?_append_left (List.getElem?_eq_some_iff.mp hf).1]
    exact hf
  | passes hi => exact hf
  | cleansUp f => exact hf
  | schedules hadvance => exact hf

omit [DecidableEq Addr] in
theorem Effect.known (h : Effect m i m' pushed)
    (hi : ∀ f ∈ i.flow?, m.table.created[f.id]? = some f) {j : Instr Addr} (hj : j ∈ pushed)
    {f : Flow Addr} (hf : f ∈ j.flow?) : m'.table.created[f.id]? = some f := by
  have hkept : m.table.created[f.id]? = some f → m'.table.created[f.id]? = some f := h.created
  cases h with
  | looks hleaves hcall hplain hflow =>
    rcases hflow j hj f hf with hmem | hmem
    · exact hkept (m.table.known f hmem)
    · exact hkept (hi f hmem)
  | passes hpasses =>
    rw [List.mem_singleton.mp hj] at hf
    cases hf
  | removes hleaves hcall hrest hlength =>
    rcases List.mem_append.mp hj with hj | hj
    · obtain ⟨f', hf', rfl⟩ := List.mem_map.mp hj
      obtain rfl := Option.some.inj hf
      exact hkept (m.table.known f' (hleaves.perm.mem_iff.mpr (List.mem_append_left _ hf')))
    · obtain ⟨d, rfl⟩ := hrest j hj
      cases hf
  | @adds d f' table hflows hid hcreated hmax =>
    have hmade : table.created[f'.id]? = some f' := by
      rw [hcreated, hid]
      exact List.getElem?_concat_length
    rcases List.mem_append.mp hj with hj | hj
    · rw [mem_registerShared hj] at hf
      exact Option.some.inj hf ▸ hmade
    · rw [List.mem_singleton.mp hj] at hf
      exact Option.some.inj hf ▸ hmade
  | cleansUp f' =>
    rw [List.mem_singleton.mp hj] at hf
    exact hi f hf
  | schedules hadvance =>
    rw [mem_schedule hj] at hf
    exact hi f hf

end Effects

def Known (s : State Addr) : Prop :=
  ∀ stack ∈ s.goroutines, ∀ i ∈ stack, ∀ f ∈ i.flow?, s.shared.table.created[f.id]? = some f

section Steps
variable {s t : State Addr} {a : Action Addr}

theorem step_effect (hknown : Known s) (h : step s a = some t) :
    (∃ i : Instr Addr, i.flow? = none ∧ i.adds = 0 ∧ i.isCall = false ∧ t = spawn s [i]) ∨
    ∃ g c i rest m' pushed, a = .go g c ∧ s.goroutines[g]? = some (i :: rest) ∧
      Effect s.shared i m' pushed ∧ t = ⟨m', s.goroutines.set g (pushed ++ rest)⟩ := by
  cases a with
  | forwardUDP d => exact .inl ⟨_, rfl, rfl, rfl, (Option.some.inj h).symm⟩
  | handleOutboundUDPData id => exact .inl ⟨_, rfl, rfl, rfl, (Option.some.inj h).symm⟩
  | handleOutboundUDPClose id => exact .inl ⟨_, rfl, rfl, rfl, (Option.some.inj h).symm⟩
  | reap => exact .inl ⟨_, rfl, rfl, rfl, (Option.some.inj h).symm⟩
  | go g c =>
    have hgo : Calls.step (fun _ => exec c) s g = some t := h
    obtain ⟨i, rest, m', pushed, hstack, hexec, rfl⟩ := step_eq_some hgo
    have hi := hknown _ (List.mem_of_getElem? hstack) i List.mem_cons_self
    exact .inr ⟨g, c, i, rest, m', pushed, rfl, hstack, exec_effect hi hexec, rfl⟩

theorem known_step (hknown : Known s) (h : step s a = some t) : Known t := by
  rcases step_effect hknown h with ⟨i, hflow, -, -, rfl⟩ | ⟨g, c, i, rest, m', pushed, -, hstack,
    heffect, rfl⟩
  · intro stack hstack j hj f hf
    rcases List.mem_append.mp hstack with hstack | hstack
    · exact hknown stack hstack j hj f hf
    · obtain rfl := List.mem_singleton.mp hstack
      rw [List.mem_singleton.mp hj, hflow] at hf
      cases hf
  · have hmem := List.mem_of_getElem? hstack
    intro stack hstack j hj f hf
    rcases List.mem_or_eq_of_mem_set hstack with hstack | rfl
    · exact heffect.created (hknown stack hstack j hj f hf)
    · rcases List.mem_append.mp hj with hj | hj
      · exact heffect.known (hknown _ hmem i List.mem_cons_self) hj hf
      · exact heffect.created (hknown _ hmem j (List.mem_cons_of_mem i hj) f hf)

end Steps

/-! ### The cap on the number of flows -/

/-- The calls that have passed the check of the capacity and have not made their addition. -/
def adding (s : State Addr) : ℕ := totalWeight Instr.adds s.goroutines

/-- When a call passes the check, there is room for one more flow beside those of the table and
those that other calls are about to add. -/
def Room (s : State Addr) : Action Addr → Prop
  | .go g _ => ∀ i ∈ (s.goroutines[g]?).bind List.head?, i.Passes s.shared →
      s.shared.table.flows.length + adding s < s.shared.table.maxFlows
  | _ => True

instance decidableRoom (s : State Addr) : DecidablePred (Room s)
  | .go g _ => inferInstanceAs (Decidable (∀ i ∈ (s.goroutines[g]?).bind List.head?, _ → _))
  | .forwardUDP _ | .handleOutboundUDPData _ | .handleOutboundUDPClose _ | .reap => isTrue trivial

section Cap
variable {m m' : Memory Addr} {i : Instr Addr} {pushed : List (Instr Addr)}

omit [DecidableEq Addr] in
theorem weight_adds_eq_zero {l : List (Instr Addr)} (h : ∀ j ∈ l, j.adds = 0) :
    weight Instr.adds l = 0 := by
  induction l with
  | nil => rfl
  | cons j l ih =>
    rw [weight_cons, h j List.mem_cons_self, ih fun k hk => h k (List.mem_cons_of_mem j hk)]

omit [DecidableEq Addr] in
theorem Table.Leaves.length {t t' : Table Addr} {gone : List (Flow Addr)} (h : t.Leaves t' gone) :
    t.flows.length = gone.length + t'.flows.length := by
  rw [h.perm.length_eq, List.length_append]

omit [DecidableEq Addr] in
/-- A step adds no more flows than it had promised, except when it passes the check. -/
theorem Effect.adds_le (h : Effect m i m' pushed) :
    m'.table.maxFlows = m.table.maxFlows ∧
      (m'.table.flows.length + weight Instr.adds pushed ≤ m.table.flows.length + i.adds ∨
        i.Passes m ∧ m'.table.flows.length + weight Instr.adds pushed =
          m.table.flows.length + i.adds + 1) := by
  cases h with
  | looks hleaves hcall hplain hflow =>
    have hweight : weight Instr.adds pushed = 0 := by
      apply weight_adds_eq_zero
      intro j hj
      have hj' := hplain j hj
      cases j <;> first | rfl | exact hj'.elim
    have hlength := hleaves.length
    refine ⟨hleaves.maxFlows, .inl ?_⟩
    dsimp only
    simp only [List.length_nil] at hlength
    omega
  | passes hpasses =>
    have hi : i.adds = 0 := by cases i <;> first | rfl | exact hpasses.elim
    refine ⟨rfl, .inr ⟨hpasses, ?_⟩⟩
    rw [hi]
    rfl
  | @removes i table gone rest hleaves hcall hrest hlength =>
    have hgone : weight Instr.adds (gone.map Instr.cleanup) = 0 := by
      apply weight_adds_eq_zero
      simp [Instr.adds]
    have hadds : weight Instr.adds rest = rest.length := by
      clear hlength
      induction rest with
      | nil => rfl
      | cons j rest ih =>
        obtain ⟨d, rfl⟩ := hrest j List.mem_cons_self
        rw [weight_cons, ih fun k hk => hrest k (List.mem_cons_of_mem _ hk), List.length_cons]
        exact add_comm _ _
    have hleft := hleaves.length
    refine ⟨hleaves.maxFlows, .inl ?_⟩
    rw [weight_append]
    dsimp only
    omega
  | adds hflows hid hcreated hmax =>
    refine ⟨hmax, .inl ?_⟩
    dsimp only
    rw [hflows, weight_append, weight_adds_eq_zero fun j hj => by rw [mem_registerShared hj]; rfl]
    exact le_rfl
  | cleansUp f => exact ⟨rfl, .inl le_rfl⟩
  | schedules hadvance =>
    refine ⟨rfl, .inl ?_⟩
    rw [weight_adds_eq_zero fun j hj => by rw [mem_schedule hj]; rfl]
    exact Nat.le_add_right _ _

end Cap

/-- The flows of the table, and those that calls are about to add, are within the cap. -/
structure Capped (maxFlows : ℕ) (s : State Addr) : Prop where
  known : Known s
  cap : s.shared.table.maxFlows = maxFlows
  within : s.shared.table.flows.length + adding s ≤ maxFlows

omit [DecidableEq Addr] in
theorem capped_init (maxFlows totalMbps : ℤ) :
    Capped (Table.new maxFlows : Table Addr).maxFlows (init maxFlows totalMbps : State Addr) :=
  ⟨fun _ h => by simp [init] at h, rfl, Nat.zero_le _⟩

theorem Capped.step {maxFlows : ℕ} {s t : State Addr} {a : Action Addr} (h : Capped maxFlows s)
    (hroom : Room s a) (hstep : UDPFlows.step s a = some t) : Capped maxFlows t := by
  have hknown := known_step h.known hstep
  have hwithin := h.within
  have hcap := h.cap
  rcases step_effect h.known hstep with ⟨i, -, hadds, -, rfl⟩ | ⟨g, c, i, rest, m', pushed, rfl,
    hstack, heffect, rfl⟩
  · refine ⟨hknown, hcap, ?_⟩
    have hspawn := totalWeight_concat Instr.adds s.goroutines [i]
    rw [weight_cons, hadds, weight_nil] at hspawn
    unfold adding at *
    exact le_of_eq_of_le (congrArg (s.shared.table.flows.length + ·) hspawn) hwithin
  · obtain ⟨hmax, hle⟩ := heffect.adds_le
    refine ⟨hknown, hmax.trans hcap, ?_⟩
    have hset := totalWeight_set Instr.adds hstack (pushed ++ rest)
    rw [weight_append, weight_cons] at hset
    have hpasses := hroom i (by simp [hstack])
    unfold adding at *
    dsimp only
    rcases hle with hle | ⟨hi, heq⟩
    · omega
    · have := hpasses hi
      omega

/-- While every call that passes the check finds room for its flow, the table never has more flows
than its cap. -/
theorem flows_le_maxFlows {maxFlows totalMbps : ℤ} {trace : List (Action Addr)} {t : State Addr}
    (hroom : Along step Room (init maxFlows totalMbps) trace)
    (hrun : run step (init maxFlows totalMbps) trace = some t) :
    t.shared.table.flows.length ≤ t.shared.table.maxFlows ∧
      t.shared.table.maxFlows = if maxFlows ≤ 0 then 200000 else maxFlows.toNat := by
  have hcapped : Capped (Table.new maxFlows : Table Addr).maxFlows t :=
    invariant_along (fun _ _ _ h hr hs => h.step hr hs) (capped_init maxFlows totalMbps) hroom hrun
  have hwithin := hcapped.within
  have hcap := hcapped.cap
  exact ⟨by omega, hcap⟩

/-- A datagram of the client `n` to a listener port. -/
def query (n : ℕ) (port : ℤ) : Datagram ℕ := ⟨⟨n, port⟩, Protocol.routeKey .udp port, 30⟩

/-- A peer has the route, and the send works. -/
def works : Choice := ⟨1, true, false⟩

/-- The second of two calls, one after the other, evicts the flow of the first. -/
theorem flows_le_maxFlows_evict :
    ∃ t, run step (init 1 1 : State ℕ)
        ([Action.forwardUDP (query 0 53)] ++ List.replicate 4 (Action.go 0 works) ++
          [Action.forwardUDP (query 1 53)] ++ List.replicate 9 (Action.go 1 works)) = some t ∧
      t.shared.table.flows.length = 1 ∧
      t.shared.table.flows.length ≤ t.shared.table.maxFlows ∧
        t.shared.table.maxFlows = if (1 : ℤ) ≤ 0 then 200000 else (1 : ℤ).toNat := by
  obtain ⟨t, hrun, hlength⟩ : ∃ t, run step (init 1 1 : State ℕ)
      ([Action.forwardUDP (query 0 53)] ++ List.replicate 4 (Action.go 0 works) ++
        [Action.forwardUDP (query 1 53)] ++ List.replicate 9 (Action.go 1 works)) = some t ∧
      t.shared.table.flows.length = 1 := exists_run_of_any (by decide +kernel)
  exact ⟨t, hrun, hlength, flows_le_maxFlows (by decide +kernel) hrun⟩

/-- Calls of the listeners of two ports find the table not full, and both add their flow. -/
theorem flows_exceed_maxFlows :
    ∃ t, run step (init 1 1 : State ℕ)
        ([Action.forwardUDP (query 0 53), .forwardUDP (query 1 123)] ++
          List.replicate 3 (Action.go 0 works) ++ List.replicate 3 (Action.go 1 works) ++
          [Action.go 0 works, .go 1 works]) = some t ∧
      t.shared.table.flows.length = 2 ∧ t.shared.table.maxFlows = 1 :=
  exists_run_of_any (by decide +kernel)

end NexusProxy.Peer.UDPFlows
