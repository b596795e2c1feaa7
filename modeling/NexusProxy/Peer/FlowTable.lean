import NexusProxy.Lib.LinkedList
import NexusProxy.Peer.UDPFlows

/-! The table of forwarded UDP flows as the source keeps it, with two maps into its list: the maps
and the list agree over all calls, and no flow is reported as removed twice. -/
namespace NexusProxy.Peer.UDPFlows
open LinkedList Transition

/-- `udpOutboundFlowTable`; the maps lead to the cells of the list. -/
structure FlowTable (Addr : Type*) where
  maxFlows : ℕ
  byKey : AList fun _ : Key Addr => ℕ
  byID : AList fun _ : ℕ => ℕ
  lru : LinkedList (Entry Addr)

variable {Addr : Type*}

def Entry.key (e : Entry Addr) : Key Addr := e.flow.key

def Entry.id (e : Entry Addr) : ℕ := e.flow.id

def Entry.touch (now : ℤ) (e : Entry Addr) : Entry Addr := { e with lastSeen := now }

namespace FlowTable

def new (maxFlows : ℤ) : FlowTable Addr where
  maxFlows := if maxFlows ≤ 0 then 200000 else maxFlows.toNat
  byKey := ∅
  byID := ∅
  lru := .empty

/-- The flow of a cell is touched and its cell moved to the front. -/
def refresh (t : FlowTable Addr) (el : ℕ) (now : ℤ) : FlowTable Addr :=
  { t with lru := (t.lru.modify el (Entry.touch now)).moveToFront el }

/-- Both look-ups, after that in their map. An address in a map is that of a cell of the list, so
that its value is always there. -/
def getBy (t : FlowTable Addr) (el : Option ℕ) (now : ℤ) : Option (Flow Addr × FlowTable Addr) :=
  el.bind fun el => (t.lru.value? el).map fun e => (e.flow, t.refresh el now)

def getByID (t : FlowTable Addr) (id : ℕ) (now : ℤ) : Option (Flow Addr × FlowTable Addr) :=
  t.getBy (t.byID.lookup id) now

def peekByID (t : FlowTable Addr) (id : ℕ) : Option (Flow Addr) :=
  ((t.byID.lookup id).bind t.lru.value?).map Entry.flow

def isFull (t : FlowTable Addr) : Bool := t.maxFlows ≤ t.lru.len

variable [DecidableEq Addr]

def getByKey (t : FlowTable Addr) (key : Key Addr) (now : ℤ) :
    Option (Flow Addr × FlowTable Addr) :=
  t.getBy (t.byKey.lookup key) now

def removeLocked (t : FlowTable Addr) (flow : Flow Addr) : Bool × FlowTable Addr :=
  match t.byID.lookup flow.id with
  | none => (false, t)
  | some el =>
      (true,
        { t with
          lru := t.lru.remove el
          byKey := t.byKey.erase flow.key
          byID := t.byID.erase flow.id })

def remove (t : FlowTable Addr) (flow : Flow Addr) : Bool × FlowTable Addr := t.removeLocked flow

def push (t : FlowTable Addr) (flow : Flow Addr) (now : ℤ) : FlowTable Addr :=
  { t with
    lru := t.lru.pushFront ⟨flow, now⟩
    byKey := t.byKey.insert flow.key t.lru.next
    byID := t.byID.insert flow.id t.lru.next }

/-- A flow with the same key is removed first, and nobody is told. -/
def add (t : FlowTable Addr) (flow : Flow Addr) (now : ℤ) : FlowTable Addr :=
  match (t.byKey.lookup flow.key).bind t.lru.value? with
  | some existing => (t.removeLocked existing.flow).2.push flow now
  | none => t.push flow now

/-- The flow that has the key already, if there is one. -/
def addIfAbsent (t : FlowTable Addr) (flow : Flow Addr) (now : ℤ) :
    Option (Flow Addr) × FlowTable Addr :=
  match t.getByKey flow.key now with
  | some (existing, touched) => (some existing, touched)
  | none => (none, t.push flow now)

def evictOldest (t : FlowTable Addr) : Option (Flow Addr) × FlowTable Addr :=
  match t.lru.back with
  | none => (none, t)
  | some back => (some back.2.flow, (t.removeLocked back.2.flow).2)

/-- The loop turns at most once for each flow. -/
def reapExpired (t : FlowTable Addr) (now : ℤ) : List (Flow Addr) × FlowTable Addr :=
  let out := popWhile lru (fun t back => (t.removeLocked back.2.flow).2)
    (fun _ e => e.expired now) t.lru.len t
  (out.1.map Entry.flow, out.2)

/-! ### One operation -/

/-- Both maps have the flows of the list. -/
structure Consistent (t : FlowTable Addr) : Prop where
  byKey : Indexes Entry.key t.byKey t.lru
  byID : Indexes Entry.id t.byID t.lru

def drop (t : FlowTable Addr) (c : ℕ × Entry Addr) : FlowTable Addr :=
  { t with
    lru := t.lru.remove c.1
    byKey := t.byKey.erase c.2.key
    byID := t.byID.erase c.2.id }

variable {t : FlowTable Addr}

theorem consistent_new (maxFlows : ℤ) : (new maxFlows : FlowTable Addr).Consistent :=
  ⟨indexes_empty _, indexes_empty _⟩

theorem Consistent.refresh (h : t.Consistent) {el : ℕ} {e : Entry Addr}
    (hmem : (el, e) ∈ t.lru.cells) (now : ℤ) : (t.refresh el now).Consistent :=
  ⟨h.byKey.refresh hmem rfl, h.byID.refresh hmem rfl⟩

theorem Consistent.drop (h : t.Consistent) {c : ℕ × Entry Addr} (hmem : c ∈ t.lru.cells) :
    (t.drop c).Consistent :=
  ⟨h.byKey.remove hmem, h.byID.remove hmem⟩

theorem Consistent.push (h : t.Consistent) {flow : Flow Addr}
    (hkey : t.byKey.lookup flow.key = none) (hid : t.byID.lookup flow.id = none) (now : ℤ) :
    (t.push flow now).Consistent := by
  let e : Entry Addr := ⟨flow, now⟩
  exact ⟨h.byKey.pushFront (v := e) hkey, h.byID.pushFront (v := e) hid⟩

theorem Consistent.removeLocked (h : t.Consistent) {c : ℕ × Entry Addr}
    (hmem : c ∈ t.lru.cells) : t.removeLocked c.2.flow = (true, t.drop c) := by
  have hlookup : t.byID.lookup c.2.flow.id = some c.1 :=
    (h.byID c.2.id c.1).mpr ⟨c.2, hmem, rfl⟩
  rw [FlowTable.removeLocked, hlookup]
  rfl

theorem Consistent.removeLocked_absent (h : t.Consistent) {flow : Flow Addr}
    (habsent : ∀ e ∈ t.lru.values, e.id ≠ flow.id) : t.removeLocked flow = (false, t) := by
  rw [FlowTable.removeLocked, h.byID.lookup_eq_none_iff.mpr habsent]

theorem pops_removeLocked (limit : ℕ) :
    Pops lru (fun t back => (t.removeLocked back.2.flow).2)
      (fun t : FlowTable Addr => t.Consistent ∧ t.maxFlows = limit) where
  keeps := by
    intro t c ht hback
    rw [ht.1.removeLocked (mem_of_back hback)]
    exact ⟨ht.1.drop (mem_of_back hback), ht.2⟩
  removes := by
    intro t c ht hback
    rw [ht.1.removeLocked (mem_of_back hback)]
    rfl

/-- The flows behind the last one that is not expired are reaped, from the back. -/
theorem Consistent.reapExpired (h : t.Consistent) (now : ℤ) :
    ∃ gone : List (Entry Addr), (t.reapExpired now).1 = gone.map Entry.flow ∧
      (t.reapExpired now).2.Consistent ∧ (t.reapExpired now).2.maxFlows = t.maxFlows ∧
      t.lru.values = (t.reapExpired now).2.lru.values ++ gone.reverse ∧
      (∀ e ∈ gone, e.expired now = true) ∧
      ∀ c, (t.reapExpired now).2.lru.back = some c → c.2.expired now = false := by
  have hpops : Pops lru _ fun u : FlowTable Addr => u.Consistent ∧ u.maxFlows = t.maxFlows :=
    pops_removeLocked t.maxFlows
  obtain ⟨hconsistent, hmax⟩ := hpops.popWhile_keeps (fun _ e => e.expired now) t.lru.len ⟨h, rfl⟩
  exact ⟨_, rfl, hconsistent, hmax, hpops.popWhile_values _ _ ⟨h, rfl⟩,
    hpops.popWhile_gone (Q := fun e => e.expired now = true) (fun _ _ _ hcond => hcond) _ ⟨h, rfl⟩,
    fun _ hback => hpops.popWhile_stops le_rfl ⟨h, rfl⟩ hback⟩

end FlowTable

/-! ### Calls -/

/-- The table with every flow ever made, the last reading of the clock and the ids of the flows
that were reported as removed. A flow's id is its place among the flows. -/
structure TableRun (Addr : Type*) where
  table : FlowTable Addr
  created : List (Flow Addr)
  clock : ℤ
  reported : List ℕ

inductive TableCall (Addr : Type*)
  | add (d : Datagram Addr) (now : ℤ)
  | addIfAbsent (d : Datagram Addr) (now : ℤ)
  | getByKey (key : Key Addr) (now : ℤ)
  | getByID (id : ℕ) (now : ℤ)
  | remove (flow : ℕ)
  | evictOldest
  | reapExpired (now : ℤ)

namespace TableRun
open FlowTable

def start (maxFlows clock : ℤ) : TableRun Addr := ⟨.new maxFlows, [], clock, []⟩

def values (s : TableRun Addr) : List (Entry Addr) := s.table.lru.values

/-- The next flow, for a datagram. -/
def flow (s : TableRun Addr) (d : Datagram Addr) : Flow Addr :=
  ⟨s.created.length, d.key, d.routeKey, d.idleTimeout⟩

variable [DecidableEq Addr]

/-- The clock never goes back. A flow can be removed at any time after it was made, whether it is
in the table or not. -/
def step (s : TableRun Addr) : TableCall Addr → Option (TableRun Addr)
  | .add d now =>
      if s.clock ≤ now then
        some { s with
          table := s.table.add (s.flow d) now
          created := s.created ++ [s.flow d]
          clock := now }
      else none
  | .addIfAbsent d now =>
      if s.clock ≤ now then
        some { s with
          table := (s.table.addIfAbsent (s.flow d) now).2
          created := s.created ++ [s.flow d]
          clock := now }
      else none
  | .getByKey key now =>
      if s.clock ≤ now then
        some { s with
          table := ((s.table.getByKey key now).map Prod.snd).getD s.table
          clock := now }
      else none
  | .getByID id now =>
      if s.clock ≤ now then
        some { s with
          table := ((s.table.getByID id now).map Prod.snd).getD s.table
          clock := now }
      else none
  | .remove flow =>
      (s.created[flow]?).map fun f =>
        { s with
          table := (s.table.remove f).2
          reported := s.reported ++ if (s.table.remove f).1 then [f.id] else [] }
  | .evictOldest =>
      some { s with
        table := s.table.evictOldest.2
        reported := s.reported ++ (s.table.evictOldest.1.map Flow.id).toList }
  | .reapExpired now =>
      some { s with
        table := (s.table.reapExpired now).2
        reported := s.reported ++ (s.table.reapExpired now).1.map Flow.id }

/-- The flows in the table are as they were made, the most recent one is in front, and no flow in
the table was reported as removed, and none twice. -/
structure Inv (first : ℤ) (s : TableRun Addr) : Prop where
  consistent : s.table.Consistent
  recent : Recent Entry.lastSeen s.table.lru
  clock : first ≤ s.clock
  seen : ∀ e ∈ s.values, first ≤ e.lastSeen ∧ e.lastSeen ≤ s.clock
  placed : ∀ i (f : Flow Addr), s.created[i]? = some f → f.id = i
  known : ∀ e ∈ s.values, s.created[e.id]? = some e.flow
  reported : ∀ id ∈ s.reported, id < s.created.length
  once : (s.values.map Entry.id ++ s.reported).Nodup

variable {s s' : TableRun Addr} {first : ℤ}

theorem inv_start (maxFlows clock : ℤ) : Inv clock (start maxFlows clock : TableRun Addr) where
  consistent := consistent_new maxFlows
  recent := recent_empty _
  clock := le_rfl
  seen := fun _ he => by cases he
  placed := fun _ _ hf => by cases hf
  known := fun _ he => by cases he
  reported := fun _ hid => by cases hid
  once := List.nodup_nil

theorem Inv.id_lt (h : Inv first s) {e : Entry Addr} (he : e ∈ s.values) :
    e.id < s.created.length :=
  (List.getElem?_eq_some_iff.mp (h.known e he)).1

theorem Inv.create (h : Inv first s) (d : Datagram Addr) {now : ℤ} (hnow : s.clock ≤ now) :
    Inv first { s with created := s.created ++ [s.flow d], clock := now } where
  consistent := h.consistent
  recent := h.recent
  clock := h.clock.trans hnow
  seen := fun e he => ⟨(h.seen e he).1, (h.seen e he).2.trans hnow⟩
  placed := by
    intro i f hf
    rcases lt_or_ge i s.created.length with hi | hi
    · rw [List.getElem?_append_left hi] at hf
      exact h.placed i f hf
    · rw [List.getElem?_append_right hi, List.getElem?_singleton] at hf
      split_ifs at hf with hzero
      rw [← Option.some.inj hf]
      exact le_antisymm hi (Nat.sub_eq_zero_iff_le.mp hzero)
  known := by
    intro e he
    rw [List.getElem?_append_left (h.id_lt he)]
    exact h.known e he
  reported := by
    intro id hid
    rw [List.length_append]
    exact Nat.lt_add_right _ (h.reported id hid)
  once := h.once

theorem Inv.refresh (h : Inv first s) {el : ℕ} {e : Entry Addr} (hmem : (el, e) ∈ s.table.lru.cells)
    {now : ℤ} (hnow : s.clock ≤ now) :
    Inv first { s with table := s.table.refresh el now, clock := now } := by
  have hlast : ∀ e ∈ s.table.lru.values, e.lastSeen ≤ now := fun e he =>
    (h.seen e he).2.trans hnow
  have hids := map_values_refresh (f := Entry.touch now) Entry.id hmem rfl
  have hflows := map_values_refresh (f := Entry.touch now) Entry.flow hmem rfl
  refine ⟨h.consistent.refresh hmem now, h.recent.refresh hmem hlast, h.clock.trans hnow, ?_,
    h.placed, ?_, h.reported, ?_⟩
  · intro w hw
    rw [values, FlowTable.refresh, LinkedList.values, cells_refresh hmem] at hw
    rcases List.mem_cons.mp hw with rfl | hw
    · exact ⟨h.clock.trans hnow, le_rfl⟩
    · have hw := values_remove_sublist.subset hw
      exact ⟨(h.seen w hw).1, hlast w hw⟩
  · intro w hw
    obtain ⟨old, hold, hflow⟩ := List.mem_map.mp (hflows.mem_iff.mp (List.mem_map_of_mem hw))
    rw [← hflow, Entry.id, ← hflow]
    exact h.known old hold
  · exact (hids.append_right s.reported).nodup_iff.mpr h.once

theorem Inv.leave (h : Inv first s) {table : FlowTable Addr} {gone : List (Entry Addr)}
    (hconsistent : table.Consistent) (hsublist : table.lru.values.Sublist s.values)
    (hperm : s.values.Perm (gone ++ table.lru.values)) :
    Inv first { s with table := table, reported := s.reported ++ gone.map Entry.id } where
  consistent := hconsistent
  recent := h.recent.sublist hsublist
  clock := h.clock
  seen := fun e he => h.seen e (hsublist.subset he)
  placed := h.placed
  known := fun e he => h.known e (hsublist.subset he)
  reported := by
    intro id hid
    rcases List.mem_append.mp hid with hid | hid
    · exact h.reported id hid
    · obtain ⟨e, he, rfl⟩ := List.mem_map.mp hid
      exact h.id_lt (hperm.mem_iff.mpr (List.mem_append_left _ he))
  once := by
    have hids := (hperm.map Entry.id).append_right s.reported
    rw [List.map_append] at hids
    have hmoved : (table.lru.values.map Entry.id ++ (s.reported ++ gone.map Entry.id)).Perm
        (gone.map Entry.id ++ table.lru.values.map Entry.id ++ s.reported) := by
      rw [← List.append_assoc, List.append_assoc (gone.map Entry.id)]
      exact List.perm_append_comm
    exact (hmoved.trans hids.symm).nodup_iff.mpr h.once

theorem Inv.drop (h : Inv first s) {c : ℕ × Entry Addr} (hmem : c ∈ s.table.lru.cells) :
    Inv first { s with table := s.table.drop c, reported := s.reported ++ [c.2.id] } := by
  have hperm : s.values.Perm ([c.2] ++ (s.table.drop c).lru.values) := values_perm_remove hmem
  exact h.leave (h.consistent.drop hmem) values_remove_sublist hperm

theorem Inv.forget (h : Inv first s) {reported : List ℕ} (hsublist : reported.Sublist s.reported) :
    Inv first { s with reported := reported } :=
  { h with
    reported := fun id hid => h.reported id (hsublist.subset hid)
    once := (hsublist.append_left _).nodup h.once }

theorem Inv.push (h : Inv first s) {d : Datagram Addr} (hkey : s.table.byKey.lookup d.key = none)
    {now : ℤ} (hnow : s.clock ≤ now) :
    Inv first { s with
      table := s.table.push (s.flow d) now
      created := s.created ++ [s.flow d]
      clock := now } := by
  have hid : s.table.byID.lookup (s.flow d).id = none := by
    rw [h.consistent.byID.lookup_eq_none_iff]
    intro e he
    exact (h.id_lt he).ne
  have hcreate := h.create d hnow
  refine ⟨h.consistent.push hkey hid now, h.recent.pushFront fun e he => (hcreate.seen e he).2,
    hcreate.clock, ?_, hcreate.placed, ?_, hcreate.reported, ?_⟩
  · intro e he
    rcases List.mem_cons.mp he with rfl | he
    · exact ⟨hcreate.clock, le_rfl⟩
    · exact hcreate.seen e he
  · intro e he
    rcases List.mem_cons.mp he with rfl | he
    · exact List.getElem?_concat_length
    · exact hcreate.known e he
  · refine List.nodup_cons.mpr ⟨fun hmem => ?_, h.once⟩
    rcases List.mem_append.mp hmem with hmem | hmem
    · obtain ⟨e, he, heq⟩ := List.mem_map.mp hmem
      exact absurd heq (h.id_lt he).ne
    · exact absurd (h.reported _ hmem) (lt_irrefl _)

theorem Inv.getBy (h : Inv first s) (el : Option ℕ) {now : ℤ} (hnow : s.clock ≤ now) :
    Inv first { s with
      table := ((s.table.getBy el now).map Prod.snd).getD s.table, clock := now } := by
  cases hget : s.table.getBy el now with
  | none =>
    exact
      { h with
        clock := h.clock.trans hnow
        seen := fun e he => ⟨(h.seen e he).1, (h.seen e he).2.trans hnow⟩ }
  | some out =>
    obtain ⟨el, -, hel⟩ := Option.bind_eq_some_iff.mp hget
    obtain ⟨e, he, rfl⟩ := Option.map_eq_some_iff.mp hel
    exact h.refresh (value?_eq_some_iff.mp he) hnow

theorem Inv.add (h : Inv first s) (d : Datagram Addr) {now : ℤ} (hnow : s.clock ≤ now) :
    Inv first { s with
      table := s.table.add (s.flow d) now
      created := s.created ++ [s.flow d]
      clock := now } := by
  unfold FlowTable.add
  cases hlookup : s.table.byKey.lookup (s.flow d).key with
  | none => exact h.push hlookup hnow
  | some el =>
    obtain ⟨e, hmem, hkey⟩ := (h.consistent.byKey _ _).mp hlookup
    rw [Option.bind_some, value?_eq_some_iff.mpr hmem]
    dsimp only
    rw [h.consistent.removeLocked hmem]
    -- without the flow that had it, the key is free
    have hdrop := (h.drop hmem).forget (List.sublist_append_left s.reported [e.id])
    have hfree : (s.table.drop (el, e)).byKey.lookup d.key = none := by
      show (s.table.byKey.erase e.key).lookup d.key = none
      rw [hkey]
      exact AList.lookup_erase ..
    exact hdrop.push hfree hnow

theorem Inv.addIfAbsent (h : Inv first s) (d : Datagram Addr) {now : ℤ} (hnow : s.clock ≤ now) :
    Inv first { s with
      table := (s.table.addIfAbsent (s.flow d) now).2
      created := s.created ++ [s.flow d]
      clock := now } := by
  have hget := (h.getBy (s.table.byKey.lookup d.key) hnow).create d le_rfl
  unfold FlowTable.addIfAbsent
  cases hout : s.table.getByKey (s.flow d).key now with
  | some out =>
    rw [show s.table.getBy (s.table.byKey.lookup d.key) now = some out from hout] at hget
    exact hget
  | none =>
    have hkey : s.table.byKey.lookup d.key = none := by
      cases hlookup : s.table.byKey.lookup d.key with
      | none => rfl
      | some el =>
        obtain ⟨e, hmem, -⟩ := (h.consistent.byKey _ _).mp hlookup
        rw [getByKey, FlowTable.getBy,
          show s.table.byKey.lookup (s.flow d).key = some el from hlookup, Option.bind_some,
          value?_eq_some_iff.mpr hmem] at hout
        cases hout
    exact h.push hkey hnow

theorem Inv.remove (h : Inv first s) {f : Flow Addr} {i : ℕ} (hf : s.created[i]? = some f) :
    Inv first { s with
      table := (s.table.remove f).2
      reported := s.reported ++ if (s.table.remove f).1 then [f.id] else [] } := by
  by_cases hin : ∃ e ∈ s.values, e.id = f.id
  · obtain ⟨e, he, hid⟩ := hin
    obtain ⟨el, hmem⟩ := mem_values.mp he
    have hflow : e.flow = f := by
      have hknown := h.known e he
      rw [hid, h.placed i f hf, hf] at hknown
      exact (Option.some.inj hknown).symm
    subst hflow
    rw [FlowTable.remove, h.consistent.removeLocked hmem]
    exact h.drop hmem
  · have habsent : ∀ e ∈ s.table.lru.values, e.id ≠ f.id := fun e he hid => hin ⟨e, he, hid⟩
    rw [FlowTable.remove, h.consistent.removeLocked_absent habsent]
    simpa using h

theorem Inv.evictOldest (h : Inv first s) :
    Inv first { s with
      table := s.table.evictOldest.2
      reported := s.reported ++ (s.table.evictOldest.1.map Flow.id).toList } := by
  unfold FlowTable.evictOldest
  split
  · simpa using h
  · next back hback =>
    rw [h.consistent.removeLocked (mem_of_back hback)]
    exact h.drop (mem_of_back hback)

theorem Inv.reapExpired (h : Inv first s) (now : ℤ) :
    Inv first { s with
      table := (s.table.reapExpired now).2
      reported := s.reported ++ (s.table.reapExpired now).1.map Flow.id } := by
  obtain ⟨gone, hgone, hconsistent, -, hvalues, -, -⟩ := h.consistent.reapExpired now
  have hsublist : (s.table.reapExpired now).2.lru.values.Sublist s.values := by
    rw [values, hvalues]
    exact List.sublist_append_left _ _
  have hperm : s.values.Perm (gone ++ (s.table.reapExpired now).2.lru.values) := by
    rw [values, hvalues]
    exact List.perm_append_comm.trans ((List.reverse_perm gone).append_right _)
  rw [hgone, List.map_map]
  exact h.leave hconsistent hsublist hperm

theorem inv_step (h : Inv first s) {call : TableCall Addr} (hstep : s.step call = some s') :
    Inv first s' := by
  cases call with
  | add d now =>
    dsimp only [step] at hstep
    split_ifs at hstep with hnow
    exact Option.some.inj hstep ▸ h.add d hnow
  | addIfAbsent d now =>
    dsimp only [step] at hstep
    split_ifs at hstep with hnow
    exact Option.some.inj hstep ▸ h.addIfAbsent d hnow
  | getByKey key now =>
    dsimp only [step] at hstep
    split_ifs at hstep with hnow
    exact Option.some.inj hstep ▸ h.getBy _ hnow
  | getByID id now =>
    dsimp only [step] at hstep
    split_ifs at hstep with hnow
    exact Option.some.inj hstep ▸ h.getBy _ hnow
  | remove flow =>
    obtain ⟨f, hf, rfl⟩ := Option.map_eq_some_iff.mp hstep
    exact h.remove hf
  | evictOldest => exact Option.some.inj hstep ▸ h.evictOldest
  | reapExpired now => exact Option.some.inj hstep ▸ h.reapExpired now

theorem inv_run {maxFlows clock : ℤ} {calls : List (TableCall Addr)}
    (hrun : run step (start maxFlows clock) calls = some s) : Inv clock s :=
  invariant_run (fun _ _ _ h hstep => inv_step h hstep) (inv_start maxFlows clock) hrun

/-- The flow that is evicted is the one in the back, which was seen before all others. -/
theorem Inv.evictOldest_minimal (h : Inv first s) :
    s.values = [] ∧ s.table.evictOldest = (none, s.table) ∨
      ∃ e table, s.table.evictOldest = (some e.flow, table) ∧
        s.values = table.lru.values ++ [e] ∧ ∀ other ∈ s.values, e.lastSeen ≤ other.lastSeen := by
  unfold FlowTable.evictOldest
  split
  · next hback =>
    left
    rw [values, LinkedList.values, List.getLast?_eq_none_iff.mp hback]
    exact ⟨rfl, rfl⟩
  · next back hback =>
    right
    rw [h.consistent.removeLocked (mem_of_back hback)]
    exact ⟨back.2, _, rfl, values_of_back hback,
      fun other hother => h.recent.back_le hback hother⟩

end TableRun

/-- The maps and the list of the table hold the same flows over all calls, the most recent in
front, and a flow is reported as removed at most once. -/
theorem peer_flow_table_consistent [DecidableEq Addr] (maxFlows clock : ℤ)
    (calls : List (TableCall Addr)) (s : TableRun Addr)
    (hrun : run TableRun.step (.start maxFlows clock) calls = some s) :
    Indexes Entry.key s.table.byKey s.table.lru ∧
      Indexes Entry.id s.table.byID s.table.lru ∧
      (s.values.map Entry.id).Nodup ∧
      s.values.Pairwise (fun a b => b.lastSeen ≤ a.lastSeen) ∧
      (s.values = [] ∧ s.table.evictOldest = (none, s.table) ∨
        ∃ e table, s.table.evictOldest = (some e.flow, table) ∧
          s.values = table.lru.values ++ [e] ∧
          ∀ other ∈ s.values, e.lastSeen ≤ other.lastSeen) ∧
      s.reported.Nodup := by
  have hinv := TableRun.inv_run hrun
  exact ⟨hinv.consistent.byKey, hinv.consistent.byID, hinv.consistent.byID.nodup_keys, hinv.recent,
    hinv.evictOldest_minimal, (List.nodup_append.mp hinv.once).2.1⟩

/-- A flow is replaced, and removed by a call that still has it; the newer flow of its key is
evicted. -/
def staleRemoval : List (TableCall Unit) :=
  [.addIfAbsent ⟨⟨(), 53⟩, [], 30⟩ 1, .add ⟨⟨(), 53⟩, [], 30⟩ 2, .remove 0, .getByID 1 3,
    .evictOldest, .remove 1]

theorem peer_flow_table_consistent_staleRemoval :
    ∃ s, run TableRun.step (.start 8 0) staleRemoval = some s ∧ s.reported = [1] ∧
      (s.values.map Entry.id).Nodup ∧ s.reported.Nodup := by
  obtain ⟨s, hrun, hreported⟩ : ∃ s, run TableRun.step (.start 8 0) staleRemoval = some s ∧
      s.reported = [1] := exists_run_of_any (by decide +kernel)
  obtain ⟨-, -, hids, -, -, honce⟩ := peer_flow_table_consistent 8 0 staleRemoval s hrun
  exact ⟨s, hrun, hreported, hids, honce⟩

/-! ### Reaping -/

def Entry.Expired (now : ℤ) (e : Entry Addr) : Prop := e.flow.idleTimeout < now - e.lastSeen

instance (now : ℤ) : DecidablePred (Entry.Expired now : Entry Addr → Prop) :=
  fun _ => inferInstanceAs (Decidable (_ < _))

/-- New flows have a positive idle timeout. -/
def TableCall.Positive : TableCall Addr → Prop
  | .add d _ => 0 < d.idleTimeout
  | .addIfAbsent d _ => 0 < d.idleTimeout
  | _ => True

namespace TableRun
variable [DecidableEq Addr] {s s' : TableRun Addr} {first : ℤ}

theorem created_step {call : TableCall Addr} (hstep : s.step call = some s')
    (hcall : call.Positive) (hidle : ∀ f ∈ s.created, 0 < f.idleTimeout) :
    ∀ f ∈ s'.created, 0 < f.idleTimeout := by
  have hmade : ∀ d : Datagram Addr, 0 < d.idleTimeout →
      ∀ f ∈ s.created ++ [s.flow d], 0 < f.idleTimeout := by
    intro d hd f hf
    rcases List.mem_append.mp hf with hf | hf
    · exact hidle f hf
    · rw [List.mem_singleton.mp hf]
      exact hd
  cases call with
  | add d now =>
    dsimp only [step] at hstep
    split_ifs at hstep
    exact Option.some.inj hstep ▸ hmade d hcall
  | addIfAbsent d now =>
    dsimp only [step] at hstep
    split_ifs at hstep
    exact Option.some.inj hstep ▸ hmade d hcall
  | getByKey key now =>
    dsimp only [step] at hstep
    split_ifs at hstep
    exact Option.some.inj hstep ▸ hidle
  | getByID id now =>
    dsimp only [step] at hstep
    split_ifs at hstep
    exact Option.some.inj hstep ▸ hidle
  | remove flow =>
    obtain ⟨f, -, rfl⟩ := Option.map_eq_some_iff.mp hstep
    exact hidle
  | evictOldest => exact Option.some.inj hstep ▸ hidle
  | reapExpired now => exact Option.some.inj hstep ▸ hidle

/-- Exactly the expired flows are returned, and exactly the others stay. -/
structure ReapsExactly (s : TableRun Addr) (now : ℤ) : Prop where
  returned : ∀ f, f ∈ (s.table.reapExpired now).1 ↔ ∃ e ∈ s.values, e.flow = f ∧ e.Expired now
  stay : ∀ e, e ∈ (s.table.reapExpired now).2.lru.values ↔ e ∈ s.values ∧ ¬ e.Expired now

theorem Inv.expired_iff (h : Inv first s) (hfirst : 0 < first)
    (hidle : ∀ f ∈ s.created, 0 < f.idleTimeout) {e : Entry Addr} (he : e ∈ s.values) (now : ℤ) :
    e.expired now = true ↔ e.Expired now := by
  have hseen : 0 < e.lastSeen := hfirst.trans_le (h.seen e he).1
  have htimeout := hidle e.flow (List.mem_of_getElem? (h.known e he))
  simp [Entry.expired, Entry.Expired, hseen, htimeout]

/-- The loop takes expired flows from the back and ends at one that is not expired. -/
theorem Inv.reapExpired_split (h : Inv first s) (hfirst : 0 < first)
    (hidle : ∀ f ∈ s.created, 0 < f.idleTimeout) (now : ℤ) :
    ∃ gone : List (Entry Addr), (s.table.reapExpired now).1 = gone.map Entry.flow ∧
      s.values = (s.table.reapExpired now).2.lru.values ++ gone.reverse ∧
      (∀ e ∈ gone, e.Expired now) ∧
      ∀ c, (s.table.reapExpired now).2.lru.back = some c → ¬ c.2.Expired now := by
  obtain ⟨gone, hgone, -, -, hsplit, hexpired, hstop⟩ := h.consistent.reapExpired now
  have hvalues : s.values = (s.table.reapExpired now).2.lru.values ++ gone.reverse := hsplit
  refine ⟨gone, hgone, hvalues, ?_, ?_⟩
  · intro e he
    have hmem : e ∈ s.values := by
      rw [hvalues]
      exact List.mem_append_right _ (List.mem_reverse.mpr he)
    exact (h.expired_iff hfirst hidle hmem now).mp (hexpired e he)
  · intro c hback
    have hmem : c.2 ∈ s.values := by
      rw [hvalues]
      exact List.mem_append_left _ (List.mem_map_of_mem (mem_of_back hback))
    rw [← h.expired_iff hfirst hidle hmem now, hstop c hback]
    exact Bool.false_ne_true

theorem Inv.reapsExactly_iff (h : Inv first s) (hfirst : 0 < first)
    (hidle : ∀ f ∈ s.created, 0 < f.idleTimeout) (now : ℤ) :
    ReapsExactly s now ↔ s.values.Pairwise fun e older => e.Expired now → older.Expired now := by
  obtain ⟨gone, hgone, hvalues, hout, hstop⟩ := h.reapExpired_split hfirst hidle now
  constructor
  · intro hexact
    have hkept : ∀ e ∈ (s.table.reapExpired now).2.lru.values, ¬ e.Expired now := fun e he =>
      ((hexact.stay e).mp he).2
    rw [hvalues, List.pairwise_append]
    refine ⟨?_, ?_, ?_⟩
    · apply List.pairwise_of_forall_mem_list
      intro e he older _ hnow
      exact absurd hnow (hkept e he)
    · apply List.pairwise_of_forall_mem_list
      intro e _ older holder _
      exact hout older (List.mem_reverse.mp holder)
    · intro e _ older holder _
      exact hout older (List.mem_reverse.mp holder)
  · intro hordered
    have hkept : ∀ e ∈ (s.table.reapExpired now).2.lru.values, ¬ e.Expired now := by
      rw [hvalues] at hordered
      exact forall_not_of_back (List.pairwise_append.mp hordered).1 hstop
    constructor
    · intro f
      rw [hgone, List.mem_map]
      constructor
      · rintro ⟨e, he, hflow⟩
        refine ⟨e, ?_, hflow, hout e he⟩
        rw [hvalues]
        exact List.mem_append_right _ (List.mem_reverse.mpr he)
      · rintro ⟨e, he, hflow, hnow⟩
        rw [hvalues, List.mem_append] at he
        rcases he with he | he
        · exact absurd hnow (hkept e he)
        · exact ⟨e, List.mem_reverse.mp he, hflow⟩
    · intro e
      rw [hvalues, List.mem_append, List.mem_reverse]
      constructor
      · intro he
        exact ⟨.inl he, hkept e he⟩
      · rintro ⟨he | he, hnow⟩
        · exact he
        · exact absurd (hout e he) hnow

end TableRun

/-- Reaping is exact when, in the order of the list, every flow behind an expired one is
expired. -/
theorem reapExpired_exact_iff [DecidableEq Addr] (maxFlows clock : ℤ) (hclock : 0 < clock)
    (calls : List (TableCall Addr)) (hcalls : ∀ call ∈ calls, call.Positive) (s : TableRun Addr)
    (hrun : run TableRun.step (.start maxFlows clock) calls = some s) (now : ℤ) :
    s.ReapsExactly now ↔ s.values.Pairwise fun e older => e.Expired now → older.Expired now := by
  have hidle : ∀ f ∈ s.created, 0 < f.idleTimeout := by
    apply invariant_along (G := fun _ call => call.Positive)
      (I := fun s : TableRun Addr => ∀ f ∈ s.created, 0 < f.idleTimeout) _ _
      (along_of_forall (fun call hcall _ => hcalls call hcall) _) hrun
    · intro s call t hidle hcall hstep
      exact TableRun.created_step hstep hcall hidle
    · intro f hf
      cases hf
  exact (TableRun.inv_run hrun).reapsExactly_iff hclock hidle now

/-- Two flows that are added one after the other, the first with the given timeout, the second
with a timeout of one. -/
def twoTimeouts (idleTimeout : ℤ) : List (TableCall Unit) :=
  [.addIfAbsent ⟨⟨(), 443⟩, [], idleTimeout⟩ 1, .addIfAbsent ⟨⟨(), 53⟩, [], 1⟩ 2]

theorem reapExpired_exact_iff_twoTimeouts :
    (∀ call ∈ twoTimeouts 5, call.Positive) ∧
      ∃ s, run TableRun.step (.start 8 1) (twoTimeouts 5) = some s ∧ s.values.length = 2 ∧
        s.ReapsExactly 10 := by
  have hcalls : ∀ call ∈ twoTimeouts 5, call.Positive := by
    simp [twoTimeouts, TableCall.Positive]
  obtain ⟨s, hrun, hlength, hordered⟩ : ∃ s,
      run TableRun.step (.start 8 1) (twoTimeouts 5) = some s ∧ s.values.length = 2 ∧
        s.values.Pairwise fun e older => e.Expired 10 → older.Expired 10 :=
    exists_run_of_any (by decide +kernel)
  exact ⟨hcalls, s, hrun, hlength,
    (reapExpired_exact_iff 8 1 (by decide) _ hcalls s hrun 10).mpr hordered⟩

/-- The flow with the shorter timeout is in front of one that may still be idle, and stays. -/
theorem reapExpired_misses :
    ∃ s, run TableRun.step (.start 8 1) (twoTimeouts 100) = some s ∧
      (∃ e ∈ s.values, e.Expired 10) ∧ (s.table.reapExpired 10).1 = [] :=
  exists_run_of_any (by decide +kernel)

end NexusProxy.Peer.UDPFlows
