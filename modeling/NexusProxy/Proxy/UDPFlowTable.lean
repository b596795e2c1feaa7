import NexusProxy.Lib.LinkedList
import NexusProxy.Lib.Transition
import Mathlib.Algebra.Order.Group.Int

/-! The table of UDP flows of a listener: which flows it holds, and which ones it evicts. A flow
that is evicted loses its client at the backend. -/
namespace NexusProxy.Proxy
open LinkedList Transition

/-- `udpFlow`; of the connection only whether there is one. -/
structure UDPFlow (K B : Type*) where
  key : K
  backend : B
  clientID : ℕ
  hasConn : Bool
  lastSeen : ℤ
  deriving DecidableEq

/-- What an eviction does outside of the table. -/
inductive Eviction (B : Type*)
  | removeClient (backend : B) (clientID : ℕ)
  | closeConn (clientID : ℕ)
  deriving DecidableEq

variable {K B : Type*}

def UDPFlow.onEviction (f : UDPFlow K B) : List (Eviction B) :=
  .removeClient f.backend f.clientID :: if f.hasConn then [.closeConn f.clientID] else []

structure UDPFlowTable (K B : Type*) where
  flows : AList fun _ : K => ℕ
  lru : LinkedList (UDPFlow K B)
  idleTimeout : ℤ
  maxFlows : ℕ

namespace UDPFlowTable

def new (idleTimeout maxFlows : ℤ) : UDPFlowTable K B where
  flows := ∅
  lru := .empty
  idleTimeout := idleTimeout
  maxFlows := if maxFlows ≤ 0 then 200000 else maxFlows.toNat

def setIdleTimeout (t : UDPFlowTable K B) (idleTimeout : ℤ) : UDPFlowTable K B :=
  { t with idleTimeout := idleTimeout }

variable [DecidableEq K]

/-- An address in the map is that of a cell of the list, so that its value is always there. -/
def get (t : UDPFlowTable K B) (key : K) (now : ℤ) : Option (UDPFlow K B × UDPFlowTable K B) :=
  (t.flows.lookup key).bind fun el => (t.lru.value? el).map fun f =>
    ({ f with lastSeen := now },
      { t with lru := (t.lru.modify el fun f => { f with lastSeen := now }).moveToFront el })

def remove (t : UDPFlowTable K B) (key : K) : Option (UDPFlow K B × UDPFlowTable K B) :=
  (t.flows.lookup key).bind fun el => (t.lru.value? el).map fun f =>
    (f, { t with lru := t.lru.remove el, flows := t.flows.erase key })

def dropBack (t : UDPFlowTable K B) (back : ℕ × UDPFlow K B) : UDPFlowTable K B :=
  { t with lru := t.lru.remove back.1, flows := t.flows.erase back.2.key }

def isIdle (now : ℤ) (t : UDPFlowTable K B) (f : UDPFlow K B) : Bool :=
  !(0 < t.idleTimeout && now - f.lastSeen ≤ t.idleTimeout)

def isOver (t : UDPFlowTable K B) (_ : UDPFlow K B) : Bool := t.maxFlows < t.lru.len

/-- The first loop of `evictLocked`; it turns at most once for each flow. -/
def evictIdle (t : UDPFlowTable K B) (now : ℤ) : List (UDPFlow K B) × UDPFlowTable K B :=
  popWhile lru dropBack (isIdle now) t.lru.len t

/-- The second loop of `evictLocked`. -/
def evictOver (t : UDPFlowTable K B) : List (UDPFlow K B) × UDPFlowTable K B :=
  popWhile lru dropBack isOver t.lru.len t

/-- The evicted flows in order, and the table. -/
def evictLocked (t : UDPFlowTable K B) (now : ℤ) : List (UDPFlow K B) × UDPFlowTable K B :=
  let idle := t.evictIdle now
  let oldest := idle.2.evictOver
  (idle.1 ++ oldest.1, oldest.2)

def replaced (t : UDPFlowTable K B) (key : K) : UDPFlowTable K B :=
  match t.flows.lookup key with
  | some el => { t with lru := t.lru.remove el, flows := t.flows.erase key }
  | none => t

def push (t : UDPFlowTable K B) (flow : UDPFlow K B) : UDPFlowTable K B :=
  { t with lru := t.lru.pushFront flow, flows := t.flows.insert flow.key t.lru.next }

/-- The clock is read twice, for the flow and for the evictions after it. -/
def add (t : UDPFlowTable K B) (flow : UDPFlow K B) (seen now : ℤ) :
    List (UDPFlow K B) × UDPFlowTable K B :=
  ((t.replaced flow.key).push { flow with lastSeen := seen }).evictLocked now

/-! ### Evictions -/

/-- What the loops leave alone. -/
structure Keeps (idleTimeout : ℤ) (maxFlows : ℕ) (t : UDPFlowTable K B) : Prop where
  indexed : Indexes UDPFlow.key t.flows t.lru
  idleTimeout : t.idleTimeout = idleTimeout
  maxFlows : t.maxFlows = maxFlows

variable {t : UDPFlowTable K B}

theorem pops_dropBack (idleTimeout : ℤ) (maxFlows : ℕ) :
    Pops lru dropBack (Keeps idleTimeout maxFlows : UDPFlowTable K B → Prop) where
  keeps := fun _ _ ht hback =>
    ⟨ht.indexed.remove (mem_of_back hback), ht.idleTimeout, ht.maxFlows⟩
  removes := fun _ _ _ _ => rfl

theorem evictIdle_values (hindexed : Indexes UDPFlow.key t.flows t.lru)
    (hrecent : Recent UDPFlow.lastSeen t.lru) (hidle : 0 < t.idleTimeout) (now : ℤ) :
    (t.evictIdle now).2.lru.values =
      t.lru.values.filter fun f => now - f.lastSeen ≤ t.idleTimeout := by
  have hpops := pops_dropBack (K := K) (B := B) t.idleTimeout t.maxFlows
  have ht : Keeps t.idleTimeout t.maxFlows t := ⟨hindexed, rfl, rfl⟩
  have hidle_iff : ∀ (u : UDPFlowTable K B) f, Keeps t.idleTimeout t.maxFlows u →
      (isIdle now u f = true ↔ ¬ now - f.lastSeen ≤ t.idleTimeout) := by
    intro u f hu
    simp [isIdle, hu.idleTimeout, hidle]
  have hgone : ∀ f ∈ (t.evictIdle now).1, ¬ now - f.lastSeen ≤ t.idleTimeout :=
    hpops.popWhile_gone (fun u f hu hcond => (hidle_iff u f hu).mp hcond) t.lru.len ht
  have hsplit : t.lru.values = (t.evictIdle now).2.lru.values ++ (t.evictIdle now).1.reverse :=
    hpops.popWhile_values _ _ ht
  have hkept : ∀ f ∈ (t.evictIdle now).2.lru.values, ¬ ¬ now - f.lastSeen ≤ t.idleTimeout := by
    apply forall_not_of_back
    · -- a flow behind an idle one has been idle for longer
      unfold Recent at hrecent
      rw [hsplit] at hrecent
      apply (List.pairwise_append.mp hrecent).1.imp
      intro f older hle hf
      omega
    · intro back hback
      have hstop : isIdle now (t.evictIdle now).2 back.2 = false :=
        hpops.popWhile_stops le_rfl ht hback
      have hkeeps : Keeps t.idleTimeout t.maxFlows (t.evictIdle now).2 :=
        hpops.popWhile_keeps _ _ ht
      rwa [← Bool.not_eq_true, hidle_iff _ _ hkeeps] at hstop
  rw [hsplit, List.filter_append, List.filter_eq_self.mpr, List.filter_eq_nil_iff.mpr,
    List.append_nil]
  · intro f hf
    simpa using hgone f (List.mem_reverse.mp hf)
  · intro f hf
    simpa using hkept f hf

theorem evictOver_values (hindexed : Indexes UDPFlow.key t.flows t.lru) :
    t.evictOver.2.lru.values = t.lru.values.take t.maxFlows := by
  have hpops := pops_dropBack (K := K) (B := B) t.idleTimeout t.maxFlows
  have ht : Keeps t.idleTimeout t.maxFlows t := ⟨hindexed, rfl, rfl⟩
  have hover_iff : ∀ (u : UDPFlowTable K B) f, Keeps t.idleTimeout t.maxFlows u →
      (isOver u f = true ↔ t.maxFlows < u.lru.len) := by
    intro u f hu
    simp [isOver, hu.maxFlows]
  have hsplit : t.lru.values = t.evictOver.2.lru.values ++ t.evictOver.1.reverse :=
    hpops.popWhile_values _ _ ht
  have hlen : t.evictOver.2.lru.values.length = t.evictOver.2.lru.len := List.length_map _
  have hle : t.evictOver.2.lru.len ≤ t.maxFlows := by
    cases hback : t.evictOver.2.lru.back with
    | none =>
      rw [len, List.getLast?_eq_none_iff.mp hback]
      exact Nat.zero_le _
    | some back =>
      have hstop : isOver t.evictOver.2 back.2 = false := hpops.popWhile_stops le_rfl ht hback
      have hkeeps : Keeps t.idleTimeout t.maxFlows t.evictOver.2 := hpops.popWhile_keeps _ _ ht
      rw [← Bool.not_eq_true, hover_iff _ _ hkeeps, not_lt] at hstop
      exact hstop
  have hover : t.evictOver.1 = [] ∨ t.maxFlows ≤ t.evictOver.2.lru.len :=
    hpops.popWhile_over (fun u f hu hcond => (hover_iff u f hu).mp hcond) t.lru.len ht
  rcases hover with hgone | hge
  · rw [hgone, List.reverse_nil, List.append_nil] at hsplit
    rw [hsplit, List.take_of_length_le (hlen.le.trans hle)]
  · rw [hsplit, List.take_left' (hlen.trans (le_antisymm hle hge))]

theorem keeps_evictIdle (hindexed : Indexes UDPFlow.key t.flows t.lru) (now : ℤ) :
    Keeps t.idleTimeout t.maxFlows (t.evictIdle now).2 :=
  (pops_dropBack _ _).popWhile_keeps _ _ ⟨hindexed, rfl, rfl⟩

theorem keeps_evictLocked (hindexed : Indexes UDPFlow.key t.flows t.lru) (now : ℤ) :
    Keeps t.idleTimeout t.maxFlows (t.evictLocked now).2 :=
  (pops_dropBack _ _).popWhile_keeps _ _ (keeps_evictIdle hindexed now)

theorem evictLocked_split (hindexed : Indexes UDPFlow.key t.flows t.lru) (now : ℤ) :
    t.lru.values = (t.evictLocked now).2.lru.values ++ (t.evictLocked now).1.reverse := by
  have hpops := pops_dropBack (K := K) (B := B) t.idleTimeout t.maxFlows
  have hidle : t.lru.values = (t.evictIdle now).2.lru.values ++ (t.evictIdle now).1.reverse :=
    hpops.popWhile_values _ _ ⟨hindexed, rfl, rfl⟩
  have hover : (t.evictIdle now).2.lru.values =
      (t.evictLocked now).2.lru.values ++ (t.evictIdle now).2.evictOver.1.reverse :=
    hpops.popWhile_values _ _ (keeps_evictIdle hindexed now)
  show _ = _ ++ ((t.evictIdle now).1 ++ (t.evictIdle now).2.evictOver.1).reverse
  rw [hidle, hover, List.append_assoc, List.reverse_append]

/-- What is left of a table: the most recent flows of those that are not idle. -/
theorem evictLocked_values (hindexed : Indexes UDPFlow.key t.flows t.lru)
    (hrecent : Recent UDPFlow.lastSeen t.lru) (hidle : 0 < t.idleTimeout) (now : ℤ) :
    (t.evictLocked now).2.lru.values =
      (t.lru.values.filter fun f => now - f.lastSeen ≤ t.idleTimeout).take t.maxFlows := by
  have hkeeps := keeps_evictIdle hindexed now
  show (t.evictIdle now).2.evictOver.2.lru.values = _
  rw [evictOver_values hkeeps.indexed, evictIdle_values hindexed hrecent hidle, hkeeps.maxFlows]

theorem get_eq_some {key : K} {now : ℤ} {f : UDPFlow K B} {t' : UDPFlowTable K B}
    (h : t.get key now = some (f, t')) :
    ∃ el v, (el, v) ∈ t.lru.cells ∧
      t' = { t with
        lru := (t.lru.modify el fun f => { f with lastSeen := now }).moveToFront el } := by
  obtain ⟨el, -, hel⟩ := Option.bind_eq_some_iff.mp h
  obtain ⟨v, hv, heq⟩ := Option.map_eq_some_iff.mp hel
  exact ⟨el, v, value?_eq_some_iff.mp hv, (Prod.mk.inj heq).2.symm⟩

theorem remove_eq_some {key : K} {f : UDPFlow K B} {t' : UDPFlowTable K B}
    (hindexed : Indexes UDPFlow.key t.flows t.lru) (h : t.remove key = some (f, t')) :
    ∃ el, (el, f) ∈ t.lru.cells ∧
      t' = { t with lru := t.lru.remove el, flows := t.flows.erase f.key } := by
  obtain ⟨el, hlookup, hel⟩ := Option.bind_eq_some_iff.mp h
  obtain ⟨v, hv, heq⟩ := Option.map_eq_some_iff.mp hel
  obtain ⟨rfl, rfl⟩ := Prod.mk.inj heq
  have hmem := value?_eq_some_iff.mp hv
  obtain ⟨w, hw, hkey⟩ := (hindexed key el).mp hlookup
  rw [← eq_of_mem hmem hw] at hkey
  exact ⟨el, hmem, by rw [hkey]⟩

end UDPFlowTable

/-! ### Calls -/

def removals (evictions : List (Eviction B)) : List (B × ℕ) :=
  evictions.filterMap fun
    | .removeClient backend clientID => some (backend, clientID)
    | .closeConn _ => none

def UDPFlow.client (f : UDPFlow K B) : B × ℕ := (f.backend, f.clientID)

theorem removals_evict (evictions : List (Eviction B)) (gone : List (UDPFlow K B)) :
    removals (evictions ++ gone.flatMap UDPFlow.onEviction) =
      removals evictions ++ gone.map UDPFlow.client := by
  have hone : ∀ f : UDPFlow K B, removals f.onEviction = [f.client] := by
    intro f
    unfold UDPFlow.onEviction
    split_ifs <;> rfl
  rw [removals, List.filterMap_append]
  congr 1
  induction gone with
  | nil => rfl
  | cons f gone ih =>
    rw [List.flatMap_cons, List.filterMap_append, ih, ← removals, hone]
    rfl

/-- The table under the calls of `listenOnUDPPort` and of its reaper, with the last reading of the
clock, the number of client ids that were made and the effects of evictions. -/
structure FlowRun (K B : Type*) where
  table : UDPFlowTable K B
  clock : ℤ
  clients : ℕ
  evictions : List (Eviction B)

inductive TableCall (K B : Type*)
  | get (key : K) (now : ℤ)
  | add (key : K) (backend : B) (hasConn : Bool) (seen now : ℤ)
  | remove (key : K)
  | setIdleTimeout (idleTimeout : ℤ)
  | evict (now : ℤ)

namespace FlowRun
open UDPFlowTable

def start (idleTimeout maxFlows clock : ℤ) : FlowRun K B :=
  ⟨.new idleTimeout maxFlows, clock, 0, []⟩

def evicted (s : FlowRun K B) (out : List (UDPFlow K B) × UDPFlowTable K B) (now : ℤ) :
    FlowRun K B :=
  { s with
    table := out.2
    clock := now
    evictions := s.evictions ++ out.1.flatMap UDPFlow.onEviction }

def values (s : FlowRun K B) : List (UDPFlow K B) := s.table.lru.values

/-- The flow that an addition makes; its id is one that no other flow has. -/
def flow (s : FlowRun K B) (key : K) (backend : B) (hasConn : Bool) (seen : ℤ) : UDPFlow K B :=
  ⟨key, backend, s.clients, hasConn, seen⟩

variable [DecidableEq K]

/-- The clock never goes back. The reader of a port only adds a flow after a look-up that failed,
and only it adds flows. -/
def step (s : FlowRun K B) : TableCall K B → Option (FlowRun K B)
  | .get key now =>
      if s.clock ≤ now then
        match s.table.get key now with
        | some (_, table) => some { s with table := table, clock := now }
        | none => some { s with clock := now }
      else none
  | .add key backend hasConn seen now =>
      if s.clock ≤ seen ∧ seen ≤ now ∧ s.table.flows.lookup key = none then
        some ({ s with clients := s.clients + 1 }.evicted
          (s.table.add (s.flow key backend hasConn 0) seen now) now)
      else none
  | .remove key =>
      match s.table.remove key with
      | some (_, table) => some { s with table := table }
      | none => some s
  | .setIdleTimeout idleTimeout =>
      if 0 < idleTimeout then some { s with table := s.table.setIdleTimeout idleTimeout } else none
  | .evict now =>
      if s.clock ≤ now then some (s.evicted (s.table.evictLocked now) now) else none

def ids (s : FlowRun K B) : List ℕ :=
  s.values.map UDPFlow.clientID ++ (removals s.evictions).map Prod.snd

/-- The map and the list agree, the most recent flow is in front, and no client of a flow in the
table was removed, and none twice. -/
structure Inv (limit : ℕ) (s : FlowRun K B) : Prop where
  indexed : Indexes UDPFlow.key s.table.flows s.table.lru
  recent : Recent UDPFlow.lastSeen s.table.lru
  seen : ∀ f ∈ s.values, f.lastSeen ≤ s.clock
  idle : 0 < s.table.idleTimeout
  limit : s.table.maxFlows = limit
  known : ∀ id ∈ s.ids, id < s.clients
  once : s.ids.Nodup

variable {s s' : FlowRun K B} {limit : ℕ}

theorem inv_start {idleTimeout maxFlows : ℤ} (hidle : 0 < idleTimeout) (hmax : 1 ≤ maxFlows)
    (clock : ℤ) : Inv maxFlows.toNat (start idleTimeout maxFlows clock : FlowRun K B) where
  indexed := indexes_empty _
  recent := recent_empty _
  seen := fun _ hf => by cases hf
  idle := hidle
  limit := if_neg (by omega)
  known := fun _ hid => by cases hid
  once := List.nodup_nil

theorem Inv.evicted (h : Inv limit s) {now : ℤ} (hnow : s.clock ≤ now) :
    Inv limit (s.evicted (s.table.evictLocked now) now) := by
  have hkeeps := keeps_evictLocked h.indexed now
  have hsplit := evictLocked_split h.indexed now
  have hsublist : ((s.table.evictLocked now).2.lru.values).Sublist s.table.lru.values := by
    rw [hsplit]
    exact List.sublist_append_left _ _
  have hperm : ((s.evicted (s.table.evictLocked now) now).ids).Perm s.ids := by
    show (((s.table.evictLocked now).2.lru.values.map UDPFlow.clientID) ++
      (removals (s.evictions ++ (s.table.evictLocked now).1.flatMap UDPFlow.onEviction)).map
        Prod.snd).Perm (s.table.lru.values.map UDPFlow.clientID ++ _)
    rw [removals_evict, hsplit, List.map_append, List.map_append, List.map_map, List.append_assoc]
    apply List.Perm.append_left
    refine List.perm_append_comm.trans (List.Perm.append_right _ ?_)
    exact ((List.reverse_perm _).map _).symm
  exact
    { indexed := hkeeps.indexed
      recent := h.recent.sublist hsublist
      seen := fun f hf => (h.seen f (hsublist.subset hf)).trans hnow
      idle := hkeeps.idleTimeout.symm ▸ h.idle
      limit := hkeeps.maxFlows.trans h.limit
      known := fun id hid => h.known id (hperm.mem_iff.mp hid)
      once := hperm.nodup_iff.mpr h.once }

theorem Inv.push (h : Inv limit s) {seen : ℤ} (hseen : s.clock ≤ seen) {key : K}
    (hkey : s.table.flows.lookup key = none) (backend : B) (hasConn : Bool) :
    Inv limit
      { s with
        table := s.table.push (s.flow key backend hasConn seen)
        clock := seen
        clients := s.clients + 1 } where
  indexed := h.indexed.pushFront hkey
  recent := h.recent.pushFront fun f hf => (h.seen f hf).trans hseen
  seen := by
    intro f hf
    rcases List.mem_cons.mp hf with rfl | hf
    · exact le_rfl
    · exact (h.seen f hf).trans hseen
  idle := h.idle
  limit := h.limit
  known := by
    intro id hid
    rcases List.mem_cons.mp hid with rfl | hid
    · exact Nat.lt_succ_self _
    · exact (h.known id hid).trans (Nat.lt_succ_self _)
  once := List.nodup_cons.mpr ⟨fun hmem => absurd (h.known _ hmem) (lt_irrefl _), h.once⟩

theorem add_eq {key : K} (hkey : s.table.flows.lookup key = none) (backend : B) (hasConn : Bool)
    (seen now : ℤ) :
    s.table.add (s.flow key backend hasConn 0) seen now =
      (s.table.push (s.flow key backend hasConn seen)).evictLocked now := by
  have hreplaced : s.table.replaced key = s.table := by
    rw [replaced, hkey]
  show ((s.table.replaced key).push (s.flow key backend hasConn seen)).evictLocked now = _
  rw [hreplaced]

theorem Inv.get (h : Inv limit s) {now : ℤ} (hnow : s.clock ≤ now) {key : K} {f : UDPFlow K B}
    {table : UDPFlowTable K B} (hget : s.table.get key now = some (f, table)) :
    Inv limit { s with table := table, clock := now } := by
  obtain ⟨el, v, hmem, rfl⟩ := get_eq_some hget
  have hlast : ∀ w ∈ s.table.lru.values, w.lastSeen ≤ now := fun w hw =>
    (h.seen w hw).trans hnow
  have hperm := map_values_refresh (f := fun f => { f with lastSeen := now }) UDPFlow.clientID hmem
    rfl
  have hids := hperm.append_right ((removals s.evictions).map Prod.snd)
  refine ⟨h.indexed.refresh hmem rfl, h.recent.refresh hmem hlast, ?_, h.idle, h.limit, ?_, ?_⟩
  · intro w hw
    rw [FlowRun.values, LinkedList.values, cells_refresh hmem] at hw
    rcases List.mem_cons.mp hw with rfl | hw
    · exact le_rfl
    · exact hlast w (values_remove_sublist.subset hw)
  · intro id hid
    exact h.known id (hids.mem_iff.mp hid)
  · exact hids.nodup_iff.mpr h.once

theorem Inv.remove (h : Inv limit s) {key : K} {f : UDPFlow K B} {table : UDPFlowTable K B}
    (hremove : s.table.remove key = some (f, table)) : Inv limit { s with table := table } := by
  obtain ⟨el, hmem, rfl⟩ := remove_eq_some h.indexed hremove
  have hids := (values_remove_sublist (l := s.table.lru) (p := el)).map UDPFlow.clientID
    |>.append_right ((removals s.evictions).map Prod.snd)
  refine ⟨h.indexed.remove hmem, h.recent.remove el, ?_, h.idle, h.limit, ?_, ?_⟩
  · intro w hw
    exact h.seen w (values_remove_sublist.subset hw)
  · intro id hid
    exact h.known id (hids.subset hid)
  · exact hids.nodup h.once

theorem inv_step (h : Inv limit s) {call : TableCall K B} (hstep : s.step call = some s') :
    Inv limit s' := by
  cases call with
  | get key now =>
    dsimp only [step] at hstep
    split_ifs at hstep with hnow
    split at hstep
    · next f table hget =>
      obtain rfl := Option.some.inj hstep
      exact h.get hnow hget
    · obtain rfl := Option.some.inj hstep
      exact { h with seen := fun f hf => (h.seen f hf).trans hnow }
  | add key backend hasConn seen now =>
    dsimp only [step] at hstep
    split_ifs at hstep with hguard
    obtain ⟨hseen, hnow, hkey⟩ := hguard
    obtain rfl := Option.some.inj hstep
    rw [add_eq hkey]
    exact (h.push hseen hkey backend hasConn).evicted hnow
  | remove key =>
    dsimp only [step] at hstep
    split at hstep
    · next f table hremove =>
      obtain rfl := Option.some.inj hstep
      exact h.remove hremove
    · obtain rfl := Option.some.inj hstep
      exact h
  | setIdleTimeout idleTimeout =>
    dsimp only [step] at hstep
    split_ifs at hstep with hidle
    obtain rfl := Option.some.inj hstep
    exact { h with idle := hidle }
  | evict now =>
    dsimp only [step] at hstep
    split_ifs at hstep with hnow
    obtain rfl := Option.some.inj hstep
    exact h.evicted hnow

/-- Of some flows, the table is left with the most recent ones that are not idle at the time;
`RemoveClient` was called once for each of the others, and for no flow that is left. -/
structure Precise (limit : ℕ) (s s' : FlowRun K B) (flows : List (UDPFlow K B)) (now : ℤ) :
    Prop where
  left : s'.values =
    (flows.filter fun f => now - f.lastSeen ≤ s.table.idleTimeout).take limit
  removed : ∃ gone, flows.Perm (s'.values ++ gone) ∧
    removals s'.evictions = removals s.evictions ++ gone.map UDPFlow.client

def Evicted (limit : ℕ) (s s' : FlowRun K B) : TableCall K B → Prop
  | .add key backend hasConn seen now =>
      Precise limit s s' (s.flow key backend hasConn seen :: s.values) now ∧
        (s.flow key backend hasConn seen ∈ s'.values ↔ now - seen ≤ s.table.idleTimeout)
  | .evict now => Precise limit s s' s.values now
  | _ => removals s'.evictions = removals s.evictions

theorem Inv.precise (h : Inv limit s) (now : ℤ) :
    Precise limit s (s.evicted (s.table.evictLocked now) now) s.values now where
  left := h.limit ▸ evictLocked_values h.indexed h.recent h.idle now
  removed := by
    refine ⟨(s.table.evictLocked now).1, ?_, removals_evict _ _⟩
    rw [FlowRun.values, evictLocked_split h.indexed now]
    exact (List.reverse_perm _).append_left _

omit [DecidableEq K] in
theorem Precise.front_mem_iff {f : UDPFlow K B} {flows : List (UDPFlow K B)} {now : ℤ}
    (h : Precise limit s s' (f :: flows) now) (hlimit : 1 ≤ limit) :
    f ∈ s'.values ↔ now - f.lastSeen ≤ s.table.idleTimeout := by
  rw [h.left]
  constructor
  · intro hmem
    simpa using List.of_mem_filter (List.mem_of_mem_take hmem)
  · intro hidle
    obtain ⟨rest, rfl⟩ := Nat.exists_eq_add_of_le' hlimit
    rw [List.filter_cons_of_pos (by simpa using hidle), List.take_succ_cons]
    exact List.mem_cons_self

theorem evicted_of_step (h : Inv limit s) (hlimit : 1 ≤ limit) {call : TableCall K B}
    (hstep : s.step call = some s') : Evicted limit s s' call := by
  cases call with
  | get key now =>
    dsimp only [step] at hstep
    split_ifs at hstep
    split at hstep
    · obtain rfl := Option.some.inj hstep
      rfl
    · obtain rfl := Option.some.inj hstep
      rfl
  | add key backend hasConn seen now =>
    dsimp only [step] at hstep
    split_ifs at hstep with hguard
    obtain ⟨hseen, hnow, hkey⟩ := hguard
    obtain rfl := Option.some.inj hstep
    rw [add_eq hkey]
    obtain ⟨hleft, hremoved⟩ := (h.push hseen hkey backend hasConn).precise now
    have hprecise : Precise limit s _ (s.flow key backend hasConn seen :: s.values) now :=
      ⟨hleft, hremoved⟩
    exact ⟨hprecise, hprecise.front_mem_iff hlimit⟩
  | remove key =>
    dsimp only [step] at hstep
    split at hstep
    · obtain rfl := Option.some.inj hstep
      rfl
    · obtain rfl := Option.some.inj hstep
      rfl
  | setIdleTimeout idleTimeout =>
    dsimp only [step] at hstep
    split_ifs at hstep
    obtain rfl := Option.some.inj hstep
    rfl
  | evict now =>
    dsimp only [step] at hstep
    split_ifs at hstep
    obtain rfl := Option.some.inj hstep
    exact h.precise now

end FlowRun

section
open FlowRun

/-- The table of a listener evicts precisely; a flow that is added leaves in the same call when
more than the idle timeout passes between the two readings of the clock. -/
theorem udp_flow_table_precise [DecidableEq K] (idleTimeout maxFlows clock : ℤ)
    (hidle : 0 < idleTimeout) (hmax : 1 ≤ maxFlows) (calls : List (TableCall K B))
    (s : FlowRun K B) (hrun : run FlowRun.step (.start idleTimeout maxFlows clock) calls = some s) :
    Indexes UDPFlow.key s.table.flows s.table.lru ∧
      (s.values.map UDPFlow.key).Nodup ∧
      s.values.Pairwise (fun f g => g.lastSeen ≤ f.lastSeen) ∧
      (s.values.map UDPFlow.clientID ++ (removals s.evictions).map Prod.snd).Nodup ∧
      ∀ call s', s.step call = some s' → Evicted maxFlows.toNat s s' call := by
  have hinv : Inv maxFlows.toNat s :=
    invariant_run (fun _ _ _ h hstep => inv_step h hstep) (inv_start hidle hmax clock) hrun
  refine ⟨hinv.indexed, hinv.indexed.nodup_keys, hinv.recent, hinv.once, ?_⟩
  intro call s' hstep
  exact evicted_of_step hinv (by omega) hstep

/-- Two clients of one backend, with room for one flow. -/
def twoClients : List (TableCall ℕ Unit) :=
  [.add 1 () true 10 10, .get 1 12, .add 2 () true 13 14, .setIdleTimeout 3, .evict 20]

theorem udp_flow_table_precise_twoClients :
    (0 : ℤ) < 30 ∧ (1 : ℤ) ≤ 1 ∧
      ∃ s, run FlowRun.step (.start 30 1 0) twoClients = some s ∧
        removals s.evictions = [((), 0), ((), 1)] ∧
        (s.values.map UDPFlow.clientID ++ (removals s.evictions).map Prod.snd).Nodup := by
  refine ⟨by decide, by decide, ?_⟩
  obtain ⟨s, hrun, hremovals⟩ : ∃ s, run FlowRun.step (.start 30 1 0) twoClients = some s ∧
      removals s.evictions = [((), 0), ((), 1)] := exists_run_of_any (by decide +kernel)
  obtain ⟨-, -, -, honce, -⟩ := udp_flow_table_precise 30 1 0 (by decide) (by decide) twoClients s
    hrun
  exact ⟨s, hrun, hremovals, honce⟩

/-- A flow whose addition takes longer than the idle timeout is evicted by it. -/
theorem evicted_by_own_addition :
    ∃ s, run FlowRun.step (.start 1 1 0) [.add 1 () true 0 2] = some s ∧
      s.values = [] ∧ removals s.evictions = [((), 0)] :=
  exists_run_of_any (by decide +kernel)

end
end NexusProxy.Proxy
