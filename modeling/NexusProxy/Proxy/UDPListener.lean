import Mathlib.Data.Finset.Card
import NexusProxy.Proxy.Sniff
import NexusProxy.Proxy.UDPFlowTable

/-! `listenOnUDPPort`: the loop that reads datagrams and forwards each one under the client id of
its flow, and the reaper next to it. Backends lose clients on their own, and any call to a backend
may fail. -/
namespace NexusProxy.Proxy.UDPListener
open LinkedList Transition
open scoped List

variable {K B : Type*}

/-- Where the loop stands, with the datagram in its hands. -/
inductive Loop (K B : Type*) where
  | readFrom
  | getFlow (key : K) (data : Bytes)
  | sendData (flow : UDPFlow K B) (data : Bytes)
  | remove (flow : UDPFlow K B)
  | removeClient (flow : UDPFlow K B)
  | selectBackend (key : K) (data : Bytes)
  | addClient (flow : UDPFlow K B) (data : Bytes)
  | addFlow (flow : UDPFlow K B) (data : Bytes)

namespace Loop

/-- The client that only the loop knows of. -/
def held : Loop K B → List (B × ℕ)
  | .addFlow flow _ | .removeClient flow => [flow.client]
  | _ => []

/-- The datagram that may still be forwarded. -/
def pending : Loop K B → List (K × Bytes)
  | .getFlow key data | .selectBackend key data => [(key, data)]
  | .sendData flow data | .addClient flow data | .addFlow flow data => [(flow.key, data)]
  | _ => []

end Loop

/-- A datagram on its way to a backend: the client it goes under, and the address it came from. -/
structure Forwarded (K B : Type*) where
  client : B × ℕ
  key : K
  data : Bytes

/-- `owners` has the address and the backend of each client id that was made. `registered` are the
clients that the backends know; `arrived` and `forwarded` are history. -/
structure State (K B : Type*) where
  table : UDPFlowTable K B
  loop : Loop K B
  owners : List (K × B)
  registered : Finset (B × ℕ)
  arrived : List (K × Bytes)
  forwarded : List (Forwarded K B)

/-- `reap` is a tick of the reaper, `drop` a client that a backend loses. -/
inductive Action (K B : Type*) where
  | receive (key : K) (data : Bytes)
  | getFlow (now : ℤ)
  | sendData (ok : Bool)
  | remove
  | removeClient
  | selectBackend (backend : Option B)
  | addClient (ok : Bool)
  | addFlow (seen now : ℤ)
  | reap (idleTimeout now : ℤ)
  | drop (client : B × ℕ)

namespace State

def start (idleTimeout maxFlows : ℤ) : State K B :=
  ⟨.new idleTimeout maxFlows, .readFrom, [], ∅, [], []⟩

def clients (s : State K B) : List (B × ℕ) := s.table.lru.values.map UDPFlow.client

variable [DecidableEq K] [DecidableEq B]

/-- `RemoveClient` for every flow that was evicted. -/
def evicted (s : State K B) (out : List (UDPFlow K B) × UDPFlowTable K B) : State K B :=
  { s with
    table := out.2
    registered := s.registered \ (out.1.map UDPFlow.client).toFinset }

/-- A datagram that is too long is dropped. `SendData` fails when the backend does not know the
client, and may fail otherwise. Without a backend the datagram is left to the peers. -/
def step (maxDatagram : ℕ) (s : State K B) : Action K B → Option (State K B)
  | .receive key data =>
      match s.loop with
      | .readFrom =>
          if maxDatagram < data.length then some s
          else some { s with
            loop := .getFlow key data
            arrived := s.arrived ++ [(key, data)] }
      | _ => none
  | .getFlow now =>
      match s.loop with
      | .getFlow key data =>
          match s.table.get key now with
          | some (flow, table) => some { s with table := table, loop := .sendData flow data }
          | none => some { s with loop := .selectBackend key data }
      | _ => none
  | .sendData ok =>
      match s.loop with
      | .sendData flow data =>
          if ok then
            if flow.client ∈ s.registered then
              some { s with
                loop := .readFrom
                forwarded := s.forwarded ++ [⟨flow.client, flow.key, data⟩] }
            else none
          else some { s with loop := .remove flow }
      | _ => none
  | .remove =>
      match s.loop with
      | .remove flow =>
          match s.table.remove flow.key with
          | some (_, table) => some { s with table := table, loop := .removeClient flow }
          | none => some { s with loop := .removeClient flow }
      | _ => none
  | .removeClient =>
      match s.loop with
      | .removeClient flow =>
          some { s with loop := .readFrom, registered := s.registered.erase flow.client }
      | _ => none
  | .selectBackend backend =>
      match s.loop with
      | .selectBackend key data =>
          match backend with
          | none => some { s with loop := .readFrom }
          | some backend =>
              some { s with
                loop := .addClient ⟨key, backend, s.owners.length, true, 0⟩ data
                owners := s.owners ++ [(key, backend)] }
      | _ => none
  | .addClient ok =>
      match s.loop with
      | .addClient flow data =>
          if ok then
            some { s with
              loop := .addFlow flow data
              registered := insert flow.client s.registered }
          else some { s with loop := .readFrom }
      | _ => none
  | .addFlow seen now =>
      match s.loop with
      | .addFlow flow data =>
          some { s.evicted (s.table.add flow seen now) with loop := .sendData flow data }
      | _ => none
  | .reap idleTimeout now =>
      some (s.evicted ((s.table.setIdleTimeout idleTimeout).evictLocked now))
  | .drop client => some { s with registered := s.registered.erase client }

end State

/-! ### The calls of the table -/

section Table
variable [DecidableEq K] {t t' : UDPFlowTable K B} {key : K} {f : UDPFlow K B} {now : ℤ}

theorem get_found (hindexed : Indexes UDPFlow.key t.flows t.lru)
    (h : t.get key now = some (f, t')) :
    ∃ v rest, f = { v with lastSeen := now } ∧ v.key = key ∧ t.lru.values.Perm (v :: rest) ∧
      t'.lru.values = f :: rest ∧ Indexes UDPFlow.key t'.flows t'.lru ∧
      t'.maxFlows = t.maxFlows := by
  obtain ⟨el, hlookup, hel⟩ := Option.bind_eq_some_iff.mp h
  obtain ⟨v, hv, heq⟩ := Option.map_eq_some_iff.mp hel
  obtain ⟨rfl, rfl⟩ := Prod.mk.inj heq
  have hmem := value?_eq_some_iff.mp hv
  obtain ⟨w, hw, hkey⟩ := (hindexed key el).mp hlookup
  rw [← eq_of_mem hmem hw] at hkey
  refine ⟨v, (t.lru.remove el).values, rfl, hkey, values_perm_remove hmem, ?_,
    hindexed.refresh hmem rfl, rfl⟩
  show ((t.lru.modify el _).moveToFront el).values = _
  rw [LinkedList.values, cells_refresh hmem]
  rfl

theorem get_missing (hindexed : Indexes UDPFlow.key t.flows t.lru) (h : t.get key now = none) :
    ∀ g ∈ t.lru.values, g.key ≠ key := by
  refine hindexed.lookup_eq_none_iff.mp ?_
  cases hlookup : t.flows.lookup key with
  | none => rfl
  | some el =>
    obtain ⟨v, hv, -⟩ := (hindexed key el).mp hlookup
    rw [UDPFlowTable.get, hlookup, Option.bind_some, value?_eq_some_iff.mpr hv] at h
    cases h

theorem remove_found (hindexed : Indexes UDPFlow.key t.flows t.lru)
    (h : t.remove key = some (f, t')) :
    f.key = key ∧ t.lru.values.Perm (f :: t'.lru.values) ∧ Indexes UDPFlow.key t'.flows t'.lru ∧
      t'.maxFlows = t.maxFlows := by
  have hkey : f.key = key := by
    obtain ⟨el, hlookup, hel⟩ := Option.bind_eq_some_iff.mp h
    obtain ⟨v, hv, heq⟩ := Option.map_eq_some_iff.mp hel
    obtain ⟨rfl, -⟩ := Prod.mk.inj heq
    obtain ⟨w, hw, hkey⟩ := (hindexed key el).mp hlookup
    rwa [← eq_of_mem (value?_eq_some_iff.mp hv) hw] at hkey
  obtain ⟨el, hmem, rfl⟩ := UDPFlowTable.remove_eq_some hindexed h
  exact ⟨hkey, values_perm_remove hmem, hindexed.remove hmem, rfl⟩

theorem evictLocked_length (hindexed : Indexes UDPFlow.key t.flows t.lru) (now : ℤ) :
    (t.evictLocked now).2.lru.values.length ≤ t.maxFlows := by
  have hkeeps := UDPFlowTable.keeps_evictIdle hindexed now
  show (t.evictIdle now).2.evictOver.2.lru.values.length ≤ _
  rw [UDPFlowTable.evictOver_values hkeeps.indexed, hkeeps.maxFlows]
  exact List.length_take_le _ _

end Table

/-! ### Who is registered -/

/-- The client id of a flow was made for its address and its backend. -/
def Owned (owners : List (K × B)) (flow : UDPFlow K B) : Prop :=
  owners[flow.clientID]? = some (flow.key, flow.backend)

theorem Owned.concat {owners : List (K × B)} {flow : UDPFlow K B} (h : Owned owners flow)
    (owner : K × B) : Owned (owners ++ [owner]) flow := by
  have hlt : flow.clientID < owners.length := (List.getElem?_eq_some_iff.mp h).1
  unfold Owned
  rw [List.getElem?_append_left hlt]
  exact h

/-- What the loop knows about the flow in its hands: nobody else adds flows for its address. -/
def Loop.Sound (owners : List (K × B)) (flows : List (UDPFlow K B)) : Loop K B → Prop
  | .sendData flow _ | .remove flow =>
      Owned owners flow ∧ ∀ g ∈ flows, g.key = flow.key → g.client = flow.client
  | .removeClient flow => Owned owners flow
  | .selectBackend key _ => ∀ g ∈ flows, g.key ≠ key
  | .addClient flow _ | .addFlow flow _ => Owned owners flow ∧ ∀ g ∈ flows, g.key ≠ flow.key
  | .readFrom | .getFlow _ _ => True

theorem Loop.Sound.mono {owners : List (K × B)} {flows flows' : List (UDPFlow K B)}
    {loop : Loop K B} (h : loop.Sound owners flows) (hsub : flows' ⊆ flows) :
    loop.Sound owners flows' := by
  cases loop with
  | readFrom | getFlow => trivial
  | sendData flow | remove flow => exact ⟨h.1, fun g hg => h.2 g (hsub hg)⟩
  | removeClient flow => exact h
  | selectBackend key => exact fun g hg => h g (hsub hg)
  | addClient flow | addFlow flow => exact ⟨h.1, fun g hg => h.2 g (hsub hg)⟩

variable [DecidableEq K]

structure Sound (limit : ℕ) (s : State K B) : Prop where
  indexed : Indexes UDPFlow.key s.table.flows s.table.lru
  maxFlows : s.table.maxFlows = limit
  size : s.table.lru.values.length ≤ limit
  owned : ∀ f ∈ s.table.lru.values, Owned s.owners f
  loop : s.loop.Sound s.owners s.table.lru.values
  accounted : ∀ c ∈ s.registered, c ∈ s.clients ∨ c ∈ s.loop.held
  forwarded : ∀ d ∈ s.forwarded, s.owners[d.client.2]? = some (d.key, d.client.1)
  ordered : (s.forwarded.map fun d => (d.key, d.data)) ++ s.loop.pending <+ s.arrived

variable {limit maxDatagram : ℕ} {s s' : State K B}

theorem sound_start (idleTimeout maxFlows : ℤ) :
    Sound (UDPFlowTable.new idleTimeout maxFlows : UDPFlowTable K B).maxFlows
      (State.start idleTimeout maxFlows : State K B) where
  indexed := indexes_empty _
  maxFlows := rfl
  size := Nat.zero_le _
  owned := fun _ hf => by cases hf
  loop := trivial
  accounted := fun _ hc => by cases hc
  forwarded := fun _ hd => by cases hd
  ordered := List.Sublist.refl _

theorem Sound.goes (h : Sound limit s) {loop : Loop K B}
    (hloop : loop.Sound s.owners s.table.lru.values)
    (hheld : s.loop.held ⊆ loop.held) (hpending : loop.pending <+ s.loop.pending) :
    Sound limit { s with loop := loop } :=
  { h with
    loop := hloop
    accounted := fun c hc => (h.accounted c hc).imp_right fun hmem => hheld hmem
    ordered := (List.Sublist.append_left hpending _).trans h.ordered }

theorem Sound.found (h : Sound limit s) {key : K} {data : Bytes} {now : ℤ} {flow : UDPFlow K B}
    {table : UDPFlowTable K B} (hloop : s.loop = .getFlow key data)
    (hget : s.table.get key now = some (flow, table)) :
    Sound limit { s with table := table, loop := .sendData flow data } := by
  obtain ⟨v, rest, rfl, hkey, hperm, hvalues, hindexed, hmax⟩ := get_found h.indexed hget
  have hv : v ∈ s.table.lru.values := hperm.symm.subset List.mem_cons_self
  have hrest : rest ⊆ s.table.lru.values :=
    List.Subset.trans (List.subset_cons_self _ _) hperm.symm.subset
  have hother : ∀ g ∈ rest, g.key ≠ v.key := by
    have hnodup := (hperm.map UDPFlow.key).nodup_iff.mp h.indexed.nodup_keys
    intro g hg heq
    exact (List.nodup_cons.mp hnodup).1 (heq ▸ List.mem_map_of_mem hg)
  refine
    { indexed := hindexed
      maxFlows := hmax.trans h.maxFlows
      size := ?_
      owned := fun f hf => ?_
      loop := ⟨h.owned v hv, fun g hg hg' => ?_⟩
      accounted := fun c hc => ?_
      forwarded := h.forwarded
      ordered := ?_ }
  · show table.lru.values.length ≤ limit
    rw [hvalues, List.length_cons, ← List.length_cons (a := v), ← hperm.length_eq]
    exact h.size
  · rcases List.mem_cons.mp (hvalues ▸ hf) with rfl | hf
    · exact h.owned v hv
    · exact h.owned f (hrest hf)
  · rcases List.mem_cons.mp (hvalues ▸ hg) with rfl | hg
    · rfl
    · exact absurd hg' (hother g hg)
  · have haccounted := h.accounted c hc
    rw [hloop] at haccounted
    refine .inl ?_
    show c ∈ table.lru.values.map UDPFlow.client
    rw [hvalues]
    exact (hperm.map UDPFlow.client).subset (haccounted.resolve_right (by simp [Loop.held]))
  · have hordered := h.ordered
    rw [hloop] at hordered
    show _ ++ [(v.key, data)] <+ _
    rw [hkey]
    exact hordered

theorem Sound.removed (h : Sound limit s) {flow g : UDPFlow K B} {table : UDPFlowTable K B}
    (hloop : s.loop = .remove flow) (hremove : s.table.remove flow.key = some (g, table)) :
    Sound limit { s with table := table, loop := .removeClient flow } := by
  have hsound := h.loop
  rw [hloop] at hsound
  obtain ⟨hkey, hperm, hindexed, hmax⟩ := remove_found h.indexed hremove
  have hsub : table.lru.values ⊆ s.table.lru.values :=
    List.Subset.trans (List.subset_cons_self _ _) hperm.symm.subset
  have hclient : g.client = flow.client :=
    hsound.2 g (hperm.symm.subset List.mem_cons_self) hkey
  refine
    { indexed := hindexed
      maxFlows := hmax.trans h.maxFlows
      size := ?_
      owned := fun f hf => h.owned f (hsub hf)
      loop := hsound.1
      accounted := fun c hc => ?_
      forwarded := h.forwarded
      ordered := ?_ }
  · have hlength := hperm.length_eq
    have hsize := h.size
    simp only [List.length_cons] at hlength
    show table.lru.values.length ≤ limit
    omega
  · -- the flow that left the table is the one that the loop gives up
    have haccounted := h.accounted c hc
    rw [hloop] at haccounted
    have hmem := haccounted.resolve_right (by simp [Loop.held])
    rcases List.mem_cons.mp ((hperm.map UDPFlow.client).subset hmem) with rfl | hmem
    · exact .inr (by rw [hclient]; exact List.mem_singleton_self _)
    · exact .inl hmem
  · have hordered := h.ordered
    rw [hloop] at hordered
    exact hordered

theorem Sound.selected (h : Sound limit s) {key : K} {data : Bytes} (backend : B)
    (hloop : s.loop = .selectBackend key data) :
    Sound limit { s with
      loop := .addClient ⟨key, backend, s.owners.length, true, 0⟩ data
      owners := s.owners ++ [(key, backend)] } := by
  have hsound := h.loop
  have haccounted := h.accounted
  have hordered := h.ordered
  rw [hloop] at hsound haccounted hordered
  refine
    { indexed := h.indexed
      maxFlows := h.maxFlows
      size := h.size
      owned := fun f hf => (h.owned f hf).concat _
      loop := ⟨List.getElem?_concat_length, hsound⟩
      accounted := haccounted
      forwarded := fun d hd => ?_
      ordered := hordered }
  have hlt : d.client.2 < s.owners.length := (List.getElem?_eq_some_iff.mp (h.forwarded d hd)).1
  show (s.owners ++ [(key, backend)])[d.client.2]? = _
  rw [List.getElem?_append_left hlt]
  exact h.forwarded d hd

variable [DecidableEq B]

theorem Sound.evicts (h : Sound limit s) {t : UDPFlowTable K B} {loop : Loop K B} {now : ℤ}
    (hindexed : Indexes UDPFlow.key t.flows t.lru) (hmax : t.maxFlows = limit)
    (howned : ∀ f ∈ t.lru.values, Owned s.owners f)
    (hloop : loop.Sound s.owners t.lru.values)
    (haccounted : ∀ c ∈ s.registered, c ∈ t.lru.values.map UDPFlow.client ∨ c ∈ loop.held)
    (hpending : loop.pending = s.loop.pending) :
    Sound limit { s.evicted (t.evictLocked now) with loop := loop } := by
  have hkeeps := UDPFlowTable.keeps_evictLocked hindexed now
  have hsplit := UDPFlowTable.evictLocked_split hindexed now
  have hsub : (t.evictLocked now).2.lru.values ⊆ t.lru.values := by
    rw [hsplit]
    exact List.subset_append_left _ _
  refine
    { indexed := hkeeps.indexed
      maxFlows := hkeeps.maxFlows.trans hmax
      size := hmax ▸ evictLocked_length hindexed now
      owned := fun f hf => howned f (hsub hf)
      loop := hloop.mono hsub
      accounted := fun c hc => ?_
      forwarded := h.forwarded
      ordered := ?_ }
  · obtain ⟨hc, hgone⟩ := Finset.mem_sdiff.mp hc
    refine (haccounted c hc).imp_left fun hmem => ?_
    rw [hsplit, List.map_append] at hmem
    refine (List.mem_append.mp hmem).resolve_right fun hmem => hgone ?_
    rw [List.mem_toFinset]
    rwa [List.map_reverse, List.mem_reverse] at hmem
  · show _ ++ loop.pending <+ _
    rw [hpending]
    exact h.ordered

theorem Sound.added (h : Sound limit s) {flow : UDPFlow K B} {data : Bytes} {seen now : ℤ}
    (hloop : s.loop = .addFlow flow data) :
    Sound limit { s.evicted (s.table.add flow seen now) with loop := .sendData flow data } := by
  have hsound := h.loop
  rw [hloop] at hsound
  obtain ⟨howned, hnew⟩ := hsound
  have hlookup := h.indexed.lookup_eq_none_iff.mpr hnew
  have hadd : s.table.add flow seen now =
      (s.table.push { flow with lastSeen := seen }).evictLocked now := by
    rw [UDPFlowTable.add, UDPFlowTable.replaced, hlookup]
  rw [hadd]
  refine h.evicts (h.indexed.pushFront hlookup) h.maxFlows (fun f hf => ?_)
    ⟨howned, fun g hg hkey => ?_⟩ (fun c hc => .inl ?_) (by rw [hloop]; rfl)
  · rcases List.mem_cons.mp hf with rfl | hf
    · exact howned
    · exact h.owned f hf
  · rcases List.mem_cons.mp hg with rfl | hg
    · rfl
    · exact absurd hkey (hnew g hg)
  · have haccounted := h.accounted c hc
    rw [hloop] at haccounted
    rcases haccounted with hmem | hmem
    · exact List.mem_cons_of_mem _ hmem
    · rw [List.mem_singleton.mp hmem]
      exact List.mem_cons_self

theorem Sound.receive (h : Sound limit s) {key : K} {data : Bytes}
    (hstep : s.step maxDatagram (.receive key data) = some s') : Sound limit s' := by
  simp only [State.step] at hstep
  split at hstep
  · rename_i hloop
    have hordered := h.ordered
    rw [hloop, show (Loop.readFrom : Loop K B).pending = [] from rfl, List.append_nil] at hordered
    obtain ⟨-, hstep⟩ | ⟨-, hstep⟩ := ite_eq_iff.mp hstep
    · obtain rfl := Option.some.inj hstep
      exact h
    · obtain rfl := Option.some.inj hstep
      exact { h with
        loop := trivial
        accounted := fun c hc => by
          have haccounted := h.accounted c hc
          rwa [hloop] at haccounted
        ordered := hordered.append (List.Sublist.refl _) }
  · cases hstep

theorem Sound.getFlow (h : Sound limit s) {now : ℤ}
    (hstep : s.step maxDatagram (.getFlow now) = some s') : Sound limit s' := by
  simp only [State.step] at hstep
  split at hstep
  · rename_i key data hloop
    have hheld : s.loop.held ⊆ [] := by rw [hloop]; exact List.Subset.refl _
    have hpending : s.loop.pending = [(key, data)] := by rw [hloop]; rfl
    cases hget : s.table.get key now with
    | none =>
      rw [hget] at hstep
      obtain rfl := Option.some.inj hstep
      exact h.goes (get_missing h.indexed hget) hheld (hpending ▸ List.Sublist.refl _)
    | some found =>
      obtain ⟨flow, table⟩ := found
      rw [hget] at hstep
      obtain rfl := Option.some.inj hstep
      exact h.found hloop hget
  · cases hstep

theorem Sound.sendData (h : Sound limit s) {ok : Bool}
    (hstep : s.step maxDatagram (.sendData ok) = some s') : Sound limit s' := by
  simp only [State.step] at hstep
  split at hstep
  · rename_i flow data hloop
    have hsound := h.loop
    have hordered := h.ordered
    rw [hloop] at hsound hordered
    have hheld : s.loop.held ⊆ [] := by rw [hloop]; exact List.Subset.refl _
    cases ok with
    | true =>
      obtain ⟨-, rfl⟩ := guarded hstep
      refine { h with
        loop := trivial
        accounted := fun c hc => (h.accounted c hc).imp_right fun hmem => hheld hmem
        forwarded := fun d hd => ?_
        ordered := ?_ }
      · rcases List.mem_append.mp hd with hd | hd
        · exact h.forwarded d hd
        · rw [List.mem_singleton.mp hd]
          exact hsound.1
      · show (s.forwarded ++ _).map _ ++ [] <+ s.arrived
        rw [List.append_nil, List.map_append]
        exact hordered
    | false =>
      obtain rfl := Option.some.inj hstep
      exact h.goes hsound hheld (List.nil_sublist _)
  · cases hstep

theorem Sound.remove (h : Sound limit s)
    (hstep : s.step maxDatagram .remove = some s') : Sound limit s' := by
  simp only [State.step] at hstep
  split at hstep
  · rename_i flow hloop
    have hsound := h.loop
    rw [hloop] at hsound
    cases hremove : s.table.remove flow.key with
    | none =>
      rw [hremove] at hstep
      obtain rfl := Option.some.inj hstep
      exact h.goes hsound.1 (by rw [hloop]; exact List.nil_subset _) (List.nil_sublist _)
    | some found =>
      obtain ⟨g, table⟩ := found
      rw [hremove] at hstep
      obtain rfl := Option.some.inj hstep
      exact h.removed hloop hremove
  · cases hstep

theorem Sound.removeClient (h : Sound limit s)
    (hstep : s.step maxDatagram .removeClient = some s') : Sound limit s' := by
  simp only [State.step] at hstep
  split at hstep
  · rename_i flow hloop
    have haccounted := h.accounted
    have hordered := h.ordered
    rw [hloop] at haccounted hordered
    obtain rfl := Option.some.inj hstep
    refine { h with
      loop := trivial
      accounted := fun c hc => ?_
      ordered := hordered }
    obtain ⟨hne, hc⟩ := Finset.mem_erase.mp hc
    exact .inl ((haccounted c hc).resolve_right fun hmem => hne (List.mem_singleton.mp hmem))
  · cases hstep

theorem Sound.selectBackend (h : Sound limit s) {backend : Option B}
    (hstep : s.step maxDatagram (.selectBackend backend) = some s') : Sound limit s' := by
  simp only [State.step] at hstep
  split at hstep
  · rename_i key data hloop
    cases backend with
    | none =>
      obtain rfl := Option.some.inj hstep
      exact h.goes trivial (by rw [hloop]; exact List.nil_subset _) (List.nil_sublist _)
    | some backend =>
      obtain rfl := Option.some.inj hstep
      exact h.selected backend hloop
  · cases hstep

theorem Sound.addClient (h : Sound limit s) {ok : Bool}
    (hstep : s.step maxDatagram (.addClient ok) = some s') : Sound limit s' := by
  simp only [State.step] at hstep
  split at hstep
  · rename_i flow data hloop
    have hsound := h.loop
    have haccounted := h.accounted
    have hordered := h.ordered
    rw [hloop] at hsound haccounted hordered
    cases ok with
    | true =>
      obtain rfl := Option.some.inj hstep
      refine { h with
        loop := hsound
        accounted := fun c hc => ?_
        ordered := hordered }
      rcases Finset.mem_insert.mp hc with rfl | hc
      · exact .inr (List.mem_singleton_self _)
      · exact .inl ((haccounted c hc).resolve_right (by simp [Loop.held]))
    | false =>
      obtain rfl := Option.some.inj hstep
      exact h.goes trivial (by rw [hloop]; exact List.nil_subset _) (List.nil_sublist _)
  · cases hstep

theorem Sound.addFlow (h : Sound limit s) {seen now : ℤ}
    (hstep : s.step maxDatagram (.addFlow seen now) = some s') : Sound limit s' := by
  simp only [State.step] at hstep
  split at hstep
  · rename_i flow data hloop
    obtain rfl := Option.some.inj hstep
    exact h.added hloop
  · cases hstep

theorem Sound.step {a : Action K B} (h : Sound limit s)
    (hstep : s.step maxDatagram a = some s') : Sound limit s' := by
  cases a with
  | receive => exact h.receive hstep
  | getFlow => exact h.getFlow hstep
  | sendData => exact h.sendData hstep
  | remove => exact h.remove hstep
  | removeClient => exact h.removeClient hstep
  | selectBackend => exact h.selectBackend hstep
  | addClient => exact h.addClient hstep
  | addFlow => exact h.addFlow hstep
  | reap idleTimeout now =>
    obtain rfl := Option.some.inj hstep
    have hindexed : Indexes UDPFlow.key (s.table.setIdleTimeout idleTimeout).flows
        (s.table.setIdleTimeout idleTimeout).lru := h.indexed
    exact h.evicts hindexed h.maxFlows h.owned h.loop h.accounted rfl
  | drop client =>
    obtain rfl := Option.some.inj hstep
    exact { h with accounted := fun c hc => h.accounted c (Finset.mem_of_mem_erase hc) }

/-- In every run of the loop, the reaper and the backends: a client that a backend knows belongs to
a flow of the table or is in the hands of the loop, so that there is at most one more than the table
may hold; a client id stands for one address at one backend; and datagrams are forwarded in the
order in which they came, none twice. -/
theorem udp_clients_accounted {idleTimeout maxFlows : ℤ} {actions : List (Action K B)}
    (hrun : run (State.step maxDatagram) (.start idleTimeout maxFlows) actions = some s) :
    (∀ c ∈ s.registered, c ∈ s.clients ∨ c ∈ s.loop.held) ∧
      s.registered.card ≤ (UDPFlowTable.new idleTimeout maxFlows : UDPFlowTable K B).maxFlows + 1 ∧
      (∀ d ∈ s.forwarded, ∀ e ∈ s.forwarded, d.client.2 = e.client.2 →
        d.key = e.key ∧ d.client = e.client) ∧
      (s.forwarded.map fun d => (d.key, d.data)) <+ s.arrived := by
  have h := invariant_run (fun _ _ _ hI hstep => hI.step hstep)
    (sound_start (K := K) (B := B) idleTimeout maxFlows) hrun
  refine ⟨h.accounted, ?_, fun d hd e he hid => ?_, ?_⟩
  · have hsubset : s.registered ⊆ (s.clients ++ s.loop.held).toFinset := fun c hc =>
      List.mem_toFinset.mpr (List.mem_append.mpr (h.accounted c hc))
    have hheld : s.loop.held.length ≤ 1 := by cases s.loop <;> simp [Loop.held]
    have hclients : s.clients.length ≤ _ := (List.length_map _).trans_le h.size
    calc s.registered.card
        ≤ (s.clients ++ s.loop.held).toFinset.card := Finset.card_le_card hsubset
      _ ≤ (s.clients ++ s.loop.held).length := List.toFinset_card_le _
      _ = s.clients.length + s.loop.held.length := List.length_append
      _ ≤ _ := Nat.add_le_add hclients hheld
  · have hd' := h.forwarded d hd
    have he' := h.forwarded e he
    rw [hid, he'] at hd'
    obtain ⟨hkey, hbackend⟩ := Prod.mk.inj (Option.some.inj hd')
    exact ⟨hkey.symm, Prod.ext hbackend.symm hid⟩
  · exact (List.sublist_append_left _ _).trans h.ordered

/-- A table for one flow: the second address evicts the flow of the first, which then comes back. -/
def twoAddresses : List (Action ℕ Unit) :=
  [.receive 10 [1], .getFlow 0, .selectBackend (some ()), .addClient true, .addFlow 0 0,
    .sendData true, .receive 20 [2], .getFlow 1, .selectBackend (some ()), .addClient true,
    .addFlow 1 1, .sendData true, .receive 10 [3], .getFlow 2, .selectBackend (some ()),
    .addClient true]

theorem udp_clients_accounted_twoAddresses :
    ∃ s, run (State.step 2048) (.start 60 1) twoAddresses = some s ∧
      s.registered = {((), 1), ((), 2)} ∧ s.registered.card ≤ 1 + 1 ∧
      (s.forwarded.map fun d => (d.key, d.data)) = [(10, [1]), (20, [2])] := by
  obtain ⟨s, hrun, hregistered, hforwarded⟩ :
      ∃ s, run (State.step 2048) (.start 60 1) twoAddresses = some s ∧
        (s.registered = {((), 1), ((), 2)} ∧
          (s.forwarded.map fun d => (d.key, d.data)) = [(10, [1]), (20, [2])]) :=
    exists_run_of_any (by decide +kernel)
  exact ⟨s, hrun, hregistered, (udp_clients_accounted hrun).2.1, hforwarded⟩

end NexusProxy.Proxy.UDPListener
