import NexusProxy.Peer.FlowTable
import Mathlib.Data.Option.Basic

/-! The table with its maps does what the table of flows does that the calls for datagrams are
stated over: every operation finds, returns and leaves the same flows. -/
namespace NexusProxy.Peer.UDPFlows
open LinkedList

variable {Addr : Type*} [DecidableEq Addr]

/-- The list of the abstract table is that of the cells. -/
structure Refines (t : FlowTable Addr) (T : Table Addr) : Prop where
  consistent : t.Consistent
  lru : T.lru = t.lru.values
  maxFlows : T.maxFlows = t.maxFlows

theorem refines_new (maxFlows : ℤ) :
    Refines (FlowTable.new maxFlows : FlowTable Addr) (.new maxFlows) :=
  ⟨FlowTable.consistent_new maxFlows, rfl, rfl⟩

namespace Refines
variable {t : FlowTable Addr} {T : Table Addr}

theorem isFull (h : Refines t T) : t.isFull = T.isFull := by
  rw [FlowTable.isFull, Table.isFull, h.lru, h.maxFlows, len, values, List.length_map]

theorem getBy (h : Refines t T) {K : Type*} [DecidableEq K] {key : Flow Addr → K}
    {m : AList fun _ : K => ℕ} (hindexed : Indexes (key ∘ Entry.flow) m t.lru) (k : K) (now : ℤ) :
    Option.Rel (fun out abs => out.1 = abs.1 ∧ Refines out.2 abs.2) (t.getBy (m.lookup k) now)
      (T.touch (fun f => key f = k) now) := by
  have hfind : T.lru.find? ((fun f => decide (key f = k)) ∘ Entry.flow) =
      (m.lookup k).bind t.lru.value? := by
    rw [h.lru]
    exact hindexed.find?_values k
  cases hlookup : m.lookup k with
  | none =>
    rw [hlookup, Option.bind_none] at hfind
    have hnone : T.touch (fun f => key f = k) now = none :=
      Table.touch_eq_none.mpr (List.find?_eq_none.mp hfind)
    rw [hnone]
    exact .none
  | some el =>
    obtain ⟨e, hmem, rfl⟩ := (hindexed k el).mp hlookup
    rw [hlookup, Option.bind_some, value?_eq_some_iff.mpr hmem] at hfind
    obtain ⟨T', htouch, hlru, hmax⟩ := Table.touch_of_find? hfind now
    rw [htouch, FlowTable.getBy, Option.bind_some, value?_eq_some_iff.mpr hmem, Option.map_some]
    refine .some ⟨rfl, h.consistent.refresh hmem now, ?_, hmax.trans h.maxFlows⟩
    rw [hlru, FlowTable.refresh, values, cells_refresh hmem, List.map_cons, h.lru]
    exact congrArg _ (hindexed.eraseP_values hmem)

theorem getByKey (h : Refines t T) (key : Key Addr) (now : ℤ) :
    Option.Rel (fun out abs => out.1 = abs.1 ∧ Refines out.2 abs.2) (t.getByKey key now)
      (T.getByKey key now) :=
  h.getBy h.consistent.byKey key now

theorem getByID (h : Refines t T) (id : ℕ) (now : ℤ) :
    Option.Rel (fun out abs => out.1 = abs.1 ∧ Refines out.2 abs.2) (t.getByID id now)
      (T.getByID id now) :=
  h.getBy h.consistent.byID id now

theorem peekByID (h : Refines t T) (id : ℕ) : t.peekByID id = T.peekByID id := by
  have hfind := h.consistent.byID.find?_values id
  rw [FlowTable.peekByID, ← hfind, Table.peekByID, Table.flows, h.lru, List.find?_map]
  rfl

theorem addIfAbsent (h : Refines t T) (d : Datagram Addr) (now : ℤ) :
    let flow : Flow Addr := ⟨T.created.length, d.key, d.routeKey, d.idleTimeout⟩
    (T.addIfAbsent d now).1 = (t.addIfAbsent flow now).1.isNone ∧
      (T.addIfAbsent d now).2.1 = (t.addIfAbsent flow now).1.getD flow ∧
      Refines (t.addIfAbsent flow now).2 (T.addIfAbsent d now).2.2 := by
  intro flow
  have hget := h.getByKey d.key now
  unfold Table.addIfAbsent FlowTable.addIfAbsent
  split
  · next existing touched hsome =>
    rw [hsome] at hget
    cases hout : t.getByKey d.key now with
    | none =>
      rw [hout] at hget
      cases hget
    | some out =>
      rw [hout] at hget
      cases hget with
      | some hrel =>
        exact ⟨rfl, hrel.1.symm, hrel.2⟩
  · next hnone =>
    rw [hnone] at hget
    cases hout : t.getByKey d.key now with
    | some out =>
      rw [hout] at hget
      cases hget
    | none =>
      have hkey : t.byKey.lookup flow.key = none := by
        rw [h.consistent.byKey.lookup_eq_none_iff]
        intro e he hkey
        apply Table.notMem_of_getByKey hnone
        rw [Table.flows, h.lru, ← show e.key = d.key from hkey]
        exact List.mem_map_of_mem (List.mem_map_of_mem he)
      have hid : t.byID.lookup flow.id = none := by
        rw [h.consistent.byID.lookup_eq_none_iff]
        intro e he
        have hmem : e.flow ∈ T.lru.map Entry.flow := h.lru ▸ List.mem_map_of_mem he
        exact (List.getElem?_eq_some_iff.mp (T.known e.flow hmem)).1.ne
      exact ⟨rfl, rfl, h.consistent.push hkey hid now, congrArg _ h.lru, h.maxFlows⟩

theorem remove (h : Refines t T) {f : Flow Addr} (hf : T.created[f.id]? = some f) :
    t.remove f = (false, t) ∧ T.remove f = none ∨
      ∃ t' T', t.remove f = (true, t') ∧ T.remove f = some T' ∧ Refines t' T' := by
  by_cases hin : ∃ e ∈ t.lru.values, e.id = f.id
  · right
    obtain ⟨e, he, hid⟩ := hin
    obtain ⟨el, hmem⟩ := mem_values.mp he
    have hflow : e.flow ∈ T.lru.map Entry.flow := h.lru ▸ List.mem_map_of_mem he
    have hsame : e.flow = f := by
      have hknown := T.known e.flow hflow
      rw [show e.flow.id = f.id from hid, hf] at hknown
      exact (Option.some.inj hknown).symm
    subst hsame
    have hany : (T.flows.any fun g => g.id = e.flow.id) = true := by
      rw [List.any_eq_true]
      exact ⟨e.flow, hflow, by simp⟩
    refine ⟨_, _, h.consistent.removeLocked hmem, if_pos hany, h.consistent.drop hmem, ?_,
      h.maxFlows⟩
    show T.lru.eraseP _ = (t.lru.remove el).values
    rw [h.lru]
    exact h.consistent.byID.eraseP_values hmem
  · left
    have habsent : ∀ e ∈ t.lru.values, e.id ≠ f.id := fun e he hid => hin ⟨e, he, hid⟩
    refine ⟨h.consistent.removeLocked_absent habsent, if_neg ?_⟩
    rw [List.any_eq_true]
    rintro ⟨g, hg, hid⟩
    rw [Table.flows, h.lru] at hg
    obtain ⟨e, he, rfl⟩ := List.mem_map.mp hg
    exact habsent e he (of_decide_eq_true hid)

theorem evictOldest (h : Refines t T) :
    t.evictOldest = (none, t) ∧ T.evictOldest = none ∨
      ∃ f t' T', t.evictOldest = (some f, t') ∧ T.evictOldest = some (f, T') ∧ Refines t' T' := by
  unfold FlowTable.evictOldest
  cases hback : t.lru.back with
  | none =>
    left
    have hempty : T.lru = [] := by
      rw [h.lru, values, List.getLast?_eq_none_iff.mp hback]
      rfl
    exact ⟨rfl, Table.evictOldest_eq_none.mpr hempty⟩
  | some back =>
    right
    have hlast : T.lru.getLast? = some back.2 := by
      rw [h.lru, values_of_back hback]
      exact List.getLast?_concat
    have hevict : T.evictOldest =
        some (back.2.flow, T.keep T.lru.dropLast (List.dropLast_sublist _)) := by
      rw [Table.evictOldest, hlast]
      rfl
    dsimp only
    rw [hevict, h.consistent.removeLocked (mem_of_back hback)]
    refine ⟨back.2.flow, _, _, rfl, rfl, h.consistent.drop (mem_of_back hback), ?_, h.maxFlows⟩
    show T.lru.dropLast = (t.lru.remove back.1).values
    rw [h.lru, values_of_back hback, List.dropLast_concat]

/-- The loop from the back takes the longest end of expired flows. -/
theorem reapExpired (h : Refines t T) (now : ℤ) :
    (t.reapExpired now).1 = (T.reapExpired now).1 ∧
      Refines (t.reapExpired now).2 (T.reapExpired now).2 := by
  obtain ⟨gone, hgone, hconsistent, hmax, hvalues, hexpired, hstop⟩ :=
    h.consistent.reapExpired now
  have hreverse : T.lru.reverse = gone ++ (t.reapExpired now).2.lru.values.reverse := by
    rw [h.lru, hvalues, List.reverse_append, List.reverse_reverse]
  have hkept : (t.reapExpired now).2.lru.values.reverse.dropWhile (Entry.expired now) =
        (t.reapExpired now).2.lru.values.reverse ∧
      (t.reapExpired now).2.lru.values.reverse.takeWhile (Entry.expired now) = [] := by
    cases hback : (t.reapExpired now).2.lru.back with
    | none =>
      rw [values, List.getLast?_eq_none_iff.mp hback]
      exact ⟨rfl, rfl⟩
    | some c =>
      rw [values_of_back hback, List.reverse_append, List.reverse_singleton, List.singleton_append,
        List.dropWhile_cons_of_neg (by simp [hstop c hback]),
        List.takeWhile_cons_of_neg (by simp [hstop c hback])]
      exact ⟨rfl, rfl⟩
  have htake : T.lru.rtakeWhile (Entry.expired now) = gone.reverse := by
    rw [List.rtakeWhile, hreverse, List.takeWhile_append_of_pos hexpired, hkept.2, List.append_nil]
  have hdrop : T.lru.rdropWhile (Entry.expired now) = (t.reapExpired now).2.lru.values := by
    rw [List.rdropWhile, hreverse, List.dropWhile_append_of_pos hexpired, hkept.1,
      List.reverse_reverse]
  refine ⟨?_, hconsistent, hdrop, h.maxFlows.trans hmax.symm⟩
  show _ = (T.lru.rtakeWhile (Entry.expired now)).reverse.map Entry.flow
  rw [hgone, htake, List.reverse_reverse]

end Refines

/-! ### Every sequence of calls -/

/-- A call of the table; `remove` has a flow by its place among those that were added. -/
inductive Call (Addr : Type*) where
  | getByKey (key : Key Addr) (now : ℤ)
  | getByID (id : ℕ) (now : ℤ)
  | peekByID (id : ℕ)
  | isFull
  | addIfAbsent (d : Datagram Addr) (now : ℤ)
  | remove (id : ℕ)
  | evictOldest
  | reapExpired (now : ℤ)

/-- What a call returns. -/
inductive Answer (Addr : Type*) where
  | flow (found : Option (Flow Addr))
  | full (isFull : Bool)
  | added (isNew : Bool) (flow : Flow Addr)
  | removed (found : Bool)
  | expired (flows : List (Flow Addr))

/-- A call of the table of the source, with the flows that have been added to it. -/
def FlowTable.call (s : FlowTable Addr × List (Flow Addr)) :
    Call Addr → Answer Addr × FlowTable Addr × List (Flow Addr)
  | .getByKey key now =>
      (.flow ((s.1.getByKey key now).map Prod.fst),
        ((s.1.getByKey key now).map Prod.snd).getD s.1, s.2)
  | .getByID id now =>
      (.flow ((s.1.getByID id now).map Prod.fst),
        ((s.1.getByID id now).map Prod.snd).getD s.1, s.2)
  | .peekByID id => (.flow (s.1.peekByID id), s)
  | .isFull => (.full s.1.isFull, s)
  | .addIfAbsent d now =>
      let flow : Flow Addr := ⟨s.2.length, d.key, d.routeKey, d.idleTimeout⟩
      let out := s.1.addIfAbsent flow now
      (.added out.1.isNone (out.1.getD flow), out.2, if out.1.isNone then s.2 ++ [flow] else s.2)
  | .remove id =>
      match s.2[id]? with
      | none => (.removed false, s)
      | some f => (.removed (s.1.remove f).1, (s.1.remove f).2, s.2)
  | .evictOldest => (.flow s.1.evictOldest.1, s.1.evictOldest.2, s.2)
  | .reapExpired now => (.expired (s.1.reapExpired now).1, (s.1.reapExpired now).2, s.2)

def Table.call (T : Table Addr) : Call Addr → Answer Addr × Table Addr
  | .getByKey key now =>
      (.flow ((T.getByKey key now).map Prod.fst), ((T.getByKey key now).map Prod.snd).getD T)
  | .getByID id now =>
      (.flow ((T.getByID id now).map Prod.fst), ((T.getByID id now).map Prod.snd).getD T)
  | .peekByID id => (.flow (T.peekByID id), T)
  | .isFull => (.full T.isFull, T)
  | .addIfAbsent d now =>
      (.added (T.addIfAbsent d now).1 (T.addIfAbsent d now).2.1, (T.addIfAbsent d now).2.2)
  | .remove id =>
      match T.created[id]? with
      | none => (.removed false, T)
      | some f => (.removed (T.remove f).isSome, (T.remove f).getD T)
  | .evictOldest =>
      (.flow (T.evictOldest.map Prod.fst), (T.evictOldest.map Prod.snd).getD T)
  | .reapExpired now => (.expired (T.reapExpired now).1, (T.reapExpired now).2)

/-- The two tables with the same flows, each in its place among those that were added. -/
structure Alike (s : FlowTable Addr × List (Flow Addr)) (T : Table Addr) : Prop where
  refines : Refines s.1 T
  created : s.2 = T.created
  placed : ∀ i (f : Flow Addr), T.created[i]? = some f → f.id = i

namespace Alike
variable {s : FlowTable Addr × List (Flow Addr)} {t : FlowTable Addr} {T T' : Table Addr}

theorem kept (h : Alike s T) (hrefines : Refines t T') (hcreated : T'.created = T.created) :
    Alike (t, s.2) T' :=
  ⟨hrefines, h.created.trans hcreated.symm, fun i f hf => h.placed i f (hcreated ▸ hf)⟩

theorem found (h : Alike s T) {p : Flow Addr → Bool} {now : ℤ}
    {out : Option (Flow Addr × FlowTable Addr)}
    (hrel : Option.Rel (fun out abs => out.1 = abs.1 ∧ Refines out.2 abs.2) out (T.touch p now)) :
    out.map Prod.fst = (T.touch p now).map Prod.fst ∧
      Alike ((out.map Prod.snd).getD s.1, s.2) (((T.touch p now).map Prod.snd).getD T) := by
  cases htouch : T.touch p now with
  | none =>
    rw [htouch] at hrel
    cases hrel
    exact ⟨rfl, h⟩
  | some abs =>
    have hleaves : T.Leaves abs.2 [] := (Table.leaves_touch htouch).1
    rw [htouch] at hrel
    cases hrel with
    | some hboth => exact ⟨congrArg some hboth.1, h.kept hboth.2 hleaves.created⟩

theorem added (h : Alike s T) (d : Datagram Addr) (now : ℤ) :
    (FlowTable.call s (.addIfAbsent d now)).1 = (T.call (.addIfAbsent d now)).1 ∧
      Alike (FlowTable.call s (.addIfAbsent d now)).2 (T.call (.addIfAbsent d now)).2 := by
  have hrefines := h.refines.addIfAbsent d now
  obtain ⟨⟨isNew, f, T'⟩, hadd⟩ : ∃ out, T.addIfAbsent d now = out := ⟨_, rfl⟩
  rw [hadd] at hrefines
  obtain ⟨hnew, hflow, hrefines⟩ := hrefines
  simp only [FlowTable.call, Table.call, h.created, hadd, ← hnew, ← hflow]
  refine ⟨trivial, hrefines, ?_, ?_⟩
  · cases isNew with
    | false => exact (Table.leaves_addIfAbsent hadd).1.created.symm
    | true =>
      obtain ⟨-, rfl, hcreated, -⟩ := Table.addIfAbsent_added hadd
      exact hcreated.symm
  · intro i g hg
    cases isNew with
    | false =>
      rw [(Table.leaves_addIfAbsent hadd).1.created] at hg
      exact h.placed i g hg
    | true =>
      obtain ⟨-, rfl, hcreated, -⟩ := Table.addIfAbsent_added hadd
      rw [hcreated, List.getElem?_append] at hg
      split_ifs at hg with hlt
      · exact h.placed i g hg
      · obtain ⟨hlast, hget⟩ := List.getElem?_eq_some_iff.mp hg
        rw [List.length_singleton] at hlast
        rw [List.getElem_singleton] at hget
        subst hget
        exact (by omega : T.created.length = i)

theorem removed (h : Alike s T) (id : ℕ) :
    (FlowTable.call s (.remove id)).1 = (T.call (.remove id)).1 ∧
      Alike (FlowTable.call s (.remove id)).2 (T.call (.remove id)).2 := by
  simp only [FlowTable.call, Table.call, h.created]
  cases hf : T.created[id]? with
  | none => exact ⟨rfl, h⟩
  | some f =>
    have hplace : T.created[f.id]? = some f := by rw [h.placed id f hf, hf]
    dsimp only
    obtain ⟨hleft, hright⟩ | ⟨t', T', hleft, hright, hrefines⟩ := h.refines.remove hplace
    · rw [hleft, hright]
      exact ⟨rfl, h.created ▸ h⟩
    · rw [hleft, hright]
      exact ⟨rfl, h.created ▸ h.kept hrefines (Table.leaves_remove hright hplace).created⟩

theorem call (h : Alike s T) (c : Call Addr) :
    (FlowTable.call s c).1 = (T.call c).1 ∧ Alike (FlowTable.call s c).2 (T.call c).2 := by
  cases c with
  | getByKey key now =>
    obtain ⟨hflow, hnext⟩ := h.found (h.refines.getByKey key now)
    exact ⟨congrArg Answer.flow hflow, hnext⟩
  | getByID id now =>
    obtain ⟨hflow, hnext⟩ := h.found (h.refines.getByID id now)
    exact ⟨congrArg Answer.flow hflow, hnext⟩
  | peekByID id => exact ⟨congrArg Answer.flow (h.refines.peekByID id), h⟩
  | isFull => exact ⟨congrArg Answer.full h.refines.isFull, h⟩
  | addIfAbsent d now => exact h.added d now
  | remove id => exact h.removed id
  | evictOldest =>
    unfold FlowTable.call Table.call
    obtain ⟨hleft, hright⟩ | ⟨f, t', T', hleft, hright, hrefines⟩ := h.refines.evictOldest
    · rw [hleft, hright]
      exact ⟨rfl, h⟩
    · rw [hleft, hright]
      exact ⟨rfl, h.kept hrefines (Table.leaves_evictOldest hright).created⟩
  | reapExpired now =>
    obtain ⟨hflows, hrefines⟩ := h.refines.reapExpired now
    exact ⟨congrArg Answer.expired hflows, h.kept hrefines rfl⟩

end Alike

/-- Over every sequence of calls the table with its two maps and its linked list answers as the
plain list of flows does. -/
theorem flow_table_answers (maxFlows : ℤ) (calls : List (Call Addr)) :
    Transition.answers FlowTable.call (.new maxFlows, []) calls =
      Transition.answers Table.call (.new maxFlows) calls :=
  Transition.answers_eq (R := Alike) (fun _ _ c h => h.call c)
    ⟨refines_new maxFlows, rfl, fun i f hf => by cases hf⟩ calls

end NexusProxy.Peer.UDPFlows
