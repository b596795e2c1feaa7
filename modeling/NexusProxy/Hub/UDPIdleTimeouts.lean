import Mathlib.Order.Bounds.Basic
import NexusProxy.Hub.Claims
import NexusProxy.Lib.Collections
import NexusProxy.Lib.NestedMaps

/-! The effective idle timeout of UDP flows on a port: the hub keeps the timeouts that connected
backends ask for, and next to them a cached maximum for each port. -/
namespace NexusProxy.Hub
open Collections NestedMaps

/-- The part of `hubImpl` that `udpFlowIdleMu` protects: for each port the timeouts by backend,
and the cache that `UDPFlowIdleTimeout` reads. -/
structure UDPFlowIdle (Id : Type*) where
  sources : AList fun _ : ℤ => AList fun _ : Id => ℤ
  byPort : AList fun _ : ℤ => ℤ

namespace UDPFlowIdle
variable {Id : Type*}

def empty : UDPFlowIdle Id := ⟨∅, ∅⟩

def udpFlowIdleTimeout (h : UDPFlowIdle Id) (port : ℤ) : ℤ × Bool :=
  match h.byPort.lookup port with
  | some d => (d, true)
  | none => (0, false)

/-- The sources of a port; a missing row reads as an empty one. -/
def portSources (h : UDPFlowIdle Id) (port : ℤ) : AList fun _ : Id => ℤ :=
  (h.sources.lookup port).getD ∅

def effective (sources : AList fun _ : Id => ℤ) : ℤ := largest Sigma.snd 0 sources.entries

/-- `recomputeUDPFlowIdleTimeoutLocked`. -/
def recompute (h : UDPFlowIdle Id) (port : ℤ) : UDPFlowIdle Id :=
  if (h.portSources port).entries.length = 0 then { h with byPort := h.byPort.erase port }
  else if 0 < effective (h.portSources port) then
    { h with byPort := h.byPort.insert port (effective (h.portSources port)) }
  else { h with byPort := h.byPort.erase port }

variable [DecidableEq Id]

/-- One turn of the loop of `trackUDPFlowIdleTimeout`, with `portsTouched`. -/
def trackRoute (backendID : Id)
    (acc : (AList fun _ : ℤ => AList fun _ : Id => ℤ) × List ℤ) (route : UDPRoutePolicy) :
    (AList fun _ : ℤ => AList fun _ : Id => ℤ) × List ℤ :=
  (put acc.1 route.port backendID route.flowIdleTimeout, acc.2.insert route.port)

/-- One turn of the loop of `untrackUDPFlowIdleTimeout`; a port without sources is skipped. -/
def untrackRoute (backendID : Id)
    (acc : (AList fun _ : ℤ => AList fun _ : Id => ℤ) × List ℤ) (route : UDPRoutePolicy) :
    (AList fun _ : ℤ => AList fun _ : Id => ℤ) × List ℤ :=
  match acc.1.lookup route.port with
  | none => acc
  | some _ => (remove acc.1 route.port backendID, acc.2.insert route.port)

/-- The map of touched ports is visited in the order of the routes; every port is recomputed from
the sources alone, so that the order does not matter. -/
def update (h : UDPFlowIdle Id)
    (turn : (AList fun _ : ℤ => AList fun _ : Id => ℤ) × List ℤ → UDPRoutePolicy →
      (AList fun _ : ℤ => AList fun _ : Id => ℤ) × List ℤ)
    (routes : List UDPRoutePolicy) : UDPFlowIdle Id :=
  if routes.length = 0 then h
  else
    let next := routes.foldl turn (h.sources, [])
    next.2.foldl recompute { h with sources := next.1 }

def track (h : UDPFlowIdle Id) (backendID : Id) (routes : List UDPRoutePolicy) : UDPFlowIdle Id :=
  h.update (trackRoute backendID) routes

def untrack (h : UDPFlowIdle Id) (backendID : Id) (routes : List UDPRoutePolicy) :
    UDPFlowIdle Id :=
  h.update (untrackRoute backendID) routes

/-! ### The cache -/

/-- What the cache should hold for a port. -/
def cached (sources : AList fun _ : ℤ => AList fun _ : Id => ℤ) (port : ℤ) : Option ℤ :=
  let effective := effective ((sources.lookup port).getD ∅)
  if 0 < effective then some effective else none

omit [DecidableEq Id] in
theorem recompute_sources (h : UDPFlowIdle Id) (port : ℤ) :
    (h.recompute port).sources = h.sources := by
  unfold recompute
  split_ifs <;> rfl

omit [DecidableEq Id] in
theorem recompute_lookup (h : UDPFlowIdle Id) (port p : ℤ) :
    (h.recompute port).byPort.lookup p =
      if p = port then cached h.sources port else h.byPort.lookup p := by
  have hempty : (h.portSources port).entries.length = 0 → effective (h.portSources port) = 0 := by
    intro hzero
    rw [effective, List.length_eq_zero_iff.mp hzero]
    rfl
  have hcached : cached h.sources port =
      if 0 < effective (h.portSources port) then some (effective (h.portSources port))
      else none := rfl
  by_cases hp : p = port
  · subst hp
    rw [if_pos rfl, hcached]
    unfold recompute
    split_ifs with hzero hpos
    · rw [hempty hzero] at hpos
      exact absurd hpos (lt_irrefl 0)
    · exact AList.lookup_erase ..
    · exact AList.lookup_insert ..
    · exact AList.lookup_erase ..
  · rw [if_neg hp]
    unfold recompute
    split_ifs
    · exact AList.lookup_erase_ne hp
    · exact AList.lookup_insert_ne hp
    · exact AList.lookup_erase_ne hp

omit [DecidableEq Id] in
theorem foldl_recompute (ports : List ℤ) (h : UDPFlowIdle Id) :
    (ports.foldl recompute h).sources = h.sources ∧
      ∀ p, (ports.foldl recompute h).byPort.lookup p =
        if p ∈ ports then cached h.sources p else h.byPort.lookup p := by
  induction ports generalizing h with
  | nil => simp
  | cons port ports ih =>
    obtain ⟨hsources, hlookup⟩ := ih (h.recompute port)
    rw [recompute_sources] at hsources hlookup
    refine ⟨hsources, fun p => ?_⟩
    rw [List.foldl_cons, hlookup, recompute_lookup]
    by_cases hp : p = port
    · subst hp
      simp
    · simp [hp]

def Fresh (h : UDPFlowIdle Id) : Prop := ∀ p, h.byPort.lookup p = cached h.sources p

/-- Outside of the touched ports, the rows are those of `m`. -/
def Touches (m : AList fun _ : ℤ => AList fun _ : Id => ℤ)
    (acc : (AList fun _ : ℤ => AList fun _ : Id => ℤ) × List ℤ) : Prop :=
  ∀ p, p ∉ acc.2 → acc.1.lookup p = m.lookup p

section
variable {m : AList fun _ : ℤ => AList fun _ : Id => ℤ} {backendID : Id}
  {acc : (AList fun _ : ℤ => AList fun _ : Id => ℤ) × List ℤ} {routes : List UDPRoutePolicy}

theorem touches_trackRoute (backendID : Id) (hacc : Touches m acc) (route : UDPRoutePolicy) :
    Touches m (trackRoute backendID acc route) := by
  intro p hp
  rw [trackRoute, List.mem_insert_iff, not_or] at hp
  exact (lookup_put_ne hp.1).trans (hacc p hp.2)

theorem touches_untrackRoute (backendID : Id) (hacc : Touches m acc) (route : UDPRoutePolicy) :
    Touches m (untrackRoute backendID acc route) := by
  unfold untrackRoute
  split
  · exact hacc
  · intro p hp
    rw [List.mem_insert_iff, not_or] at hp
    exact (lookup_remove_ne hp.1).trans (hacc p hp.2)

omit [DecidableEq Id] in
theorem update_fresh {h : UDPFlowIdle Id} (hfresh : h.Fresh)
    {turn : (AList fun _ : ℤ => AList fun _ : Id => ℤ) × List ℤ → UDPRoutePolicy →
      (AList fun _ : ℤ => AList fun _ : Id => ℤ) × List ℤ}
    (hturn : ∀ acc route, Touches h.sources acc → Touches h.sources (turn acc route))
    (routes : List UDPRoutePolicy) :
    (h.update turn routes).sources = (routes.foldl turn (h.sources, [])).1 ∧
      (h.update turn routes).Fresh := by
  unfold update
  split_ifs with hempty
  · rw [List.length_eq_zero_iff.mp hempty]
    exact ⟨rfl, hfresh⟩
  · have htouches : Touches h.sources (routes.foldl turn (h.sources, [])) := by
      apply List.foldlRecOn (motive := Touches h.sources)
      · intro p _
        rfl
      · intro acc hacc route _
        exact hturn acc route hacc
    obtain ⟨hsources, hlookup⟩ := foldl_recompute (routes.foldl turn (h.sources, [])).2
      { h with sources := (routes.foldl turn (h.sources, [])).1 }
    refine ⟨hsources, fun p => ?_⟩
    rw [hlookup, hsources]
    split_ifs with hp
    · rfl
    · rw [hfresh p, cached, cached, htouches p hp]

/-! ### The sources -/

/-- The timeout that the routes of a backend ask for on a port. -/
def claimed (routes : List UDPRoutePolicy) (port : ℤ) : Option ℤ :=
  (routes.find? fun route => route.port = port).map UDPRoutePolicy.flowIdleTimeout

theorem claimed_eq_some_iff (hdistinct : DistinctPorts routes) {port d : ℤ} :
    claimed routes port = some d ↔ ⟨port, d⟩ ∈ routes := by
  unfold claimed
  rw [Option.map_eq_some_iff]
  constructor
  · rintro ⟨route, hfind, rfl⟩
    have hport : route.port = port := by simpa using List.find?_some hfind
    subst hport
    exact List.mem_of_find?_eq_some hfind
  · intro hmem
    have hsome : (routes.find? fun route => route.port = port).isSome := by
      rw [List.find?_isSome]
      exact ⟨⟨port, d⟩, hmem, by simp⟩
    obtain ⟨route, hfind⟩ := Option.isSome_iff_exists.mp hsome
    have hport : route.port = port := by simpa using List.find?_some hfind
    have heq := hdistinct.eq (List.mem_of_find?_eq_some hfind) hmem hport
    exact ⟨route, hfind, by rw [heq]⟩

theorem get_foldl_trackRoute (hdistinct : DistinctPorts routes) (backendID : Id)
    (acc : (AList fun _ : ℤ => AList fun _ : Id => ℤ) × List ℤ) (p : ℤ) (id : Id) :
    get (routes.foldl (trackRoute backendID) acc).1 p id =
      if id = backendID then (claimed routes p).or (get acc.1 p id) else get acc.1 p id := by
  induction routes generalizing acc with
  | nil => simp [claimed]
  | cons route routes ih =>
    obtain ⟨hhead, htail⟩ := List.pairwise_cons.mp hdistinct
    rw [List.foldl_cons, ih htail, trackRoute, get_put]
    by_cases hid : id = backendID
    · by_cases hp : p = route.port
      · -- no later route is for the same port
        have hnone : claimed routes p = none := by
          rw [claimed, Option.map_eq_none_iff, List.find?_eq_none]
          intro other hother
          simpa [hp] using (hhead other hother).symm
        have hfirst : claimed (route :: routes) p = some route.flowIdleTimeout := by
          rw [claimed, List.find?_cons_of_pos (by simp [hp]), Option.map_some]
        simp [hid, hp, hp ▸ hnone, hp ▸ hfirst]
      · have hskip : claimed (route :: routes) p = claimed routes p := by
          rw [claimed, List.find?_cons_of_neg (by simpa using Ne.symm hp), claimed]
        simp [hid, hp, hskip]
    · simp [hid]

theorem get_untrackRoute (backendID : Id)
    (acc : (AList fun _ : ℤ => AList fun _ : Id => ℤ) × List ℤ) (route : UDPRoutePolicy) (p : ℤ)
    (id : Id) :
    get (untrackRoute backendID acc route).1 p id =
      if p = route.port ∧ id = backendID then none else get acc.1 p id := by
  unfold untrackRoute
  split
  · next hrow =>
    split_ifs with hentry
    · rw [NestedMaps.get, hentry.1, hrow]
      rfl
    · rfl
  · exact get_remove ..

theorem get_foldl_untrackRoute (routes : List UDPRoutePolicy) (backendID : Id)
    (acc : (AList fun _ : ℤ => AList fun _ : Id => ℤ) × List ℤ) (p : ℤ) (id : Id) :
    get (routes.foldl (untrackRoute backendID) acc).1 p id =
      if id = backendID ∧ (claimed routes p).isSome then none else get acc.1 p id := by
  induction routes generalizing acc with
  | nil => simp [claimed]
  | cons route routes ih =>
    rw [List.foldl_cons, ih, get_untrackRoute]
    by_cases hp : p = route.port
    · simp [hp, claimed]
      grind
    · have hskip : claimed (route :: routes) p = claimed routes p := by
        rw [claimed, List.find?_cons_of_neg (by simpa using Ne.symm hp), claimed]
      simp [hp, hskip]

theorem noEmptyRow_trackRoute (hacc : NoEmptyRow acc.1) (route : UDPRoutePolicy) :
    NoEmptyRow (trackRoute backendID acc route).1 :=
  hacc.put route.port backendID route.flowIdleTimeout

theorem noEmptyRow_untrackRoute (hacc : NoEmptyRow acc.1) (route : UDPRoutePolicy) :
    NoEmptyRow (untrackRoute backendID acc route).1 := by
  unfold untrackRoute
  split
  · exact hacc
  · exact hacc.remove route.port backendID

theorem cached_eq (sources : AList fun _ : ℤ => AList fun _ : Id => ℤ) (port : ℤ)
    (hpos : ∀ id d, NestedMaps.get sources port id = some d → 0 < d) :
    ((∀ id, NestedMaps.get sources port id = none) → cached sources port = none) ∧
      ((∃ id, (NestedMaps.get sources port id).isSome) →
        ∃ d, IsGreatest {d | ∃ id, NestedMaps.get sources port id = some d} d ∧
          cached sources port = some d) := by
  let row := (sources.lookup port).getD ∅
  have hget : ∀ id d, NestedMaps.get sources port id = some d ↔ ⟨id, d⟩ ∈ row.entries := by
    intro id d
    rw [← AList.mem_lookup_iff, Option.mem_def, NestedMaps.get]
    cases hrow : sources.lookup port with
    | none => simp [row, hrow]
    | some entries => simp [row, hrow]
  have hupper := (le_largest Sigma.snd 0 row.entries).2
  constructor
  · intro hnone
    rcases largest_mem Sigma.snd 0 row.entries with hzero | ⟨entry, hentry, -⟩
    · exact if_neg (not_lt.mpr hzero.le)
    · have hsome := (hget entry.1 entry.2).mpr hentry
      rw [hnone] at hsome
      cases hsome
  · rintro ⟨id, hid⟩
    obtain ⟨d, hd⟩ := Option.isSome_iff_exists.mp hid
    have hlarge : 0 < largest Sigma.snd 0 row.entries :=
      (hpos id d hd).trans_le (hupper ⟨id, d⟩ ((hget id d).mp hd))
    have hcached : cached sources port = some (largest Sigma.snd 0 row.entries) := if_pos hlarge
    refine ⟨largest Sigma.snd 0 row.entries, ⟨?_, ?_⟩, hcached⟩
    · rcases largest_mem Sigma.snd 0 row.entries with hzero | ⟨entry, hentry, heq⟩
      · exact absurd hzero hlarge.ne'
      · exact ⟨entry.1, (hget _ _).mpr (heq ▸ hentry)⟩
    · rintro d ⟨id, hd⟩
      exact hupper ⟨id, d⟩ ((hget id d).mp hd)

end

/-! ### Runs -/

/-- The calls of `Register` and of the unregistration, for a backend with its routes. -/
inductive Call (Id : Type*)
  | track (backendID : Id)
  | untrack (backendID : Id)
  deriving DecidableEq, Repr

def Call.exec (routes : Id → List UDPRoutePolicy) (h : UDPFlowIdle Id) : Call Id → UDPFlowIdle Id
  | .track backendID => h.track backendID (routes backendID)
  | .untrack backendID => h.untrack backendID (routes backendID)

def Call.live (tracked : Finset Id) : Call Id → Finset Id
  | .track backendID => insert backendID tracked
  | .untrack backendID => tracked.erase backendID

/-- The sources are the routes of the tracked backends. -/
structure Tracks (routes : Id → List UDPRoutePolicy) (tracked : Finset Id) (h : UDPFlowIdle Id) :
    Prop where
  fresh : h.Fresh
  rows : NoEmptyRow h.sources
  sources : ∀ p id, NestedMaps.get h.sources p id =
    if id ∈ tracked then claimed (routes id) p else none

theorem tracks_empty (routes : Id → List UDPRoutePolicy) : Tracks routes ∅ empty where
  fresh := fun _ => rfl
  rows := noEmptyRow_empty
  sources := fun _ _ => rfl

section
variable {routes : Id → List UDPRoutePolicy} {tracked : Finset Id} {h : UDPFlowIdle Id}

theorem Tracks.track (htracks : Tracks routes tracked h) (hdistinct : ∀ b, DistinctPorts (routes b))
    (backendID : Id) :
    Tracks routes (insert backendID tracked) (h.track backendID (routes backendID)) := by
  obtain ⟨hsources, hfresh⟩ := update_fresh htracks.fresh
    (fun _ route hacc => touches_trackRoute backendID hacc route)
    (routes backendID)
  refine ⟨hfresh, ?_, ?_⟩
  · rw [UDPFlowIdle.track, hsources]
    apply List.foldlRecOn
      (motive := fun acc : (AList fun _ : ℤ => AList fun _ : Id => ℤ) × List ℤ => NoEmptyRow acc.1)
    · exact htracks.rows
    · intro acc hacc route _
      exact noEmptyRow_trackRoute hacc route
  · intro p id
    rw [UDPFlowIdle.track, hsources, get_foldl_trackRoute (hdistinct backendID), htracks.sources]
    by_cases hid : id = backendID
    · subst hid
      cases claimed (routes id) p <;> simp
    · simp [hid]

theorem Tracks.untrack (htracks : Tracks routes tracked h) (backendID : Id) :
    Tracks routes (tracked.erase backendID) (h.untrack backendID (routes backendID)) := by
  obtain ⟨hsources, hfresh⟩ := update_fresh htracks.fresh
    (fun _ route hacc => touches_untrackRoute backendID hacc route)
    (routes backendID)
  refine ⟨hfresh, ?_, ?_⟩
  · rw [UDPFlowIdle.untrack, hsources]
    apply List.foldlRecOn
      (motive := fun acc : (AList fun _ : ℤ => AList fun _ : Id => ℤ) × List ℤ => NoEmptyRow acc.1)
    · exact htracks.rows
    · intro acc hacc route _
      exact noEmptyRow_untrackRoute hacc route
  · intro p id
    rw [UDPFlowIdle.untrack, hsources, get_foldl_untrackRoute, htracks.sources]
    by_cases hid : id = backendID
    · subst hid
      cases claimed (routes id) p <;> simp
    · simp [hid]

theorem tracks_foldl (hdistinct : ∀ b, DistinctPorts (routes b)) (calls : List (Call Id))
    (htracks : Tracks routes tracked h) :
    Tracks routes (calls.foldl Call.live tracked) (calls.foldl (Call.exec routes) h) := by
  induction calls generalizing tracked h with
  | nil => exact htracks
  | cons call calls ih =>
    apply ih
    cases call with
    | track backendID => exact htracks.track hdistinct backendID
    | untrack backendID => exact htracks.untrack backendID

end
end UDPFlowIdle

section
open UDPFlowIdle

/-- The effective timeout of a port is the greatest that a tracked backend claims for it, and a
port that no tracked backend claims has neither a timeout nor sources. -/
theorem udp_flow_idle_timeout_max {Id : Type*} [DecidableEq Id] (routes : Id → List UDPRoutePolicy)
    (hdistinct : ∀ b, DistinctPorts (routes b))
    (hpositive : ∀ b, ∀ route ∈ routes b, 0 < route.flowIdleTimeout)
    (calls : List (UDPFlowIdle.Call Id)) (port : ℤ) :
    let h := calls.foldl (UDPFlowIdle.Call.exec routes) .empty
    let timeouts := {d | ∃ b ∈ calls.foldl UDPFlowIdle.Call.live ∅, ⟨port, d⟩ ∈ routes b}
    (timeouts = ∅ → h.udpFlowIdleTimeout port = (0, false) ∧ h.sources.lookup port = none) ∧
      (timeouts.Nonempty →
        ∃ d, IsGreatest timeouts d ∧ h.udpFlowIdleTimeout port = (d, true)) := by
  intro h timeouts
  have htracks : Tracks routes (calls.foldl UDPFlowIdle.Call.live ∅) h :=
    tracks_foldl hdistinct calls (tracks_empty routes)
  have hsource : ∀ id d, NestedMaps.get h.sources port id = some d ↔
      id ∈ calls.foldl UDPFlowIdle.Call.live ∅ ∧ ⟨port, d⟩ ∈ routes id := by
    intro id d
    rw [htracks.sources, ← claimed_eq_some_iff (hdistinct id)]
    split_ifs with hid <;> simp [hid]
  have htimeouts : timeouts = {d | ∃ id, NestedMaps.get h.sources port id = some d} := by
    ext d
    exact exists_congr fun id => (hsource id d).symm
  obtain ⟨hnone, hsome⟩ := cached_eq h.sources port
    fun id d hd => hpositive id _ ((hsource id d).mp hd).2
  constructor
  · intro hempty
    have hall : ∀ id, NestedMaps.get h.sources port id = none := by
      intro id
      rw [Option.eq_none_iff_forall_ne_some]
      intro d hd
      have hmem : d ∈ timeouts := htimeouts ▸ ⟨id, hd⟩
      rw [hempty] at hmem
      exact hmem
    refine ⟨?_, htracks.rows.lookup_eq_none_iff.mpr hall⟩
    rw [udpFlowIdleTimeout, htracks.fresh, hnone hall]
  · rintro ⟨d, hd⟩
    rw [htimeouts] at hd ⊢
    obtain ⟨id, hid⟩ := hd
    obtain ⟨best, hbest, hcached⟩ := hsome ⟨id, by rw [hid]; rfl⟩
    exact ⟨best, hbest, by rw [udpFlowIdleTimeout, htracks.fresh, hcached]⟩

/-- Two backends relay DNS with ten and twenty seconds, one of them also a game port. -/
def dnsRelays : Bool → List UDPRoutePolicy
  | false => [⟨53, 10⟩]
  | true => [⟨53, 20⟩, ⟨27015, 5⟩]

theorem udp_flow_idle_timeout_max_dnsRelays :
    (∀ b, DistinctPorts (dnsRelays b)) ∧
      (∀ b, ∀ route ∈ dnsRelays b, 0 < route.flowIdleTimeout) ∧
      (∃ d, IsGreatest {d | ∃ b ∈ ({false} : Finset Bool), ⟨53, d⟩ ∈ dnsRelays b} d ∧
        ([.track false, .track true, .untrack true].foldl (UDPFlowIdle.Call.exec dnsRelays)
          .empty).udpFlowIdleTimeout 53 = (d, true)) ∧
      ([.track false, .track true, .untrack true].foldl (UDPFlowIdle.Call.exec dnsRelays)
        .empty).udpFlowIdleTimeout 27015 = (0, false) := by
  have hdistinct : ∀ b, DistinctPorts (dnsRelays b) := by
    simp [DistinctPorts, dnsRelays]
  have hpositive : ∀ b, ∀ route ∈ dnsRelays b, 0 < route.flowIdleTimeout := by
    simp [dnsRelays]
  have hlive : [.track false, .track true, .untrack true].foldl UDPFlowIdle.Call.live ∅ =
      ({false} : Finset Bool) := by decide
  have hmax := udp_flow_idle_timeout_max dnsRelays hdistinct hpositive
    [.track false, .track true, .untrack true]
  simp only [hlive] at hmax
  refine ⟨hdistinct, hpositive, (hmax 53).2 ⟨10, ?_⟩, ((hmax 27015).1 ?_).1⟩
  · exact ⟨false, by simp, by simp [dnsRelays]⟩
  · simp [dnsRelays]

end
end NexusProxy.Hub
