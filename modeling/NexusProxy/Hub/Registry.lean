import Mathlib.Data.List.AList
import NexusProxy.Hostnames
import NexusProxy.Hub.LoadBalancer
import NexusProxy.Lib.Transition
import NexusProxy.Protocol

/-! The hub's two maps of pools under `register`, `unregister` and `SelectBackend`. -/
namespace NexusProxy.Hub
open Hostnames Protocol SwapRemove

/-- A map from route keys or wildcard suffixes to pools. -/
abbrev Pools (f : FloatAbs) := AList (fun _ : List Char => LoadBalancerPool f)

namespace Pools
variable {f : FloatAbs}

/-- Add `b` to the pool of `key`, which is created on first use. -/
def addTo (b : Backend) (m : Pools f) (key : List Char) : Pools f :=
  m.insert key (((m.lookup key).getD .new).addBackend b)

/-- Remove `b` from the pool of `key`; the pool stays. -/
def removeFrom (b : Backend) (m : Pools f) (key : List Char) : Pools f :=
  match m.lookup key with
  | some pool => m.insert key (pool.removeBackend b)
  | none => m

def contents (m : Pools f) (key : List Char) : List Backend :=
  (m.lookup key).elim [] LoadBalancerPool.backends

theorem addTo_contents (b : Backend) (m : Pools f) (key k : List Char) :
    (addTo b m key).contents k = if k = key then m.contents k ++ [b] else m.contents k := by
  unfold contents addTo
  split_ifs with h
  · subst h
    rw [AList.lookup_insert]
    cases m.lookup k <;> rfl
  · rw [AList.lookup_insert_ne h]

theorem removeFrom_contents (b : Backend) (m : Pools f) (key k : List Char) :
    (removeFrom b m key).contents k =
      if k = key then removeFirst (fun c => c.id = b.id) (m.contents k) else m.contents k := by
  unfold contents removeFrom
  cases hm : m.lookup key with
  | none =>
    split_ifs with h
    · rw [h, hm]
      rfl
    · rfl
  | some pool =>
    dsimp only
    split_ifs with h
    · rw [h, AList.lookup_insert, hm]
      rfl
    · rw [AList.lookup_insert_ne h]

theorem foldl_addTo_contents (b : Backend) (m : Pools f) (keys : List (List Char))
    (k : List Char) :
    (keys.foldl (addTo b) m).contents k = m.contents k ++ List.replicate (keys.count k) b := by
  induction keys generalizing m with
  | nil => simp
  | cons key keys ih =>
    rw [List.foldl_cons, ih, addTo_contents]
    by_cases h : k = key
    · subst h
      simp [List.replicate_succ]
    · rw [if_neg h, List.count_cons_of_ne (Ne.symm h)]

theorem foldl_removeFrom_contents (b : Backend) (m : Pools f) (keys : List (List Char))
    (k : List Char) :
    (keys.foldl (removeFrom b) m).contents k =
      (removeFirst (fun c => c.id = b.id))^[keys.count k] (m.contents k) := by
  induction keys generalizing m with
  | nil => simp
  | cons key keys ih =>
    rw [List.foldl_cons, ih, removeFrom_contents]
    by_cases h : k = key
    · subst h
      simp [Function.iterate_succ_apply]
    · rw [if_neg h, List.count_cons_of_ne (Ne.symm h)]

theorem foldl_addTo_mem (b : Backend) (m : Pools f) (keys : List (List Char)) (k : List Char) :
    k ∈ keys.foldl (addTo b) m ↔ k ∈ keys ∨ k ∈ m := by
  induction keys generalizing m with
  | nil => simp
  | cons key keys ih =>
    rw [List.foldl_cons, ih, addTo, AList.mem_insert, List.mem_cons]
    tauto

theorem foldl_removeFrom_mem (b : Backend) (m : Pools f) (keys : List (List Char))
    (k : List Char) : k ∈ keys.foldl (removeFrom b) m ↔ k ∈ m := by
  induction keys generalizing m with
  | nil => rfl
  | cons key keys ih =>
    rw [List.foldl_cons, ih, removeFrom]
    cases hm : m.lookup key with
    | none => rfl
    | some pool =>
      rw [AList.mem_insert]
      constructor
      · rintro (rfl | h)
        · exact AList.lookup_isSome.mp (by rw [hm]; rfl)
        · exact h
      · exact Or.inr

/-- Every pool holds a registered backend as often as the backend claims the pool's key,
and nothing else. -/
def Mirrors (registered : List Backend) (keys : Backend → List (List Char)) (m : Pools f) :
    Prop :=
  ∀ key b, (m.contents key).count b = if b ∈ registered then (keys b).count key else 0

variable {registered : List Backend} {keys : Backend → List (List Char)} {m : Pools f}

theorem Mirrors.mem_contents (h : Mirrors registered keys m) (key : List Char) (b : Backend) :
    b ∈ m.contents key ↔ b ∈ registered ∧ key ∈ keys b := by
  rw [← List.count_pos_iff, h key b]
  split_ifs with hb <;> simp [hb]

theorem Mirrors.add (h : Mirrors registered keys m) {b : Backend} (hb : b ∉ registered) :
    Mirrors (b :: registered) keys ((keys b).foldl (addTo b) m) := by
  intro key c
  rw [foldl_addTo_contents, List.count_append, h key c, List.count_replicate]
  by_cases hc : c = b
  · subst hc
    simp [hb]
  · simp [hc, Ne.symm hc]

theorem Mirrors.remove (h : Mirrors registered keys m) (hids : (registered.map Backend.id).Nodup)
    {b : Backend} (hb : b ∈ registered) :
    Mirrors (registered.erase b) keys ((keys b).foldl (removeFrom b) m) := by
  intro key c
  have honly : ∀ x ∈ m.contents key, decide (x.id = b.id) = true → x = b := by
    intro x hx hid
    have hx := (h.mem_contents key x).mp hx
    exact List.inj_on_of_nodup_map hids hx.1 hb (of_decide_eq_true hid)
  have herase : c ∈ registered.erase b ↔ c ≠ b ∧ c ∈ registered :=
    (List.Nodup.of_map _ hids).mem_erase_iff
  rw [foldl_removeFrom_contents, count_iterate_removeFirst (by simp) honly, h key c]
  by_cases hc : c = b
  · subst hc
    simp [herase, hb]
  · simp [herase, hc]

theorem contents_of_lookup {key : List Char} {pool : LoadBalancerPool f}
    (hk : m.lookup key = some pool) : m.contents key = pool.backends := by
  rw [contents, hk]
  rfl

theorem Mirrors.select_claimed (h : Mirrors registered keys m) {key : List Char}
    {pool : LoadBalancerPool f} (hk : m.lookup key = some pool)
    (hclaim : ∃ b ∈ registered, key ∈ keys b) :
    ∃ b ∈ registered, key ∈ keys b ∧ pool.select.1 = .ok b := by
  obtain ⟨c, hc⟩ := hclaim
  have hmem := (h.mem_contents key c).mpr hc
  rw [contents_of_lookup hk] at hmem
  obtain ⟨b, hb, hsel⟩ := LoadBalancerPool.select_mem (List.ne_nil_of_mem hmem)
  rw [← contents_of_lookup hk] at hb
  obtain ⟨hreg, hkey⟩ := (h.mem_contents key b).mp hb
  exact ⟨b, hreg, hkey, hsel⟩

theorem Mirrors.select_unclaimed (h : Mirrors registered keys m) {key : List Char}
    {pool : LoadBalancerPool f} (hk : m.lookup key = some pool)
    (hclaim : ¬∃ b ∈ registered, key ∈ keys b) : pool.select.1 = .error .noBackends := by
  have hnil : pool.backends = [] := by
    rw [← contents_of_lookup hk]
    apply List.eq_nil_iff_forall_not_mem.mpr
    intro b hb
    exact hclaim ⟨b, (h.mem_contents key b).mp hb⟩
  rw [LoadBalancerPool.select_nil hnil]

theorem Mirrors.lookup_of_claimed (h : Mirrors registered keys m) {key : List Char}
    (hclaim : ∃ b ∈ registered, key ∈ keys b) : ∃ pool, m.lookup key = some pool := by
  obtain ⟨b, hb⟩ := hclaim
  have hmem := (h.mem_contents key b).mpr hb
  cases hk : m.lookup key with
  | none => simp [contents, hk] at hmem
  | some pool => exact ⟨pool, rfl⟩

theorem Mirrors.congr (h : Mirrors registered keys m) {m' : Pools f}
    (hm : ∀ key, m'.contents key = m.contents key) : Mirrors registered keys m' := by
  intro key b
  rw [hm]
  exact h key b

end Pools

/-- The routing state of the hub. -/
structure HubImpl (f : FloatAbs) where
  pools : Pools f
  wildcardPools : Pools f

/-- The claims of `b` that are not wildcards: hostnames, TCP ports and UDP routes. -/
def Backend.exactKeys (u : Unicode) (b : Backend) : List (List Char) :=
  b.hostnames.filter (fun hn => wildcardSuffix u hn = none) ++ b.tcpPorts.map (routeKey .tcp) ++
    b.udpRoutes.map fun route => routeKey .udp route.port

/-- The suffixes of the wildcards that `b` claims. -/
def Backend.wildcardKeys (u : Unicode) (b : Backend) : List (List Char) :=
  b.hostnames.filterMap (wildcardSuffix u)

namespace HubImpl
variable {f : FloatAbs} (u : Unicode)

/-- The loops of `register` and `unregister` over the claims of a backend. -/
def forEachClaim (op : Pools f → List Char → Pools f) (b : Backend) (h : HubImpl f) :
    HubImpl f :=
  let h := b.hostnames.foldl (fun h hn =>
    match wildcardSuffix u hn with
    | some suffix => { h with wildcardPools := op h.wildcardPools suffix }
    | none => { h with pools := op h.pools hn }) h
  let h := b.tcpPorts.foldl (fun h port =>
    { h with pools := op h.pools (routeKey .tcp port) }) h
  b.udpRoutes.foldl (fun h route =>
    { h with pools := op h.pools (routeKey .udp route.port) }) h

def register (b : Backend) (h : HubImpl f) : HubImpl f := forEachClaim u (Pools.addTo b) b h

def unregister (b : Backend) (h : HubImpl f) : HubImpl f :=
  forEachClaim u (Pools.removeFrom b) b h

def selectBackend (hostname : List Char) (h : HubImpl f) :
    Except SelectError Backend × HubImpl f :=
  match h.pools.lookup hostname with
  | some pool => (pool.select.1, { h with pools := h.pools.insert hostname pool.select.2 })
  | none =>
      match firstDotSuffix u hostname with
      | none => (.error .noPool, h)
      | some suffix =>
          match h.wildcardPools.lookup suffix with
          | none => (.error .noPool, h)
          | some pool =>
              (pool.select.1,
                { h with wildcardPools := h.wildcardPools.insert suffix pool.select.2 })

theorem foldl_pools {α : Type*} (op : Pools f → List Char → Pools f) (key : α → List Char)
    (claims : List α) (h : HubImpl f) :
    claims.foldl (fun h a => { h with pools := op h.pools (key a) }) h =
      { h with pools := (claims.map key).foldl op h.pools } := by
  induction claims generalizing h with
  | nil => rfl
  | cons a claims ih => rw [List.foldl_cons, ih, List.map_cons, List.foldl_cons]

theorem forEachClaim_eq (op : Pools f → List Char → Pools f) (b : Backend) (h : HubImpl f) :
    forEachClaim u op b h =
      { pools := (b.exactKeys u).foldl op h.pools
        wildcardPools := (b.wildcardKeys u).foldl op h.wildcardPools } := by
  have hhosts (hosts : List (List Char)) (h : HubImpl f) :
      hosts.foldl (fun h hn =>
        match wildcardSuffix u hn with
        | some suffix => { h with wildcardPools := op h.wildcardPools suffix }
        | none => { h with pools := op h.pools hn }) h =
        { pools := (hosts.filter fun hn => wildcardSuffix u hn = none).foldl op h.pools
          wildcardPools := (hosts.filterMap (wildcardSuffix u)).foldl op h.wildcardPools } := by
    induction hosts generalizing h with
    | nil => rfl
    | cons hn hosts ih =>
      rw [List.foldl_cons, ih]
      cases hw : wildcardSuffix u hn <;> simp [hw]
  unfold forEachClaim Backend.exactKeys Backend.wildcardKeys
  dsimp only
  rw [hhosts, foldl_pools, foldl_pools, List.foldl_append, List.foldl_append]

theorem selectBackend_frame (hostname : List Char) (h : HubImpl f) :
    (∀ key, (selectBackend u hostname h).2.pools.contents key = h.pools.contents key) ∧
      (∀ key, (selectBackend u hostname h).2.wildcardPools.contents key =
        h.wildcardPools.contents key) ∧
      ∀ key, key ∈ (selectBackend u hostname h).2.pools ↔ key ∈ h.pools := by
  have hinsert {m : Pools f} {k : List Char} {pool : LoadBalancerPool f}
      (hk : m.lookup k = some pool) (key : List Char) :
      Pools.contents (m.insert k pool.select.2) key = m.contents key := by
    unfold Pools.contents
    by_cases h : key = k
    · subst h
      rw [AList.lookup_insert, hk]
      exact pool.select_backends
    · rw [AList.lookup_insert_ne h]
  unfold selectBackend
  cases hp : h.pools.lookup hostname with
  | some pool =>
    refine ⟨hinsert hp, fun _ => rfl, fun key => ?_⟩
    have hmem : hostname ∈ h.pools := AList.lookup_isSome.mp (by rw [hp]; rfl)
    rw [AList.mem_insert]
    constructor
    · rintro (rfl | h)
      · exact hmem
      · exact h
    · exact Or.inr
  | none =>
    dsimp only
    split
    · simp
    · split
      · simp
      · rename_i pool hw
        exact ⟨fun _ => rfl, hinsert hw, fun _ => Iff.rfl⟩

end HubImpl

/-- A call on the hub. -/
inductive Call where
  | register (b : Backend)
  | unregister (b : Backend)
  | selectBackend (hostname : List Char)

/-- The hub with the backends registered now and those registered at any time. -/
structure System (f : FloatAbs) where
  hub : HubImpl f
  registered : List Backend
  everRegistered : List Backend

namespace System
variable {f : FloatAbs} (u : Unicode)

def start : System f := ⟨⟨∅, ∅⟩, [], []⟩

/-- Backends have distinct ids, and `unregister` is deferred after `register`. -/
def step (s : System f) : Call → Option (System f)
  | .register b =>
      if ∀ c ∈ s.registered, c.id ≠ b.id then
        some ⟨s.hub.register u b, b :: s.registered, b :: s.everRegistered⟩
      else none
  | .unregister b =>
      if b ∈ s.registered then
        some { s with hub := s.hub.unregister u b, registered := s.registered.erase b }
      else none
  | .selectBackend hostname => some { s with hub := (s.hub.selectBackend u hostname).2 }

/-- The pools follow the registrations, but a pool that was created stays. -/
structure Consistent (s : System f) : Prop where
  ids : (s.registered.map Backend.id).Nodup
  exact : Pools.Mirrors s.registered (Backend.exactKeys u) s.hub.pools
  wildcard : Pools.Mirrors s.registered (Backend.wildcardKeys u) s.hub.wildcardPools
  created : ∀ key, key ∈ s.hub.pools ↔ ∃ b ∈ s.everRegistered, key ∈ b.exactKeys u

theorem start_consistent : (start : System f).Consistent u where
  ids := List.nodup_nil
  exact := fun _ _ => rfl
  wildcard := fun _ _ => rfl
  created := by simp [start]

theorem Consistent.step {s t : System f} {call : Call} (h : s.Consistent u)
    (hstep : s.step u call = some t) : t.Consistent u := by
  cases call with
  | register b =>
    simp only [System.step, Option.ite_none_right_eq_some, Option.some.injEq] at hstep
    obtain ⟨hfresh, rfl⟩ := hstep
    have hb : b ∉ s.registered := fun hb => hfresh b hb rfl
    have hid : b.id ∉ s.registered.map Backend.id := by
      rintro hid
      obtain ⟨c, hc, heq⟩ := List.mem_map.mp hid
      exact hfresh c hc heq
    constructor
    · exact List.nodup_cons.mpr ⟨hid, h.ids⟩
    · simpa only [HubImpl.register, HubImpl.forEachClaim_eq] using h.exact.add hb
    · simpa only [HubImpl.register, HubImpl.forEachClaim_eq] using h.wildcard.add hb
    · intro key
      simp only [HubImpl.register, HubImpl.forEachClaim_eq, Pools.foldl_addTo_mem, h.created,
        List.exists_mem_cons_iff]
  | unregister b =>
    simp only [System.step, Option.ite_none_right_eq_some, Option.some.injEq] at hstep
    obtain ⟨hb, rfl⟩ := hstep
    constructor
    · exact h.ids.sublist (List.erase_sublist.map _)
    · simpa only [HubImpl.unregister, HubImpl.forEachClaim_eq] using h.exact.remove h.ids hb
    · simpa only [HubImpl.unregister, HubImpl.forEachClaim_eq] using h.wildcard.remove h.ids hb
    · intro key
      simp only [HubImpl.unregister, HubImpl.forEachClaim_eq, Pools.foldl_removeFrom_mem, h.created]
  | selectBackend hostname =>
    simp only [System.step, Option.some.injEq] at hstep
    subst hstep
    obtain ⟨hexact, hwildcard, hmem⟩ := HubImpl.selectBackend_frame u hostname s.hub
    exact ⟨h.ids, h.exact.congr hexact, h.wildcard.congr hwildcard, fun key =>
      (hmem key).trans (h.created key)⟩

theorem run_consistent {calls : List Call} {s : System f}
    (hrun : Transition.run (step u) start calls = some s) : s.Consistent u :=
  Transition.invariant_run (fun _ _ _ h hstep => h.step u hstep) (start_consistent u) hrun

def ClaimedExactly (s : System f) (hostname : List Char) : Prop :=
  ∃ b ∈ s.registered, hostname ∈ b.exactKeys u

def ClaimedByWildcard (s : System f) (hostname : List Char) : Prop :=
  ∃ suffix ∈ firstDotSuffix u hostname, ∃ b ∈ s.registered, suffix ∈ b.wildcardKeys u

/-- The selection for a name is the one that the current registrations call for. -/
structure RoutesByRegistration (s : System f) (hostname : List Char) : Prop where
  returns : (∃ b, (s.hub.selectBackend u hostname).1 = .ok b) ↔
    s.ClaimedExactly u hostname ∨ s.ClaimedByWildcard u hostname
  exact : s.ClaimedExactly u hostname → ∃ b ∈ s.registered, hostname ∈ b.exactKeys u ∧
    (s.hub.selectBackend u hostname).1 = .ok b
  wildcard : ¬s.ClaimedExactly u hostname → s.ClaimedByWildcard u hostname →
    ∃ suffix ∈ firstDotSuffix u hostname, ∃ b ∈ s.registered, suffix ∈ b.wildcardKeys u ∧
      (s.hub.selectBackend u hostname).1 = .ok b

/-- The name was once claimed exactly, and now only a wildcard covers it. -/
def Shadowed (s : System f) (hostname : List Char) : Prop :=
  (∃ b ∈ s.everRegistered, hostname ∈ b.exactKeys u) ∧ ¬s.ClaimedExactly u hostname ∧
    s.ClaimedByWildcard u hostname

variable {u} {s : System f} {hostname : List Char}

theorem Consistent.select_exact (h : s.Consistent u) (hclaim : s.ClaimedExactly u hostname) :
    ∃ b ∈ s.registered, hostname ∈ b.exactKeys u ∧
      (s.hub.selectBackend u hostname).1 = .ok b := by
  obtain ⟨pool, hpool⟩ := h.exact.lookup_of_claimed hclaim
  obtain ⟨b, hb, hkey, hsel⟩ := h.exact.select_claimed hpool hclaim
  exact ⟨b, hb, hkey, by simpa only [HubImpl.selectBackend, hpool] using hsel⟩

/-- The empty pool that is left behind answers for the name. -/
theorem Consistent.select_created (h : s.Consistent u) (hmem : hostname ∈ s.hub.pools)
    (hclaim : ¬s.ClaimedExactly u hostname) :
    (s.hub.selectBackend u hostname).1 = .error .noBackends := by
  obtain ⟨pool, hpool⟩ := Option.isSome_iff_exists.mp (AList.lookup_isSome.mpr hmem)
  have hsel := h.exact.select_unclaimed hpool hclaim
  simpa only [HubImpl.selectBackend, hpool] using hsel

theorem Consistent.select_wildcard (h : s.Consistent u) (hmem : hostname ∉ s.hub.pools)
    (hclaim : s.ClaimedByWildcard u hostname) :
    ∃ suffix ∈ firstDotSuffix u hostname, ∃ b ∈ s.registered, suffix ∈ b.wildcardKeys u ∧
      (s.hub.selectBackend u hostname).1 = .ok b := by
  obtain ⟨suffix, hsuffix, hclaim⟩ := hclaim
  obtain ⟨pool, hpool⟩ := h.wildcard.lookup_of_claimed hclaim
  obtain ⟨b, hb, hkey, hsel⟩ := h.wildcard.select_claimed hpool hclaim
  refine ⟨suffix, hsuffix, b, hb, hkey, ?_⟩
  rw [Option.mem_def] at hsuffix
  simpa only [HubImpl.selectBackend, AList.lookup_eq_none.mpr hmem, hsuffix, hpool] using hsel

theorem Consistent.select_none (h : s.Consistent u) (hmem : hostname ∉ s.hub.pools)
    (hclaim : ¬s.ClaimedByWildcard u hostname) :
    ¬∃ b, (s.hub.selectBackend u hostname).1 = .ok b := by
  rw [HubImpl.selectBackend, AList.lookup_eq_none.mpr hmem]
  dsimp only
  split
  · simp
  · rename_i suffix hsuffix
    split
    · simp
    · rename_i pool hpool
      have hnone : ¬∃ b ∈ s.registered, suffix ∈ b.wildcardKeys u := fun hc =>
        hclaim ⟨suffix, hsuffix, hc⟩
      simp [h.wildcard.select_unclaimed hpool hnone]

theorem Consistent.routes_iff (h : s.Consistent u) :
    s.RoutesByRegistration u hostname ↔ ¬s.Shadowed u hostname := by
  by_cases hexact : s.ClaimedExactly u hostname
  · have hsel := h.select_exact hexact
    obtain ⟨b, hb, hkey, hok⟩ := hsel
    have hroutes : s.RoutesByRegistration u hostname :=
      ⟨⟨fun _ => Or.inl hexact, fun _ => ⟨b, hok⟩⟩, fun _ => ⟨b, hb, hkey, hok⟩,
        fun hno => absurd hexact hno⟩
    exact ⟨fun _ hsh => hsh.2.1 hexact, fun _ => hroutes⟩
  by_cases hmem : hostname ∈ s.hub.pools
  · have herr := h.select_created hmem hexact
    have hno : ¬∃ b, (s.hub.selectBackend u hostname).1 = .ok b := by simp [herr]
    constructor
    · intro hroutes hsh
      exact hno (hroutes.returns.mpr (Or.inr hsh.2.2))
    · intro hsh
      have hw : ¬s.ClaimedByWildcard u hostname := fun hw =>
        hsh ⟨(h.created hostname).mp hmem, hexact, hw⟩
      exact ⟨iff_of_false hno (not_or.mpr ⟨hexact, hw⟩), fun hc => absurd hc hexact,
        fun _ hc => absurd hc hw⟩
  · have hsh : ¬s.Shadowed u hostname := fun hsh => hmem ((h.created hostname).mpr hsh.1)
    refine iff_of_true ?_ hsh
    by_cases hw : s.ClaimedByWildcard u hostname
    · obtain ⟨suffix, hsuffix, b, hb, hkey, hok⟩ := h.select_wildcard hmem hw
      exact ⟨iff_of_true ⟨b, hok⟩ (Or.inr hw), fun hc => absurd hc hexact,
        fun _ _ => ⟨suffix, hsuffix, b, hb, hkey, hok⟩⟩
    · exact ⟨iff_of_false (h.select_none hmem hw) (not_or.mpr ⟨hexact, hw⟩),
        fun hc => absurd hc hexact, fun _ hc => absurd hc hw⟩

/-- Two hubs with the same backends registered route the same names, the shadowed ones
apart. -/
theorem Consistent.routable_congr {t : System f} (hs : s.Consistent u) (ht : t.Consistent u)
    (hreg : ∀ b, b ∈ s.registered ↔ b ∈ t.registered) (hsh : ¬s.Shadowed u hostname)
    (hth : ¬t.Shadowed u hostname) :
    (∃ b, (s.hub.selectBackend u hostname).1 = .ok b) ↔
      ∃ b, (t.hub.selectBackend u hostname).1 = .ok b := by
  rw [(hs.routes_iff.mpr hsh).returns, (ht.routes_iff.mpr hth).returns]
  simp only [ClaimedExactly, ClaimedByWildcard, hreg]

/-- After any calls, `SelectBackend` depends on the current registrations alone for every
name but those that an exact claim has left to a wildcard. -/
theorem selectBackend_routes_by_registration {calls : List Call}
    (hrun : Transition.run (step u) start calls = some s) (hostname : List Char) :
    s.RoutesByRegistration u hostname ↔ ¬s.Shadowed u hostname := by
  have h := run_consistent u hrun
  exact h.routes_iff

instance (s : System f) : Decidable (s.ClaimedExactly u hostname) :=
  inferInstanceAs (Decidable (∃ b ∈ s.registered, hostname ∈ b.exactKeys u))

instance (s : System f) : Decidable (s.ClaimedByWildcard u hostname) :=
  inferInstanceAs (Decidable (∃ suffix ∈ firstDotSuffix u hostname, ∃ b ∈ s.registered,
    suffix ∈ b.wildcardKeys u))

instance (s : System f) : Decidable (s.Shadowed u hostname) :=
  inferInstanceAs (Decidable (_ ∧ _ ∧ _))

end System

/-- ASCII names, where `idna.Lookup.ToASCII` rejects everything. -/
def plainNames : Unicode := ⟨(· == ' '), Char.toLower, fun _ => none⟩

/-- Weights that a float holds exactly. -/
def exactAbs : FloatAbs where
  abs w := if 0 < w ∧ w < 2 ^ 63 then w else 1
  isInt64 w := by
    unfold FixedWidth.IsInt64
    split_ifs <;> omega
  ne_zero w := by
    split_ifs <;> omega

def wildcardHolder : Backend where
  id := ['w']
  hostnames := ["*.example.com".toList]
  tcpPorts := []
  udpRoutes := []
  weight := 1
  weight_pos := one_weight_pos
  weight_lt := one_weight_lt

/-- A backend with an exact claim that the wildcard covers. -/
def nameHolder : Backend where
  id := ['n']
  hostnames := ["api.example.com".toList]
  tcpPorts := [25]
  udpRoutes := []
  weight := 2
  weight_pos := by decide
  weight_lt := by decide

theorem selectBackend_routes_api :
    ∃ s : System exactAbs, Transition.run (System.step plainNames) System.start
        [.register wildcardHolder, .register nameHolder] = some s ∧
      s.RoutesByRegistration plainNames "api.example.com".toList := by
  have hex : ∃ s : System exactAbs, Transition.run (System.step plainNames) System.start
        [.register wildcardHolder, .register nameHolder] = some s ∧
      ¬s.Shadowed plainNames "api.example.com".toList :=
    Transition.exists_run_of_any (by decide +kernel)
  obtain ⟨s, hrun, hsh⟩ := hex
  exact ⟨s, hrun, (System.selectBackend_routes_by_registration hrun _).mpr hsh⟩

/-- Once the exact claim is gone, the wildcard claim does not serve the name. -/
theorem selectBackend_shadowed_api :
    ∃ s : System exactAbs, Transition.run (System.step plainNames) System.start
        [.register wildcardHolder, .register nameHolder, .unregister nameHolder] = some s ∧
      s.registered = [wildcardHolder] ∧
      s.ClaimedByWildcard plainNames "api.example.com".toList ∧
      (s.hub.selectBackend plainNames "api.example.com".toList).1 = .error .noBackends :=
  Transition.exists_run_of_any (by decide +kernel)

end NexusProxy.Hub
