import Mathlib
import NexusProxy.Hostnames
import NexusProxy.Lib.SwapRemove
import NexusProxy.Lib.Transition

/-! Package `routing`: the table of the mesh, which maps names and wildcard suffixes to the
peers that announce them. -/
namespace NexusProxy.Routing
open Hostnames SwapRemove

variable {Peer Addr : Type} [DecidableEq Addr] (addr : Peer → Addr)

/-- The peers of one route, with the counter of the round robin. -/
structure PeerList (Peer : Type) where
  peers : List Peer
  counter : UInt64

namespace PeerList

def new : PeerList Peer := ⟨[], 0⟩

def add (pl : PeerList Peer) (p : Peer) : PeerList Peer :=
  if ∃ existingPeer ∈ pl.peers, addr existingPeer = addr p then pl
  else { pl with peers := pl.peers ++ [p] }

def remove (pl : PeerList Peer) (p : Peer) : PeerList Peer :=
  { pl with peers := removeFirst (fun existingPeer => addr existingPeer = addr p) pl.peers }

def select (pl : PeerList Peer) : Option Peer × PeerList Peer :=
  if pl.peers.length = 0 then (none, pl)
  else
    let counter := pl.counter + 1
    (pl.peers[counter.toNat % pl.peers.length]?, { pl with counter := counter })

variable {addr}

theorem mem_add (hinj : Function.Injective addr) (pl : PeerList Peer) (p q : Peer) :
    q ∈ (pl.add addr p).peers ↔ q ∈ pl.peers ∨ q = p := by
  unfold add
  split_ifs with h
  · obtain ⟨r, hr, heq⟩ := h
    have hp : p ∈ pl.peers := hinj heq ▸ hr
    constructor
    · exact Or.inl
    · rintro (hq | rfl)
      · exact hq
      · exact hp
  · simp

theorem add_nodup {pl : PeerList Peer} (h : (pl.peers.map addr).Nodup) (p : Peer) :
    ((pl.add addr p).peers.map addr).Nodup := by
  unfold add
  split_ifs with hp
  · exact h
  · rw [List.map_append, List.map_singleton, List.nodup_append]
    refine ⟨h, List.nodup_singleton _, ?_⟩
    intro a ha b hb hab
    obtain ⟨q, hq, rfl⟩ := List.mem_map.mp ha
    exact hp ⟨q, hq, hab.trans (List.mem_singleton.mp hb)⟩

theorem mem_remove (hinj : Function.Injective addr) {pl : PeerList Peer}
    (h : (pl.peers.map addr).Nodup) (p q : Peer) :
    q ∈ (pl.remove addr p).peers ↔ q ∈ pl.peers ∧ q ≠ p := by
  classical
  have herase : pl.peers.eraseP (fun r => addr r = addr p) = pl.peers.erase p :=
    eraseP_eq_erase (by simp) fun r _ hr => hinj (of_decide_eq_true hr)
  rw [remove, (removeFirst_perm _ _).mem_iff, herase, (List.Nodup.of_map addr h).mem_erase_iff,
    and_comm]

theorem remove_nodup {pl : PeerList Peer} (h : (pl.peers.map addr).Nodup) (p : Peer) :
    ((pl.remove addr p).peers.map addr).Nodup :=
  (((removeFirst_perm _ pl.peers).map addr).nodup_iff).mpr
    (h.sublist (List.eraseP_sublist.map addr))

theorem select_mem {pl : PeerList Peer} {p : Peer} (h : pl.select.1 = some p) : p ∈ pl.peers := by
  unfold select at h
  split_ifs at h
  exact List.mem_of_getElem? h

theorem select_isSome {pl : PeerList Peer} {p : Peer} (h : p ∈ pl.peers) :
    ∃ q, pl.select.1 = some q := by
  have hpos := List.length_pos_of_mem h
  unfold select
  rw [if_neg hpos.ne']
  exact ⟨_, List.getElem?_eq_getElem (Nat.mod_lt _ hpos)⟩

@[simp] theorem select_peers (pl : PeerList Peer) : pl.select.2.peers = pl.peers := by
  unfold select
  split_ifs <;> rfl

end PeerList

/-- A map from names or suffixes to lists of peers. -/
abbrev PeerLists (Peer : Type) := AList (fun _ : List Char => PeerList Peer)

namespace PeerLists

def addTo (p : Peer) (m : PeerLists Peer) (key : List Char) : PeerLists Peer :=
  m.insert key (((m.lookup key).getD .new).add addr p)

def removeFrom (p : Peer) (m : PeerLists Peer) (key : List Char) : PeerLists Peer :=
  match m.lookup key with
  | some peerList => m.insert key (peerList.remove addr p)
  | none => m

def members (m : PeerLists Peer) (key : List Char) : List Peer :=
  (m.lookup key).elim [] PeerList.peers

def Distinct (m : PeerLists Peer) : Prop := ∀ key, ((m.members key).map addr).Nodup

variable {addr}

theorem members_insert (m : PeerLists Peer) (key k : List Char) (pl : PeerList Peer) :
    members (m.insert key pl) k = if k = key then pl.peers else m.members k := by
  unfold members
  split_ifs with h
  · rw [h, AList.lookup_insert]
    rfl
  · rw [AList.lookup_insert_ne h]

theorem members_of_lookup {m : PeerLists Peer} {key : List Char} {pl : PeerList Peer}
    (h : m.lookup key = some pl) : m.members key = pl.peers := by
  rw [members, h]
  rfl

theorem members_getD (m : PeerLists Peer) (key : List Char) :
    ((m.lookup key).getD .new).peers = m.members key := by
  unfold members
  cases m.lookup key <;> rfl

theorem mem_addTo (hinj : Function.Injective addr) (p q : Peer) (m : PeerLists Peer)
    (key k : List Char) :
    q ∈ members (addTo addr p m key) k ↔ q ∈ m.members k ∨ q = p ∧ k = key := by
  rw [addTo, members_insert]
  split_ifs with h
  · rw [PeerList.mem_add hinj, members_getD, h]
    simp
  · simp [h]

theorem Distinct.addTo {m : PeerLists Peer} (h : m.Distinct addr) (p : Peer) (key : List Char) :
    (addTo addr p m key).Distinct addr := by
  intro k
  rw [PeerLists.addTo, members_insert]
  split_ifs
  · exact PeerList.add_nodup (by rw [members_getD]; exact h key) p
  · exact h k

theorem mem_removeFrom (hinj : Function.Injective addr) {m : PeerLists Peer}
    (h : m.Distinct addr) (p q : Peer) (key k : List Char) :
    q ∈ members (removeFrom addr p m key) k ↔ q ∈ m.members k ∧ ¬(q = p ∧ k = key) := by
  unfold removeFrom
  cases hkey : m.lookup key with
  | none =>
    have hnil : m.members key = [] := by rw [members, hkey]; rfl
    constructor
    · intro hq
      refine ⟨hq, ?_⟩
      rintro ⟨-, rfl⟩
      rw [hnil] at hq
      cases hq
    · exact And.left
  | some pl =>
    have hpl := members_of_lookup hkey
    dsimp only
    rw [members_insert]
    split_ifs with hk
    · rw [PeerList.mem_remove hinj (by rw [← hpl]; exact h key), hk, hpl]
      simp
    · simp [hk]

theorem Distinct.removeFrom {m : PeerLists Peer} (h : m.Distinct addr) (p : Peer)
    (key : List Char) : (removeFrom addr p m key).Distinct addr := by
  unfold PeerLists.removeFrom
  cases hkey : m.lookup key with
  | none => exact h
  | some pl =>
    intro k
    dsimp only
    rw [members_insert]
    split_ifs
    · exact PeerList.remove_nodup (by rw [← members_of_lookup hkey]; exact h key) p
    · exact h k

theorem foldl_addTo (hinj : Function.Injective addr) (p : Peer) (keys : List (List Char))
    {m : PeerLists Peer} (h : m.Distinct addr) :
    (keys.foldl (addTo addr p) m).Distinct addr ∧ ∀ q k,
      q ∈ members (keys.foldl (addTo addr p) m) k ↔ q ∈ m.members k ∨ q = p ∧ k ∈ keys := by
  induction keys generalizing m with
  | nil => exact ⟨h, by simp⟩
  | cons key keys ih =>
    obtain ⟨hdistinct, hmem⟩ := ih (h.addTo p key)
    refine ⟨hdistinct, fun q k => ?_⟩
    rw [List.foldl_cons, hmem, mem_addTo hinj, List.mem_cons]
    tauto

theorem foldl_removeFrom (hinj : Function.Injective addr) (p : Peer) (keys : List (List Char))
    {m : PeerLists Peer} (h : m.Distinct addr) :
    (keys.foldl (removeFrom addr p) m).Distinct addr ∧ ∀ q k,
      q ∈ members (keys.foldl (removeFrom addr p) m) k ↔ q ∈ m.members k ∧ ¬(q = p ∧ k ∈ keys) := by
  induction keys generalizing m with
  | nil => exact ⟨h, by simp⟩
  | cons key keys ih =>
    obtain ⟨hdistinct, hmem⟩ := ih (h.removeFrom p key)
    refine ⟨hdistinct, fun q k => ?_⟩
    rw [List.foldl_cons, hmem, mem_removeFrom hinj h, List.mem_cons]
    tauto

end PeerLists

/-- The last accepted version of a peer and the set of names that came with it. -/
structure PeerState where
  version : ℕ
  hostnames : Finset (List Char)
  deriving DecidableEq

def PeerState.unknown : PeerState := ⟨0, ∅⟩

structure Table (Peer Addr : Type) where
  routes : PeerLists Peer
  wildcardRoutes : PeerLists Peer
  peerStates : AList (fun _ : Addr => PeerState)

/-- A Go map used as a set is visited in some order. -/
def Enumerates (order : List (List Char)) (set : Finset (List Char)) : Prop :=
  order.Nodup ∧ order.toFinset = set

instance (order : List (List Char)) (set : Finset (List Char)) :
    Decidable (Enumerates order set) :=
  inferInstanceAs (Decidable (_ ∧ _))

theorem Enumerates.mem {order : List (List Char)} {set : Finset (List Char)}
    (h : Enumerates order set) (hostname : List Char) : hostname ∈ order ↔ hostname ∈ set := by
  rw [← h.2, List.mem_toFinset]

namespace Table
variable (u : Unicode)

def new : Table Peer Addr := ⟨∅, ∅, ∅⟩

def stateOf (t : Table Peer Addr) (p : Peer) : PeerState :=
  (t.peerStates.lookup (addr p)).getD .unknown

/-- The loops over announced names: a wildcard is filed under its suffix. -/
def forEachRoute (op : PeerLists Peer → List Char → PeerLists Peer)
    (hostnames : List (List Char)) (t : Table Peer Addr) : Table Peer Addr :=
  hostnames.foldl (fun t hostname =>
    match wildcardSuffix u hostname with
    | some suffix => { t with wildcardRoutes := op t.wildcardRoutes suffix }
    | none => { t with routes := op t.routes hostname }) t

/-- `UpdateRoutesForPeer`, with the orders in which the new set and the stored one are
visited. -/
def updateRoutesForPeer (p : Peer) (version : ℕ) (hostnames news olds : List (List Char))
    (t : Table Peer Addr) : Table Peer Addr :=
  let state := t.stateOf addr p
  if version ≤ state.version then
    { t with peerStates := t.peerStates.insert (addr p) state }
  else
    let newHostnameSet := hostnames.toFinset
    let t := forEachRoute u (PeerLists.addTo addr p)
      (news.filter fun hostname => hostname ∉ state.hostnames) t
    let t := forEachRoute u (PeerLists.removeFrom addr p)
      (olds.filter fun hostname => hostname ∉ newHostnameSet) t
    { t with peerStates := t.peerStates.insert (addr p) ⟨version, newHostnameSet⟩ }

/-- `ClearRoutesForPeer`, with the order in which the stored set is visited. -/
def clearRoutesForPeer (p : Peer) (olds : List (List Char)) (t : Table Peer Addr) :
    Table Peer Addr :=
  match t.peerStates.lookup (addr p) with
  | some _ =>
      forEachRoute u (PeerLists.removeFrom addr p) olds
        { t with peerStates := t.peerStates.erase (addr p) }
  | none => t

def selectFrom (m : PeerLists Peer) (key : List Char) : Option Peer × PeerLists Peer :=
  match m.lookup key with
  | some peerList => (peerList.select.1, m.insert key peerList.select.2)
  | none => (none, m)

def getPeerForHostname (hostname : List Char) (t : Table Peer Addr) :
    Option Peer × Table Peer Addr :=
  let (peer, routes) := selectFrom t.routes hostname
  let t := { t with routes := routes }
  match peer with
  | some peer => (some peer, t)
  | none =>
      match firstDotSuffix u hostname with
      | some suffix =>
          let (peer, wildcardRoutes) := selectFrom t.wildcardRoutes suffix
          (peer, { t with wildcardRoutes := wildcardRoutes })
      | none => (none, t)

omit [DecidableEq Addr] in
/-- The loops are one pass over the names and one over the suffixes. -/
theorem forEachRoute_eq (op : PeerLists Peer → List Char → PeerLists Peer)
    (hostnames : List (List Char)) (t : Table Peer Addr) :
    forEachRoute u op hostnames t =
      { t with
        routes := (hostnames.filter fun hn => wildcardSuffix u hn = none).foldl op t.routes
        wildcardRoutes :=
          (hostnames.filterMap (wildcardSuffix u)).foldl op t.wildcardRoutes } := by
  unfold forEachRoute
  induction hostnames generalizing t with
  | nil => rfl
  | cons hn hostnames ih =>
    rw [List.foldl_cons, ih]
    cases hw : wildcardSuffix u hn <;> simp [hw]

end Table

/-- A call on the table. The orders are those of the iterations over sets. -/
inductive Call (Peer : Type) where
  | update (p : Peer) (version : ℕ) (hostnames news olds : List (List Char))
  | clear (p : Peer) (olds : List (List Char))
  | get (hostname : List Char)

def Call.peer : Call Peer → Option Peer
  | .update p .. => some p
  | .clear p _ => some p
  | .get _ => none

section Latest
variable (u : Unicode)

def PeerState.AnnouncesExactly (state : PeerState) (name : List Char) : Prop :=
  name ∈ state.hostnames ∧ wildcardSuffix u name = none

def PeerState.AnnouncesWildcard (state : PeerState) (suffix : List Char) : Prop :=
  ∃ hn ∈ state.hostnames, wildcardSuffix u hn = some suffix

instance (state : PeerState) (suffix : List Char) :
    Decidable (state.AnnouncesWildcard u suffix) :=
  inferInstanceAs (Decidable (∃ hn ∈ state.hostnames, wildcardSuffix u hn = some suffix))

/-- The last accepted announcement of every peer since its last clear. -/
abbrev Latest (Peer : Type) := Peer → PeerState

variable [DecidableEq Peer]

/-- An announcement is accepted if its version is above the last accepted one. -/
def Latest.apply (a : Latest Peer) : Call Peer → Latest Peer
  | .update p version hostnames _ _ =>
      if version ≤ (a p).version then a else Function.update a p ⟨version, hostnames.toFinset⟩
  | .clear p _ => Function.update a p .unknown
  | .get _ => a

def latest (calls : List (Call Peer)) : Latest Peer := calls.foldl Latest.apply fun _ => .unknown

end Latest

namespace Table
variable (u : Unicode)

def step (t : Table Peer Addr) : Call Peer → Option (Table Peer Addr)
  | .update p version hostnames news olds =>
      if version ≤ (t.stateOf addr p).version ∨
          Enumerates news hostnames.toFinset ∧ Enumerates olds (t.stateOf addr p).hostnames then
        some (t.updateRoutesForPeer addr u p version hostnames news olds)
      else none
  | .clear p olds =>
      if Enumerates olds (t.stateOf addr p).hostnames then
        some (t.clearRoutesForPeer addr u p olds)
      else none
  | .get hostname => some (t.getPeerForHostname u hostname).2

/-- No list of either map has two peers with one address. -/
structure Distinct (t : Table Peer Addr) : Prop where
  exact : t.routes.Distinct addr
  wildcard : t.wildcardRoutes.Distinct addr

/-- The lists hold, besides what they held, `p` under the names of a set. -/
structure Added (p : Peer) (set : List Char → Prop) (t t' : Table Peer Addr) : Prop where
  distinct : t'.Distinct addr
  states : t'.peerStates = t.peerStates
  exact : ∀ q key, q ∈ t'.routes.members key ↔
    q ∈ t.routes.members key ∨ q = p ∧ set key ∧ wildcardSuffix u key = none
  wildcard : ∀ q suffix, q ∈ t'.wildcardRoutes.members suffix ↔
    q ∈ t.wildcardRoutes.members suffix ∨
      q = p ∧ ∃ hn, set hn ∧ wildcardSuffix u hn = some suffix

/-- The lists hold what they held but for `p` under the names of a set. -/
structure Removed (p : Peer) (set : List Char → Prop) (t t' : Table Peer Addr) : Prop where
  distinct : t'.Distinct addr
  states : t'.peerStates = t.peerStates
  exact : ∀ q key, q ∈ t'.routes.members key ↔
    q ∈ t.routes.members key ∧ ¬(q = p ∧ set key ∧ wildcardSuffix u key = none)
  wildcard : ∀ q suffix, q ∈ t'.wildcardRoutes.members suffix ↔
    q ∈ t.wildcardRoutes.members suffix ∧
      ¬(q = p ∧ ∃ hn, set hn ∧ wildcardSuffix u hn = some suffix)

variable {addr u} {t : Table Peer Addr}

theorem forEachRoute_added (hinj : Function.Injective addr) (h : t.Distinct addr) (p : Peer)
    (hostnames : List (List Char)) :
    Added addr u p (· ∈ hostnames) t
      (forEachRoute u (PeerLists.addTo addr p) hostnames t) := by
  rw [forEachRoute_eq]
  obtain ⟨hexact, hmem⟩ := PeerLists.foldl_addTo hinj p
    (hostnames.filter fun hn => wildcardSuffix u hn = none) h.exact
  obtain ⟨hwildcard, hwmem⟩ := PeerLists.foldl_addTo hinj p
    (hostnames.filterMap (wildcardSuffix u)) h.wildcard
  refine ⟨⟨hexact, hwildcard⟩, rfl, fun q key => ?_, fun q suffix => ?_⟩
  · simp only [hmem, List.mem_filter, decide_eq_true_eq]
  · simp only [hwmem, List.mem_filterMap]

theorem forEachRoute_removed (hinj : Function.Injective addr) (h : t.Distinct addr) (p : Peer)
    (hostnames : List (List Char)) :
    Removed addr u p (· ∈ hostnames) t
      (forEachRoute u (PeerLists.removeFrom addr p) hostnames t) := by
  rw [forEachRoute_eq]
  obtain ⟨hexact, hmem⟩ := PeerLists.foldl_removeFrom hinj p
    (hostnames.filter fun hn => wildcardSuffix u hn = none) h.exact
  obtain ⟨hwildcard, hwmem⟩ := PeerLists.foldl_removeFrom hinj p
    (hostnames.filterMap (wildcardSuffix u)) h.wildcard
  refine ⟨⟨hexact, hwildcard⟩, rfl, fun q key => ?_, fun q suffix => ?_⟩
  · simp only [hmem, List.mem_filter, decide_eq_true_eq]
  · simp only [hwmem, List.mem_filterMap]

section Selection
omit [DecidableEq Addr]
variable {m : PeerLists Peer} {key : List Char}

theorem selectFrom_mem {p : Peer} (h : (selectFrom m key).1 = some p) : p ∈ m.members key := by
  unfold selectFrom at h
  cases hk : m.lookup key with
  | none => simp [hk] at h
  | some pl =>
    rw [hk] at h
    rw [PeerLists.members_of_lookup hk]
    exact PeerList.select_mem h

theorem selectFrom_isSome {p : Peer} (h : p ∈ m.members key) :
    ∃ q, (selectFrom m key).1 = some q := by
  unfold selectFrom
  cases hk : m.lookup key with
  | none => simp [PeerLists.members, hk] at h
  | some pl =>
    rw [PeerLists.members_of_lookup hk] at h
    exact PeerList.select_isSome h

@[simp] theorem selectFrom_members (m : PeerLists Peer) (key k : List Char) :
    (selectFrom m key).2.members k = m.members k := by
  unfold selectFrom
  cases hk : m.lookup key with
  | none => rfl
  | some pl =>
    dsimp only
    rw [PeerLists.members_insert]
    split_ifs with h
    · rw [PeerList.select_peers, h, PeerLists.members_of_lookup hk]
    · rfl

theorem getPeerForHostname_frame (u : Unicode) (hostname : List Char) (t : Table Peer Addr) :
    (t.getPeerForHostname u hostname).2.peerStates = t.peerStates ∧
      (∀ key, (t.getPeerForHostname u hostname).2.routes.members key = t.routes.members key) ∧
      ∀ key, (t.getPeerForHostname u hostname).2.wildcardRoutes.members key =
        t.wildcardRoutes.members key := by
  unfold getPeerForHostname
  dsimp only
  cases (selectFrom t.routes hostname).1 with
  | some peer => exact ⟨rfl, selectFrom_members _ _, fun _ => rfl⟩
  | none =>
    dsimp only
    cases firstDotSuffix u hostname with
    | none => exact ⟨rfl, selectFrom_members _ _, fun _ => rfl⟩
    | some suffix => exact ⟨rfl, selectFrom_members _ _, selectFrom_members _ _⟩

/-- The selection comes from the list of the name, or from that of its suffix if the list of
the name is empty. -/
theorem getPeerForHostname_eq_some {u : Unicode} {hostname : List Char} {t : Table Peer Addr}
    {p : Peer} (h : (t.getPeerForHostname u hostname).1 = some p) :
    p ∈ t.routes.members hostname ∨ (∀ q, q ∉ t.routes.members hostname) ∧
      ∃ suffix ∈ firstDotSuffix u hostname, p ∈ t.wildcardRoutes.members suffix := by
  unfold getPeerForHostname at h
  dsimp only at h
  cases hexact : (selectFrom t.routes hostname).1 with
  | some peer =>
    rw [hexact] at h
    exact Or.inl (Option.some.inj h ▸ selectFrom_mem hexact)
  | none =>
    have hnobody : ∀ q, q ∉ t.routes.members hostname := by
      intro q hq
      obtain ⟨r, hr⟩ := selectFrom_isSome hq
      rw [hexact] at hr
      cases hr
    rw [hexact] at h
    dsimp only at h
    cases hsuffix : firstDotSuffix u hostname with
    | none =>
      rw [hsuffix] at h
      cases h
    | some suffix =>
      rw [hsuffix] at h
      exact Or.inr ⟨hnobody, suffix, rfl, selectFrom_mem h⟩

theorem getPeerForHostname_isSome {u : Unicode} {hostname : List Char} {t : Table Peer Addr}
    (h : (∃ p, p ∈ t.routes.members hostname) ∨
      ∃ suffix ∈ firstDotSuffix u hostname, ∃ p, p ∈ t.wildcardRoutes.members suffix) :
    ∃ p, (t.getPeerForHostname u hostname).1 = some p := by
  unfold getPeerForHostname
  dsimp only
  cases hexact : (selectFrom t.routes hostname).1 with
  | some peer => exact ⟨peer, rfl⟩
  | none =>
    rcases h with ⟨p, hp⟩ | ⟨suffix, hsuffix, p, hp⟩
    · obtain ⟨q, hq⟩ := selectFrom_isSome hp
      rw [hexact] at hq
      cases hq
    · rw [Option.mem_def.mp hsuffix]
      exact selectFrom_isSome hp

end Selection

section Reflects

/-- The lists hold the peer as its latest announcement says. -/
structure ReflectsPeer (addr : Peer → Addr) (u : Unicode) (t : Table Peer Addr) (p : Peer)
    (state : PeerState) : Prop where
  known : t.stateOf addr p = state
  exact : ∀ name, p ∈ t.routes.members name ↔ state.AnnouncesExactly u name
  wildcard : ∀ suffix, p ∈ t.wildcardRoutes.members suffix ↔ state.AnnouncesWildcard u suffix

/-- The lists are those of the latest announcements. -/
structure Reflects (addr : Peer → Addr) (u : Unicode) (t : Table Peer Addr) (a : Latest Peer) :
    Prop where
  distinct : t.Distinct addr
  peers : ∀ p, t.ReflectsPeer addr u p (a p)

/-- The routes under which the table files the peer. -/
def Attributes (t : Table Peer Addr) (p : Peer) (route : List Char) : Prop :=
  p ∈ t.routes.members route ∨
    ∃ suffix, route = '*' :: suffix ∧ p ∈ t.wildcardRoutes.members suffix

/-- An accepted update drops no wildcard whose suffix another entry of the new list has. -/
def KeepsSuffixes (addr : Peer → Addr) (u : Unicode) (t : Table Peer Addr) : Call Peer → Prop
  | .update p version hostnames _ _ => (t.stateOf addr p).version < version →
      ∀ old ∈ (t.stateOf addr p).hostnames, old ∉ hostnames → wildcardSuffix u old ≠ none →
        ∀ hn ∈ hostnames, wildcardSuffix u hn ≠ wildcardSuffix u old
  | _ => True

instance (addr : Peer → Addr) (u : Unicode) (t : Table Peer Addr) (call : Call Peer) :
    Decidable (t.KeepsSuffixes addr u call) := by
  unfold KeepsSuffixes
  split <;> infer_instance

theorem new_reflects : (new : Table Peer Addr).Reflects addr u fun _ => .unknown where
  distinct := ⟨fun _ => List.nodup_nil, fun _ => List.nodup_nil⟩
  peers p :=
    { known := rfl
      exact := fun name => by
        simp [new, PeerLists.members, PeerState.AnnouncesExactly, PeerState.unknown]
      wildcard := fun suffix => by
        simp [new, PeerLists.members, PeerState.AnnouncesWildcard, PeerState.unknown] }

variable {p q : Peer} {state : PeerState} {version : ℕ} {hostnames news olds : List (List Char)}

section States

omit [DecidableEq Addr] in
theorem forEachRoute_states (op : PeerLists Peer → List Char → PeerLists Peer)
    (hostnames : List (List Char)) (t : Table Peer Addr) :
    (forEachRoute u op hostnames t).peerStates = t.peerStates := by
  rw [forEachRoute_eq]

theorem stateOf_update (haccept : (t.stateOf addr p).version < version) :
    (t.updateRoutesForPeer addr u p version hostnames news olds).stateOf addr p =
      ⟨version, hostnames.toFinset⟩ := by
  rw [updateRoutesForPeer, if_neg (not_le.mpr haccept), stateOf, AList.lookup_insert]
  rfl

theorem stateOf_update_stale (hstale : version ≤ (t.stateOf addr p).version) :
    (t.updateRoutesForPeer addr u p version hostnames news olds).stateOf addr p =
      t.stateOf addr p := by
  rw [updateRoutesForPeer, if_pos hstale, stateOf, AList.lookup_insert]
  rfl

theorem stateOf_update_of_ne (hinj : Function.Injective addr) (hq : q ≠ p) :
    (t.updateRoutesForPeer addr u p version hostnames news olds).stateOf addr q =
      t.stateOf addr q := by
  have hne : addr q ≠ addr p := fun heq => hq (hinj heq)
  rw [updateRoutesForPeer]
  dsimp only
  split_ifs
  · rw [stateOf, AList.lookup_insert_ne hne]
    rfl
  · rw [stateOf, AList.lookup_insert_ne hne, forEachRoute_states, forEachRoute_states]
    rfl

theorem stateOf_clear_of_ne (hinj : Function.Injective addr) (hq : q ≠ p) :
    (t.clearRoutesForPeer addr u p olds).stateOf addr q = t.stateOf addr q := by
  rw [clearRoutesForPeer]
  split
  · rw [stateOf, forEachRoute_states, AList.lookup_erase_ne fun heq => hq (hinj heq)]
    rfl
  · rfl

end States

/-- What an accepted update does: `p` is added under the names that are new, then removed
from under those that are gone. -/
theorem updateRoutesForPeer_accepted (hinj : Function.Injective addr) (h : t.Distinct addr)
    (haccept : (t.stateOf addr p).version < version) (hnews : Enumerates news hostnames.toFinset)
    (holds : Enumerates olds (t.stateOf addr p).hostnames) :
    ∃ t₁ t₂, Added addr u p (fun hn => hn ∈ hostnames ∧ hn ∉ (t.stateOf addr p).hostnames) t t₁ ∧
      Removed addr u p (fun hn => hn ∈ (t.stateOf addr p).hostnames ∧ hn ∉ hostnames) t₁ t₂ ∧
      t.updateRoutesForPeer addr u p version hostnames news olds =
        { t₂ with peerStates := t₂.peerStates.insert (addr p) ⟨version, hostnames.toFinset⟩ } := by
  have hadd := forEachRoute_added (u := u) hinj h p
    (news.filter fun hn => hn ∉ (t.stateOf addr p).hostnames)
  have hremove := forEachRoute_removed (u := u) hinj hadd.distinct p
    (olds.filter fun hn => hn ∉ hostnames.toFinset)
  simp only [List.mem_filter, hnews.mem, holds.mem, List.mem_toFinset, decide_eq_true_eq]
    at hadd hremove
  refine ⟨_, _, hadd, hremove, ?_⟩
  rw [updateRoutesForPeer, if_neg (not_le.mpr haccept)]
  simp only [List.mem_toFinset]

theorem Distinct.update (hinj : Function.Injective addr) (h : t.Distinct addr)
    (hsets : version ≤ (t.stateOf addr p).version ∨
      Enumerates news hostnames.toFinset ∧ Enumerates olds (t.stateOf addr p).hostnames) :
    (t.updateRoutesForPeer addr u p version hostnames news olds).Distinct addr := by
  by_cases hstale : version ≤ (t.stateOf addr p).version
  · rw [updateRoutesForPeer, if_pos hstale]
    exact ⟨h.exact, h.wildcard⟩
  · obtain ⟨hnews, holds⟩ := hsets.resolve_left hstale
    obtain ⟨t₁, t₂, -, hremove, heq⟩ :=
      updateRoutesForPeer_accepted (u := u) hinj h (not_le.mp hstale) hnews holds
    rw [heq]
    exact ⟨hremove.distinct.exact, hremove.distinct.wildcard⟩

theorem ReflectsPeer.update_of_ne (hinj : Function.Injective addr) (hd : t.Distinct addr)
    (h : t.ReflectsPeer addr u q state) (hq : q ≠ p)
    (hsets : version ≤ (t.stateOf addr p).version ∨
      Enumerates news hostnames.toFinset ∧ Enumerates olds (t.stateOf addr p).hostnames) :
    (t.updateRoutesForPeer addr u p version hostnames news olds).ReflectsPeer addr u q state := by
  have hknown : (t.updateRoutesForPeer addr u p version hostnames news olds).stateOf addr q =
      state := (stateOf_update_of_ne hinj hq).trans h.known
  by_cases hstale : version ≤ (t.stateOf addr p).version
  · refine ⟨hknown, ?_, ?_⟩ <;> rw [updateRoutesForPeer, if_pos hstale]
    · exact h.exact
    · exact h.wildcard
  · obtain ⟨hnews, holds⟩ := hsets.resolve_left hstale
    obtain ⟨t₁, t₂, hadd, hremove, heq⟩ :=
      updateRoutesForPeer_accepted (u := u) hinj hd (not_le.mp hstale) hnews holds
    refine ⟨hknown, ?_, ?_⟩ <;> rw [heq]
    · intro name
      rw [hremove.exact, hadd.exact, h.exact]
      simp [hq]
    · intro suffix
      rw [hremove.wildcard, hadd.wildcard, h.wildcard]
      simp [hq]

theorem ReflectsPeer.update_stale (h : t.ReflectsPeer addr u p state)
    (hstale : version ≤ state.version) :
    (t.updateRoutesForPeer addr u p version hostnames news olds).ReflectsPeer addr u p state := by
  rw [← h.known] at hstale
  refine ⟨(stateOf_update_stale hstale).trans h.known, ?_, ?_⟩ <;>
    rw [updateRoutesForPeer, if_pos hstale]
  · exact h.exact
  · exact h.wildcard

theorem ReflectsPeer.update (hinj : Function.Injective addr) (hd : t.Distinct addr)
    (h : t.ReflectsPeer addr u p state) (haccept : state.version < version)
    (hnews : Enumerates news hostnames.toFinset) (holds : Enumerates olds state.hostnames)
    (hkeep : ∀ old ∈ state.hostnames, old ∉ hostnames → wildcardSuffix u old ≠ none →
      ∀ hn ∈ hostnames, wildcardSuffix u hn ≠ wildcardSuffix u old) :
    (t.updateRoutesForPeer addr u p version hostnames news olds).ReflectsPeer addr u p
      ⟨version, hostnames.toFinset⟩ := by
  rw [← h.known] at haccept holds hkeep
  obtain ⟨t₁, t₂, hadd, hremove, heq⟩ :=
    updateRoutesForPeer_accepted (u := u) hinj hd haccept hnews holds
  refine ⟨stateOf_update haccept, ?_, ?_⟩
  · rw [heq]
    intro name
    rw [hremove.exact, hadd.exact, h.exact, h.known, PeerState.AnnouncesExactly,
      PeerState.AnnouncesExactly, List.mem_toFinset]
    tauto
  · rw [heq]
    intro suffix
    rw [hremove.wildcard, hadd.wildcard, h.wildcard, PeerState.AnnouncesWildcard,
      PeerState.AnnouncesWildcard]
    rw [h.known] at hkeep ⊢
    simp only [List.mem_toFinset, true_and]
    constructor
    · rintro ⟨⟨hn, hmem, hs⟩ | ⟨hn, ⟨hmem, -⟩, hs⟩, hkept⟩
      · by_contra hnot
        exact hkept ⟨hn, ⟨hmem, fun hnew => hnot ⟨hn, hnew, hs⟩⟩, hs⟩
      · exact ⟨hn, hmem, hs⟩
    · rintro ⟨hn, hmem, hs⟩
      refine ⟨?_, ?_⟩
      · by_cases hold : hn ∈ state.hostnames
        · exact Or.inl ⟨hn, hold, hs⟩
        · exact Or.inr ⟨hn, ⟨hmem, hold⟩, hs⟩
      · rintro ⟨old, ⟨hold, hdropped⟩, hold_suffix⟩
        exact hkeep old hold hdropped (by simp [hold_suffix]) hn hmem (by rw [hs, hold_suffix])

theorem clearRoutesForPeer_removed (hinj : Function.Injective addr) (h : t.Distinct addr)
    (holds : Enumerates olds (t.stateOf addr p).hostnames) :
    Removed addr u p (· ∈ (t.stateOf addr p).hostnames)
      { t with peerStates := t.peerStates.erase (addr p) }
      (t.clearRoutesForPeer addr u p olds) := by
  unfold clearRoutesForPeer
  cases hp : t.peerStates.lookup (addr p) with
  | none =>
    have hempty : (t.stateOf addr p).hostnames = ∅ := by rw [stateOf, hp]; rfl
    have herase : t.peerStates.erase (addr p) = t.peerStates :=
      AList.ext (List.kerase_of_notMem_keys (AList.lookup_eq_none.mp hp))
    rw [hempty, herase]
    exact ⟨h, rfl, by simp, by simp⟩
  | some state =>
    have hremove := forEachRoute_removed (u := u)
      (t := { t with peerStates := t.peerStates.erase (addr p) }) hinj ⟨h.exact, h.wildcard⟩ p olds
    simpa only [holds.mem] using hremove

theorem ReflectsPeer.clear (hinj : Function.Injective addr) (hd : t.Distinct addr)
    (h : t.ReflectsPeer addr u p state) (holds : Enumerates olds state.hostnames) :
    (t.clearRoutesForPeer addr u p olds).ReflectsPeer addr u p .unknown := by
  rw [← h.known] at holds
  have hremove := clearRoutesForPeer_removed (u := u) hinj hd holds
  rw [h.known] at hremove
  constructor
  · rw [stateOf, hremove.states, AList.lookup_erase]
    rfl
  · intro name
    rw [hremove.exact, h.exact]
    simp only [PeerState.AnnouncesExactly, PeerState.unknown, Finset.notMem_empty]
    tauto
  · intro suffix
    rw [hremove.wildcard, h.wildcard]
    simp [PeerState.AnnouncesWildcard, PeerState.unknown]

theorem ReflectsPeer.clear_of_ne (hinj : Function.Injective addr) (hd : t.Distinct addr)
    (h : t.ReflectsPeer addr u q state) (hq : q ≠ p)
    (holds : Enumerates olds (t.stateOf addr p).hostnames) :
    (t.clearRoutesForPeer addr u p olds).ReflectsPeer addr u q state := by
  have hremove := clearRoutesForPeer_removed (u := u) hinj hd holds
  refine ⟨(stateOf_clear_of_ne hinj hq).trans h.known, ?_, ?_⟩
  · intro name
    rw [hremove.exact, h.exact]
    simp [hq]
  · intro suffix
    rw [hremove.wildcard, h.wildcard]
    simp [hq]

omit [DecidableEq Addr] in
theorem Distinct.get (h : t.Distinct addr) (hostname : List Char) :
    (t.getPeerForHostname u hostname).2.Distinct addr := by
  obtain ⟨-, hexact, hwildcard⟩ := getPeerForHostname_frame u hostname t
  constructor
  · intro key
    rw [hexact]
    exact h.exact key
  · intro key
    rw [hwildcard]
    exact h.wildcard key

theorem ReflectsPeer.get (h : t.ReflectsPeer addr u q state) (hostname : List Char) :
    (t.getPeerForHostname u hostname).2.ReflectsPeer addr u q state := by
  obtain ⟨hstates, hexact, hwildcard⟩ := getPeerForHostname_frame u hostname t
  refine ⟨?_, fun name => ?_, fun suffix => ?_⟩
  · rw [stateOf, hstates]
    exact h.known
  · rw [hexact]
    exact h.exact name
  · rw [hwildcard]
    exact h.wildcard suffix

theorem stateOf_step_of_ne (hinj : Function.Injective addr) {call : Call Peer}
    {t' : Table Peer Addr} (hq : call.peer ≠ some q) (hstep : t.step addr u call = some t') :
    t'.stateOf addr q = t.stateOf addr q := by
  cases call with
  | update p version hostnames news olds =>
    simp only [Table.step, Option.ite_none_right_eq_some, Option.some.injEq] at hstep
    obtain ⟨-, rfl⟩ := hstep
    exact stateOf_update_of_ne hinj fun heq => hq (by rw [heq]; rfl)
  | clear p olds =>
    simp only [Table.step, Option.ite_none_right_eq_some, Option.some.injEq] at hstep
    obtain ⟨-, rfl⟩ := hstep
    exact stateOf_clear_of_ne hinj fun heq => hq (by rw [heq]; rfl)
  | get hostname =>
    cases hstep
    rw [stateOf, (getPeerForHostname_frame u hostname t).1]
    rfl

theorem Distinct.step (hinj : Function.Injective addr) {call : Call Peer} {t' : Table Peer Addr}
    (h : t.Distinct addr) (hstep : t.step addr u call = some t') : t'.Distinct addr := by
  cases call with
  | update p version hostnames news olds =>
    simp only [Table.step, Option.ite_none_right_eq_some, Option.some.injEq] at hstep
    obtain ⟨hsets, rfl⟩ := hstep
    exact h.update hinj hsets
  | clear p olds =>
    simp only [Table.step, Option.ite_none_right_eq_some, Option.some.injEq] at hstep
    obtain ⟨holds, rfl⟩ := hstep
    exact (clearRoutesForPeer_removed (u := u) hinj h holds).distinct
  | get hostname =>
    cases hstep
    exact h.get hostname

theorem ReflectsPeer.step_of_ne (hinj : Function.Injective addr) (hd : t.Distinct addr)
    {call : Call Peer} {t' : Table Peer Addr} (h : t.ReflectsPeer addr u q state)
    (hq : call.peer ≠ some q) (hstep : t.step addr u call = some t') :
    t'.ReflectsPeer addr u q state := by
  cases call with
  | update p version hostnames news olds =>
    simp only [Table.step, Option.ite_none_right_eq_some, Option.some.injEq] at hstep
    obtain ⟨hsets, rfl⟩ := hstep
    exact h.update_of_ne hinj hd (fun heq => hq (by rw [heq]; rfl)) hsets
  | clear p olds =>
    simp only [Table.step, Option.ite_none_right_eq_some, Option.some.injEq] at hstep
    obtain ⟨holds, rfl⟩ := hstep
    exact h.clear_of_ne hinj hd (fun heq => hq (by rw [heq]; rfl)) holds
  | get hostname =>
    cases hstep
    exact h.get hostname

section Run
variable [DecidableEq Peer] {a : Latest Peer}

theorem apply_of_ne {call : Call Peer} (hq : call.peer ≠ some q) : Latest.apply a call q = a q := by
  cases call with
  | update p version hostnames news olds =>
    have hne : q ≠ p := fun heq => hq (by rw [heq]; rfl)
    rw [Latest.apply]
    split_ifs
    · rfl
    · exact Function.update_of_ne hne _ _
  | clear p olds =>
    have hne : q ≠ p := fun heq => hq (by rw [heq]; rfl)
    exact Function.update_of_ne hne _ _
  | get hostname => rfl

theorem Reflects.step (hinj : Function.Injective addr) {call : Call Peer} {t' : Table Peer Addr}
    (h : t.Reflects addr u a) (hkeep : t.KeepsSuffixes addr u call)
    (hstep : t.step addr u call = some t') : t'.Reflects addr u (Latest.apply a call) := by
  refine ⟨h.distinct.step hinj hstep, fun q => ?_⟩
  by_cases hq : call.peer = some q
  · cases call with
    | update p version hostnames news olds =>
      obtain rfl : p = q := Option.some.inj hq
      simp only [Table.step, Option.ite_none_right_eq_some, Option.some.injEq] at hstep
      simp only [KeepsSuffixes] at hkeep
      rw [(h.peers p).known] at hstep hkeep
      obtain ⟨hsets, rfl⟩ := hstep
      rw [Latest.apply]
      split_ifs with hstale
      · exact (h.peers p).update_stale hstale
      · obtain ⟨hnews, holds⟩ := hsets.resolve_left hstale
        rw [Function.update_self]
        exact (h.peers p).update hinj h.distinct (not_le.mp hstale) hnews holds
          (hkeep (not_le.mp hstale))
    | clear p olds =>
      obtain rfl : p = q := Option.some.inj hq
      rw [Table.step, (h.peers p).known] at hstep
      simp only [Option.ite_none_right_eq_some, Option.some.injEq] at hstep
      obtain ⟨holds, rfl⟩ := hstep
      rw [Latest.apply, Function.update_self]
      exact (h.peers p).clear hinj h.distinct holds
    | get hostname => cases hq
  · rw [apply_of_ne hq]
    exact (h.peers q).step_of_ne hinj h.distinct hq hstep

end Run

/-- `GetPeerForHostname` returns a peer exactly if some peer announces the name or a wildcard
that covers it, and one that announces the name if there is one. -/
structure RoutesByAnnouncement (u : Unicode) (t : Table Peer Addr) (a : Latest Peer) : Prop where
  returns : ∀ hostname, (∃ p, (t.getPeerForHostname u hostname).1 = some p) ↔
    (∃ p, (a p).AnnouncesExactly u hostname) ∨
      ∃ suffix ∈ firstDotSuffix u hostname, ∃ p, (a p).AnnouncesWildcard u suffix
  prefers_exact : ∀ hostname, (∃ p, (a p).AnnouncesExactly u hostname) →
    ∃ p, (t.getPeerForHostname u hostname).1 = some p ∧ (a p).AnnouncesExactly u hostname

theorem Reflects.routes {a : Latest Peer} (h : t.Reflects addr u a) :
    t.RoutesByAnnouncement u a where
  returns hostname := by
    simp only [← (h.peers _).exact, ← (h.peers _).wildcard]
    constructor
    · rintro ⟨p, hp⟩
      rcases getPeerForHostname_eq_some hp with hexact | ⟨-, suffix, hsuffix, hwildcard⟩
      · exact Or.inl ⟨p, hexact⟩
      · exact Or.inr ⟨suffix, hsuffix, p, hwildcard⟩
    · exact getPeerForHostname_isSome
  prefers_exact hostname := by
    simp only [← (h.peers _).exact]
    intro hexact
    obtain ⟨p, hp⟩ := getPeerForHostname_isSome (Or.inl hexact)
    refine ⟨p, hp, (getPeerForHostname_eq_some hp).resolve_right ?_⟩
    rintro ⟨hnobody, -⟩
    obtain ⟨q, hq⟩ := hexact
    exact hnobody q hq

/-- After any calls the table is the one of the latest accepted announcements. -/
theorem table_reflects_latest [DecidableEq Peer] (hinj : Function.Injective addr)
    {calls : List (Call Peer)}
    (hcalls : Transition.Along (step addr u) (KeepsSuffixes addr u) new calls)
    (hrun : Transition.run (step addr u) new calls = some t) :
    t.Reflects addr u (latest calls) ∧ t.RoutesByAnnouncement u (latest calls) := by
  have h : t.Reflects addr u (latest calls) :=
    Transition.simulation_along (R := Reflects addr u) (f := Latest.apply)
      (fun _ _ _ _ h hkeep hstep => h.step hinj hkeep hstep) new_reflects hcalls hrun
  exact ⟨h, h.routes⟩

end Reflects

end Table

/-- ASCII names, where `idna.Lookup.ToASCII` rejects everything. -/
def asciiNames : Unicode := ⟨(· == ' '), Char.toLower, fun _ => none⟩

def wildcardThenName : List (Call ℕ) :=
  [.update 0 1 ["*.example.com".toList] ["*.example.com".toList] [],
    .update 0 2 ["*.example.com".toList, "b.com".toList] ["b.com".toList, "*.example.com".toList]
      ["*.example.com".toList]]

theorem wildcardThenName_reflected :
    ∃ t : Table ℕ ℕ, Transition.run (Table.step id asciiNames) .new wildcardThenName = some t ∧
      t.Reflects id asciiNames (latest wildcardThenName) ∧
      t.RoutesByAnnouncement asciiNames (latest wildcardThenName) := by
  have hex : ∃ t : Table ℕ ℕ,
      Transition.run (Table.step id asciiNames) .new wildcardThenName = some t ∧ True :=
    Transition.exists_run_of_any (by decide +kernel)
  obtain ⟨t, hrun, -⟩ := hex
  exact ⟨t, hrun, Table.table_reflects_latest Function.injective_id (by decide +kernel) hrun⟩

/-- A peer that announces one wildcard with a space at its end, and then without. -/
def spacedWildcard : List (Call ℕ) :=
  [.update 0 1 ["*.a.b ".toList] ["*.a.b ".toList] [],
    .update 0 2 ["*.a.b".toList] ["*.a.b".toList] ["*.a.b ".toList]]

/-- The peer announces the suffix and is not in its list: the entry that was dropped took it
away. -/
theorem spacedWildcard_lost :
    ∃ t : Table ℕ ℕ, Transition.run (Table.step id asciiNames) .new spacedWildcard = some t ∧
      (latest spacedWildcard 0).AnnouncesWildcard asciiNames ".a.b".toList ∧
      t.wildcardRoutes.members ".a.b".toList = [] ∧
      (t.getPeerForHostname asciiNames "x.a.b".toList).1 = none :=
  Transition.exists_run_of_any (by decide +kernel)

end NexusProxy.Routing
