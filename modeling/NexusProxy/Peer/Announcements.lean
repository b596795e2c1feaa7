import NexusProxy.Hub.LocalRoutes
import NexusProxy.Lib.Collections
import NexusProxy.Routing.Table

/-! Route announcements between two nodes. Goroutines of node A register and unregister
backends, change by change, and announce the routes of the node; node B files what arrives over
one connection, in any order. -/
namespace NexusProxy.Peer.Announcements
open Hub Hostnames Protocol Routing Collections

section Changes
variable {f : FloatAbs} (u : Unicode)

/-- The two maps of pools of the hub. -/
inductive PoolMap where
  | pools
  | wildcardPools
  deriving DecidableEq

def PoolMap.of (h : HubImpl f) : PoolMap → Pools f
  | .pools => h.pools
  | .wildcardPools => h.wildcardPools

def PoolMap.modify (op : Pools f → Pools f) (h : HubImpl f) : PoolMap → HubImpl f
  | .pools => { h with pools := op h.pools }
  | .wildcardPools => { h with wildcardPools := op h.wildcardPools }

/-- How `GetLocalRoutes` renders a key. -/
def PoolMap.render : PoolMap → List Char → List Char
  | .pools, key => key
  | .wildcardPools, key => '*' :: key

/-- One access to a map: `LoadOrStore`, and `AddBackend` or `RemoveBackend` on a pool. -/
inductive Change where
  | create (m : PoolMap) (key : List Char)
  | add (m : PoolMap) (key : List Char) (b : Backend)
  | remove (m : PoolMap) (key : List Char) (b : Backend)

def Change.apply (h : HubImpl f) : Change → HubImpl f
  | .create m key => m.modify (fun pools => pools.insert key ((pools.lookup key).getD .new)) h
  | .add m key b => m.modify (Pools.addTo b · key) h
  | .remove m key b => m.modify (Pools.removeFrom b · key) h

/-- The pools that `register` and `unregister` go through, in their order. -/
def claims (b : Backend) : List (PoolMap × List Char) :=
  b.hostnames.map (fun hn =>
    match wildcardSuffix u hn with
    | some suffix => (.wildcardPools, suffix)
    | none => (.pools, hn)) ++
  b.tcpPorts.map (fun port => (.pools, routeKey .tcp port)) ++
  b.udpRoutes.map fun route => (.pools, routeKey .udp route.port)

/-- What ends in an announcement; a new connection changes no pool. -/
inductive Operation where
  | register (b : Backend)
  | unregister (b : Backend)
  | connect

def changes : Operation → List Change
  | .register b => (claims u b).flatMap fun claim =>
      [.create claim.1 claim.2, .add claim.1 claim.2 b]
  | .unregister b => (claims u b).map fun claim => .remove claim.1 claim.2 b
  | .connect => []

variable {u}

theorem foldl_claims (op : Pools f → List Char → Pools f) (b : Backend) (h : HubImpl f) :
    (claims u b).foldl (fun h claim => claim.1.modify (op · claim.2) h) h =
      h.forEachClaim u op b := by
  have hname : (fun (h : HubImpl f) hn =>
      PoolMap.modify (op · (match wildcardSuffix u hn with
        | some suffix => (PoolMap.wildcardPools, suffix)
        | none => (.pools, hn)).2) h (match wildcardSuffix u hn with
        | some suffix => (PoolMap.wildcardPools, suffix)
        | none => (.pools, hn)).1) = fun h hn =>
      match wildcardSuffix u hn with
      | some suffix => { h with wildcardPools := op h.wildcardPools suffix }
      | none => { h with pools := op h.pools hn } := by
    funext h hn
    cases wildcardSuffix u hn <;> rfl
  rw [claims, List.foldl_append, List.foldl_append, List.foldl_map, List.foldl_map, List.foldl_map,
    hname]
  rfl

/-- Taken one after the other, the changes of a registration register the backend. -/
theorem foldl_changes_register (b : Backend) (h : HubImpl f) :
    (changes u (.register b)).foldl Change.apply h = h.register u b := by
  have hpool (m : PoolMap) (key : List Char) (h : HubImpl f) :
      Change.apply (Change.apply h (.create m key)) (.add m key b) =
        m.modify (Pools.addTo b · key) h := by
    cases m <;>
      simp only [Change.apply, PoolMap.modify, Pools.addTo, AList.lookup_insert,
        Option.getD_some, AList.insert_insert]
  rw [changes, List.foldl_flatMap, HubImpl.register, ← foldl_claims]
  simp only [List.foldl_cons, List.foldl_nil, hpool]

theorem foldl_changes_unregister (b : Backend) (h : HubImpl f) :
    (changes u (.unregister b)).foldl Change.apply h = h.unregister u b := by
  rw [changes, List.foldl_map, HubImpl.unregister, ← foldl_claims]
  rfl

end Changes

/-- A goroutine of node A: its pool changes, then `AnnounceLocalRoutes`. `pending` are the keys
that the iteration over a map still has to visit. -/
inductive Phase where
  | changing (todo : List Change)
  | versioned (version : ℕ)
  | ranging (version : ℕ) (m : PoolMap) (pending visited routes : List (List Char))
  | sending (version : ℕ) (routes : List (List Char))
  | done

instance (phase : Phase) : Decidable (phase = .done) :=
  match phase with
  | .done => isTrue rfl
  | .changing _ | .versioned _ | .ranging .. | .sending .. => isFalse nofun

/-- Node A, the connection, and the table of node B. -/
structure Mesh (f : FloatAbs) (Peer Addr : Type) where
  hub : HubImpl f
  localVersion : ℕ
  operations : List Phase
  connected : Bool
  inFlight : List (ℕ × List (List Char))
  table : Table Peer Addr

inductive Action (Peer : Type) where
  | start (op : Operation)
  | change (i : ℕ)
  | addVersion (i : ℕ)
  | beginRange (i : ℕ)
  | visit (i : ℕ) (key : List Char)
  | endRange (i : ℕ)
  | send (i : ℕ)
  | deliver (k : ℕ) (news olds : List (List Char))
  | other (call : Call Peer)

namespace Mesh
variable {f : FloatAbs} {Peer Addr : Type} [DecidableEq Addr]
  (addr : Peer → Addr) (u : Unicode) (p : Peer)

def start : Mesh f Peer Addr := ⟨⟨∅, ∅⟩, 0, [], false, [], .new⟩

def setPhase (s : Mesh f Peer Addr) (i : ℕ) (phase : Phase) : Mesh f Peer Addr :=
  { s with operations := s.operations.set i phase }

/-- The routes found so far, when the iteration visits a key. -/
def collect (s : Mesh f Peer Addr) (m : PoolMap) (key : List Char) (routes : List (List Char)) :
    List (List Char) :=
  match (m.of s.hub).lookup key with
  | some pool => if pool.hasBackends then routes ++ [m.render key] else routes
  | none => routes

/-- Node A is the peer `p` of node B, whose other peers call on the table as well. An iteration
visits every key that was in the map when it began, and may visit keys that came later. -/
def step [DecidableEq Peer] (s : Mesh f Peer Addr) : Action Peer → Option (Mesh f Peer Addr)
  | .start op => some { s with
      operations := s.operations ++ [.changing (changes u op)]
      connected := match op with
        | .connect => true
        | _ => s.connected }
  | .change i =>
      match s.operations[i]? with
      | some (.changing (c :: todo)) =>
          some { s.setPhase i (.changing todo) with hub := c.apply s.hub }
      | _ => none
  | .addVersion i =>
      match s.operations[i]? with
      | some (.changing []) => some
          { s.setPhase i (.versioned (s.localVersion + 1)) with localVersion := s.localVersion + 1 }
      | _ => none
  | .beginRange i =>
      match s.operations[i]? with
      | some (.versioned v) => some (s.setPhase i (.ranging v .pools s.hub.pools.keys [] []))
      | _ => none
  | .visit i key =>
      match s.operations[i]? with
      | some (.ranging v m pending visited routes) =>
          if key ∈ m.of s.hub ∧ key ∉ visited then
            some (s.setPhase i
              (.ranging v m (pending.erase key) (key :: visited) (s.collect m key routes)))
          else none
      | _ => none
  | .endRange i =>
      match s.operations[i]? with
      | some (.ranging v .pools [] _ routes) =>
          some (s.setPhase i (.ranging v .wildcardPools s.hub.wildcardPools.keys [] routes))
      | some (.ranging v .wildcardPools [] _ routes) => some (s.setPhase i (.sending v routes))
      | _ => none
  | .send i =>
      match s.operations[i]? with
      | some (.sending v routes) => some
          { s.setPhase i .done with
            inFlight := if s.connected then s.inFlight ++ [(v, routes)] else s.inFlight }
      | _ => none
  | .deliver k news olds =>
      match s.inFlight[k]? with
      | some (v, routes) =>
          (s.table.step addr u (.update p v routes news olds)).map fun table =>
            { s with table := table, inFlight := s.inFlight.eraseIdx k }
      | none => none
  | .other call =>
      if call.peer ≠ some p then
        (s.table.step addr u call).map fun table => { s with table := table }
      else none

/-- The steps of a goroutine that reads the hub. -/
inductive Reads (s : Mesh f Peer Addr) : Phase → Phase → Prop where
  | begins (v : ℕ) : Reads s (.versioned v) (.ranging v .pools s.hub.pools.keys [] [])
  | visits (v : ℕ) (m : PoolMap) (pending visited routes : List (List Char)) {key : List Char}
      (hkey : key ∈ m.of s.hub) : Reads s (.ranging v m pending visited routes)
        (.ranging v m (pending.erase key) (key :: visited) (s.collect m key routes))
  | turns (v : ℕ) (visited routes : List (List Char)) :
      Reads s (.ranging v .pools [] visited routes)
        (.ranging v .wildcardPools s.hub.wildcardPools.keys [] routes)
  | ends (v : ℕ) (visited routes : List (List Char)) :
      Reads s (.ranging v .wildcardPools [] visited routes) (.sending v routes)

/-- What a step can do, where the operations that are started are of a kind `Q`. -/
inductive Effect (Q : Operation → Prop) (s : Mesh f Peer Addr) : Mesh f Peer Addr → Prop where
  | starts (op : Operation) (connected : Bool) (hop : Q op) :
      Effect Q s { s with
        operations := s.operations ++ [.changing (changes u op)], connected := connected }
  | changes {i : ℕ} {c : Change} {todo : List Change}
      (hi : s.operations[i]? = some (.changing (c :: todo))) :
      Effect Q s { s.setPhase i (.changing todo) with hub := c.apply s.hub }
  | versions {i : ℕ} (hi : s.operations[i]? = some (.changing [])) :
      Effect Q s { s.setPhase i (.versioned (s.localVersion + 1)) with
        localVersion := s.localVersion + 1 }
  | reads {i : ℕ} {phase phase' : Phase} (hi : s.operations[i]? = some phase)
      (hreads : s.Reads phase phase') : Effect Q s (s.setPhase i phase')
  | sends {i v : ℕ} {routes : List (List Char)} (hi : s.operations[i]? = some (.sending v routes)) :
      Effect Q s { s.setPhase i .done with
        inFlight := if s.connected then s.inFlight ++ [(v, routes)] else s.inFlight }
  | delivers {k v : ℕ} {routes news olds : List (List Char)} {table : Table Peer Addr}
      (hk : s.inFlight[k]? = some (v, routes))
      (htable : s.table.step addr u (.update p v routes news olds) = some table) :
      Effect Q s { s with table := table, inFlight := s.inFlight.eraseIdx k }
  | calls {call : Call Peer} {table : Table Peer Addr} (hcall : call.peer ≠ some p)
      (htable : s.table.step addr u call = some table) : Effect Q s { s with table := table }

variable {addr u p} {Q : Operation → Prop} {s t : Mesh f Peer Addr}

theorem step_effect [DecidableEq Peer] {a : Action Peer} (hQ : ∀ op, a = .start op → Q op)
    (h : s.step addr u p a = some t) : Effect addr u p Q s t := by
  cases a with
  | start op =>
    cases h
    exact .starts op _ (hQ op rfl)
  | change i =>
    rw [step] at h
    split at h
    · next hi => exact Option.some.inj h ▸ .changes hi
    · cases h
  | addVersion i =>
    rw [step] at h
    split at h
    · next hi => exact Option.some.inj h ▸ .versions hi
    · cases h
  | beginRange i =>
    rw [step] at h
    split at h
    · next hi => exact Option.some.inj h ▸ .reads hi (.begins _)
    · cases h
  | visit i key =>
    rw [step] at h
    split at h
    · next hi =>
      split_ifs at h with hkey
      exact Option.some.inj h ▸ .reads hi (.visits _ _ _ _ _ hkey.1)
    · cases h
  | endRange i =>
    rw [step] at h
    split at h
    · next hi => exact Option.some.inj h ▸ .reads hi (.turns _ _ _)
    · next hi => exact Option.some.inj h ▸ .reads hi (.ends _ _ _)
    · cases h
  | send i =>
    rw [step] at h
    split at h
    · next hi => exact Option.some.inj h ▸ .sends hi
    · cases h
  | deliver k news olds =>
    rw [step] at h
    split at h
    · next hk =>
      obtain ⟨table, htable, rfl⟩ := Option.map_eq_some_iff.mp h
      exact .delivers hk htable
    · cases h
  | other call =>
    rw [step] at h
    split_ifs at h with hcall
    obtain ⟨table, htable, rfl⟩ := Option.map_eq_some_iff.mp h
    exact .calls hcall htable

section Current
omit [DecidableEq Addr]

def isChanging : Phase → Bool
  | .changing _ => true
  | _ => false

/-- Every operation has made its changes and taken its version. -/
def Settled (s : Mesh f Peer Addr) : Prop :=
  Each (fun _ phase => isChanging phase = false) s.operations

/-- Nothing has changed since the version was taken: the version is the last one, and nobody is
about to take another. -/
def Current (s : Mesh f Peer Addr) (v : ℕ) : Prop := v = s.localVersion ∧ s.Settled

/-- A set of routes is the one of the hub, if its version is current. -/
structure Accurate (s : Mesh f Peer Addr) (v : ℕ) (R : List Char → Prop) : Prop where
  le : v ≤ s.localVersion
  routes : s.Current v → ∀ route, R route ↔ route ∈ s.hub.getLocalRoutes

/-- The routes that the visits so far have found, if the hub has not changed since. -/
def Found (h : HubImpl f) (visited : List (List Char)) : PoolMap → List Char → Prop
  | .pools, route => route ∈ visited ∧ route ∈ h.pools.announced
  | .wildcardPools, route => route ∈ h.pools.announced ∨
      ∃ key ∈ visited, key ∈ h.wildcardPools.announced ∧ route = '*' :: key

def Sound (s : Mesh f Peer Addr) : Phase → Prop
  | .changing _ | .done => True
  | .versioned v => v ≤ s.localVersion
  | .ranging v m pending visited routes => v ≤ s.localVersion ∧ (s.Current v →
      (∀ key ∈ m.of s.hub, key ∈ pending ∨ key ∈ visited) ∧
        ∀ route, route ∈ routes ↔ Found s.hub visited m route)
  | .sending v routes => s.Accurate v (· ∈ routes)

/-- No version that is current now was outdated before. -/
structure Renews (s t : Mesh f Peer Addr) : Prop where
  le : s.localVersion ≤ t.localVersion
  current : ∀ v ≤ s.localVersion, t.Current v → s.Current v ∧ t.hub = s.hub

variable {s t : Mesh f Peer Addr}

theorem Accurate.renew {v : ℕ} {R : List Char → Prop} (h : s.Accurate v R) (hst : Renews s t) :
    t.Accurate v R where
  le := h.le.trans hst.le
  routes hcur := by
    obtain ⟨hold, hhub⟩ := hst.current v h.le hcur
    rw [hhub]
    exact h.routes hold

theorem Sound.renew {phase : Phase} (h : s.Sound phase) (hst : Renews s t) : t.Sound phase := by
  cases phase with
  | changing todo => trivial
  | versioned v => exact Nat.le_trans h hst.le
  | ranging v m pending visited routes =>
    refine ⟨h.1.trans hst.le, fun hcur => ?_⟩
    obtain ⟨hold, hhub⟩ := hst.current v h.1 hcur
    rw [hhub]
    exact h.2 hold
  | sending v routes => exact Accurate.renew h hst
  | done => trivial

theorem mem_collect (s : Mesh f Peer Addr) (m : PoolMap) (key : List Char)
    (routes : List (List Char)) (route : List Char) :
    route ∈ s.collect m key routes ↔
      route ∈ routes ∨ key ∈ (m.of s.hub).announced ∧ route = m.render key := by
  rw [Pools.mem_announced_iff_lookup, collect]
  cases (m.of s.hub).lookup key with
  | none => simp
  | some pool => by_cases h : pool.hasBackends <;> simp [h]

theorem mem_getLocalRoutes (h : HubImpl f) (route : List Char) :
    route ∈ h.getLocalRoutes ↔ route ∈ h.pools.announced ∨
      ∃ key ∈ h.wildcardPools.announced, route = '*' :: key := by
  rw [HubImpl.getLocalRoutes, List.mem_append, List.mem_map]
  simp only [eq_comm]

theorem mem_of_announced {m : Pools f} {key : List Char} (h : key ∈ m.announced) : key ∈ m := by
  obtain ⟨pool, hpool, -⟩ := (Pools.mem_announced_iff_lookup m key).mp h
  exact AList.lookup_isSome.mp (by rw [hpool]; rfl)

theorem Reads.sound {phase phase' : Phase} (h : s.Sound phase) (hreads : s.Reads phase phase') :
    s.Sound phase' := by
  cases hreads with
  | begins v => exact ⟨h, fun _ => ⟨fun key hkey => Or.inl hkey, by simp [Found]⟩⟩
  | visits v m pending visited routes hkey =>
    rename_i key
    refine ⟨h.1, fun hcur => ?_⟩
    obtain ⟨hcover, hfound⟩ := h.2 hcur
    constructor
    · intro k hk
      by_cases heq : k = key
      · exact Or.inr (heq ▸ List.mem_cons_self)
      · exact (hcover k hk).imp (List.mem_erase_of_ne heq).mpr (List.mem_cons_of_mem key)
    · intro route
      rw [mem_collect, hfound]
      cases m with
      | pools =>
        simp only [Found, PoolMap.of, PoolMap.render, List.mem_cons]
        constructor
        · rintro (⟨hv, ha⟩ | ⟨ha, rfl⟩)
          · exact ⟨Or.inr hv, ha⟩
          · exact ⟨Or.inl rfl, ha⟩
        · rintro ⟨rfl | hv, ha⟩
          · exact Or.inr ⟨ha, rfl⟩
          · exact Or.inl ⟨hv, ha⟩
      | wildcardPools =>
        simp only [Found, PoolMap.of, PoolMap.render, List.mem_cons, or_and_right, exists_or,
          exists_eq_left, or_assoc]
        exact or_congr_right or_comm
  | turns v visited routes =>
    refine ⟨h.1, fun hcur => ?_⟩
    obtain ⟨hcover, hfound⟩ := h.2 hcur
    refine ⟨fun key hkey => Or.inl hkey, fun route => ?_⟩
    rw [hfound]
    simp only [Found, List.not_mem_nil, false_and, exists_false, or_false]
    constructor
    · exact And.right
    · intro ha
      exact ⟨(hcover route (mem_of_announced ha)).resolve_left List.not_mem_nil, ha⟩
  | ends v visited routes =>
    refine ⟨h.1, fun hcur route => ?_⟩
    obtain ⟨hcover, hfound⟩ := h.2 hcur
    rw [hfound, mem_getLocalRoutes]
    simp only [Found]
    constructor
    · rintro (ha | ⟨key, -, ha, rfl⟩)
      · exact Or.inl ha
      · exact Or.inr ⟨key, ha, rfl⟩
    · rintro (ha | ⟨key, ha, rfl⟩)
      · exact Or.inl ha
      · have hvisited := (hcover key (mem_of_announced ha)).resolve_left List.not_mem_nil
        exact Or.inr ⟨key, hvisited, ha, rfl⟩

theorem settled_of_setPhase {i : ℕ} {phase phase' : Phase} (hi : s.operations[i]? = some phase)
    (hphase : isChanging phase = false) (h : (s.setPhase i phase').Settled) : s.Settled := by
  intro j x hx
  by_cases hj : j = i
  · subst hj
    rw [hi] at hx
    exact Option.some.inj hx ▸ hphase
  · exact h j x (by rw [setPhase, List.getElem?_set_ne (Ne.symm hj), hx])

theorem Reads.isChanging_eq {phase phase' : Phase} (h : s.Reads phase phase') :
    isChanging phase = false := by
  cases h <;> rfl

end Current

section Convergence

/-- The goroutine has the version or will take one. -/
def Carries (v : ℕ) : Phase → Prop
  | .changing _ => True
  | .versioned w | .ranging w _ _ _ _ | .sending w _ => w = v
  | .done => False

/-- Announcements are accurate wherever they are, and the last version is on its way to node B
or has arrived there. -/
structure Tracks (addr : Peer → Addr) (p : Peer) (s : Mesh f Peer Addr) : Prop where
  phases : Each (fun _ phase => s.Sound phase) s.operations
  messages : ∀ m ∈ s.inFlight, s.Accurate m.1 (· ∈ m.2)
  recorded : s.Accurate (s.table.stateOf addr p).version (· ∈ (s.table.stateOf addr p).hostnames)
  carried : s.connected = true → Any (Carries s.localVersion) s.operations ∨
    (∃ m ∈ s.inFlight, m.1 = s.localVersion) ∨
      (s.table.stateOf addr p).version = s.localVersion

theorem start_tracks : (start : Mesh f Peer Addr).Tracks addr p where
  phases := Each.nil
  messages _ h := nomatch h
  recorded := ⟨le_rfl, fun _ route => by
    simp [start, Table.stateOf, Table.new, PeerState.unknown, HubImpl.getLocalRoutes,
      Pools.announced]⟩
  carried h := nomatch h

omit [DecidableEq Addr] in
/-- A step that leaves the versions alone, and after which the node is settled only if it was
before and the hub has not changed. -/
theorem Renews.of_settled (hversion : t.localVersion = s.localVersion)
    (h : t.Settled → s.Settled ∧ t.hub = s.hub) : Renews s t where
  le := hversion.ge
  current _ _ hcur := ⟨⟨hcur.1.trans hversion, (h hcur.2).1⟩, (h hcur.2).2⟩

theorem Effect.renews (h : Effect addr u p Q s t) : Renews s t := by
  cases h with
  | starts op connected hop =>
    refine .of_settled rfl fun hset => ?_
    have hlast := hset s.operations.length (.changing (Announcements.changes u op)) (by simp)
    cases hlast
  | changes hi =>
    rename_i i c todo
    refine .of_settled rfl fun hset => ?_
    have hlt : i < s.operations.length := (List.getElem?_eq_some_iff.mp hi).1
    have hself := hset i (.changing todo) (by simp [setPhase, hlt])
    cases hself
  | versions hi =>
    exact ⟨Nat.le_succ _, fun v hv hcur => absurd hcur.1 (Nat.ne_of_lt (Nat.lt_succ_of_le hv))⟩
  | reads hi hreads =>
    exact .of_settled rfl fun hset => ⟨settled_of_setPhase hi hreads.isChanging_eq hset, rfl⟩
  | sends hi => exact .of_settled rfl fun hset => ⟨settled_of_setPhase hi rfl hset, rfl⟩
  | delivers hk htable => exact .of_settled rfl fun hset => ⟨hset, rfl⟩
  | calls hcall htable => exact .of_settled rfl fun hset => ⟨hset, rfl⟩

omit [DecidableEq Addr] in
theorem Reads.carries {phase phase' : Phase} (h : s.Reads phase phase') {v : ℕ}
    (hphase : Carries v phase) : Carries v phase' := by
  cases h <;> exact hphase

theorem Effect.phases (h : Effect addr u p Q s t)
    (hs : Each (fun _ phase => s.Sound phase) s.operations) :
    Each (fun _ phase => t.Sound phase) t.operations := by
  have hrenew := h.renews
  have hothers : ∀ (i j : ℕ) (x : Phase), j ≠ i → s.operations[j]? = some x → s.Sound x →
      t.Sound x := fun _ _ _ _ _ hx => hx.renew hrenew
  cases h with
  | starts op connected hop => exact hs.concat trivial fun _ _ _ hx => Sound.renew hx hrenew
  | changes hi => exact hs.set trivial (hothers _)
  | versions hi => exact hs.set (Nat.le_refl _) (hothers _)
  | reads hi hreads => exact hs.set (Sound.renew (hreads.sound (hs _ _ hi)) hrenew) (hothers _)
  | sends hi => exact hs.set trivial (hothers _)
  | delivers hk htable => exact fun i x hx => Sound.renew (hs i x hx) hrenew
  | calls hcall htable => exact fun i x hx => Sound.renew (hs i x hx) hrenew

theorem Effect.messages (h : Effect addr u p Q s t)
    (hphases : Each (fun _ phase => s.Sound phase) s.operations)
    (hs : ∀ m ∈ s.inFlight, s.Accurate m.1 (· ∈ m.2)) :
    ∀ m ∈ t.inFlight, t.Accurate m.1 (· ∈ m.2) := by
  have hrenew := h.renews
  have hkept : ∀ m ∈ s.inFlight, t.Accurate m.1 (· ∈ m.2) := fun m hm => (hs m hm).renew hrenew
  cases h with
  | starts op connected hop => exact hkept
  | changes hi => exact hkept
  | versions hi => exact hkept
  | reads hi hreads => exact hkept
  | sends hi =>
    rename_i i v routes
    intro m hm
    dsimp only at hm
    split_ifs at hm
    · rcases List.mem_append.mp hm with hm | hm
      · exact hkept m hm
      · have hself : s.Accurate v (· ∈ routes) := hphases i _ hi
        obtain rfl := List.mem_singleton.mp hm
        exact hself.renew hrenew
    · exact hkept m hm
  | delivers hk htable => exact fun m hm => hkept m (List.mem_of_mem_eraseIdx hm)
  | calls hcall htable => exact hkept

/-- Of two announcements the table keeps the one with the higher version. -/
theorem Effect.recorded (hinj : Function.Injective addr) (h : Effect addr u p Q s t)
    (hmessages : ∀ m ∈ s.inFlight, s.Accurate m.1 (· ∈ m.2))
    (hs : s.Accurate (s.table.stateOf addr p).version
      (· ∈ (s.table.stateOf addr p).hostnames)) :
    t.Accurate (t.table.stateOf addr p).version (· ∈ (t.table.stateOf addr p).hostnames) := by
  have hrenew := h.renews
  have hkept := hs.renew hrenew
  cases h with
  | starts op connected hop => exact hkept
  | changes hi => exact hkept
  | versions hi => exact hkept
  | reads hi hreads => exact hkept
  | sends hi => exact hkept
  | delivers hk htable =>
    rename_i k v routes news olds table
    simp only [Table.step, Option.ite_none_right_eq_some, Option.some.injEq] at htable
    obtain ⟨-, rfl⟩ := htable
    dsimp only
    by_cases hstale : v ≤ (s.table.stateOf addr p).version
    · rw [Table.stateOf_update_stale hstale]
      exact hkept
    · have hself := (hmessages _ (List.mem_of_getElem? hk)).renew hrenew
      rw [Table.stateOf_update (not_le.mp hstale)]
      simpa only [List.mem_toFinset] using hself
  | calls hcall htable =>
    rename_i call table
    dsimp only
    rw [Table.stateOf_step_of_ne hinj hcall htable]
    exact hkept

theorem Effect.carried (h : Effect addr u p Q s t)
    (hrecorded : (s.table.stateOf addr p).version ≤ s.localVersion)
    (hmessages : ∀ m ∈ s.inFlight, m.1 ≤ s.localVersion) (hinj : Function.Injective addr)
    (hs : s.connected = true → Any (Carries s.localVersion) s.operations ∨
      (∃ m ∈ s.inFlight, m.1 = s.localVersion) ∨
        (s.table.stateOf addr p).version = s.localVersion) :
    t.connected = true → Any (Carries t.localVersion) t.operations ∨
      (∃ m ∈ t.inFlight, m.1 = t.localVersion) ∨
        (t.table.stateOf addr p).version = t.localVersion := by
  cases h with
  | starts op connected hop => exact fun _ => Or.inl (Any.last trivial)
  | changes hi =>
    intro hconn
    refine (hs hconn).imp_left fun hany => ?_
    exact hany.set hi (fun _ => trivial) fun _ hx => hx
  | versions hi =>
    intro _
    have hlt := (List.getElem?_eq_some_iff.mp hi).1
    exact Or.inl ⟨_, List.mem_set hlt _, rfl⟩
  | reads hi hreads =>
    intro hconn
    refine (hs hconn).imp_left fun hany => ?_
    exact hany.set hi hreads.carries fun _ hx => hx
  | sends hi =>
    rename_i i v routes
    intro hconn
    have hconn : s.connected = true := hconn
    dsimp only
    rw [if_pos hconn]
    rcases hs hconn with hany | ⟨m, hm, hv⟩ | hv
    · rcases hany.set_or hi .done with hv | hothers
      · exact Or.inr (Or.inl ⟨(v, routes), List.mem_concat_self, hv⟩)
      · exact Or.inl hothers
    · exact Or.inr (Or.inl ⟨m, List.mem_append_left _ hm, hv⟩)
    · exact Or.inr (Or.inr hv)
  | delivers hk htable =>
    rename_i k v routes news olds table
    have hv : v ≤ s.localVersion := hmessages _ (List.mem_of_getElem? hk)
    have hversion : (table.stateOf addr p).version = max v (s.table.stateOf addr p).version := by
      simp only [Table.step, Option.ite_none_right_eq_some, Option.some.injEq] at htable
      obtain ⟨-, rfl⟩ := htable
      by_cases hstale : v ≤ (s.table.stateOf addr p).version
      · rw [Table.stateOf_update_stale hstale, max_eq_right hstale]
      · rw [Table.stateOf_update (not_le.mp hstale), max_eq_left (not_le.mp hstale).le]
    intro hconn
    dsimp only
    rcases hs hconn with hany | ⟨m, hm, hlast⟩ | hlast
    · exact Or.inl hany
    · obtain ⟨j, hj⟩ := List.mem_iff_getElem?.mp hm
      by_cases hjk : j = k
      · subst hjk
        obtain rfl : m = (v, routes) := Option.some.inj (hj.symm.trans hk)
        exact Or.inr (Or.inr (by omega))
      · exact Or.inr (Or.inl ⟨m, List.mem_eraseIdx_iff_getElem?.mpr ⟨j, hjk, hj⟩, hlast⟩)
    · exact Or.inr (Or.inr (by omega))
  | calls hcall htable =>
    intro hconn
    dsimp only
    rw [Table.stateOf_step_of_ne hinj hcall htable]
    exact hs hconn

theorem Tracks.effect (hinj : Function.Injective addr) (hs : s.Tracks addr p)
    (h : Effect addr u p Q s t) : t.Tracks addr p where
  phases := h.phases hs.phases
  messages := h.messages hs.phases hs.messages
  recorded := h.recorded hinj hs.messages hs.recorded
  carried := h.carried hs.recorded.le (fun m hm => (hs.messages m hm).le) hinj hs.carried

/-- When everything is done and delivered, the table has the last version. -/
theorem Tracks.converged (hs : s.Tracks addr p) (hconn : s.connected = true)
    (hdone : ∀ phase ∈ s.operations, phase = .done) (hempty : s.inFlight = [])
    (route : List Char) :
    route ∈ (s.table.stateOf addr p).hostnames ↔ route ∈ s.hub.getLocalRoutes := by
  have hsettled : s.Settled := fun i phase hi => by rw [hdone phase (List.mem_of_getElem? hi)]; rfl
  have hlast : (s.table.stateOf addr p).version = s.localVersion := by
    rcases hs.carried hconn with ⟨phase, hmem, hcarries⟩ | ⟨m, hm, -⟩ | hlast
    · rw [hdone phase hmem] at hcarries
      exact hcarries.elim
    · rw [hempty] at hm
      cases hm
    · exact hlast
  exact hs.recorded.routes ⟨hlast, hsettled⟩ route

end Convergence

section Attribution

/-- A wildcard route is spelled with its canonical suffix. -/
def Canonical (u : Unicode) (route : List Char) : Prop :=
  ∀ suffix, wildcardSuffix u route = some suffix → route = '*' :: suffix

instance (u : Unicode) (route : List Char) : Decidable (Canonical u route) :=
  decidable_of_iff ((wildcardSuffix u route).all (fun suffix => route = '*' :: suffix) = true)
    (by cases h : wildcardSuffix u route <;> simp [Canonical, h])

def Change.route : Change → List Char
  | .create m key | .add m key _ | .remove m key _ => m.render key

def CanonicalPhase (u : Unicode) : Phase → Prop
  | .changing todo => ∀ c ∈ todo, Canonical u (Change.route c)
  | .ranging _ _ _ _ routes | .sending _ routes => ∀ route ∈ routes, Canonical u route
  | .versioned _ | .done => True

def CanonicalOperation (u : Unicode) (op : Operation) : Prop :=
  ∀ c ∈ changes u op, Canonical u (Change.route c)

instance (u : Unicode) (op : Operation) : Decidable (CanonicalOperation u op) :=
  inferInstanceAs (Decidable (∀ c ∈ changes u op, Canonical u (Change.route c)))

/-- Every route is canonical wherever it is, and the lists of the table are those of the last
accepted announcement. -/
structure Filed (addr : Peer → Addr) (u : Unicode) (p : Peer) (s : Mesh f Peer Addr) : Prop where
  keys : ∀ m key, key ∈ PoolMap.of s.hub m → Canonical u (m.render key)
  phases : Each (fun _ phase => CanonicalPhase u phase) s.operations
  messages : ∀ m ∈ s.inFlight, ∀ route ∈ m.2, Canonical u route
  recorded : ∀ route ∈ (s.table.stateOf addr p).hostnames, Canonical u route
  distinct : s.table.Distinct addr
  reflects : s.table.ReflectsPeer addr u p (s.table.stateOf addr p)

theorem start_filed : (start : Mesh f Peer Addr).Filed addr u p where
  keys m key hkey := by cases m <;> exact absurd hkey (AList.notMem_empty key)
  phases := Each.nil
  messages _ h := nomatch h
  recorded _ h := nomatch h
  distinct := (Table.new_reflects (u := u)).distinct
  reflects := Table.new_reflects.peers p

theorem mem_modify {m m' : PoolMap} {key key' : List Char} {h : HubImpl f}
    {op : Pools f → Pools f} (hop : ∀ pools k, k ∈ op pools → k ∈ pools ∨ k = key')
    (hkey : key ∈ m.of (m'.modify op h)) : key ∈ m.of h ∨ m.render key = m'.render key' := by
  cases m <;> cases m'
  · exact (hop _ _ hkey).imp_right (congrArg _)
  · exact Or.inl hkey
  · exact Or.inl hkey
  · exact (hop _ _ hkey).imp_right (congrArg _)

theorem mem_apply {m : PoolMap} {key : List Char} {h : HubImpl f} {c : Change}
    (hkey : key ∈ m.of (c.apply h)) : key ∈ m.of h ∨ m.render key = Change.route c := by
  have hinsert {key' : List Char} {pool : LoadBalancerPool f} (pools : Pools f) (k : List Char)
      (hk : k ∈ pools.insert key' pool) : k ∈ pools ∨ k = key' :=
    ((AList.mem_insert pools).mp hk).symm
  cases c with
  | create m' key' => exact mem_modify (fun pools k hk => hinsert pools k hk) hkey
  | add m' key' b => exact mem_modify (fun pools k hk => hinsert pools k hk) hkey
  | remove m' key' b =>
    refine mem_modify (fun pools k hk => ?_) hkey
    unfold Pools.removeFrom at hk
    split at hk
    · exact hinsert pools k hk
    · exact Or.inl hk

omit [DecidableEq Addr] in
theorem Reads.canonical {phase phase' : Phase}
    (hkeys : ∀ m key, key ∈ PoolMap.of s.hub m → Canonical u (m.render key))
    (h : CanonicalPhase u phase) (hreads : s.Reads phase phase') : CanonicalPhase u phase' := by
  cases hreads with
  | begins v => exact fun _ hroute => nomatch hroute
  | visits v m pending visited routes hkey =>
    intro route hroute
    rcases (mem_collect ..).mp hroute with hold | ⟨-, rfl⟩
    · exact h route hold
    · exact hkeys m _ hkey
  | turns v visited routes => exact h
  | ends v visited routes => exact h

theorem keepsSuffixes {hostnames : Finset (List Char)} {routes : List (List Char)}
    (hold : ∀ route ∈ hostnames, Canonical u route) (hnew : ∀ route ∈ routes, Canonical u route) :
    ∀ old ∈ hostnames, old ∉ routes → wildcardSuffix u old ≠ none →
      ∀ hn ∈ routes, wildcardSuffix u hn ≠ wildcardSuffix u old := by
  intro old hmem hdropped hwild hn hhn heq
  obtain ⟨suffix, hsuffix⟩ := Option.ne_none_iff_exists'.mp hwild
  have hspelling : hn = old :=
    (hnew hn hhn suffix (heq.trans hsuffix)).trans (hold old hmem suffix hsuffix).symm
  exact hdropped (hspelling ▸ hhn)

theorem Filed.deliver (hinj : Function.Injective addr) (hs : s.Filed addr u p) {v : ℕ}
    {routes news olds : List (List Char)} {table : Table Peer Addr}
    (hroutes : ∀ route ∈ routes, Canonical u route) (inFlight : List (ℕ × List (List Char)))
    (hsub : ∀ m ∈ inFlight, m ∈ s.inFlight)
    (htable : s.table.step addr u (.update p v routes news olds) = some table) :
    Filed addr u p { s with table := table, inFlight := inFlight } := by
  have hdistinct := hs.distinct.step hinj htable
  simp only [Table.step, Option.ite_none_right_eq_some, Option.some.injEq] at htable
  obtain ⟨hsets, rfl⟩ := htable
  have hmessages : ∀ m ∈ inFlight, ∀ route ∈ m.2, Canonical u route :=
    fun m hm => hs.messages m (hsub m hm)
  by_cases hstale : v ≤ (s.table.stateOf addr p).version
  · have hstate : (s.table.updateRoutesForPeer addr u p v routes news olds).stateOf addr p =
        s.table.stateOf addr p := Table.stateOf_update_stale hstale
    exact
      { hs with
        messages := hmessages
        recorded := by rw [hstate]; exact hs.recorded
        distinct := hdistinct
        reflects := by rw [hstate]; exact hs.reflects.update_stale hstale }
  · obtain ⟨hnews, holds⟩ := hsets.resolve_left hstale
    have hstate : (s.table.updateRoutesForPeer addr u p v routes news olds).stateOf addr p =
        ⟨v, routes.toFinset⟩ := Table.stateOf_update (not_le.mp hstale)
    exact
      { hs with
        messages := hmessages
        recorded := by
          rw [hstate]
          exact fun route hroute => hroutes route (List.mem_toFinset.mp hroute)
        distinct := hdistinct
        reflects := by
          rw [hstate]
          exact hs.reflects.update hinj hs.distinct (not_le.mp hstale) hnews holds
            (keepsSuffixes hs.recorded hroutes) }

theorem Filed.effect (hinj : Function.Injective addr) (hs : s.Filed addr u p)
    (h : Effect addr u p (CanonicalOperation u) s t) : t.Filed addr u p := by
  have hothers : ∀ (i j : ℕ) (x : Phase), j ≠ i → s.operations[j]? = some x →
      CanonicalPhase u x → CanonicalPhase u x := fun _ _ _ _ _ hx => hx
  cases h with
  | starts op connected hop =>
    exact { hs with phases := hs.phases.concat hop fun _ _ _ hx => hx }
  | changes hi =>
    have htodo := hs.phases _ _ hi
    exact
      { hs with
        keys := fun m key hkey =>
          (mem_apply hkey).elim (hs.keys m key) fun heq => heq ▸ htodo _ List.mem_cons_self
        phases := hs.phases.set (fun c hc => htodo c (List.mem_cons_of_mem _ hc)) (hothers _) }
  | versions hi => exact { hs with phases := hs.phases.set trivial (hothers _) }
  | reads hi hreads =>
    have hread := hreads.canonical hs.keys (hs.phases _ _ hi)
    exact { hs with phases := hs.phases.set hread (hothers _) }
  | sends hi =>
    have hroutes := hs.phases _ _ hi
    refine { hs with phases := hs.phases.set trivial (hothers _), messages := ?_ }
    intro m hm
    dsimp only at hm
    split_ifs at hm
    · rcases List.mem_append.mp hm with hm | hm
      · exact hs.messages m hm
      · obtain rfl := List.mem_singleton.mp hm
        exact hroutes
    · exact hs.messages m hm
  | delivers hk htable =>
    exact hs.deliver hinj (hs.messages _ (List.mem_of_getElem? hk)) _
      (fun m hm => List.mem_of_mem_eraseIdx hm) htable
  | calls hcall htable =>
    have hstate := Table.stateOf_step_of_ne hinj hcall htable
    exact
      { hs with
        recorded := by rw [hstate]; exact hs.recorded
        distinct := hs.distinct.step hinj htable
        reflects := by
          rw [hstate]
          exact hs.reflects.step_of_ne hinj hs.distinct hcall htable }

theorem Filed.attributes_iff (hs : s.Filed addr u p) (route : List Char) :
    s.table.Attributes p route ↔ route ∈ (s.table.stateOf addr p).hostnames := by
  unfold Table.Attributes
  simp only [hs.reflects.exact, hs.reflects.wildcard, PeerState.AnnouncesExactly,
    PeerState.AnnouncesWildcard]
  constructor
  · rintro (⟨hmem, -⟩ | ⟨suffix, rfl, hn, hmem, hsuffix⟩)
    · exact hmem
    · rwa [← hs.recorded hn hmem suffix hsuffix]
  · intro hmem
    cases hsuffix : wildcardSuffix u route with
    | none => exact Or.inl ⟨hmem, rfl⟩
    | some suffix =>
      exact Or.inr ⟨suffix, hs.recorded route hmem suffix hsuffix, route, hmem, hsuffix⟩

end Attribution

/-- Once the operations are finished and the announcements processed, node B knows the routes of
node A, and files node A under them if they are canonical. -/
theorem announcements_converge [DecidableEq Peer] (hinj : Function.Injective addr)
    {actions : List (Action Peer)}
    (hrun : Transition.run (step addr u p) (start : Mesh f Peer Addr) actions = some s)
    (hconn : s.connected = true) (hdone : ∀ phase ∈ s.operations, phase = .done)
    (hempty : s.inFlight = []) :
    (∀ route, route ∈ (s.table.stateOf addr p).hostnames ↔ route ∈ s.hub.getLocalRoutes) ∧
      ((∀ op, Action.start op ∈ actions → CanonicalOperation u op) →
        ∀ route, s.table.Attributes p route ↔ route ∈ s.hub.getLocalRoutes) := by
  have htracks : s.Tracks addr p :=
    Transition.invariant_run (fun _ _ _ hs hstep =>
      hs.effect hinj (step_effect (Q := fun _ => True) (fun _ _ => trivial) hstep))
      start_tracks hrun
  have hknown := htracks.converged hconn hdone hempty
  refine ⟨hknown, fun hcanonical route => ?_⟩
  have hguard : Transition.Along (step addr u p)
      (fun _ a => ∀ op, a = Action.start op → CanonicalOperation u op)
      (start : Mesh f Peer Addr) actions :=
    Transition.along_of_forall (by rintro _ hmem _ op rfl; exact hcanonical op hmem) _
  have hfiled : s.Filed addr u p :=
    Transition.invariant_along (fun _ _ _ hs hstart hstep =>
      hs.effect hinj (step_effect hstart hstep)) start_filed hguard hrun
  rw [hfiled.attributes_iff, hknown]

end Mesh

/-- Three announcements, of which the connection's reads the hub between two changes and the
last version is the first to arrive. -/
def overtaking : List (Action ℕ) :=
  let wildcard := ".example.com".toList
  let name := "api.example.com".toList
  let port := routeKey .tcp 25
  [.start .connect, .start (.register wildcardHolder), .start (.register nameHolder), .change 1,
    .addVersion 0, .beginRange 0, .endRange 0, .visit 0 wildcard, .endRange 0,
    .change 1, .change 2, .change 2, .change 2, .change 2, .addVersion 2, .addVersion 1,
    .beginRange 1, .visit 1 port, .visit 1 name, .endRange 1, .visit 1 wildcard, .endRange 1,
    .beginRange 2, .visit 2 name, .visit 2 port, .endRange 2, .visit 2 wildcard, .endRange 2,
    .send 1, .send 2, .send 0,
    .deliver 0 ['*' :: wildcard, name, port] [], .deliver 0 [] [], .deliver 0 [] []]

theorem overtaking_converges :
    ∃ s : Mesh exactAbs ℕ ℕ, Transition.run (Mesh.step id plainNames 0) .start overtaking = some s ∧
      s.hub.getLocalRoutes.length = 3 ∧
      (∀ route, route ∈ (s.table.stateOf id 0).hostnames ↔ route ∈ s.hub.getLocalRoutes) ∧
      ∀ route, s.table.Attributes 0 route ↔ route ∈ s.hub.getLocalRoutes := by
  have hex : ∃ s : Mesh exactAbs ℕ ℕ,
      Transition.run (Mesh.step id plainNames 0) .start overtaking = some s ∧
        s.hub.getLocalRoutes.length = 3 ∧ s.connected = true ∧
        (∀ phase ∈ s.operations, phase = .done) ∧ s.inFlight.isEmpty = true :=
    Transition.exists_run_of_any (by decide +kernel)
  obtain ⟨s, hrun, hlength, hconn, hdone, hempty⟩ := hex
  have hmain := Mesh.announcements_converge Function.injective_id hrun hconn hdone
    (List.isEmpty_iff.mp hempty)
  refine ⟨s, hrun, hlength, hmain.1, hmain.2 fun op hop => ?_⟩
  simp only [overtaking, List.mem_cons, Action.start.injEq, reduceCtorEq, List.not_mem_nil,
    or_false] at hop
  rcases hop with rfl | rfl | rfl <;> decide +kernel

/-- A backend with a hostname as `normalizeHostnames` leaves it. -/
def suffixHolder (hostname : List Char) : Backend where
  id := hostname
  hostnames := [hostname]
  tcpPorts := []
  udpRoutes := []
  weight := 1
  weight_pos := one_weight_pos
  weight_lt := one_weight_lt

/-- Two spellings of one suffix are registered, and the first is unregistered; every announcement
arrives before the next operation. -/
def respelled : List (Action ℕ) :=
  let spaced := suffixHolder "*.a.b . ".toList
  let first := ".a.b ".toList
  let second := ".a.b".toList
  [.start .connect, .start (.register spaced), .change 1, .change 1, .addVersion 0, .beginRange 0,
    .endRange 0, .visit 0 first, .endRange 0, .send 0, .deliver 0 ['*' :: first] [],
    .addVersion 1, .beginRange 1, .endRange 1, .visit 1 first, .endRange 1, .send 1,
    .deliver 0 ['*' :: first] ['*' :: first],
    .start (.register (suffixHolder "*.a.b".toList)), .change 2, .change 2, .addVersion 2,
    .beginRange 2, .endRange 2, .visit 2 first, .visit 2 second, .endRange 2, .send 2,
    .deliver 0 ['*' :: first, '*' :: second] ['*' :: first],
    .start (.unregister spaced), .change 3, .addVersion 3, .beginRange 3, .endRange 3,
    .visit 3 first, .visit 3 second, .endRange 3, .send 3,
    .deliver 0 ['*' :: second] ['*' :: first, '*' :: second]]

/-- Everything is done and delivered, and node B has no peer for the one route of node A. -/
theorem respelled_lost :
    normalizeOrWildcard plainNames "*.a.b . .".toList = "*.a.b . ".toList ∧
    ∃ s : Mesh exactAbs ℕ ℕ, Transition.run (Mesh.step id plainNames 0) .start respelled = some s ∧
      s.connected = true ∧ (∀ phase ∈ s.operations, phase = .done) ∧ s.inFlight = [] ∧
      s.hub.getLocalRoutes = ["*.a.b".toList] ∧ ¬s.table.Attributes 0 "*.a.b".toList ∧
      (s.table.getPeerForHostname plainNames "x.a.b".toList).1 = none := by
  have hex : ∃ s : Mesh exactAbs ℕ ℕ,
      Transition.run (Mesh.step id plainNames 0) .start respelled = some s ∧
        (s.connected = true ∧ (∀ phase ∈ s.operations, phase = .done) ∧ s.inFlight = [] ∧
          s.hub.getLocalRoutes = ["*.a.b".toList] ∧
          (s.table.getPeerForHostname plainNames "x.a.b".toList).1 = none) ∧
        s.table.routes.members "*.a.b".toList = [] ∧
        s.table.wildcardRoutes.members ".a.b".toList = [] :=
    Transition.exists_run_of_any (by decide +kernel)
  obtain ⟨s, hrun, ⟨hconn, hdone, hempty, hroutes, hnone⟩, hexact, hwildcard⟩ := hex
  refine ⟨by decide, s, hrun, hconn, hdone, hempty, hroutes, ?_, hnone⟩
  rintro (hmem | ⟨suffix, hsuffix, hmem⟩)
  · rw [hexact] at hmem
    cases hmem
  · obtain rfl : ".a.b".toList = suffix := List.tail_eq_of_cons_eq hsuffix
    rw [hwildcard] at hmem
    cases hmem

end NexusProxy.Peer.Announcements
