import Mathlib.Data.List.Sort
import NexusProxy.Hostnames
import NexusProxy.Hub.LoadBalancer
import NexusProxy.Lib.Checks
import NexusProxy.Protocol

/-! The normalizers of attestation claims. A claim that the relay's policy does not allow
is rejected on its own; malformed input is an error. -/
namespace NexusProxy.Hub
open Checks FixedWidth Hostnames Protocol

/-- The library's renderings in messages: the verb `%q`, and a duration. -/
structure Format where
  quote : List Char → List Char
  duration : ℤ → List Char

inductive RejectedKind where
  | hostname
  | tcpPort
  | udpRoute
  | outboundPort
  deriving DecidableEq

inductive RejectedCode where
  | hostnameReservedRouteKey
  | tcpPortNotAllowed
  | udpRouteNotAllowed
  | outboundPortNotAllowed
  deriving DecidableEq

structure RejectedClaim where
  kind : RejectedKind
  code : RejectedCode
  value : List Char
  reason : List Char
  deriving DecidableEq

def rejectedListBound : ℕ := 32

/-- What a normalizer returns besides an error. -/
structure Normalized (α : Type*) where
  accepted : List α
  rejected : List RejectedClaim
  truncated : Bool
  deriving DecidableEq

namespace Normalized
variable {α : Type*}

def empty : Normalized α := ⟨[], [], false⟩

def appendRejected (n : Normalized α) (entry : RejectedClaim) : Normalized α :=
  if rejectedListBound ≤ n.rejected.length then { n with truncated := true }
  else { n with rejected := n.rejected ++ [entry] }

@[simp] theorem appendRejected_accepted (n : Normalized α) (entry : RejectedClaim) :
    (n.appendRejected entry).accepted = n.accepted := by
  unfold appendRejected
  split_ifs <;> rfl

def accept (n : Normalized α) (a : α) : Normalized α := { n with accepted := n.accepted ++ [a] }

end Normalized

/-- The settings that the normalizers read. -/
structure Config where
  allowedTCPPortClaims : List ℤ
  allowedUDPPortClaims : List ℤ
  udpFlowIdleTimeoutDefaultSeconds : ℤ
  udpFlowIdleTimeoutMinSeconds : ℤ
  udpFlowIdleTimeoutMaxSeconds : ℤ
  allowOutbound : Bool
  allowedOutboundPorts : List ℤ

/-- `time.Duration(n) * time.Second`. -/
def seconds (n : ℤ) : ℤ := int64 (n * 10 ^ 9)

/-- A configured number of seconds, or the default when it is not positive. -/
def secondsOr (n default : ℤ) : ℤ := if n ≤ 0 then seconds default else seconds n

def Config.udpFlowIdleTimeoutDefault (cfg : Config) : ℤ :=
  secondsOr cfg.udpFlowIdleTimeoutDefaultSeconds 30

def Config.udpFlowIdleTimeoutMin (cfg : Config) : ℤ :=
  secondsOr cfg.udpFlowIdleTimeoutMinSeconds 5

def Config.udpFlowIdleTimeoutMax (cfg : Config) : ℤ :=
  secondsOr cfg.udpFlowIdleTimeoutMaxSeconds 300

/-- The name lies in the name space of the port pools. -/
def Reserved (name : List Char) : Prop := ∃ t, routeKeyPrefix t <+: name

instance (name : List Char) : Decidable (Reserved name) :=
  decidable_of_iff (routeKeyPrefix .tcp <+: name ∨ routeKeyPrefix .udp <+: name) (by
    constructor
    · rintro (h | h)
      · exact ⟨.tcp, h⟩
      · exact ⟨.udp, h⟩
    · rintro ⟨t, h⟩
      cases t with
      | tcp => exact Or.inl h
      | udp => exact Or.inr h)

section
variable (u : Unicode) (fmt : Format) (cfg : Config)

def addHostname (acc : Normalized (List Char)) (hname : List Char) : Normalized (List Char) :=
  let n := normalizeOrWildcard u hname
  if n = [] then acc
  else if Reserved n then
    acc.appendRejected
      { kind := .hostname
        code := .hostnameReservedRouteKey
        value := n
        reason := "reserved route key ".toList ++ fmt.quote n ++
          " cannot be used as a hostname claim".toList }
  else if n ∈ acc.accepted then acc
  else acc.accept n

def normalizeHostnames (hosts : List (List Char)) :
    Except (List Char) (Normalized (List Char)) :=
  let out := hosts.foldl (addHostname u fmt) .empty
  if out.accepted = [] ∧ hosts ≠ [] ∧ out.rejected = [] then
    .error "no valid hostnames after normalization".toList
  else .ok out

/-- The part of a port normalizer's loop that TCP and outbound claims share: the range
check, the allow list and the removal of duplicates. -/
def addPort (allowed : ℤ → Bool) (invalid : List Char) (entry : ℤ → RejectedClaim)
    (acc : Normalized ℤ) (port : ℤ) : Except (List Char) (Normalized ℤ) :=
  if port ≤ 0 ∨ 65535 < port then .error (invalid ++ itoa port)
  else if allowed port = false then .ok (acc.appendRejected (entry port))
  else if port ∈ acc.accepted then .ok acc
  else .ok (acc.accept port)

def addPorts (allowed : ℤ → Bool) (invalid : List Char) (entry : ℤ → RejectedClaim)
    (ports : List ℤ) : Except (List Char) (Normalized ℤ) :=
  (ports.foldlM (addPort allowed invalid entry) .empty).map fun out =>
    { out with accepted := out.accepted.insertionSort (· ≤ ·) }

def normalizeTCPPortClaims (ports : List ℤ) : Except (List Char) (Normalized ℤ) :=
  if ports = [] then .ok .empty
  else if cfg.allowedTCPPortClaims = [] then
    .error "tcp port claims are disabled (allowedTCPPortClaims is empty)".toList
  else
    addPorts (fun port => port ∈ cfg.allowedTCPPortClaims) "invalid tcp port claim: ".toList
      (fun port =>
        { kind := .tcpPort
          code := .tcpPortNotAllowed
          value := itoa port
          reason := "tcp port claim ".toList ++ itoa port ++
            " is not in allowedTCPPortClaims".toList })
      ports

def normalizeOutboundPortClaims (outboundAllowed : Bool) (ports : List ℤ) :
    Except (List Char) (Normalized ℤ) :=
  if outboundAllowed = false then
    if ports ≠ [] then
      .error "allowed_outbound_ports set but outbound_allowed is false".toList
    else .ok .empty
  else if cfg.allowOutbound = false then
    .error "backend claims outbound_allowed but server has allowOutbound disabled".toList
  else if ports = [] then .ok .empty
  else
    addPorts
      (fun port => cfg.allowedOutboundPorts = [] ∨ port ∈ cfg.allowedOutboundPorts)
      "invalid outbound port claim: ".toList
      (fun port =>
        { kind := .outboundPort
          code := .outboundPortNotAllowed
          value := itoa port
          reason := "outbound port ".toList ++ itoa port ++
            " is not in allowedOutboundPorts".toList })
      ports

structure UDPRouteClaim where
  port : ℤ
  flowIdleTimeoutSeconds : Option ℤ
  deriving DecidableEq

def flowIdleTimeout (route : UDPRouteClaim) : ℤ :=
  let timeout :=
    match route.flowIdleTimeoutSeconds with
    | some s => if 0 < s then seconds s else cfg.udpFlowIdleTimeoutDefault
    | none => cfg.udpFlowIdleTimeoutDefault
  let timeout := if timeout < cfg.udpFlowIdleTimeoutMin then cfg.udpFlowIdleTimeoutMin else timeout
  if cfg.udpFlowIdleTimeoutMax < timeout then cfg.udpFlowIdleTimeoutMax else timeout

/-- One turn of the loop of `normalizeUDPRouteClaims`; the map `seen` is a list. -/
def addUDPRoute (acc : Normalized UDPRoutePolicy) (route : UDPRouteClaim) :
    Except (List Char) (Normalized UDPRoutePolicy) :=
  if route.port ≤ 0 ∨ 65535 < route.port then
    .error ("invalid udp route port claim: ".toList ++ itoa route.port)
  else if route.port ∉ cfg.allowedUDPPortClaims then
    .ok (acc.appendRejected
      { kind := .udpRoute
        code := .udpRouteNotAllowed
        value := itoa route.port
        reason := "udp route port ".toList ++ itoa route.port ++
          " is not in allowedUDPPortClaims".toList })
  else
    let timeout := flowIdleTimeout cfg route
    match acc.accepted.find? (fun existing => existing.port = route.port) with
    | some existing =>
        if existing.flowIdleTimeout ≠ timeout then
          .error ("conflicting udp route policies for port ".toList ++ itoa route.port)
        else .ok acc
    | none => .ok (acc.accept ⟨route.port, timeout⟩)

def normalizeUDPRouteClaims (routes : List UDPRouteClaim) :
    Except (List Char) (Normalized UDPRoutePolicy) :=
  if routes = [] then .ok .empty
  else if cfg.allowedUDPPortClaims = [] then
    .error "udp port claims are disabled (allowedUDPPortClaims is empty)".toList
  else if cfg.udpFlowIdleTimeoutMax < cfg.udpFlowIdleTimeoutMin then
    .error ("udp flow idle timeout max (".toList ++ fmt.duration cfg.udpFlowIdleTimeoutMax ++
      ") cannot be less than min (".toList ++ fmt.duration cfg.udpFlowIdleTimeoutMin ++
      ")".toList)
  else
    (routes.foldlM (addUDPRoute cfg) .empty).map fun out =>
      { out with accepted := out.accepted.insertionSort fun a b => a.port ≤ b.port }

end

theorem addHostname_accepted {u : Unicode} {fmt : Format} {acc : Normalized (List Char)}
    (h : ∀ n ∈ acc.accepted, ¬Reserved n) (hname : List Char) :
    ∀ n ∈ (addHostname u fmt acc hname).accepted, ¬Reserved n := by
  intro n hn
  unfold addHostname at hn
  dsimp only at hn
  split_ifs at hn with hnil hres hdup
  · exact h n hn
  · rw [Normalized.appendRejected_accepted] at hn
    exact h n hn
  · exact h n hn
  · rcases List.mem_append.mp hn with hn | hn
    · exact h n hn
    · rw [List.mem_singleton.mp hn]
      exact hres

/-- No accepted hostname lies in the name space of the port pools. -/
theorem normalizeHostnames_accepted {u : Unicode} {fmt : Format} {hosts : List (List Char)}
    {out : Normalized (List Char)} (h : normalizeHostnames u fmt hosts = .ok out) :
    ∀ n ∈ out.accepted, ¬Reserved n := by
  have hloop (acc : Normalized (List Char)) (hacc : ∀ n ∈ acc.accepted, ¬Reserved n) :
      ∀ n ∈ (hosts.foldl (addHostname u fmt) acc).accepted, ¬Reserved n := by
    clear h
    induction hosts generalizing acc with
    | nil => exact hacc
    | cons hname hosts ih =>
      apply ih
      exact addHostname_accepted hacc hname
  unfold normalizeHostnames at h
  dsimp only at h
  split_ifs at h
  obtain rfl := Except.ok.inj h
  apply hloop
  intro n hn
  cases hn

def IsPort (port : ℤ) : Prop := 0 < port ∧ port ≤ 65535

section
variable {allowed : ℤ → Bool} {invalid : List Char} {entry : ℤ → RejectedClaim}

theorem addPort_isPort {acc next : Normalized ℤ} {port : ℤ}
    (h : addPort allowed invalid entry acc port = .ok next) : IsPort port := by
  unfold addPort at h
  split at h
  · cases h
  · next hport =>
    unfold IsPort
    omega

theorem addPort_ok {port : ℤ} (h : IsPort port) (acc : Normalized ℤ) :
    ∃ next, addPort allowed invalid entry acc port = .ok next := by
  unfold addPort
  rw [if_neg (by unfold IsPort at h; omega)]
  split_ifs
  · exact ⟨_, rfl⟩
  · exact ⟨_, rfl⟩
  · exact ⟨_, rfl⟩

theorem addPort_mem {acc next : Normalized ℤ} {port : ℤ}
    (h : addPort allowed invalid entry acc port = .ok next) (p : ℤ) :
    p ∈ next.accepted ↔ p ∈ acc.accepted ∨ port = p ∧ allowed p = true := by
  unfold addPort at h
  split_ifs at h with hrange hallowed hdup
  · obtain rfl := Except.ok.inj h
    rw [Normalized.appendRejected_accepted]
    grind
  · obtain rfl := Except.ok.inj h
    grind
  · obtain rfl := Except.ok.inj h
    simp only [Normalized.accept, List.mem_append, List.mem_singleton]
    grind

theorem addPort_nodup {acc next : Normalized ℤ} {port : ℤ} (hacc : acc.accepted.Nodup)
    (h : addPort allowed invalid entry acc port = .ok next) : next.accepted.Nodup := by
  unfold addPort at h
  split_ifs at h with hrange hallowed hdup
  · obtain rfl := Except.ok.inj h
    rwa [Normalized.appendRejected_accepted]
  · obtain rfl := Except.ok.inj h
    exact hacc
  · obtain rfl := Except.ok.inj h
    exact List.nodup_append_comm.mp (List.nodup_cons.mpr ⟨hdup, hacc⟩)

theorem addPorts_eq_ok {ports : List ℤ} {out : Normalized ℤ}
    (h : addPorts allowed invalid entry ports = .ok out) :
    ∃ last, ports.foldlM (addPort allowed invalid entry) .empty = .ok last ∧
      out = { last with accepted := last.accepted.insertionSort (· ≤ ·) } := by
  unfold addPorts at h
  cases hfold : ports.foldlM (addPort allowed invalid entry) .empty with
  | error e =>
    rw [hfold] at h
    cases h
  | ok last =>
    rw [hfold] at h
    exact ⟨last, rfl, (Except.ok.inj h).symm⟩

theorem addPorts_spec {ports : List ℤ} {out : Normalized ℤ}
    (h : addPorts allowed invalid entry ports = .ok out) :
    (∀ p ∈ ports, IsPort p) ∧ out.accepted.Nodup ∧
      ∀ p, p ∈ out.accepted ↔ p ∈ ports ∧ allowed p = true := by
  obtain ⟨acc, hloop, rfl⟩ := addPorts_eq_ok h
  refine ⟨?_, ?_, ?_⟩
  · apply foldlM_checks (Q := IsPort) _ hloop
    intro acc port next hnext
    exact addPort_isPort hnext
  · have hnodup : acc.accepted.Nodup := by
      apply foldlM_keeps (P := fun n => n.accepted.Nodup) (fun _ _ _ => addPort_nodup) _ hloop
      exact List.nodup_nil
    exact (List.perm_insertionSort _ _).nodup_iff.mpr hnodup
  · intro p
    have hmem := foldlM_finds (P := fun n => p ∈ n.accepted)
      (fun _ _ _ hnext => addPort_mem hnext p) hloop
    simpa [Normalized.empty] using hmem

theorem addPorts_ok {ports : List ℤ} (h : ∀ p ∈ ports, IsPort p) :
    ∃ out, addPorts allowed invalid entry ports = .ok out := by
  have hloop (acc : Normalized ℤ) :
      ∃ out, ports.foldlM (addPort allowed invalid entry) acc = .ok out := by
    induction ports generalizing acc with
    | nil => exact ⟨acc, rfl⟩
    | cons port ports ih =>
      have hturn : ∃ next, addPort allowed invalid entry acc port = .ok next :=
        addPort_ok (h port List.mem_cons_self) acc
      obtain ⟨next, hnext⟩ := hturn
      obtain ⟨out, hout⟩ := ih (fun p hp => h p (List.mem_cons_of_mem _ hp)) next
      refine ⟨out, ?_⟩
      rw [List.foldlM_cons, hnext]
      exact hout
  obtain ⟨acc, hacc⟩ := hloop .empty
  unfold addPorts
  rw [hacc]
  exact ⟨_, rfl⟩

theorem addPorts_congr {ports ports' : List ℤ} {out : Normalized ℤ}
    (h : addPorts allowed invalid entry ports = .ok out) (hsame : ∀ p, p ∈ ports' ↔ p ∈ ports) :
    ∃ out', addPorts allowed invalid entry ports' = .ok out' ∧ out'.accepted.Perm out.accepted := by
  obtain ⟨hports, hnodup, hmem⟩ := addPorts_spec h
  have hports' : ∃ out', addPorts allowed invalid entry ports' = .ok out' :=
    addPorts_ok fun p hp => hports p ((hsame p).mp hp)
  obtain ⟨out', hout'⟩ := hports'
  obtain ⟨-, hnodup', hmem'⟩ := addPorts_spec hout'
  refine ⟨out', hout', ?_⟩
  rw [List.perm_ext_iff_of_nodup hnodup' hnodup]
  intro p
  rw [hmem', hmem, hsame]

end

section
variable {cfg : Config}

theorem normalizeTCPPortClaims_congr {ports ports' : List ℤ} {out : Normalized ℤ}
    (h : normalizeTCPPortClaims cfg ports = .ok out) (hsame : ∀ p, p ∈ ports' ↔ p ∈ ports) :
    ∃ out', normalizeTCPPortClaims cfg ports' = .ok out' ∧ out'.accepted.Perm out.accepted := by
  unfold normalizeTCPPortClaims at h ⊢
  have hnil : ports' = [] ↔ ports = [] := by
    simp only [List.eq_nil_iff_forall_not_mem, hsame]
  simp only [hnil]
  split_ifs at h ⊢
  · exact ⟨out, h, List.Perm.refl _⟩
  · exact addPorts_congr h hsame

theorem normalizeOutboundPortClaims_congr {outboundAllowed : Bool} {ports ports' : List ℤ}
    {out : Normalized ℤ} (h : normalizeOutboundPortClaims cfg outboundAllowed ports = .ok out)
    (hsame : ∀ p, p ∈ ports' ↔ p ∈ ports) :
    ∃ out', normalizeOutboundPortClaims cfg outboundAllowed ports' = .ok out' ∧
      out'.accepted.Perm out.accepted := by
  unfold normalizeOutboundPortClaims at h ⊢
  have hnil : ports' = [] ↔ ports = [] := by
    simp only [List.eq_nil_iff_forall_not_mem, hsame]
  simp only [ne_eq, hnil]
  split_ifs at h ⊢
  · exact ⟨out, h, List.Perm.refl _⟩
  · exact ⟨out, h, List.Perm.refl _⟩
  · exact addPorts_congr h hsame

def routePolicy (cfg : Config) (route : UDPRouteClaim) : UDPRoutePolicy :=
  ⟨route.port, flowIdleTimeout cfg route⟩

def DistinctPorts (routes : List UDPRoutePolicy) : Prop :=
  routes.Pairwise fun r s => r.port ≠ s.port

theorem DistinctPorts.eq {routes : List UDPRoutePolicy} (h : DistinctPorts routes)
    {r s : UDPRoutePolicy} (hr : r ∈ routes) (hs : s ∈ routes) (hport : r.port = s.port) :
    r = s := by
  have hsymm : Std.Symm fun r s : UDPRoutePolicy => r.port ≠ s.port := ⟨fun _ _ hrs => hrs.symm⟩
  by_contra hne
  exact List.Pairwise.forall h hr hs hne hport

theorem addUDPRoute_isPort {acc next : Normalized UDPRoutePolicy} {route : UDPRouteClaim}
    (h : addUDPRoute cfg acc route = .ok next) : IsPort route.port := by
  unfold addUDPRoute at h
  split at h
  · cases h
  · next hport =>
    unfold IsPort
    omega

theorem addUDPRoute_mem {acc next : Normalized UDPRoutePolicy} {route : UDPRouteClaim}
    (h : addUDPRoute cfg acc route = .ok next) (r : UDPRoutePolicy) :
    r ∈ next.accepted ↔
      r ∈ acc.accepted ∨ route.port ∈ cfg.allowedUDPPortClaims ∧ routePolicy cfg route = r := by
  unfold addUDPRoute at h
  dsimp only at h
  split_ifs at h with hrange hallowed
  · split at h
    · next existing hfind =>
      split_ifs at h with htimeout
      obtain rfl := Except.ok.inj h
      have hmem := List.mem_of_find?_eq_some hfind
      have hport : existing.port = route.port := by simpa using List.find?_some hfind
      have hpolicy : existing = routePolicy cfg route := by
        cases existing
        simp_all [routePolicy]
      grind
    · obtain rfl := Except.ok.inj h
      simp only [Normalized.accept, List.mem_append, List.mem_singleton, routePolicy]
      grind
  · obtain rfl := Except.ok.inj h
    rw [Normalized.appendRejected_accepted]
    grind

theorem addUDPRoute_distinct {acc next : Normalized UDPRoutePolicy} {route : UDPRouteClaim}
    (hacc : DistinctPorts acc.accepted) (h : addUDPRoute cfg acc route = .ok next) :
    DistinctPorts next.accepted := by
  unfold addUDPRoute at h
  dsimp only at h
  split_ifs at h with hrange hallowed
  · split at h
    · split_ifs at h
      obtain rfl := Except.ok.inj h
      exact hacc
    · next hfind =>
      obtain rfl := Except.ok.inj h
      unfold DistinctPorts Normalized.accept
      rw [List.pairwise_append]
      refine ⟨hacc, List.pairwise_singleton _ _, ?_⟩
      intro r hr s hs
      rw [List.mem_singleton.mp hs]
      simpa using List.find?_eq_none.mp hfind r hr
  · obtain rfl := Except.ok.inj h
    rwa [Normalized.appendRejected_accepted]

theorem addUDPRoute_ok {acc : Normalized UDPRoutePolicy} {route : UDPRouteClaim}
    (hport : IsPort route.port)
    (hagree : route.port ∈ cfg.allowedUDPPortClaims →
      ∀ r ∈ acc.accepted, r.port = route.port → r = routePolicy cfg route) :
    ∃ next, addUDPRoute cfg acc route = .ok next := by
  unfold addUDPRoute
  dsimp only
  rw [if_neg (by unfold IsPort at hport; omega)]
  split_ifs with hallowed
  · split
    · next existing hfind =>
      have hmem := List.mem_of_find?_eq_some hfind
      have hsame : existing.port = route.port := by simpa using List.find?_some hfind
      have hpolicy := hagree hallowed existing hmem hsame
      rw [if_neg (by simp [hpolicy, routePolicy])]
      exact ⟨_, rfl⟩
    · exact ⟨_, rfl⟩
  · exact ⟨_, rfl⟩

theorem addUDPRoutes_spec {routes : List UDPRouteClaim} {out : Normalized UDPRoutePolicy}
    (h : routes.foldlM (addUDPRoute cfg) .empty = .ok out) :
    (∀ r ∈ routes, IsPort r.port) ∧ DistinctPorts out.accepted ∧
      ∀ p, p ∈ out.accepted ↔
        ∃ r ∈ routes, r.port ∈ cfg.allowedUDPPortClaims ∧ routePolicy cfg r = p := by
  refine ⟨?_, ?_, ?_⟩
  · apply foldlM_checks (Q := fun r => IsPort r.port) _ h
    intro acc r next hnext
    exact addUDPRoute_isPort hnext
  · apply foldlM_keeps (P := fun n => DistinctPorts n.accepted) _ _ h
    · intro acc r next hacc hnext
      exact addUDPRoute_distinct hacc hnext
    · exact List.Pairwise.nil
  · intro p
    have hmem := foldlM_finds (P := fun n => p ∈ n.accepted)
      (fun _ _ _ hnext => addUDPRoute_mem hnext p) h
    simpa [Normalized.empty] using hmem

/-- Routes that agree on the policy of each allowed port are accepted. -/
theorem addUDPRoutes_ok {routes : List UDPRouteClaim} (hports : ∀ r ∈ routes, IsPort r.port)
    (hagree : ∀ r ∈ routes, ∀ s ∈ routes, s.port ∈ cfg.allowedUDPPortClaims → r.port = s.port →
      routePolicy cfg r = routePolicy cfg s)
    {acc : Normalized UDPRoutePolicy}
    (hacc : ∀ p ∈ acc.accepted, ∀ s ∈ routes, s.port ∈ cfg.allowedUDPPortClaims →
      p.port = s.port → p = routePolicy cfg s) :
    ∃ out, routes.foldlM (addUDPRoute cfg) acc = .ok out := by
  induction routes generalizing acc with
  | nil => exact ⟨acc, rfl⟩
  | cons route routes ih =>
    have hturn : ∃ next, addUDPRoute cfg acc route = .ok next := by
      apply addUDPRoute_ok (hports route List.mem_cons_self)
      intro hallowed p hp hport
      exact hacc p hp route List.mem_cons_self hallowed hport
    obtain ⟨next, hnext⟩ := hturn
    have hrest : ∃ out, routes.foldlM (addUDPRoute cfg) next = .ok out := by
      apply ih
      · intro r hr
        exact hports r (List.mem_cons_of_mem _ hr)
      · intro r hr s hs
        exact hagree r (List.mem_cons_of_mem _ hr) s (List.mem_cons_of_mem _ hs)
      · intro p hp s hs hallowed hport
        rcases (addUDPRoute_mem hnext p).mp hp with hp | ⟨-, rfl⟩
        · exact hacc p hp s (List.mem_cons_of_mem _ hs) hallowed hport
        · exact hagree route List.mem_cons_self s (List.mem_cons_of_mem _ hs) hallowed hport
    obtain ⟨out, hout⟩ := hrest
    refine ⟨out, ?_⟩
    rw [List.foldlM_cons, hnext]
    exact hout

theorem addUDPRoutes_congr {routes routes' : List UDPRouteClaim} {out : Normalized UDPRoutePolicy}
    (h : routes.foldlM (addUDPRoute cfg) .empty = .ok out)
    (hsame : ∀ r, r ∈ routes' ↔ r ∈ routes) :
    ∃ out', routes'.foldlM (addUDPRoute cfg) .empty = .ok out' ∧
      DistinctPorts out'.accepted ∧ out'.accepted.Perm out.accepted := by
  obtain ⟨hports, hdistinct, hmem⟩ := addUDPRoutes_spec h
  have hok : ∃ out', routes'.foldlM (addUDPRoute cfg) .empty = .ok out' := by
    apply addUDPRoutes_ok
    · intro r hr
      exact hports r ((hsame r).mp hr)
    · intro r hr s hs hallowed hport
      apply hdistinct.eq _ _ hport
      · exact (hmem _).mpr ⟨r, (hsame r).mp hr, hport ▸ hallowed, rfl⟩
      · exact (hmem _).mpr ⟨s, (hsame s).mp hs, hallowed, rfl⟩
    · intro p hp
      cases hp
  obtain ⟨out', hout'⟩ := hok
  obtain ⟨-, hdistinct', hmem'⟩ := addUDPRoutes_spec hout'
  refine ⟨out', hout', hdistinct', ?_⟩
  have hnodup {l : List UDPRoutePolicy} (hl : DistinctPorts l) : l.Nodup := by
    apply List.Pairwise.imp _ hl
    intro r s hne heq
    exact hne (congrArg UDPRoutePolicy.port heq)
  rw [List.perm_ext_iff_of_nodup (hnodup hdistinct') (hnodup hdistinct)]
  intro p
  simp only [hmem, hmem', hsame]

theorem normalizeUDPRouteClaims_congr {fmt : Format} {routes routes' : List UDPRouteClaim}
    {out : Normalized UDPRoutePolicy} (h : normalizeUDPRouteClaims fmt cfg routes = .ok out)
    (hsame : ∀ r, r ∈ routes' ↔ r ∈ routes) :
    ∃ out', normalizeUDPRouteClaims fmt cfg routes' = .ok out' ∧
      DistinctPorts out'.accepted ∧ out'.accepted.Perm out.accepted := by
  unfold normalizeUDPRouteClaims at h ⊢
  have hnil : routes' = [] ↔ routes = [] := by
    simp only [List.eq_nil_iff_forall_not_mem, hsame]
  simp only [hnil]
  split_ifs at h ⊢
  · obtain rfl := Except.ok.inj h
    exact ⟨_, rfl, List.Pairwise.nil, List.Perm.refl _⟩
  · cases hloop : routes.foldlM (addUDPRoute cfg) .empty with
    | error e =>
      rw [hloop] at h
      cases h
    | ok acc =>
      rw [hloop] at h
      obtain rfl := Except.ok.inj h
      obtain ⟨out', hout', hdistinct, hperm⟩ := addUDPRoutes_congr hloop hsame
      rw [hout']
      refine ⟨_, rfl, ?_, ?_⟩
      · exact (List.perm_insertionSort _ _).symm.pairwise hdistinct fun hne => hne.symm
      · exact ((List.perm_insertionSort _ _).trans hperm).trans (List.perm_insertionSort _ _).symm

end

section
variable {u : Unicode} {fmt : Format}

theorem addHostname_mem (u : Unicode) (fmt : Format) (acc : Normalized (List Char))
    (hname n : List Char) :
    n ∈ (addHostname u fmt acc hname).accepted ↔
      n ∈ acc.accepted ∨ normalizeOrWildcard u hname = n ∧ n ≠ [] ∧ ¬Reserved n := by
  unfold addHostname
  dsimp only
  split_ifs with hnil hres hdup
  · grind
  · rw [Normalized.appendRejected_accepted]
    grind
  · grind
  · simp only [Normalized.accept, List.mem_append, List.mem_singleton]
    grind

theorem addHostname_rejected (u : Unicode) (fmt : Format) (acc : Normalized (List Char))
    (hname : List Char) :
    (addHostname u fmt acc hname).rejected ≠ [] ↔
      acc.rejected ≠ [] ∨ normalizeOrWildcard u hname ≠ [] ∧
        Reserved (normalizeOrWildcard u hname) := by
  unfold addHostname
  dsimp only
  split_ifs with hnil hres hdup
  · simp [hnil]
  · unfold Normalized.appendRejected
    split_ifs with hbound
    · have hne : acc.rejected ≠ [] := by
        intro hempty
        simp [hempty, rejectedListBound] at hbound
      simp [hne]
    · simp [hnil, hres]
  · simp [hres]
  · simp [hres, Normalized.accept]

theorem addHostname_nodup {acc : Normalized (List Char)} (hacc : acc.accepted.Nodup)
    (hname : List Char) : (addHostname u fmt acc hname).accepted.Nodup := by
  unfold addHostname
  dsimp only
  split_ifs with hnil hres hdup
  · exact hacc
  · rwa [Normalized.appendRejected_accepted]
  · exact hacc
  · exact List.nodup_append_comm.mp (List.nodup_cons.mpr ⟨hdup, hacc⟩)

theorem foldl_addHostname_nodup (hosts : List (List Char)) :
    (hosts.foldl (addHostname u fmt) .empty).accepted.Nodup := by
  apply List.foldlRecOn (motive := fun acc : Normalized (List Char) => acc.accepted.Nodup)
  · exact List.nodup_nil
  · intro acc hacc hname _
    exact addHostname_nodup hacc hname

theorem foldl_addHostname_mem (hosts : List (List Char)) (n : List Char) :
    n ∈ (hosts.foldl (addHostname u fmt) .empty).accepted ↔
      ∃ hname ∈ hosts, normalizeOrWildcard u hname = n ∧ n ≠ [] ∧ ¬Reserved n := by
  have hmem := foldl_finds (P := fun acc : Normalized (List Char) => n ∈ acc.accepted)
    (fun acc hname => addHostname_mem u fmt acc hname n) hosts .empty
  simpa [Normalized.empty] using hmem

theorem foldl_addHostname_rejected (hosts : List (List Char)) :
    (hosts.foldl (addHostname u fmt) .empty).rejected ≠ [] ↔
      ∃ hname ∈ hosts, normalizeOrWildcard u hname ≠ [] ∧
        Reserved (normalizeOrWildcard u hname) := by
  have hrejected := foldl_finds (P := fun acc : Normalized (List Char) => acc.rejected ≠ [])
    (addHostname_rejected u fmt) hosts .empty
  simpa [Normalized.empty] using hrejected

theorem normalizeHostnames_congr {hosts hosts' : List (List Char)} {out : Normalized (List Char)}
    (h : normalizeHostnames u fmt hosts = .ok out) (hsame : ∀ n, n ∈ hosts' ↔ n ∈ hosts) :
    ∃ out', normalizeHostnames u fmt hosts' = .ok out' ∧ out'.accepted.Perm out.accepted := by
  have hperm : (hosts'.foldl (addHostname u fmt) .empty).accepted.Perm
      (hosts.foldl (addHostname u fmt) .empty).accepted := by
    rw [List.perm_ext_iff_of_nodup (foldl_addHostname_nodup _) (foldl_addHostname_nodup _)]
    intro n
    simp only [foldl_addHostname_mem, hsame]
  have hrejected : (hosts'.foldl (addHostname u fmt) .empty).rejected = [] ↔
      (hosts.foldl (addHostname u fmt) .empty).rejected = [] := by
    rw [← not_iff_not, ← ne_eq, ← ne_eq]
    simp only [foldl_addHostname_rejected, hsame]
  have hnil : hosts' = [] ↔ hosts = [] := by
    simp only [List.eq_nil_iff_forall_not_mem, hsame]
  have haccepted : (hosts'.foldl (addHostname u fmt) .empty).accepted = [] ↔
      (hosts.foldl (addHostname u fmt) .empty).accepted = [] := by
    constructor
    · intro hempty
      exact List.perm_nil.mp (hempty ▸ hperm.symm)
    · intro hempty
      exact List.perm_nil.mp (hempty ▸ hperm)
  unfold normalizeHostnames at h ⊢
  dsimp only at h ⊢
  simp only [ne_eq, hnil, hrejected, haccepted]
  split_ifs at h ⊢
  obtain rfl := Except.ok.inj h
  exact ⟨_, rfl, hperm⟩

end

end NexusProxy.Hub
