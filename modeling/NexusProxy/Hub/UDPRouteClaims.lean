import NexusProxy.Hub.Claims

/-! Timeouts of UDP route claims: what `normalizeUDPRouteClaims` makes of a request that the
product of its seconds with a nanosecond count cannot hold. -/
namespace NexusProxy.Hub
open Checks FixedWidth

section
variable (cfg : Config)

/-- The timeout that a claim asks for in nanoseconds, as a number of any size. -/
def requestedTimeout (route : UDPRouteClaim) : ℤ :=
  match route.flowIdleTimeoutSeconds with
  | some n => if 0 < n then n * 10 ^ 9 else cfg.udpFlowIdleTimeoutDefault
  | none => cfg.udpFlowIdleTimeoutDefault

def clampTimeout (timeout : ℤ) : ℤ :=
  min cfg.udpFlowIdleTimeoutMax (max cfg.udpFlowIdleTimeoutMin timeout)

/-- The timeout that a claim should get. -/
def effectiveTimeout (route : UDPRouteClaim) : ℤ := clampTimeout cfg (requestedTimeout cfg route)

/-- The timeout that is left of the request in a register. -/
def wrappedTimeout (route : UDPRouteClaim) : ℤ :=
  clampTimeout cfg (int64 (requestedTimeout cfg route))

/-- The request passes the largest word and comes back below the maximum. -/
def Overflows (route : UDPRouteClaim) : Prop :=
  ∃ n, route.flowIdleTimeoutSeconds = some n ∧ 2 ^ 63 ≤ n * 10 ^ 9 ∧
    int64 (n * 10 ^ 9) < cfg.udpFlowIdleTimeoutMax ∧
    cfg.udpFlowIdleTimeoutMin < cfg.udpFlowIdleTimeoutMax

/-- Two claims for an allowed port differ in their timeouts. -/
def Conflict (timeout : UDPRouteClaim → ℤ) (routes : List UDPRouteClaim) : Prop :=
  ∃ r ∈ routes, ∃ s ∈ routes, r.port = s.port ∧ s.port ∈ cfg.allowedUDPPortClaims ∧
    timeout r ≠ timeout s

/-- With these timeouts, the normalizer fails exactly at a conflict, and otherwise it returns one
route for each allowed port, in the order of the ports. -/
structure Clamps (fmt : Format) (timeout : UDPRouteClaim → ℤ) (routes : List UDPRouteClaim) :
    Prop where
  fails : (∃ err, normalizeUDPRouteClaims fmt cfg routes = .error err) ↔
    Conflict cfg timeout routes
  sorted : ∀ out, normalizeUDPRouteClaims fmt cfg routes = .ok out →
    out.accepted.Pairwise fun a b => a.port < b.port
  mem : ∀ out, normalizeUDPRouteClaims fmt cfg routes = .ok out → ∀ p, p ∈ out.accepted ↔
    ∃ r ∈ routes, r.port ∈ cfg.allowedUDPPortClaims ∧ ⟨r.port, timeout r⟩ = p

end

section
variable {fmt : Format} {cfg : Config} {routes : List UDPRouteClaim} {r : UDPRouteClaim}

theorem isInt64_secondsOr (n default : ℤ) : IsInt64 (secondsOr n default) := by
  unfold secondsOr seconds
  split_ifs
  · exact int64_isInt64 _
  · exact int64_isInt64 _

theorem int64_default (cfg : Config) :
    int64 cfg.udpFlowIdleTimeoutDefault = cfg.udpFlowIdleTimeoutDefault :=
  int64_eq (isInt64_secondsOr _ _).1 (isInt64_secondsOr _ _).2

theorem flowIdleTimeout_eq (hbounds : cfg.udpFlowIdleTimeoutMin ≤ cfg.udpFlowIdleTimeoutMax)
    (r : UDPRouteClaim) : flowIdleTimeout cfg r = wrappedTimeout cfg r := by
  have hclamp (timeout : ℤ) :
      (if cfg.udpFlowIdleTimeoutMax <
          (if timeout < cfg.udpFlowIdleTimeoutMin then cfg.udpFlowIdleTimeoutMin else timeout) then
        cfg.udpFlowIdleTimeoutMax
      else if timeout < cfg.udpFlowIdleTimeoutMin then cfg.udpFlowIdleTimeoutMin else timeout) =
        clampTimeout cfg timeout := by
    unfold clampTimeout
    split_ifs <;> omega
  unfold flowIdleTimeout wrappedTimeout requestedTimeout
  cases r.flowIdleTimeoutSeconds with
  | none =>
    rw [int64_default]
    exact hclamp _
  | some n =>
    by_cases hpos : 0 < n
    · simp only [if_pos hpos]
      exact hclamp _
    · simp only [if_neg hpos]
      rw [int64_default]
      exact hclamp _

/-- The register loses the timeout of a request exactly when it overflows. -/
theorem wrappedTimeout_eq_iff (hbounds : cfg.udpFlowIdleTimeoutMin ≤ cfg.udpFlowIdleTimeoutMax)
    (r : UDPRouteClaim) : wrappedTimeout cfg r = effectiveTimeout cfg r ↔ ¬Overflows cfg r := by
  have hmax : cfg.udpFlowIdleTimeoutMax < 2 ^ 63 := (isInt64_secondsOr _ _).2
  have hdefault : wrappedTimeout cfg r = effectiveTimeout cfg r ∨
      ∃ n, r.flowIdleTimeoutSeconds = some n ∧ requestedTimeout cfg r = n * 10 ^ 9 ∧ 0 < n := by
    unfold wrappedTimeout effectiveTimeout requestedTimeout
    cases r.flowIdleTimeoutSeconds with
    | none => exact .inl (by rw [int64_default])
    | some n =>
      dsimp only
      split_ifs with hpos
      · exact .inr ⟨n, rfl, rfl, hpos⟩
      · exact .inl (by rw [int64_default])
  by_cases hfits : ∀ n, r.flowIdleTimeoutSeconds = some n → n * 10 ^ 9 < 2 ^ 63
  · refine iff_of_true ?_ ?_
    · rcases hdefault with heq | ⟨n, hn, hrequested, hpos⟩
      · exact heq
      · unfold wrappedTimeout effectiveTimeout
        rw [hrequested, int64_eq (by omega) (hfits n hn)]
    · rintro ⟨n, hn, hlarge, -⟩
      exact absurd (hfits n hn) (not_lt.mpr hlarge)
  · push Not at hfits
    obtain ⟨n, hn, hlarge⟩ := hfits
    have hrequested : requestedTimeout cfg r = n * 10 ^ 9 := by
      unfold requestedTimeout
      rw [hn]
      exact if_pos (by omega)
    have heffective : effectiveTimeout cfg r = cfg.udpFlowIdleTimeoutMax := by
      unfold effectiveTimeout clampTimeout
      omega
    have hover : Overflows cfg r ↔ int64 (n * 10 ^ 9) < cfg.udpFlowIdleTimeoutMax ∧
        cfg.udpFlowIdleTimeoutMin < cfg.udpFlowIdleTimeoutMax := by
      constructor
      · rintro ⟨m, hm, -, hlost⟩
        obtain rfl : n = m := Option.some.inj (hn.symm.trans hm)
        exact hlost
      · intro hlost
        exact ⟨n, hn, hlarge, hlost⟩
    rw [heffective, hover, wrappedTimeout, hrequested, clampTimeout]
    omega

theorem normalizeUDPRouteClaims_loop (henabled : cfg.allowedUDPPortClaims ≠ [])
    (hbounds : cfg.udpFlowIdleTimeoutMin ≤ cfg.udpFlowIdleTimeoutMax) :
    normalizeUDPRouteClaims fmt cfg routes =
      (routes.foldlM (addUDPRoute cfg) .empty).map fun out =>
        { out with accepted := out.accepted.insertionSort fun a b => a.port ≤ b.port } := by
  unfold normalizeUDPRouteClaims
  by_cases hnil : routes = []
  · subst hnil
    rfl
  · rw [if_neg hnil, if_neg henabled, if_neg (not_lt.mpr hbounds)]

theorem Clamps.of_error {timeout : UDPRouteClaim → ℤ} {err : List Char}
    (herr : normalizeUDPRouteClaims fmt cfg routes = .error err)
    (hconflict : Conflict cfg timeout routes) : Clamps cfg fmt timeout routes := by
  refine ⟨iff_of_true ⟨err, herr⟩ hconflict, ?_, ?_⟩
  all_goals
    intro out hout
    rw [herr] at hout
    cases hout

theorem conflict_of_error {err : List Char} (hports : ∀ r ∈ routes, IsPort r.port)
    (hfold : routes.foldlM (addUDPRoute cfg) .empty = .error err) :
    Conflict cfg (flowIdleTimeout cfg) routes := by
  by_contra hnone
  have hagree : ∀ r ∈ routes, ∀ s ∈ routes, s.port ∈ cfg.allowedUDPPortClaims →
      r.port = s.port → routePolicy cfg r = routePolicy cfg s := by
    intro r hr s hs hallowed hport
    by_contra hne
    refine hnone ⟨r, hr, s, hs, hport, hallowed, fun htimeout => hne ?_⟩
    rw [routePolicy, routePolicy, hport, htimeout]
  have hok : ∃ out, routes.foldlM (addUDPRoute cfg) .empty = .ok out := by
    apply addUDPRoutes_ok hports hagree
    intro p hp
    cases hp
  obtain ⟨out, hout⟩ := hok
  rw [hfold] at hout
  cases hout

theorem clamps_flowIdleTimeout (henabled : cfg.allowedUDPPortClaims ≠ [])
    (hbounds : cfg.udpFlowIdleTimeoutMin ≤ cfg.udpFlowIdleTimeoutMax)
    (hports : ∀ r ∈ routes, IsPort r.port) : Clamps cfg fmt (flowIdleTimeout cfg) routes := by
  have hloop : normalizeUDPRouteClaims fmt cfg routes = _ :=
    normalizeUDPRouteClaims_loop henabled hbounds
  cases hfold : routes.foldlM (addUDPRoute cfg) .empty with
  | error err =>
    rw [hfold] at hloop
    exact .of_error hloop (conflict_of_error hports hfold)
  | ok last =>
    rw [hfold] at hloop
    obtain ⟨-, hdistinct, hmem⟩ := addUDPRoutes_spec hfold
    have hperm :=
      List.perm_insertionSort (fun a b : UDPRoutePolicy => a.port ≤ b.port) last.accepted
    refine ⟨iff_of_false ?_ ?_, ?_, ?_⟩
    · rintro ⟨err, herr⟩
      rw [hloop] at herr
      cases herr
    · rintro ⟨r, hr, s, hs, hport, hallowed, hne⟩
      have heq : routePolicy cfg r = routePolicy cfg s := by
        apply hdistinct.eq _ _ hport
        · exact (hmem _).mpr ⟨r, hr, hport ▸ hallowed, rfl⟩
        · exact (hmem _).mpr ⟨s, hs, hallowed, rfl⟩
      exact hne (congrArg UDPRoutePolicy.flowIdleTimeout heq)
    · intro out hout
      obtain rfl := Except.ok.inj (hloop.symm.trans hout)
      have hle := List.pairwise_insertionSort (fun a b : UDPRoutePolicy => a.port ≤ b.port)
        last.accepted
      have hne : DistinctPorts (last.accepted.insertionSort fun a b => a.port ≤ b.port) :=
        hperm.symm.pairwise hdistinct fun hne => hne.symm
      exact (hle.and hne).imp fun h => lt_of_le_of_ne h.1 h.2
    · intro out hout p
      obtain rfl := Except.ok.inj (hloop.symm.trans hout)
      rw [hperm.mem_iff, hmem]
      rfl

end

/-- Every claim of an allowed port gets the timeout that it asks for within the bounds, exactly
when no request of one overflows or the claims conflict before and after the overflow. -/
theorem udp_route_timeouts_clamped (fmt : Format) (cfg : Config)
    (henabled : cfg.allowedUDPPortClaims ≠ [])
    (hbounds : cfg.udpFlowIdleTimeoutMin ≤ cfg.udpFlowIdleTimeoutMax) (routes : List UDPRouteClaim)
    (hports : ∀ r ∈ routes, IsPort r.port) :
    Clamps cfg fmt (effectiveTimeout cfg) routes ↔
      (∀ r ∈ routes, r.port ∈ cfg.allowedUDPPortClaims → ¬Overflows cfg r) ∨
        Conflict cfg (effectiveTimeout cfg) routes ∧ Conflict cfg (wrappedTimeout cfg) routes := by
  have hcode : Clamps cfg fmt (wrappedTimeout cfg) routes := by
    rw [← funext (flowIdleTimeout_eq hbounds)]
    exact clamps_flowIdleTimeout henabled hbounds hports
  constructor
  · intro hclamps
    have hsame : Conflict cfg (effectiveTimeout cfg) routes ↔
        Conflict cfg (wrappedTimeout cfg) routes := hclamps.fails.symm.trans hcode.fails
    by_cases hconflict : Conflict cfg (effectiveTimeout cfg) routes
    · exact .inr ⟨hconflict, hsame.mp hconflict⟩
    · left
      intro r hr hallowed
      cases hout : normalizeUDPRouteClaims fmt cfg routes with
      | error err => exact absurd (hclamps.fails.mp ⟨err, hout⟩) hconflict
      | ok out =>
        -- the route of the port has the timeout of this claim in both readings
        have hmem : ⟨r.port, wrappedTimeout cfg r⟩ ∈ out.accepted :=
          (hcode.mem out hout _).mpr ⟨r, hr, hallowed, rfl⟩
        obtain ⟨s, hs, hallowed', hroute⟩ := (hclamps.mem out hout _).mp hmem
        rw [UDPRoutePolicy.mk.injEq] at hroute
        rw [← wrappedTimeout_eq_iff hbounds, ← hroute.2]
        by_contra hne
        exact hconflict ⟨s, hs, r, hr, hroute.1, hallowed, hne⟩
  · rintro (hfits | ⟨hconflict, hwrapped⟩)
    · have heq : ∀ r ∈ routes, r.port ∈ cfg.allowedUDPPortClaims →
          wrappedTimeout cfg r = effectiveTimeout cfg r := fun r hr hallowed =>
        (wrappedTimeout_eq_iff hbounds r).mpr (hfits r hr hallowed)
      refine ⟨hcode.fails.trans ?_, hcode.sorted, fun out hout p => (hcode.mem out hout p).trans ?_⟩
      · refine exists_congr fun r => and_congr_right fun hr => exists_congr fun s =>
          and_congr_right fun hs => and_congr_right fun hport => and_congr_right fun hallowed => ?_
        rw [heq r hr (hport ▸ hallowed), heq s hs hallowed]
      · refine exists_congr fun r => and_congr_right fun hr => and_congr_right fun hallowed => ?_
        rw [heq r hr hallowed]
    · obtain ⟨err, herr⟩ := hcode.fails.mpr hwrapped
      exact .of_error herr hconflict

def dnsRelay : Config where
  allowedTCPPortClaims := []
  allowedUDPPortClaims := [53]
  udpFlowIdleTimeoutDefaultSeconds := 0
  udpFlowIdleTimeoutMinSeconds := 0
  udpFlowIdleTimeoutMaxSeconds := 0
  allowOutbound := false
  allowedOutboundPorts := []

theorem udp_route_timeouts_clamped_dnsRelay :
    Clamps dnsRelay ⟨id, fun _ => []⟩ (effectiveTimeout dnsRelay)
      [⟨53, some 400⟩, ⟨443, none⟩, ⟨53, some 300⟩] := by
  refine (udp_route_timeouts_clamped ⟨id, fun _ => []⟩ dnsRelay (by decide) (by decide)
    [⟨53, some 400⟩, ⟨443, none⟩, ⟨53, some 300⟩] (by simp [IsPort])).mpr (.inl ?_)
  rintro r hr - ⟨n, hn, hlarge, -⟩
  simp only [List.mem_cons, List.not_mem_nil, or_false] at hr
  rcases hr with rfl | rfl | rfl
  · cases hn
    omega
  · cases hn
  · cases hn
    omega

/-- A request for three hundred years gets the shortest timeout. -/
theorem udp_route_timeout_wraps :
    dnsRelay.allowedUDPPortClaims ≠ [] ∧
      dnsRelay.udpFlowIdleTimeoutMin ≤ dnsRelay.udpFlowIdleTimeoutMax ∧
      ¬Clamps dnsRelay ⟨id, fun _ => []⟩ (effectiveTimeout dnsRelay) [⟨53, some 9223372037⟩] := by
  refine ⟨by decide, by decide, fun hclamps => ?_⟩
  have hroute : (⟨53, 5 * 10 ^ 9⟩ : UDPRoutePolicy) ∈ [(⟨53, 5 * 10 ^ 9⟩ : UDPRoutePolicy)] :=
    List.mem_singleton_self _
  have hmem := (hclamps.mem ⟨[⟨53, 5 * 10 ^ 9⟩], [], false⟩ (by decide) _).mp hroute
  obtain ⟨r, hr, -, heq⟩ := hmem
  obtain rfl := List.mem_singleton.mp hr
  exact absurd heq (by decide)

end NexusProxy.Hub
