import Mathlib.Algebra.GCDMonoid.Multiset
import Mathlib.Algebra.GCDMonoid.Nat
import NexusProxy.Hub.Registry

/-! `GetLocalRoutes`, and how the pools follow the registrations: members, divisors and the
routes that are announced. -/
namespace NexusProxy.Hub
open Hostnames Protocol FixedWidth

/-- The conversion through a float is exact for the weights that a float holds. -/
def FloatAbs.Exact (f : FloatAbs) : Prop := ∀ w, 0 < w → w ≤ 2 ^ 53 → f.abs w = w

/-- The conversion on a machine that turns floats past the words into the least word. -/
def float64Abs : FloatAbs where
  abs w := if roundFloat64 w.natAbs < 2 ^ 63 then roundFloat64 w.natAbs else -2 ^ 63
  isInt64 w := by
    unfold IsInt64
    split_ifs <;> omega
  ne_zero w hw := by
    have hpos := roundFloat64_pos (n := w.natAbs) (by omega)
    split_ifs <;> omega

theorem float64Abs_exact : float64Abs.Exact := by
  intro w hpos hle
  have hround : roundFloat64 w.natAbs = w.natAbs := roundFloat64_eq (by omega)
  simp only [float64Abs, hround]
  rw [if_pos (by omega)]
  omega

section Divisor

theorem gcd_eq_gcd {a b : ℤ} (ha : 0 ≤ a) (hb : 0 ≤ b) : gcd a b = GCDMonoid.gcd a b := by
  rw [← Int.coe_gcd]
  fun_induction gcd a b with
  | case1 a => rw [Int.gcd_zero_right, Int.natAbs_of_nonneg ha]
  | case2 a b _ ih =>
    have hmod : a.tmod b = a % b := Int.tmod_eq_emod_of_nonneg ha
    rw [ih hb (hmod ▸ Int.emod_nonneg a ‹_›), hmod, Int.gcd_comm, Int.gcd_emod]

def weightGcd (backends : List Backend) : ℤ :=
  ((backends.map Backend.weight : List ℤ) : Multiset ℤ).gcd

theorem weightGcd_cons (b : Backend) (bs : List Backend) :
    weightGcd (b :: bs) = GCDMonoid.gcd b.weight (weightGcd bs) := by
  unfold weightGcd
  rw [List.map_cons, ← Multiset.cons_coe, Multiset.gcd_cons]

theorem weightGcd_dvd {backends : List Backend} {b : Backend} (hb : b ∈ backends) :
    weightGcd backends ∣ b.weight :=
  Multiset.gcd_dvd (Multiset.mem_coe.mpr (List.mem_map_of_mem hb))

theorem weightGcd_pos {backends : List Backend} (h : backends ≠ []) : 0 < weightGcd backends := by
  obtain ⟨b, bs, rfl⟩ := List.exists_cons_of_ne_nil h
  rw [weightGcd_cons, ← Int.coe_gcd, Int.natCast_pos]
  exact Int.gcd_pos_of_ne_zero_left _ b.weight_pos.ne'

theorem foldl_gcd {f : FloatAbs} (hf : f.Exact) {backends : List Backend}
    (hw : ∀ b ∈ backends, b.weight ≤ 2 ^ 53) {g : ℤ} (hg : 0 ≤ g) :
    backends.foldl (fun newGcd c => gcd newGcd (f.abs c.weight)) g =
      GCDMonoid.gcd g (weightGcd backends) := by
  induction backends generalizing g with
  | nil =>
    rw [List.foldl_nil, weightGcd, List.map_nil, Multiset.coe_nil, Multiset.gcd_zero,
      ← Int.coe_gcd, Int.gcd_zero_right, Int.natAbs_of_nonneg hg]
  | cons b bs ih =>
    obtain ⟨hb, hbs⟩ := List.forall_mem_cons.mp hw
    rw [List.foldl_cons, hf _ b.weight_pos hb, gcd_eq_gcd hg b.weight_pos.le, ih hbs,
      weightGcd_cons, gcd_assoc]
    rw [← Int.coe_gcd]
    positivity

/-- For weights that a float holds the divisor is the one it is meant to be. -/
theorem recalculateGCD_eq {f : FloatAbs} (hf : f.Exact) {backends : List Backend}
    (hne : backends ≠ []) (hw : ∀ b ∈ backends, b.weight ≤ 2 ^ 53) :
    recalculateGCD f backends = weightGcd backends := by
  match backends with
  | [] => exact absurd rfl hne
  | [b] =>
    rw [recalculateGCD, weightGcd, List.map_singleton, Multiset.coe_singleton,
      Multiset.gcd_singleton, Int.normalize_of_nonneg b.weight_pos.le]
  | b :: c :: bs =>
    obtain ⟨hb, hbs⟩ := List.forall_mem_cons.mp hw
    calc recalculateGCD f (b :: c :: bs)
        = (c :: bs).foldl (fun newGcd c => gcd newGcd (f.abs c.weight)) (f.abs b.weight) := rfl
      _ = GCDMonoid.gcd b.weight (weightGcd (c :: bs)) := by
        rw [hf _ b.weight_pos hb, foldl_gcd hf hbs b.weight_pos.le]
      _ = weightGcd (b :: c :: bs) := (weightGcd_cons b (c :: bs)).symm

end Divisor

def LoadBalancerPool.hasBackends {f : FloatAbs} (p : LoadBalancerPool f) : Bool :=
  decide (0 < p.backends.length)

namespace Pools
variable {f : FloatAbs}

/-- The keys of the pools that have backends. -/
def announced (m : Pools f) : List (List Char) :=
  (m.entries.filter fun entry => entry.2.hasBackends).map Sigma.fst

theorem announced_nodup (m : Pools f) : m.announced.Nodup :=
  m.keys_nodup.sublist (List.filter_sublist.map Sigma.fst)

theorem mem_announced_iff_lookup (m : Pools f) (key : List Char) :
    key ∈ m.announced ↔ ∃ pool, m.lookup key = some pool ∧ pool.hasBackends = true := by
  unfold announced
  rw [List.mem_map]
  constructor
  · rintro ⟨⟨k, pool⟩, hmem, rfl⟩
    obtain ⟨hentry, hpool⟩ := List.mem_filter.mp hmem
    exact ⟨pool, AList.mem_lookup_iff.mpr hentry, hpool⟩
  · rintro ⟨pool, hk, hpool⟩
    exact ⟨⟨key, pool⟩, List.mem_filter.mpr ⟨AList.mem_lookup_iff.mp hk, hpool⟩, rfl⟩

theorem mem_announced (m : Pools f) (key : List Char) :
    key ∈ m.announced ↔ ∃ b, b ∈ m.contents key := by
  rw [mem_announced_iff_lookup, contents]
  cases m.lookup key with
  | none => simp
  | some pool =>
    simp only [Option.some.injEq, exists_eq_left', Option.elim_some,
      LoadBalancerPool.hasBackends, decide_eq_true_eq]
    exact List.length_pos_iff_exists_mem

theorem Mirrors.mem_announced {registered : List Backend} {keys : Backend → List (List Char)}
    {m : Pools f} (h : Mirrors registered keys m) (key : List Char) :
    key ∈ m.announced ↔ ∃ b ∈ registered, key ∈ keys b := by
  rw [m.mem_announced]
  exact exists_congr (h.mem_contents key)

end Pools

/-- `GetLocalRoutes`, in the order of the maps' entries. -/
def HubImpl.getLocalRoutes {f : FloatAbs} (h : HubImpl f) : List (List Char) :=
  h.pools.announced ++ h.wildcardPools.announced.map ('*' :: ·)

section Names
variable {u : Unicode}

theorem wildcardSuffix_eq_some {hn suffix : List Char}
    (h : wildcardSuffix u hn = some suffix) : normalizeOrWildcard u hn = '*' :: suffix := by
  unfold wildcardSuffix at h
  dsimp only at h
  split_ifs at h with hvalid
  have hstar : ['*', '.'] <+: normalizeOrWildcard u hn := by
    simp only [isValidWildcard, isWildcard, Bool.and_eq_true] at hvalid
    exact List.isPrefixOf_iff_prefix.mp hvalid.1.1.1
  obtain ⟨rest, hrest⟩ := hstar
  rw [← hrest] at h ⊢
  cases h
  rfl

theorem exactKey_ne_wildcard {b c : Backend} {key suffix : List Char}
    (hkey : key ∈ b.exactKeys u) (hc : ∀ hn ∈ c.hostnames, normalizeOrWildcard u hn = hn)
    (hsuffix : suffix ∈ c.wildcardKeys u) : key ≠ '*' :: suffix := by
  rintro rfl
  have hport (t : Transport) (port : ℤ) : routeKey t port ≠ '*' :: suffix := by
    cases t <;> simp [routeKey, routeKeyPrefix]
  obtain ⟨hn, hmem, hw⟩ := List.mem_filterMap.mp hsuffix
  have hcanon : hn = '*' :: suffix := (hc hn hmem).symm.trans (wildcardSuffix_eq_some hw)
  simp only [Backend.exactKeys, List.mem_append, List.mem_filter, List.mem_map,
    decide_eq_true_eq] at hkey
  rcases hkey with (⟨-, hnone⟩ | ⟨port, -, heq⟩) | ⟨route, -, heq⟩
  · rw [← hcanon, hw] at hnone
    cases hnone
  · exact hport _ _ heq
  · exact hport _ _ heq

end Names

namespace System
variable {f : FloatAbs} (u : Unicode)

/-- What a call may register: weights that a float holds, and names in canonical form. -/
def Canonical (b : Backend) : Prop :=
  b.weight ≤ 2 ^ 53 ∧ ∀ hn ∈ b.hostnames, normalizeOrWildcard u hn = hn

/-- The pools and the announced routes are those of the registered backends. -/
structure MirrorsRegistrations (s : System f) : Prop where
  exact : Pools.Mirrors s.registered (Backend.exactKeys u) s.hub.pools
  wildcard : Pools.Mirrors s.registered (Backend.wildcardKeys u) s.hub.wildcardPools
  divisor : ∀ key pool,
    s.hub.pools.lookup key = some pool ∨ s.hub.wildcardPools.lookup key = some pool →
      pool.backends ≠ [] → pool.greatestCommonDiv = weightGcd pool.backends
  routes_nodup : s.hub.getLocalRoutes.Nodup
  mem_routes : ∀ route, route ∈ s.hub.getLocalRoutes ↔
    (∃ b ∈ s.registered, route ∈ b.exactKeys u) ∨
      ∃ b ∈ s.registered, ∃ suffix ∈ b.wildcardKeys u, route = '*' :: suffix

variable {u} {s : System f}

theorem Consistent.mem_getLocalRoutes (h : s.Consistent u) (route : List Char) :
    route ∈ s.hub.getLocalRoutes ↔
      (∃ b ∈ s.registered, route ∈ b.exactKeys u) ∨
        ∃ b ∈ s.registered, ∃ suffix ∈ b.wildcardKeys u, route = '*' :: suffix := by
  rw [HubImpl.getLocalRoutes, List.mem_append, List.mem_map, h.exact.mem_announced]
  simp only [h.wildcard.mem_announced]
  constructor
  · rintro (hexact | ⟨suffix, ⟨b, hb, hsuffix⟩, rfl⟩)
    · exact Or.inl hexact
    · exact Or.inr ⟨b, hb, suffix, hsuffix, rfl⟩
  · rintro (hexact | ⟨b, hb, suffix, hsuffix, rfl⟩)
    · exact Or.inl hexact
    · exact Or.inr ⟨suffix, ⟨b, hb, hsuffix⟩, rfl⟩

theorem Consistent.getLocalRoutes_nodup (h : s.Consistent u)
    (hnames : ∀ b ∈ s.registered, ∀ hn ∈ b.hostnames, normalizeOrWildcard u hn = hn) :
    s.hub.getLocalRoutes.Nodup := by
  refine List.nodup_append.mpr ⟨s.hub.pools.announced_nodup, ?_, ?_⟩
  · exact s.hub.wildcardPools.announced_nodup.map (List.cons_injective)
  · intro key hkey route hroute
    obtain ⟨b, -, hbkey⟩ := (h.exact.mem_announced key).mp hkey
    obtain ⟨suffix, hsuffix, rfl⟩ := List.mem_map.mp hroute
    obtain ⟨c, hc, hckey⟩ := (h.wildcard.mem_announced suffix).mp hsuffix
    exact exactKey_ne_wildcard hbkey (hnames c hc) hckey

theorem Consistent.divisor_eq (h : s.Consistent u) (hf : f.Exact)
    (hw : ∀ b ∈ s.registered, b.weight ≤ 2 ^ 53) {key : List Char} {pool : LoadBalancerPool f}
    (hpool : s.hub.pools.lookup key = some pool ∨ s.hub.wildcardPools.lookup key = some pool)
    (hne : pool.backends ≠ []) : pool.greatestCommonDiv = weightGcd pool.backends := by
  rw [pool.gcd_eq]
  apply recalculateGCD_eq hf hne
  intro b hb
  rcases hpool with hpool | hpool
  · rw [← Pools.contents_of_lookup hpool] at hb
    exact hw b ((h.exact.mem_contents key b).mp hb).1
  · rw [← Pools.contents_of_lookup hpool] at hb
    exact hw b ((h.wildcard.mem_contents key b).mp hb).1

theorem run_registered {P : Backend → Prop} {calls : List Call}
    (hP : ∀ b, Call.register b ∈ calls → P b)
    (hrun : Transition.run (step u) start calls = some s) : ∀ b ∈ s.registered, P b := by
  let G : System f → Call → Prop := fun _ call => ∀ b, call = .register b → P b
  have hG : Transition.Along (step u) G start calls :=
    Transition.along_of_forall (by
      rintro _ hcall _ b rfl
      exact hP b hcall) _
  refine Transition.invariant_along (I := fun s => ∀ b ∈ s.registered, P b) ?_ ?_ hG hrun
  · intro s call t hs hguard hstep
    cases call with
    | register b =>
      simp only [step, Option.ite_none_right_eq_some, Option.some.injEq] at hstep
      obtain ⟨-, rfl⟩ := hstep
      exact List.forall_mem_cons.mpr ⟨hguard b rfl, hs⟩
    | unregister b =>
      simp only [step, Option.ite_none_right_eq_some, Option.some.injEq] at hstep
      obtain ⟨-, rfl⟩ := hstep
      exact fun c hc => hs c (List.mem_of_mem_erase hc)
    | selectBackend hostname =>
      simp only [step, Option.some.injEq] at hstep
      exact hstep ▸ hs
  · intro b hb
    cases hb

/-- After any calls the pools hold each registered backend once per claim and nobody else,
their divisors are those of the members' weights, and the announced routes are the claimed
ones. -/
theorem pools_mirror_registrations (hf : f.Exact) {calls : List Call}
    (hcalls : ∀ b, Call.register b ∈ calls → Canonical u b)
    (hrun : Transition.run (step u) start calls = some s) : s.MirrorsRegistrations u := by
  have h := run_consistent u hrun
  have hreg := run_registered hcalls hrun
  exact
    { exact := h.exact
      wildcard := h.wildcard
      divisor := fun _ _ hpool hne => h.divisor_eq hf (fun b hb => (hreg b hb).1) hpool hne
      routes_nodup := h.getLocalRoutes_nodup fun b hb => (hreg b hb).2
      mem_routes := h.mem_getLocalRoutes }

end System

theorem wildcard_and_name_mirrored :
    ∃ s : System float64Abs, Transition.run (System.step plainNames) System.start
        [.register wildcardHolder, .register nameHolder, .unregister wildcardHolder] = some s ∧
      s.registered = [nameHolder] ∧ s.MirrorsRegistrations plainNames := by
  have hex : ∃ s : System float64Abs, Transition.run (System.step plainNames) System.start
        [.register wildcardHolder, .register nameHolder, .unregister wildcardHolder] = some s ∧
      s.registered = [nameHolder] := Transition.exists_run_of_any (by decide +kernel)
  obtain ⟨s, hrun, hreg⟩ := hex
  refine ⟨s, hrun, hreg, System.pools_mirror_registrations float64Abs_exact ?_ hrun⟩
  have hcanon : System.Canonical plainNames wildcardHolder ∧
      System.Canonical plainNames nameHolder := by
    unfold System.Canonical
    decide
  intro b hb
  simp only [List.mem_cons, Call.register.injEq, reduceCtorEq, List.not_mem_nil, or_false] at hb
  rcases hb with rfl | rfl
  · exact hcanon.1
  · exact hcanon.2

end NexusProxy.Hub
