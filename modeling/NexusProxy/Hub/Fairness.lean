import NexusProxy.Hub.LocalRoutes
import NexusProxy.Lib.RoundRobin

/-! Exact fairness of `Select`: after any calls on a pool the weighted round robin settles into
its schedule, and every window of a schedule's length serves each member by its weight. -/
namespace NexusProxy.Hub
open FixedWidth RoundRobin SwapRemove

namespace LoadBalancerPool
variable {f : FloatAbs}

section Loop

def Serves (p : LoadBalancerPool f) : Prop :=
  ∃ b ∈ p.backends[p.currentIndex.toNat]?, p.currentWeight ≤ b.weight

instance : DecidablePred (Serves (f := f)) := fun p =>
  inferInstanceAs (Decidable (∃ b ∈ p.backends[p.currentIndex.toNat]?, p.currentWeight ≤ b.weight))

/-- The loop of `Select` moves on, at least once, to the next position that serves. -/
theorem selectLoop_firstHit {p q : LoadBalancerPool f} (hne : p.backends ≠ []) {fuel : ℕ}
    {r : Except SelectError Backend} (h : selectLoop fuel p = some (r, q)) :
    FirstHit advance Serves p q ∧ ∃ b, q.backends[q.currentIndex.toNat]? = some b ∧ r = .ok b := by
  induction fuel generalizing p with
  | zero => cases h
  | succ fuel ih =>
    have hzero : ¬(p.advance.currentIndex = 0 ∧ p.advance.currentWeight = 0) := by
      rintro ⟨h0, hw⟩
      rw [advance_weight, if_pos h0] at hw
      exact (passWeight_pos hne).ne' hw
    rw [selectLoop, if_neg hzero] at h
    split at h
    · cases h
    · rename_i b hb
      split_ifs at h with hle
      · obtain ⟨rfl, rfl⟩ := Prod.mk.inj (Option.some.inj h)
        exact ⟨⟨0, rfl, ⟨b, hb, hle⟩, fun e he => (Nat.not_lt_zero e he).elim⟩, b, hb, rfl⟩
      · obtain ⟨⟨d, hq, hserves, hbefore⟩, hresult⟩ := ih (p := p.advance) hne h
        refine ⟨⟨d + 1, hq, hserves, ?_⟩, hresult⟩
        intro e he
        cases e with
        | zero =>
          rintro ⟨c, hc, hcle⟩
          obtain rfl : b = c := Option.some.inj (hb.symm.trans hc)
          exact hle hcle
        | succ e => exact hbefore e (Nat.lt_of_succ_lt_succ he)

theorem select_firstHit {p : LoadBalancerPool f} (hlen : 2 ≤ p.backends.length) :
    FirstHit advance Serves p p.select.2 ∧
      ∃ b, p.backends[p.select.2.currentIndex.toNat]? = some b ∧ p.select.1 = .ok b := by
  have hne : p.backends ≠ [] := List.ne_nil_of_length_pos (by omega)
  have hsel := selectWithin_eq_select (p := p) le_rfl
  unfold selectWithin at hsel
  split at hsel
  · rename_i h
    exact absurd h hne
  · rename_i b h
    simp [h] at hlen
  · obtain ⟨hfirst, b, hb, hok⟩ :=
      selectLoop_firstHit (q := p.select.2) (r := p.select.1) hne hsel
    rw [select_backends] at hb
    exact ⟨hfirst, b, hb, hok⟩

end Loop

section Weights

/-- The bounds that the calls on a pool keep, for weights that a float holds. -/
structure Bounded (p : LoadBalancerPool f) : Prop where
  members : ∀ b ∈ p.backends, b.weight ≤ 2 ^ 53
  nonneg : 0 ≤ p.currentWeight
  le : p.currentWeight ≤ 2 ^ 53

variable {p : LoadBalancerPool f}

theorem Bounded.maxWeight_le (h : p.Bounded) : maxWeight p.backends ≤ 2 ^ 53 := by
  obtain ⟨-, hmax | ⟨b, hb, hmax⟩⟩ := maxWeight_spec p.backends
  · rw [hmax]
    decide
  · exact hmax ▸ h.members b hb

theorem Bounded.divisor_eq (h : p.Bounded) (hf : f.Exact) (hne : p.backends ≠ []) :
    p.greatestCommonDiv = weightGcd p.backends := by
  rw [p.gcd_eq]
  exact recalculateGCD_eq hf hne h.members

theorem weightGcd_dvd_maxWeight {backends : List Backend} (hne : backends ≠ []) :
    weightGcd backends ∣ maxWeight backends := by
  obtain ⟨k, hk, hmax⟩ := exists_maxWeight hne
  rw [← hmax]
  exact weightGcd_dvd (List.get_mem backends ⟨k, hk⟩)

theorem Bounded.passWeight_eq (h : p.Bounded) (hf : f.Exact) (hne : p.backends ≠ []) :
    p.passWeight = if p.currentWeight ≤ weightGcd p.backends then maxWeight p.backends
      else p.currentWeight - weightGcd p.backends := by
  have hpos := weightGcd_pos hne
  have hle := Int.le_of_dvd (maxWeight_pos hne) (weightGcd_dvd_maxWeight hne)
  have hmax := h.maxWeight_le
  have hnonneg := h.nonneg
  have hcur := h.le
  unfold passWeight
  dsimp only
  rw [h.divisor_eq hf hne, int64_eq (by omega) (by omega)]
  split_ifs <;> omega

theorem Bounded.passWeight_le (h : p.Bounded) (hf : f.Exact) (hne : p.backends ≠ []) :
    p.passWeight ≤ 2 ^ 53 := by
  have hpos := weightGcd_pos hne
  have hmax := h.maxWeight_le
  have hcur := h.le
  rw [h.passWeight_eq hf hne]
  split_ifs <;> omega

theorem Bounded.advance (h : p.Bounded) (hf : f.Exact) (hne : p.backends ≠ []) :
    p.advance.Bounded where
  members := h.members
  nonneg := by
    rw [advance_weight]
    split_ifs
    · exact (passWeight_pos hne).le
    · exact h.nonneg
  le := by
    rw [advance_weight]
    split_ifs
    · exact h.passWeight_le hf hne
    · exact h.le

@[simp] theorem iterate_advance_backends (p : LoadBalancerPool f) (t : ℕ) :
    (LoadBalancerPool.advance^[t] p).backends = p.backends := by
  induction t with
  | zero => rfl
  | succ t ih => rw [Function.iterate_succ_apply', advance_backends, ih]

theorem Bounded.iterate_advance (h : p.Bounded) (hf : f.Exact) (hne : p.backends ≠ []) (t : ℕ) :
    (LoadBalancerPool.advance^[t] p).Bounded := by
  induction t with
  | zero => exact h
  | succ t ih =>
    rw [Function.iterate_succ_apply']
    exact ih.advance hf (by rwa [iterate_advance_backends])

end Weights

section Alignment

def levels (p : LoadBalancerPool f) : ℕ := (maxWeight p.backends / weightGcd p.backends).toNat

/-- In how many of them the position is served. -/
def share (p : LoadBalancerPool f) (i : ℕ) : ℕ :=
  (p.backends[i]?.elim 0 Backend.weight / weightGcd p.backends).toNat

/-- The cursor is where iteration `t` of the schedule puts it. -/
structure OnSchedule (t : ℕ) (p : LoadBalancerPool f) : Prop where
  index : p.currentIndex = (t % p.backends.length : ℕ)
  weight : p.currentWeight = level p.backends.length p.levels t * weightGcd p.backends

variable {p : LoadBalancerPool f}

theorem iterate_advance_levels (p : LoadBalancerPool f) (t : ℕ) :
    (LoadBalancerPool.advance^[t] p).levels = p.levels := by
  rw [levels, levels, iterate_advance_backends]

theorem iterate_advance_share (p : LoadBalancerPool f) (t : ℕ) :
    (LoadBalancerPool.advance^[t] p).share = p.share := by
  funext i
  rw [share, share, iterate_advance_backends]

theorem levels_mul (hne : p.backends ≠ []) :
    (p.levels : ℤ) * weightGcd p.backends = maxWeight p.backends := by
  have hdiv : 0 ≤ maxWeight p.backends / weightGcd p.backends :=
    Int.ediv_nonneg (maxWeight_pos hne).le (weightGcd_pos hne).le
  rw [levels, Int.toNat_of_nonneg hdiv, Int.ediv_mul_cancel (weightGcd_dvd_maxWeight hne)]

theorem levels_pos (hne : p.backends ≠ []) : 0 < p.levels := by
  have hmul := levels_mul hne
  have hmax := maxWeight_pos hne
  rcases Nat.eq_zero_or_pos p.levels with h0 | hpos
  · rw [h0, Nat.cast_zero, zero_mul] at hmul
    omega
  · exact hpos

theorem share_mul {i : ℕ} {b : Backend} (hb : p.backends[i]? = some b) :
    (p.share i : ℤ) * weightGcd p.backends = b.weight := by
  have hmem := List.mem_of_getElem? hb
  have hdiv : 0 ≤ b.weight / weightGcd p.backends :=
    Int.ediv_nonneg b.weight_pos.le (weightGcd_pos (List.ne_nil_of_mem hmem)).le
  rw [share, hb, Option.elim_some, Int.toNat_of_nonneg hdiv,
    Int.ediv_mul_cancel (weightGcd_dvd hmem)]

theorem share_le (hne : p.backends ≠ []) {i : ℕ} (hi : i < p.backends.length) :
    p.share i ≤ p.levels := by
  have hb := List.getElem?_eq_getElem hi
  have hle := (maxWeight_spec p.backends).1 _ (List.getElem_mem hi)
  rw [← share_mul hb, ← levels_mul hne] at hle
  exact_mod_cast le_of_mul_le_mul_right hle (weightGcd_pos hne)

theorem OnSchedule.start (hne : p.backends ≠ []) (hindex : p.currentIndex = 0)
    (hweight : p.currentWeight = maxWeight p.backends) : p.OnSchedule 0 := by
  constructor
  · rw [hindex, Nat.zero_mod, Nat.cast_zero]
  · rw [hweight, level, Nat.zero_div, Nat.zero_mod, Nat.sub_zero, levels_mul hne]

theorem OnSchedule.advance {t : ℕ} (h : p.OnSchedule t) (hb : p.Bounded) (hf : f.Exact)
    (hne : p.backends ≠ []) : p.advance.OnSchedule (t + 1) := by
  have hg := weightGcd_pos hne
  have hm := levels_pos hne
  have hindex : p.advance.currentIndex = ((t + 1) % p.backends.length : ℕ) := by
    rw [advance_index, h.index]
    push_cast
    exact Int.emod_add_emod t p.backends.length 1
  refine ⟨hindex, ?_⟩
  change p.advance.currentWeight = level p.backends.length p.levels (t + 1) * weightGcd p.backends
  rw [advance_weight, hindex]
  by_cases hwrap : (t + 1) % p.backends.length = 0
  · rw [if_pos (by exact_mod_cast hwrap), hb.passWeight_eq hf hne, h.weight,
      level_succ_wraps hm hwrap]
    have hpos := level_pos (n := p.backends.length) hm t
    generalize level p.backends.length p.levels t = l at hpos
    by_cases hone : l = 1
    · rw [if_pos hone, if_pos (by rw [hone]; simp), levels_mul hne]
    · have hmul : weightGcd p.backends < l * weightGcd p.backends := by
        have hl : (2 : ℤ) ≤ l := by omega
        nlinarith
      rw [if_neg hone, if_neg (not_le.mpr hmul), Nat.cast_sub (by omega)]
      push_cast
      ring
  · rw [if_neg (by exact_mod_cast hwrap), h.weight, level_succ_within hwrap]

theorem OnSchedule.iterate {s : ℕ} (h : p.OnSchedule s) (hb : p.Bounded) (hf : f.Exact)
    (hne : p.backends ≠ []) (t : ℕ) :
    (LoadBalancerPool.advance^[t] p).OnSchedule (s + t) := by
  induction t with
  | zero => exact h
  | succ t ih =>
    rw [Function.iterate_succ_apply']
    exact ih.advance (hb.iterate_advance hf hne t) hf (by rwa [iterate_advance_backends])

theorem OnSchedule.serves_iff {t : ℕ} (h : p.OnSchedule t) (hne : p.backends ≠ []) :
    p.Serves ↔ Served p.backends.length p.levels p.share t := by
  have hi : t % p.backends.length < p.backends.length :=
    Nat.mod_lt t (List.length_pos_of_ne_nil hne)
  have hb := List.getElem?_eq_getElem hi
  have hmul := share_mul hb
  have hindex : p.currentIndex.toNat = t % p.backends.length := by
    rw [h.index, Int.toNat_natCast]
  unfold Serves Served
  rw [hindex, hb, h.weight]
  simp only [Option.mem_some_iff, exists_eq_left', ← hmul]
  rw [mul_le_mul_iff_left₀ (weightGcd_pos hne)]
  exact Nat.cast_le

theorem exists_next_pass (hl : 0 ≤ p.currentIndex) (hu : p.currentIndex < p.backends.length) :
    ∃ d, (LoadBalancerPool.advance^[d + 1] p).currentIndex = 0 ∧
      (LoadBalancerPool.advance^[d + 1] p).currentWeight = p.passWeight := by
  obtain ⟨r, hr⟩ : ∃ r : ℕ, p.currentIndex + 1 + r = p.backends.length :=
    ⟨(p.backends.length - (p.currentIndex + 1)).toNat, by omega⟩
  induction r generalizing p with
  | zero => exact ⟨0, advance_wraps (by simpa using hr)⟩
  | succ r ih =>
    have hwithin : p.currentIndex + 1 < p.backends.length := by omega
    obtain ⟨hindex, hweight⟩ := advance_within hl hwithin
    obtain ⟨d, hzero, hpass⟩ := ih (p := p.advance) (by omega) (by rw [hindex]; exact hwithin)
      (by rw [hindex, advance_backends]; omega)
    have hsame : p.advance.passWeight = p.passWeight := by
      unfold passWeight
      rw [hweight, advance_backends, advance_gcd]
    exact ⟨d + 1, hzero, hpass.trans hsame⟩

/-- However the cursor was left, passes go down to the divisor and then start from the top. -/
theorem exists_onSchedule (hb : p.Bounded) (hf : f.Exact) (hne : p.backends ≠ [])
    (hl : 0 ≤ p.currentIndex) (hu : p.currentIndex < p.backends.length) :
    ∃ d, (LoadBalancerPool.advance^[d + 1] p).OnSchedule 0 := by
  have hg := weightGcd_pos hne
  -- induction on the weight, which every pass that does not start from the top lowers
  induction hw : p.currentWeight.toNat using Nat.strong_induction_on generalizing p with
  | _ w ih =>
    obtain ⟨d, hindex, hweight⟩ := exists_next_pass hl hu
    have hne' : (LoadBalancerPool.advance^[d + 1] p).backends ≠ [] := by
      rwa [iterate_advance_backends]
    rw [hb.passWeight_eq hf hne] at hweight
    split_ifs at hweight with hlast
    · refine ⟨d, OnSchedule.start hne' hindex ?_⟩
      rw [hweight, iterate_advance_backends]
    · have hlen := List.length_pos_of_ne_nil hne
      have hless : (LoadBalancerPool.advance^[d + 1] p).currentWeight.toNat < w := by
        have := hb.nonneg
        omega
      obtain ⟨e, he⟩ := ih _ hless (hb.iterate_advance hf hne _) hne' (by omega)
        (by rw [hindex, iterate_advance_backends]; exact_mod_cast hlen)
        (by rwa [iterate_advance_backends]) rfl
      rw [← Function.iterate_add_apply] at he
      exact ⟨e + 1 + d, he⟩

end Alignment

section Windows

/-- What the selection after the next `k` ones returns. -/
def pick (p : LoadBalancerPool f) (k : ℕ) : Except SelectError Backend :=
  ((fun q => q.select.2)^[k] p).select.1

def pickIndex (p : LoadBalancerPool f) (k : ℕ) : ℕ :=
  ((fun q => q.select.2)^[k + 1] p).currentIndex.toNat

/-- The selections of one round of the schedule. -/
def period (p : LoadBalancerPool f) : ℕ :=
  ((p.backends.map Backend.weight).sum / weightGcd p.backends).toNat

/-- In every window of a period's length after the next `K` selections, every position and
every backend is selected by its weight. -/
structure FairFrom (p : LoadBalancerPool f) (K : ℕ) : Prop where
  position : ∀ k ≥ K, ∀ i b, p.backends[i]? = some b →
    (Nat.count (fun j => p.pickIndex (k + j) = i) p.period : ℤ) =
      b.weight / weightGcd p.backends
  backend : ∀ k ≥ K, ∀ b,
    (Nat.count (fun j => p.pick (k + j) = .ok b) p.period : ℤ) =
      p.backends.count b * (b.weight / weightGcd p.backends)

variable {p : LoadBalancerPool f}

@[simp] theorem iterate_select_backends (p : LoadBalancerPool f) (k : ℕ) :
    ((fun q => q.select.2)^[k] p).backends = p.backends := by
  induction k with
  | zero => rfl
  | succ k ih => rw [Function.iterate_succ_apply', select_backends, ih]

theorem sum_share (hne : p.backends ≠ []) :
    ∑ i ∈ Finset.range p.backends.length, p.share i = p.period := by
  have hmul : (∑ i ∈ Finset.range p.backends.length, p.share i : ℤ) * weightGcd p.backends =
      (p.backends.map Backend.weight).sum := by
    rw [Finset.sum_mul, Finset.sum_range, ← Fin.sum_univ_fun_getElem]
    exact Finset.sum_congr rfl fun i _ => share_mul (List.getElem?_eq_getElem i.isLt)
  rw [period, ← hmul, Int.mul_ediv_cancel _ (weightGcd_pos hne).ne', ← Nat.cast_sum,
    Int.toNat_natCast]

theorem sum_share_backend (b : Backend) :
    (∑ i ∈ (Finset.range p.backends.length).filter fun i => p.backends[i]? = some b,
        p.share i : ℤ) = p.backends.count b * (b.weight / weightGcd p.backends) := by
  have hshare : ∀ i ∈ (Finset.range p.backends.length).filter fun i => p.backends[i]? = some b,
      (p.share i : ℤ) = b.weight / weightGcd p.backends := by
    intro i hi
    have hb := (Finset.mem_filter.mp hi).2
    rw [← share_mul hb, Int.mul_ediv_cancel _
      (weightGcd_pos (List.ne_nil_of_mem (List.mem_of_getElem? hb))).ne']
  rw [Finset.sum_congr rfl hshare, Finset.sum_const, ← Nat.count_eq_card_filter_range,
    count_getElem?, nsmul_eq_mul]

theorem iterate_firstHit (hlen : 2 ≤ p.backends.length) (k : ℕ) :
    FirstHit LoadBalancerPool.advance Serves ((fun q => q.select.2)^[k] p)
      ((fun q => q.select.2)^[k + 1] p) := by
  rw [Function.iterate_succ_apply']
  exact (select_firstHit (by rwa [iterate_select_backends])).1

theorem pick_eq_ok_iff (hlen : 2 ≤ p.backends.length) (k : ℕ) (b : Backend) :
    p.pick k = .ok b ↔ p.backends[p.pickIndex k]? = some b := by
  obtain ⟨-, c, hc, hok⟩ :=
    select_firstHit (p := (fun q => q.select.2)^[k] p) (by rwa [iterate_select_backends])
  rw [iterate_select_backends] at hc
  rw [pick, pickIndex, Function.iterate_succ_apply', hok, hc]
  simp

/-- Once the loop is on its schedule, every window is fair. -/
theorem fairFrom_of_onSchedule (hb : p.Bounded) (hf : f.Exact) (hlen : 2 ≤ p.backends.length)
    {J : ℕ} (hJ : (LoadBalancerPool.advance^[J + 1] p).OnSchedule 0) :
    p.FairFrom (Nat.count (fun t => (LoadBalancerPool.advance^[t + 1] p).Serves) J) := by
  have hne : p.backends ≠ [] := List.ne_nil_of_length_pos (by omega)
  have hschedule (t : ℕ) : (LoadBalancerPool.advance^[J + t + 1] p).OnSchedule t := by
    have ht := hJ.iterate (hb.iterate_advance hf hne _) hf (by rwa [iterate_advance_backends]) t
    rw [← Function.iterate_add_apply, Nat.zero_add] at ht
    rwa [Nat.add_right_comm, Nat.add_comm (J + 1) t]
  have hposition (t : ℕ) :
      (LoadBalancerPool.advance^[J + t + 1] p).currentIndex.toNat = t % p.backends.length := by
    rw [(hschedule t).index, Int.toNat_natCast, iterate_advance_backends]
  have hserved (t : ℕ) : (LoadBalancerPool.advance^[J + t + 1] p).Serves ↔
      Served p.backends.length p.levels p.share t := by
    have hiff := (hschedule t).serves_iff (by rwa [iterate_advance_backends])
    rwa [iterate_advance_backends, iterate_advance_levels, iterate_advance_share] at hiff
  have hwindow {k : ℕ}
      (hk : Nat.count (fun t => (LoadBalancerPool.advance^[t + 1] p).Serves) J ≤ k)
      (Q : ℕ → Prop) [DecidablePred Q] :
      Nat.count (fun j => Q (p.pickIndex (k + j))) p.period =
        ∑ i ∈ (Finset.range p.backends.length).filter Q, p.share i := by
    rw [← sum_share hne]
    exact count_selections (iterate_firstHit hlen) (fun q => q.currentIndex.toNat) (by omega)
      (fun i hi => share_le hne hi) hposition hserved hk Q
  constructor
  · intro k hk i b hi
    have hlt : i < p.backends.length := (List.getElem?_eq_some_iff.mp hi).1
    rw [hwindow hk fun j => j = i, Finset.filter_eq', if_pos (Finset.mem_range.mpr hlt),
      Finset.sum_singleton, ← share_mul hi, Int.mul_ediv_cancel _ (weightGcd_pos hne).ne']
  · intro k hk b
    have hpicks : Nat.count (fun j => p.pick (k + j) = .ok b) p.period =
        Nat.count (fun j => p.backends[p.pickIndex (k + j)]? = some b) p.period :=
      count_congr fun j _ => pick_eq_ok_iff hlen (k + j) b
    rw [hpicks, hwindow hk fun i => p.backends[i]? = some b]
    push_cast
    exact sum_share_backend b

end Windows

section Calls

/-- A call on a pool. -/
inductive PoolCall where
  | addBackend (b : Backend)
  | removeBackend (b : Backend)
  | select

def call (p : LoadBalancerPool f) : PoolCall → Option (LoadBalancerPool f)
  | .addBackend b => some (p.addBackend b)
  | .removeBackend b => some (p.removeBackend b)
  | .select => some p.select.2

variable {p : LoadBalancerPool f}

theorem Bounded.select (h : p.Bounded) (hf : f.Exact) : p.select.2.Bounded := by
  rcases lt_or_ge p.backends.length 2 with hlt | hlen
  · rwa [select_of_length_lt hlt]
  · obtain ⟨⟨d, hd, -⟩, -⟩ := select_firstHit hlen
    rw [hd]
    exact h.iterate_advance hf (List.ne_nil_of_length_pos (by omega)) _

theorem run_bounded (hf : f.Exact) {calls : List PoolCall}
    (hcalls : ∀ b, PoolCall.addBackend b ∈ calls → b.weight ≤ 2 ^ 53)
    (hrun : Transition.run call new calls = some p) : p.Bounded := by
  let G : LoadBalancerPool f → PoolCall → Prop := fun _ c => ∀ b, c = .addBackend b →
    b.weight ≤ 2 ^ 53
  have hG : Transition.Along call G new calls :=
    Transition.along_of_forall (by
      rintro _ hcall _ b rfl
      exact hcalls b hcall) _
  refine Transition.invariant_along (I := Bounded) ?_ ?_ hG hrun
  · intro p c q h hguard hcall
    cases c with
    | addBackend b =>
      cases hcall
      refine ⟨?_, h.nonneg, h.le⟩
      intro c hc
      rcases List.mem_append.mp hc with hc | hc
      · exact h.members c hc
      · exact List.mem_singleton.mp hc ▸ hguard b rfl
    | removeBackend b =>
      cases hcall
      exact ⟨fun c hc => h.members c (mem_of_mem_removeFirst hc), h.nonneg, h.le⟩
    | select =>
      cases hcall
      exact h.select hf
  · have hzero : (0 : ℤ) ≤ 2 ^ 53 := by decide
    exact ⟨fun b hb => (nomatch hb), le_rfl, hzero⟩

/-- No selection among two or more members has been made. -/
def Unselected (p : LoadBalancerPool f) : PoolCall → Prop
  | .select => p.backends.length < 2
  | _ => True

theorem run_unselected {calls : List PoolCall}
    (hcalls : Transition.Along call Unselected (new : LoadBalancerPool f) calls)
    (hrun : Transition.run call new calls = some p) :
    p.currentIndex = -1 ∧ p.currentWeight = 0 := by
  refine Transition.invariant_along
    (I := fun p => p.currentIndex = -1 ∧ p.currentWeight = 0) ?_ ⟨rfl, rfl⟩ hcalls hrun
  intro p c q h hguard hcall
  cases c with
  | addBackend b =>
    cases hcall
    exact h
  | removeBackend b =>
    cases hcall
    exact h
  | select =>
    cases hcall
    rwa [select_of_length_lt hguard]

theorem onSchedule_of_unselected (hb : p.Bounded) (hf : f.Exact) (hne : p.backends ≠ [])
    (hindex : p.currentIndex = -1) (hweight : p.currentWeight = 0) : p.advance.OnSchedule 0 := by
  have hzero : p.advance.currentIndex = 0 := by
    rw [advance_index, hindex]
    exact Int.zero_emod _
  refine OnSchedule.start hne hzero ?_
  have hpos := weightGcd_pos hne
  rw [advance_weight, if_pos hzero, hb.passWeight_eq hf hne, if_pos (by omega), advance_backends]

/-- After any calls `Select` terminates, and if two or more members stay it is exactly fair
after finitely many selections; from the first one on if no selection among two or more
members was made before. -/
theorem select_exactly_fair (hf : f.Exact) {calls : List PoolCall}
    (hcalls : ∀ b, PoolCall.addBackend b ∈ calls → b.weight ≤ 2 ^ 53)
    (hrun : Transition.run call new calls = some p) :
    (∃ bound, ∀ fuel ≥ bound, selectWithin fuel p = some p.select) ∧
      (2 ≤ p.backends.length → ∃ K, p.FairFrom K) ∧
      (2 ≤ p.backends.length →
        Transition.Along call Unselected (new : LoadBalancerPool f) calls → p.FairFrom 0) := by
  have hb := run_bounded hf hcalls hrun
  refine ⟨⟨p.iterations, fun fuel => selectWithin_eq_select⟩, fun hlen => ?_, fun hlen hG => ?_⟩
  · have hne : p.backends ≠ [] := List.ne_nil_of_length_pos (by omega)
    obtain ⟨hl, hu⟩ := advance_index_range hne
    obtain ⟨d, hd⟩ := exists_onSchedule (p := p.advance) (hb.advance hf hne) hf hne hl hu
    exact ⟨_, fairFrom_of_onSchedule (J := d + 1) hb hf hlen hd⟩
  · have hne : p.backends ≠ [] := List.ne_nil_of_length_pos (by omega)
    obtain ⟨hindex, hweight⟩ := run_unselected hG hrun
    exact fairFrom_of_onSchedule (J := 0) hb hf hlen
      (onSchedule_of_unselected hb hf hne hindex hweight)

/-- With weights 1 and 2 every three selections serve the first member once and the second
one twice. -/
theorem one_and_two_exactly_fair :
    ∃ p : LoadBalancerPool float64Abs,
      Transition.run call new [.addBackend wildcardHolder, .addBackend nameHolder] = some p ∧
        p.period = 3 ∧ p.FairFrom 0 := by
  have hrun : Transition.run (call (f := float64Abs)) new
      [.addBackend wildcardHolder, .addBackend nameHolder] =
        some ((new.addBackend wildcardHolder).addBackend nameHolder) := rfl
  refine ⟨_, hrun, by decide +kernel, (select_exactly_fair float64Abs_exact ?_ hrun).2.2 ?_ ?_⟩
  · intro b hb
    simp only [List.mem_cons, PoolCall.addBackend.injEq, List.not_mem_nil, or_false] at hb
    rcases hb with rfl | rfl <;> decide
  · exact le_rfl
  · simp [Transition.Along, Unselected]

end Calls

end LoadBalancerPool

end NexusProxy.Hub
