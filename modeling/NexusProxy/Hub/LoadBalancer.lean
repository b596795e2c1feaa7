import NexusProxy.Lib.FixedWidth
import NexusProxy.Lib.SwapRemove

/-! `LoadBalancerPool`: the backends that share one route, and the weighted round robin
that picks one of them. -/
namespace NexusProxy.Hub
open FixedWidth SwapRemove

structure UDPRoutePolicy where
  port : ℤ
  flowIdleTimeout : ℤ
  deriving DecidableEq

/-- The fields of a backend that the pools read. The handshake turns a weight that is
not positive into 1. -/
structure Backend where
  id : List Char
  hostnames : List (List Char)
  tcpPorts : List ℤ
  udpRoutes : List UDPRoutePolicy
  weight : ℤ
  weight_pos : 0 < weight
  weight_lt : weight < 2 ^ 63
  deriving DecidableEq

theorem one_weight_pos : (0 : ℤ) < 1 := by decide

theorem one_weight_lt : (1 : ℤ) < 2 ^ 63 := by decide

theorem no_weight_lt : (0 : ℤ) < 2 ^ 63 := by decide

/-- `int(math.Abs(float64(w)))`. The result for weights that a float rounds up to `2 ^ 63`
depends on the machine; it is some word, and it is zero for no positive weight. -/
structure FloatAbs where
  abs : ℤ → ℤ
  isInt64 : ∀ w, IsInt64 (abs w)
  ne_zero : ∀ w, 0 < w → abs w ≠ 0

/-- Euclid's loop; Go's remainder truncates. -/
def gcd (a b : ℤ) : ℤ := if b = 0 then a else gcd b (a.tmod b)
termination_by b.natAbs
decreasing_by
  rename_i hb
  rw [Int.natAbs_tmod]
  exact Nat.mod_lt _ (Int.natAbs_pos.mpr hb)

theorem gcd_isInt64 {a b : ℤ} (ha : IsInt64 a) (hb : IsInt64 b) : IsInt64 (gcd a b) := by
  fun_induction gcd a b with
  | case1 a => exact ha
  | case2 a b _ ih => exact ih hb (ha.tmod b)

theorem gcd_ne_zero {a b : ℤ} (h : a ≠ 0) : gcd a b ≠ 0 := by
  fun_induction gcd a b with
  | case1 a => exact h
  | case2 a b hb ih => exact ih hb

def maxWeight (backends : List Backend) : ℤ :=
  backends.foldl (fun max b => if max < b.weight then b.weight else max) 0

def recalculateGCD (f : FloatAbs) : List Backend → ℤ
  | [] => 1
  | [b] => b.weight
  | b :: bs => bs.foldl (fun newGcd c => gcd newGcd (f.abs c.weight)) (f.abs b.weight)

theorem recalculateGCD_word (f : FloatAbs) (backends : List Backend) :
    IsInt64 (recalculateGCD f backends) ∧ recalculateGCD f backends ≠ 0 := by
  have hfold (bs : List Backend) (g : ℤ) (hg : IsInt64 g ∧ g ≠ 0) :
      IsInt64 (bs.foldl (fun newGcd c => gcd newGcd (f.abs c.weight)) g) ∧
        bs.foldl (fun newGcd c => gcd newGcd (f.abs c.weight)) g ≠ 0 := by
    induction bs generalizing g with
    | nil => exact hg
    | cons c bs ih => exact ih _ ⟨gcd_isInt64 hg.1 (f.isInt64 _), gcd_ne_zero hg.2⟩
  match backends with
  | [] => exact ⟨by simp [IsInt64, recalculateGCD], by simp [recalculateGCD]⟩
  | [b] =>
    have hpos := b.weight_pos
    have hlt := b.weight_lt
    exact ⟨⟨by simp only [recalculateGCD]; omega, hlt⟩, hpos.ne'⟩
  | b :: c :: bs =>
    exact hfold (c :: bs) _ ⟨f.isInt64 _, f.ne_zero _ b.weight_pos⟩

theorem foldl_max_spec (backends : List Backend) (m : ℤ) :
    ∃ M, backends.foldl (fun max b => if max < b.weight then b.weight else max) m = M ∧
      m ≤ M ∧ (∀ b ∈ backends, b.weight ≤ M) ∧ (M = m ∨ ∃ b ∈ backends, b.weight = M) := by
  induction backends generalizing m with
  | nil => exact ⟨m, rfl, le_rfl, by simp, Or.inl rfl⟩
  | cons b bs ih =>
    obtain ⟨M, hM, hm, hle, heq⟩ := ih (if m < b.weight then b.weight else m)
    have hboth : m ≤ M ∧ b.weight ≤ M := by
      split_ifs at hm with h
      · exact ⟨h.le.trans hm, hm⟩
      · exact ⟨hm, (not_lt.mp h).trans hm⟩
    refine ⟨M, hM, hboth.1, List.forall_mem_cons.mpr ⟨hboth.2, hle⟩, ?_⟩
    rcases heq with heq | ⟨c, hc, hcM⟩
    · split_ifs at heq with h
      · exact Or.inr ⟨b, List.mem_cons_self, heq.symm⟩
      · exact Or.inl heq
    · exact Or.inr ⟨c, List.mem_cons_of_mem b hc, hcM⟩

theorem maxWeight_spec (backends : List Backend) :
    (∀ b ∈ backends, b.weight ≤ maxWeight backends) ∧
      (maxWeight backends = 0 ∨ ∃ b ∈ backends, b.weight = maxWeight backends) := by
  obtain ⟨M, hM, -, hle, heq⟩ := foldl_max_spec backends 0
  have hM : maxWeight backends = M := hM
  rw [hM]
  exact ⟨hle, heq⟩

theorem maxWeight_lt (backends : List Backend) : maxWeight backends < 2 ^ 63 := by
  obtain ⟨-, h | ⟨b, -, hb⟩⟩ := maxWeight_spec backends
  · rw [h]
    decide
  · rw [← hb]
    exact b.weight_lt

theorem exists_maxWeight {backends : List Backend} (h : backends ≠ []) :
    ∃ k, ∃ hk : k < backends.length, (backends.get ⟨k, hk⟩).weight = maxWeight backends := by
  obtain ⟨b, hb⟩ := List.exists_mem_of_ne_nil backends h
  obtain ⟨hle, h0 | ⟨c, hc, hmax⟩⟩ := maxWeight_spec backends
  · have hzero := hle b hb
    have hpos := b.weight_pos
    omega
  · obtain ⟨k, rfl⟩ := List.mem_iff_get.mp hc
    exact ⟨k, k.isLt, hmax⟩

theorem maxWeight_pos {backends : List Backend} (h : backends ≠ []) : 0 < maxWeight backends := by
  obtain ⟨k, hk, hmax⟩ := exists_maxWeight h
  rw [← hmax]
  exact (backends.get ⟨k, hk⟩).weight_pos

inductive SelectError where
  | noBackends
  | zeroWeight
  | noPool
  deriving DecidableEq

/-- A pool in a state that its methods produce. -/
structure LoadBalancerPool (f : FloatAbs) where
  backends : List Backend
  currentWeight : ℤ
  currentIndex : ℤ
  greatestCommonDiv : ℤ
  currentWeight_lt : currentWeight < 2 ^ 63
  currentIndex_ge : -1 ≤ currentIndex
  gcd_eq : greatestCommonDiv = recalculateGCD f backends

namespace LoadBalancerPool
variable {f : FloatAbs}

def new : LoadBalancerPool f where
  backends := []
  currentWeight := 0
  currentIndex := -1
  greatestCommonDiv := 1
  currentWeight_lt := by decide
  currentIndex_ge := by decide
  gcd_eq := rfl

def addBackend (p : LoadBalancerPool f) (b : Backend) : LoadBalancerPool f :=
  { p with
    backends := p.backends ++ [b]
    greatestCommonDiv := recalculateGCD f (p.backends ++ [b])
    gcd_eq := rfl }

/-- Remove the first backend with the id of `b`. Without one the list stays, and so does
the divisor. -/
def removeBackend (p : LoadBalancerPool f) (b : Backend) : LoadBalancerPool f :=
  { p with
    backends := removeFirst (fun backend => backend.id = b.id) p.backends
    greatestCommonDiv :=
      recalculateGCD f (removeFirst (fun backend => backend.id = b.id) p.backends)
    gcd_eq := rfl }

/-- The weight that a new pass over the pool starts with. -/
def passWeight (p : LoadBalancerPool f) : ℤ :=
  let w := int64 (p.currentWeight - p.greatestCommonDiv)
  if w ≤ 0 then maxWeight p.backends else w

theorem passWeight_lt (p : LoadBalancerPool f) : p.passWeight < 2 ^ 63 := by
  unfold passWeight
  dsimp only
  split_ifs
  · exact maxWeight_lt _
  · exact (int64_isInt64 _).2

theorem nextIndex_nonneg (p : LoadBalancerPool f) :
    0 ≤ (p.currentIndex + 1) % (p.backends.length : ℤ) := by
  have hge := p.currentIndex_ge
  rcases Nat.eq_zero_or_pos p.backends.length with h | h
  · rw [h, Nat.cast_zero, Int.emod_zero]
    omega
  · exact Int.emod_nonneg _ (by omega)

/-- Move on to the next position; position 0 starts a new pass. -/
def advance (p : LoadBalancerPool f) : LoadBalancerPool f :=
  { p with
    currentIndex := (p.currentIndex + 1) % p.backends.length
    currentWeight :=
      if (p.currentIndex + 1) % p.backends.length = 0 then p.passWeight else p.currentWeight
    currentWeight_lt := by
      split_ifs
      · exact p.passWeight_lt
      · exact p.currentWeight_lt
    currentIndex_ge := by
      have hmod := p.nextIndex_nonneg
      omega }

/-- The loop of `Select`; `none` when it has not returned after so many iterations. -/
def selectLoop :
    ℕ → LoadBalancerPool f → Option (Except SelectError Backend × LoadBalancerPool f)
  | 0, _ => none
  | fuel + 1, p =>
      if p.advance.currentIndex = 0 ∧ p.advance.currentWeight = 0 then
        some (.error .zeroWeight, p.advance)
      else
        match p.advance.backends[p.advance.currentIndex.toNat]? with
        | none => none
        | some b =>
            if p.advance.currentWeight ≤ b.weight then some (.ok b, p.advance)
            else selectLoop fuel p.advance

/-- A bound on the passes that still start above the largest weight. A divisor below zero
makes the weight grow until it overflows. -/
def passes (p : LoadBalancerPool f) : ℕ :=
  if 0 < p.greatestCommonDiv then p.currentWeight.toNat else (2 ^ 63 - p.currentWeight).toNat

/-- A bound on the iterations that remain at a position whose weight is too low, where
position `k` holds the largest weight. -/
def remaining (k : ℕ) (p : LoadBalancerPool f) : ℕ :=
  if p.currentWeight ≤ maxWeight p.backends ∧ p.currentIndex ≤ k then
    (k - p.currentIndex).toNat
  else (p.passes + 1) * p.backends.length + (p.backends.length - 1 - p.currentIndex).toNat

theorem gcd_word (p : LoadBalancerPool f) :
    IsInt64 p.greatestCommonDiv ∧ p.greatestCommonDiv ≠ 0 := by
  rw [p.gcd_eq]
  exact recalculateGCD_word f p.backends

theorem passes_lt {p q : LoadBalancerPool f} (hpos : 0 < p.currentWeight)
    (hgcd : q.greatestCommonDiv = p.greatestCommonDiv) (hw : q.currentWeight = p.passWeight)
    (habove : maxWeight p.backends < p.passWeight) : q.passes < p.passes := by
  obtain ⟨⟨hl, hu⟩, hne⟩ := p.gcd_word
  have hlt := p.currentWeight_lt
  have hpass : q.currentWeight = int64 (p.currentWeight - p.greatestCommonDiv) ∧
      0 < int64 (p.currentWeight - p.greatestCommonDiv) := by
    rw [hw]
    unfold passWeight at habove ⊢
    dsimp only at habove ⊢
    split_ifs at habove ⊢ with h
    · exact absurd habove (lt_irrefl _)
    · exact ⟨rfl, not_le.mp h⟩
  unfold passes
  rw [hgcd]
  rcases lt_or_gt_of_ne hne with hneg | hgt
  · rw [if_neg (by omega), if_neg (by omega)]
    have hbelow : p.currentWeight - p.greatestCommonDiv < 2 ^ 63 := by
      by_contra hover
      have := int64_overflow (not_lt.mp hover) (by omega)
      omega
    rw [int64_eq (by omega) hbelow] at hpass
    omega
  · rw [if_pos hgt, if_pos hgt]
    rw [int64_eq (by omega) (by omega)] at hpass
    omega

theorem passWeight_pos {p : LoadBalancerPool f} (h : p.backends ≠ []) : 0 < p.passWeight := by
  unfold passWeight
  dsimp only
  split_ifs with hw
  · exact maxWeight_pos h
  · exact not_le.mp hw

@[simp] theorem advance_backends (p : LoadBalancerPool f) : p.advance.backends = p.backends := rfl

@[simp] theorem advance_gcd (p : LoadBalancerPool f) :
    p.advance.greatestCommonDiv = p.greatestCommonDiv := rfl

theorem advance_index (p : LoadBalancerPool f) :
    p.advance.currentIndex = (p.currentIndex + 1) % p.backends.length := rfl

theorem advance_weight (p : LoadBalancerPool f) :
    p.advance.currentWeight =
      if p.advance.currentIndex = 0 then p.passWeight else p.currentWeight := rfl

theorem advance_index_range {p : LoadBalancerPool f} (h : p.backends ≠ []) :
    0 ≤ p.advance.currentIndex ∧ p.advance.currentIndex < p.backends.length := by
  have hlen : (0 : ℤ) < p.backends.length := by
    exact_mod_cast List.length_pos_of_ne_nil h
  exact ⟨p.nextIndex_nonneg, Int.emod_lt_of_pos _ hlen⟩

theorem advance_within {p : LoadBalancerPool f} (h0 : 0 ≤ p.currentIndex)
    (h : p.currentIndex + 1 < p.backends.length) :
    p.advance.currentIndex = p.currentIndex + 1 ∧ p.advance.currentWeight = p.currentWeight := by
  have hindex : p.advance.currentIndex = p.currentIndex + 1 := by
    rw [advance_index]
    exact Int.emod_eq_of_lt (by omega) h
  rw [advance_weight, hindex, if_neg (by omega)]
  exact ⟨rfl, rfl⟩

theorem advance_wraps {p : LoadBalancerPool f} (h : p.currentIndex + 1 = p.backends.length) :
    p.advance.currentIndex = 0 ∧ p.advance.currentWeight = p.passWeight := by
  have hindex : p.advance.currentIndex = 0 := by
    rw [advance_index, h]
    exact Int.emod_self
  rw [advance_weight, hindex, if_pos rfl]
  exact ⟨rfl, rfl⟩

/-- An iteration that selects nothing comes closer to the end of the loop. -/
theorem remaining_advance {p : LoadBalancerPool f} {k : ℕ} (hk : k < p.backends.length)
    (hmax : (p.backends.get ⟨k, hk⟩).weight = maxWeight p.backends) {b : Backend}
    (h0 : 0 ≤ p.currentIndex) (hb : p.backends[p.currentIndex.toNat]? = some b)
    (hlow : b.weight < p.currentWeight) : remaining k p.advance < remaining k p := by
  obtain ⟨hi, hget⟩ := List.getElem?_eq_some_iff.mp hb
  have hne : p.currentWeight ≤ maxWeight p.backends → p.currentIndex ≠ k := by
    intro hle heq
    have hik : p.currentIndex.toNat = k := by omega
    have hbk : p.backends.get ⟨k, hk⟩ = b := by
      simpa only [hik, List.get_eq_getElem] using hget
    rw [hbk] at hmax
    omega
  have hpos := b.weight_pos
  by_cases hwithin : p.currentIndex + 1 < p.backends.length
  · obtain ⟨hindex, hweight⟩ := advance_within h0 hwithin
    have hpasses : p.advance.passes = p.passes := by
      rw [passes, passes, hweight, advance_gcd]
    unfold remaining
    rw [hindex, hweight, hpasses, advance_backends]
    split_ifs with h1 h2 h2
    · omega
    · omega
    · have := hne h2.1
      omega
    · omega
  · obtain ⟨hindex, hweight⟩ := advance_wraps (p := p) (by omega)
    have hcond : ¬(p.currentWeight ≤ maxWeight p.backends ∧ p.currentIndex ≤ k) := by
      rintro ⟨hle, hik⟩
      have := hne hle
      omega
    unfold remaining
    rw [if_neg hcond, hindex, hweight, advance_backends]
    split_ifs with hle
    · have hmul : p.backends.length ≤ (p.passes + 1) * p.backends.length :=
        Nat.le_mul_of_pos_left _ (Nat.succ_pos p.passes)
      omega
    · have habove : maxWeight p.backends < p.passWeight := by
        by_contra h
        exact hle ⟨not_lt.mp h, by omega⟩
      have hless : p.advance.passes + 1 ≤ p.passes :=
        passes_lt (by omega) (advance_gcd p) hweight habove
      have hmul := Nat.mul_le_mul_right p.backends.length hless
      have hsucc : (p.passes + 1) * p.backends.length =
        p.passes * p.backends.length + p.backends.length := Nat.succ_mul _ _
      omega

/-- The loop of `Select` returns a backend of the pool. -/
theorem selectLoop_returns {p : LoadBalancerPool f} {k : ℕ} (hk : k < p.backends.length)
    (hmax : (p.backends.get ⟨k, hk⟩).weight = maxWeight p.backends) {fuel : ℕ}
    (hfuel : remaining k p.advance < fuel) :
    ∃ b q, selectLoop fuel p = some (.ok b, q) ∧ b ∈ p.backends ∧ q.backends = p.backends := by
  have hne : p.backends ≠ [] := List.ne_nil_of_length_pos (by omega)
  induction fuel generalizing p with
  | zero => cases hfuel
  | succ fuel ih =>
    obtain ⟨hl, hu⟩ := advance_index_range hne
    have hi : p.advance.currentIndex.toNat < p.advance.backends.length := by
      rw [advance_backends]
      omega
    have hzero : ¬(p.advance.currentIndex = 0 ∧ p.advance.currentWeight = 0) := by
      rintro ⟨h0, hw⟩
      rw [advance_weight, if_pos h0] at hw
      exact (passWeight_pos hne).ne' hw
    have hget := List.getElem?_eq_getElem hi
    rw [selectLoop, if_neg hzero, hget]
    dsimp only
    split_ifs with hle
    · exact ⟨_, _, rfl, List.getElem_mem hi, rfl⟩
    · have hless := remaining_advance (p := p.advance) hk hmax hl hget (not_le.mp hle)
      exact ih (p := p.advance) hk hmax (by omega) hne

theorem selectLoop_mono {p : LoadBalancerPool f} {fuel more : ℕ}
    {r : Except SelectError Backend × LoadBalancerPool f} (h : selectLoop fuel p = some r)
    (hle : fuel ≤ more) : selectLoop more p = some r := by
  induction fuel generalizing p more with
  | zero => cases h
  | succ fuel ih =>
    obtain ⟨more, rfl⟩ : ∃ n, more = n + 1 := ⟨more - 1, by omega⟩
    unfold selectLoop at h ⊢
    split_ifs at h ⊢
    · exact h
    · split at h
      · cases h
      · split_ifs at h ⊢
        · exact h
        · exact ih h (by omega)

/-- Enough iterations for the loop to return. -/
def iterations (p : LoadBalancerPool f) : ℕ := (p.advance.passes + 2) * p.backends.length + 1

theorem remaining_lt_iterations (p : LoadBalancerPool f) {k : ℕ} (hk : k < p.backends.length) :
    remaining k p.advance < p.iterations := by
  have hindex := p.nextIndex_nonneg
  rw [← advance_index] at hindex
  have hmul : (p.advance.passes + 2) * p.backends.length =
      (p.advance.passes + 1) * p.backends.length + p.backends.length := Nat.succ_mul _ _
  unfold remaining iterations
  rw [advance_backends]
  split_ifs <;> omega

def selectWithin (fuel : ℕ) (p : LoadBalancerPool f) :
    Option (Except SelectError Backend × LoadBalancerPool f) :=
  match p.backends with
  | [] => some (.error .noBackends, p)
  | [b] => some (.ok b, p)
  | _ => selectLoop fuel p

theorem selectWithin_nil {p : LoadBalancerPool f} (h : p.backends = []) (fuel : ℕ) :
    selectWithin fuel p = some (.error .noBackends, p) := by
  unfold selectWithin
  rw [h]

theorem selectWithin_returns {p : LoadBalancerPool f} (hne : p.backends ≠ []) {fuel : ℕ}
    (hfuel : p.iterations ≤ fuel) :
    ∃ b q, selectWithin fuel p = some (.ok b, q) ∧ b ∈ p.backends ∧ q.backends = p.backends := by
  unfold selectWithin
  split
  · rename_i h
    exact absurd h hne
  · rename_i b h
    exact ⟨b, p, rfl, by simp [h], rfl⟩
  · obtain ⟨k, hk, hmax⟩ := exists_maxWeight hne
    have hlt := p.remaining_lt_iterations hk
    exact selectLoop_returns hk hmax (by omega)

theorem selectWithin_isSome (p : LoadBalancerPool f) : (selectWithin p.iterations p).isSome := by
  by_cases h : p.backends = []
  · rw [selectWithin_nil h]
    rfl
  · obtain ⟨b, q, hsel, -⟩ := selectWithin_returns h le_rfl
    rw [hsel]
    rfl

def select (p : LoadBalancerPool f) : Except SelectError Backend × LoadBalancerPool f :=
  (selectWithin p.iterations p).get p.selectWithin_isSome

theorem selectWithin_eq_select {p : LoadBalancerPool f} {fuel : ℕ} (h : p.iterations ≤ fuel) :
    selectWithin fuel p = some p.select := by
  have hsel : selectWithin p.iterations p = some p.select := (Option.some_get _).symm
  unfold selectWithin at hsel ⊢
  split at hsel
  · exact hsel
  · exact hsel
  · exact selectLoop_mono hsel h

theorem select_nil {p : LoadBalancerPool f} (h : p.backends = []) :
    p.select = (.error .noBackends, p) := by
  simp [select, selectWithin_nil h]

theorem select_of_length_lt {p : LoadBalancerPool f} (h : p.backends.length < 2) :
    p.select.2 = p := by
  have hsel := selectWithin_eq_select (p := p) le_rfl
  unfold selectWithin at hsel
  split at hsel
  · rw [← Option.some.inj hsel]
  · rw [← Option.some.inj hsel]
  · rename_i hnil hone
    match hb : p.backends with
    | [] => exact absurd hb hnil
    | [b] => exact absurd hb (hone b)
    | _ :: _ :: _ => simp [hb] at h

theorem select_mem {p : LoadBalancerPool f} (h : p.backends ≠ []) :
    ∃ b ∈ p.backends, p.select.1 = .ok b := by
  obtain ⟨b, q, hsel, hb, -⟩ := selectWithin_returns h le_rfl
  exact ⟨b, hb, by simp [select, hsel]⟩

@[simp] theorem select_backends (p : LoadBalancerPool f) : p.select.2.backends = p.backends := by
  by_cases h : p.backends = []
  · rw [select_nil h]
  · obtain ⟨b, q, hsel, -, hq⟩ := selectWithin_returns h le_rfl
    simp [select, hsel, hq]

end LoadBalancerPool

end NexusProxy.Hub
