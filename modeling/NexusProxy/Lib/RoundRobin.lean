import Mathlib.Algebra.BigOperators.Group.Finset.Sigma
import Mathlib.Algebra.Order.BigOperators.Group.Finset
import Mathlib.Data.Nat.Nth
import Mathlib.Logic.Function.Iterate

/-! Which iterations of a loop serve somebody, and who is served: windows of a sequence of
hits that repeats itself, and the schedule of a weighted round robin. -/
namespace RoundRobin
open Nat

section Hits
variable {p q : ℕ → Prop} [DecidablePred p] [DecidablePred q]

theorem count_congr {n : ℕ} (h : ∀ t < n, (p t ↔ q t)) : count p n = count q n := by
  simp only [count_eq_card_filter_range]
  congr 1
  exact Finset.filter_congr fun t ht => h t (Finset.mem_range.mp ht)

theorem count_eq_zero_of_forall {n : ℕ} (h : ∀ t < n, ¬p t) : count p n = 0 := by
  rw [count_eq_card_filter_range, Finset.card_eq_zero, Finset.filter_eq_empty_iff]
  exact fun t ht => h t (Finset.mem_range.mp ht)

theorem count_getElem? {α : Type*} [DecidableEq α] (l : List α) (a : α) :
    count (fun i => l[i]? = some a) l.length = l.count a := by
  induction l using List.reverseRecOn with
  | nil => rfl
  | append_singleton l b ih =>
    rw [List.length_append, List.length_singleton, count_succ, List.count_append, ← ih]
    congr 1
    · apply count_congr
      intro i hi
      rw [List.getElem?_append_left hi]
    · simp [List.count_singleton]

variable (p q)

theorem count_nth_comp (t : ℕ) :
    count (fun k => q (nth p k)) (count p t) = count (fun s => p s ∧ q s) t := by
  induction t with
  | zero => simp
  | succ t ih =>
    rw [count_succ p, count_succ (fun s => p s ∧ q s)]
    by_cases ht : p t
    · rw [if_pos ht, count_succ, ih, nth_count ht]
      simp only [ht, true_and]
    · simp [ht, ih]

variable {p q} {J P : ℕ}

theorem count_window (h : ∀ t ≥ J, (p (t + P) ↔ p t)) {t : ℕ} (ht : J ≤ t) :
    count (fun s => p (t + s)) P = count (fun s => p (J + s)) P := by
  obtain ⟨d, rfl⟩ := Nat.exists_eq_add_of_le ht
  have hshift : count (fun s => p (J + (P + s))) d = count (fun s => p (J + s)) d := by
    apply count_congr
    intro s _
    rw [Nat.add_comm P s, ← Nat.add_assoc]
    exact h _ (Nat.le_add_right J s)
  have hleft := count_add (fun s => p (J + s)) d P
  have hright := count_add (fun s => p (J + s)) P d
  rw [hshift, Nat.add_comm P d] at hright
  simp only [← Nat.add_assoc] at hleft
  omega

/-- In every window of as many hits as a period has, once the period has begun, a property is
met as often as in the period. -/
theorem count_hits_window (hinf : (Set.ofPred p).Infinite) (hp : ∀ t ≥ J, (p (t + P) ↔ p t))
    (hq : ∀ t ≥ J, (q (t + P) ↔ q t)) {k : ℕ} (hk : count p J ≤ k) :
    count (fun j => q (nth p (k + j))) (count (fun s => p (J + s)) P) =
      count (fun s => p (J + s) ∧ q (J + s)) P := by
  have hcount := count_nth_of_infinite hinf k
  have hstart : J ≤ nth p k := not_lt.mp fun hlt =>
    absurd ((lt_nth_iff_count_lt hinf).mpr hlt) (not_lt.mpr hk)
  generalize nth p k = t at hcount hstart
  -- the window of hits is the window of times between `t` and `t + P`
  have hend : count p (t + P) = k + count (fun s => p (J + s)) P := by
    rw [count_add, hcount, count_window hp hstart]
  have hall := count_nth_comp p q (t + P)
  have hbefore := count_nth_comp p q t
  rw [hend, count_add, count_add] at hall
  rw [hcount] at hbefore
  have hboth := count_window (p := fun s => p s ∧ q s)
    (fun t ht => and_congr (hp t ht) (hq t ht)) hstart
  omega

end Hits

section Selections
variable {σ : Type*} {T sel : σ → σ} {hit : σ → Prop} [DecidablePred hit] {s : σ}

/-- The loop body `T` runs at least once, and until it reaches a hit. -/
def FirstHit (T : σ → σ) (hit : σ → Prop) (s t : σ) : Prop :=
  ∃ d, t = T^[d + 1] s ∧ hit t ∧ ∀ e < d, ¬hit (T^[e + 1] s)

theorem exists_iterate (h : ∀ k, FirstHit T hit (sel^[k] s) (sel^[k + 1] s)) (k : ℕ) :
    ∃ t, sel^[k + 1] s = T^[t + 1] s ∧ hit (T^[t + 1] s) ∧
      count (fun t => hit (T^[t + 1] s)) t = k := by
  induction k with
  | zero =>
    obtain ⟨d, ht, hhit, hd⟩ := h 0
    exact ⟨d, ht, ht ▸ hhit, count_eq_zero_of_forall hd⟩
  | succ k ih =>
    obtain ⟨t, heq, hhit, hcount⟩ := ih
    obtain ⟨d, ht, hnext, hd⟩ := h (k + 1)
    rw [heq] at ht hd
    have hiterate (e : ℕ) : T^[e + 1] (T^[t + 1] s) = T^[t + 1 + e + 1] s := by
      rw [← Function.iterate_add_apply, Nat.add_comm (e + 1), Nat.add_assoc (t + 1)]
    simp only [hiterate] at ht hd
    refine ⟨t + 1 + d, ht, ht ▸ hnext, ?_⟩
    rw [count_add, count_succ, hcount, if_pos hhit, count_eq_zero_of_forall hd]

theorem infinite_hits (h : ∀ k, FirstHit T hit (sel^[k] s) (sel^[k + 1] s)) :
    (Set.ofPred fun t => hit (T^[t + 1] s)).Infinite := by
  choose time _ hhit hcount using exists_iterate h
  have hinj : Function.Injective time := fun k l hkl => by
    rw [← hcount k, ← hcount l, hkl]
  exact Set.infinite_of_injective_forall_mem hinj hhit

theorem iterate_select (h : ∀ k, FirstHit T hit (sel^[k] s) (sel^[k + 1] s)) (k : ℕ) :
    sel^[k + 1] s = T^[nth (fun t => hit (T^[t + 1] s)) k + 1] s := by
  obtain ⟨t, heq, hhit, hcount⟩ := exists_iterate h k
  rw [heq, ← hcount, nth_count (p := fun t => hit (T^[t + 1] s)) hhit]

end Selections

section Schedule
variable (n m : ℕ) (share : ℕ → ℕ)

/-- The level of iteration `t`: each pass over `n` positions has one level, and after the
lowest level the highest one `m` is next. -/
def level (t : ℕ) : ℕ := m - t / n % m

/-- A position is served in the passes whose level does not exceed its share. -/
def Served (t : ℕ) : Prop := level n m t ≤ share (t % n)

instance : DecidablePred (Served n m share) := fun t =>
  inferInstanceAs (Decidable (level n m t ≤ share (t % n)))

variable {n m share}

theorem level_add_period (hn : 0 < n) (t : ℕ) : level n m (t + n * m) = level n m t := by
  rw [level, level, Nat.add_mul_div_left _ _ hn, Nat.add_mod_right]

theorem level_pos (hm : 0 < m) (t : ℕ) : 0 < level n m t := Nat.sub_pos_of_lt (Nat.mod_lt _ hm)

theorem level_succ_within {t : ℕ} (h : (t + 1) % n ≠ 0) : level n m (t + 1) = level n m t := by
  have hdvd : ¬n ∣ t + 1 := fun hdvd => h (Nat.mod_eq_zero_of_dvd hdvd)
  rw [level, level, Nat.succ_div, if_neg hdvd, Nat.add_zero]

theorem level_succ_wraps (hm : 0 < m) {t : ℕ} (h : (t + 1) % n = 0) :
    level n m (t + 1) = if level n m t = 1 then m else level n m t - 1 := by
  have hlt := Nat.mod_lt (t / n) hm
  rw [level, level, Nat.succ_div, if_pos (Nat.dvd_of_mod_eq_zero h)]
  by_cases hlast : t / n % m + 1 = m
  · have hzero : (t / n + 1) % m = 0 := by
      rw [← Nat.mod_add_mod, hlast, Nat.mod_self]
    rw [hzero, if_pos (by omega), Nat.sub_zero]
  · have hnext : (t / n + 1) % m = t / n % m + 1 := by
      rw [← Nat.mod_add_mod, Nat.mod_eq_of_lt (by omega)]
    rw [hnext, if_neg (by omega)]
    omega

theorem served_add_period (hn : 0 < n) (t : ℕ) :
    Served n m share (t + n * m) ↔ Served n m share t := by
  rw [Served, Served, level_add_period hn, Nat.add_mul_mod_self_left]

theorem count_served_passes {i : ℕ} (hi : i < n) {c : ℕ} (hc : c ≤ m) :
    count (fun t => Served n m share t ∧ t % n = i) (n * c) = c - (m - share i) := by
  induction c with
  | zero => simp
  | succ c ih =>
    have hpass : count (fun s => Served n m share (n * c + s) ∧ (n * c + s) % n = i) n =
        count (fun s => m - c ≤ share i ∧ s = i) n := by
      apply count_congr
      intro s hs
      have hmod : (n * c + s) % n = s := by rw [Nat.mul_add_mod, Nat.mod_eq_of_lt hs]
      have hdiv : (n * c + s) / n = c := by
        rw [Nat.mul_add_div (by omega), Nat.div_eq_of_lt hs, Nat.add_zero]
      rw [Served, level, hmod, hdiv, Nat.mod_eq_of_lt hc]
      constructor
      · rintro ⟨h, rfl⟩
        exact ⟨h, rfl⟩
      · rintro ⟨h, rfl⟩
        exact ⟨h, rfl⟩
    have hone : count (fun s => m - c ≤ share i ∧ s = i) n = if m - c ≤ share i then 1 else 0 := by
      rw [count_eq_card_filter_range, Finset.filter_and]
      split_ifs with h
      · simp [h, Finset.filter_eq', hi]
      · simp [h]
    rw [Nat.mul_succ, count_add, ih (by omega), hpass, hone]
    split_ifs <;> omega

theorem count_served_at {i : ℕ} (hi : i < n) (hshare : share i ≤ m) :
    count (fun t => Served n m share t ∧ t % n = i) (n * m) = share i := by
  rw [count_served_passes hi le_rfl]
  omega

theorem count_served (hn : 0 < n) (hshare : ∀ i < n, share i ≤ m) (Q : ℕ → Prop)
    [DecidablePred Q] :
    count (fun t => Served n m share t ∧ Q (t % n)) (n * m) =
      ∑ i ∈ (Finset.range n).filter Q, share i := by
  rw [count_eq_card_filter_range, Finset.card_eq_sum_card_fiberwise (f := fun t => t % n)
    (t := (Finset.range n).filter Q)]
  · apply Finset.sum_congr rfl
    intro i hi
    obtain ⟨hi, hQ⟩ := Finset.mem_filter.mp hi
    have hi := Finset.mem_range.mp hi
    rw [← count_served_at hi (hshare i hi), count_eq_card_filter_range, Finset.filter_filter]
    congr 1
    apply Finset.filter_congr
    intro t _
    constructor
    · rintro ⟨⟨hserved, -⟩, heq⟩
      exact ⟨hserved, heq⟩
    · rintro ⟨hserved, rfl⟩
      exact ⟨⟨hserved, hQ⟩, rfl⟩
  · intro t ht
    obtain ⟨-, -, hQ⟩ := Finset.mem_filter.mp ht
    exact Finset.mem_coe.mpr
      (Finset.mem_filter.mpr ⟨Finset.mem_range.mpr (Nat.mod_lt t hn), hQ⟩)

end Schedule

/-- A loop whose body follows the schedule from iteration `J` on serves every set of positions,
in any window of as many selections as there are shares, as often as its shares say. -/
theorem count_selections {σ : Type*} {T sel : σ → σ} {hit : σ → Prop} [DecidablePred hit] {s : σ}
    (h : ∀ k, FirstHit T hit (sel^[k] s) (sel^[k + 1] s)) {n m J : ℕ} {share : ℕ → ℕ}
    (position : σ → ℕ) (hn : 0 < n) (hshare : ∀ i < n, share i ≤ m)
    (hposition : ∀ t, position (T^[J + t + 1] s) = t % n)
    (hserved : ∀ t, hit (T^[J + t + 1] s) ↔ Served n m share t) {k : ℕ}
    (hk : count (fun t => hit (T^[t + 1] s)) J ≤ k) (Q : ℕ → Prop) [DecidablePred Q] :
    count (fun j => Q (position (sel^[k + j + 1] s))) (∑ i ∈ Finset.range n, share i) =
      ∑ i ∈ (Finset.range n).filter Q, share i := by
  have hperiod {r : ℕ → Prop} (hr : ∀ t, r (J + (t + n * m)) ↔ r (J + t)) :
      ∀ t ≥ J, (r (t + n * m) ↔ r t) := by
    intro t ht
    obtain ⟨d, rfl⟩ := Nat.exists_eq_add_of_le ht
    rw [Nat.add_assoc]
    exact hr d
  have hhits := hperiod (r := fun t => hit (T^[t + 1] s)) fun t => by
    rw [hserved, hserved, served_add_period hn]
  have hpositions := hperiod (r := fun t => Q (position (T^[t + 1] s))) fun t => by
    rw [hposition, hposition, Nat.add_mul_mod_self_left]
  have hwindow := count_hits_window (q := fun t => Q (position (T^[t + 1] s))) (infinite_hits h)
    hhits hpositions hk
  have htotal : count (fun t => hit (T^[J + t + 1] s)) (n * m) = ∑ i ∈ Finset.range n, share i := by
    have hall := count_served hn hshare fun _ => True
    rw [Finset.filter_true] at hall
    rw [← hall]
    exact count_congr fun t _ => by rw [hserved, and_true]
  rw [htotal] at hwindow
  calc count (fun j => Q (position (sel^[k + j + 1] s))) (∑ i ∈ Finset.range n, share i)
      = count (fun t => hit (T^[J + t + 1] s) ∧ Q (position (T^[J + t + 1] s))) (n * m) := by
        rw [← hwindow]
        exact count_congr fun j _ => by rw [iterate_select h]
    _ = count (fun t => Served n m share t ∧ Q (t % n)) (n * m) :=
        count_congr fun t _ => by rw [hserved, hposition]
    _ = ∑ i ∈ (Finset.range n).filter Q, share i := count_served hn hshare Q

end RoundRobin
