import NexusProxy.Lib.Collections
import NexusProxy.Lib.Transition

/-! Goroutines with nested calls. Each goroutine is the stack of the instructions that it still
has to execute; an instruction changes the shared memory and is replaced by the instructions of
the call that it makes, or it blocks. -/
namespace Calls
open Collections Transition

structure System (σ ι : Type*) where
  shared : σ
  goroutines : List (List ι)

variable {σ ι : Type*} {exec : ℕ → σ → ι → Option (σ × List ι)} {s t : System σ ι}

def step (exec : ℕ → σ → ι → Option (σ × List ι)) (s : System σ ι) (g : ℕ) :
    Option (System σ ι) :=
  match s.goroutines[g]? with
  | some (i :: rest) =>
      (exec g s.shared i).map fun next => ⟨next.1, s.goroutines.set g (next.2 ++ rest)⟩
  | _ => none

def spawn (s : System σ ι) (stack : List ι) : System σ ι :=
  { s with goroutines := s.goroutines ++ [stack] }

theorem step_eq_some {g : ℕ} (h : step exec s g = some t) :
    ∃ i rest shared pushed, s.goroutines[g]? = some (i :: rest) ∧
      exec g s.shared i = some (shared, pushed) ∧
      t = ⟨shared, s.goroutines.set g (pushed ++ rest)⟩ := by
  unfold step at h
  split at h
  · next i rest hstack =>
    obtain ⟨⟨shared, pushed⟩, hexec, rfl⟩ := Option.map_eq_some_iff.mp h
    exact ⟨i, rest, shared, pushed, hstack, hexec, rfl⟩
  · cases h

/-- The top of every stack is blocked. -/
def Stuck (exec : ℕ → σ → ι → Option (σ × List ι)) (s : System σ ι) : Prop :=
  ∀ g, step exec s g = none

theorem Stuck.blocked (h : Stuck exec s) {g : ℕ} {i : ι} {rest : List ι}
    (hg : s.goroutines[g]? = some (i :: rest)) : exec g s.shared i = none := by
  have hstep := h g
  unfold step at hstep
  rw [hg] at hstep
  exact Option.map_eq_none_iff.mp hstep

/-! ### Termination -/

section Weight
variable (w : ι → ℕ)

def weight (stack : List ι) : ℕ := (stack.map w).sum

@[simp] theorem weight_nil : weight w [] = 0 := rfl

@[simp] theorem weight_cons (i : ι) (rest : List ι) :
    weight w (i :: rest) = w i + weight w rest := List.sum_cons

theorem weight_append (as bs : List ι) : weight w (as ++ bs) = weight w as + weight w bs := by
  unfold weight
  rw [List.map_append, List.sum_append]

def totalWeight (goroutines : List (List ι)) : ℕ := (goroutines.map (weight w)).sum

theorem totalWeight_set {goroutines : List (List ι)} {g : ℕ} {old : List ι}
    (hg : goroutines[g]? = some old) (next : List ι) :
    totalWeight w (goroutines.set g next) + weight w old =
      totalWeight w goroutines + weight w next := by
  unfold totalWeight
  induction goroutines generalizing g with
  | nil => cases hg
  | cons stack rest ih =>
    cases g with
    | zero =>
      obtain rfl : stack = old := Option.some.inj hg
      simp only [List.set_cons_zero, List.map_cons, List.sum_cons]
      omega
    | succ g =>
      have htail := ih (g := g) hg
      simp only [List.set_cons_succ, List.map_cons, List.sum_cons]
      omega

theorem totalWeight_concat (goroutines : List (List ι)) (stack : List ι) :
    totalWeight w (goroutines ++ [stack]) = totalWeight w goroutines + weight w stack := by
  simp [totalWeight]

variable {w} {potential : σ → ℕ}

/-- When every instruction outweighs what it pushes and what it leaves in the shared memory, the
goroutines can take only so many steps. -/
theorem run_length_le
    (hexec : ∀ {g shared i shared' pushed}, exec g shared i = some (shared', pushed) →
      potential shared' + weight w pushed < potential shared + w i)
    {gs : List ℕ} (hrun : run (step exec) s gs = some t) :
    gs.length + (potential t.shared + totalWeight w t.goroutines) ≤
      potential s.shared + totalWeight w s.goroutines := by
  induction gs generalizing s with
  | nil =>
    obtain rfl : s = t := Option.some.inj hrun
    simp
  | cons g gs ih =>
    obtain ⟨u, hstep, hrest⟩ := run_cons_some.mp hrun
    obtain ⟨i, rest, shared, pushed, hstack, hi, rfl⟩ := step_eq_some hstep
    have htail := ih hrest
    have hless := hexec hi
    have hset := totalWeight_set w hstack (pushed ++ rest)
    rw [weight_append, weight_cons] at hset
    simp only [List.length_cons] at htail ⊢
    omega

/-- However far the goroutines have come, they can go on until none of them can move. -/
theorem exists_stuck
    (hexec : ∀ {g shared i shared' pushed}, exec g shared i = some (shared', pushed) →
      potential shared' + weight w pushed < potential shared + w i)
    (s : System σ ι) : ∃ gs t, run (step exec) s gs = some t ∧ Stuck exec t := by
  induction hn : potential s.shared + totalWeight w s.goroutines using Nat.strong_induction_on
    generalizing s with
  | _ n ih =>
    by_cases hstuck : Stuck exec s
    · exact ⟨[], s, rfl, hstuck⟩
    · unfold Stuck at hstuck
      push Not at hstuck
      obtain ⟨g, hg⟩ := hstuck
      obtain ⟨u, hu⟩ := Option.ne_none_iff_exists'.mp hg
      have hone : run (step exec) s [g] = some u := run_cons_some.mpr ⟨u, hu, rfl⟩
      have hless := run_length_le hexec hone
      rw [List.length_singleton] at hless
      obtain ⟨gs, t, ht, hend⟩ := ih _ (by omega) u rfl
      exact ⟨g :: gs, t, run_cons_some.mpr ⟨u, hu, ht⟩, hend⟩

end Weight

/-! ### Instructions to come -/

/-- Some goroutine still has to execute an instruction of the kind. -/
def Pending (k : ι → Bool) (goroutines : List (List ι)) : Prop :=
  Any (fun stack => ∃ i ∈ stack, k i = true) goroutines

variable {k : ι → Bool} {goroutines : List (List ι)} {g : ℕ} {i : ι} {rest : List ι}

theorem Pending.step (h : Pending k goroutines) (hg : goroutines[g]? = some (i :: rest))
    (pushed : List ι) :
    k i = true ∨ Pending k (goroutines.set g (pushed ++ rest)) := by
  by_cases hi : k i = true
  · exact Or.inl hi
  · right
    refine Any.set h hg ?_ fun _ hold => hold
    rintro ⟨j, hj, hk⟩
    rcases List.mem_cons.mp hj with rfl | hj
    · exact absurd hk hi
    · exact ⟨j, List.mem_append_right pushed hj, hk⟩

theorem Pending.of_set {old stack : List ι} (hg : goroutines[g]? = some old)
    (h : ∃ i ∈ stack, k i = true) : Pending k (goroutines.set g stack) := by
  have hlt : g < goroutines.length := (List.getElem?_eq_some_iff.mp hg).1
  exact ⟨stack, List.mem_set hlt stack, h⟩

theorem not_pending_of_nil (h : ∀ stack ∈ goroutines, ∀ i ∈ stack, k i = false) :
    ¬Pending k goroutines := by
  rintro ⟨stack, hstack, i, hi, hk⟩
  rw [h stack hstack i hi] at hk
  cases hk

/-- All instructions to come, of all goroutines. -/
def pending (goroutines : List (List ι)) : Multiset ι := (goroutines.flatten : List ι)

theorem pending_set (hg : goroutines[g]? = some (i :: rest)) (pushed : List ι) :
    ∃ others : Multiset ι, pending goroutines = i ::ₘ others ∧
      pending (goroutines.set g (pushed ++ rest)) = pushed.foldr Multiset.cons others := by
  have hpushed (l : List ι) :
      ((pushed ++ l : List ι) : Multiset ι) = pushed.foldr Multiset.cons (l : Multiset ι) := by
    induction pushed with
    | nil => rfl
    | cons j pushed ih => rw [List.cons_append, List.foldr_cons, ← ih, Multiset.cons_coe]
  have hlt : g < goroutines.length := (List.getElem?_eq_some_iff.mp hg).1
  have hsplit : goroutines = goroutines.take g ++ (i :: rest) :: goroutines.drop (g + 1) := by
    rw [← (List.getElem?_eq_some_iff.mp hg).2, List.getElem_cons_drop, List.take_append_drop]
  refine ⟨(rest ++ ((goroutines.take g).flatten ++ (goroutines.drop (g + 1)).flatten) : List ι),
    ?_, ?_⟩
  · rw [Multiset.cons_coe, pending, Multiset.coe_eq_coe]
    conv_lhs => rw [hsplit, List.flatten_append, List.flatten_cons]
    exact List.perm_append_comm_assoc _ _ _
  · rw [← hpushed, pending, Multiset.coe_eq_coe, List.set_eq_take_append_cons_drop, if_pos hlt,
      List.flatten_append, List.flatten_cons, ← List.append_assoc pushed]
    exact List.perm_append_comm_assoc _ _ _

theorem pending_spawn (s : System σ ι) (i : ι) :
    pending (spawn s [i]).goroutines = i ::ₘ pending s.goroutines := by
  rw [pending, pending, spawn, List.flatten_append, List.flatten_singleton, Multiset.cons_coe,
    Multiset.coe_eq_coe]
  exact List.perm_append_singleton i _

theorem pending_eq_zero (h : ∀ stack ∈ goroutines, stack = []) : pending goroutines = 0 := by
  unfold pending
  rw [Multiset.coe_eq_zero, List.flatten_eq_nil_iff]
  exact h

/-! ### Order on a stack -/

/-- On the way down the stack, an instruction of the second kind comes after one of the first
kind only. -/
def Preceded (a b : ι → Bool) : List ι → Prop
  | [] => True
  | i :: rest => a i = true ∨ b i = false ∧ Preceded a b rest

variable {a b : ι → Bool} {stack : List ι}

theorem Preceded.tail (h : Preceded a b (i :: rest)) (hi : a i = false) : Preceded a b rest := by
  rcases h with ha | hrest
  · rw [hi] at ha
    cases ha
  · exact hrest.2

theorem preceded_of_forall (h : ∀ i ∈ stack, b i = false) : Preceded a b stack := by
  induction stack with
  | nil => trivial
  | cons i rest ih =>
    right
    exact ⟨h i List.mem_cons_self, ih fun j hj => h j (List.mem_cons_of_mem i hj)⟩

end Calls
