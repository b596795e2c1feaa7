import Mathlib.Logic.Function.Basic
import Mathlib.Tactic.Common

/-! A pool of threads that share memory: each thread stands at a point of its program,
and one thread moves at a time. -/
namespace Threads

variable {τ ω : Type*}

/-- Some thread stands at a point of the given kind. -/
def At (P : ω → Prop) (op : τ → ω) : Prop := ∃ t, P (op t)

/-- Points inside a critical section are reached by one thread at a time, and only while
the lock is taken. -/
structure Exclusive (crit : ω → Prop) (locked : Bool) (op : τ → ω) : Prop where
  locked : ∀ t, crit (op t) → locked = true
  unique : ∀ t u, crit (op t) → crit (op u) → t = u

variable [DecidableEq τ] {op : τ → ω} {t : τ} {o : ω} {P Q : ω → Prop}

theorem At.moved (h : Q o) : At Q (Function.update op t o) :=
  ⟨t, by rwa [Function.update_self]⟩

theorem At.update (h : At P op) (hself : P (op t) → Q o) (hothers : ∀ u, P (op u) → Q (op u)) :
    At Q (Function.update op t o) := by
  obtain ⟨u, hu⟩ := h
  by_cases hut : u = t
  · subst hut
    exact At.moved (hself hu)
  · exact ⟨u, by rw [Function.update_of_ne hut]; exact hothers u hu⟩

theorem At.of_update (h : At P (Function.update op t o)) : P o ∨ ∃ u, u ≠ t ∧ P (op u) := by
  obtain ⟨u, hu⟩ := h
  by_cases hut : u = t
  · subst hut
    rw [Function.update_self] at hu
    exact .inl hu
  · rw [Function.update_of_ne hut] at hu
    exact .inr ⟨u, hut, hu⟩

theorem forall_update (hself : P o) (hothers : ∀ u, u ≠ t → P (op u)) (u : τ) :
    P (Function.update op t o u) := by
  by_cases hut : u = t
  · subst hut
    rwa [Function.update_self]
  · rw [Function.update_of_ne hut]
    exact hothers u hut

/-- A move keeps mutual exclusion if it enters the section only by taking a free lock and
leaves the lock alone outside. -/
theorem Exclusive.update {crit : ω → Prop} {locked locked' : Bool}
    (h : Exclusive crit locked op)
    (hin : crit o → locked' = true ∧ (crit (op t) ∨ locked = false))
    (hout : ¬crit o → ¬crit (op t) → locked' = locked) :
    Exclusive crit locked' (Function.update op t o) := by
  have others : crit o → ∀ u, u ≠ t → ¬crit (op u) := by
    intro ho u hut hu
    rcases (hin ho).2 with ht | hfree
    · exact hut (h.unique u t hu ht)
    · rw [h.locked u hu] at hfree
      cases hfree
  constructor
  · intro u hu
    by_cases hut : u = t
    · subst hut
      rw [Function.update_self] at hu
      exact (hin hu).1
    · rw [Function.update_of_ne hut] at hu
      by_cases ho : crit o
      · exact (hin ho).1
      · rw [hout ho fun ht => hut (h.unique u t hu ht)]
        exact h.locked u hu
  · intro u v hu hv
    by_cases hut : u = t <;> by_cases hvt : v = t
    · rw [hut, hvt]
    · rw [hut, Function.update_self] at hu
      rw [Function.update_of_ne hvt] at hv
      exact absurd hv (others hu v hvt)
    · rw [hvt, Function.update_self] at hv
      rw [Function.update_of_ne hut] at hu
      exact absurd hu (others hv u hut)
    · rw [Function.update_of_ne hut] at hu
      rw [Function.update_of_ne hvt] at hv
      exact h.unique u v hu hv

end Threads
