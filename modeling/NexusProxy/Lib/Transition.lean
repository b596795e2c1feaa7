import Mathlib.Data.List.Basic
import Mathlib.Logic.Function.Basic

/-! Finite runs of partial step functions. An action that is not enabled has no
successor, so a list of actions describes at most one run. -/
namespace Transition

variable {σ α : Type*}

/-- Execute the actions in order; `none` as soon as one of them is not enabled. -/
def run (step : σ → α → Option σ) : σ → List α → Option σ
  | s, [] => some s
  | s, a :: as => (step s a).bind (run step · as)

/-- Every action that the run reaches is taken in a state that meets the guard. -/
def Along (step : σ → α → Option σ) (G : σ → α → Prop) : σ → List α → Prop
  | _, [] => True
  | s, a :: as => G s a ∧ ∀ t, step s a = some t → Along step G t as

variable {step : σ → α → Option σ}

instance decidableAlong {G : σ → α → Prop} [∀ s a, Decidable (G s a)] :
    ∀ (s : σ) (as : List α), Decidable (Along step G s as)
  | _, [] => isTrue trivial
  | s, a :: as =>
      match h : step s a with
      | none => decidable_of_iff (G s a) (by simp [Along, h])
      | some t =>
          have := decidableAlong (G := G) t as
          decidable_of_iff (G s a ∧ Along step G t as) (by simp [Along, h])

@[simp] theorem run_nil (s : σ) : run step s [] = some s := rfl

theorem run_cons (s : σ) (a : α) (as : List α) :
    run step s (a :: as) = (step s a).bind (run step · as) := rfl

theorem run_cons_some {s t : σ} {a : α} {as : List α} :
    run step s (a :: as) = some t ↔ ∃ u, step s a = some u ∧ run step u as = some t := by
  simp only [run_cons, Option.bind_eq_some_iff]

theorem run_append (s : σ) (as bs : List α) :
    run step s (as ++ bs) = (run step s as).bind (run step · bs) := by
  induction as generalizing s with
  | nil => rfl
  | cons a as ih =>
    rw [List.cons_append, run_cons, run_cons, Option.bind_assoc]
    exact congrArg _ (funext ih)

theorem exists_run_of_any {P : σ → Prop} [DecidablePred P] {s : σ} {as : List α}
    (h : (run step s as).any (fun t => decide (P t)) = true) :
    ∃ t, run step s as = some t ∧ P t := by
  cases hr : run step s as with
  | none => simp [hr] at h
  | some t => exact ⟨t, rfl, by simpa [hr] using h⟩

/-- An invariant kept by every guarded step holds at the end of every guarded run. -/
theorem invariant_along {G : σ → α → Prop} {I : σ → Prop}
    (hI : ∀ s a t, I s → G s a → step s a = some t → I t) {s t : σ} {as : List α}
    (hs : I s) (hG : Along step G s as) (h : run step s as = some t) : I t := by
  induction as generalizing s with
  | nil =>
    obtain rfl : s = t := by simpa using h
    exact hs
  | cons a as ih =>
    obtain ⟨u, hu, ht⟩ := run_cons_some.mp h
    exact ih (hI s a u hs hG.1 hu) (hG.2 u hu) ht

/-- A relation to an abstract state that every guarded step keeps holds at the end of every
guarded run. -/
theorem simulation_along {τ : Type*} {G : σ → α → Prop} {R : σ → τ → Prop} {f : τ → α → τ}
    (hR : ∀ s a t x, R s x → G s a → step s a = some t → R t (f x a)) {s t : σ} {x : τ}
    {as : List α} (hs : R s x) (hG : Along step G s as) (h : run step s as = some t) :
    R t (as.foldl f x) := by
  induction as generalizing s x with
  | nil =>
    obtain rfl : s = t := by simpa using h
    exact hs
  | cons a as ih =>
    obtain ⟨u, hu, ht⟩ := run_cons_some.mp h
    exact ih (hR s a u x hs hG.1 hu) (hG.2 u hu) ht

theorem along_of_forall {G : σ → α → Prop} {as : List α} (h : ∀ a ∈ as, ∀ s, G s a) (s : σ) :
    Along step G s as := by
  induction as generalizing s with
  | nil => trivial
  | cons a as ih =>
    refine ⟨h a List.mem_cons_self s, fun t _ => ?_⟩
    exact ih (fun b hb => h b (List.mem_cons_of_mem a hb)) t

theorem Along.and {G H : σ → α → Prop} {as : List α} {s : σ} (hG : Along step G s as)
    (hH : Along step H s as) : Along step (fun s a => G s a ∧ H s a) s as := by
  induction as generalizing s with
  | nil => trivial
  | cons a as ih => exact ⟨⟨hG.1, hH.1⟩, fun t ht => ih (hG.2 t ht) (hH.2 t ht)⟩

/-- When the guard decides whether a step keeps the invariant, the invariant holds all along a
run exactly when the guard does. -/
theorem along_iff {G : σ → α → Prop} {I : σ → Prop}
    (hI : ∀ s a, I s → ∃ t, step s a = some t ∧ (I t ↔ G s a)) {s : σ} {as : List α} (hs : I s) :
    Along step G s as ↔ ∀ pre t, pre <+: as → run step s pre = some t → I t := by
  induction as generalizing s with
  | nil =>
    refine ⟨fun _ pre t hpre ht => ?_, fun _ => trivial⟩
    obtain rfl := List.prefix_nil.mp hpre
    exact Option.some.inj ht ▸ hs
  | cons a as ih =>
    obtain ⟨u, hu, hG⟩ := hI s a hs
    have hAlong : Along step G s (a :: as) ↔ G s a ∧ Along step G u as := by
      simp only [Along, hu, Option.some.injEq, forall_eq']
    rw [hAlong]
    constructor
    · rintro ⟨hguard, htail⟩ pre t hpre ht
      rcases List.prefix_cons_iff.mp hpre with rfl | ⟨rest, rfl, hrest⟩
      · exact Option.some.inj ht ▸ hs
      · rw [run_cons, hu] at ht
        exact (ih (hG.mpr hguard)).mp htail rest t hrest ht
    · intro hall
      have hIu : I u := by
        apply hall [a] u (List.prefix_append [a] as)
        rw [run_cons, hu]
        rfl
      refine ⟨hG.mp hIu, (ih hIu).mpr ?_⟩
      intro pre t hpre ht
      apply hall (a :: pre) t (List.prefix_cons_inj a |>.mpr hpre)
      rw [run_cons, hu]
      exact ht

/-- An invariant kept by every step holds at the end of every run. -/
theorem invariant_run {I : σ → Prop} (hI : ∀ s a t, I s → step s a = some t → I t)
    {s t : σ} {as : List α} (hs : I s) (h : run step s as = some t) : I t := by
  induction as generalizing s with
  | nil =>
    obtain rfl : s = t := by simpa using h
    exact hs
  | cons a as ih =>
    obtain ⟨u, hu, ht⟩ := run_cons_some.mp h
    exact ih (hI s a u hs hu) ht

theorem guarded {p : Prop} [Decidable p] {s t : σ} (h : (if p then some s else none) = some t) :
    p ∧ s = t := by
  obtain ⟨hp, hs⟩ := Option.ite_none_right_eq_some.mp h
  exact ⟨hp, Option.some.inj hs⟩

/-- What a machine answers to calls, when it always does. -/
def answers {ρ : Type*} (f : σ → α → ρ × σ) : σ → List α → List ρ
  | _, [] => []
  | s, a :: as => (f s a).1 :: answers f (f s a).2 as

/-- Machines that answer alike and stay related cannot be told apart by their answers. -/
theorem answers_eq {τ ρ : Type*} {f : σ → α → ρ × σ} {g : τ → α → ρ × τ} {R : σ → τ → Prop}
    (hR : ∀ s t a, R s t → (f s a).1 = (g t a).1 ∧ R (f s a).2 (g t a).2) {s : σ} {t : τ}
    (h : R s t) (as : List α) : answers f s as = answers g t as := by
  induction as generalizing s t with
  | nil => rfl
  | cons a as ih =>
    obtain ⟨hanswer, hnext⟩ := hR s t a h
    rw [answers, answers, hanswer, ih hnext]

end Transition
