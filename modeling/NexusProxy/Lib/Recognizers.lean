import NexusProxy.Lib.Checks

/-! Parsers that read from a state, as recognizers of languages: a parser succeeds exactly
when a word of its language stands at the front of what it can read, and consumes it. -/
namespace Recognizers
open Checks

variable {ε σ α β : Type} {γ : Type*} {view : σ → List γ} {ready : σ → Prop}

/-- `x` succeeds with `a` only after a word of `L a`; and in a state that is ready, whenever
such a word stands in front. -/
structure Recognizes (view : σ → List γ) (ready : σ → Prop) (x : ExceptT ε (StateM σ) α)
    (L : α → List γ → Prop) : Prop where
  sound : ∀ {s a s'}, outcome x s = (.ok a, s') → ∃ w, L a w ∧ view s = w ++ view s'
  complete : ∀ {s a w rest}, ready s → L a w → view s = w ++ rest →
    ∃ s', outcome x s = (.ok a, s') ∧ view s' = rest ∧ ready s'

theorem outcome_pure (a : α) (s : σ) :
    outcome (pure a : ExceptT ε (StateM σ) α) s = (.ok a, s) := rfl

theorem outcome_bind (x : ExceptT ε (StateM σ) α) (f : α → ExceptT ε (StateM σ) β) (s : σ) :
    outcome (x >>= f) s =
      match outcome x s with
      | (.error e, s') => (.error e, s')
      | (.ok a, s') => outcome (f a) s' := by
  change (ExceptT.bindCont f (x.run s).1).run (x.run s).2 = _
  unfold outcome
  rcases x.run s with ⟨e | a, s'⟩ <;> rfl

theorem outcome_bind_ok {x : ExceptT ε (StateM σ) α} {f : α → ExceptT ε (StateM σ) β} {s t : σ}
    {b : β} : outcome (x >>= f) s = (.ok b, t) ↔
      ∃ a s', outcome x s = (.ok a, s') ∧ outcome (f a) s' = (.ok b, t) := by
  rw [outcome_bind]
  rcases outcome x s with ⟨e | a, s'⟩ <;> simp

namespace Recognizes

/-- A word of a sequence is a word of its first part and one of the rest. -/
theorem bind {x : ExceptT ε (StateM σ) α} {f : α → ExceptT ε (StateM σ) β}
    {L : α → List γ → Prop} {M : α → β → List γ → Prop} (hx : Recognizes view ready x L)
    (hf : ∀ a, Recognizes view ready (f a) (M a)) :
    Recognizes view ready (x >>= f)
      (fun b w => ∃ a front back, L a front ∧ M a b back ∧ w = front ++ back) where
  sound := by
    intro s b t h
    obtain ⟨a, s', hfirst, hrest⟩ := outcome_bind_ok.mp h
    obtain ⟨front, hfront, hview⟩ := hx.sound hfirst
    obtain ⟨back, hback, hview'⟩ := (hf a).sound hrest
    refine ⟨front ++ back, ⟨a, front, back, hfront, hback, rfl⟩, ?_⟩
    rw [hview, hview', List.append_assoc]
  complete := by
    rintro s b w rest hready ⟨a, front, back, hfront, hback, rfl⟩ hview
    rw [List.append_assoc] at hview
    obtain ⟨s', hfirst, hview', hready'⟩ := hx.complete hready hfront hview
    obtain ⟨t, hrest, hend⟩ := (hf a).complete hready' hback hview'
    exact ⟨t, outcome_bind_ok.mpr ⟨a, s', hfirst, hrest⟩, hend⟩

theorem pure (a : α) :
    Recognizes view ready (Pure.pure a : ExceptT ε (StateM σ) α) (fun b w => b = a ∧ w = []) where
  sound := by
    intro s b t h
    rw [outcome_pure] at h
    cases h
    exact ⟨[], ⟨rfl, rfl⟩, rfl⟩
  complete := by
    rintro s b w rest hready ⟨rfl, rfl⟩ hview
    exact ⟨s, rfl, hview, hready⟩

theorem guard {c : Prop} [Decidable c] {x y : ExceptT ε (StateM σ) α} {L : α → List γ → Prop}
    (hy : ∀ s a t, outcome y s ≠ (.ok a, t)) (hx : ¬c → Recognizes view ready x L) :
    Recognizes view ready (if c then y else x) (fun a w => ¬c ∧ L a w) where
  sound := by
    intro s a t h
    by_cases hc : c
    · rw [if_pos hc] at h
      exact absurd h (hy s a t)
    · rw [if_neg hc] at h
      obtain ⟨w, hw, hview⟩ := (hx hc).sound h
      exact ⟨w, ⟨hc, hw⟩, hview⟩
  complete := by
    rintro s a w rest hready ⟨hc, hw⟩ hview
    rw [if_neg hc]
    exact (hx hc).complete hready hw hview

theorem congr {x : ExceptT ε (StateM σ) α} {L L' : α → List γ → Prop}
    (hx : Recognizes view ready x L) (h : ∀ a w, L a w ↔ L' a w) :
    Recognizes view ready x L' := by
  have heq : L = L' := by
    funext a w
    exact propext (h a w)
  exact heq ▸ hx

end Recognizes

end Recognizers
