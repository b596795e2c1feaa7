import Mathlib.Data.List.Basic

/-! Sequences of checks that stop at the first failure, loops of them, and checks inside a
computation with state. -/
namespace Checks

universe v w

variable {ε : Type v} {α β : Type w}

def failIf (c : Prop) [Decidable c] (e : ε) : Except ε Unit := if c then .error e else .ok ()

theorem failIf_eq_ok {c : Prop} [Decidable c] {e : ε} : failIf c e = .ok () ↔ ¬c := by
  unfold failIf
  split_ifs with h
  · simp [h]
  · simp [h]

theorem parts_of_ok {check : Except ε α} {rest : α → Except ε β} {result : β}
    (h : check >>= rest = .ok result) : ∃ value, check = .ok value ∧ rest value = .ok result := by
  cases check with
  | error e => cases h
  | ok value => exact ⟨value, rfl, h⟩

section Folds
variable {ε α γ : Type*} {step : γ → α → Except ε γ} {P : γ → Prop} {Q : α → Prop}

/-- What every turn of a loop keeps holds after the loop. -/
theorem foldlM_keeps (hstep : ∀ acc a next, P acc → step acc a = .ok next → P next)
    {l : List α} {acc out : γ} (hacc : P acc) (h : l.foldlM step acc = .ok out) : P out := by
  induction l generalizing acc with
  | nil =>
    obtain rfl := Except.ok.inj h
    exact hacc
  | cons a l ih =>
    rw [List.foldlM_cons] at h
    obtain ⟨next, hnext, hrest⟩ := parts_of_ok h
    exact ih (hstep acc a next hacc hnext) hrest

/-- A loop that succeeds has passed the check of each turn. -/
theorem foldlM_checks (hstep : ∀ acc a next, step acc a = .ok next → Q a) {l : List α}
    {acc out : γ} (h : l.foldlM step acc = .ok out) : ∀ a ∈ l, Q a := by
  induction l generalizing acc with
  | nil => simp
  | cons a l ih =>
    rw [List.foldlM_cons] at h
    obtain ⟨next, hnext, hrest⟩ := parts_of_ok h
    intro b hb
    rcases List.mem_cons.mp hb with rfl | hb
    · exact hstep acc b next hnext
    · exact ih hrest b hb

/-- What a loop finds, it had at the start or found in one of its turns. -/
theorem foldlM_finds (hstep : ∀ acc a next, step acc a = .ok next → (P next ↔ P acc ∨ Q a))
    {l : List α} {acc out : γ} (h : l.foldlM step acc = .ok out) :
    P out ↔ P acc ∨ ∃ a ∈ l, Q a := by
  induction l generalizing acc with
  | nil =>
    obtain rfl := Except.ok.inj h
    simp
  | cons a l ih =>
    rw [List.foldlM_cons] at h
    obtain ⟨next, hnext, hrest⟩ := parts_of_ok h
    rw [ih hrest, hstep acc a next hnext, or_assoc, List.exists_mem_cons_iff]

theorem foldl_finds {step : γ → α → γ} (hstep : ∀ acc a, P (step acc a) ↔ P acc ∨ Q a)
    (l : List α) (acc : γ) : P (l.foldl step acc) ↔ P acc ∨ ∃ a ∈ l, Q a := by
  induction l generalizing acc with
  | nil => simp
  | cons a l ih => rw [List.foldl_cons, ih, hstep, or_assoc, List.exists_mem_cons_iff]

end Folds

section Stateful
variable {ε σ α β : Type}

def check (x : Except ε α) : ExceptT ε (StateM σ) α := ExceptT.mk (pure x)

/-- The outcome of a computation with state, and the state it leaves. -/
def outcome (x : ExceptT ε (StateM σ) α) (s : σ) : Except ε α × σ := x.run s

/-- A computation that either fails and leaves the state alone, or succeeds and changes it
as told. -/
def Commits (g : σ → σ) (x : ExceptT ε (StateM σ) α) : Prop :=
  ∀ s, (∃ e, outcome x s = (.error e, s)) ∨ ∃ a, outcome x s = (.ok a, g s)

theorem outcome_check_bind (x : Except ε α) (f : α → ExceptT ε (StateM σ) β) (s : σ) :
    outcome (check x >>= f) s =
      match x with
      | .error e => (.error e, s)
      | .ok a => outcome (f a) s := by
  cases x <;> rfl

theorem outcome_get_bind (f : σ → ExceptT ε (StateM σ) α) (s : σ) :
    outcome (get >>= f) s = outcome (f s) s := rfl

theorem Commits.check_bind {g : σ → σ} {f : α → ExceptT ε (StateM σ) β}
    (hf : ∀ a, Commits g (f a)) (x : Except ε α) : Commits g (check x >>= f) := by
  intro s
  rw [outcome_check_bind]
  cases x with
  | error e => exact Or.inl ⟨e, rfl⟩
  | ok a => exact hf a s

theorem Commits.get_bind {g : σ → σ} {f : σ → ExceptT ε (StateM σ) α}
    (hf : ∀ s, Commits g (f s)) : Commits g (get >>= f) := by
  intro s
  rw [outcome_get_bind]
  exact hf s s

def Succeeds (x : ExceptT ε (StateM σ) α) (s : σ) : Prop := ∃ a t, outcome x s = (.ok a, t)

theorem succeeds_check_bind {x : Except ε α} {f : α → ExceptT ε (StateM σ) β} {s : σ} :
    Succeeds (check x >>= f) s ↔ ∃ a, x = .ok a ∧ Succeeds (f a) s := by
  unfold Succeeds
  rw [outcome_check_bind]
  cases x with
  | error e => simp
  | ok a => simp

theorem succeeds_get_bind {f : σ → ExceptT ε (StateM σ) α} {s : σ} :
    Succeeds (get >>= f) s ↔ Succeeds (f s) s := Iff.rfl

theorem succeeds_modify_bind {g : σ → σ} {f : PUnit → ExceptT ε (StateM σ) α} {s : σ} :
    Succeeds (modify g >>= f) s ↔ Succeeds (f ⟨⟩) (g s) := Iff.rfl

theorem succeeds_pure (a : α) (s : σ) : Succeeds (pure a : ExceptT ε (StateM σ) α) s :=
  ⟨a, s, rfl⟩

end Stateful

end Checks
