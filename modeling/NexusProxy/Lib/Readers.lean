import Mathlib.Data.List.Basic
import Mathlib.Tactic.Common

/-! Programs that consume a stream only through `Read`, and recorders placed between such
a program and the stream. A read answers with some elements and possibly an error. -/
namespace Readers

variable {α β ε σ κ : Type*}

/-- The answer to a read: the elements, and the error if there was one. -/
abbrev Answer (β ε : Type*) := List β × Option ε

/-- A program by its reads: the buffer it offers, and how it continues on the answer. -/
inductive Program (β ε α : Type*) where
  | done (result : α)
  | read (size : ℕ) (next : Answer β ε → Program β ε α)

def Program.exec (read : σ → ℕ → Answer β ε × σ) : Program β ε α → σ → α × σ
  | .done result, s => (result, s)
  | .read size next, s => (next (read s size).1).exec read (read s size).2

/-- What is read and what remains make up the stream. -/
def Lossless (read : σ → ℕ → Answer β ε × σ) (rest : σ → List β) : Prop :=
  ∀ s size, (read s size).1.1 ++ rest (read s size).2 = rest s

def tap (read : σ → ℕ → Answer β ε × σ) (record : κ → List β → κ) (s : σ × κ) (size : ℕ) :
    Answer β ε × (σ × κ) :=
  ((read s.1 size).1, (read s.1 size).2, record s.2 (read s.1 size).1.1)

/-- A recorder that has never cut anything off holds everything it was given. -/
def Captures (record : κ → List β → κ) (bytes : κ → List β) (cut : κ → Bool) : Prop :=
  ∀ k p, cut (record k p) = false → cut k = false ∧ bytes (record k p) = bytes k ++ p

section Exec
variable {read : σ → ℕ → Answer β ε × σ} {rest : σ → List β} {record : κ → List β → κ}
  {bytes : κ → List β} {cut : κ → Bool}

theorem Program.exec_invariant {I : σ → Prop} (hI : ∀ s size, I s → I (read s size).2)
    (p : Program β ε α) {s : σ} (hs : I s) : I (p.exec read s).2 := by
  induction p generalizing s with
  | done result => exact hs
  | read size next ih => exact ih _ (hI s size hs)

/-- A recorder that has not cut anything off holds what the program has consumed. -/
theorem Program.exec_tap (hread : Lossless read rest) (hcap : Captures record bytes cut)
    (p : Program β ε α) (s : σ) (k : κ)
    (hcut : cut (p.exec (tap read record) (s, k)).2.2 = false) :
    cut k = false ∧ bytes (p.exec (tap read record) (s, k)).2.2 ++
      rest (p.exec (tap read record) (s, k)).2.1 = bytes k ++ rest s := by
  induction p generalizing s k with
  | done result => exact ⟨hcut, rfl⟩
  | read size next ih =>
    obtain ⟨hcut', heq⟩ := ih _ _ _ hcut
    obtain ⟨hk, hbytes⟩ := hcap k _ hcut'
    refine ⟨hk, heq.trans ?_⟩
    rw [hbytes, List.append_assoc, hread s size]

theorem Program.exec_tap_invariant {I : κ → Prop} (hI : ∀ k p, I k → I (record k p))
    (p : Program β ε α) {s : σ} {k : κ} (hk : I k) :
    I (p.exec (tap read record) (s, k)).2.2 :=
  p.exec_invariant (I := fun s : σ × κ => I s.2) (fun s _ hs => hI s.2 _ hs) hk

end Exec

end Readers
