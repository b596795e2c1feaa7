import Mathlib.Data.Nat.Basic
import Mathlib.Tactic.Common

/-! A counting semaphore kept as a buffered channel of tokens: releases that find it
full are dropped. -/

/-- Tokens in a channel of fixed capacity. -/
structure Semaphore where
  capacity : ℕ
  tokens : ℕ
  tokens_le : tokens ≤ capacity
  deriving DecidableEq

namespace Semaphore

def empty (capacity : ℕ) : Semaphore := ⟨capacity, 0, Nat.zero_le _⟩

def acquire (s : Semaphore) : Option Semaphore :=
  if 0 < s.tokens then
    some ⟨s.capacity, s.tokens - 1, Nat.le_trans (Nat.sub_le _ _) s.tokens_le⟩
  else none

/-- A send that drops its token when the channel is full. -/
def offer (s : Semaphore) : Semaphore :=
  if h : s.tokens < s.capacity then ⟨s.capacity, s.tokens + 1, h⟩ else s

def offerMany (s : Semaphore) : ℕ → Semaphore
  | 0 => s
  | n + 1 => (s.offerMany n).offer

@[simp] theorem empty_capacity (capacity : ℕ) : (empty capacity).capacity = capacity := rfl

@[simp] theorem empty_tokens (capacity : ℕ) : (empty capacity).tokens = 0 := rfl

theorem acquire_eq_some {s t : Semaphore} (h : s.acquire = some t) :
    t.capacity = s.capacity ∧ t.tokens + 1 = s.tokens := by
  unfold acquire at h
  split_ifs at h with hpos
  cases h
  exact ⟨rfl, Nat.sub_add_cancel hpos⟩

@[simp] theorem offer_capacity (s : Semaphore) : s.offer.capacity = s.capacity := by
  unfold offer
  split <;> rfl

theorem offer_tokens (s : Semaphore) : s.offer.tokens = min s.capacity (s.tokens + 1) := by
  have hle := s.tokens_le
  unfold offer
  split_ifs with h
  · simp only
    omega
  · omega

@[simp] theorem offerMany_capacity (s : Semaphore) (n : ℕ) :
    (s.offerMany n).capacity = s.capacity := by
  induction n with
  | zero => rfl
  | succ n ih => rw [offerMany, offer_capacity, ih]

theorem offerMany_tokens (s : Semaphore) (n : ℕ) :
    (s.offerMany n).tokens = min s.capacity (s.tokens + n) := by
  induction n with
  | zero => exact (min_eq_right s.tokens_le).symm
  | succ n ih =>
    rw [offerMany, offer_tokens, offerMany_capacity, ih]
    omega

end Semaphore
