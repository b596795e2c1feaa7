import Mathlib.Data.List.Basic
import Mathlib.Data.List.Perm.Basic
import Mathlib.Logic.Function.Iterate

/-! Lists used as bags: an element is removed by putting the last one in its place. -/
namespace SwapRemove

variable {α : Type*}

/-- Overwrite position `i` with the last element and drop the last position. -/
def swapRemove (l : List α) (i : ℕ) : List α :=
  match l.getLast? with
  | none => l
  | some last => (l.set i last).dropLast

def removeFirst (p : α → Bool) (l : List α) : List α :=
  match l.findIdx? p with
  | none => l
  | some i => swapRemove l i

theorem swapRemove_zero_perm (a : α) (l : List α) : (swapRemove (a :: l) 0).Perm l := by
  cases hl : l.getLast? with
  | none =>
    obtain rfl : l = [] := List.getLast?_eq_none_iff.mp hl
    rfl
  | some last =>
    have hlast : l.dropLast ++ [last] = l := List.dropLast_append_getLast? last hl
    have hne : l ≠ [] := by
      rintro rfl
      cases hl
    have hswap : swapRemove (a :: l) 0 = last :: l.dropLast := by
      simp [swapRemove, List.getLast?_cons, hl, List.dropLast_cons_of_ne_nil hne]
    rw [hswap]
    calc (last :: l.dropLast).Perm (l.dropLast ++ [last]) := (List.perm_append_singleton _ _).symm
      _ = l := hlast

theorem swapRemove_succ (a : α) (l : List α) {i : ℕ} (hi : i < l.length) :
    swapRemove (a :: l) (i + 1) = a :: swapRemove l i := by
  obtain ⟨last, hlast⟩ : ∃ last, l.getLast? = some last := by
    cases hl : l.getLast? with
    | none =>
      obtain rfl : l = [] := List.getLast?_eq_none_iff.mp hl
      cases hi
    | some last => exact ⟨last, rfl⟩
  have hne : l.set i last ≠ [] := by
    intro h
    have hlen := congrArg List.length h
    simp only [List.length_set, List.length_nil] at hlen
    omega
  simp [swapRemove, List.getLast?_cons, hlast, List.dropLast_cons_of_ne_nil hne]

/-- Apart from the order, swapping with the last element only removes. -/
theorem swapRemove_perm {l : List α} {i : ℕ} (hi : i < l.length) :
    (swapRemove l i).Perm (l.eraseIdx i) := by
  induction l generalizing i with
  | nil => cases hi
  | cons a l ih =>
    cases i with
    | zero => exact swapRemove_zero_perm a l
    | succ i =>
      have hi : i < l.length := by simpa using hi
      rw [swapRemove_succ a l hi, List.eraseIdx_cons_succ]
      exact (ih hi).cons a

theorem removeFirst_perm (p : α → Bool) (l : List α) : (removeFirst p l).Perm (l.eraseP p) := by
  unfold removeFirst
  cases h : l.findIdx? p with
  | none =>
    rw [List.findIdx?_eq_none_iff] at h
    rw [List.eraseP_of_forall_not (by simpa using h)]
  | some i =>
    obtain ⟨hi, -⟩ := List.findIdx?_eq_some_iff_getElem.mp h
    have herase : l.eraseP p = l.eraseIdx i := by
      rw [List.eraseP_eq_eraseIdx, h]
    rw [herase]
    exact swapRemove_perm hi

theorem mem_of_mem_removeFirst {p : α → Bool} {l : List α} {a : α} (h : a ∈ removeFirst p l) :
    a ∈ l :=
  List.mem_of_mem_eraseP ((removeFirst_perm p l).mem_iff.mp h)

theorem eraseP_eq_erase [DecidableEq α] {p : α → Bool} {l : List α} {a : α} (ha : p a = true)
    (h : ∀ x ∈ l, p x = true → x = a) : l.eraseP p = l.erase a := by
  induction l with
  | nil => rfl
  | cons x l ih =>
    have hl := ih fun y hy => h y (List.mem_cons_of_mem x hy)
    by_cases hx : x = a
    · subst hx
      rw [List.eraseP_cons_of_pos ha, List.erase_cons_head]
    · have hp : ¬p x = true := fun hp => hx (h x List.mem_cons_self hp)
      rw [List.eraseP_cons_of_neg hp, List.erase_cons_tail (by simpa using hx), hl]

theorem count_iterate_removeFirst [DecidableEq α] {p : α → Bool} {l : List α} {a : α}
    (ha : p a = true) (h : ∀ x ∈ l, p x = true → x = a) (n : ℕ) (b : α) :
    ((removeFirst p)^[n] l).count b = if b = a then l.count b - n else l.count b := by
  induction n generalizing l with
  | zero => simp
  | succ n ih =>
    have hperm : (removeFirst p l).Perm (l.erase a) := by
      rw [← eraseP_eq_erase ha h]
      exact removeFirst_perm p l
    have hrest : ∀ x ∈ removeFirst p l, p x = true → x = a := by
      intro x hx
      exact h x (List.mem_of_mem_erase (hperm.mem_iff.mp hx))
    rw [Function.iterate_succ_apply, ih hrest, hperm.count_eq]
    split_ifs with hb
    · subst hb
      rw [List.count_erase_self]
      omega
    · exact List.count_erase_of_ne hb

end SwapRemove
