import Mathlib.Data.List.AList

/-! Maps of maps, as rows of entries: an entry is put into a row that is made when it is missing,
and a row that becomes empty is dropped. -/
namespace NestedMaps

variable {κ ι β : Type*} [DecidableEq κ] [DecidableEq ι]
  {m : AList fun _ : κ => AList fun _ : ι => β} {k k' : κ} {i i' : ι} {v : β}

def get (m : AList fun _ : κ => AList fun _ : ι => β) (k : κ) (i : ι) : Option β :=
  (m.lookup k).bind (AList.lookup i)

def put (m : AList fun _ : κ => AList fun _ : ι => β) (k : κ) (i : ι) (v : β) :
    AList fun _ : κ => AList fun _ : ι => β :=
  m.insert k (((m.lookup k).getD ∅).insert i v)

def remove (m : AList fun _ : κ => AList fun _ : ι => β) (k : κ) (i : ι) :
    AList fun _ : κ => AList fun _ : ι => β :=
  match m.lookup k with
  | none => m
  | some row => if (row.erase i).entries = [] then m.erase k else m.insert k (row.erase i)

theorem lookup_put_ne (h : k' ≠ k) : (put m k i v).lookup k' = m.lookup k' :=
  AList.lookup_insert_ne h

theorem lookup_remove_ne (h : k' ≠ k) : (remove m k i).lookup k' = m.lookup k' := by
  unfold remove
  split
  · rfl
  · split_ifs
    · exact AList.lookup_erase_ne h
    · exact AList.lookup_insert_ne h

theorem get_put (m : AList fun _ : κ => AList fun _ : ι => β) (k k' : κ) (i i' : ι) (v : β) :
    get (put m k i v) k' i' = if k' = k ∧ i' = i then some v else get m k' i' := by
  unfold get
  by_cases hk : k' = k
  · subst hk
    rw [put, AList.lookup_insert, Option.bind_some]
    by_cases hi : i' = i
    · subst hi
      rw [AList.lookup_insert, if_pos ⟨rfl, rfl⟩]
    · rw [AList.lookup_insert_ne hi, if_neg fun h => hi h.2]
      cases m.lookup k' <;> rfl
  · rw [lookup_put_ne hk, if_neg fun h => hk h.1]

omit [DecidableEq κ] in
theorem lookup_of_entries_nil {row : AList fun _ : ι => β} (h : row.entries = []) (i : ι) :
    row.lookup i = none := by
  rw [AList.lookup_eq_none, AList.mem_keys, AList.keys, h]
  simp

theorem get_remove (m : AList fun _ : κ => AList fun _ : ι => β) (k k' : κ) (i i' : ι) :
    get (remove m k i) k' i' = if k' = k ∧ i' = i then none else get m k' i' := by
  unfold get
  by_cases hk : k' = k
  · subst hk
    cases hrow : m.lookup k' with
    | none =>
      simp [remove, hrow]
    | some row =>
      -- with or without the row, its entries are those of the shortened one
      have hget : ((remove m k' i).lookup k').bind (AList.lookup i') =
          (row.erase i).lookup i' := by
        simp only [remove, hrow]
        split_ifs with hempty
        · rw [AList.lookup_erase, lookup_of_entries_nil hempty]
          rfl
        · rw [AList.lookup_insert]
          rfl
      rw [hget]
      by_cases hi : i' = i
      · subst hi
        rw [AList.lookup_erase, if_pos ⟨rfl, rfl⟩]
      · rw [AList.lookup_erase_ne hi, if_neg fun h => hi h.2]
        rfl
  · rw [lookup_remove_ne hk, if_neg fun h => hk h.1]

/-- Every row has an entry. -/
def NoEmptyRow (m : AList fun _ : κ => AList fun _ : ι => β) : Prop :=
  ∀ k row, m.lookup k = some row → ∃ i, (row.lookup i).isSome

theorem noEmptyRow_empty : NoEmptyRow (∅ : AList fun _ : κ => AList fun _ : ι => β) := by
  intro k row hrow
  cases hrow

theorem NoEmptyRow.put (h : NoEmptyRow m) (k : κ) (i : ι) (v : β) : NoEmptyRow (put m k i v) := by
  intro k' row hrow
  by_cases hk : k' = k
  · subst hk
    rw [NestedMaps.put, AList.lookup_insert] at hrow
    obtain rfl := Option.some.inj hrow
    exact ⟨i, by rw [AList.lookup_insert]; rfl⟩
  · rw [lookup_put_ne hk] at hrow
    exact h k' row hrow

theorem NoEmptyRow.remove (h : NoEmptyRow m) (k : κ) (i : ι) : NoEmptyRow (remove m k i) := by
  intro k' row hrow
  by_cases hk : k' = k
  · subst hk
    cases hold : m.lookup k' with
    | none =>
      simp only [NestedMaps.remove, hold] at hrow
      cases hrow
    | some old =>
      simp only [NestedMaps.remove, hold] at hrow
      split_ifs at hrow with hempty
      · rw [AList.lookup_erase] at hrow
        cases hrow
      · rw [AList.lookup_insert] at hrow
        obtain rfl := Option.some.inj hrow
        obtain ⟨entry, hentry⟩ := List.exists_mem_of_ne_nil _ hempty
        exact ⟨entry.1, by rw [AList.mem_lookup_iff.mpr hentry]; rfl⟩
  · rw [lookup_remove_ne hk] at hrow
    exact h k' row hrow

theorem NoEmptyRow.lookup_eq_none_iff (h : NoEmptyRow m) :
    m.lookup k = none ↔ ∀ i, get m k i = none := by
  constructor
  · intro hnone i
    rw [get, hnone]
    rfl
  · intro hall
    cases hrow : m.lookup k with
    | none => rfl
    | some row =>
      obtain ⟨i, hi⟩ := h k row hrow
      have hnone := hall i
      rw [get, hrow] at hnone
      rw [show row.lookup i = none from hnone] at hi
      cases hi

end NestedMaps
