import Mathlib.Algebra.BigOperators.Group.List.Basic
import Mathlib.Algebra.GroupWithZero.Nat
import Mathlib.Algebra.Ring.Int.Defs
import Mathlib.Data.Finset.Card
import Mathlib.Data.List.AList
import Mathlib.Data.List.Sort

/-! Lists whose entries are updated in place or added at the end, and association lists: how
many entries are of a kind, and what holds of each entry. -/
namespace Collections

variable {ω : Type*} {l : List ω} {i : ℕ} {a b : ω}

theorem countP_set_add (ha : l[i]? = some a) (p : ω → Bool) :
    (l.set i b).countP p + (p a).toNat = l.countP p + (p b).toNat := by
  obtain ⟨hi, rfl⟩ := List.getElem?_eq_some_iff.mp ha
  rw [List.countP_set hi]
  -- the subtraction does not cut off: an entry of the kind is counted
  have hpos : p l[i] = true → 0 < l.countP p := by
    intro hp
    exact List.countP_pos_iff.mpr ⟨l[i], List.getElem_mem hi, hp⟩
  cases hp : p l[i] with
  | false => cases p b <;> rfl
  | true =>
    have := hpos hp
    cases p b <;> simp <;> omega

theorem countP_set_same {p : ω → Bool} (ha : l[i]? = some a) (hp : p b = p a) :
    (l.set i b).countP p = l.countP p := by
  have hset := countP_set_add (b := b) ha p
  rw [hp] at hset
  exact Nat.add_right_cancel hset

theorem countP_set_enter {p : ω → Bool} (ha : l[i]? = some a) (hold : p a = false)
    (hnew : p b = true) : (l.set i b).countP p = l.countP p + 1 := by
  have hset := countP_set_add (b := b) ha p
  rw [hold, hnew] at hset
  exact hset

theorem countP_set_leave {p : ω → Bool} (ha : l[i]? = some a) (hold : p a = true)
    (hnew : p b = false) : (l.set i b).countP p + 1 = l.countP p := by
  have hset := countP_set_add (b := b) ha p
  rw [hold, hnew] at hset
  exact hset

theorem countP_concat (l : List ω) (b : ω) (p : ω → Bool) :
    (l ++ [b]).countP p = l.countP p + (p b).toNat := by
  rw [List.countP_append, List.countP_singleton]
  cases p b <;> rfl

theorem sum_map_set (ha : l[i]? = some a) (b : ω) (f : ω → ℤ) :
    ((l.set i b).map f).sum + f a = (l.map f).sum + f b := by
  obtain ⟨hi, rfl⟩ := List.getElem?_eq_some_iff.mp ha
  rw [List.map_set, List.sum_set', dif_pos (by simpa using hi), List.getElem_map]
  omega

theorem sum_map_concat (l : List ω) (b : ω) (f : ω → ℤ) :
    ((l ++ [b]).map f).sum = (l.map f).sum + f b := by
  rw [List.map_append, List.map_singleton, List.sum_append, List.sum_singleton]

theorem sum_map_ite (l : List ω) (p : ω → Bool) :
    (l.map fun x => if p x then (1 : ℤ) else 0).sum = l.countP p := by
  induction l with
  | nil => rfl
  | cons x l ih =>
    rw [List.map_cons, List.sum_cons, ih, List.countP_cons]
    push_cast
    cases p x <;> simp [add_comm]

theorem forall_mem_set {p : ω → Prop} (h : ∀ x ∈ l, p x) (hb : p b) : ∀ x ∈ l.set i b, p x := by
  intro x hx
  rcases List.mem_or_eq_of_mem_set hx with hx | rfl
  · exact h x hx
  · exact hb

theorem forall_mem_concat {p : ω → Prop} (h : ∀ x ∈ l, p x) (hb : p b) : ∀ x ∈ l ++ [b], p x := by
  intro x hx
  rcases List.mem_append.mp hx with hx | hx
  · exact h x hx
  · exact List.mem_singleton.mp hx ▸ hb

theorem perm_of_find? {p : ω → Bool} {l : List ω} {a : ω} (h : l.find? p = some a) :
    l.Perm (a :: l.eraseP p) := by
  induction l with
  | nil => cases h
  | cons b l ih =>
    by_cases hb : p b = true
    · rw [List.find?_cons_of_pos hb, Option.some.injEq] at h
      rw [List.eraseP_cons_of_pos hb, h]
    · rw [List.find?_cons_of_neg hb] at h
      rw [List.eraseP_cons_of_neg hb]
      exact ((ih h).cons b).trans (List.Perm.swap ..)

/-- The largest of some values, from below by `bound`, in the order of a loop. -/
def largest {β : Type*} [LT β] [DecidableLT β] (f : ω → β) (bound : β) (l : List ω) : β :=
  l.foldl (fun best x => if best < f x then f x else best) bound

section Largest
variable {β : Type*} [LinearOrder β] {f : ω → β} {bound : β}

theorem largest_cons (x : ω) (l : List ω) :
    largest f bound (x :: l) = largest f (max bound (f x)) l := by
  rw [largest, List.foldl_cons, ← largest]
  congr 1
  split_ifs with h
  · exact (max_eq_right h.le).symm
  · exact (max_eq_left (not_lt.mp h)).symm

theorem le_largest (f : ω → β) (bound : β) (l : List ω) :
    bound ≤ largest f bound l ∧ ∀ x ∈ l, f x ≤ largest f bound l := by
  induction l generalizing bound with
  | nil => simp [largest]
  | cons y l ih =>
    obtain ⟨hbound, hall⟩ := ih (max bound (f y))
    rw [largest_cons, List.forall_mem_cons]
    exact ⟨(le_max_left _ _).trans hbound, (le_max_right _ _).trans hbound, hall⟩

theorem largest_mem (f : ω → β) (bound : β) (l : List ω) :
    largest f bound l = bound ∨ ∃ x ∈ l, f x = largest f bound l := by
  induction l generalizing bound with
  | nil => exact .inl rfl
  | cons y l ih =>
    rw [largest_cons]
    rcases ih (max bound (f y)) with heq | ⟨x, hx, hfx⟩
    · rw [heq]
      rcases le_total bound (f y) with hle | hle
      · exact .inr ⟨y, List.mem_cons_self, (max_eq_right hle).symm⟩
      · exact .inl (max_eq_left hle)
    · exact .inr ⟨x, List.mem_cons_of_mem y hx, hfx⟩

end Largest

theorem countP_range_getElem? (l : List ω) (p : ω → Bool) :
    (List.range l.length).countP (fun i => (l[i]?).any p) = l.countP p := by
  induction l with
  | nil => rfl
  | cons x l ih =>
    rw [List.length_cons, List.range_succ_eq_map, List.countP_cons, List.countP_map,
      List.countP_cons, ← ih]
    rfl

/-- What holds of every entry, at its index. -/
def Each (P : ℕ → ω → Prop) (l : List ω) : Prop := ∀ i x, l[i]? = some x → P i x

variable {P Q : ℕ → ω → Prop}

theorem Each.nil : Each P [] := by
  intro i x hx
  cases hx

theorem Each.set (h : Each P l) (hself : Q i b)
    (hothers : ∀ j x, j ≠ i → l[j]? = some x → P j x → Q j x) : Each Q (l.set i b) := by
  intro j x hx
  by_cases hj : j = i
  · subst hj
    rw [List.getElem?_set, if_pos rfl] at hx
    split_ifs at hx
    exact Option.some.inj hx ▸ hself
  · rw [List.getElem?_set_ne (Ne.symm hj)] at hx
    exact hothers j x hj hx (h j x hx)

theorem Each.concat (h : Each P l) (hlast : Q l.length b)
    (hothers : ∀ j x, l[j]? = some x → P j x → Q j x) : Each Q (l ++ [b]) := by
  intro j x hx
  rw [List.getElem?_append] at hx
  split_ifs at hx with hj
  · exact hothers j x hx (h j x hx)
  · obtain ⟨hzero, rfl⟩ := List.getElem?_eq_some_iff.mp hx
    have hj : j = l.length := by
      simp only [List.length_singleton] at hzero
      omega
    simpa [hj] using hlast

def Any (p : ω → Prop) (l : List ω) : Prop := ∃ x ∈ l, p x

variable {p q : ω → Prop}

instance [DecidablePred p] : Decidable (Any p l) := inferInstanceAs (Decidable (∃ x ∈ l, p x))

theorem Any.set_or (h : Any p l) (ha : l[i]? = some a) (b : ω) : p a ∨ Any p (l.set i b) := by
  obtain ⟨x, hx, hp⟩ := h
  obtain ⟨j, hj⟩ := List.mem_iff_getElem?.mp hx
  by_cases hji : j = i
  · subst hji
    obtain rfl : a = x := Option.some.inj (ha.symm.trans hj)
    exact Or.inl hp
  · refine Or.inr ⟨x, ?_, hp⟩
    rw [List.mem_iff_getElem?]
    exact ⟨j, by rw [List.getElem?_set_ne (Ne.symm hji), hj]⟩

theorem Any.set (h : Any p l) (ha : l[i]? = some a) (hself : p a → q b)
    (hothers : ∀ x, p x → q x) : Any q (l.set i b) := by
  rcases h.set_or ha b with hp | ⟨x, hx, hp⟩
  · exact ⟨b, List.mem_set (List.getElem?_eq_some_iff.mp ha).1 b, hself hp⟩
  · exact ⟨x, hx, hothers x hp⟩

theorem Any.concat (h : Any p l) : Any p (l ++ [b]) := by
  obtain ⟨x, hx, hp⟩ := h
  exact ⟨x, List.mem_append_left [b] hx, hp⟩

theorem Any.last (h : p b) : Any p (l ++ [b]) := ⟨b, List.mem_concat_self, h⟩

/-- A stable sort does not change which entry of a kind comes first, when the entries of the kind
are in order as they stand. -/
theorem find?_insertionSort {r : ω → ω → Prop} [DecidableRel r] {p : ω → Bool}
    (h : ∀ x ∈ l, ∀ y ∈ l, p x = true → p y = true → r x y) :
    (l.insertionSort r).find? p = l.find? p := by
  have hsorted : (l.filter p).Pairwise r := by
    apply List.pairwise_of_forall_mem_list
    intro x hx y hy
    rw [List.mem_filter] at hx hy
    exact h x hx.1 y hy.1 hx.2 hy.2
  have hsublist : ((l.filter p).filter p).Sublist ((l.insertionSort r).filter p) :=
    (List.sublist_insertionSort hsorted List.filter_sublist).filter p
  have hlength : ((l.insertionSort r).filter p).length = (l.filter p).length :=
    ((List.perm_insertionSort r l).filter p).length_eq
  have heq : l.filter p = (l.insertionSort r).filter p := by
    rw [List.filter_filter] at hsublist
    simp only [Bool.and_self] at hsublist
    exact hsublist.eq_of_length hlength.symm
  rw [← List.head?_filter, ← List.head?_filter, heq]

section Maps
variable {κ β : Type*} [DecidableEq κ] {m : AList fun _ : κ => β} {k : κ} {v : β}

/-- Of the insertions of a loop, the last one for a key stays. -/
theorem lookup_foldl_insert (f : ω → κ) (g : ω → β) (l : List ω) (m : AList fun _ : κ => β)
    (k : κ) : (l.foldl (fun m x => m.insert (f x) (g x)) m).lookup k =
      ((l.reverse.find? fun x => f x = k).map g).or (m.lookup k) := by
  induction l generalizing m with
  | nil => rfl
  | cons x l ih =>
    rw [List.foldl_cons, ih, List.reverse_cons, List.find?_append]
    cases hfound : l.reverse.find? fun x => f x = k with
    | some y => rfl
    | none =>
      by_cases hx : f x = k
      · subst hx
        simp
      · rw [AList.lookup_insert_ne (Ne.symm hx)]
        simp [hx]

def countValues (p : β → Bool) (m : AList fun _ : κ => β) : ℕ :=
  m.entries.countP fun entry => p entry.2

theorem countValues_insert (hk : k ∉ m) (p : β → Bool) :
    countValues p (m.insert k v) = countValues p m + (p v).toNat := by
  unfold countValues
  rw [AList.entries_insert_of_notMem hk, List.countP_cons]
  cases p v <;> rfl

theorem countValues_erase (hk : m.lookup k = some v) (p : β → Bool) :
    countValues p (m.erase k) + (p v).toNat = countValues p m := by
  have hmem : k ∈ m.entries.keys := List.dlookup_isSome.mp (by
    change (m.lookup k).isSome
    rw [hk]
    rfl)
  obtain ⟨w, before, after, hbefore, hentries, herase⟩ := List.exists_of_kerase hmem
  have hv : w = v := by
    have hlookup : m.entries.dlookup k = some v := hk
    rw [hentries, List.dlookup_append, List.dlookup_eq_none.mpr hbefore, Option.none_or,
      List.dlookup_cons_eq] at hlookup
    exact Option.some.inj hlookup
  subst hv
  change (m.entries.kerase k).countP _ + _ = m.entries.countP _
  rw [herase, hentries, List.countP_append, List.countP_append, List.countP_cons]
  have hcounted : (if p w = true then 1 else 0) = (p w).toNat := by cases p w <;> rfl
  rw [hcounted]
  omega

def Injective (m : AList fun _ : κ => β) : Prop :=
  ∀ k k' v, m.lookup k = some v → m.lookup k' = some v → k = k'

/-- The values of a kind. -/
def values (p : β → Bool) (m : AList fun _ : κ => β) : List β :=
  (m.entries.filter fun entry => p entry.2).map fun entry => entry.2

omit [DecidableEq κ] in
theorem length_values (p : β → Bool) (m : AList fun _ : κ => β) :
    (values p m).length = countValues p m := by
  rw [values, List.length_map, countValues, List.countP_eq_length_filter]

theorem mem_values {p : β → Bool} : v ∈ values p m ↔ (∃ k, m.lookup k = some v) ∧ p v = true := by
  constructor
  · intro hv
    obtain ⟨entry, hentry, rfl⟩ := List.mem_map.mp hv
    obtain ⟨hmem, hp⟩ := List.mem_filter.mp hentry
    exact ⟨⟨entry.1, AList.mem_lookup_iff.mpr hmem⟩, hp⟩
  · rintro ⟨⟨k, hk⟩, hp⟩
    exact List.mem_map.mpr ⟨⟨k, v⟩, List.mem_filter.mpr ⟨AList.mem_lookup_iff.mp hk, hp⟩, rfl⟩

theorem Injective.nodup_values (hm : Injective m) (p : β → Bool) : (values p m).Nodup := by
  have hnodup : m.entries.Nodup := m.nodupKeys.nodup
  refine (hnodup.filter _).map_on fun x hx y hy hxy => ?_
  have hx : m.lookup x.1 = some x.2 := AList.mem_lookup_iff.mpr (List.mem_filter.mp hx).1
  have hy : m.lookup y.1 = some y.2 := AList.mem_lookup_iff.mpr (List.mem_filter.mp hy).1
  exact Sigma.ext (hm x.1 y.1 x.2 hx (hxy ▸ hy)) (heq_of_eq hxy)

theorem countValues_getElem?_le {m : AList fun _ : κ => ℕ} (hm : Injective m) (l : List ω)
    (p : ω → Bool) : countValues (fun i => (l[i]?).any p) m ≤ l.countP p := by
  rw [← countP_range_getElem? l p, ← length_values, List.countP_eq_length_filter]
  refine (List.subperm_of_subset (hm.nodup_values _) fun i hi => ?_).length_le
  obtain ⟨-, hp⟩ := mem_values.mp hi
  obtain ⟨x, hx, -⟩ := (Option.any_eq_true _ _).mp hp
  have hlt : i < l.length := (List.getElem?_eq_some_iff.mp hx).1
  exact List.mem_filter.mpr ⟨List.mem_range.mpr hlt, hp⟩

theorem countValues_getElem?_eq {m : AList fun _ : κ => ℕ} (hm : Injective m) {l : List ω}
    {p : ω → Bool} (hall : ∀ i, (l[i]?).any p = true → ∃ k, m.lookup k = some i) :
    countValues (fun i => (l[i]?).any p) m = l.countP p := by
  refine le_antisymm (countValues_getElem?_le hm l p) ?_
  rw [← countP_range_getElem? l p, ← length_values, List.countP_eq_length_filter]
  refine (List.subperm_of_subset (List.nodup_range.filter _) fun i hi => ?_).length_le
  have hp := (List.mem_filter.mp hi).2
  exact mem_values.mpr ⟨hall i hp, hp⟩

end Maps

end Collections
