import Mathlib.Data.List.AList
import Mathlib.Data.List.Nodup
import Mathlib.Data.List.Perm.Basic

/-! Linked lists whose cells have addresses, the maps that lead from a key to the address of its
cell, lists in which the most recent value is in front, and loops that take cells off the back. -/

/-- The cells from the front to the back. No address is used twice, also not after its cell was
removed. -/
structure LinkedList (V : Type*) where
  cells : List (ℕ × V)
  next : ℕ
  addresses : (cells.map Prod.fst).Nodup
  below : ∀ c ∈ cells, c.1 < next

namespace LinkedList
variable {V : Type*} {l : LinkedList V} {p : ℕ} {v : V} {f : V → V}

def empty : LinkedList V := ⟨[], 0, List.nodup_nil, fun _ h => by cases h⟩

def values (l : LinkedList V) : List V := l.cells.map Prod.snd

def len (l : LinkedList V) : ℕ := l.cells.length

def back (l : LinkedList V) : Option (ℕ × V) := l.cells.getLast?

def value? (l : LinkedList V) (p : ℕ) : Option V :=
  (l.cells.find? fun c => c.1 = p).map Prod.snd

/-- The new cell has the address `l.next`. -/
def pushFront (l : LinkedList V) (v : V) : LinkedList V where
  cells := (l.next, v) :: l.cells
  next := l.next + 1
  addresses := by
    refine List.nodup_cons.mpr ⟨fun hmem => ?_, l.addresses⟩
    obtain ⟨c, hc, heq⟩ := List.mem_map.mp hmem
    exact absurd heq (Nat.ne_of_lt (l.below c hc))
  below := by
    intro c hc
    rcases List.mem_cons.mp hc with rfl | hc
    · exact Nat.lt_succ_self _
    · exact Nat.lt_succ_of_lt (l.below c hc)

def remove (l : LinkedList V) (p : ℕ) : LinkedList V where
  cells := l.cells.filter fun c => c.1 ≠ p
  next := l.next
  addresses := (List.filter_sublist.map _).nodup l.addresses
  below := fun c hc => l.below c (List.mem_of_mem_filter hc)

def moveToFront (l : LinkedList V) (p : ℕ) : LinkedList V where
  cells := (l.cells.filter fun c => c.1 = p) ++ l.cells.filter fun c => ¬ c.1 = p
  next := l.next
  addresses := by
    have hperm := (List.filter_append_perm (fun c => decide (c.1 = p)) l.cells).map Prod.fst
    simpa using hperm.nodup_iff.mpr l.addresses
  below := by
    intro c hc
    rcases List.mem_append.mp hc with hc | hc
    · exact l.below c (List.mem_of_mem_filter hc)
    · exact l.below c (List.mem_of_mem_filter hc)

def modify (l : LinkedList V) (p : ℕ) (f : V → V) : LinkedList V where
  cells := l.cells.map fun c => if c.1 = p then (c.1, f c.2) else c
  next := l.next
  addresses := by
    have hfst : (Prod.fst ∘ fun c : ℕ × V => if c.1 = p then (c.1, f c.2) else c) = Prod.fst := by
      funext c
      dsimp only [Function.comp]
      split_ifs <;> rfl
    rw [List.map_map, hfst]
    exact l.addresses
  below := by
    intro c hc
    obtain ⟨d, hd, rfl⟩ := List.mem_map.mp hc
    split_ifs
    · exact l.below d hd
    · exact l.below d hd

theorem eq_of_mem {w : V} (hv : (p, v) ∈ l.cells) (hw : (p, w) ∈ l.cells) : v = w :=
  congrArg Prod.snd (List.inj_on_of_nodup_map l.addresses hv hw rfl)

theorem mem_values : v ∈ l.values ↔ ∃ p, (p, v) ∈ l.cells := by
  simp [values]

theorem value?_eq_some_iff : l.value? p = some v ↔ (p, v) ∈ l.cells := by
  unfold value?
  constructor
  · intro h
    obtain ⟨c, hfind, rfl⟩ := Option.map_eq_some_iff.mp h
    have hp : c.1 = p := by simpa using List.find?_some hfind
    subst hp
    exact List.mem_of_find?_eq_some hfind
  · intro hmem
    cases hfind : l.cells.find? fun c => c.1 = p with
    | none => simpa using List.find?_eq_none.mp hfind (p, v) hmem
    | some c =>
      have hp : c.1 = p := by simpa using List.find?_some hfind
      subst hp
      rw [Option.map_some, eq_of_mem hmem (List.mem_of_find?_eq_some hfind)]

theorem mem_remove {c : ℕ × V} : c ∈ (l.remove p).cells ↔ c ∈ l.cells ∧ c.1 ≠ p := by
  simp [remove]

theorem values_remove_sublist : (l.remove p).values.Sublist l.values :=
  List.filter_sublist.map _

theorem exists_split (hmem : (p, v) ∈ l.cells) :
    ∃ front rear, l.cells = front ++ (p, v) :: rear ∧ (l.remove p).cells = front ++ rear ∧
      ∀ c ∈ front ++ rear, c.1 ≠ p := by
  obtain ⟨front, rear, hcells⟩ := List.append_of_mem hmem
  have hnodup := l.addresses
  rw [hcells, List.map_append, List.map_cons, List.nodup_middle, List.nodup_cons,
    ← List.map_append] at hnodup
  have hother : ∀ c ∈ front ++ rear, c.1 ≠ p := fun c hc heq =>
    hnodup.1 (List.mem_map.mpr ⟨c, hc, heq⟩)
  refine ⟨front, rear, hcells, ?_, hother⟩
  show (l.cells.filter fun c => c.1 ≠ p) = front ++ rear
  rw [hcells, List.filter_append, List.filter_cons_of_neg (by simp), ← List.filter_append,
    List.filter_eq_self]
  intro c hc
  simpa using hother c hc

theorem filter_address (hmem : (p, v) ∈ l.cells) :
    (l.cells.filter fun c => c.1 = p) = [(p, v)] := by
  obtain ⟨front, rear, hcells, -, hother⟩ := exists_split hmem
  have hnone : ((front ++ rear).filter fun c => c.1 = p) = [] := by
    rw [List.filter_eq_nil_iff]
    intro c hc
    simpa using hother c hc
  rw [List.filter_append, List.append_eq_nil_iff] at hnone
  rw [hcells, List.filter_append, List.filter_cons_of_pos (by simp), hnone.1, hnone.2]
  rfl

theorem cells_refresh (hmem : (p, v) ∈ l.cells) :
    ((l.modify p f).moveToFront p).cells = (p, f v) :: (l.remove p).cells := by
  have hchanged : (p, f v) ∈ (l.modify p f).cells := by
    refine List.mem_map.mpr ⟨(p, v), hmem, ?_⟩
    rw [if_pos rfl]
  have hothers : ((l.modify p f).cells.filter fun c => ¬ c.1 = p) =
      l.cells.filter fun c => c.1 ≠ p := by
    rw [modify, List.filter_map]
    have hkeep : ((fun c : ℕ × V => decide ¬ c.1 = p) ∘
        fun c => if c.1 = p then (c.1, f c.2) else c) = fun c => decide (c.1 ≠ p) := by
      funext c
      dsimp only [Function.comp]
      split_ifs <;> rfl
    rw [hkeep]
    refine (List.map_congr_left fun c hc => ?_).trans (List.map_id _)
    rw [if_neg (by simpa using List.of_mem_filter hc)]
    rfl
  show _ ++ ((l.modify p f).cells.filter fun c => ¬ c.1 = p) = _
  rw [filter_address hchanged, hothers]
  rfl

theorem values_perm_remove (hmem : (p, v) ∈ l.cells) :
    l.values.Perm (v :: (l.remove p).values) := by
  obtain ⟨front, rear, hcells, hremove, -⟩ := exists_split hmem
  rw [values, values, hremove, hcells, List.map_append, List.map_append]
  exact List.perm_middle

theorem map_values_refresh {β : Type*} (g : V → β) (hmem : (p, v) ∈ l.cells)
    (hg : g (f v) = g v) :
    (((l.modify p f).moveToFront p).values.map g).Perm (l.values.map g) := by
  have hperm := (values_perm_remove hmem).map g
  rw [values, cells_refresh hmem, List.map_cons, List.map_cons, hg]
  exact hperm.symm

theorem cells_of_back {c : ℕ × V} (h : l.back = some c) :
    l.cells = (l.remove c.1).cells ++ [c] := by
  obtain ⟨front, hcells⟩ := List.getLast?_eq_some_iff.mp h
  have hnodup := l.addresses
  rw [hcells, List.map_append, List.map_singleton, List.nodup_append] at hnodup
  have hremove : (l.remove c.1).cells = front := by
    show (l.cells.filter fun d => d.1 ≠ c.1) = front
    rw [hcells, List.filter_append, List.filter_cons_of_neg (by simp), List.filter_nil,
      List.append_nil, List.filter_eq_self]
    intro d hd
    simpa using hnodup.2.2 d.1 (List.mem_map_of_mem hd) c.1 (by simp)
  rw [hremove, hcells]

theorem values_of_back {c : ℕ × V} (h : l.back = some c) :
    l.values = (l.remove c.1).values ++ [c.2] := by
  rw [values, cells_of_back h, List.map_append]
  rfl

theorem mem_of_back {c : ℕ × V} (h : l.back = some c) : c ∈ l.cells :=
  List.mem_of_getLast? h

/-- A property that passes to the values behind, and that the value in the back does not have, is
one that no value has. -/
theorem forall_not_of_back {Q : V → Prop}
    (hpasses : l.values.Pairwise fun v older => Q v → Q older)
    (hback : ∀ c, l.back = some c → ¬ Q c.2) : ∀ v ∈ l.values, ¬ Q v := by
  intro v hv hq
  cases hlast : l.back with
  | none =>
    rw [values, List.getLast?_eq_none_iff.mp hlast] at hv
    cases hv
  | some c =>
    rw [values_of_back hlast, List.pairwise_append] at hpasses
    rw [values_of_back hlast, List.mem_append, List.mem_singleton] at hv
    rcases hv with hv | rfl
    · exact hback c hlast (hpasses.2.2 v hv c.2 List.mem_cons_self hq)
    · exact hback c hlast hq

/-! ### Maps to the cells -/

section Indexes
variable {K : Type*} [DecidableEq K] {key : V → K} {m : AList fun _ : K => ℕ}

/-- The map has the address of every cell under the key of its value, and no other address. -/
def Indexes (key : V → K) (m : AList fun _ : K => ℕ) (l : LinkedList V) : Prop :=
  ∀ k p, m.lookup k = some p ↔ ∃ v, (p, v) ∈ l.cells ∧ key v = k

theorem indexes_empty (key : V → K) : Indexes key ∅ empty := by
  intro k p
  simp [empty]

namespace Indexes

theorem lookup_eq_none_iff (h : Indexes key m l) {k : K} :
    m.lookup k = none ↔ ∀ v ∈ l.values, key v ≠ k := by
  constructor
  · intro hnone v hv hk
    obtain ⟨p, hp⟩ := mem_values.mp hv
    have hsome := (h k p).mpr ⟨v, hp, hk⟩
    rw [hnone] at hsome
    cases hsome
  · intro hall
    cases hlookup : m.lookup k with
    | none => rfl
    | some p =>
      obtain ⟨v, hv, hk⟩ := (h k p).mp hlookup
      exact absurd hk (hall v (mem_values.mpr ⟨p, hv⟩))

theorem eq_of_key (h : Indexes key m l) {c d : ℕ × V} (hc : c ∈ l.cells) (hd : d ∈ l.cells)
    (hkey : key c.2 = key d.2) : c = d := by
  have hc' := (h (key c.2) c.1).mpr ⟨c.2, hc, rfl⟩
  have hd' := (h (key c.2) d.1).mpr ⟨d.2, hd, hkey.symm⟩
  have haddress : c.1 = d.1 := Option.some.inj (hc'.symm.trans hd')
  exact List.inj_on_of_nodup_map l.addresses hc hd haddress

theorem nodup_keys (h : Indexes key m l) : (l.values.map key).Nodup := by
  rw [values, List.map_map]
  apply List.Nodup.map_on
  · intro c hc d hd hkey
    exact h.eq_of_key hc hd hkey
  · exact List.Nodup.of_map _ l.addresses

theorem pushFront (h : Indexes key m l) (hnew : m.lookup (key v) = none) :
    Indexes key (m.insert (key v) l.next) (l.pushFront v) := by
  intro k p
  by_cases hk : k = key v
  · subst hk
    have hother := h.lookup_eq_none_iff.mp hnew
    rw [AList.lookup_insert]
    constructor
    · intro hp
      obtain rfl := Option.some.inj hp
      exact ⟨v, List.mem_cons_self, rfl⟩
    · rintro ⟨w, hw, hkey⟩
      rcases List.mem_cons.mp hw with heq | hw
      · rw [(Prod.mk.inj heq).1]
      · exact absurd hkey (hother w (mem_values.mpr ⟨p, hw⟩))
  · rw [AList.lookup_insert_ne hk, h]
    refine exists_congr fun w => and_congr_left fun hkey => ?_
    have hne : (p, w) ≠ (l.next, v) := fun heq => hk (by rw [← hkey, (Prod.mk.inj heq).2])
    exact ⟨List.mem_cons_of_mem _, fun hw => (List.mem_cons.mp hw).resolve_left hne⟩

theorem remove (h : Indexes key m l) (hmem : (p, v) ∈ l.cells) :
    Indexes key (m.erase (key v)) (l.remove p) := by
  intro k q
  by_cases hk : k = key v
  · subst hk
    rw [AList.lookup_erase]
    refine iff_of_false (by simp) ?_
    rintro ⟨w, hw, hkey⟩
    obtain ⟨hw, hq⟩ := mem_remove.mp hw
    exact hq (congrArg Prod.fst (h.eq_of_key hw hmem hkey))
  · rw [AList.lookup_erase_ne hk, h]
    refine exists_congr fun w => and_congr_left fun hkey => ?_
    rw [mem_remove]
    refine ⟨fun hw => ⟨hw, fun hq => hk ?_⟩, And.left⟩
    have hq : q = p := hq
    subst hq
    rw [← hkey, eq_of_mem hw hmem]

theorem refresh (h : Indexes key m l) (hmem : (p, v) ∈ l.cells) (hkey : key (f v) = key v) :
    Indexes key m ((l.modify p f).moveToFront p) := by
  intro k q
  rw [h, cells_refresh hmem]
  constructor
  · rintro ⟨w, hw, hk⟩
    by_cases hq : q = p
    · subst hq
      refine ⟨f v, List.mem_cons_self, ?_⟩
      rw [hkey, ← hk, eq_of_mem hw hmem]
    · exact ⟨w, List.mem_cons_of_mem _ (mem_remove.mpr ⟨hw, hq⟩), hk⟩
  · rintro ⟨w, hw, hk⟩
    rcases List.mem_cons.mp hw with heq | hw
    · obtain ⟨rfl, rfl⟩ := Prod.mk.inj heq
      exact ⟨v, hmem, by rw [← hk, hkey]⟩
    · exact ⟨w, (mem_remove.mp hw).1, hk⟩

theorem find?_values (h : Indexes key m l) (k : K) :
    (l.values.find? fun v => key v = k) = (m.lookup k).bind l.value? := by
  cases hlookup : m.lookup k with
  | none =>
    rw [Option.bind_none, List.find?_eq_none]
    intro v hv
    simpa using h.lookup_eq_none_iff.mp hlookup v hv
  | some p =>
    obtain ⟨v, hv, rfl⟩ := (h k p).mp hlookup
    rw [Option.bind_some, value?_eq_some_iff.mpr hv]
    cases hfind : l.values.find? fun w => key w = key v with
    | none => simpa using List.find?_eq_none.mp hfind v (mem_values.mpr ⟨p, hv⟩)
    | some w =>
      have hkey : key w = key v := by simpa using List.find?_some hfind
      obtain ⟨q, hw⟩ := mem_values.mp (List.mem_of_find?_eq_some hfind)
      rw [(Prod.mk.inj (h.eq_of_key hw hv hkey)).2]

theorem eraseP_values (h : Indexes key m l) (hmem : (p, v) ∈ l.cells) :
    (l.values.eraseP fun w => key w = key v) = (l.remove p).values := by
  obtain ⟨front, rear, hcells, hremove, hother⟩ := exists_split hmem
  rw [values, values, hcells, hremove, List.map_append, List.map_append, List.map_cons,
    List.eraseP_append_right, List.eraseP_cons_of_pos (by simp)]
  intro w hw hkey
  obtain ⟨c, hc, rfl⟩ := List.mem_map.mp hw
  have hmem' : c ∈ l.cells := hcells ▸ List.mem_append_left _ hc
  have heq := h.eq_of_key hmem' hmem (by simpa using hkey)
  exact hother c (List.mem_append_left _ hc) (congrArg Prod.fst heq)

end Indexes
end Indexes

/-! ### The most recent in front -/

section Recent
variable {T : Type*} [LE T] {time : V → T}

def Recent (time : V → T) (l : LinkedList V) : Prop :=
  l.values.Pairwise fun a b => time b ≤ time a

theorem recent_empty (time : V → T) : Recent time empty := List.Pairwise.nil

namespace Recent

theorem pushFront (h : Recent time l) (hlast : ∀ w ∈ l.values, time w ≤ time v) :
    Recent time (l.pushFront v) :=
  List.pairwise_cons.mpr ⟨hlast, h⟩

theorem remove (h : Recent time l) (p : ℕ) : Recent time (l.remove p) :=
  h.sublist values_remove_sublist

theorem refresh (h : Recent time l) (hmem : (p, v) ∈ l.cells)
    (hlast : ∀ w ∈ l.values, time w ≤ time (f v)) :
    Recent time ((l.modify p f).moveToFront p) := by
  unfold Recent values
  rw [cells_refresh hmem, List.map_cons, List.pairwise_cons]
  exact ⟨fun w hw => hlast w (values_remove_sublist.subset hw), h.remove p⟩

theorem back_le {T : Type*} [Preorder T] {time : V → T} {c : ℕ × V} (h : Recent time l)
    (hback : l.back = some c) {w : V} (hw : w ∈ l.values) : time c.2 ≤ time w := by
  unfold Recent at h
  rw [values_of_back hback, List.pairwise_append] at h
  rw [values_of_back hback, List.mem_append] at hw
  rcases hw with hw | hw
  · exact h.2.2 w hw c.2 List.mem_cons_self
  · rw [List.mem_singleton.mp hw]

end Recent
end Recent

/-! ### Loops from the back -/

section PopWhile
variable {τ : Type*} {lru : τ → LinkedList V} {drop : τ → ℕ × V → τ} {cond : τ → V → Bool}
  {P : τ → Prop} {t : τ}

/-- As long as the condition holds for the value in the back of the list of a state, its cell is
dropped. The values are in the order in which they went. -/
def popWhile (lru : τ → LinkedList V) (drop : τ → ℕ × V → τ) (cond : τ → V → Bool) :
    ℕ → τ → List V × τ
  | 0, t => ([], t)
  | turns + 1, t =>
      match (lru t).back with
      | none => ([], t)
      | some c =>
          if cond t c.2 then
            let next := popWhile lru drop cond turns (drop t c)
            (c.2 :: next.1, next.2)
          else ([], t)

/-- In the states with the invariant, a dropped cell is removed from the list. -/
structure Pops (lru : τ → LinkedList V) (drop : τ → ℕ × V → τ) (P : τ → Prop) : Prop where
  keeps : ∀ t c, P t → (lru t).back = some c → P (drop t c)
  removes : ∀ t c, P t → (lru t).back = some c → lru (drop t c) = (lru t).remove c.1

namespace Pops

/-- A property of the way from a state to what the loop makes of it, by its turns. -/
theorem rule (h : Pops lru drop P) (cond : τ → V → Bool) {R : τ → List V × τ → Prop}
    (hstop : ∀ t, P t → R t ([], t))
    (hturn : ∀ t c next, P t → (lru t).back = some c → cond t c.2 = true → P (drop t c) →
      R (drop t c) next → R t (c.2 :: next.1, next.2))
    (turns : ℕ) (ht : P t) : R t (popWhile lru drop cond turns t) := by
  induction turns generalizing t with
  | zero => exact hstop t ht
  | succ turns ih =>
    unfold popWhile
    split
    · exact hstop t ht
    · next c hc =>
      have hdrop := h.keeps t c ht hc
      split_ifs with hcond
      · exact hturn t c _ ht hc hcond hdrop (ih hdrop)
      · exact hstop t ht

theorem popWhile_keeps (h : Pops lru drop P) (cond : τ → V → Bool) (turns : ℕ) (ht : P t) :
    P (popWhile lru drop cond turns t).2 :=
  h.rule cond (R := fun _ next => P next.2) (fun _ ht => ht) (fun _ _ _ _ _ _ _ hnext => hnext)
    turns ht

theorem popWhile_values (h : Pops lru drop P) (cond : τ → V → Bool) (turns : ℕ) (ht : P t) :
    (lru t).values = (lru (popWhile lru drop cond turns t).2).values ++
      (popWhile lru drop cond turns t).1.reverse := by
  apply h.rule cond (R := fun t next => (lru t).values = (lru next.2).values ++ next.1.reverse) _ _
    turns ht
  · intro t _
    simp
  · intro t c next ht hc _ _ hnext
    rw [values_of_back hc, ← h.removes t c ht hc, hnext, List.reverse_cons, List.append_assoc]

theorem popWhile_gone (h : Pops lru drop P) {Q : V → Prop}
    (hQ : ∀ t v, P t → cond t v = true → Q v) (turns : ℕ) (ht : P t) :
    ∀ v ∈ (popWhile lru drop cond turns t).1, Q v := by
  apply h.rule cond (R := fun _ next => ∀ v ∈ next.1, Q v) _ _ turns ht
  · intro t _ v hv
    cases hv
  · intro t c next ht _ hcond _ hnext
    exact List.forall_mem_cons.mpr ⟨hQ t c.2 ht hcond, hnext⟩

/-- A condition on the length leaves the list as long as the limit. -/
theorem popWhile_over (h : Pops lru drop P) {limit : ℕ}
    (hlimit : ∀ t v, P t → cond t v = true → limit < (lru t).len) (turns : ℕ) (ht : P t) :
    (popWhile lru drop cond turns t).1 = [] ∨
      limit ≤ (lru (popWhile lru drop cond turns t).2).len := by
  have hrule := h.rule cond
    (R := fun t next => next.1 = [] ∧ next.2 = t ∨ limit ≤ (lru next.2).len)
    (fun t _ => .inl ⟨rfl, rfl⟩) ?_ turns ht
  · exact hrule.imp_left And.left
  · rintro t c next ht hc hcond - (⟨-, hlast⟩ | hle)
    · right
      have hlen := hlimit t c.2 ht hcond
      rw [len, cells_of_back hc, List.length_append, List.length_singleton] at hlen
      rw [hlast, h.removes t c ht hc]
      exact Nat.le_of_lt_succ hlen
    · exact .inr hle

/-- With a turn for each cell, the loop ends at its condition. -/
theorem popWhile_stops (h : Pops lru drop P) {turns : ℕ} (hturns : (lru t).len ≤ turns) (ht : P t)
    {c : ℕ × V} (hback : (lru (popWhile lru drop cond turns t).2).back = some c) :
    cond (popWhile lru drop cond turns t).2 c.2 = false := by
  induction turns generalizing t with
  | zero =>
    have hempty : (lru t).cells = [] := List.length_eq_zero_iff.mp (Nat.le_zero.mp hturns)
    have hnone : (lru t).back = none := by
      rw [LinkedList.back, hempty]
      rfl
    rw [popWhile, hnone] at hback
    cases hback
  | succ turns ih =>
    unfold popWhile at hback ⊢
    split at hback
    · next hnone =>
      rw [hnone] at hback
      cases hback
    · next last hlast =>
      split_ifs at hback ⊢ with hcond
      · apply ih _ (h.keeps t last ht hlast) hback
        rw [len, cells_of_back hlast, List.length_append, List.length_singleton] at hturns
        rw [h.removes t last ht hlast]
        exact Nat.le_of_succ_le_succ hturns
      · rw [hlast] at hback
        rw [← Option.some.inj hback]
        exact eq_false_of_ne_true hcond

end Pops
end PopWhile
end LinkedList
