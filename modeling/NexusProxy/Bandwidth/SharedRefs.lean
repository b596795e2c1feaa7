import NexusProxy.Bandwidth.ActiveCount

/-! Reference counts of shared bandwidth ids: what a step of `RegisterShared`, `UnregisterShared`
or `RequestSend` does to the count of its id, to the entry under it and to the lock. -/
namespace NexusProxy.Bandwidth.ActiveCount

variable {Id : Type*}

namespace Op

/-- A reference is asked for and not counted yet. -/
def owing : Op Id → ℕ
  | .lockRetain _ | .retain _ => 1
  | _ => 0

/-- A reference is counted, and the entry may have to be stored. -/
def storing : Op Id → Bool
  | .unlockRetain _ _ | .loadShared _ | .loadOrStore _ => true
  | _ => false

/-- `RegisterShared` has not returned. -/
def registering : Op Id → Bool
  | .lockRetain _ | .retain _ => true
  | op => op.storing

/-- A reference is given up and still counted. -/
def releasing : Op Id → ℕ
  | .lockRelease _ | .release _ => 1
  | _ => 0

/-- The last reference is gone, and the entry is to be deleted. -/
def deleting : Op Id → Bool
  | .unregister _ true | .delete _ true => true
  | .deactivate _ (.deletes _ true) | .discount (.deletes _ true) => true
  | _ => false

/-- The goroutine holds `sharedMu`. -/
def critical : Op Id → ℕ
  | .retain _ | .unlockRetain _ _ | .release _ | .unlock => 1
  | op => op.deleting.toNat

def kind (op : Op Id) : ℕ × ℕ × ℕ × Bool × Bool × Bool :=
  (op.owing, op.releasing, op.critical, op.registering, op.storing, op.deleting)

theorem owing_add_storing (op : Op Id) :
    op.owing + op.storing.toNat = op.registering.toNat := by
  cases op <;> rfl

theorem critical_of_deleting {op : Op Id} (h : op.deleting = true) : op.critical = 1 := by
  cases op <;> first | rfl | exact congrArg Bool.toNat h

/-- A step of one of the three calls, for the id `b`. -/
def About (b : Id) : Op Id → Prop
  | .load _ | .test _ _ | .activate _ _ | .count _ _ | .recheck _ _ | .unlock | .done => True
  | .deactivate _ after | .discount after => after = .returns ∨ after = .deletes b true
  | .unregister id locked | .delete id locked => id = b ∧ locked = true
  | .lockRelease id | .release id | .lockRetain id | .retain id | .unlockRetain id _
  | .loadShared id | .loadOrStore id => id = b
  | .range | .idle _ => False

end Op

variable [DecidableEq Id]

namespace Scheduler

/-- The references that are counted for an id. -/
def refs (s : Scheduler Id) (id : Id) : ℤ := (s.refCounts.lookup id).getD 0

/-- The id has references, and no entry. -/
def Unstored (s : Scheduler Id) (id : Id) : Prop :=
  s.registry.load id = none ∧ s.refCounts.lookup id ≠ none

/-- The id has an entry, and no references. -/
def Undeleted (s : Scheduler Id) (id : Id) : Prop :=
  s.registry.load id ≠ none ∧ s.refCounts.lookup id = none

end Scheduler

/-- What a step for the id `b` does, when the count of `b` is positive wherever the call relies on
it. -/
structure SharedStep (b : Id) (s : Scheduler Id) (op : Op Id) (t : Scheduler Id) (op' : Op Id) :
    Prop where
  about : op'.About b
  /-- References move between the count and the calls. -/
  refs : t.refs b + op'.owing + op.releasing = s.refs b + op.owing + op'.releasing
  positive : ∀ c, t.refCounts.lookup b = some c → 0 < c
  lookup_of_ne : ∀ id, id ≠ b → t.refCounts.lookup id = s.refCounts.lookup id
  load_of_ne : ∀ id, id ≠ b → t.registry.load id = s.registry.load id
  lock : op'.critical + s.sharedMu.toNat = op.critical + t.sharedMu.toNat
  lookup_of_free : op.critical = 0 → t.refCounts.lookup b = s.refCounts.lookup b
  registering : op'.registering = true → op.registering = true
  deleting : op'.deleting = true → t.refCounts.lookup b = none
  unstored : t.Unstored b → op'.storing = true ∨ op.storing = false ∧ s.Unstored b
  undeleted : t.Undeleted b → op'.deleting = true ∨ op.deleting = false ∧ s.Undeleted b

variable {b : Id} {s t : Scheduler Id} {op op' : Op Id}

theorem Registry.load_compareAndSwap {r u : Registry Id} {bw : ℕ} {old new : Bool}
    (h : r.compareAndSwap bw old new = some u) (id : Id) : u.load id = r.load id := by
  obtain ⟨-, -, -, hbackends, -⟩ := Registry.compareAndSwap_eq_some h
  rw [load, load, hbackends]

/-- What a call relies on before a step. -/
structure Relies (b : Id) (s : Scheduler Id) (op : Op Id) : Prop where
  about : op.About b
  positive : ∀ c, s.refCounts.lookup b = some c → 0 < c
  locked : op.critical = 1 → s.sharedMu = true
  counted : op.releasing = 1 ∨ op.storing = true → s.refCounts.lookup b ≠ none
  gone : op.deleting = true → s.refCounts.lookup b = none

theorem Relies.same (h : Relies b s op) (habout : op'.About b) (hkind : op'.kind = op.kind)
    (hrefs : t.refCounts = s.refCounts) (hmu : t.sharedMu = s.sharedMu)
    (hload : ∀ id, t.registry.load id = s.registry.load id) : SharedStep b s op t op' := by
  simp only [Op.kind, Prod.mk.injEq] at hkind
  obtain ⟨howing, hreleasing, hcritical, hregistering, hstoring, hdeleting⟩ := hkind
  refine ⟨habout, ?_, hrefs ▸ h.positive, fun id _ => by rw [hrefs], fun id _ => hload id, ?_,
    fun _ => by rw [hrefs], fun hr => hregistering ▸ hr, fun hd => ?_, ?_, ?_⟩
  · rw [Scheduler.refs, Scheduler.refs, hrefs, howing, hreleasing]
  · rw [hmu, hcritical]
  · rw [hrefs]
    exact h.gone (hdeleting ▸ hd)
  · rintro ⟨hnone, hlookup⟩
    rw [hload] at hnone
    rw [hrefs] at hlookup
    rw [hstoring]
    by_cases hs : op.storing = true
    · exact .inl hs
    · exact .inr ⟨Bool.eq_false_iff.mpr hs, hnone, hlookup⟩
  · rintro ⟨hsome, hlookup⟩
    rw [hload] at hsome
    rw [hrefs] at hlookup
    rw [hdeleting]
    by_cases hs : op.deleting = true
    · exact .inl hs
    · exact .inr ⟨Bool.eq_false_iff.mpr hs, hsome, hlookup⟩

theorem Relies.moves (h : Relies b s op) (habout : op'.About b)
    (hrefs : t.refCounts = s.refCounts) (hload : ∀ id, t.registry.load id = s.registry.load id)
    (hmoves : op'.owing + op.releasing = op.owing + op'.releasing)
    (hlock : op'.critical + s.sharedMu.toNat = op.critical + t.sharedMu.toNat)
    (hregistering : op'.registering = true → op.registering = true)
    (hdeleting : op'.deleting = false)
    (hstoring : op.storing = true → op'.storing = true ∨ s.registry.load b ≠ none)
    (hdeleted : op.deleting = true → s.registry.load b = none) : SharedStep b s op t op' where
  about := habout
  refs := by
    rw [Scheduler.refs, Scheduler.refs, hrefs]
    omega
  positive := hrefs ▸ h.positive
  lookup_of_ne := fun id _ => by rw [hrefs]
  load_of_ne := fun id _ => hload id
  lock := hlock
  lookup_of_free := fun _ => by rw [hrefs]
  registering := hregistering
  deleting := fun hd => by
    rw [hdeleting] at hd
    cases hd
  unstored := by
    rintro ⟨hnone, hlookup⟩
    rw [hload] at hnone
    rw [hrefs] at hlookup
    by_cases hs : op.storing = true
    · exact .inl ((hstoring hs).resolve_right (not_not.mpr hnone))
    · exact .inr ⟨Bool.eq_false_iff.mpr hs, hnone, hlookup⟩
  undeleted := by
    rintro ⟨hsome, hlookup⟩
    rw [hload] at hsome
    rw [hrefs] at hlookup
    refine .inr ⟨Bool.eq_false_iff.mpr fun hd => hsome (hdeleted hd), hsome, hlookup⟩

theorem SharedStep.counts (habout : op'.About b)
    (hregistry : t.registry = s.registry) (hmu : t.sharedMu = s.sharedMu)
    (hrefs : t.refs b + op'.owing + op.releasing = s.refs b + op.owing + op'.releasing)
    (hpositive : ∀ c, t.refCounts.lookup b = some c → 0 < c)
    (hlookup : ∀ id, id ≠ b → t.refCounts.lookup id = s.refCounts.lookup id)
    (hcritical : op.critical = 1) (hcritical' : op'.critical = 1)
    (hregistering : op'.registering = true → op.registering = true)
    (hdeleting : op'.deleting = true → t.refCounts.lookup b = none)
    (hunstored : t.Unstored b → op'.storing = true ∨ op.storing = false ∧ s.Unstored b)
    (hundeleted : t.Undeleted b → op'.deleting = true) : SharedStep b s op t op' where
  about := habout
  refs := hrefs
  positive := hpositive
  lookup_of_ne := hlookup
  load_of_ne := fun id _ => by rw [hregistry]
  lock := by rw [hmu, hcritical, hcritical']
  lookup_of_free := fun hfree => by
    rw [hcritical] at hfree
    cases hfree
  registering := hregistering
  deleting := hdeleting
  unstored := hunstored
  undeleted := fun hu => .inl (hundeleted hu)

theorem Relies.unlocks (h : Relies b s op) (hcritical : op.critical = 1) :
    0 + s.sharedMu.toNat = op.critical + false.toNat := by
  rw [h.locked hcritical, hcritical]
  rfl

theorem Relies.refs_nonneg (h : Relies b s op) : 0 ≤ s.refs b := by
  unfold Scheduler.refs
  cases hlookup : s.refCounts.lookup b with
  | none => exact le_rfl
  | some c => exact (h.positive c hlookup).le

theorem Relies.deletes (h : Relies b s (.delete b true))
    (ht : t = { s with registry := s.registry.delete b }) (hop : op' = .unlock) :
    SharedStep b s (.delete b true) t op' := by
  subst ht hop
  have hgone := h.gone rfl
  exact {
    about := trivial
    refs := rfl
    positive := h.positive
    lookup_of_ne := fun _ _ => rfl
    load_of_ne := fun id hid => AList.lookup_erase_ne hid
    lock := rfl
    lookup_of_free := fun _ => rfl
    registering := fun hr => by cases hr
    deleting := fun hd => by cases hd
    unstored := fun hu => absurd hgone hu.2
    undeleted := fun hu => absurd (AList.lookup_erase b _) hu.1 }

theorem Relies.stores (h : Relies b s (.loadOrStore b))
    (ht : t = { s with registry := s.registry.store b }) (hop : op' = .done) :
    SharedStep b s (.loadOrStore b) t op' := by
  subst ht hop
  have hstored : (s.registry.store b).load b ≠ none := by
    rw [Registry.load, Registry.store, AList.lookup_insert]
    exact Option.some_ne_none _
  exact {
    about := trivial
    refs := rfl
    positive := h.positive
    lookup_of_ne := fun _ _ => rfl
    load_of_ne := fun id hid => AList.lookup_insert_ne hid
    lock := rfl
    lookup_of_free := fun _ => rfl
    registering := fun hr => by cases hr
    deleting := fun hd => by cases hd
    unstored := fun hu => absurd hu.1 hstored
    undeleted := fun hu => absurd hu.2 (h.counted (.inr rfl)) }

theorem Relies.releases (h : Relies b s (.release b))
    (hadvance : s.advance none false (.release b) = some (t, op')) :
    SharedStep b s (.release b) t op' := by
  rw [Scheduler.advance] at hadvance
  split at hadvance
  · next hnone => exact absurd hnone (h.counted (.inl rfl))
  · next count hcount =>
    have hpositive := h.positive count hcount
    have hrefs : s.refs b = count := by rw [Scheduler.refs, hcount, Option.getD_some]
    split_ifs at hadvance with hlast <;> cases hadvance
    · have hgone : (s.refCounts.erase b).lookup b = none := AList.lookup_erase _ _
      refine .counts ⟨rfl, rfl⟩ rfl rfl ?_ (fun c hc => ?_)
        (fun id' hid => AList.lookup_erase_ne hid) rfl rfl (fun hr => by cases hr)
        (fun _ => hgone) (fun hu => absurd hgone hu.2) fun _ => rfl
      · rw [hrefs, Scheduler.refs, hgone]
        simp only [Op.owing, Op.releasing, Option.getD_none]
        omega
      · rw [hgone] at hc
        cases hc
    · have hleft : (s.refCounts.insert b (count - 1)).lookup b = some (count - 1) :=
        AList.lookup_insert _
      refine .counts trivial rfl rfl ?_ (fun c hc => ?_)
        (fun id' hid => AList.lookup_insert_ne hid) rfl rfl (fun hr => by cases hr)
        (fun hd => by cases hd) (fun hu => .inr ⟨rfl, hu.1, h.counted (.inl rfl)⟩) fun hu => ?_
      · rw [hrefs, Scheduler.refs, hleft]
        simp only [Op.owing, Op.releasing, Option.getD_some]
        omega
      · rw [hleft] at hc
        obtain rfl := Option.some.inj hc
        omega
      · rw [Scheduler.Undeleted, hleft] at hu
        cases hu.2

theorem Relies.retains (h : Relies b s (.retain b))
    (hadvance : s.advance none false (.retain b) = some (t, op')) :
    SharedStep b s (.retain b) t op' := by
  cases hadvance
  have hcount : (s.refCounts.insert b (s.refs b + 1)).lookup b = some (s.refs b + 1) :=
    AList.lookup_insert _
  refine .counts rfl rfl rfl ?_ (fun c hc => ?_)
    (fun id' hid => AList.lookup_insert_ne hid) rfl rfl (fun _ => rfl)
    (fun hd => by cases hd) (fun _ => .inl rfl) fun hu => ?_
  · show ((s.refCounts.insert b (s.refs b + 1)).lookup b).getD 0 + _ + _ = _
    rw [hcount]
    simp only [Op.owing, Op.releasing, Option.getD_some]
    omega
  · obtain rfl := Option.some.inj (hcount.symm.trans hc)
    have := h.refs_nonneg
    omega
  · cases hcount.symm.trans hu.2

theorem advance_shared (h : Relies b s op)
    (hadvance : s.advance none false op = some (t, op')) : SharedStep b s op t op' := by
  have habout := h.about
  cases op with
  | load id =>
    rw [Scheduler.advance] at hadvance
    split at hadvance <;> cases hadvance <;> exact h.same trivial rfl rfl rfl fun _ => rfl
  | test id bw =>
    cases hadvance
    split_ifs <;> exact h.same trivial rfl rfl rfl fun _ => rfl
  | activate id bw =>
    rw [Scheduler.advance] at hadvance
    split at hadvance <;> cases hadvance
    · next hswap => exact h.same trivial rfl rfl rfl (Registry.load_compareAndSwap hswap)
    · exact h.same trivial rfl rfl rfl fun _ => rfl
  | count id bw =>
    cases hadvance
    exact h.same trivial rfl rfl rfl fun _ => rfl
  | recheck id bw =>
    rw [Scheduler.advance] at hadvance
    split at hadvance <;> cases hadvance
    · exact h.same trivial rfl rfl rfl fun _ => rfl
    · exact h.same (.inl rfl) rfl rfl rfl fun _ => rfl
  | deactivate bw after =>
    rw [Scheduler.advance] at hadvance
    rcases habout with rfl | rfl
    · split at hadvance <;> cases hadvance
      · next hswap => exact h.same (.inl rfl) rfl rfl rfl (Registry.load_compareAndSwap hswap)
      · exact h.same trivial rfl rfl rfl fun _ => rfl
    · split at hadvance <;> cases hadvance
      · next hswap => exact h.same (.inr rfl) rfl rfl rfl (Registry.load_compareAndSwap hswap)
      · exact h.same ⟨rfl, rfl⟩ rfl rfl rfl fun _ => rfl
  | discount after =>
    cases hadvance
    rcases habout with rfl | rfl
    · exact h.same trivial rfl rfl rfl fun _ => rfl
    · exact h.same ⟨rfl, rfl⟩ rfl rfl rfl fun _ => rfl
  | unregister id locked =>
    obtain ⟨rfl, rfl⟩ := habout
    rw [Scheduler.advance] at hadvance
    split at hadvance <;> cases hadvance
    · exact h.same (.inr rfl) rfl rfl rfl fun _ => rfl
    · next hload =>
      exact h.moves trivial rfl (fun _ => rfl) rfl rfl (fun hr => by cases hr) rfl
        (fun hs => by cases hs) fun _ => hload
  | delete id locked =>
    obtain ⟨rfl, rfl⟩ := habout
    cases hadvance
    exact h.deletes rfl rfl
  | unlock =>
    cases hadvance
    exact h.moves trivial rfl (fun _ => rfl) rfl (h.unlocks rfl) (fun hr => by cases hr) rfl
      (fun hs => by cases hs) fun hd => by cases hd
  | lockRelease id =>
    rw [Scheduler.advance] at hadvance
    split_ifs at hadvance with hmu
    cases hadvance
    have hfree : s.sharedMu = false := Bool.eq_false_iff.mpr hmu
    exact h.moves habout rfl (fun _ => rfl) rfl (by rw [hfree]; rfl) (fun hr => by cases hr) rfl
      (fun hs => by cases hs) fun hd => by cases hd
  | release id =>
    obtain rfl : id = b := habout
    exact h.releases hadvance
  | lockRetain id =>
    rw [Scheduler.advance] at hadvance
    split_ifs at hadvance with hmu
    cases hadvance
    have hfree : s.sharedMu = false := Bool.eq_false_iff.mpr hmu
    exact h.moves habout rfl (fun _ => rfl) rfl (by rw [hfree]; rfl) (fun _ => rfl) rfl
      (fun hs => by cases hs) fun hd => by cases hd
  | retain id =>
    obtain rfl : id = b := habout
    exact h.retains hadvance
  | unlockRetain id isNew =>
    cases hadvance
    cases isNew
    · exact h.moves habout rfl (fun _ => rfl) rfl (h.unlocks rfl) (fun _ => rfl) rfl
        (fun _ => .inl rfl) fun hd => by cases hd
    · exact h.moves habout rfl (fun _ => rfl) rfl (h.unlocks rfl) (fun _ => rfl) rfl
        (fun _ => .inl rfl) fun hd => by cases hd
  | loadShared id =>
    obtain rfl : id = b := habout
    rw [Scheduler.advance] at hadvance
    split at hadvance <;> cases hadvance
    · next hload =>
      exact h.moves trivial rfl (fun _ => rfl) rfl rfl (fun hr => by cases hr) rfl
        (fun _ => .inr (by rw [hload]; simp)) fun hd => by cases hd
    · exact h.same rfl rfl rfl rfl fun _ => rfl
  | loadOrStore id =>
    obtain rfl : id = b := habout
    rw [Scheduler.advance] at hadvance
    split at hadvance <;> cases hadvance
    · next hload =>
      exact h.moves trivial rfl (fun _ => rfl) rfl rfl (fun hr => by cases hr) rfl
        (fun _ => .inr (by rw [hload]; simp)) fun hd => by cases hd
    · exact h.stores rfl rfl
  | range => exact habout.elim
  | idle bw => exact habout.elim
  | done => cases hadvance

end NexusProxy.Bandwidth.ActiveCount
