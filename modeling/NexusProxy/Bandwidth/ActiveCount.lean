import NexusProxy.Bandwidth.Refill
import NexusProxy.Lib.Collections
import NexusProxy.Lib.Transition

/-! The active count of the bandwidth scheduler. The map of registered backends, the flags of
their entries and the counter are separate objects, and the operations of any number of goroutines
change them one at a time. -/
namespace NexusProxy.Bandwidth.ActiveCount
open Transition Collections

variable {Id : Type*}

/-- `backendID` is history, the id under which the entry was stored. -/
structure BackendBandwidth (Id : Type*) where
  backendID : Id
  isActive : Bool

variable [DecidableEq Id]

/-- The map, and all entries ever made; a pointer is the index of an entry. -/
structure Registry (Id : Type*) [DecidableEq Id] where
  backends : AList fun _ : Id => ℕ
  entries : List (BackendBandwidth Id)
  stored : ∀ id bw, backends.lookup id = some bw →
    (entries[bw]?).map BackendBandwidth.backendID = some id

namespace Registry

def empty : Registry Id := ⟨∅, [], fun _ _ h => by simp at h⟩

def load (r : Registry Id) (id : Id) : Option ℕ := r.backends.lookup id

def isActive (r : Registry Id) (bw : ℕ) : Bool := (r.entries[bw]?).any BackendBandwidth.isActive

/-- A new entry is stored; its flag is not set. -/
def store (r : Registry Id) (id : Id) : Registry Id where
  backends := r.backends.insert id r.entries.length
  entries := r.entries ++ [⟨id, false⟩]
  stored := by
    intro id' bw h
    by_cases hid : id' = id
    · subst hid
      rw [AList.lookup_insert, Option.some.injEq] at h
      simp [← h]
    · rw [AList.lookup_insert_ne hid] at h
      have hentry := r.stored id' bw h
      obtain ⟨e, he, -⟩ := Option.map_eq_some_iff.mp hentry
      rwa [List.getElem?_append_left (List.getElem?_eq_some_iff.mp he).1]

def delete (r : Registry Id) (id : Id) : Registry Id where
  backends := r.backends.erase id
  entries := r.entries
  stored := by
    intro id' bw h
    by_cases hid : id' = id
    · rw [hid, AList.lookup_erase] at h
      cases h
    · rw [AList.lookup_erase_ne hid] at h
      exact r.stored id' bw h

def setActive (r : Registry Id) (bw : ℕ) (active : Bool) : Registry Id where
  backends := r.backends
  entries := r.entries.modify bw fun e => { e with isActive := active }
  stored := by
    intro id bw' h
    obtain ⟨e, he, hid⟩ := Option.map_eq_some_iff.mp (r.stored id bw' h)
    rw [List.getElem?_modify, he]
    by_cases hbw : bw = bw' <;> simp [hbw, hid]

/-- `CompareAndSwap` on the flag of an entry; nothing when it fails. -/
def compareAndSwap (r : Registry Id) (bw : ℕ) (old new : Bool) : Option (Registry Id) :=
  if (r.entries[bw]?).any (fun e => e.isActive == old) then some (r.setActive bw new) else none

/-- The entries whose flag is set, registered or not. -/
def active (r : Registry Id) : ℕ := r.entries.countP BackendBandwidth.isActive

/-- The registered entries whose flag is set. -/
def registeredActive (r : Registry Id) : ℕ := countValues r.isActive r.backends

def Registered (r : Registry Id) (bw : ℕ) : Prop := ∃ id, r.load id = some bw

variable {r t : Registry Id} {id : Id} {bw : ℕ}

theorem injective (r : Registry Id) : Injective r.backends := by
  intro id id' bw h h'
  have hstored := r.stored id bw h
  rw [r.stored id' bw h'] at hstored
  exact (Option.some.inj hstored).symm

theorem registeredActive_le_active (r : Registry Id) : r.registeredActive ≤ r.active :=
  countValues_getElem?_le r.injective r.entries BackendBandwidth.isActive

theorem registeredActive_eq_active (h : ∀ bw, r.isActive bw = true → r.Registered bw) :
    r.registeredActive = r.active :=
  countValues_getElem?_eq r.injective h

@[simp] theorem active_store (r : Registry Id) (id : Id) : (r.store id).active = r.active := by
  simp [active, store]

@[simp] theorem active_delete (r : Registry Id) (id : Id) : (r.delete id).active = r.active := rfl

@[simp] theorem isActive_delete (r : Registry Id) (id : Id) (bw : ℕ) :
    (r.delete id).isActive bw = r.isActive bw := rfl

@[simp] theorem isActive_store (r : Registry Id) (id : Id) (bw : ℕ) :
    (r.store id).isActive bw = r.isActive bw := by
  by_cases hbw : bw < r.entries.length
  · simp [isActive, store, List.getElem?_append_left hbw]
  · rw [isActive, isActive, store, List.getElem?_append_right (not_lt.mp hbw),
      List.getElem?_singleton, List.getElem?_eq_none (not_lt.mp hbw)]
    split_ifs <;> rfl

theorem Registered.store (h : r.Registered bw) (hid : r.load id = none) :
    (r.store id).Registered bw := by
  obtain ⟨id', hid'⟩ := h
  have hne : id' ≠ id := by
    rintro rfl
    rw [hid] at hid'
    cases hid'
  exact ⟨id', (AList.lookup_insert_ne hne).trans hid'⟩

theorem Registered.delete (h : r.Registered bw) (hid : r.load id ≠ some bw) :
    (r.delete id).Registered bw := by
  obtain ⟨id', hid'⟩ := h
  have hne : id' ≠ id := by
    rintro rfl
    exact hid hid'
  exact ⟨id', (AList.lookup_erase_ne hne).trans hid'⟩

theorem load_eq_none_of_forall (h : ∀ e ∈ r.entries, e.backendID ≠ id) : r.load id = none := by
  cases hload : r.load id with
  | none => rfl
  | some bw =>
    obtain ⟨e, he, hid⟩ := Option.map_eq_some_iff.mp (r.stored id bw hload)
    exact absurd hid (h e (List.mem_of_getElem? he))

theorem compareAndSwap_eq_some {old new : Bool} (h : r.compareAndSwap bw old new = some t) :
    ∃ e, r.entries[bw]? = some e ∧ e.isActive = old ∧ t.backends = r.backends ∧
      t.entries = r.entries.set bw { e with isActive := new } := by
  simp only [compareAndSwap, Option.ite_none_right_eq_some, Option.some.injEq] at h
  obtain ⟨hold, rfl⟩ := h
  obtain ⟨e, he, hactive⟩ := (Option.any_eq_true _ _).mp hold
  refine ⟨e, he, by simpa using hactive, rfl, ?_⟩
  show r.entries.modify bw _ = _
  rw [List.modify_eq_set_getElem?, he]
  rfl

theorem isActive_of_compareAndSwap_eq_none (h : r.compareAndSwap bw true false = none) :
    r.isActive bw = false := by
  simpa [compareAndSwap, isActive] using h

theorem isActive_compareAndSwap {old new : Bool} (h : r.compareAndSwap bw old new = some t)
    (bw' : ℕ) : t.isActive bw' = if bw' = bw then new else r.isActive bw' := by
  obtain ⟨e, he, -, -, hentries⟩ := compareAndSwap_eq_some h
  have hlt : bw < r.entries.length := (List.getElem?_eq_some_iff.mp he).1
  rw [isActive, hentries]
  split_ifs with hbw
  · rw [hbw, List.getElem?_set_self hlt]
    rfl
  · rw [List.getElem?_set_ne (Ne.symm hbw), isActive]

theorem active_compareAndSwap {old new : Bool} (h : r.compareAndSwap bw old new = some t) :
    t.active + old.toNat = r.active + new.toNat := by
  obtain ⟨e, he, rfl, -, hentries⟩ := compareAndSwap_eq_some h
  rw [active, active, hentries]
  exact countP_set_add he _

theorem Registered.compareAndSwap {old new : Bool} {bw' : ℕ} (hr : r.Registered bw')
    (h : r.compareAndSwap bw old new = some t) : t.Registered bw' := by
  obtain ⟨-, -, -, hbackends, -⟩ := compareAndSwap_eq_some h
  obtain ⟨id, hid⟩ := hr
  exact ⟨id, by rw [load, hbackends]; exact hid⟩

end Registry

/-- What follows `if bw.isActive.CompareAndSwap(true, false) { s.activeCount.Add(-1) }` in
`RequestSend`, in the two ways to unregister and in `checkIdleBackends`. -/
inductive After (Id : Type*) where
  | returns
  | deletes (id : Id) (locked : Bool)
  | ranges

/-- Where a goroutine stands in its operation: what it does next. -/
inductive Op (Id : Type*) where
  | load (id : Id)
  | test (id : Id) (bw : ℕ)
  | activate (id : Id) (bw : ℕ)
  | count (id : Id) (bw : ℕ)
  | recheck (id : Id) (bw : ℕ)
  | deactivate (bw : ℕ) (after : After Id)
  | discount (after : After Id)
  | unregister (id : Id) (locked : Bool)
  | delete (id : Id) (locked : Bool)
  | unlock
  | lockRelease (id : Id)
  | release (id : Id)
  | lockRetain (id : Id)
  | retain (id : Id)
  | unlockRetain (id : Id) (isNew : Bool)
  | loadShared (id : Id)
  | loadOrStore (id : Id)
  | range
  | idle (bw : ℕ)
  | done

def After.op : After Id → Op Id
  | .returns => .done
  | .deletes id locked => .delete id locked
  | .ranges => .range

structure Scheduler (Id : Type*) [DecidableEq Id] where
  totalBytesPerSecond : ℤ
  registry : Registry Id
  activeCount : ℤ
  sharedMu : Bool
  refCounts : AList fun _ : Id => ℤ

def newScheduler (totalMbps : ℤ) : Scheduler Id where
  totalBytesPerSecond := Bandwidth.totalBytesPerSecond totalMbps
  registry := .empty
  activeCount := 0
  sharedMu := false
  refCounts := ∅

inductive Call (Id : Type*) where
  | requestSend (id : Id)
  | unregister (id : Id)
  | registerShared (id : Id)
  | unregisterShared (id : Id)
  | checkIdleBackends

namespace Scheduler

def start (s : Scheduler Id) : Call Id → Op Id
  | .requestSend id => if s.totalBytesPerSecond = 0 then .done else .load id
  | .unregister id => .unregister id false
  | .registerShared id => .lockRetain id
  | .unregisterShared id => .lockRelease id
  | .checkIdleBackends => .range

/-- One atomic step of an operation. `visit` is the key that `Range` comes to next, if any, and
`overdue` says whether `lastActive` is before the threshold. -/
def advance (s : Scheduler Id) (visit : Option Id) (overdue : Bool) :
    Op Id → Option (Scheduler Id × Op Id)
  -- `RequestSend`; an undo returns like a send that was admitted
  | .load id =>
      match s.registry.load id with
      | some bw => some (s, .test id bw)
      | none => some (s, .done)
  | .test id bw => some (s, if s.registry.isActive bw then .done else .activate id bw)
  | .activate id bw =>
      match s.registry.compareAndSwap bw false true with
      | some r => some ({ s with registry := r }, .count id bw)
      | none => some (s, .done)
  | .count id bw => some ({ s with activeCount := s.activeCount + 1 }, .recheck id bw)
  | .recheck id bw =>
      match s.registry.load id with
      | some _ => some (s, .done)
      | none => some (s, .deactivate bw .returns)
  | .deactivate bw after =>
      match s.registry.compareAndSwap bw true false with
      | some r => some ({ s with registry := r }, .discount after)
      | none => some (s, after.op)
  | .discount after => some ({ s with activeCount := s.activeCount - 1 }, after.op)
  -- `Unregister`, and `UnregisterShared` once the count is gone
  | .unregister id locked =>
      match s.registry.load id with
      | some bw => some (s, .deactivate bw (.deletes id locked))
      | none => some (s, if locked then .unlock else .done)
  | .delete id locked =>
      some ({ s with registry := s.registry.delete id }, if locked then .unlock else .done)
  | .unlock => some ({ s with sharedMu := false }, .done)
  | .lockRelease id => if s.sharedMu then none else some ({ s with sharedMu := true }, .release id)
  | .release id =>
      match s.refCounts.lookup id with
      | none => some (s, .unlock)
      | some count =>
          if count - 1 ≤ 0 then
            some ({ s with refCounts := s.refCounts.erase id }, .unregister id true)
          else some ({ s with refCounts := s.refCounts.insert id (count - 1) }, .unlock)
  | .lockRetain id => if s.sharedMu then none else some ({ s with sharedMu := true }, .retain id)
  | .retain id =>
      let count := (s.refCounts.lookup id).getD 0 + 1
      some ({ s with refCounts := s.refCounts.insert id count },
        .unlockRetain id (decide (count = 1)))
  | .unlockRetain id isNew =>
      some ({ s with sharedMu := false }, if isNew then .loadOrStore id else .loadShared id)
  | .loadShared id =>
      match s.registry.load id with
      | some _ => some (s, .done)
      | none => some (s, .loadOrStore id)
  | .loadOrStore id =>
      match s.registry.load id with
      | some _ => some (s, .done)
      | none => some ({ s with registry := s.registry.store id }, .done)
  | .range =>
      match visit with
      | some id =>
          match s.registry.load id with
          | some bw => some (s, .idle bw)
          | none => some (s, .range)
      | none => some (s, .done)
  | .idle bw =>
      some (s, if s.registry.isActive bw && overdue then .deactivate bw .ranges else .range)
  | .done => none

end Scheduler

namespace Op

/-- What the goroutine has yet to add to the counter for a flag it has changed. -/
def owes : Op Id → ℤ
  | .count _ _ => 1
  | .discount _ => -1
  | _ => 0

/-- The goroutine will look at the map again, or clear the flag, before it is done. -/
def Settles (bw : ℕ) : Op Id → Prop
  | .count _ bw' | .recheck _ bw' | .deactivate bw' _ => bw' = bw
  | _ => False

instance (bw : ℕ) : DecidablePred (Settles bw : Op Id → Prop) := fun op => by
  cases op <;> unfold Settles <;> infer_instance

end Op

omit [DecidableEq Id] in
@[simp] theorem After.owes_op (after : After Id) : after.op.owes = 0 := by
  cases after <;> rfl

@[simp] theorem Scheduler.owes_start (s : Scheduler Id) (call : Call Id) :
    (s.start call).owes = 0 := by
  cases call with
  | requestSend id =>
    rw [start]
    split_ifs <;> rfl
  | _ => rfl

/-- What a step of an operation does to the map, the flags and the counter. -/
inductive Effect (s : Scheduler Id) : Op Id → Scheduler Id → Op Id → Prop where
  /-- They stay, and an operation that is to settle an active entry still is. -/
  | silent {op op' : Op Id} {t : Scheduler Id} (hregistry : t.registry = s.registry)
      (hcount : t.activeCount = s.activeCount) (howes : op'.owes = op.owes)
      (hsettles : ∀ bw, op.Settles bw → s.registry.isActive bw = true → op'.Settles bw) :
      Effect s op t op'
  /-- The re-check of a sender finds its id in the map. -/
  | finds {id : Id} {bw bw' : ℕ} (hload : s.registry.load id = some bw') :
      Effect s (.recheck id bw) s .done
  | activates {id : Id} {bw : ℕ} {r : Registry Id}
      (hswap : s.registry.compareAndSwap bw false true = some r) :
      Effect s (.activate id bw) { s with registry := r } (.count id bw)
  | counts (id : Id) (bw : ℕ) :
      Effect s (.count id bw) { s with activeCount := s.activeCount + 1 } (.recheck id bw)
  | deactivates {bw : ℕ} {r : Registry Id} (after : After Id)
      (hswap : s.registry.compareAndSwap bw true false = some r) :
      Effect s (.deactivate bw after) { s with registry := r } (.discount after)
  | discounts (after : After Id) :
      Effect s (.discount after) { s with activeCount := s.activeCount - 1 } after.op
  | deletes (id : Id) (locked : Bool) {op' : Op Id} (howes : op'.owes = 0) :
      Effect s (.delete id locked) { s with registry := s.registry.delete id } op'
  | stores {id : Id} (hload : s.registry.load id = none) :
      Effect s (.loadOrStore id) { s with registry := s.registry.store id } .done

namespace Scheduler

variable {s t : Scheduler Id} {op op' : Op Id} {visit : Option Id} {overdue : Bool}

theorem advance_effect (h : s.advance visit overdue op = some (t, op')) : Effect s op t op' := by
  cases op with
  | load id =>
    rw [advance] at h
    split at h <;> cases h <;> exact .silent rfl rfl rfl (fun _ hs => hs.elim)
  | test id bw =>
    cases h
    refine .silent rfl rfl ?_ (fun _ hs => hs.elim)
    split_ifs <;> rfl
  | activate id bw =>
    rw [advance] at h
    split at h <;> cases h
    · next hswap => exact .activates hswap
    · exact .silent rfl rfl rfl (fun _ hs => hs.elim)
  | count id bw =>
    cases h
    exact .counts id bw
  | recheck id bw =>
    rw [advance] at h
    split at h <;> cases h
    · next hload => exact .finds hload
    · exact .silent rfl rfl rfl (fun _ hs _ => hs)
  | deactivate bw after =>
    rw [advance] at h
    split at h <;> cases h
    · next hswap => exact .deactivates after hswap
    · next hswap =>
      -- a swap that fails has found the flag cleared
      refine .silent rfl rfl after.owes_op fun bw' hs hactive => ?_
      obtain rfl : bw = bw' := hs
      rw [Registry.isActive_of_compareAndSwap_eq_none hswap] at hactive
      cases hactive
  | discount after =>
    cases h
    exact .discounts after
  | unregister id locked =>
    rw [advance] at h
    split at h <;> cases h
    · exact .silent rfl rfl rfl (fun _ hs => hs.elim)
    · refine .silent rfl rfl ?_ (fun _ hs => hs.elim)
      split_ifs <;> rfl
  | delete id locked =>
    cases h
    refine .deletes id locked ?_
    split_ifs <;> rfl
  | lockRelease id | lockRetain id =>
    rw [advance] at h
    split_ifs at h
    cases h
    exact .silent rfl rfl rfl (fun _ hs => hs.elim)
  | release id =>
    rw [advance] at h
    split at h
    · cases h
      exact .silent rfl rfl rfl (fun _ hs => hs.elim)
    · split_ifs at h <;> cases h <;> exact .silent rfl rfl rfl (fun _ hs => hs.elim)
  | unlockRetain id isNew =>
    cases h
    refine .silent rfl rfl ?_ (fun _ hs => hs.elim)
    split_ifs <;> rfl
  | loadShared id =>
    rw [advance] at h
    split at h <;> cases h <;> exact .silent rfl rfl rfl (fun _ hs => hs.elim)
  | loadOrStore id =>
    rw [advance] at h
    split at h <;> cases h
    · exact .silent rfl rfl rfl (fun _ hs => hs.elim)
    · next hload => exact .stores hload
  | range =>
    cases visit with
    | some id =>
      rw [advance] at h
      split at h <;> cases h <;> exact .silent rfl rfl rfl (fun _ hs => hs.elim)
    | none =>
      cases h
      exact .silent rfl rfl rfl (fun _ hs => hs.elim)
  | idle bw =>
    cases h
    refine .silent rfl rfl ?_ (fun _ hs => hs.elim)
    split_ifs <;> rfl
  | unlock | retain id =>
    cases h
    exact .silent rfl rfl rfl (fun _ hs => hs.elim)
  | done => cases h

end Scheduler

/-- A flag and the counter move apart by what the operation owes. -/
theorem Effect.counter {s t : Scheduler Id} {op op' : Op Id} (h : Effect s op t op') :
    t.activeCount + op'.owes + s.registry.active = s.activeCount + op.owes + t.registry.active := by
  cases h with
  | silent hregistry hcount howes hsettles => rw [hregistry, hcount, howes]
  | finds hload => rfl
  | activates hswap =>
    have hactive := Registry.active_compareAndSwap hswap
    simp only [Op.owes, Bool.toNat_false, Bool.toNat_true] at hactive ⊢
    omega
  | counts id bw =>
    simp only [Op.owes]
    omega
  | deactivates after hswap =>
    have hactive := Registry.active_compareAndSwap hswap
    simp only [Op.owes, Bool.toNat_false, Bool.toNat_true] at hactive ⊢
    omega
  | discounts after =>
    rw [After.owes_op]
    simp only [Op.owes]
    omega
  | deletes id locked howes =>
    rw [howes, Registry.active_delete]
    rfl
  | stores hload => simp only [Registry.active_store, Op.owes]

structure State (Id : Type*) [DecidableEq Id] where
  scheduler : Scheduler Id
  ops : List (Op Id)

inductive Action (Id : Type*) where
  | register (id : Id)
  | call (call : Call Id)
  | advance (i : ℕ) (visit : Option Id) (overdue : Bool)

namespace State

def start (totalMbps : ℤ) : State Id := ⟨newScheduler totalMbps, []⟩

/-- `Register` is one `Store`; it is called once for an id. -/
def step (s : State Id) : Action Id → Option (State Id)
  | .register id =>
      if ∀ e ∈ s.scheduler.registry.entries, e.backendID ≠ id then
        some { s with scheduler :=
          { s.scheduler with registry := s.scheduler.registry.store id } }
      else none
  | .call call => some { s with ops := s.ops ++ [s.scheduler.start call] }
  | .advance i visit overdue =>
      match s.ops[i]? with
      | some op =>
          (s.scheduler.advance visit overdue op).map fun next => ⟨next.1, s.ops.set i next.2⟩
      | none => none

def Quiescent (s : State Id) : Prop := s.ops.all (· matches .done) = true

instance (s : State Id) : Decidable s.Quiescent := inferInstanceAs (Decidable (_ = true))

/-- An entry that is removed while its flag is set will be settled by an operation under way, and
a re-check that finds an entry finds the one that the sender activated, if that one's flag is still
set. -/
def InTime (s : State Id) : Op Id → Prop
  | .delete id _ => ∀ bw ∈ s.scheduler.registry.load id,
      s.scheduler.registry.isActive bw = true → Any (Op.Settles bw) s.ops
  | .recheck id bw => s.scheduler.registry.isActive bw = true →
      ∀ bw' ∈ s.scheduler.registry.load id, bw' = bw
  | _ => True

instance (s : State Id) (op : Op Id) : Decidable (s.InTime op) := by
  cases op <;> unfold InTime <;> infer_instance

def Unraced (s : State Id) : Action Id → Prop
  | .advance i _ _ => ∀ op ∈ s.ops[i]?, s.InTime op
  | _ => True

instance (s : State Id) (a : Action Id) : Decidable (s.Unraced a) := by
  cases a <;> unfold Unraced <;> infer_instance

variable {s t : State Id}

theorem step_effect {a : Action Id} (h : s.step a = some t) :
    (∃ id, s.scheduler.registry.load id = none ∧ t = { s with scheduler :=
      { s.scheduler with registry := s.scheduler.registry.store id } }) ∨
    (∃ call, t = { s with ops := s.ops ++ [s.scheduler.start call] }) ∨
    ∃ i op u op', s.ops[i]? = some op ∧ Effect s.scheduler op u op' ∧
      t = ⟨u, s.ops.set i op'⟩ ∧ (s.Unraced a → s.InTime op) := by
  cases a with
  | register id =>
    simp only [step, Option.ite_none_right_eq_some, Option.some.injEq] at h
    obtain ⟨hnew, rfl⟩ := h
    exact .inl ⟨id, Registry.load_eq_none_of_forall hnew, rfl⟩
  | call call =>
    cases h
    exact .inr (.inl ⟨call, rfl⟩)
  | advance i visit overdue =>
    rw [step] at h
    split at h
    · next op hi =>
      obtain ⟨⟨u, op'⟩, hnext, rfl⟩ := Option.map_eq_some_iff.mp h
      exact .inr (.inr ⟨i, op, u, op', hi, Scheduler.advance_effect hnext, rfl,
        fun hguard => hguard op hi⟩)
    · cases h

/-- The counter and what is owed to it make up the flags that are set, whoever runs when. -/
def Counted (s : State Id) : Prop :=
  s.scheduler.activeCount + (s.ops.map Op.owes).sum = s.scheduler.registry.active

theorem start_counted (totalMbps : ℤ) : (start totalMbps : State Id).Counted := rfl

theorem Counted.step {a : Action Id} (hs : s.Counted) (h : s.step a = some t) : t.Counted := by
  rcases step_effect h with ⟨id, -, rfl⟩ | ⟨call, rfl⟩ | ⟨i, op, u, op', hi, heffect, rfl, -⟩
  · rw [Counted, Registry.active_store]
    exact hs
  · rw [Counted, List.map_append, List.sum_append, List.map_singleton, List.sum_singleton,
      Scheduler.owes_start, add_zero]
    exact hs
  · have hsum := sum_map_set hi op' Op.owes
    have hcounter := heffect.counter
    dsimp only [Counted] at hs ⊢
    omega

/-- An entry whose flag is set is registered or will be settled. -/
def Settled (s : State Id) : Prop := ∀ bw, s.scheduler.registry.isActive bw = true →
  s.scheduler.registry.Registered bw ∨ Any (Op.Settles bw) s.ops

theorem start_settled (totalMbps : ℤ) : (start totalMbps : State Id).Settled := by
  intro bw hactive
  cases hactive

theorem Settled.set {i : ℕ} {op : Op Id} (hs : s.Settled) (hi : s.ops[i]? = some op) (op' : Op Id)
    {bw : ℕ} (hactive : s.scheduler.registry.isActive bw = true) :
    s.scheduler.registry.Registered bw ∨ op.Settles bw ∨
      Any (Op.Settles bw) (s.ops.set i op') := by
  rcases hs bw hactive with hregistered | hsettles
  · exact .inl hregistered
  · exact .inr (hsettles.set_or hi op')

theorem Settled.set_of_not {i : ℕ} {op : Op Id} (hs : s.Settled) (hi : s.ops[i]? = some op)
    (op' : Op Id) {bw : ℕ} (hop : ¬ op.Settles bw)
    (hactive : s.scheduler.registry.isActive bw = true) :
    s.scheduler.registry.Registered bw ∨ Any (Op.Settles bw) (s.ops.set i op') :=
  (hs.set hi op' hactive).imp_right fun h => h.resolve_left hop

theorem Settled.effect {i : ℕ} {op op' : Op Id} {u : Scheduler Id} (hs : s.Settled)
    (hi : s.ops[i]? = some op) (hguard : s.InTime op) (heffect : Effect s.scheduler op u op') :
    Settled ⟨u, s.ops.set i op'⟩ := by
  have hself {bw : ℕ} (h : op'.Settles bw) : Any (Op.Settles bw) (s.ops.set i op') :=
    ⟨op', List.mem_set (List.getElem?_eq_some_iff.mp hi).1 op', h⟩
  intro bw hactive
  cases heffect with
  | silent hregistry hcount howes hsettles =>
    dsimp only at hactive ⊢
    rw [hregistry] at hactive ⊢
    rcases hs.set hi op' hactive with hregistered | hop | hany
    · exact .inl hregistered
    · exact .inr (hself (hsettles bw hop hactive))
    · exact .inr hany
  | finds hload =>
    rcases hs.set hi _ hactive with hregistered | rfl | hany
    · exact .inl hregistered
    · obtain rfl := hguard hactive _ hload
      exact .inl ⟨_, hload⟩
    · exact .inr hany
  | activates hswap =>
    dsimp only at hactive
    rw [Registry.isActive_compareAndSwap hswap] at hactive
    split_ifs at hactive with hbw
    · exact .inr (hself hbw.symm)
    · refine (hs.set_of_not hi _ (fun hop => hop) hactive).imp_left fun hregistered => ?_
      exact hregistered.compareAndSwap hswap
  | counts id bw' =>
    rcases hs.set hi _ hactive with hregistered | hop | hany
    · exact .inl hregistered
    · exact .inr (hself hop)
    · exact .inr hany
  | deactivates after hswap =>
    dsimp only at hactive
    rw [Registry.isActive_compareAndSwap hswap] at hactive
    split_ifs at hactive with hbw
    refine (hs.set_of_not hi _ (fun hop => hbw hop.symm) hactive).imp_left fun hregistered => ?_
    exact hregistered.compareAndSwap hswap
  | discounts after => exact hs.set_of_not hi _ (fun hop => hop) hactive
  | deletes id locked howes =>
    rw [Registry.isActive_delete] at hactive
    -- only the entry under the id may lose its place in the map, and the guard is about it
    by_cases hload : s.scheduler.registry.load id = some bw
    · rcases (hguard bw hload hactive).set_or hi op' with hop | hany
      · exact hop.elim
      · exact .inr hany
    · refine (hs.set_of_not hi _ (fun hop => hop) hactive).imp_left fun hregistered => ?_
      exact hregistered.delete hload
  | stores hload =>
    rw [Registry.isActive_store] at hactive
    refine (hs.set_of_not hi _ (fun hop => hop) hactive).imp_left fun hregistered => ?_
    exact hregistered.store hload

theorem Settled.step {a : Action Id} (hs : s.Settled) (hguard : s.Unraced a)
    (h : s.step a = some t) : t.Settled := by
  rcases step_effect h with ⟨id, hload, rfl⟩ | ⟨call, rfl⟩ | ⟨i, op, u, op', hi, heffect, rfl, hin⟩
  · intro bw hactive
    rw [Registry.isActive_store] at hactive
    exact (hs bw hactive).imp_left fun hregistered => hregistered.store hload
  · exact fun bw hactive => (hs bw hactive).imp_right Any.concat
  · exact hs.effect hi (hin hguard) heffect

theorem Quiescent.done (hq : s.Quiescent) {op : Op Id} (hop : op ∈ s.ops) : op = .done := by
  have hdone := List.all_eq_true.mp hq op hop
  cases op <;> first | rfl | cases hdone

theorem Quiescent.owes (hq : s.Quiescent) : (s.ops.map Op.owes).sum = 0 := by
  refine List.sum_eq_zero fun x hx => ?_
  obtain ⟨op, hop, rfl⟩ := List.mem_map.mp hx
  rw [hq.done hop]
  rfl

/-- Whoever runs when, a drift is upwards: the counter covers the registered entries whose flag is
set. -/
theorem registeredActive_le_activeCount {totalMbps : ℤ} {as : List (Action Id)}
    (hrun : run step (start totalMbps) as = some s) (hq : s.Quiescent) :
    (s.scheduler.registry.registeredActive : ℤ) ≤ s.scheduler.activeCount := by
  have hcounted : s.Counted :=
    invariant_run (fun _ _ _ hI hs => hI.step hs) (start_counted totalMbps) hrun
  have hle := s.scheduler.registry.registeredActive_le_active
  rw [Counted, hq.owes] at hcounted
  omega

/-- If no operation comes too late, the counter is the number of registered entries whose flag is
set, whenever no operation is in progress. -/
theorem activeCount_exact {totalMbps : ℤ} {as : List (Action Id)}
    (hrace : Along step Unraced (start totalMbps) as)
    (hrun : run step (start totalMbps) as = some s) (hq : s.Quiescent) :
    s.scheduler.activeCount = s.scheduler.registry.registeredActive := by
  have hcounted : s.Counted :=
    invariant_run (fun _ _ _ hI hs => hI.step hs) (start_counted totalMbps) hrun
  have hsettled : s.Settled :=
    invariant_along (fun _ _ _ hI hG hs => hI.step hG hs) (start_settled totalMbps) hrace hrun
  have hregistered : ∀ bw, s.scheduler.registry.isActive bw = true →
      s.scheduler.registry.Registered bw := by
    intro bw hactive
    rcases hsettled bw hactive with hregistered | ⟨op, hop, hsettles⟩
    · exact hregistered
    · rw [hq.done hop] at hsettles
      exact hsettles.elim
  rw [Counted, hq.owes, add_zero] at hcounted
  rw [hcounted, Registry.registeredActive_eq_active hregistered]

def go (i steps : ℕ) : List (Action ℕ) := List.replicate steps (.advance i none false)

/-- A backend is unregistered while it is activated, and the sender takes its increment back; the
other one stays active and is not found idle. -/
def undone : List (Action ℕ) :=
  [.register 0, .call (.registerShared 1)] ++ go 0 4 ++ [.call (.requestSend 1)] ++ go 1 5 ++
  [.call (.requestSend 0)] ++ go 2 2 ++ [.call (.unregister 0)] ++ go 3 2 ++ go 2 1 ++ go 3 1 ++
  go 2 4 ++ [.call .checkIdleBackends, .advance 4 (some 1) false] ++ go 4 2

theorem undone_exact : ∃ s, run step (start 100) undone = some s ∧ s.Quiescent ∧
    s.scheduler.activeCount = 1 ∧
    s.scheduler.activeCount = s.scheduler.registry.registeredActive := by
  have hrace : Along step Unraced (start 100) undone := by decide +kernel
  have hrun : ∃ s, run step (start 100) undone = some s ∧
      (s.Quiescent ∧ s.scheduler.activeCount = 1) :=
    exists_run_of_any (by decide +kernel)
  obtain ⟨s, hs, hq, hcount⟩ := hrun
  exact ⟨s, hs, hq, hcount, activeCount_exact hrace hs hq⟩

/-- The sender activates the backend and re-checks it between the swap and the delete of
`Unregister`. -/
def lateDelete : List (Action ℕ) :=
  [.register 0, .call (.requestSend 0)] ++ go 0 2 ++ [.call (.unregister 0)] ++ go 1 2 ++
  go 0 3 ++ go 1 1

theorem lateDelete_covered : ∃ s, run step (start 100) lateDelete = some s ∧ s.Quiescent ∧
    s.scheduler.activeCount = 1 ∧
    (s.scheduler.registry.registeredActive : ℤ) ≤ s.scheduler.activeCount := by
  obtain ⟨s, hrun, hq, hcount⟩ : ∃ s, run step (start 100) lateDelete = some s ∧ s.Quiescent ∧
      s.scheduler.activeCount = 1 := exists_run_of_any (by decide +kernel)
  exact ⟨s, hrun, hq, hcount, registeredActive_le_activeCount hrun hq⟩

/-- The backend is unregistered and registered again under its id before the sender activates the
entry it has loaded. -/
def reusedId : List (Action ℕ) :=
  [.call (.registerShared 0)] ++ go 0 4 ++ [.call (.requestSend 0)] ++ go 1 2 ++
  [.call (.unregisterShared 0)] ++ go 2 6 ++ [.call (.registerShared 0)] ++ go 3 4 ++ go 1 3

theorem activeCount_drifts :
    (∃ s, run step (start 100) lateDelete = some s ∧ s.Quiescent ∧
      s.scheduler.activeCount = 1 ∧ s.scheduler.registry.registeredActive = 0) ∧
    ∃ s, run step (start 100) reusedId = some s ∧ s.Quiescent ∧
      s.scheduler.activeCount = 1 ∧ s.scheduler.registry.registeredActive = 0 :=
  ⟨exists_run_of_any (by decide +kernel), exists_run_of_any (by decide +kernel)⟩

end State

end NexusProxy.Bandwidth.ActiveCount
