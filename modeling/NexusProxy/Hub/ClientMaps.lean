import Mathlib.Data.Finset.Card
import Mathlib.Data.List.AList
import NexusProxy.Flow.ForwardCredits

/-! The maps of a backend that belong to its clients, and the operations that fill and clean
them, one after the other. -/
namespace NexusProxy.Hub
open Flow.ForwardCredits Transition

/-- The clients of a backend, and those among them that it has dialed. -/
structure Slots (ι γ : Type*) where
  clients : AList fun _ : ι => γ
  outboundIDs : Finset ι
  outboundConnCount : ℤ

namespace Slots
variable {ι γ : Type*} [DecidableEq ι]

def empty : Slots ι γ := ⟨∅, ∅, 0⟩

/-- `AddOutboundClient`; `none` is the error for an id that exists. -/
def addOutboundClient (s : Slots ι γ) (id : ι) (conn : γ) : Option (Slots ι γ) :=
  if id ∈ s.clients then none
  else
    some {
      clients := s.clients.insert id conn
      outboundIDs := insert id s.outboundIDs
      outboundConnCount := s.outboundConnCount + 1 }

def releaseOutboundSlot (s : Slots ι γ) (id : ι) : Slots ι γ :=
  if id ∈ s.outboundIDs then
    { s with
      outboundIDs := s.outboundIDs.erase id
      outboundConnCount := s.outboundConnCount - 1 }
  else s

/-- What `RemoveClient` and `EventDisconnect` have in common. -/
def remove (s : Slots ι γ) (id : ι) : Slots ι γ :=
  if id ∈ s.clients then { s with clients := s.clients.erase id }.releaseOutboundSlot id else s

@[simp] theorem releaseOutboundSlot_clients (s : Slots ι γ) (id : ι) :
    (s.releaseOutboundSlot id).clients = s.clients := by
  unfold releaseOutboundSlot
  split_ifs
  · rfl
  · rfl

theorem releaseOutboundSlot_outboundIDs (s : Slots ι γ) (id : ι) :
    (s.releaseOutboundSlot id).outboundIDs = s.outboundIDs.erase id := by
  unfold releaseOutboundSlot
  split_ifs with hid
  · rfl
  · exact (Finset.erase_eq_of_notMem hid).symm

theorem mem_remove_clients {s : Slots ι γ} {id k : ι} :
    k ∈ (s.remove id).clients ↔ k ≠ id ∧ k ∈ s.clients := by
  unfold remove
  split_ifs with hid
  · rw [releaseOutboundSlot_clients, AList.mem_erase]
  · constructor
    · intro hk
      exact ⟨fun heq => hid (heq ▸ hk), hk⟩
    · intro hk
      exact hk.2

def Tracked (s : Slots ι γ) : Prop := ∀ id ∈ s.outboundIDs, id ∈ s.clients

theorem Tracked.addOutboundClient {s t : Slots ι γ} (h : s.Tracked) {id : ι} {conn : γ}
    (ht : s.addOutboundClient id conn = some t) : t.Tracked := by
  unfold Slots.addOutboundClient at ht
  split_ifs at ht
  cases ht
  intro k hk
  rw [AList.mem_insert]
  rcases Finset.mem_insert.mp hk with heq | hk
  · exact Or.inl heq
  · exact Or.inr (h k hk)

theorem Tracked.remove {s : Slots ι γ} (h : s.Tracked) (id : ι) : (s.remove id).Tracked := by
  intro k hk
  rw [mem_remove_clients]
  unfold Slots.remove at hk
  split_ifs at hk with hid
  · rw [releaseOutboundSlot_outboundIDs, Finset.mem_erase] at hk
    exact ⟨hk.1, h k hk.2⟩
  · have hclient := h k hk
    exact ⟨fun heq => hid (heq ▸ hclient), hclient⟩

end Slots

/-- The maps with the forward credits of the clients. -/
structure ClientMaps (ι γ : Type*) extends Slots ι γ where
  forwardCredits : AList fun _ : ι => Semaphore

/-- What happens to the clients. Booleans say whether `EventConnect` could be sent, and whether a
client's connection took a data frame. -/
inductive ClientOp (ι γ : Type*) where
  | addClient (id : ι) (conn : γ) (queued : Bool)
  | addOutboundClient (id : ι) (conn : γ)
  | removeClient (id : ι)
  | data (id : ι) (accepted : Bool)
  | disconnect (id : ι)
  | resumeStream (id : ι) (credits : ℤ)
  deriving DecidableEq

namespace ClientMaps
variable {ι γ : Type*} [DecidableEq ι]

def empty : ClientMaps ι γ := ⟨Slots.empty, ∅⟩

def removeClient (s : ClientMaps ι γ) (id : ι) : ClientMaps ι γ :=
  if id ∈ s.clients then ⟨s.toSlots.remove id, s.forwardCredits.erase id⟩ else s

/-- The part of `handleResumeStream` after the client is found. -/
def grant (s : ClientMaps ι γ) (id : ι) (credits : ℤ) : ClientMaps ι γ :=
  match addForwardCredits (s.forwardCredits.lookup id) credits with
  | none => s
  | some sem => { s with forwardCredits := s.forwardCredits.insert id sem }

def apply (s : ClientMaps ι γ) : ClientOp ι γ → ClientMaps ι γ
  | .addClient id conn queued =>
      if queued then { s with clients := s.clients.insert id conn } else s
  | .addOutboundClient id conn =>
      match s.toSlots.addOutboundClient id conn with
      | none => s
      | some t => { s with toSlots := t }
  | .removeClient id => s.removeClient id
  | .data id accepted => if id ∈ s.clients ∧ accepted = false then s.removeClient id else s
  | .disconnect id => { s with toSlots := s.toSlots.remove id }
  | .resumeStream id credits => if id ∈ s.clients then s.grant id credits else s

/-- Every id with forward credits or an outbound slot is a client. -/
structure Released (s : ClientMaps ι γ) : Prop where
  tracked : s.toSlots.Tracked
  credited : ∀ id ∈ s.forwardCredits, id ∈ s.clients

/-- A client that is disconnected by the backend has no forward credits. -/
def Orderly (s : ClientMaps ι γ) : ClientOp ι γ → Prop
  | .disconnect id => id ∈ s.clients → id ∉ s.forwardCredits
  | _ => True

instance (s : ClientMaps ι γ) : ∀ op, Decidable (s.Orderly op)
  | .disconnect id => inferInstanceAs (Decidable (id ∈ s.clients → id ∉ s.forwardCredits))
  | .addClient _ _ _ | .addOutboundClient _ _ | .removeClient _ | .data _ _ | .resumeStream _ _ =>
      inferInstanceAs (Decidable True)

variable {s : ClientMaps ι γ}

theorem Released.removeClient (h : s.Released) (id : ι) : (s.removeClient id).Released := by
  unfold ClientMaps.removeClient
  split_ifs
  · constructor
    · exact h.tracked.remove id
    · intro k hk
      rw [AList.mem_erase] at hk
      rw [Slots.mem_remove_clients]
      exact ⟨hk.1, h.credited k hk.2⟩
  · exact h

theorem Released.grant (h : s.Released) {id : ι} (hid : id ∈ s.clients) (credits : ℤ) :
    (s.grant id credits).Released := by
  unfold ClientMaps.grant
  split
  · exact h
  · refine ⟨h.tracked, ?_⟩
    intro k hk
    rcases (AList.mem_insert _).mp hk with rfl | hk
    · exact hid
    · exact h.credited k hk

theorem Released.disconnect (h : s.Released) {id : ι}
    (hid : id ∈ s.clients → id ∉ s.forwardCredits) :
    Released { s with toSlots := s.toSlots.remove id } := by
  refine ⟨h.tracked.remove id, ?_⟩
  intro k hk
  have hclient := h.credited k hk
  rw [Slots.mem_remove_clients]
  refine ⟨?_, hclient⟩
  rintro rfl
  exact hid hclient hk

theorem apply_released {op : ClientOp ι γ} (h : s.Released) (hok : s.Orderly op) :
    (s.apply op).Released := by
  cases op with
  | addClient id conn queued =>
    rw [apply]
    split_ifs
    · constructor
      · intro k hk
        exact (AList.mem_insert _).mpr (Or.inr (h.tracked k hk))
      · intro k hk
        exact (AList.mem_insert _).mpr (Or.inr (h.credited k hk))
    · exact h
  | addOutboundClient id conn =>
    rw [apply]
    split
    · exact h
    · next t ht =>
      refine ⟨h.tracked.addOutboundClient ht, ?_⟩
      intro k hk
      unfold Slots.addOutboundClient at ht
      split_ifs at ht
      cases ht
      exact (AList.mem_insert _).mpr (Or.inr (h.credited k hk))
  | removeClient id => exact h.removeClient id
  | data id accepted =>
    rw [apply]
    split_ifs
    · exact h.removeClient id
    · exact h
  | disconnect id => exact h.disconnect hok
  | resumeStream id credits =>
    rw [apply]
    split_ifs with hid
    · exact h.grant hid credits
    · exact h

theorem apply_released_iff (h : s.Released) (op : ClientOp ι γ) :
    (s.apply op).Released ↔ s.Orderly op := by
  refine ⟨?_, apply_released h⟩
  intro hnext
  cases op with
  | disconnect id =>
    intro _ hcredited
    have hclient := hnext.credited id hcredited
    exact (Slots.mem_remove_clients.mp hclient).1 rfl
  | _ => trivial

omit [DecidableEq ι] in
theorem Released.nothing_left (h : s.Released) (hgone : s.clients = ∅) :
    s.forwardCredits = ∅ ∧ s.outboundIDs = ∅ := by
  have hnone (id : ι) : id ∉ s.clients := by
    rw [hgone]
    exact AList.notMem_empty id
  constructor
  · apply AList.ext
    rw [AList.empty_entries, List.eq_nil_iff_forall_not_mem]
    intro entry hentry
    exact hnone _ (h.credited entry.1 (List.mem_keys_of_mem hentry))
  · rw [Finset.eq_empty_iff_forall_notMem]
    intro id hid
    exact hnone id (h.tracked id hid)

omit [DecidableEq ι] in
theorem empty_released : (empty : ClientMaps ι γ).Released := by
  constructor
  · intro id hid
    cases hid
  · intro id hid
    cases hid

/-- The operations are processed one after the other, and none of them can block. -/
def step (s : ClientMaps ι γ) (op : ClientOp ι γ) : Option (ClientMaps ι γ) := some (s.apply op)

/-- The state of each client goes with it, and with the last client the maps are empty, exactly
in the runs where no client that holds forward credits is disconnected by the backend. -/
theorem state_released_iff (ops : List (ClientOp ι γ)) :
    (∀ pre s, pre <+: ops → run step empty pre = some s →
      s.Released ∧ (s.clients = ∅ → s.forwardCredits = ∅ ∧ s.outboundIDs = ∅)) ↔
    Along step Orderly empty ops := by
  have hsteps (s : ClientMaps ι γ) (op) (h : s.Released) :
      ∃ t, step s op = some t ∧ (t.Released ↔ s.Orderly op) :=
    ⟨s.apply op, rfl, apply_released_iff h op⟩
  rw [along_iff hsteps empty_released]
  constructor
  · intro hall pre s hpre hs
    exact (hall pre s hpre hs).1
  · intro hall pre s hpre hs
    have h := hall pre s hpre hs
    exact ⟨h, h.nothing_left⟩

/-- A grant, and then the backend disconnects its client. -/
theorem credits_outlive_client :
    ∃ s, run step (empty : ClientMaps ℕ Unit)
        [.addClient 0 () true, .resumeStream 0 64, .disconnect 0] = some s ∧
      0 ∈ s.forwardCredits ∧ s.clients.keys = [] := by
  refine ⟨_, rfl, ?_, ?_⟩
  · decide
  · decide

end ClientMaps

end NexusProxy.Hub
