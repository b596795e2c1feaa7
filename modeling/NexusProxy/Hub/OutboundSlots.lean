import NexusProxy.Hub.Outbound

/-! The slots of outbound connections when nothing is in progress, and what is left of a request
that the backend has cancelled. -/
namespace NexusProxy.Hub.Outbound
set_option linter.unusedSectionVars false
open Collections Transition

variable {ι : Type*} [DecidableEq ι] {m : ℤ} {s t : Outbound ι}

/-- No dial goroutine stands between its entries in `clients` and in `outboundIDs` for the id. -/
def Undisturbed (s : Outbound ι) (id : ι) : Prop :=
  ∀ dial ∈ s.dials, dial.id = id → dial.phase ≠ .inserted

instance (s : Outbound ι) (id : ι) : Decidable (s.Undisturbed id) :=
  inferInstanceAs (Decidable (∀ dial ∈ s.dials, dial.id = id → dial.phase ≠ .inserted))

/-- A client is not removed in the middle of its registration, and an id is not registered in
the middle of its removal. -/
def Careful (s : Outbound ι) : Action ι → Prop
  | .disconnect id | .removeClient id => s.Undisturbed id
  | .dial d _ =>
      ∀ dial ∈ s.dials[d]?,
        (dial.phase = .removing → s.Undisturbed dial.id) ∧
        (dial.phase = .registering → ∀ rem ∈ s.removals, rem.id = dial.id →
          rem.phase ≠ .deleted)
  | _ => True

instance (s : Outbound ι) : ∀ a, Decidable (s.Careful a)
  | .disconnect id | .removeClient id => inferInstanceAs (Decidable (s.Undisturbed id))
  | .dial d _ => inferInstanceAs (Decidable (∀ dial ∈ s.dials[d]?,
      (dial.phase = .removing → s.Undisturbed dial.id) ∧
      (dial.phase = .registering → ∀ rem ∈ s.removals, rem.id = dial.id →
        rem.phase ≠ .deleted)))
  | .request _ | .loadInFlight | .reserve | .resume | .addClient _ | .removal _ =>
      inferInstanceAs (Decidable True)

def releasing (s : Outbound ι) : ℕ := s.removals.countP fun rem => rem.phase == .releasing

/-- Every id in `outboundIDs` is accounted for, and so is the difference between their number
and the counter. -/
structure Accounted (s : Outbound ι) : Prop where
  inserted : Each (fun d dial => dial.phase = .inserted →
    s.clients.lookup dial.id = some (.outbound d) ∧ dial.id ∉ s.outboundIDs) s.dials
  tracked : ∀ id ∈ s.outboundIDs, id ∈ s.clients ∨
    Any (fun rem => rem.id = id ∧ rem.phase = .deleted) s.removals
  balance : s.outboundConnCount + inPhase (· == .stored) s.dials =
    s.outboundIDs.card + s.releasing

theorem Accounted.dial (h : s.Accounted) {d : ℕ} {dial next : Dial ι}
    (hd : s.dials[d]? = some dial)
    (hinserted : next.phase = .inserted → dial.phase = .inserted ∧ next.id = dial.id)
    (hstored : (next.phase == .stored) = (dial.phase == .stored)) :
    (s.setDial d next).Accounted where
  inserted := by
    apply h.inserted.set _ fun _ _ _ _ hold => hold
    intro hnext
    obtain ⟨hphase, hid⟩ := hinserted hnext
    rw [hid]
    exact h.inserted d dial hd hphase
  tracked := h.tracked
  balance := by
    have hsame := inPhase_set_same (p := (· == .stored)) hd hstored
    change s.outboundConnCount + inPhase (· == .stored) (s.dials.set d next) = _
    rw [hsame]
    exact h.balance

theorem Accounted.of_same (h : s.Accounted) (hslots : t.toSlots = s.toSlots)
    (hdials : t.dials = s.dials) (hremovals : t.removals = s.removals) : t.Accounted := by
  constructor
  · rw [hslots, hdials]
    exact h.inserted
  · rw [hslots, hremovals]
    exact h.tracked
  · unfold releasing
    rw [hslots, hdials, hremovals]
    exact h.balance

theorem Accounted.reserve (h : s.Accounted) (id : ι) :
    Accounted { s with dials := s.dials ++ [⟨id, .dialing, false⟩] } where
  inserted := h.inserted.concat (fun heq => nomatch heq) fun _ _ _ hold => hold
  tracked := h.tracked
  balance := by
    have hsame : inPhase (· == .stored) (s.dials ++ [⟨id, .dialing, false⟩]) =
        inPhase (· == .stored) s.dials := countP_concat _ _ _
    change s.outboundConnCount + inPhase (· == .stored) (s.dials ++ _) = _
    rw [hsame]
    exact h.balance

theorem Accounted.beginRemoval (h : s.Accounted) {id : ι} (hid : s.Undisturbed id) :
    (s.beginRemoval id).Accounted := by
  apply beginRemoval_cases
  · intro _
    exact h
  · intro owner _
    constructor
    · intro d dial hd hphase
      obtain ⟨hclient, hids⟩ := h.inserted d dial hd hphase
      have hne : dial.id ≠ id := fun heq => hid dial (List.mem_of_getElem? hd) heq hphase
      exact ⟨(AList.lookup_erase_ne hne).trans hclient, hids⟩
    · intro k hk
      rcases h.tracked k hk with hclient | hremoval
      · by_cases hne : k = id
        · exact Or.inr (Any.last ⟨hne.symm, rfl⟩)
        · exact Or.inl (AList.mem_erase.mpr ⟨hne, hclient⟩)
      · exact Or.inr hremoval.concat
    · have hsame := countP_concat s.removals ⟨id, owner, .deleted⟩ (·.phase == .releasing)
      change _ = _ + 0 at hsame
      have hbalance := h.balance
      unfold releasing at hbalance ⊢
      dsimp only
      omega

theorem Accounted.addClient (h : s.Accounted) {id : ι} (hfresh : s.Fresh id) :
    Accounted { s with clients := s.clients.insert id .inbound } where
  inserted := by
    intro d dial hd hphase
    obtain ⟨hclient, hids⟩ := h.inserted d dial hd hphase
    have hne : dial.id ≠ id := hfresh.2.2.2.1 dial (List.mem_of_getElem? hd)
    exact ⟨(AList.lookup_insert_ne hne).trans hclient, hids⟩
  tracked := by
    intro k hk
    exact (h.tracked k hk).imp_left fun hclient => (AList.mem_insert _).mpr (Or.inr hclient)
  balance := h.balance

theorem Accounted.register (h : s.Accounted) {d : ℕ} {dial : Dial ι}
    (hd : s.dials[d]? = some dial) (hphase : dial.phase = .registering)
    (hid : dial.id ∉ s.clients)
    (hfree : ∀ rem ∈ s.removals, rem.id = dial.id → rem.phase ≠ .deleted) :
    Accounted { s with
      clients := s.clients.insert dial.id (.outbound d)
      dials := s.dials.set d { dial with phase := .inserted } } where
  inserted := by
    refine h.inserted.set ?_ ?_
    · intro _
      refine ⟨AList.lookup_insert _, ?_⟩
      -- an id without a client would be in the middle of its removal
      intro hids
      rcases h.tracked dial.id hids with hclient | ⟨rem, hrem, hremid, hdeleted⟩
      · exact hid hclient
      · exact hfree rem hrem hremid hdeleted
    · intro e other hne he hold hinserted
      obtain ⟨hclient, hids⟩ := hold hinserted
      have hother : other.id ≠ dial.id := by
        intro heq
        apply hid
        rw [← heq, ← AList.lookup_isSome, hclient]
        rfl
      exact ⟨(AList.lookup_insert_ne hother).trans hclient, hids⟩
  tracked := by
    intro k hk
    exact (h.tracked k hk).imp_left fun hclient => (AList.mem_insert _).mpr (Or.inr hclient)
  balance := by
    have hsame : inPhase (· == .stored) (s.dials.set d { dial with phase := .inserted }) =
        inPhase (· == .stored) s.dials := inPhase_set_same hd (by rw [hphase]; rfl)
    show s.outboundConnCount + inPhase (· == .stored) (s.dials.set d _) = _
    rw [hsame]
    exact h.balance

theorem Accounted.store (h : s.Accounted) {d : ℕ} {dial : Dial ι} (hd : s.dials[d]? = some dial)
    (hphase : dial.phase = .inserted) :
    Accounted { s with
      outboundIDs := insert dial.id s.outboundIDs
      dials := s.dials.set d { dial with phase := .stored } } := by
  obtain ⟨hclient, hnew⟩ := h.inserted d dial hd hphase
  constructor
  · refine h.inserted.set (fun heq => nomatch heq) ?_
    intro e other hne he hold hinserted
    obtain ⟨hother, hids⟩ := hold hinserted
    refine ⟨hother, ?_⟩
    rw [Finset.mem_insert]
    rintro (heq | hmem)
    · -- one entry cannot belong to two dials
      rw [heq, hclient] at hother
      cases hother
      exact hne rfl
    · exact hids hmem
  · intro k hk
    rcases Finset.mem_insert.mp hk with rfl | hk
    · left
      rw [← AList.lookup_isSome, hclient]
      rfl
    · exact h.tracked k hk
  · have hstored := inPhase_enter (· == .stored) hd { dial with phase := .stored }
      (by rw [hphase]; rfl) rfl
    have hcard := Finset.card_insert_of_notMem hnew
    have hbalance := h.balance
    unfold releasing at hbalance ⊢
    dsimp only
    omega

theorem Accounted.count (h : s.Accounted) {d : ℕ} {dial : Dial ι} (hd : s.dials[d]? = some dial)
    (hphase : dial.phase = .stored) :
    Accounted { s with
      outboundConnCount := s.outboundConnCount + 1
      dials := s.dials.set d { dial with phase := .registered } } where
  inserted := h.inserted.set (fun heq => nomatch heq) fun _ _ _ _ hold => hold
  tracked := h.tracked
  balance := by
    have hstored := inPhase_leave (· == .stored) hd { dial with phase := .registered }
      (by rw [hphase]; rfl) rfl
    have hbalance := h.balance
    unfold releasing at hbalance ⊢
    dsimp only
    omega

section Removals
variable {r : ℕ} {rem next : Removal ι}

theorem Accounted.unmark (h : s.Accounted) (hr : s.removals[r]? = some rem)
    (hphase : rem.phase = .deleted) (hid : rem.id ∈ s.outboundIDs) :
    Accounted { s with
      outboundIDs := s.outboundIDs.erase rem.id
      removals := s.removals.set r { rem with phase := .releasing } } where
  inserted := by
    intro d dial hd hinserted
    obtain ⟨hclient, hids⟩ := h.inserted d dial hd hinserted
    exact ⟨hclient, fun hmem => hids (Finset.mem_of_mem_erase hmem)⟩
  tracked := by
    intro k hk
    obtain ⟨hne, hk⟩ := Finset.mem_erase.mp hk
    refine (h.tracked k hk).imp_right fun hremoval => hremoval.set hr ?_ fun _ hold => hold
    rintro ⟨rfl, -⟩
    exact absurd rfl hne
  balance := by
    have hreleasing := countP_set_enter (p := (·.phase == .releasing))
      (b := { rem with phase := .releasing }) hr (by rw [hphase]; rfl) rfl
    have hcard := Finset.card_erase_add_one hid
    have hbalance := h.balance
    unfold releasing at hbalance ⊢
    dsimp only
    omega

theorem Accounted.removing (h : s.Accounted) (hr : s.removals[r]? = some rem)
    (hdone : rem.phase = .deleted → rem.id ∉ s.outboundIDs)
    (hreleasing : rem.phase ≠ .releasing) (hnext : next.phase ≠ .releasing) :
    Accounted { s with removals := s.removals.set r next } where
  inserted := h.inserted
  tracked := by
    intro k hk
    refine (h.tracked k hk).imp_right fun hremoval => hremoval.set hr ?_ fun _ hold => hold
    rintro ⟨rfl, hphase⟩
    exact absurd hk (hdone hphase)
  balance := by
    have hsame : (s.removals.set r next).countP (·.phase == .releasing) = s.releasing :=
      countP_set_same hr ((beq_false_of_ne hnext).trans (beq_false_of_ne hreleasing).symm)
    have hbalance := h.balance
    unfold releasing at hbalance hsame ⊢
    dsimp only
    omega

theorem Accounted.decrement (h : s.Accounted) (hr : s.removals[r]? = some rem)
    (hphase : rem.phase = .releasing) :
    Accounted { s with
      outboundConnCount := s.outboundConnCount - 1
      removals := s.removals.set r { rem with phase := .closing } } where
  inserted := h.inserted
  tracked := by
    intro k hk
    refine (h.tracked k hk).imp_right fun hremoval => hremoval.set hr ?_ fun _ hold => hold
    rintro ⟨-, hdeleted⟩
    rw [hphase] at hdeleted
    cases hdeleted
  balance := by
    have hcount := countP_set_leave (p := (·.phase == .releasing))
      (b := { rem with phase := .closing }) hr (by rw [hphase]; rfl) rfl
    have hbalance := h.balance
    unfold releasing at hbalance ⊢
    dsimp only
    omega

end Removals

theorem step_accounted {a : Action ι} (h : s.Accounted) (hok : s.Careful a)
    (hstep : step m s a = some t) : t.Accounted := by
  cases step_effect hstep with
  | request | unlimited | refuse | pass | resume => exact h.of_same rfl rfl rfl
  | reserve => exact (h.reserve _).of_same rfl rfl rfl
  | disconnect => exact (h.beginRemoval hok).of_same rfl rfl rfl
  | addClient hfresh => exact h.addClient hfresh
  | removeClient => exact h.beginRemoval hok
  | dialEnds hd hphase | reject hd hphase | discard hd hphase =>
    exact h.dial hd (by simp) (by rw [hphase]; rfl)
  | release hd hphase | fail hd hphase =>
    exact (h.dial hd (by simp) (by rw [hphase]; rfl)).of_same rfl rfl rfl
  | insert hd hphase hid => exact h.register hd hphase hid ((hok _ hd).2 hphase)
  | store hd hphase => exact h.store hd hphase
  | count hd hphase => exact h.count hd hphase
  | proceed hd hphase next hnext =>
    apply h.dial hd fun heq => absurd heq (DialPhase.ne_of_settled hnext rfl)
    rw [beq_false_of_ne (DialPhase.ne_of_settled hphase rfl),
      beq_false_of_ne (DialPhase.ne_of_settled hnext rfl)]
  | remove hd hphase =>
    have hremoval := h.beginRemoval ((hok _ hd).1 hphase)
    exact hremoval.dial (dial_of_beginRemoval hd _) (by simp) (by rw [hphase]; rfl)
  | unmark hr hphase hid => exact h.unmark hr hphase hid
  | unmarked hr hphase hid =>
    exact h.removing hr (fun _ => hid) (by rw [hphase]; simp) (by simp)
  | decrement hr hphase => exact h.decrement hr hphase
  | @close r rem hr hphase =>
    have hfinished : Accounted
        { s with removals := s.removals.set r { rem with phase := .finished } } := by
      apply h.removing hr
      · intro hdeleted
        rw [hphase] at hdeleted
        cases hdeleted
      · rw [hphase]
        simp
      · simp
    apply closeConn_cases
    · exact hfinished
    · intro d dial _ hd
      exact hfinished.dial hd (fun hphase => ⟨hphase, rfl⟩) rfl

/-- Apart from dials that are still running, nobody is working on a connection. -/
def Quiescent (s : Outbound ι) : Prop :=
  (∀ dial ∈ s.dials, dial.phase = .dialing ∨ dial.phase = .reading ∨ dial.phase = .finished) ∧
    ∀ rem ∈ s.removals, rem.phase = .finished

instance (s : Outbound ι) : Decidable s.Quiescent := by
  unfold Quiescent
  infer_instance

theorem start_accounted : (start : Outbound ι).Accounted where
  inserted := Each.nil
  tracked := by
    intro id hid
    cases hid
  balance := rfl

theorem run_accounted {actions : List (Action ι)} (hcareful : Along (step m) Careful start actions)
    (hrun : run (step m) start actions = some s) : s.Accounted :=
  invariant_along (fun _ _ _ h hok hstep => step_accounted h hok hstep) start_accounted hcareful
    hrun

theorem run_inFlight {actions : List (Action ι)}
    (hrun : run (step m) start actions = some s) : s.InFlight :=
  invariant_run (fun _ _ _ h hstep => step_inFlight h hstep) start_inFlight hrun

/-- In careful runs the accounting is exact whenever nothing is in progress. -/
theorem slots_accounted {actions : List (Action ι)}
    (hcareful : Along (step m) Careful start actions)
    (hrun : run (step m) start actions = some s) (hquiet : s.Quiescent) :
    s.outboundConnCount = s.outboundIDs.card ∧ (∀ id ∈ s.outboundIDs, id ∈ s.clients) ∧
      s.inFlightDials = inPhase (· == .dialing) s.dials := by
  obtain ⟨hdials, hremovals⟩ := hquiet
  have h := run_accounted hcareful hrun
  refine ⟨?_, ?_, ?_⟩
  · have hstored : inPhase (· == .stored) s.dials = 0 := by
      apply List.countP_eq_zero.mpr
      intro dial hdial
      rcases hdials dial hdial with hphase | hphase | hphase
      all_goals simp [hphase]
    have hreleasing : s.releasing = 0 := by
      apply List.countP_eq_zero.mpr
      intro rem hrem
      simp [hremovals rem hrem]
    have hbalance := h.balance
    omega
  · intro id hid
    rcases h.tracked id hid with hclient | ⟨rem, hrem, -, hdeleted⟩
    · exact hclient
    · rw [hremovals rem hrem] at hdeleted
      cases hdeleted
  · have hflight : s.inFlightDials = _ := run_inFlight hrun
    rw [hflight]
    congr 1
    apply List.countP_congr
    intro dial hdial
    rcases hdials dial hdial with hphase | hphase | hphase
    all_goals simp [hphase, DialPhase.holdsSlot]

/-- One connection is up, one has come and gone, and a third dial is still running. -/
def threeDials : List (Action ℕ) :=
  connect 0 ++ connect 1 ++ dialThrough 0 ++ dialThrough 1 ++ connect 2 ++
    [.dial 0 true, .dial 0 true, .dial 1 false, .dial 1 true, .removal 0, .removal 0, .removal 0]

theorem slots_accounted_three :
    ∃ s, run (step 3) start threeDials = some s ∧ s.Quiescent ∧ s.outboundConnCount = 1 ∧
      s.outboundConnCount = s.outboundIDs.card ∧ (∀ id ∈ s.outboundIDs, id ∈ s.clients) ∧
      s.inFlightDials = inPhase (· == .dialing) s.dials := by
  have hend : ∃ s, run (step 3) start threeDials = some s ∧ s.Quiescent ∧
      s.outboundConnCount = 1 := exists_run_of_any (by decide +kernel)
  obtain ⟨s, hrun, hquiet, hone⟩ := hend
  exact ⟨s, hrun, hquiet, hone, slots_accounted (by decide +kernel) hrun hquiet⟩

/-- A write to the new client fails before its id is in `outboundIDs`: the slot is lost. -/
theorem slot_leaked :
    ∃ s, run (step 1) start
        (connect 0 ++ [.dial 0 true, .dial 0 true, .dial 0 true] ++
          [.removeClient 0, .removal 0, .removal 0] ++
          [.dial 0 true, .dial 0 true, .dial 0 true, .dial 0 true] : List (Action ℕ)) = some s ∧
      s.Quiescent ∧ s.clients.keys = [] ∧ s.outboundConnCount = 1 ∧ 0 ∈ s.outboundIDs :=
  exists_run_of_any (by decide +kernel)

end NexusProxy.Hub.Outbound
