import NexusProxy.Hub.Outbound

/-! The limit on outbound connections: which runs keep it, and one that does not. -/
namespace NexusProxy.Hub.Outbound
set_option linter.unusedSectionVars false
open Collections Transition

variable {ι : Type*} [DecidableEq ι] {m : ℤ} {s t : Outbound ι}

/-! ### Inbound clients -/

/-- No dial has registered the id, and none is about to put it into `outboundIDs`. -/
def NotDialed (outboundIDs : Finset ι) (dials : List (Dial ι)) (id : ι) : Prop :=
  id ∉ outboundIDs ∧ Each (fun _ dial => dial.id = id → dial.phase ≠ .inserted) dials

theorem NotDialed.set {ids : Finset ι} {dials : List (Dial ι)} {id : ι} {d : ℕ} {next : Dial ι}
    (h : NotDialed ids dials id) (hnext : next.id = id → next.phase ≠ .inserted) :
    NotDialed ids (dials.set d next) id :=
  ⟨h.1, h.2.set hnext fun _ _ _ _ hold => hold⟩

/-- Inbound clients never get into the way of a dialed one. -/
structure Apart (s : Outbound ι) : Prop where
  client : ∀ id, s.clients.lookup id = some .inbound → NotDialed s.outboundIDs s.dials id
  removal : Each (fun _ rem => rem.owner = .inbound → rem.phase ≠ .releasing ∧
    (rem.phase = .deleted → NotDialed s.outboundIDs s.dials rem.id)) s.removals

theorem Apart.mono (h : s.Apart) (hclients : t.clients = s.clients)
    (hremovals : t.removals = s.removals)
    (hdialed : ∀ id, NotDialed s.outboundIDs s.dials id → NotDialed t.outboundIDs t.dials id) :
    t.Apart := by
  constructor
  · intro id hid
    rw [hclients] at hid
    exact hdialed id (h.client id hid)
  · rw [hremovals]
    intro r rem hr hinbound
    have hold := h.removal r rem hr hinbound
    exact ⟨hold.1, fun hphase => hdialed _ (hold.2 hphase)⟩

theorem Apart.dial (h : s.Apart) {d : ℕ} {next : Dial ι} (hnext : next.phase ≠ .inserted) :
    Apart { s with dials := s.dials.set d next } :=
  h.mono rfl rfl fun _ hid => hid.set fun _ => hnext

theorem Apart.beginRemoval (h : s.Apart) (id : ι) : (s.beginRemoval id).Apart := by
  apply beginRemoval_cases
  · intro _
    exact h
  · intro owner howner
    constructor
    · intro k hk
      have hk : (s.clients.erase id).lookup k = some .inbound := hk
      have hne : k ≠ id := by
        rintro rfl
        rw [AList.lookup_erase] at hk
        cases hk
      rw [AList.lookup_erase_ne hne] at hk
      exact h.client k hk
    · refine h.removal.concat ?_ fun _ _ _ hold => hold
      rintro rfl
      refine ⟨?_, fun _ => h.client id howner⟩
      intro hphase
      cases hphase

theorem Apart.addClient (h : s.Apart) {id : ι} (hfresh : s.Fresh id) :
    Apart { s with clients := s.clients.insert id .inbound } := by
  refine ⟨?_, h.removal⟩
  intro k hk
  by_cases hne : k = id
  · subst hne
    obtain ⟨-, hids, -, hdials, -⟩ := hfresh
    refine ⟨hids, ?_⟩
    intro d dial hd heq
    exact absurd heq (hdials dial (List.mem_of_getElem? hd))
  · change (s.clients.insert id _).lookup k = _ at hk
    rw [AList.lookup_insert_ne hne] at hk
    exact h.client k hk

theorem Apart.register (h : s.Apart) {d : ℕ} {dial : Dial ι}
    (hfree : ∀ rem ∈ s.removals, rem.id = dial.id → rem.owner = .inbound → rem.phase ≠ .deleted) :
    Apart { s with
      clients := s.clients.insert dial.id (.outbound d)
      dials := s.dials.set d { dial with phase := .inserted } } := by
  constructor
  · intro k hk
    have hne : k ≠ dial.id := by
      rintro rfl
      change (s.clients.insert dial.id _).lookup dial.id = _ at hk
      rw [AList.lookup_insert] at hk
      cases hk
    change (s.clients.insert dial.id _).lookup k = _ at hk
    rw [AList.lookup_insert_ne hne] at hk
    exact (h.client k hk).set fun heq => absurd heq.symm hne
  · intro r rem hr hinbound
    have hold := h.removal r rem hr hinbound
    refine ⟨hold.1, ?_⟩
    intro hphase
    apply (hold.2 hphase).set
    intro heq
    exact absurd hphase (hfree rem (List.mem_of_getElem? hr) heq.symm hinbound)

theorem Apart.store (h : s.Apart) {d : ℕ} {dial : Dial ι} (hd : s.dials[d]? = some dial)
    (hphase : dial.phase = .inserted) :
    Apart { s with
      outboundIDs := insert dial.id s.outboundIDs
      dials := s.dials.set d { dial with phase := .stored } } := by
  refine h.mono rfl rfl ?_
  intro id hid
  have hset : NotDialed s.outboundIDs (s.dials.set d { dial with phase := .stored }) id :=
    hid.set fun _ => by simp
  refine ⟨?_, hset.2⟩
  intro hmem
  rcases Finset.mem_insert.mp hmem with heq | hmem
  · exact hid.2 d dial hd heq.symm hphase
  · exact hid.1 hmem

theorem Apart.unmark (h : s.Apart) {r : ℕ} {rem : Removal ι} (hr : s.removals[r]? = some rem)
    (hphase : rem.phase = .deleted) (hid : rem.id ∈ s.outboundIDs) :
    Apart { s with
      outboundIDs := s.outboundIDs.erase rem.id
      removals := s.removals.set r { rem with phase := .releasing } } := by
  have hmono (id : ι) (hold : NotDialed s.outboundIDs s.dials id) :
      NotDialed (s.outboundIDs.erase rem.id) s.dials id :=
    ⟨fun hmem => hold.1 (Finset.mem_of_mem_erase hmem), hold.2⟩
  constructor
  · intro id hclient
    exact hmono id (h.client id hclient)
  · refine h.removal.set ?_ ?_
    · intro hinbound
      exact absurd hid ((h.removal r rem hr hinbound).2 hphase).1
    · intro j other _ _ hold hinbound
      exact ⟨(hold hinbound).1, fun hdeleted => hmono _ ((hold hinbound).2 hdeleted)⟩

theorem Apart.removing (h : s.Apart) {r : ℕ} {next : Removal ι}
    (hreleasing : next.phase ≠ .releasing) (hdeleted : next.phase ≠ .deleted) :
    Apart { s with removals := s.removals.set r next } := by
  refine ⟨h.client, ?_⟩
  refine h.removal.set ?_ ?_
  · intro _
    exact ⟨hreleasing, fun heq => absurd heq hdeleted⟩
  · intro j rem _ _ hold
    exact hold

/-! ### The limit -/

/-- The limit check loads `outboundConnCount` while no connection is on its way from
`inFlightDials` to it, and no dial gives up its slot between the two loads of the check. An id is
put into `clients` only when no inbound client with that id is being removed. -/
def Ordered (s : Outbound ι) : Action ι → Prop
  | .request _ => ∀ dial ∈ s.dials, dial.phase ≠ .registering ∧ dial.phase.uncounted = false
  | .dial d _ =>
      ∀ dial ∈ s.dials[d]?,
        (dial.phase = .ended true → s.pump.isChecked = false) ∧
        (dial.phase = .registering → ∀ rem ∈ s.removals, rem.id = dial.id →
          rem.owner = .inbound → rem.phase ≠ .deleted)
  | _ => True

instance (s : Outbound ι) : ∀ a, Decidable (s.Ordered a)
  | .request _ => inferInstanceAs (Decidable
      (∀ dial ∈ s.dials, dial.phase ≠ .registering ∧ dial.phase.uncounted = false))
  | .dial d _ => inferInstanceAs (Decidable (∀ dial ∈ s.dials[d]?,
      (dial.phase = .ended true → s.pump.isChecked = false) ∧
      (dial.phase = .registering → ∀ rem ∈ s.removals, rem.id = dial.id →
        rem.owner = .inbound → rem.phase ≠ .deleted)))
  | .loadInFlight | .reserve | .disconnect _ | .resume | .addClient _ | .removeClient _
  | .removal _ => inferInstanceAs (Decidable True)

theorem step_apart {a : Action ι} (h : s.Apart) (hok : s.Ordered a)
    (hstep : step m s a = some t) : t.Apart := by
  cases step_effect hstep with
  | request | unlimited | refuse | pass | resume => exact h.mono rfl rfl fun _ hid => hid
  | reserve =>
    refine h.mono rfl rfl ?_
    intro id hid
    refine ⟨hid.1, hid.2.concat ?_ fun _ _ _ hold => hold⟩
    intro _ hphase
    cases hphase
  | disconnect | removeClient => exact (h.beginRemoval _).mono rfl rfl fun _ hid => hid
  | addClient hfresh => exact h.addClient hfresh
  | dialEnds | release | fail | reject | discard | count =>
    refine h.mono rfl rfl fun _ hid => hid.set fun _ => ?_
    simp
  | insert hd hphase => exact h.register ((hok _ hd).2 hphase)
  | store hd hphase => exact h.store hd hphase
  | proceed _ _ next hnext =>
    exact h.dial (DialPhase.ne_of_settled hnext rfl)
  | remove => exact (h.beginRemoval _).dial (by simp)
  | unmark hr hphase hid => exact h.unmark hr hphase hid
  | unmarked | decrement => exact (h.removing (by simp) (by simp)).mono rfl rfl fun _ hid => hid
  | @close r rem =>
    have hfinished : Apart
        { s with removals := s.removals.set r { rem with phase := .finished } } :=
      h.removing (by simp) (by simp)
    apply closeConn_cases
    · exact hfinished
    · intro d dial _ hd
      refine hfinished.mono rfl rfl ?_
      intro id hid
      exact hid.set fun heq hphase => hid.2 d dial hd heq hphase

/-- The calls that have taken a dialed connection out of `clients` and may still decrement the
counter. -/
def owing (s : Outbound ι) : ℕ := s.removals.countP Removal.owes

/-- The counter covers every outbound entry, except for those not counted yet. -/
def Counted (s : Outbound ι) : Prop :=
  (s.established + s.owing : ℤ) ≤ s.outboundConnCount + inPhase DialPhase.uncounted s.dials

theorem beginRemoval_established (s : Outbound ι) (id : ι) :
    (s.beginRemoval id).established ≤ s.established ∧
      (s.beginRemoval id).established + (s.beginRemoval id).owing = s.established + s.owing := by
  apply beginRemoval_cases (P := fun t => t.established ≤ s.established ∧
    t.established + t.owing = s.established + s.owing)
  · intro _
    exact ⟨le_rfl, rfl⟩
  · intro owner howner
    have herase := countValues_erase howner Owner.isOutbound
    have howing := countP_concat s.removals ⟨id, owner, .deleted⟩ Removal.owes
    have hself : (Removal.owes ⟨id, owner, .deleted⟩) = owner.isOutbound := by
      simp [Removal.owes]
    rw [hself] at howing
    unfold established owing
    dsimp only
    omega

theorem Counted.of_same (h : s.Counted) (hestablished : t.established + t.owing ≤
      s.established + s.owing) (hcount : t.outboundConnCount = s.outboundConnCount)
    (hdials : inPhase DialPhase.uncounted t.dials = inPhase DialPhase.uncounted s.dials) :
    t.Counted := by
  unfold Counted at h ⊢
  rw [hcount, hdials]
  omega

theorem Counted.beginRemoval (h : s.Counted) (id : ι) : (s.beginRemoval id).Counted :=
  h.of_same (beginRemoval_established s id).2.le (beginRemoval_count s id)
    (by rw [beginRemoval_dials])

theorem Counted.register (h : s.Counted) {d : ℕ} {dial : Dial ι} (hd : s.dials[d]? = some dial)
    (hphase : dial.phase = .registering) (hid : dial.id ∉ s.clients) :
    Counted { s with
      clients := s.clients.insert dial.id (.outbound d)
      dials := s.dials.set d { dial with phase := .inserted } } := by
  have hclients := countValues_insert (v := Owner.outbound d) hid Owner.isOutbound
  have hdials := inPhase_enter DialPhase.uncounted hd { dial with phase := .inserted }
    (by rw [hphase]; rfl) rfl
  change _ = _ + 1 at hclients
  unfold Counted established owing at h ⊢
  dsimp only
  omega

theorem Counted.count (h : s.Counted) {d : ℕ} {dial : Dial ι} (hd : s.dials[d]? = some dial)
    (hphase : dial.phase = .stored) :
    Counted { s with
      outboundConnCount := s.outboundConnCount + 1
      dials := s.dials.set d { dial with phase := .registered } } := by
  have hdials := inPhase_leave DialPhase.uncounted hd { dial with phase := .registered }
    (by rw [hphase]; rfl) rfl
  unfold Counted established owing at h ⊢
  dsimp only
  omega

theorem Counted.decrement (h : s.Counted) {r : ℕ} {rem : Removal ι}
    (hr : s.removals[r]? = some rem) (hphase : rem.phase = .releasing)
    (howner : rem.owner.isOutbound = true) :
    Counted { s with
      outboundConnCount := s.outboundConnCount - 1
      removals := s.removals.set r { rem with phase := .closing } } := by
  have hbefore : rem.owes = true := by simp [Removal.owes, howner, hphase]
  have hafter : Removal.owes { rem with phase := .closing } = false := by simp [Removal.owes]
  have howing := countP_set_leave hr hbefore hafter
  unfold Counted established owing at h ⊢
  dsimp only
  omega

theorem owing_set_le {r : ℕ} {rem next : Removal ι} (hr : s.removals[r]? = some rem)
    (hnext : next.owes = true → rem.owes = true) :
    (s.removals.set r next).countP Removal.owes ≤ s.owing := by
  have howing := countP_set_add (b := next) hr Removal.owes
  have hle : next.owes.toNat ≤ rem.owes.toNat := by
    cases hn : next.owes with
    | false => exact Nat.zero_le _
    | true => rw [hnext hn]
  unfold owing
  omega

theorem step_counted {a : Action ι} (hapart : s.Apart) (h : s.Counted)
    (hstep : step m s a = some t) : t.Counted := by
  cases step_effect hstep with
  | request | unlimited | refuse | pass | resume => exact h.of_same le_rfl rfl rfl
  | reserve =>
    refine h.of_same le_rfl rfl ?_
    exact (countP_concat _ _ _).trans rfl
  | disconnect => exact (h.beginRemoval _).of_same le_rfl rfl rfl
  | removeClient => exact h.beginRemoval _
  | addClient hfresh =>
    refine h.of_same ?_ rfl rfl
    exact Nat.add_le_add_right (countValues_insert hfresh.1 Owner.isOutbound).le _
  | dialEnds hd hphase | release hd hphase | fail hd hphase | reject hd hphase
  | discard hd hphase | store hd hphase =>
    exact h.of_same le_rfl rfl (inPhase_set_same hd (by rw [hphase]; rfl))
  | insert hd hphase hid => exact h.register hd hphase hid
  | count hd hphase => exact h.count hd hphase
  | proceed hd hphase next hnext =>
    exact h.of_same le_rfl rfl
      (inPhase_proceed hd hphase hnext DialPhase.uncounted_of_settled)
  | @remove _ dial _ hd hphase =>
    have hremoval := h.beginRemoval dial.id
    exact hremoval.of_same le_rfl rfl
      (inPhase_set_same (dial_of_beginRemoval hd _) (by rw [hphase]; rfl))
  | unmark hr hphase =>
    refine h.of_same (Nat.add_le_add_left (owing_set_le hr ?_) _) rfl rfl
    simp [Removal.owes, hphase]
  | unmarked hr =>
    refine h.of_same (Nat.add_le_add_left (owing_set_le hr ?_) _) rfl rfl
    simp [Removal.owes]
  | decrement hr hphase =>
    refine h.decrement hr hphase ?_
    -- an inbound client is never found in `outboundIDs`
    cases howner : Removal.owner _ with
    | inbound => exact absurd hphase (hapart.removal _ _ hr howner).1
    | outbound d => rfl
  | @close r rem hr =>
    have hfinished : Counted
        { s with removals := s.removals.set r { rem with phase := .finished } } := by
      refine h.of_same (Nat.add_le_add_left (owing_set_le hr ?_) _) rfl rfl
      simp [Removal.owes]
    apply closeConn_cases
    · exact hfinished
    · intro d dial _ hd
      exact hfinished.of_same le_rfl rfl (inPhase_set_same hd rfl)

/-- Connections that are established, that have given up their slot and that still hold one, as
far as the limit is concerned. -/
def Room (m : ℤ) (established registering holding : ℕ) : Pump ι → Prop
  | .ready | .removing _ => (established + registering + holding : ℤ) ≤ m
  | .checked _ count =>
      (established + registering + holding : ℤ) ≤ m ∧ (established + registering : ℤ) ≤ count
  | .reserving _ => (established + registering + holding + 1 : ℤ) ≤ m

theorem Room.mono {pump : Pump ι} {e r h e' r' h' : ℕ} (hroom : Room m e r h pump)
    (hkept : e' + r' ≤ e + r) (hall : e' + r' + h' ≤ e + r + h) : Room m e' r' h' pump := by
  cases pump with
  | ready | removing _ =>
    change (e + r + h : ℤ) ≤ m at hroom
    change (e' + r' + h' : ℤ) ≤ m
    omega
  | checked id count =>
    obtain ⟨htotal, hcount⟩ := hroom
    constructor
    · omega
    · omega
  | reserving id =>
    change (e + r + h + 1 : ℤ) ≤ m at hroom
    change (e' + r' + h' + 1 : ℤ) ≤ m
    omega

theorem Room.established_le {pump : Pump ι} {e r h : ℕ} (hroom : Room m e r h pump) :
    (e : ℤ) ≤ m := by
  cases pump with
  | ready | removing _ =>
    change (e + r + h : ℤ) ≤ m at hroom
    omega
  | checked id count =>
    have htotal := hroom.1
    omega
  | reserving id =>
    change (e + r + h + 1 : ℤ) ≤ m at hroom
    omega

theorem Room.release {pump : Pump ι} {e r h : ℕ} (hroom : Room m e r (h + 1) pump)
    (hpump : pump.isChecked = false) : Room m e (r + 1) h pump := by
  cases pump with
  | ready | removing _ =>
    change (e + r + (h + 1 : ℕ) : ℤ) ≤ m at hroom
    change (e + (r + 1 : ℕ) + h : ℤ) ≤ m
    omega
  | checked id count => cases hpump
  | reserving id =>
    change (e + r + (h + 1 : ℕ) + 1 : ℤ) ≤ m at hroom
    change (e + (r + 1 : ℕ) + h + 1 : ℤ) ≤ m
    omega

def registering (s : Outbound ι) : ℕ := inPhase (· == .registering) s.dials

def holding (s : Outbound ι) : ℕ := inPhase DialPhase.holdsSlot s.dials

/-- The limit holds for all the connections that the dials so far can lead to. -/
structure Limited (m : ℤ) (s : Outbound ι) : Prop where
  inFlight : s.InFlight
  apart : s.Apart
  counted : s.Counted
  room : Room m s.established s.registering s.holding s.pump

/-- No connection is between the two counters, so the loaded one covers them all. -/
theorem Limited.checked (h : Limited m s) (hpump : s.pump = .ready) (id : ι)
    (hquiet : ∀ dial ∈ s.dials, dial.phase ≠ .registering ∧ dial.phase.uncounted = false) :
    Room m s.established s.registering s.holding (.checked id s.outboundConnCount) := by
  have hregistering : s.registering = 0 := by
    refine List.countP_eq_zero.mpr ?_
    intro dial hdial
    simpa using (hquiet dial hdial).1
  have huncounted : inPhase DialPhase.uncounted s.dials = 0 := by
    refine List.countP_eq_zero.mpr ?_
    intro dial hdial
    simpa using (hquiet dial hdial).2
  have hroom := h.room
  rw [hpump] at hroom
  refine ⟨hroom, ?_⟩
  have hcounted := h.counted
  unfold Counted at hcounted
  omega

theorem Limited.passed (h : Limited m s) {id : ι} {count : ℤ} (hpump : s.pump = .checked id count)
    (hm : count + s.inFlightDials < m) :
    Room m s.established s.registering s.holding (.reserving id) := by
  have hroom := h.room
  rw [hpump] at hroom
  obtain ⟨-, hcount⟩ := hroom
  have hflight : s.inFlightDials = s.holding := h.inFlight
  change (_ + _ + _ + 1 : ℤ) ≤ m
  omega

theorem Limited.of_dial (h : Limited m s) {d : ℕ} {dial : Dial ι} (hd : s.dials[d]? = some dial)
    {next : Dial ι} (hregistering : (next.phase == .registering) = (dial.phase == .registering))
    (hholding : next.phase.holdsSlot = dial.phase.holdsSlot) :
    Room m s.established (inPhase (· == .registering) (s.dials.set d next))
      (inPhase DialPhase.holdsSlot (s.dials.set d next)) s.pump := by
  rw [inPhase_set_same (p := (· == .registering)) hd hregistering, inPhase_set_same hd hholding]
  exact h.room

theorem Limited.release (h : Limited m s) {d : ℕ} {dial : Dial ι} (hd : s.dials[d]? = some dial)
    (hphase : dial.phase = .ended true) (hpump : s.pump.isChecked = false) :
    Room m s.established
      (inPhase (· == .registering) (s.dials.set d { dial with phase := .registering }))
      (inPhase DialPhase.holdsSlot (s.dials.set d { dial with phase := .registering })) s.pump := by
  have hregistering := inPhase_enter (· == .registering) hd { dial with phase := .registering }
    (by rw [hphase]; rfl) rfl
  have hholding : _ + 1 = s.holding :=
    inPhase_leave DialPhase.holdsSlot hd { dial with phase := .registering }
      (by rw [hphase]; rfl) rfl
  have hroom := h.room
  rw [← hholding] at hroom
  rw [hregistering]
  exact hroom.release hpump

/-- A connection leaves the dials, and at most one entry comes into `clients` for it. -/
theorem Limited.leave (h : Limited m s) {d : ℕ} {dial : Dial ι} (hd : s.dials[d]? = some dial)
    {next : Dial ι} (hregistering : (next.phase == .registering) = false)
    (hholding : next.phase.holdsSlot = false) {e : ℕ}
    (he : e ≤ s.established + (dial.phase == .registering).toNat) :
    Room m e (inPhase (· == .registering) (s.dials.set d next))
      (inPhase DialPhase.holdsSlot (s.dials.set d next)) s.pump := by
  have hset := inPhase_set hd next (· == .registering)
  have hslot := inPhase_set hd next DialPhase.holdsSlot
  rw [hregistering] at hset
  rw [hholding] at hslot
  change _ = _ + 0 at hset
  change _ = _ + 0 at hslot
  refine h.room.mono ?_ ?_
  · unfold registering
    omega
  · unfold registering holding
    omega

theorem step_room {a : Action ι} (h : Limited m s) (hok : s.Ordered a)
    (hstep : step m s a = some t) :
    Room m t.established t.registering t.holding t.pump := by
  have hroom := h.room
  cases step_effect hstep with
  | request hpump => exact h.checked hpump _ hok
  | unlimited hpump hm =>
    rw [hpump] at hroom
    change (_ + _ + _ : ℤ) ≤ m at hroom
    omega
  | refuse hpump =>
    rw [hpump] at hroom
    exact hroom.1
  | pass hpump hm => exact h.passed hpump hm
  | @reserve id hpump =>
    have hslot : inPhase DialPhase.holdsSlot (s.dials ++ [⟨id, .dialing, false⟩]) =
        s.holding + 1 := countP_concat _ _ _
    have hothers : inPhase (· == .registering) (s.dials ++ [⟨id, .dialing, false⟩]) =
        s.registering := countP_concat _ _ _
    rw [hpump] at hroom
    change (_ + _ + _ + 1 : ℤ) ≤ m at hroom
    change (s.established + inPhase _ (s.dials ++ _) + inPhase _ (s.dials ++ _) : ℤ) ≤ m
    omega
  | @disconnect id hpump pump hnext =>
    have hle := (beginRemoval_established s id).1
    have hready : Room m (s.beginRemoval id).established s.registering s.holding
        (.ready : Pump ι) := by
      rw [hpump] at hroom
      exact hroom.mono (by omega) (by omega)
    unfold registering holding
    rw [beginRemoval_dials]
    rcases hnext with rfl | ⟨r, rfl⟩
    · exact hready
    · exact hready
  | resume hpump =>
    rw [hpump] at hroom
    exact hroom
  | addClient hfresh =>
    have hsame := countValues_insert (v := Owner.inbound) hfresh.1 Owner.isOutbound
    change Room m (countValues _ _) _ _ _
    rw [hsame]
    exact hroom
  | @removeClient id =>
    have hle := (beginRemoval_established s id).1
    unfold registering holding
    rw [beginRemoval_dials, beginRemoval_pump]
    exact hroom.mono (by unfold registering; omega) (by unfold registering holding; omega)
  | dialEnds hd hphase | discard hd hphase | store hd hphase | count hd hphase =>
    exact h.of_dial hd (by rw [hphase]; rfl) (by rw [hphase]; rfl)
  | release hd hphase => exact h.release hd hphase ((hok _ hd).1 hphase)
  | fail hd hphase | reject hd hphase =>
    exact h.leave hd rfl rfl (Nat.le_add_right _ _)
  | insert hd hphase hid =>
    refine h.leave hd rfl rfl ?_
    rw [hphase]
    exact (countValues_insert hid Owner.isOutbound).le
  | proceed hd hphase next hnext =>
    exact h.of_dial hd
      (by rw [beq_false_of_ne (DialPhase.ne_of_settled hphase rfl),
        beq_false_of_ne (DialPhase.ne_of_settled hnext rfl)])
      (by rw [DialPhase.holdsSlot_of_settled hphase, DialPhase.holdsSlot_of_settled hnext])
  | @remove d dial b hd hphase =>
    have hle := (beginRemoval_established s dial.id).1
    show Room m (s.beginRemoval dial.id).established
      (inPhase _ ((s.beginRemoval dial.id).dials.set d _))
      (inPhase _ ((s.beginRemoval dial.id).dials.set d _)) (s.beginRemoval dial.id).pump
    rw [beginRemoval_pump, beginRemoval_dials]
    exact h.leave hd rfl rfl (hle.trans (Nat.le_add_right _ _))
  | unmark | unmarked | decrement => exact hroom
  | close =>
    apply closeConn_cases (P := fun t => Room m t.established t.registering t.holding t.pump)
    · exact hroom
    · intro d dial _ hd
      exact h.of_dial hd rfl rfl

theorem step_limited {a : Action ι} (h : Limited m s) (hok : s.Ordered a)
    (hstep : step m s a = some t) : Limited m t where
  inFlight := step_inFlight h.inFlight hstep
  apart := step_apart h.apart hok hstep
  counted := step_counted h.apart h.counted hstep
  room := step_room h hok hstep

theorem start_limited (hm : 0 ≤ m) : Limited m (start : Outbound ι) where
  inFlight := start_inFlight
  apart := ⟨fun _ hid => (nomatch hid), Each.nil⟩
  counted := le_rfl
  room := hm

/-- In ordered runs the entries of `clients` that the backend has dialed stay within the limit. -/
theorem limit_kept (hm : 0 ≤ m) {actions : List (Action ι)}
    (hordered : Along (step m) Ordered start actions)
    (hrun : run (step m) start actions = some s) : s.established ≤ m := by
  have h : Limited m s :=
    invariant_along (fun _ _ _ h hok hstep => step_limited h hok hstep) (start_limited hm)
      hordered hrun
  exact h.room.established_le

/-- The second request is refused while the first connection is up, and allowed after it. -/
def twoInTurn : List (Action ℕ) :=
  connect 0 ++ dialThrough 0 ++ [.request 1, .loadInFlight] ++
    [.disconnect 0, .removal 0, .removal 0, .resume] ++ connect 1 ++ dialThrough 1

theorem limit_kept_two :
    ∃ s, run (step 1) start twoInTurn = some s ∧ s.established = 1 ∧ (s.established : ℤ) ≤ 1 := by
  have hend : ∃ s, run (step 1) start twoInTurn = some s ∧ s.established = 1 :=
    exists_run_of_any (by decide +kernel)
  obtain ⟨s, hrun, hone⟩ := hend
  exact ⟨s, hrun, hone, limit_kept (by decide) (by decide +kernel) hrun⟩

/-- The second check runs while the first connection has left `inFlightDials` and is not yet in
`outboundConnCount`. -/
theorem limit_exceeded :
    ∃ s, run (step 1) start
        (connect 0 ++ [.dial 0 true, .dial 0 true] ++ connect 1 ++
          [.dial 0 true, .dial 1 true, .dial 1 true, .dial 1 true] : List (Action ℕ)) = some s ∧
      s.established = 2 :=
  exists_run_of_any (by decide +kernel)

end NexusProxy.Hub.Outbound
