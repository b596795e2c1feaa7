import NexusProxy.Hub.OutboundSlots

/-! What is left of an outbound request after the backend has sent `EventDisconnect` for it. -/
namespace NexusProxy.Hub

namespace DialPhase

def handedOver (p : DialPhase) : Bool := p.uncounted || p.settled

/-- `outboundIDs` does not have the id yet, and may still get it. -/
def pending : DialPhase → Bool
  | .dialing | .ended _ | .registering | .inserted => true
  | _ => false

theorem pending_of_settled {p : DialPhase} (h : p.settled = true) : p.pending = false := by
  cases p with
  | registered | resulted | reading | removing | finished => rfl
  | _ => cases h

theorem handedOver_of_settled {p : DialPhase} (h : p.settled = true) : p.handedOver = true := by
  unfold handedOver
  rw [h, Bool.or_true]

end DialPhase

namespace Outbound
set_option linter.unusedSectionVars false
open Collections Transition

variable {ι : Type*} [DecidableEq ι] {m : ℤ} {s t : Outbound ι}

/-! ### Open connections -/

/-- Somebody will close the connection: it is in `clients`, or its removal is not finished. -/
def Kept (s : Outbound ι) (d : ℕ) (id : ι) : Prop :=
  s.clients.lookup id = some (.outbound d) ∨
    Any (fun rem => rem.id = id ∧ rem.owner = .outbound d ∧ rem.phase ≠ .finished) s.removals

/-- The connection of a dial that failed is not open, and an open connection that has been in
`clients` is kept. -/
def Watched (s : Outbound ι) (d : ℕ) (dial : Dial ι) : Prop :=
  (dial.phase = .ended false → dial.connOpen = false) ∧
    (dial.connOpen = true → dial.phase.handedOver = true → s.Kept d dial.id)

def ConnsWatched (s : Outbound ι) : Prop := Each s.Watched s.dials

theorem ConnsWatched.of_kept (h : s.ConnsWatched) (hdials : t.dials = s.dials)
    (hkept : ∀ d id, s.Kept d id → t.Kept d id) : t.ConnsWatched := by
  unfold ConnsWatched
  rw [hdials]
  intro d dial hd
  have hold := h d dial hd
  exact ⟨hold.1, fun hopen hphase => hkept d dial.id (hold.2 hopen hphase)⟩

theorem ConnsWatched.dial (h : s.ConnsWatched) {d : ℕ} {next : Dial ι}
    (hdials : t.dials = s.dials.set d next) (hclients : t.clients = s.clients)
    (hremovals : t.removals = s.removals) (hnext : s.Watched d next) : t.ConnsWatched := by
  have hset : Each s.Watched (s.dials.set d next) := Each.set h hnext fun _ _ _ _ hold => hold
  unfold ConnsWatched
  rw [hdials]
  intro e dial he
  have hold := hset e dial he
  refine ⟨hold.1, ?_⟩
  unfold Kept
  rw [hclients, hremovals]
  exact hold.2

theorem Watched.move {d : ℕ} {dial : Dial ι} (h : s.Watched d dial)
    (hphase : dial.phase.handedOver = true) {next : DialPhase} (hnext : next ≠ .ended false) :
    s.Watched d { dial with phase := next } :=
  ⟨fun heq => absurd heq hnext, fun hopen _ => h.2 hopen hphase⟩

theorem ConnsWatched.beginRemoval (h : s.ConnsWatched) (id : ι) :
    (s.beginRemoval id).ConnsWatched := by
  apply h.of_kept (beginRemoval_dials s id)
  apply beginRemoval_cases (P := fun t => ∀ d k, s.Kept d k → t.Kept d k)
  · intro _ d k hk
    exact hk
  · intro owner howner
    rintro d k (hclient | hremoval)
    · by_cases hne : k = id
      · subst hne
        rw [hclient] at howner
        cases howner
        exact Or.inr (Any.last ⟨rfl, rfl, by simp⟩)
      · exact Or.inl ((AList.lookup_erase_ne hne).trans hclient)
    · exact Or.inr hremoval.concat

theorem Kept.insert {d : ℕ} {id k : ι} {owner : Owner} (h : s.Kept d k) (hid : id ∉ s.clients) :
    Kept { s with clients := s.clients.insert id owner } d k := by
  refine h.imp_left fun hclient => ?_
  have hne : k ≠ id := by
    rintro rfl
    apply hid
    rw [← AList.lookup_isSome, hclient]
    rfl
  exact (AList.lookup_insert_ne hne).trans hclient

theorem ConnsWatched.register (h : s.ConnsWatched) {d : ℕ} {dial : Dial ι}
    (hid : dial.id ∉ s.clients) :
    ConnsWatched { s with
      clients := s.clients.insert dial.id (.outbound d)
      dials := s.dials.set d { dial with phase := .inserted } } := by
  have hinsert : ConnsWatched { s with clients := s.clients.insert dial.id (.outbound d) } :=
    h.of_kept rfl fun _ _ hold => hold.insert hid
  exact hinsert.dial rfl rfl rfl
    ⟨fun heq => (nomatch heq), fun _ _ => Or.inl (AList.lookup_insert _)⟩

theorem ConnsWatched.removing (h : s.ConnsWatched) {r : ℕ} {rem : Removal ι}
    (hr : s.removals[r]? = some rem) {next : RemovalPhase} (hnext : next ≠ .finished) :
    ConnsWatched { s with removals := s.removals.set r { rem with phase := next } } := by
  refine h.of_kept rfl ?_
  intro d id hold
  refine hold.imp_right fun hremoval => hremoval.set hr ?_ fun _ hother => hother
  rintro ⟨hid, howner, -⟩
  exact ⟨hid, howner, hnext⟩

theorem closeConn_frame (s : Outbound ι) (owner : Owner) :
    (s.closeConn owner).clients = s.clients ∧ (s.closeConn owner).removals = s.removals :=
  closeConn_cases (P := fun t => t.clients = s.clients ∧ t.removals = s.removals) s owner
    ⟨rfl, rfl⟩ fun _ _ _ _ => ⟨rfl, rfl⟩

theorem closeConn_dial {owner : Owner} {d : ℕ} {dial : Dial ι}
    (hd : (s.closeConn owner).dials[d]? = some dial) :
    (∃ old, s.dials[d]? = some old ∧ (dial = old ∨ dial = { old with connOpen := false })) ∧
      (owner = .outbound d → dial.connOpen = false) := by
  cases owner with
  | inbound => exact ⟨⟨dial, hd, Or.inl rfl⟩, fun heq => (nomatch heq)⟩
  | outbound e =>
    rw [closeConn] at hd
    split at hd
    · next hnone =>
      refine ⟨⟨dial, hd, Or.inl rfl⟩, ?_⟩
      intro heq
      cases heq
      rw [hnone] at hd
      cases hd
    · next old hold =>
      by_cases hne : d = e
      · subst hne
        have hlt : d < s.dials.length := (List.getElem?_eq_some_iff.mp hold).1
        change (s.dials.set d _)[d]? = _ at hd
        rw [List.getElem?_set_self hlt] at hd
        cases hd
        exact ⟨⟨old, hold, Or.inr rfl⟩, fun _ => rfl⟩
      · change (s.dials.set e _)[d]? = _ at hd
        rw [List.getElem?_set_ne (Ne.symm hne)] at hd
        refine ⟨⟨dial, hd, Or.inl rfl⟩, ?_⟩
        intro heq
        cases heq
        exact absurd rfl hne

theorem ConnsWatched.close (h : s.ConnsWatched) {r : ℕ} {rem : Removal ι}
    (hr : s.removals[r]? = some rem) :
    ({ s with removals := s.removals.set r { rem with phase := .finished } }.closeConn
      rem.owner).ConnsWatched := by
  intro d dial hd
  obtain ⟨⟨old, hold, hsame⟩, hclosed⟩ := closeConn_dial hd
  obtain ⟨hfailed, hkept⟩ := h d old hold
  constructor
  · rcases hsame with rfl | rfl
    · exact hfailed
    · exact fun _ => rfl
  · intro hopen hphase
    -- its own removal would have closed it
    have howner : rem.owner ≠ .outbound d := by
      intro heq
      rw [hclosed heq] at hopen
      cases hopen
    have hbefore : s.Kept d dial.id := by
      rcases hsame with rfl | rfl
      · exact hkept hopen hphase
      · cases hopen
    unfold Kept
    rw [(closeConn_frame _ _).1, (closeConn_frame _ _).2]
    refine hbefore.imp_right fun hremoval => hremoval.set hr ?_ fun _ hother => hother
    rintro ⟨-, heq, -⟩
    exact absurd heq howner

theorem step_connsWatched {a : Action ι} (h : s.ConnsWatched) (hstep : step m s a = some t) :
    t.ConnsWatched := by
  cases step_effect hstep with
  | request | unlimited | refuse | pass | resume => exact h.of_kept rfl fun _ _ hold => hold
  | reserve =>
    refine Each.concat h ?_ fun _ _ _ hold => hold
    exact ⟨fun heq => (nomatch heq), fun hopen => (nomatch hopen)⟩
  | disconnect => exact (h.beginRemoval _).of_kept rfl fun _ _ hold => hold
  | addClient hfresh => exact h.of_kept rfl fun _ _ hold => hold.insert hfresh.1
  | removeClient => exact h.beginRemoval _
  | dialEnds =>
    refine h.dial rfl rfl rfl ⟨?_, fun _ hphase => (nomatch hphase)⟩
    intro heq
    exact DialPhase.ended.inj heq
  | release | reject =>
    exact h.dial rfl rfl rfl ⟨fun heq => (nomatch heq), fun _ hphase => (nomatch hphase)⟩
  | fail hd hphase =>
    have hclosed := (h _ _ hd).1 hphase
    refine h.dial rfl rfl rfl ⟨fun heq => (nomatch heq), ?_⟩
    intro hopen
    rw [hclosed] at hopen
    cases hopen
  | insert _ _ hid => exact h.register hid
  | discard =>
    exact h.dial rfl rfl rfl ⟨fun heq => (nomatch heq), fun hopen => (nomatch hopen)⟩
  | store hd hphase | count hd hphase =>
    exact h.dial rfl rfl rfl ((h _ _ hd).move (by rw [hphase]; rfl) (by simp))
  | proceed hd hphase next hnext =>
    exact h.dial rfl rfl rfl ((h _ _ hd).move (DialPhase.handedOver_of_settled hphase)
      (DialPhase.ne_of_settled hnext rfl))
  | @remove d dial _ hd hphase =>
    have hremoval := h.beginRemoval dial.id
    have hwatched := hremoval d dial (dial_of_beginRemoval hd _)
    exact hremoval.dial rfl rfl rfl (hwatched.move (by rw [hphase]; rfl) (by simp))
  | unmark hr => exact (h.removing hr (by simp)).of_kept rfl fun _ _ hold => hold
  | unmarked hr => exact h.removing hr (by simp)
  | decrement hr => exact (h.removing hr (by simp)).of_kept rfl fun _ _ hold => hold
  | close hr => exact h.close hr

/-! ### Cancelled requests -/

/-- A disconnected id is not in `clients`, and no dial will put it there. -/
structure Gone (s : Outbound ι) : Prop where
  clients : ∀ id ∈ s.disconnected, id ∉ s.clients
  dials : Each (fun _ dial => dial.id ∈ s.disconnected → dial.phase.pending = false) s.dials

/-- A careful run, in which `EventDisconnect` for an id is processed only after the dials for it
have put it into `outboundIDs` or have ended. -/
def Timely (s : Outbound ι) : Action ι → Prop
  | .disconnect id => ∀ dial ∈ s.dials, dial.id = id → dial.phase.pending = false
  | a => s.Careful a

instance (s : Outbound ι) : ∀ a, Decidable (s.Timely a)
  | .disconnect id => inferInstanceAs (Decidable
      (∀ dial ∈ s.dials, dial.id = id → dial.phase.pending = false))
  | .request id => inferInstanceAs (Decidable (s.Careful (.request id)))
  | .loadInFlight => inferInstanceAs (Decidable (s.Careful .loadInFlight))
  | .reserve => inferInstanceAs (Decidable (s.Careful .reserve))
  | .resume => inferInstanceAs (Decidable (s.Careful .resume))
  | .addClient id => inferInstanceAs (Decidable (s.Careful (.addClient id)))
  | .removeClient id => inferInstanceAs (Decidable (s.Careful (.removeClient id)))
  | .dial d b => inferInstanceAs (Decidable (s.Careful (.dial d b)))
  | .removal r => inferInstanceAs (Decidable (s.Careful (.removal r)))

theorem Timely.careful {a : Action ι} (h : s.Timely a) : s.Careful a := by
  cases a with
  | disconnect id =>
    intro dial hdial hid hphase
    have hpending := h dial hdial hid
    rw [hphase] at hpending
    cases hpending
  | _ => exact h

theorem Gone.of_same (h : s.Gone) (hclients : ∀ id ∈ t.clients, id ∈ s.clients)
    (hdials : t.dials = s.dials) (hdisconnected : t.disconnected = s.disconnected) : t.Gone := by
  constructor
  · rw [hdisconnected]
    intro id hid hclient
    exact h.clients id hid (hclients id hclient)
  · rw [hdials, hdisconnected]
    exact h.dials

theorem Gone.dial (h : s.Gone) {d : ℕ} {dial next : Dial ι} (hd : s.dials[d]? = some dial)
    (hdials : t.dials = s.dials.set d next) (hclients : t.clients = s.clients)
    (hdisconnected : t.disconnected = s.disconnected) (hid : next.id = dial.id)
    (hnext : next.phase.pending = true → dial.phase.pending = true) : t.Gone := by
  constructor
  · rw [hdisconnected, hclients]
    exact h.clients
  · rw [hdials, hdisconnected]
    refine h.dials.set ?_ fun _ _ _ _ hold => hold
    intro hmem
    rw [hid] at hmem
    have hold := h.dials d dial hd hmem
    cases hpending : next.phase.pending with
    | false => rfl
    | true =>
      rw [hnext hpending] at hold
      cases hold

theorem beginRemoval_clients {id k : ι} (hk : k ∈ (s.beginRemoval id).clients) :
    k ≠ id ∧ k ∈ s.clients := by
  revert hk
  apply beginRemoval_cases (P := fun t => k ∈ t.clients → k ≠ id ∧ k ∈ s.clients)
  · intro hnone hk
    refine ⟨?_, hk⟩
    rintro rfl
    exact AList.lookup_eq_none.mp hnone hk
  · intro _ _ hk
    exact AList.mem_erase.mp hk

theorem beginRemoval_disconnected (s : Outbound ι) (id : ι) :
    (s.beginRemoval id).disconnected = s.disconnected :=
  beginRemoval_cases (P := fun t => t.disconnected = s.disconnected) s id (fun _ => rfl)
    fun _ _ => rfl

theorem Gone.beginRemoval (h : s.Gone) (id : ι) : (s.beginRemoval id).Gone :=
  h.of_same (fun _ hk => (beginRemoval_clients hk).2) (beginRemoval_dials s id)
    (beginRemoval_disconnected s id)

theorem Gone.disconnect (h : s.Gone) {id : ι} (pump : Pump ι)
    (hid : ∀ dial ∈ s.dials, dial.id = id → dial.phase.pending = false) :
    Gone { s.beginRemoval id with pump, disconnected := insert id s.disconnected } := by
  constructor
  · intro k hk hclient
    obtain ⟨hne, hclient⟩ := beginRemoval_clients hclient
    rcases Finset.mem_insert.mp hk with heq | hk
    · exact hne heq
    · exact h.clients k hk hclient
  · show Each _ (s.beginRemoval id).dials
    rw [beginRemoval_dials]
    intro d dial hd hmem
    rcases Finset.mem_insert.mp hmem with heq | hmem
    · exact hid dial (List.mem_of_getElem? hd) heq
    · exact h.dials d dial hd hmem

theorem Gone.reserve (h : s.Gone) (id : ι) :
    Gone { s with
      inFlightDials := s.inFlightDials + 1
      pump := .ready
      dials := s.dials ++ [⟨id, .dialing, false⟩]
      disconnected := s.disconnected.erase id } := by
  constructor
  · intro k hk
    exact h.clients k (Finset.mem_of_mem_erase hk)
  · refine h.dials.concat ?_ ?_
    · intro hmem
      exact absurd rfl (Finset.mem_erase.mp hmem).1
    · intro d dial _ hold hmem
      exact hold (Finset.mem_of_mem_erase hmem)

theorem Gone.register (h : s.Gone) {d : ℕ} {dial : Dial ι} (hd : s.dials[d]? = some dial)
    (hphase : dial.phase = .registering) :
    Gone { s with
      clients := s.clients.insert dial.id (.outbound d)
      dials := s.dials.set d { dial with phase := .inserted } } := by
  -- the goroutine is pending, so the backend has not disconnected the id
  have hwanted : dial.id ∉ s.disconnected := by
    intro hmem
    have hpending := h.dials d dial hd hmem
    rw [hphase] at hpending
    cases hpending
  constructor
  · intro k hk hclient
    rcases (AList.mem_insert _).mp hclient with rfl | hclient
    · exact hwanted hk
    · exact h.clients k hk hclient
  · exact h.dials.set (fun hmem => absurd hmem hwanted) fun _ _ _ _ hold => hold

theorem Gone.addClient (h : s.Gone) {id : ι} (hfresh : s.Fresh id) :
    Gone { s with clients := s.clients.insert id .inbound } := by
  refine ⟨?_, h.dials⟩
  intro k hk hclient
  rcases (AList.mem_insert _).mp hclient with rfl | hclient
  · exact hfresh.2.2.1 hk
  · exact h.clients k hk hclient

theorem step_gone {a : Action ι} (h : s.Gone) (hok : s.Timely a)
    (hstep : step m s a = some t) : t.Gone := by
  cases step_effect hstep with
  | request | unlimited | refuse | pass | resume | unmark | unmarked | decrement =>
    exact h.of_same (fun _ hid => hid) rfl rfl
  | reserve => exact h.reserve _
  | disconnect _ pump => exact h.disconnect pump hok
  | addClient hfresh => exact h.addClient hfresh
  | removeClient => exact h.beginRemoval _
  | dialEnds hd hphase | release hd hphase | fail hd hphase | reject hd hphase
  | discard hd hphase | store hd hphase | count hd hphase =>
    exact h.dial hd rfl rfl rfl rfl (by simp [hphase, DialPhase.pending])
  | insert hd hphase => exact h.register hd hphase
  | proceed hd _ next hnext =>
    exact h.dial hd rfl rfl rfl rfl (by simp [DialPhase.pending_of_settled hnext])
  | remove hd =>
    exact (h.beginRemoval _).dial (dial_of_beginRemoval hd _) rfl rfl rfl rfl
      (by simp [DialPhase.pending])
  | close =>
    apply closeConn_cases
    · exact h.of_same (fun _ hid => hid) rfl rfl
    · intro d dial _ hd
      exact h.dial hd rfl rfl rfl rfl id

/-- What holds along timely runs. -/
structure Cancellable (s : Outbound ι) : Prop where
  accounted : s.Accounted
  watched : s.ConnsWatched
  gone : s.Gone

theorem step_cancellable {a : Action ι} (h : s.Cancellable) (hok : s.Timely a)
    (hstep : step m s a = some t) : t.Cancellable where
  accounted := step_accounted h.accounted hok.careful hstep
  watched := step_connsWatched h.watched hstep
  gone := step_gone h.gone hok hstep

theorem start_cancellable : (start : Outbound ι).Cancellable where
  accounted := start_accounted
  watched := Each.nil
  gone := ⟨fun _ hid => (nomatch hid), Each.nil⟩

/-- In timely runs, once the dials for a disconnected id have registered or ended and its removal
is over, nothing of it is left. -/
theorem cancelled_leaves_nothing {actions : List (Action ι)}
    (htimely : Along (step m) Timely start actions)
    (hrun : run (step m) start actions = some s) {id : ι} (hid : id ∈ s.disconnected)
    (hdials : ∀ dial ∈ s.dials, dial.id = id → dial.phase.settled = true)
    (hremovals : ∀ rem ∈ s.removals, rem.id = id → rem.phase = .finished) :
    id ∉ s.clients ∧ id ∉ s.outboundIDs ∧
      ∀ dial ∈ s.dials, dial.id = id → dial.connOpen = false := by
  have h : s.Cancellable :=
    invariant_along (fun _ _ _ h hok hstep => step_cancellable h hok hstep) start_cancellable
      htimely hrun
  have hclients := h.gone.clients id hid
  refine ⟨hclients, ?_, ?_⟩
  · intro hmem
    rcases h.accounted.tracked id hmem with hclient | ⟨rem, hrem, hremid, hdeleted⟩
    · exact hclients hclient
    · rw [hremovals rem hrem hremid] at hdeleted
      cases hdeleted
  · intro dial hdial hdialid
    obtain ⟨d, hd⟩ := List.mem_iff_getElem?.mp hdial
    have hsettled := hdials dial hdial hdialid
    by_contra hopen
    have hkept := (h.watched d dial hd).2 (Bool.not_eq_false _ ▸ hopen)
      (DialPhase.handedOver_of_settled hsettled)
    rw [hdialid] at hkept
    rcases hkept with hclient | ⟨rem, hrem, hremid, -, hunfinished⟩
    · apply hclients
      rw [← AList.lookup_isSome, hclient]
      rfl
    · exact hunfinished (hremovals rem hrem hremid)

/-- The backend disconnects an established connection; its reader ends after it. -/
def disconnectEstablished : List (Action ℕ) :=
  connect 0 ++ dialThrough 0 ++ [.dial 0 true, .dial 0 true, .disconnect 0, .removal 0,
    .removal 0, .resume, .removal 0, .dial 0 true, .dial 0 true]

theorem cancelled_leaves_nothing_established :
    ∃ s, run (step 1) start disconnectEstablished = some s ∧ 0 ∈ s.disconnected ∧
      (0 ∉ s.clients ∧ 0 ∉ s.outboundIDs ∧
        ∀ dial ∈ s.dials, dial.id = 0 → dial.connOpen = false) := by
  have hend : ∃ s, run (step 1) start disconnectEstablished = some s ∧ 0 ∈ s.disconnected ∧
      (∀ dial ∈ s.dials, dial.id = 0 → dial.phase.settled = true) ∧
      ∀ rem ∈ s.removals, rem.id = 0 → rem.phase = .finished :=
    exists_run_of_any (by decide +kernel)
  obtain ⟨s, hrun, hid, hdials, hremovals⟩ := hend
  exact ⟨s, hrun, hid, cancelled_leaves_nothing (by decide +kernel) hrun hid hdials hremovals⟩

/-- `EventDisconnect` arrives while the dial is running, and finds nothing to remove. -/
theorem cancelled_during_dial :
    ∃ s, run (step 1) start
        (connect 0 ++ [.disconnect 0] ++ dialThrough 0 : List (Action ℕ)) = some s ∧
      0 ∈ s.disconnected ∧ (∀ dial ∈ s.dials, dial.phase = .registered) ∧
      (∀ rem ∈ s.removals, rem.phase = .finished) ∧
      0 ∈ s.clients ∧ 0 ∈ s.outboundIDs ∧ ∃ dial ∈ s.dials, dial.id = 0 ∧ dial.connOpen = true :=
  exists_run_of_any (by decide +kernel)

end Outbound

end NexusProxy.Hub
