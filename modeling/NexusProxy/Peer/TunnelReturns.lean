import NexusProxy.Peer.TunnelClose

/-! Every call that closes an inbound UDP tunnel returns, and leaves the id in neither map: what
the goroutines keep true together, and that some goroutine can always move. -/
namespace NexusProxy.Peer.TunnelClose
open Calls Collections Transition

/-! ### All goroutines -/

/-- The function that the `Once` runs, as far as it has come. -/
def Body (sh : Shared) : List Instr → Prop
  | .onClose :: .endOnce :: _ => sh.clients = false ∨ sh.tunnels = false
  | .removeClient :: .endOnce :: _ => sh.clients = false ∧ sh.tunnels = false
  | .endOnce :: _ => sh.tunnels = false
  | _ => False

/-- The stacks of the drain goroutine: its loop, the end of its loop, or a failed write. -/
def drainStacks : List (List Instr) :=
  [[.removeClient, .endOnce, .exit], [.drain], [.exit], [], [.closeQuit, .connClose, .exit],
    [.connClose, .exit], [.onClose, .endOnce, .exit], [.endOnce, .exit]]

def closesConn (i : Instr) : Bool := i == .connClose || i == .onClose

def begins (i : Instr) : Bool :=
  takesClient i || i == .rangeClients || i == .closeTunnel || i == .loadTunnel

/-- What holds of a registered tunnel. -/
structure Sound (entered : Bool) (s : System Shared Instr) : Prop where
  disciplined : Each (Disciplined s.shared) s.goroutines
  body : ∀ g, s.shared.once = .running g →
    ∃ stack, s.goroutines[g]? = some stack ∧ Body s.shared stack
  finished : s.shared.once = .finished → s.shared.tunnels = false
  drainer : ∃ stack ∈ drainStacks, s.goroutines[0]? = some stack ∧
    (stack = [] → s.shared.done = true)
  /-- Whoever takes the id out of one map sees to the other. -/
  tunnelGone : s.shared.tunnels = false →
    s.shared.clients = false ∨ Pending takesClient s.goroutines
  clientGone : s.shared.clients = false →
    s.shared.tunnels = false ∨ Pending closesConn s.goroutines
  begun : entered = true →
    s.shared.clients = false ∨ s.shared.tunnels = false ∨ Pending begins s.goroutines

section Step
variable {entered : Bool} {s : System Shared Instr} {g : ℕ} {i : Instr} {rest pushed : List Instr}
  {sh sh' : Shared}

theorem Body.closing {stack : List Instr} (h : Body sh stack) (hclosing : Closing sh sh') :
    Body sh' stack := by
  unfold Body at h ⊢
  split at h
  · exact h.imp hclosing.clients hclosing.tunnels
  · exact ⟨hclosing.clients h.1, hclosing.tunnels h.2⟩
  · exact hclosing.tunnels h
  · cases h

theorem Body.self (h : Body sh (i :: rest)) (he : Effect g sh i sh' pushed)
    (hi : i ≠ .endOnce) : Body sh' (pushed ++ rest) := by
  unfold Body at h
  split at h
  · next hstack =>
    cases hstack
    cases he with
    | onCloseHeld htunnels =>
      refine ⟨?_, rfl⟩
      rcases h with hclients | hgone
      · exact hclients
      · rw [htunnels] at hgone
        cases hgone
    | onCloseGone htunnels => exact htunnels
  · next hstack =>
    cases hstack
    cases he with
    | removeHeld hclients =>
      rw [h.1] at hclients
      cases hclients
    | removeGone => exact h.2
  · next hstack =>
    cases hstack
    exact absurd rfl hi
  · cases h

theorem Sound.body_step (hs : Sound entered s) (hstack : s.goroutines[g]? = some (i :: rest))
    (he : Effect g s.shared i sh' pushed) (r : ℕ) (hrunning : sh'.once = .running r) :
    ∃ stack, (s.goroutines.set g (pushed ++ rest))[r]? = some stack ∧ Body sh' stack := by
  have hlt : g < s.goroutines.length := (List.getElem?_eq_some_iff.mp hstack).1
  have hd := hs.disciplined g _ hstack
  rcases he.once with ⟨hsame, -, hi⟩ | ⟨rfl, hfresh, hnow, rfl⟩ | ⟨-, hfinished, -⟩
  · rw [hsame] at hrunning
    obtain ⟨stack, hr, hbody⟩ := hs.body r hrunning
    by_cases hrg : r = g
    · subst hrg
      cases hr.symm.trans hstack
      exact ⟨_, List.getElem?_set_self hlt, hbody.self he hi⟩
    · refine ⟨stack, ?_, hbody.closing he.closing⟩
      rw [List.getElem?_set_ne (Ne.symm hrg)]
      exact hr
  · obtain rfl : g = r := OnceState.running.inj (hnow.symm.trans hrunning)
    refine ⟨_, List.getElem?_set_self hlt, ?_⟩
    -- the connection is being closed, so one of the maps has lost the id
    show sh'.clients = false ∨ sh'.tunnels = false
    cases he
    by_contra hboth
    simp only [not_or, Bool.not_eq_false] at hboth
    rcases hd.covered hboth.1 hboth.2 with htakes | hother
    · cases htakes
    · cases hother.1
  · rw [hfinished] at hrunning
    cases hrunning

theorem Sound.finished_step (hs : Sound entered s) (hstack : s.goroutines[g]? = some (i :: rest))
    (he : Effect g s.shared i sh' pushed) (hfinished : sh'.once = .finished) :
    sh'.tunnels = false := by
  apply he.closing.tunnels
  rcases he.once with ⟨hsame, -, -⟩ | ⟨-, -, hrunning, -⟩ | ⟨rfl, -, -⟩
  · exact hs.finished (hsame.symm.trans hfinished)
  · rw [hrunning] at hfinished
    cases hfinished
  · have hrunning := (hs.disciplined g _ hstack).once List.mem_cons_self
    obtain ⟨stack, hg, hbody⟩ := hs.body g hrunning
    cases hg.symm.trans hstack
    exact hbody

theorem drainStacks_step (hstack : i :: rest ∈ drainStacks) (he : Effect g sh i sh' pushed)
    (hclients : i = .removeClient → sh.clients = false) :
    pushed ++ rest ∈ drainStacks ∧ (pushed ++ rest = [] → sh'.done = true) := by
  simp only [drainStacks, List.mem_cons, List.cons.injEq, List.not_mem_nil, or_false,
    reduceCtorEq, false_or] at hstack
  rcases hstack with ⟨rfl, rfl⟩ | hstack
  · cases he with
    | removeHeld hheld =>
      rw [hclients rfl] at hheld
      cases hheld
    | removeGone => simp [drainStacks]
  · rcases hstack with ⟨rfl, rfl⟩ | ⟨rfl, rfl⟩ | ⟨rfl, rfl⟩ | ⟨rfl, rfl⟩ | ⟨rfl, rfl⟩ | ⟨rfl, rfl⟩
    all_goals
      cases he
      all_goals simp [drainStacks]

theorem Sound.drainer_step (hs : Sound entered s) (hstack : s.goroutines[g]? = some (i :: rest))
    (he : Effect g s.shared i sh' pushed) :
    ∃ stack ∈ drainStacks, (s.goroutines.set g (pushed ++ rest))[0]? = some stack ∧
      (stack = [] → sh'.done = true) := by
  obtain ⟨stack, hmem, hdrain, hdone⟩ := hs.drainer
  have hlt : g < s.goroutines.length := (List.getElem?_eq_some_iff.mp hstack).1
  by_cases hg : g = 0
  · subst hg
    cases hdrain.symm.trans hstack
    have hclients : i = .removeClient → s.shared.clients = false := by
      rintro rfl
      -- the drain calls it from the function of the `Once` only
      have hin : .endOnce ∈ Instr.removeClient :: rest := by
        simp only [drainStacks, List.mem_cons, List.cons.injEq, List.not_mem_nil, or_false,
          reduceCtorEq, false_and, true_and] at hmem
        rw [hmem]
        simp
      have hd := hs.disciplined 0 _ hstack
      obtain ⟨stack, hzero, hbody⟩ := hs.body 0 (hd.once hin)
      cases hzero.symm.trans hstack
      unfold Body at hbody
      split at hbody
      · next hcons => cases hcons
      · exact hbody.1
      · next hcons => cases hcons
      · cases hbody
    obtain ⟨hnext, hdone⟩ := drainStacks_step hmem he hclients
    exact ⟨_, hnext, List.getElem?_set_self hlt, hdone⟩
  · refine ⟨stack, hmem, ?_, fun hnil => ?_⟩
    · rw [List.getElem?_set_ne hg]
      exact hdrain
    · exact he.done (hdone hnil)

theorem Sound.tunnelGone_step (hs : Sound entered s)
    (hstack : s.goroutines[g]? = some (i :: rest)) (he : Effect g s.shared i sh' pushed)
    (hgone : sh'.tunnels = false) :
    sh'.clients = false ∨ Pending takesClient (s.goroutines.set g (pushed ++ rest)) := by
  cases hbefore : s.shared.tunnels with
  | false =>
    rcases hs.tunnelGone hbefore with hclients | hpending
    · exact Or.inl (he.closing.clients hclients)
    · rcases hpending.step hstack pushed with htakes | hpending
      · exact Or.inl (he.takes htakes)
      · exact Or.inr hpending
  | true =>
    rcases he.tunnel_left hbefore hgone with hpushed | rfl
    · exact Or.inr (Pending.of_set hstack
        ⟨.removeClient, List.mem_append_left rest hpushed, rfl⟩)
    · left
      apply he.closing.clients
      by_contra hheld
      rcases (hs.disciplined g _ hstack).listed (Bool.eq_true_of_not_eq_false hheld) with
        htakes | hother
      · cases htakes
      · cases hother.1

theorem Sound.clientGone_step (hs : Sound entered s)
    (hstack : s.goroutines[g]? = some (i :: rest)) (he : Effect g s.shared i sh' pushed)
    (hgone : sh'.clients = false) :
    sh'.tunnels = false ∨ Pending closesConn (s.goroutines.set g (pushed ++ rest)) := by
  cases hbefore : s.shared.clients with
  | false =>
    rcases hs.clientGone hbefore with htunnels | hpending
    · exact Or.inl (he.closing.tunnels htunnels)
    · rcases hpending.step hstack pushed with hcloses | hpending
      · cases he with
        | enterOnce => exact Or.inr (Pending.of_set hstack ⟨.onClose, by simp, rfl⟩)
        | skipOnce hfinished => exact Or.inl (hs.finished hfinished)
        | onCloseHeld => exact Or.inl rfl
        | onCloseGone htunnels => exact Or.inl htunnels
        | _ => cases hcloses
      · exact Or.inr hpending
  | true =>
    rcases he.client_left hbefore hgone with ⟨-, rfl⟩ | rfl
    · exact Or.inr (Pending.of_set hstack ⟨.connClose, by simp [bufferedClose], rfl⟩)
    · have hrest := (hs.disciplined g _ hstack).delete List.mem_cons_self
      cases hrest
      exact Or.inr (Pending.of_set hstack ⟨.connClose, by simp [bufferedClose], rfl⟩)

theorem Sound.begun_step (hs : Sound entered s) (hstack : s.goroutines[g]? = some (i :: rest))
    (he : Effect g s.shared i sh' pushed) (hentered : entered = true) :
    sh'.clients = false ∨ sh'.tunnels = false ∨
      Pending begins (s.goroutines.set g (pushed ++ rest)) := by
  rcases hs.begun hentered with hclients | htunnels | hpending
  · exact Or.inl (he.closing.clients hclients)
  · exact Or.inr (Or.inl (he.closing.tunnels htunnels))
  · rcases hpending.step hstack pushed with hbegins | hpending
    · cases he with
      | removeHeld | deleteClient => exact Or.inl rfl
      | removeGone hclients | rangeGone hclients => exact Or.inl hclients
      | rangeHeld =>
        exact Or.inr (Or.inr (Pending.of_set hstack ⟨.deleteClient, by simp, rfl⟩))
      | closeHeld => exact Or.inr (Or.inl rfl)
      | closeGone htunnels | loadGone htunnels => exact Or.inr (Or.inl htunnels)
      | loadHeld => exact Or.inr (Or.inr (Pending.of_set hstack ⟨.removeClient, by simp, rfl⟩))
      | _ => cases hbegins
    · exact Or.inr (Or.inr hpending)

theorem Sound.call {t : System Shared Instr} (hs : Sound entered s)
    (hstep : Calls.step exec s g = some t) : Sound entered t := by
  obtain ⟨i, rest, sh', pushed, hstack, hexec, rfl⟩ := step_eq_some hstep
  have he := exec_effect hexec
  have hd := hs.disciplined g _ hstack
  exact {
    disciplined := by
      refine hs.disciplined.set (hd.self he) ?_
      intro h stack hne _ hother
      refine hother.other he.closing ?_
      intro hrunning
      rcases he.once with ⟨hsame, -, -⟩ | ⟨-, hfresh, -, -⟩ | ⟨rfl, -, -⟩
      · exact hsame.trans hrunning
      · rw [hfresh] at hrunning
        cases hrunning
      · rw [hd.once List.mem_cons_self] at hrunning
        exact absurd (OnceState.running.inj hrunning).symm hne
    body := hs.body_step hstack he
    finished := hs.finished_step hstack he
    drainer := hs.drainer_step hstack he
    tunnelGone := hs.tunnelGone_step hstack he
    clientGone := hs.clientGone_step hstack he
    begun := hs.begun_step hstack he }

end Step

theorem program_disciplined (e : Entry) (sh : Shared) (g : ℕ) : Disciplined sh g e.program := by
  cases e
  all_goals
    constructor
    all_goals simp [Entry.program, Preceded, takesClient]

theorem Sound.enter {entered : Bool} {s : System Shared Instr} (hs : Sound entered s) (e : Entry) :
    Sound true (spawn s e.program) := by
  obtain ⟨drain, hmem, hdrain, hdone⟩ := hs.drainer
  have hold {g : ℕ} {stack : List Instr} (hg : s.goroutines[g]? = some stack) :
      (s.goroutines ++ [e.program])[g]? = some stack := by
    rw [List.getElem?_append_left (List.getElem?_eq_some_iff.mp hg).1]
    exact hg
  exact {
    disciplined := hs.disciplined.concat (program_disciplined e s.shared _)
      fun _ _ _ hother => hother
    body := by
      intro g hrunning
      obtain ⟨stack, hg, hbody⟩ := hs.body g hrunning
      exact ⟨stack, hold hg, hbody⟩
    finished := hs.finished
    drainer := ⟨drain, hmem, hold hdrain, hdone⟩
    tunnelGone := fun hgone => (hs.tunnelGone hgone).imp_right fun hpending => hpending.concat
    clientGone := fun hgone => (hs.clientGone hgone).imp_right fun hpending => hpending.concat
    begun := by
      intro _
      right
      right
      refine Any.last ?_
      cases e with
      | _ => simp [Entry.program, begins, takesClient] }

theorem Sound.drainFails {entered : Bool} {s : System Shared Instr} (hs : Sound entered s)
    (hdrain : s.goroutines[0]? = some [.drain])
    (hclosing : s.shared.clients = false ∨ s.shared.tunnels = false) :
    Sound true { s with goroutines := s.goroutines.set 0 [.closeQuit, .connClose, .exit] } := by
  have hlt : 0 < s.goroutines.length := (List.getElem?_eq_some_iff.mp hdrain).1
  have hpending {k : Instr → Bool} (hk : k .drain = false) (h : Pending k s.goroutines) :
      Pending k (s.goroutines.set 0 [.closeQuit, .connClose, .exit]) := by
    rcases h.step hdrain [.closeQuit, .connClose, .exit] with hkdrain | hpending
    · rw [hk] at hkdrain
      cases hkdrain
    · exact hpending
  exact {
    disciplined := by
      refine hs.disciplined.set ?_ fun _ _ _ _ hother => hother
      exact {
        covered := by
          intro hclients htunnels
          rcases hclosing with hgone | hgone
          · rw [hgone] at hclients
            cases hclients
          · rw [hgone] at htunnels
            cases htunnels
        listed := fun _ => preceded_of_forall (by decide)
        signalled := fun _ => Or.inl rfl
        once := by simp
        nested := by decide
        range := by simp
        delete := by simp
        drain := fun hne => absurd rfl hne }
    body := by
      intro g hrunning
      obtain ⟨stack, hg, hbody⟩ := hs.body g hrunning
      have hne : g ≠ 0 := by
        rintro rfl
        cases hg.symm.trans hdrain
        cases hbody
      refine ⟨stack, ?_, hbody⟩
      show (s.goroutines.set 0 _)[g]? = _
      rw [List.getElem?_set_ne (Ne.symm hne)]
      exact hg
    finished := hs.finished
    drainer := ⟨_, by simp [drainStacks], List.getElem?_set_self hlt, by simp⟩
    tunnelGone := fun hgone => (hs.tunnelGone hgone).imp_right (hpending rfl)
    clientGone := fun hgone => (hs.clientGone hgone).imp_right (hpending rfl)
    begun := fun _ => hclosing.imp_right Or.inl }

/-! ### Runs -/

/-- The tunnel is registered and sound, or nothing has happened yet. -/
def Reached (s : Tunnel) : Prop := s = start ∨ s.registering = false ∧ Sound s.entered s.toSystem

theorem registered_sound :
    Sound false ⟨{ start.shared with tunnels := true }, start.goroutines⟩ where
  disciplined := by
    refine Each.concat (l := []) Each.nil ?_ fun _ _ _ hother => hother
    exact {
      covered := fun _ _ => preceded_of_forall (by decide)
      listed := fun _ => preceded_of_forall (by decide)
      signalled := fun _ => preceded_of_forall (by decide)
      once := by decide
      nested := by decide
      range := by decide
      delete := by decide
      drain := fun hne => absurd rfl hne }
  body := fun _ hrunning => (nomatch hrunning)
  finished := fun hfinished => (nomatch hfinished)
  drainer := ⟨[.drain], by simp [drainStacks], rfl, by simp⟩
  tunnelGone := fun hgone => (nomatch hgone)
  clientGone := fun hgone => (nomatch hgone)
  begun := fun hentered => (nomatch hentered)

theorem start_call (g : ℕ) : Calls.step exec start.toSystem g = none := by
  cases g with
  | zero => rfl
  | succ g => rfl

theorem step_reached {s t : Tunnel} {a : Action} (hs : Reached s) (hok : Safe s a)
    (hstep : step s a = some t) : Reached t := by
  rcases hs with rfl | ⟨hregistered, hs⟩
  · cases a with
    | store =>
      cases hstep
      exact Or.inr ⟨rfl, registered_sound⟩
    | enter e => cases hok
    | drainFails => cases hok.1
    | call g =>
      rw [step, start_call] at hstep
      cases hstep
  · right
    cases a with
    | store =>
      rw [step, hregistered] at hstep
      cases hstep
    | enter e =>
      cases hstep
      exact ⟨hregistered, hs.enter e⟩
    | drainFails =>
      rw [step] at hstep
      split_ifs at hstep with hdrain
      cases hstep
      exact ⟨hregistered, hs.drainFails hdrain hok.2⟩
    | call g =>
      obtain ⟨next, hcall, rfl⟩ := Option.map_eq_some_iff.mp hstep
      exact ⟨hregistered, hs.call hcall⟩

/-- Every call has returned; the drain has ended or is in its loop. -/
def Returned (s : System Shared Instr) : Prop :=
  Each (fun g stack => stack = [] ∨ g = 0 ∧ stack = [.drain]) s.goroutines

section Progress
variable {entered : Bool} {s : System Shared Instr}

theorem blocked_cases {g : ℕ} {sh : Shared} {i : Instr} (h : exec g sh i = none) :
    (∃ r, sh.once = .running r) ∨ i = .awaitDone ∧ sh.done = false ∨
      i = .drain ∧ sh.quit = false := by
  cases i with
  | connClose =>
    rw [exec] at h
    split at h
    · cases h
    · next r hrunning => exact Or.inl ⟨r, hrunning⟩
    · cases h
  | awaitDone =>
    rw [exec] at h
    split_ifs at h with hdone
    exact Or.inr (Or.inl ⟨rfl, Bool.eq_false_of_not_eq_true hdone⟩)
  | drain =>
    rw [exec] at h
    split_ifs at h with hquit
    exact Or.inr (Or.inr ⟨rfl, Bool.eq_false_of_not_eq_true hquit⟩)
  | removeClient | onClose | closeTunnel =>
    rw [exec] at h
    split_ifs at h
  | _ => cases h

/-- The function of the `Once` can always go on. -/
theorem Sound.not_running (hs : Sound entered s) (hstuck : Stuck exec s) (g : ℕ) :
    s.shared.once ≠ .running g := by
  intro hrunning
  obtain ⟨stack, hg, hbody⟩ := hs.body g hrunning
  unfold Body at hbody
  split at hbody
  · have hblocked := hstuck.blocked hg
    rw [exec] at hblocked
    split_ifs at hblocked
  · have hblocked := hstuck.blocked hg
    rw [exec] at hblocked
    split_ifs at hblocked
  · cases hstuck.blocked hg
  · cases hbody

theorem Sound.drain_stuck (hs : Sound entered s) (hstuck : Stuck exec s) :
    s.goroutines[0]? = some [] ∧ s.shared.done = true ∨
      s.goroutines[0]? = some [.drain] ∧ s.shared.quit = false := by
  obtain ⟨stack, hmem, hdrain, hdone⟩ := hs.drainer
  cases stack with
  | nil => exact Or.inl ⟨hdrain, hdone rfl⟩
  | cons i rest =>
    rcases blocked_cases (hstuck.blocked hdrain) with ⟨r, hrunning⟩ | ⟨rfl, -⟩ | ⟨rfl, hquit⟩
    · exact absurd hrunning (hs.not_running hstuck r)
    · simp [drainStacks] at hmem
    · obtain rfl : rest = [] := by simpa [drainStacks] using hmem
      exact Or.inr ⟨hdrain, hquit⟩

/-- When nobody can move, nobody is left in a call. -/
theorem Sound.returned (hs : Sound entered s) (hstuck : Stuck exec s) : Returned s := by
  intro g stack hg
  cases stack with
  | nil => exact Or.inl rfl
  | cons i rest =>
    have hd := hs.disciplined g _ hg
    rcases blocked_cases (hstuck.blocked hg) with ⟨r, hrunning⟩ | ⟨rfl, hdone⟩ | ⟨rfl, -⟩
    · exact absurd hrunning (hs.not_running hstuck r)
    · -- `quit` is closed, so the drain is about to close `done`
      rcases hs.drain_stuck hstuck with ⟨-, hclosed⟩ | ⟨-, hquit⟩
      · rw [hdone] at hclosed
        cases hclosed
      · rcases hd.signalled hquit with hsignal | hother
        · cases hsignal
        · cases hother.1
    · obtain rfl : g = 0 := by
        by_contra hne
        exact (hd.drain hne).1 List.mem_cons_self
      rcases hs.drain_stuck hstuck with ⟨hnil, -⟩ | ⟨hloop, -⟩
      · cases hnil.symm.trans hg
      · exact Or.inr ⟨rfl, Option.some.inj (hg.symm.trans hloop)⟩

theorem Returned.not_pending (h : Returned s) {k : Instr → Bool} (hk : k .drain = false) :
    ¬Pending k s.goroutines := by
  apply not_pending_of_nil
  intro stack hstack i hi
  obtain ⟨g, hg⟩ := List.mem_iff_getElem?.mp hstack
  rcases h g stack hg with rfl | ⟨-, rfl⟩
  · cases hi
  · rw [List.mem_singleton.mp hi]
    exact hk

/-- Once all calls have returned, the id has left both maps or neither. -/
theorem Sound.removed (hs : Sound true s) (hreturned : Returned s) :
    s.shared.clients = false ∧ s.shared.tunnels = false := by
  have htunnels : s.shared.clients = false → s.shared.tunnels = false := fun hgone =>
    (hs.clientGone hgone).resolve_right (hreturned.not_pending rfl)
  have hclients : s.shared.tunnels = false → s.shared.clients = false := fun hgone =>
    (hs.tunnelGone hgone).resolve_right (hreturned.not_pending rfl)
  rcases hs.begun rfl with hgone | hgone | hpending
  · exact ⟨hgone, htunnels hgone⟩
  · exact ⟨hclients hgone, hgone⟩
  · exact absurd hpending (hreturned.not_pending rfl)

end Progress

def remaining (s : System Shared Instr) : ℕ := potential s.shared + totalWeight cost s.goroutines

theorem run_reached {s : Tunnel} {actions : List Action} (hsafe : Along step Safe start actions)
    (hrun : run step start actions = some s) : Reached s :=
  invariant_along (fun _ _ _ h hok hstep => step_reached h hok hstep) (Or.inl rfl) hsafe hrun

theorem Reached.settled {s : Tunnel} (hs : Reached s) {calls : List ℕ} {t : System Shared Instr}
    (hcalls : run (Calls.step exec) s.toSystem calls = some t) (hstuck : Stuck exec t) :
    Returned t ∧ (s.entered = true → t.shared.clients = false ∧ t.shared.tunnels = false) := by
  rcases hs with rfl | ⟨-, hs⟩
  · cases calls with
    | nil =>
      cases hcalls
      refine ⟨?_, fun hentered => (nomatch hentered)⟩
      exact Each.concat (l := []) Each.nil (Or.inr ⟨rfl, rfl⟩) fun _ _ _ hother => hother
    | cons g rest =>
      rw [run_cons, start_call] at hcalls
      cases hcalls
  · have ht : Sound s.entered t := invariant_run (fun _ _ _ h hstep => h.call hstep) hs hcalls
    have hreturned := ht.returned hstuck
    refine ⟨hreturned, ?_⟩
    intro hentered
    rw [hentered] at ht
    exact ht.removed hreturned

/-- In safe runs the calls in progress return, in whatever order they take their steps: there is
a bound on the steps, they can be taken to an end, and at every end all calls have returned and a
tunnel that anybody has begun to close is in neither map. -/
theorem close_returns {s : Tunnel} {actions : List Action} (hsafe : Along step Safe start actions)
    (hrun : run step start actions = some s) {calls : List ℕ} {t : System Shared Instr}
    (hcalls : run (Calls.step exec) s.toSystem calls = some t) :
    calls.length ≤ remaining s.toSystem ∧
      (∃ more u, run (Calls.step exec) t more = some u ∧ Stuck exec u) ∧
      (Stuck exec t → Returned t ∧
        (s.entered = true → t.shared.clients = false ∧ t.shared.tunnels = false)) := by
  refine ⟨?_, exists_stuck exec_cost t, ?_⟩
  · have hlength := run_length_le exec_cost hcalls
    unfold remaining
    omega
  · exact (run_reached hsafe hrun).settled hcalls

/-- The backend and the peer close the tunnel at the same time. -/
def bothSides : List Action := [.store, .enter .eventDisconnect, .enter .tunnelClose]

theorem close_returns_both :
    ∃ s t, run step start bothSides = some s ∧
      run (Calls.step exec) s.toSystem [1, 2, 1, 1, 1, 2, 1, 1, 2, 0, 0, 1] = some t ∧
      Returned t ∧ t.shared.clients = false ∧ t.shared.tunnels = false := by
  have hends : ∃ s t, run step start bothSides = some s ∧ s.entered = true ∧
      run (Calls.step exec) s.toSystem [1, 2, 1, 1, 1, 2, 1, 1, 2, 0, 0, 1] = some t ∧
      t.goroutines = [[], [], []] := ⟨_, _, rfl, rfl, rfl, rfl⟩
  obtain ⟨s, t, hrun, hentered, hcalls, hempty⟩ := hends
  have hstuck : Stuck exec t := by
    intro g
    unfold Calls.step
    rw [hempty]
    rcases g with _ | _ | _ | g
    all_goals rfl
  obtain ⟨hreturned, hgone⟩ := (close_returns (by decide) hrun hcalls).2.2 hstuck
  exact ⟨s, t, hrun, hcalls, hreturned, hgone hentered⟩

/-- The drain's write fails: the connection closes the client, which closes the connection in the
function of its own `Once`. -/
theorem drain_blocks_itself :
    ∃ s, run step start
        [.store, .drainFails, .call 0, .call 0, .call 0, .call 0, .call 0, .call 0] = some s ∧
      s.goroutines = [[.connClose, .awaitDone, .endOnce, .exit]] ∧
      s.shared.once = .running 0 ∧ Stuck exec s.toSystem := by
  refine ⟨_, rfl, rfl, rfl, ?_⟩
  intro g
  cases g with
  | zero => rfl
  | succ g => rfl

end NexusProxy.Peer.TunnelClose
