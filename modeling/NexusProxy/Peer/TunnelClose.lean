import NexusProxy.Lib.Calls

/-! Closing an inbound UDP tunnel. The connection closes the client, the client closes the buffered
connection, and that closes the connection again; the goroutines that start such a chain and the
drain goroutine of the buffered connection are stacks of nested calls. -/
namespace NexusProxy.Peer.TunnelClose
open Calls Collections Transition

/-- `tunneledUDPConn.closeOnce`. -/
inductive OnceState where
  | fresh
  | running (goroutine : ℕ)
  | finished
  deriving DecidableEq

/-- What the goroutines share: whether the backend's `clients` and the manager's `tunnels` hold
the id, and which channels of the `bufferedConn` are closed. -/
structure Shared where
  clients : Bool
  tunnels : Bool
  once : OnceState
  quit : Bool
  done : Bool
  deriving DecidableEq

inductive Instr where
  /-- `LoadAndDelete` on `clients`, in `RemoveClient` and for `EventDisconnect`. -/
  | removeClient
  /-- `Backend.Close` ranges over `clients`. -/
  | rangeClients
  | deleteClient
  | closeQuit
  /-- `StopWrites` waits for `done`, or for 50 ms. -/
  | awaitFlush
  /-- `tunneledUDPConn.Close`. -/
  | connClose
  | onClose
  | endOnce
  | awaitDone
  /-- `HandleTunnelClose`. -/
  | closeTunnel
  /-- `HandleTunnelData` for a datagram that the backend does not take. -/
  | loadTunnel
  | deleteTunnel
  /-- The loop of the drain goroutine. -/
  | drain
  /-- The deferred `close(bc.done)`. -/
  | exit
  deriving DecidableEq

def bufferedClose : List Instr := [.closeQuit, .awaitFlush, .connClose, .awaitDone]

/-- The instructions of goroutine `g`. A `Once` blocks every caller while its function runs, the
goroutine that runs it included. -/
def exec (g : ℕ) (sh : Shared) : Instr → Option (Shared × List Instr)
  | .removeClient =>
      if sh.clients then some ({ sh with clients := false }, bufferedClose) else some (sh, [])
  | .rangeClients => some (sh, if sh.clients then .deleteClient :: bufferedClose else [])
  | .deleteClient => some ({ sh with clients := false }, [])
  | .closeQuit => some ({ sh with quit := true }, [])
  | .awaitFlush => some (sh, [])
  | .connClose =>
      match sh.once with
      | .fresh => some ({ sh with once := .running g }, [.onClose, .endOnce])
      | .running _ => none
      | .finished => some (sh, [])
  | .onClose =>
      if sh.tunnels then some ({ sh with tunnels := false }, [.removeClient]) else some (sh, [])
  | .endOnce => some ({ sh with once := .finished }, [])
  | .awaitDone => if sh.done then some (sh, []) else none
  | .closeTunnel =>
      if sh.tunnels then some ({ sh with tunnels := false }, [.removeClient, .connClose])
      else some (sh, [])
  | .loadTunnel =>
      some (sh, if sh.tunnels then [.removeClient, .connClose, .deleteTunnel] else [])
  | .deleteTunnel => some ({ sh with tunnels := false }, [])
  | .drain => if sh.quit then some (sh, [.exit]) else none
  | .exit => some ({ sh with done := true }, [])

/-- The ways into the chain, apart from the drain's own. -/
inductive Entry where
  | eventDisconnect
  | removeClient
  | backendClose
  | tunnelClose
  | tunnelData
  deriving DecidableEq

def Entry.program : Entry → List Instr
  | .eventDisconnect | .removeClient => [.removeClient]
  | .backendClose => [.rangeClients]
  | .tunnelClose => [.closeTunnel]
  | .tunnelData => [.loadTunnel]

/-- A tunnel. Goroutine 0 is the drain; `entered` records that somebody has begun to close. -/
structure Tunnel extends System Shared Instr where
  registering : Bool
  entered : Bool

/-- `HandleTunnelRequest` between `AddClient` and the entry in `tunnels`. -/
def start : Tunnel where
  shared := ⟨true, false, .fresh, false, false⟩
  goroutines := [[.drain]]
  registering := true
  entered := false

inductive Action where
  /-- `HandleTunnelRequest` stores the tunnel. -/
  | store
  | enter (e : Entry)
  /-- The drain's write to the connection fails. -/
  | drainFails
  | call (g : ℕ)
  deriving DecidableEq

def step (s : Tunnel) : Action → Option Tunnel
  | .store =>
      if s.registering then
        some { s with shared := { s.shared with tunnels := true }, registering := false }
      else none
  | .enter e => some { s with toSystem := spawn s.toSystem e.program, entered := true }
  | .drainFails =>
      if s.goroutines[0]? = some [.drain] then
        some { s with
          goroutines := s.goroutines.set 0 [.closeQuit, .connClose, .exit]
          entered := true }
      else none
  | .call g => (Calls.step exec s.toSystem g).map fun next => { s with toSystem := next }

/-- Nobody begins to close a tunnel before it is registered, and the drain's write fails only
when the tunnel is already being closed. -/
def Safe (s : Tunnel) : Action → Prop
  | .enter _ => s.registering = false
  | .drainFails =>
      s.registering = false ∧ (s.shared.clients = false ∨ s.shared.tunnels = false)
  | _ => True

instance (s : Tunnel) : ∀ a, Decidable (Safe s a)
  | .enter _ => inferInstanceAs (Decidable (s.registering = false))
  | .drainFails => inferInstanceAs (Decidable
      (s.registering = false ∧ (s.shared.clients = false ∨ s.shared.tunnels = false)))
  | .store | .call _ => inferInstanceAs (Decidable True)

def takesClient (i : Instr) : Bool := i == .removeClient || i == .deleteClient

/-- What each instruction can do. -/
inductive Effect (g : ℕ) (sh : Shared) : Instr → Shared → List Instr → Prop
  | removeHeld (hclients : sh.clients = true) :
      Effect g sh .removeClient { sh with clients := false } bufferedClose
  | removeGone (hclients : sh.clients = false) : Effect g sh .removeClient sh []
  | rangeHeld (hclients : sh.clients = true) :
      Effect g sh .rangeClients sh (.deleteClient :: bufferedClose)
  | rangeGone (hclients : sh.clients = false) : Effect g sh .rangeClients sh []
  | deleteClient : Effect g sh .deleteClient { sh with clients := false } []
  | closeQuit : Effect g sh .closeQuit { sh with quit := true } []
  | awaitFlush : Effect g sh .awaitFlush sh []
  | enterOnce (honce : sh.once = .fresh) :
      Effect g sh .connClose { sh with once := .running g } [.onClose, .endOnce]
  | skipOnce (honce : sh.once = .finished) : Effect g sh .connClose sh []
  | onCloseHeld (htunnels : sh.tunnels = true) :
      Effect g sh .onClose { sh with tunnels := false } [.removeClient]
  | onCloseGone (htunnels : sh.tunnels = false) : Effect g sh .onClose sh []
  | endOnce : Effect g sh .endOnce { sh with once := .finished } []
  | awaitDone (hdone : sh.done = true) : Effect g sh .awaitDone sh []
  | closeHeld (htunnels : sh.tunnels = true) :
      Effect g sh .closeTunnel { sh with tunnels := false } [.removeClient, .connClose]
  | closeGone (htunnels : sh.tunnels = false) : Effect g sh .closeTunnel sh []
  | loadHeld (htunnels : sh.tunnels = true) :
      Effect g sh .loadTunnel sh [.removeClient, .connClose, .deleteTunnel]
  | loadGone (htunnels : sh.tunnels = false) : Effect g sh .loadTunnel sh []
  | deleteTunnel : Effect g sh .deleteTunnel { sh with tunnels := false } []
  | drain (hquit : sh.quit = true) : Effect g sh .drain sh [.exit]
  | exit : Effect g sh .exit { sh with done := true } []

section Effects
variable {g : ℕ} {sh sh' : Shared} {i : Instr} {pushed rest : List Instr}

theorem exec_effect (h : exec g sh i = some (sh', pushed)) : Effect g sh i sh' pushed := by
  cases i with
  | removeClient =>
    rw [exec] at h
    split_ifs at h with hclients
    · cases h
      exact .removeHeld hclients
    · cases h
      exact .removeGone (Bool.eq_false_of_not_eq_true hclients)
  | rangeClients =>
    cases h
    split_ifs with hclients
    · exact .rangeHeld hclients
    · exact .rangeGone (Bool.eq_false_of_not_eq_true hclients)
  | deleteClient =>
    cases h
    exact .deleteClient
  | closeQuit =>
    cases h
    exact .closeQuit
  | awaitFlush =>
    cases h
    exact .awaitFlush
  | connClose =>
    rw [exec] at h
    split at h
    · next honce =>
      cases h
      exact .enterOnce honce
    · cases h
    · next honce =>
      cases h
      exact .skipOnce honce
  | onClose =>
    rw [exec] at h
    split_ifs at h with htunnels
    · cases h
      exact .onCloseHeld htunnels
    · cases h
      exact .onCloseGone (Bool.eq_false_of_not_eq_true htunnels)
  | endOnce =>
    cases h
    exact .endOnce
  | awaitDone =>
    rw [exec] at h
    split_ifs at h with hdone
    cases h
    exact .awaitDone hdone
  | closeTunnel =>
    rw [exec] at h
    split_ifs at h with htunnels
    · cases h
      exact .closeHeld htunnels
    · cases h
      exact .closeGone (Bool.eq_false_of_not_eq_true htunnels)
  | loadTunnel =>
    cases h
    split_ifs with htunnels
    · exact .loadHeld htunnels
    · exact .loadGone (Bool.eq_false_of_not_eq_true htunnels)
  | deleteTunnel =>
    cases h
    exact .deleteTunnel
  | drain =>
    rw [exec] at h
    split_ifs at h with hquit
    cases h
    exact .drain hquit
  | exit =>
    cases h
    exact .exit

/-- Entries only leave the maps, and channels are only closed. -/
structure Closing (sh sh' : Shared) : Prop where
  clients : sh.clients = false → sh'.clients = false
  tunnels : sh.tunnels = false → sh'.tunnels = false
  quit : sh.quit = true → sh'.quit = true

theorem Effect.closing (h : Effect g sh i sh' pushed) : Closing sh sh' := by
  cases h with
  | removeHeld | deleteClient => exact ⟨fun _ => rfl, id, id⟩
  | onCloseHeld | closeHeld | deleteTunnel => exact ⟨id, fun _ => rfl, id⟩
  | closeQuit => exact ⟨id, id, fun _ => rfl⟩
  | _ => exact ⟨id, id, id⟩

theorem Effect.done (h : Effect g sh i sh' pushed) (hdone : sh.done = true) : sh'.done = true := by
  cases h with
  | exit => rfl
  | _ => exact hdone

theorem Effect.takes (h : Effect g sh i sh' pushed) (hi : takesClient i = true) :
    sh'.clients = false := by
  cases h with
  | removeHeld | deleteClient => rfl
  | removeGone hclients => exact hclients
  | _ => cases hi

theorem Effect.client_left (h : Effect g sh i sh' pushed) (hbefore : sh.clients = true)
    (hafter : sh'.clients = false) :
    i = .removeClient ∧ pushed = bufferedClose ∨ i = .deleteClient := by
  cases h with
  | removeHeld => exact Or.inl ⟨rfl, rfl⟩
  | deleteClient => exact Or.inr rfl
  | _ => cases hbefore.symm.trans hafter

theorem Effect.tunnel_left (h : Effect g sh i sh' pushed) (hbefore : sh.tunnels = true)
    (hafter : sh'.tunnels = false) : .removeClient ∈ pushed ∨ i = .deleteTunnel := by
  cases h with
  | onCloseHeld | closeHeld => exact Or.inl List.mem_cons_self
  | deleteTunnel => exact Or.inr rfl
  | _ => cases hbefore.symm.trans hafter

theorem Effect.once (h : Effect g sh i sh' pushed) :
    sh'.once = sh.once ∧ .endOnce ∉ pushed ∧ i ≠ .endOnce ∨
      i = .connClose ∧ sh.once = .fresh ∧ sh'.once = .running g ∧ pushed = [.onClose, .endOnce] ∨
      i = .endOnce ∧ sh'.once = .finished ∧ pushed = [] := by
  cases h with
  | enterOnce honce => exact Or.inr (Or.inl ⟨rfl, honce, rfl, rfl⟩)
  | endOnce => exact Or.inr (Or.inr ⟨rfl, rfl, rfl⟩)
  | _ => exact Or.inl ⟨rfl, by simp [bufferedClose], by simp⟩

end Effects

/-! ### Termination -/

def cost : Instr → ℕ
  | .rangeClients => 6
  | .loadTunnel => 4
  | .drain => 2
  | _ => 1

/-- The calls that the `Once` can still make. -/
def OnceState.calls : OnceState → ℕ
  | .fresh => 2
  | _ => 0

/-- The calls that the entries in the maps and the `Once` can still lead to. -/
def potential (sh : Shared) : ℕ :=
  4 * sh.clients.toNat + 2 * sh.tunnels.toNat + sh.once.calls

theorem exec_cost {g : ℕ} {sh sh' : Shared} {i : Instr} {pushed : List Instr}
    (h : exec g sh i = some (sh', pushed)) :
    potential sh' + weight cost pushed < potential sh + cost i := by
  unfold potential
  cases exec_effect h with
  | removeHeld hheld | onCloseHeld hheld | closeHeld hheld =>
    simp only [hheld, bufferedClose, weight_cons, weight_nil, cost, Bool.toNat_true,
      Bool.toNat_false]
    omega
  | enterOnce honce =>
    simp only [honce, OnceState.calls, weight_cons, weight_nil, cost]
    omega
  | endOnce =>
    simp only [weight_nil, cost, OnceState.calls]
    omega
  | rangeHeld | loadHeld | drain =>
    simp only [bufferedClose, weight_cons, weight_nil, cost]
    omega
  | _ =>
    simp only [weight_nil, cost, Bool.toNat_false]
    omega

/-! ### One goroutine -/

/-- What holds of the stack of goroutine `g`. -/
structure Disciplined (sh : Shared) (g : ℕ) (stack : List Instr) : Prop where
  /-- While both maps hold the id, the connection is closed only after the client is taken. -/
  covered : sh.clients = true → sh.tunnels = true →
    Preceded takesClient (· == .connClose) stack
  /-- While `clients` holds the id, so does `tunnels` until the client is taken. -/
  listed : sh.clients = true → Preceded takesClient (· == .deleteTunnel) stack
  /-- Nobody waits for `done` before `quit` is closed. -/
  signalled : sh.quit = false → Preceded (· == .closeQuit) (· == .awaitDone) stack
  once : .endOnce ∈ stack → sh.once = .running g
  nested : stack.count .endOnce ≤ 1
  range : .rangeClients ∈ stack → stack = [.rangeClients]
  delete : .deleteClient ∈ stack → stack = .deleteClient :: bufferedClose
  drain : g ≠ 0 → .drain ∉ stack ∧ .exit ∉ stack

section Disciplined
variable {g h : ℕ} {sh sh' : Shared} {i : Instr} {stack pushed rest : List Instr}

theorem covered_step (he : Effect g sh i sh' pushed)
    (hd : sh.clients = true → sh.tunnels = true →
      Preceded takesClient (· == .connClose) (i :: rest))
    (hclients : sh'.clients = true) (htunnels : sh'.tunnels = true) :
    Preceded takesClient (· == .connClose) (pushed ++ rest) := by
  cases he with
  | removeHeld | deleteClient => cases hclients
  | onCloseHeld | closeHeld | deleteTunnel => cases htunnels
  | rangeHeld | loadHeld => exact Or.inl rfl
  | enterOnce | skipOnce =>
    rcases hd hclients htunnels with htakes | hother
    · cases htakes
    · cases hother.1
  | drain => exact Or.inr ⟨rfl, (hd hclients htunnels).tail rfl⟩
  | removeGone hgone =>
    rw [hgone] at hclients
    cases hclients
  | _ => exact (hd hclients htunnels).tail rfl

theorem listed_step (he : Effect g sh i sh' pushed)
    (hd : sh.clients = true → Preceded takesClient (· == .deleteTunnel) (i :: rest))
    (hclients : sh'.clients = true) :
    Preceded takesClient (· == .deleteTunnel) (pushed ++ rest) := by
  cases he with
  | removeHeld | deleteClient => cases hclients
  | rangeHeld | onCloseHeld | closeHeld | loadHeld => exact Or.inl rfl
  | enterOnce => exact Or.inr ⟨rfl, Or.inr ⟨rfl, (hd hclients).tail rfl⟩⟩
  | deleteTunnel =>
    rcases hd hclients with htakes | hother
    · cases htakes
    · cases hother.1
  | drain => exact Or.inr ⟨rfl, (hd hclients).tail rfl⟩
  | removeGone hgone =>
    rw [hgone] at hclients
    cases hclients
  | _ => exact (hd hclients).tail rfl

theorem signalled_step (he : Effect g sh i sh' pushed)
    (hd : sh.quit = false → Preceded (· == .closeQuit) (· == .awaitDone) (i :: rest))
    (hquit : sh'.quit = false) :
    Preceded (· == .closeQuit) (· == .awaitDone) (pushed ++ rest) := by
  cases he with
  | removeHeld => exact Or.inl rfl
  | rangeHeld => exact Or.inr ⟨rfl, Or.inl rfl⟩
  | closeQuit => cases hquit
  | awaitDone =>
    rcases hd hquit with hsignal | hother
    · cases hsignal
    · cases hother.1
  | onCloseHeld | drain => exact Or.inr ⟨rfl, (hd hquit).tail rfl⟩
  | enterOnce | closeHeld => exact Or.inr ⟨rfl, Or.inr ⟨rfl, (hd hquit).tail rfl⟩⟩
  | loadHeld =>
    exact Or.inr ⟨rfl, Or.inr ⟨rfl, Or.inr ⟨rfl, (hd hquit).tail rfl⟩⟩⟩
  | _ => exact (hd hquit).tail rfl

theorem Disciplined.once_step (hd : Disciplined sh g (i :: rest))
    (he : Effect g sh i sh' pushed) :
    (.endOnce ∈ pushed ++ rest → sh'.once = .running g) ∧
      (pushed ++ rest).count .endOnce ≤ 1 := by
  have hrest : .endOnce ∈ rest → sh.once = .running g :=
    fun hmem => hd.once (List.mem_cons_of_mem i hmem)
  have hcount := hd.nested
  rw [List.count_cons] at hcount
  rcases he.once with ⟨hsame, hpushed, hi⟩ | ⟨rfl, hfresh, hrunning, rfl⟩ | ⟨rfl, -, rfl⟩
  · constructor
    · intro hmem
      rcases List.mem_append.mp hmem with hmem | hmem
      · exact absurd hmem hpushed
      · exact hsame.trans (hrest hmem)
    · rw [List.count_append, List.count_eq_zero.mpr hpushed]
      omega
  · have hnone : .endOnce ∉ rest := by
      intro hmem
      have hrunning := hrest hmem
      rw [hfresh] at hrunning
      cases hrunning
    refine ⟨fun _ => hrunning, ?_⟩
    rw [List.count_append, List.count_eq_zero.mpr hnone]
    decide
  · have hnone : rest.count .endOnce = 0 := by
      rw [if_pos (beq_self_eq_true _)] at hcount
      omega
    constructor
    · intro hmem
      exact absurd hmem (List.count_eq_zero.mp hnone)
    · rw [List.nil_append, hnone]
      exact Nat.zero_le 1

theorem Disciplined.range_step (hd : Disciplined sh g (i :: rest))
    (he : Effect g sh i sh' pushed) :
    (.rangeClients ∈ pushed ++ rest → pushed ++ rest = [.rangeClients]) ∧
      (.deleteClient ∈ pushed ++ rest → pushed ++ rest = .deleteClient :: bufferedClose) := by
  have hrange : .rangeClients ∉ rest := by
    intro hmem
    have hstack := hd.range (List.mem_cons_of_mem i hmem)
    cases hstack
    cases hmem
  have hdelete : .deleteClient ∉ rest := by
    intro hmem
    have hstack := hd.delete (List.mem_cons_of_mem i hmem)
    cases hstack
    simp [bufferedClose] at hmem
  cases he with
  | rangeHeld =>
    have hrest : rest = [] := by
      have hstack := hd.range List.mem_cons_self
      cases hstack
      rfl
    subst hrest
    exact ⟨by simp [bufferedClose], fun _ => rfl⟩
  | _ => simp [bufferedClose, hrange, hdelete]

theorem Disciplined.drain_step (hd : Disciplined sh g (i :: rest))
    (he : Effect g sh i sh' pushed) (hg : g ≠ 0) :
    .drain ∉ pushed ++ rest ∧ .exit ∉ pushed ++ rest := by
  obtain ⟨hdrain, hexit⟩ := hd.drain hg
  simp only [List.mem_cons, not_or] at hdrain hexit
  cases he with
  | drain => exact absurd rfl hdrain.1
  | _ => simp [bufferedClose, hdrain.2, hexit.2]

theorem Disciplined.self (hd : Disciplined sh g (i :: rest)) (he : Effect g sh i sh' pushed) :
    Disciplined sh' g (pushed ++ rest) where
  covered := covered_step he hd.covered
  listed := listed_step he hd.listed
  signalled := signalled_step he hd.signalled
  once := (hd.once_step he).1
  nested := (hd.once_step he).2
  range := (hd.range_step he).1
  delete := (hd.range_step he).2
  drain := hd.drain_step he

theorem Disciplined.other (hd : Disciplined sh h stack) (hclosing : Closing sh sh')
    (honce : sh.once = .running h → sh'.once = .running h) : Disciplined sh' h stack where
  covered := by
    intro hclients htunnels
    apply hd.covered
    · by_contra hgone
      rw [hclosing.clients (Bool.eq_false_of_not_eq_true hgone)] at hclients
      cases hclients
    · by_contra hgone
      rw [hclosing.tunnels (Bool.eq_false_of_not_eq_true hgone)] at htunnels
      cases htunnels
  listed := by
    intro hclients
    apply hd.listed
    by_contra hgone
    rw [hclosing.clients (Bool.eq_false_of_not_eq_true hgone)] at hclients
    cases hclients
  signalled := by
    intro hquit
    apply hd.signalled
    by_contra hclosed
    rw [hclosing.quit (Bool.eq_true_of_not_eq_false hclosed)] at hquit
    cases hquit
  once := fun hmem => honce (hd.once hmem)
  nested := hd.nested
  range := hd.range
  delete := hd.delete
  drain := hd.drain

end Disciplined

end NexusProxy.Peer.TunnelClose
