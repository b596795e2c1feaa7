import Mathlib.Data.List.Infix
import NexusProxy.Client.Wakeup

/-! Teardown of an active connection: the frames queued before the state was swapped reach
the WebSocket before the disconnect, and `drained` is closed once the queue is empty. -/
namespace NexusProxy.Client
open FixedWidth Threads Transition

variable {F : Type*}

/-- The frame that was taken from the queue and is being written. -/
def Drain.inHand : Drain F → List F
  | .write _ frame | .lateWrite frame => [frame]
  | _ => []

/-- The deferred function has seen `isClosing`. -/
def Drain.Late : Drain F → Prop
  | .lenQueue | .latePull | .lateWrite _ | .lateLen | .closeOnDrained => True
  | _ => False

def Drain.NoQueue : Drain F → Prop
  | .noQueue | .noQueueClosing => True
  | _ => False

def Teardown.Kickstarted : Teardown → Prop
  | .waitDrained | .cleanupQueue | .discard | .deleteConn | .sendDisconnect | .done => True
  | _ => False

instance (p : Teardown) : Decidable p.Kickstarted := by
  unfold Teardown.Kickstarted
  split <;> infer_instance

def Teardown.Waited : Teardown → Prop
  | .cleanupQueue | .discard | .deleteConn | .sendDisconnect | .done => True
  | _ => False

/-- The actions that move frames or take part in draining them. -/
def Action.MovesFrames : Action F → Prop
  | .push | .dataReady _ | .drain | .teardown => True
  | _ => False

namespace Conn

/-- Frames leave in the order in which they were queued, and `drained` is closed only after
those that were queued before the swap. -/
structure Ordered (s : Conn F) : Prop where
  cas : s.teardown ≠ .live → s.atCas ≤ s.pushed.length
  flow : s.queueDeleted = false → s.sent ++ s.drain.inHand ++ s.queue = s.pushed
  late : s.drained = true ∨ s.drain.Late → s.quit = true
  noQueue : s.drain.NoQueue → s.queueDeleted = true
  waited : s.teardown.Waited → s.drained = true
  flushed : s.drained = true ∨ s.drain = .closeOnDrained → s.pushed.take s.atCas <+: s.sent

section Ordered
variable {s t : Conn F}

theorem start_ordered (initial : ℤ) (outbound : Bool) :
    Ordered (start (F := F) initial outbound) where
  cas h := absurd rfl h
  flow _ := rfl
  late h := by simp [start, Drain.Late] at h
  noQueue h := absurd h id
  waited h := absurd h id
  flushed h := by simp [start] at h

theorem Ordered.deleted (ho : Ordered s) (hs : Typed s) (hd : s.queueDeleted = true) :
    s.drained = true := by
  have he := hs.effects
  have hw := ho.waited
  cases ht : s.teardown <;> simp_all [Teardown.effects, Teardown.Waited]

theorem Ordered.all_sent (ho : Ordered s) (hs : Typed s) (hhand : s.drain.inHand = [])
    (hq : s.queue = []) : s.pushed.take s.atCas <+: s.sent := by
  cases hd : s.queueDeleted with
  | true => exact ho.flushed (.inl (ho.deleted hs hd))
  | false =>
    have hflow := ho.flow hd
    rw [hhand, hq, List.append_nil, List.append_nil] at hflow
    rw [hflow]
    exact List.take_prefix _ _

theorem Ordered.of_drain {d : Drain F} (ho : Ordered s) (hhand : d.inHand = s.drain.inHand)
    (hlate : d.Late → s.quit = true) (hno : d.NoQueue → s.queueDeleted = true)
    (hclose : d = .closeOnDrained → s.pushed.take s.atCas <+: s.sent) :
    Ordered { s with drain := d } where
  cas := ho.cas
  flow hd := by
    change s.sent ++ d.inHand ++ s.queue = s.pushed
    rw [hhand]
    exact ho.flow hd
  late h := by
    rcases h with h | h
    · exact ho.late (.inl h)
    · exact hlate h
  noQueue := hno
  waited := ho.waited
  flushed h := by
    rcases h with h | h
    · exact ho.flushed (.inl h)
    · exact hclose h

theorem Ordered.setOp (ho : Ordered s) (u : Tid) (o : Op) : Ordered (s.setOp u o) :=
  ⟨ho.cas, ho.flow, ho.late, ho.noQueue, ho.waited, ho.flushed⟩

theorem Ordered.of_pull {d : Drain F} {frame : F} {rest : List F} (ho : Ordered s)
    (hq : s.queue = frame :: rest) (hold : s.drain.inHand = []) (hhand : d.inHand = [frame])
    (hlate : d.Late → s.quit = true) (hno : ¬d.NoQueue) (hclose : d ≠ .closeOnDrained) :
    Ordered { s with queue := rest, drain := d } where
  cas := ho.cas
  flow hd := by
    have hflow := ho.flow hd
    rw [hold, hq, List.append_nil] at hflow
    change s.sent ++ d.inHand ++ rest = s.pushed
    rw [hhand, List.append_assoc]
    exact hflow
  late h := by
    rcases h with h | h
    · exact ho.late (.inl h)
    · exact hlate h
  noQueue h := absurd h hno
  waited := ho.waited
  flushed h := by
    rcases h with h | h
    · exact ho.flushed (.inl h)
    · exact absurd h hclose

theorem Ordered.of_write {d : Drain F} {frame : F} (ho : Ordered s)
    (hold : s.drain.inHand = [frame]) (hhand : d.inHand = []) (hlate : d.Late → s.quit = true)
    (hno : ¬d.NoQueue) (hclose : d ≠ .closeOnDrained) :
    Ordered { s with sent := s.sent ++ [frame], drain := d } where
  cas := ho.cas
  flow hd := by
    have hflow := ho.flow hd
    rw [hold] at hflow
    change s.sent ++ [frame] ++ d.inHand ++ s.queue = s.pushed
    rw [hhand, List.append_nil]
    exact hflow
  late h := by
    rcases h with h | h
    · exact ho.late (.inl h)
    · exact hlate h
  noQueue h := absurd h hno
  waited := ho.waited
  flushed h := by
    rcases h with h | h
    · exact (ho.flushed (.inl h)).trans (List.prefix_append _ _)
    · exact absurd h hclose

theorem yield_ordered (ho : Ordered s) (hold : s.drain.inHand = []) : Ordered s.yield :=
  (ho.of_drain (d := .yielding) hold.symm (fun h => absurd h id) (fun h => absurd h id)
    (fun h => by cases h)).setOp _ _

theorem drainStep_ordered (ho : Ordered s) (hs : Typed s) (h : s.drainStep = some t) :
    Ordered t := by
  cases drainStep_effect h with
  | getQueue hd =>
    refine ho.of_drain ?_ ?_ ?_ ?_ <;> cases hdel : s.queueDeleted <;>
      simp [hd, Drain.inHand, Drain.Late, Drain.NoQueue]
  | noQueue hd =>
    have hdel := ho.noQueue (by simp [hd, Drain.NoQueue])
    refine ho.of_drain ?_ ?_ ?_ ?_ <;> cases s.connDeleted <;>
      simp [hd, hdel, Drain.inHand, Drain.Late, Drain.NoQueue]
  | noQueueClosing hd =>
    have hdel := ho.noQueue (by simp [hd, Drain.NoQueue])
    have hflushed := ho.flushed (.inl (ho.deleted hs hdel))
    refine ho.of_drain ?_ ?_ ?_ ?_ <;> cases hquit : s.quit <;>
      simp [hd, hflushed, Drain.inHand, Drain.Late, Drain.NoQueue]
  | loadConn hd =>
    refine ho.of_drain ?_ ?_ ?_ ?_ <;> cases s.connDeleted <;>
      simp [hd, Drain.inHand, Drain.Late, Drain.NoQueue]
  | loopDone hd | refused hd | released hd =>
    exact yield_ordered ho (by simp [hd, Drain.inHand])
  | acquire hd | acquired hd | empty hd | yielded hd =>
    exact (ho.of_drain (by simp [hd, Drain.inHand]) (by simp [Drain.Late])
      (by simp [Drain.NoQueue]) (by simp)).setOp _ _
  | pull hd hq =>
    exact ho.of_pull hq (by simp [hd, Drain.inHand]) rfl (by simp [Drain.Late])
      (by simp [Drain.NoQueue]) (by simp)
  | write hd =>
    exact ho.of_write (by simp [hd, Drain.inHand]) rfl (by simp [Drain.Late])
      (by simp [Drain.NoQueue]) (by simp)
  | isClosing hd =>
    refine ho.of_drain ?_ ?_ ?_ ?_ <;> cases hquit : s.quit <;>
      simp [hd, Drain.inHand, Drain.Late, Drain.NoQueue]
  | lenQueue hd =>
    have hquit := ho.late (.inr (by simp [hd, Drain.Late]))
    refine ho.of_drain ?_ (fun _ => hquit) ?_ ?_ <;> cases s.queue.isEmpty <;>
      simp [hd, Drain.inHand, Drain.NoQueue]
  | latePull hd hq =>
    have hquit := ho.late (.inr (by simp [hd, Drain.Late]))
    exact ho.of_pull hq (by simp [hd, Drain.inHand]) rfl (fun _ => hquit)
      (by simp [Drain.NoQueue]) (by simp)
  | lateEmpty hd hq =>
    have hquit := ho.late (.inr (by simp [hd, Drain.Late]))
    have hall := ho.all_sent hs (by simp [hd, Drain.inHand]) hq
    exact ho.of_drain (by simp [hd, Drain.inHand]) (fun _ => hquit)
      (by simp [Drain.NoQueue]) (fun _ => hall)
  | lateWrite hd =>
    exact ho.of_write (by simp [hd, Drain.inHand]) rfl
      (fun _ => ho.late (.inr (by simp [hd, Drain.Late]))) (by simp [Drain.NoQueue]) (by simp)
  | lateLen hd =>
    have hquit := ho.late (.inr (by simp [hd, Drain.Late]))
    have hall := ho.all_sent hs (by simp [hd, Drain.inHand])
    refine ho.of_drain ?_ (fun _ => hquit) ?_ ?_ <;> cases hq : s.queue.isEmpty <;>
      simp_all [Drain.inHand, Drain.NoQueue]
  | closeOnDrained hd =>
    have hflushed := ho.flushed (.inr hd)
    have hquit := ho.late (.inr (by simp [hd, Drain.Late]))
    refine ⟨ho.cas, fun hdel => ?_, fun _ => hquit, fun hno => absurd hno id, fun _ => rfl,
      fun _ => hflushed⟩
    have hflow := ho.flow hdel
    rw [hd] at hflow
    exact hflow

theorem push_ordered (ho : Ordered s) (hs : Typed s) (h : s.push = some t) : Ordered t := by
  obtain ⟨frame, -, rfl⟩ := push_eq_some h
  refine ⟨fun hne => ?_, fun hd => ?_, ho.late, ho.noQueue, ho.waited, fun hfl => ?_⟩
  · have hcas := ho.cas hne
    simp only [List.length_append]
    omega
  · simp only [← List.append_assoc, ho.flow hd]
  · have hquit : s.quit = true := by
      rcases hfl with hdr | hd
      · exact ho.late (.inl hdr)
      · exact ho.late (.inr (by rw [show s.drain = _ from hd]; trivial))
    have hlive : s.teardown ≠ .live := by
      intro hlive
      have he := hs.effects
      simp [hlive, Teardown.effects, hquit] at he
    rw [List.take_append_of_le_length (ho.cas hlive)]
    exact ho.flushed hfl

theorem teardownStep_ordered (ho : Ordered s) (hs : Typed s) (h : s.teardownStep = some t) :
    Ordered t := by
  have he := hs.effects
  cases teardownStep_effect h with
  | swap hd =>
    have hquit : s.quit = false := by simp_all [Teardown.effects]
    have hnot : ¬(s.drained = true ∨ s.drain.Late) := by
      intro hcon
      rw [ho.late hcon] at hquit
      cases hquit
    refine ⟨fun _ => le_rfl, ho.flow, ho.late, ho.noQueue, fun hw => absurd hw id, fun hfl => ?_⟩
    refine absurd (hfl.imp_right fun hc => ?_) hnot
    rw [show s.drain = _ from hc]
    trivial
  | safeClose hd =>
    exact ⟨fun _ => ho.cas (by simp [hd]), ho.flow, fun _ => rfl, ho.noQueue,
      fun hw => absurd hw id, ho.flushed⟩
  | kickstart hd | kickstarted hd =>
    exact ⟨fun _ => ho.cas (by simp [hd]), ho.flow, ho.late, ho.noQueue,
      fun hw => absurd hw id, ho.flushed⟩
  | waitDrained hd hdr =>
    exact ⟨fun _ => ho.cas (by simp [hd]), ho.flow, ho.late, ho.noQueue, fun _ => hdr,
      ho.flushed⟩
  | cleanupQueue hd =>
    have hwait := ho.waited (by simp [hd, Teardown.Waited])
    exact ⟨fun _ => ho.cas (by simp [hd]), (fun hno => by cases hno), ho.late, fun _ => rfl,
      fun _ => hwait, ho.flushed⟩
  | discard hd =>
    have hdel : s.queueDeleted = true := by simp_all [Teardown.effects]
    have hflow : ∀ queue, s.queueDeleted = false →
        s.sent ++ s.drain.inHand ++ queue = s.pushed := by simp [hdel]
    exact ⟨ho.cas, hflow _, ho.late, ho.noQueue, ho.waited, ho.flushed⟩
  | discarded hd | deleteConn hd | sendDisconnect hd =>
    have hwait := ho.waited (by simp [hd, Teardown.Waited])
    exact ⟨fun _ => ho.cas (by simp [hd]), ho.flow, ho.late, ho.noQueue, fun _ => hwait,
      ho.flushed⟩

theorem dataReady_ordered {m : ℕ} (ho : Ordered s) (h : s.dataReady m = some t) : Ordered t := by
  obtain ⟨hd, rfl⟩ := dataReady_eq_some h
  have hg := ho.of_drain (d := .getQueue m) (by simp [hd, Drain.inHand]) (fun hl => absurd hl id)
    (fun hn => absurd hn id) (fun hc => by cases hc)
  exact ⟨hg.cas, hg.flow, hg.late, hg.noQueue, hg.waited, hg.flushed⟩

theorem step_data {a : Action F} (ha : ¬a.MovesFrames) (h : s.step a = some t) :
    t.queue = s.queue ∧ t.sent = s.sent ∧ t.pushed = s.pushed ∧ t.drain = s.drain ∧
      t.drained = s.drained := by
  cases a with
  | access u =>
    obtain ⟨l, o, -, rfl⟩ := access_eq_some h
    exact ⟨rfl, rfl, rfl, rfl, rfl⟩
  | push => exact absurd trivial ha
  | dataReady m => exact absurd trivial ha
  | drain => exact absurd trivial ha
  | teardown => exact absurd trivial ha
  | _ =>
    simp only [step, enqueueData, loadConn, enqueued, resumeStream, handle, outboundResult,
      returned, fire, setOp] at h
    (repeat' split at h) <;> cases h <;> exact ⟨rfl, rfl, rfl, rfl, rfl⟩

theorem Ordered.of_data (ho : Ordered s) {a : Action F} (ha : ¬a.MovesFrames)
    (h : s.step a = some t) : Ordered t := by
  obtain ⟨hq, hsent, hpush, hdrain, hdrained⟩ := step_data ha h
  have hne : a ≠ .teardown := by
    rintro rfl
    exact ha trivial
  obtain ⟨htear, hdel, hquit, hcas, -⟩ := step_frame hne h
  constructor
  · rw [htear, hcas, hpush]
    exact ho.cas
  · rw [hdel, hsent, hdrain, hq, hpush]
    exact ho.flow
  · rw [hdrained, hdrain, hquit]
    exact ho.late
  · rw [hdrain, hdel]
    exact ho.noQueue
  · rw [htear, hdrained]
    exact ho.waited
  · rw [hdrained, hdrain, hpush, hcas, hsent]
    exact ho.flushed

theorem step_ordered {a : Action F} (ho : Ordered s) (hs : Typed s) (h : s.step a = some t) :
    Ordered t := by
  cases a with
  | push => exact push_ordered ho hs h
  | dataReady m => exact dataReady_ordered ho h
  | drain => exact drainStep_ordered ho hs h
  | teardown => exact teardownStep_ordered ho hs h
  | _ => exact ho.of_data id h

end Ordered

/-- `drained` is closed, or the drain is going to run again or has not finished. -/
def Pending (s : Conn F) : Prop :=
  s.drained = true ∨ s.queue ≠ [] ∨ 0 < s.ledger.wakeups ∨ At Op.Notifying s.op ∨ s.drain ≠ .idle

section Pending
variable {s t : Conn F}

theorem Pending.access {u : Tid} (hp : Pending s) (h : s.access u = some t) : Pending t := by
  obtain ⟨l, o, hstep, rfl⟩ := access_eq_some h
  obtain ⟨-, hnotify, hwakeups⟩ := (Op.step_access hstep).signaled
  rcases hp with hdr | hq | hpos | ⟨v, hv⟩ | hd
  · exact .inl hdr
  · exact .inr (.inl hq)
  · exact .inr (.inr (.inl (lt_of_lt_of_le hpos hwakeups)))
  · by_cases huv : v = u
    · subst huv
      rcases hnotify hv with hn | hpos
      · exact .inr (.inr (.inr (.inl (At.moved hn))))
      · exact .inr (.inr (.inl hpos))
    · exact .inr (.inr (.inr (.inl ⟨v, by simpa [Function.update_of_ne huv] using hv⟩)))
  · exact .inr (.inr (.inr (.inr hd)))

theorem Pending.outside (hp : Pending s) (ho : Outside s t)
    (hdr : s.drained = true → t.drained = true)
    (hq : s.queue ≠ [] → t.queue ≠ [] ∨ t.drained = true)
    (hd : s.drain ≠ .idle → t.drain ≠ .idle) : Pending t := by
  rcases hp with h | h | h | h | h
  · exact .inl (hdr h)
  · rcases hq h with h | h
    · exact .inr (.inl h)
    · exact .inl h
  · rcases ho.wakeups with hle | hb
    · exact .inr (.inr (.inl (by omega)))
    · refine .inr (.inr (.inr (.inr fun hidle => ?_)))
      rw [hidle] at hb
      exact hb
  · exact .inr (.inr (.inr (.inl (ho.at (fun _ => Op.Parked.not_notifying) h))))
  · exact .inr (.inr (.inr (.inr (hd h))))

/-- While the connection is closing, the drain stops only on a non-empty queue or after it
has closed `drained`. -/
theorem drainStep_pending (ho : Ordered s) (hs : Typed s) (hquit : s.quit = true)
    (h : s.drainStep = some t) : Pending t := by
  have hdel := ho.deleted hs
  cases drainStep_effect h with
  | noQueue hd => exact .inl (hdel (ho.noQueue (by simp [hd, Drain.NoQueue])))
  | loadConn =>
    cases hc : s.connDeleted with
    | true => exact .inl (hdel (hs.deleted hc))
    | false => simp [Pending]
  | closeOnDrained => exact .inl rfl
  | lenQueue | lateLen => cases s.queue <;> simp [Pending]
  | getQueue => cases s.queueDeleted <;> simp [Pending]
  | _ => simp [Pending, hquit, yield, setOp]

/-- A raised flag has something behind it that runs the drain again. -/
theorem Woken.pending (hw : Woken s) (hs : Typed s) (hd : s.queueDeleted = false)
    (hsig : s.ledger.signaled = true) : Pending s := by
  rcases hw hd hsig with hpos | hat | hy | hb
  · exact .inr (.inr (.inl hpos))
  · exact .inr (.inr (.inr (.inl hat)))
  · refine .inr (.inr (.inr (.inr fun hidle => ?_)))
    rw [hs.writePump (by simp [hidle, Drain.Calling])] at hy
    cases hy
  · refine .inr (.inr (.inr (.inr fun hidle => ?_)))
    rw [hidle] at hb
    exact hb

theorem push_pending (h : s.push = some t) : Pending t := by
  obtain ⟨frame, -, rfl⟩ := push_eq_some h
  exact .inr (.inl (by simp))

theorem dataReady_pending {m : ℕ} (h : s.dataReady m = some t) : Pending t := by
  obtain ⟨-, rfl⟩ := dataReady_eq_some h
  exact .inr (.inr (.inr (.inr (by simp))))

theorem teardownStep_pending (hp : Pending s) (ho : Ordered s) (hs : Typed s)
    (h : s.teardownStep = some t) : Pending t := by
  have hout := teardownStep_outside hs h
  cases teardownStep_effect h with
  | discard hd => exact .inl (ho.waited (by simp [hd, Teardown.Waited]))
  | _ => exact hp.outside hout id .inl id

theorem step_pending {a : Action F} (hp : Pending s) (ho : Ordered s) (hs : Typed s)
    (hquit : s.quit = true) (h : s.step a = some t) : Pending t := by
  by_cases ha : a.MovesFrames
  · cases a with
    | push => exact push_pending h
    | dataReady m => exact dataReady_pending h
    | drain => exact drainStep_pending ho hs hquit h
    | teardown => exact teardownStep_pending hp ho hs h
    | _ => exact absurd ha id
  · rcases step_cases hs h with ⟨u, rfl, hacc⟩ | hout
    · exact hp.access hacc
    · obtain ⟨hq, -, -, hdrain, hdrained⟩ := step_data ha h
      refine hp.outside hout (fun hdr => hdrained.trans hdr) (fun hne => .inl ?_) (fun hne => ?_)
      · rwa [hq]
      · rwa [hdrain]

end Pending

/-- The kickstart finds an open ledger and leaves a wakeup behind. -/
structure Kick (s : Conn F) : Prop where
  closer : ∀ t, (s.op t).Closes → t = .teardown
  fresh : s.teardown ∈ [.live, .safeClose, .kickstart] ∨ (s.op .teardown).Closes →
    s.ledger.closed = false
  kicking : s.teardown = .kickstarting → (s.op .teardown).Kicking ∨ Pending s
  kickstarted : s.teardown.Kickstarted → Pending s

section Kick
variable {s t : Conn F}

theorem start_kick (initial : ℤ) (outbound : Bool) : Kick (start (F := F) initial outbound) where
  closer _ h := absurd h id
  fresh _ := rfl
  kicking h := by cases h
  kickstarted h := absurd h id

theorem Typed.quit (hs : Typed s) (h : s.teardown = .kickstarting ∨ s.teardown.Kickstarted) :
    s.quit = true := by
  have he := hs.effects
  cases ht : s.teardown <;> simp_all [Teardown.effects, Teardown.Kickstarted]

theorem Kick.access {u : Tid} (hk : Kick s) (hs : Alert s) (h : s.access u = some t) :
    Kick t := by
  have hpend : Pending s → Pending t := fun hp => hp.access h
  obtain ⟨l, o, hstep, rfl⟩ := access_eq_some h
  obtain ⟨hcloses, hclosed⟩ := (Op.step_access hstep).closes
  -- A step that closes the ledger is the teardown's own, and leaves the closing points.
  have hkeep : s.ledger.closed = false → ¬((s.op u).Closes ∧ ¬o.Closes) → l.closed = false := by
    intro hc hnot
    by_contra hcon
    rcases hclosed (by simpa using hcon) with hold | hold
    · rw [hold] at hc
      cases hc
    · exact hnot hold
  refine ⟨fun v hv => ?_, fun hf => ?_, fun ht => ?_, fun ht => hpend (hk.kickstarted ht)⟩
  · by_cases hvu : v = u
    · subst hvu
      exact hk.closer v (hcloses (by simpa using hv))
    · exact hk.closer v (by simpa [Function.update_of_ne hvu] using hv)
  · rcases hf with hearly | hcl
    · refine hkeep (hk.fresh (.inl hearly)) fun hcon => ?_
      have htear : s.teardown ∈ [Teardown.live, .safeClose, .kickstart] := hearly
      have hidle := hs.sound.typed.teardown (by rintro hkick; simp [hkick] at htear)
      have hu := hcon.1
      rw [hk.closer u hu, hidle] at hu
      exact hu
    · by_cases hu : u = .teardown
      · subst hu
        have ho : o.Closes := by simpa using hcl
        exact hkeep (hk.fresh (.inr (hcloses ho))) fun hcon => hcon.2 ho
      · have hcl : (s.op .teardown).Closes := by
          simpa [Function.update_of_ne (Ne.symm hu)] using hcl
        exact hkeep (hk.fresh (.inr hcl)) fun hcon => hu (hk.closer u hcon.1)
  · have ht : s.teardown = .kickstarting := ht
    rcases hk.kicking ht with hkick | hp
    · by_cases hu : u = .teardown
      · subst hu
        have hdel : s.queueDeleted = false := by
          have he := hs.sound.typed.effects
          simp_all [Teardown.effects]
        rcases (Op.step_access hstep).kicking (fun hc => hk.fresh (.inr hc)) hkick with
          hkick' | hn | ⟨-, hsig, -⟩
        · exact .inl (by simpa using hkick')
        · exact .inr (.inr (.inr (.inr (.inl (At.moved hn)))))
        · exact .inr (hpend (hs.woken.pending hs.sound.typed hdel hsig))
      · exact .inl (by simpa [Function.update_of_ne (Ne.symm hu)] using hkick)
    · exact .inr (hpend hp)

theorem Kick.teardownStep (hk : Kick s) (ho : Ordered s) (hs : Typed s)
    (h : s.teardownStep = some t) : Kick t := by
  have hpend : Pending s → Pending t := fun hp => teardownStep_pending hp ho hs h
  have hfresh := hk.fresh
  have hlast := hk.kickstarted
  -- Only the teardown's own call moves, so the other callers stay where they are.
  have hcloser : ∀ o : Op, ∀ v, (Function.update s.op .teardown o v).Closes → v = .teardown := by
    intro o v hv
    by_contra hne
    exact hne (hk.closer v (by simpa [Function.update_of_ne hne] using hv))
  cases teardownStep_effect h with
  | kickstart hd =>
    refine ⟨hcloser _, fun _ => hfresh (.inl (by simp [hd])), fun _ => .inl ?_,
      fun hks => absurd hks id⟩
    simp [setOp, Op.kickstartAndClose, Op.Kicking]
  | kickstarted hd hop =>
    have hp : Pending s := (hk.kicking hd).resolve_left (by simp [hop, Op.Kicking])
    refine ⟨hcloser _, fun hf => ?_, fun hks => (by cases hks), fun _ => hpend hp⟩
    simp [setOp, Op.Closes] at hf
  | swap hd | safeClose hd | waitDrained hd | cleanupQueue hd | discard hd | discarded hd
  | deleteConn hd | sendDisconnect hd =>
    have hop := hs.teardown (by simp [hd])
    exact ⟨hk.closer, by simp_all [Op.Closes], by simp_all,
      fun _ => hpend (hlast (by simp_all [Teardown.Kickstarted]))⟩

theorem Kick.outside (hk : Kick s) (hout : Outside s t) (htear : t.teardown = s.teardown)
    (hop : t.op .teardown = s.op .teardown)
    (hpend : s.teardown = .kickstarting ∨ s.teardown.Kickstarted → Pending s → Pending t) :
    Kick t := by
  refine ⟨fun v hv => ?_, fun hf => ?_, fun hks => ?_, fun hks => ?_⟩
  · rcases hout.moved with hmoved | ⟨u, o, hmoved, -, he⟩
    · rw [hmoved] at hv
      exact hk.closer v hv
    · rw [hmoved] at hv
      by_cases hvu : v = u
      · subst hvu
        rw [Function.update_self] at hv
        cases v <;> cases o <;> first
          | rfl
          | exact (he : False).elim
          | exact (hv : False).elim
      · rw [Function.update_of_ne hvu] at hv
        exact hk.closer v hv
  · rw [htear, hop] at hf
    exact hout.closed.trans (hk.fresh hf)
  · rw [htear] at hks
    rw [hop]
    exact (hk.kicking hks).imp_right (hpend (.inl hks))
  · rw [htear] at hks
    exact hpend (.inr hks) (hk.kickstarted hks)

theorem step_kick {a : Action F} (hk : Kick s) (ho : Ordered s) (hs : Alert s)
    (h : s.step a = some t) : Kick t := by
  have hty := hs.sound.typed
  cases a with
  | access u => exact hk.access hs h
  | teardown => exact hk.teardownStep ho hty h
  | _ =>
    rcases step_cases hty h with ⟨u, hu, -⟩ | hout
    · cases hu
    · exact hk.outside hout (step_frame (by simp) h).1 (step_op_eq h (by simp [Action.thread]))
        fun hq hp => step_pending hp ho hty (hty.quit hq) h

end Kick

/-- The invariants of a connection with its teardown. -/
structure Orderly (s : Conn F) : Prop where
  alert : Alert s
  ordered : Ordered s
  kick : Kick s

theorem run_orderly {s : Conn F} {as : List (Action F)} {initial : ℤ} {outbound : Bool}
    (h : run step (start initial outbound) as = some s) : Orderly s := by
  refine invariant_run (fun u a t hu hstep => ?_)
    ⟨start_alert initial outbound, start_ordered initial outbound, start_kick initial outbound⟩ h
  exact ⟨step_alert hu.alert hstep, step_ordered hu.ordered hu.alert.sound.typed hstep,
    step_kick hu.kick hu.ordered hu.alert hstep⟩

/-- Nothing overtakes the frames queued before the swap, and the teardown does not wedge:
an idle connection with an empty queue and no wakeup outstanding has closed `drained`. -/
theorem teardown_flushes_and_drains {s : Conn F} {as : List (Action F)} {initial : ℤ}
    {outbound : Bool} (h : run step (start initial outbound) as = some s) :
    (s.disconnectQueued = true → s.pushed.take s.atCas <+: s.sent) ∧
      (s.teardown.Kickstarted → Idle s → s.queue = [] → s.ledger.wakeups = 0 →
        s.drained = true) := by
  have hs := run_orderly h
  constructor
  · intro hdis
    have hwaited : s.teardown.Waited := by
      have he := hs.alert.sound.typed.effects
      cases ht : s.teardown <;> simp_all [Teardown.effects, Teardown.Waited]
    exact hs.ordered.flushed (.inl (hs.ordered.waited hwaited))
  · intro hkicked hi hq hzero
    rcases hs.kick.kickstarted hkicked with hdr | hne | hpos | ⟨u, hu⟩ | hd
    · exact hdr
    · exact absurd hq hne
    · omega
    · rw [hi.op u] at hu
      exact absurd hu id
    · exact absurd hi.drain hd

/-- The swap, `safeClose` and a `KickstartAndClose` of `accesses` steps. -/
def kickstartTrace (accesses : ℕ) : List (Action ℕ) :=
  List.replicate 3 .teardown ++ List.replicate accesses (.access .teardown) ++ [.teardown]

/-- One call of `drainConnectionQueue` that sends one frame and finds the queue empty. -/
def drainTrace : List (Action ℕ) :=
  let go n := List.replicate n (Action.drain (F := ℕ))
  let access n := List.replicate n (Action.access (F := ℕ) .writePump)
  .dataReady 4 :: [go 3, access 3, go 4, access 3, go 2, access 3, go 1, access 2, go 5].flatten

/-- A frame is queued, the connection is torn down, and the writer drains it. -/
def oneFrameTrace : List (Action ℕ) :=
  firstFrame 4 ++ kickstartTrace 12 ++ drainTrace ++ List.replicate 5 .teardown

theorem teardown_flushes_and_drains_one_frame : ∃ s : Conn ℕ,
    run step (start 64 false) oneFrameTrace = some s ∧ s.pushed.take s.atCas = [7] ∧
      [7] <+: s.sent ∧ s.drained = true := by
  obtain ⟨s, h, hop, hp, hd, hdis, hkicked, hq, hzero, htake⟩ : ∃ s,
      run step (start 64 false) oneFrameTrace = some s ∧
      (∀ u ∈ oneFrameTrace.map Action.thread, s.op u = .idle) ∧
      s.producer = .idle ∧ s.drain = .idle ∧ s.disconnectQueued = true ∧
      s.teardown.Kickstarted ∧ s.queue = [] ∧ s.ledger.wakeups = 0 ∧
      s.pushed.take s.atCas = [7] :=
    exists_run_of_any (by decide +kernel)
  obtain ⟨hflushed, hdrained⟩ := teardown_flushes_and_drains h
  exact ⟨s, h, htake, htake ▸ hflushed hdis,
    hdrained hkicked (idle_of_run h hop hp hd) hq hzero⟩

/-- Right after `KickstartAndClose` has queued its wakeup the connection is idle with an
empty queue, and `drained` is still open. -/
theorem drained_open_before_wakeup : ∃ s : Conn ℕ,
    run step (start 64 false) (kickstartTrace 13) = some s ∧ s.teardown.Kickstarted ∧ Idle s ∧
      s.queue = [] ∧ s.drained = false := by
  obtain ⟨s, h, hop, hp, hd, hkicked, hq, hopen⟩ : ∃ s,
      run step (start 64 false) (kickstartTrace 13) = some s ∧
        (∀ u ∈ (kickstartTrace 13).map Action.thread, s.op u = .idle) ∧ s.producer = .idle ∧
        s.drain = .idle ∧ s.teardown.Kickstarted ∧ s.queue = [] ∧ s.drained = false :=
    exists_run_of_any (by decide +kernel)
  exact ⟨s, h, hkicked, idle_of_run h hop hp hd, hq, hopen⟩

end Conn
end NexusProxy.Client
