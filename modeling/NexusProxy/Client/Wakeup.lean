import NexusProxy.Client.ConnSteps

/-! No wakeup of the credit ledger is lost: the invariants that tie the flags of the
ledger to the goroutines that still have to act on them. -/
namespace NexusProxy.Client
open FixedWidth Threads Transition

variable {F : Type*}

theorem Op.Parked.not_notifying {o : Op} (h : o.Parked) : ¬o.Notifying := by
  cases o <;> simp_all [Op.Parked, Op.Notifying]

namespace Conn

/-- Mutual exclusion on `probeMu`, and the ranges of the counter and of the values in
flight. -/
structure Sound (s : Conn F) : Prop where
  typed : Typed s
  maxCap : s.ledger.maxCap = maxReverseCreditCapacity
  exclusive : Exclusive Op.Critical s.ledger.probeMu s.op
  fits : ∀ t, (s.op t).Fits maxReverseCreditCapacity
  closing : ∀ t, (s.op t).Closing → s.ledger.closed = true
  installing : ∀ t, s.op t = .initMax → s.ledger.unlimited = true
  available : s.ledger.unlimited = false →
    0 ≤ s.ledger.available ∧ s.ledger.available ≤ maxReverseCreditCapacity + 1
  probing : ∀ t, s.op t = .fireAdd → s.ledger.unlimited = false →
    s.ledger.available ≤ maxReverseCreditCapacity

section Sound
variable {s t : Conn F}

theorem maxReverseCreditCapacity_range :
    0 < maxReverseCreditCapacity ∧ maxReverseCreditCapacity < 2 ^ 62 := by
  decide

theorem start_sound (initial : ℤ) (outbound : Bool) : Sound (start (F := F) initial outbound) where
  typed := start_typed initial outbound
  maxCap := rfl
  exclusive := ⟨fun _ h => absurd h id, fun _ _ h => absurd h id⟩
  fits _ := trivial
  closing _ h := absurd h id
  installing _ h := by cases h
  available h := by
    have hpos := maxReverseCreditCapacity_range.1
    have hne : initial ≠ maxInt64 := of_decide_eq_false h
    change 0 ≤ ite _ _ _ ∧ ite _ _ _ ≤ _
    simp only [if_neg hne]
    split_ifs <;> omega
  probing _ h := by cases h

theorem Outside.forall_op {P : Op → Prop} (ho : Outside s t)
    (hP : ∀ (u : Tid) (o : Op), Op.Entry u o → P o) (h : ∀ u, P (s.op u)) (u : Tid) :
    P (t.op u) := by
  rcases ho.moved with hop | ⟨v, o, hop, -, he⟩
  · rw [hop]
    exact h u
  · rw [hop]
    exact forall_update (hP v o he) (fun u _ => h u) u

theorem Outside.op_eq {u : Tid} (ho : Outside s t) (hu : ¬(s.op u).Parked) :
    t.op u = s.op u := by
  rcases ho.moved with hop | ⟨v, o, hop, hpark, -⟩
  · rw [hop]
  · have huv : u ≠ v := by
      rintro rfl
      exact hu hpark
    rw [hop, Function.update_of_ne huv]

theorem Outside.at {P : Op → Prop} (ho : Outside s t) (hP : ∀ o : Op, o.Parked → ¬P o)
    (h : At P s.op) : At P t.op := by
  obtain ⟨u, hu⟩ := h
  exact ⟨u, by rwa [ho.op_eq fun hpark => hP _ hpark hu]⟩

theorem Sound.outside (hs : Sound s) (ht : Typed t) (ho : Outside s t) : Sound t where
  typed := ht
  maxCap := ho.maxCap.trans hs.maxCap
  exclusive := by
    rw [ho.probeMu]
    rcases ho.moved with hop | ⟨v, o, hop, hpark, he⟩
    · rw [hop]
      exact hs.exclusive
    · rw [hop]
      exact hs.exclusive.update (fun hc => absurd hc he.quiet.critical) (fun _ _ => rfl)
  fits := ho.forall_op (fun _ _ he => he.quiet.fits) hs.fits
  closing := by
    rw [ho.closed]
    exact ho.forall_op (P := fun o : Op => o.Closing → _)
      (fun _ _ he hc => absurd hc he.quiet.closing)
      hs.closing
  installing := by
    rw [ho.unlimited]
    exact ho.forall_op (P := fun o : Op => o = .initMax → _)
      (fun _ _ he hc => absurd hc he.quiet.initMax) hs.installing
  available := by
    rw [ho.unlimited, ho.available]
    exact hs.available
  probing := by
    rw [ho.unlimited, ho.available]
    exact ho.forall_op (P := fun o : Op => o = .fireAdd → _)
      (fun _ _ he hc => absurd hc he.quiet.fireAdd) hs.probing

theorem Sound.access {u : Tid} (hs : Sound s) (h : s.access u = some t) : Sound t := by
  have ht := hs.typed.access h
  obtain ⟨l, o, hstep, rfl⟩ := access_eq_some h
  have hcap := hs.maxCap
  have hrange := maxReverseCreditCapacity_range
  have hfits := hs.fits u
  have havail := hs.available
  have hprob := hs.probing u
  rw [← hcap] at hrange hfits havail hprob
  have haccess := Op.step_access hstep
  obtain ⟨hmax, hunl, hinit⟩ := haccess.mode
  obtain ⟨hclosed, hclosing⟩ := haccess.closing (hs.closing u)
  have hcrit := haccess.critical (hs.exclusive.locked u)
  have hval := Op.step_available hrange.1 hrange.2 hfits (hs.installing u) havail hprob hstep
  refine ⟨ht, hmax.trans hcap, hs.exclusive.update hcrit.1 hcrit.2, ?_, ?_, ?_, ?_, ?_⟩
  · rw [← hcap]
    refine forall_update (haccess.fits hrange.1 hfits) fun v _ => ?_
    rw [hcap]
    exact hs.fits v
  · exact forall_update (P := fun o : Op => o.Closing → _) hclosing
      fun v _ hv => hclosed (hs.closing v hv)
  · exact forall_update (P := fun o : Op => o = .initMax → _) hinit
      fun v _ hv => hunl (hs.installing v hv)
  · intro hu
    rw [← hcap]
    exact (hval hu).1
  · have hkeep : l.unlimited = false → s.ledger.unlimited = false := by
      intro hu
      by_contra hcon
      rw [hunl (by simpa using hcon)] at hu
      cases hu
    refine forall_update (P := fun o : Op => o = .fireAdd → l.unlimited = false → _)
      (fun ho hu => hcap ▸ (hval hu).2.2 ho) fun v hvu hv hu => ?_
    -- Two threads cannot both stand at the probe's addition.
    have hne : s.op u ≠ .fireAdd := fun hu' =>
      hvu (hs.exclusive.unique v u (by rw [hv]; trivial) (by rw [hu']; trivial))
    rw [← hcap]
    exact (hval hu).2.1 hne (hcap ▸ hs.probing v hv (hkeep hu))

theorem step_sound {a : Action F} (hs : Sound s) (h : s.step a = some t) : Sound t := by
  rcases step_cases hs.typed h with ⟨u, rfl, hacc⟩ | ho
  · exact hs.access hacc
  · exact hs.outside (step_typed hs.typed h) ho

end Sound

/-- `KickstartAndClose` closes the ledger before the teardown goes on. -/
structure Kicked (s : Conn F) : Prop where
  before : s.teardown = .kickstarting →
    s.ledger.closed = true ∨ ∃ n, s.op .teardown = .kickLock n ∨ s.op .teardown = .kickCas n
  after : s.teardown ∈ [.waitDrained, .cleanupQueue, .discard, .deleteConn, .sendDisconnect,
    .done] → s.ledger.closed = true

section Kicked
variable {s t : Conn F}

theorem start_kicked (initial : ℤ) (outbound : Bool) :
    Kicked (start (F := F) initial outbound) where
  before h := by cases h
  after h := by simp [start] at h

theorem Kicked.access {u : Tid} (hk : Kicked s) (hs : Sound s) (h : s.access u = some t) :
    Kicked t := by
  obtain ⟨l, o, hstep, rfl⟩ := access_eq_some h
  have hclosed := ((Op.step_access hstep).closing (hs.closing u)).1
  refine ⟨fun ht => ?_, fun ht => hclosed (hk.after ht)⟩
  rcases hk.before ht with hc | ⟨n, hn⟩
  · exact .inl (hclosed hc)
  · by_cases hu : u = .teardown
    · subst hu
      rcases hn with hn | hn
      · rw [hn] at hstep
        simp only [Op.step] at hstep
        split_ifs at hstep
        cases hstep
        exact .inr ⟨n, .inr (by simp)⟩
      · rw [hn] at hstep
        cases hstep
        exact .inl rfl
    · refine .inr ⟨n, ?_⟩
      simpa [Function.update_of_ne (Ne.symm hu)] using hn

theorem Kicked.teardownStep (hk : Kicked s) (h : s.teardownStep = some t) : Kicked t := by
  have hafter := hk.after
  cases teardownStep_effect h with
  | kickstarted hd hop =>
    have hc : s.ledger.closed = true := by simpa [hop] using hk.before hd
    exact ⟨fun _ => .inl hc, fun _ => hc⟩
  | _ => constructor <;> simp_all [setOp, Op.kickstartAndClose]

theorem step_kicked {a : Action F} (hs : Sound s) (hk : Kicked s) (h : s.step a = some t) :
    Kicked t := by
  by_cases ha : a = .teardown
  · subst ha
    exact hk.teardownStep h
  rcases step_cases hs.typed h with ⟨u, rfl, hacc⟩ | ho
  · exact hk.access hs hacc
  have ht := (step_frame ha h).1
  refine ⟨fun hkick => ?_, fun hpast => ?_⟩
  · rw [ho.closed]
    rcases hk.before (ht ▸ hkick) with hc | ⟨n, hn⟩
    · exact .inl hc
    · have hmid : ¬(s.op .teardown).Parked := by
        rcases hn with hn | hn <;> simp [hn, Op.Parked]
      exact .inr ⟨n, by rwa [ho.op_eq hmid]⟩
  · rw [ho.closed]
    exact hk.after (ht ▸ hpast)

theorem Kicked.present (hk : Kicked s) (hs : Typed s) (hopen : s.ledger.closed = false) :
    s.queueDeleted = false := by
  have he := hs.effects
  have hafter := hk.after
  cases ht : s.teardown <;> simp_all [Teardown.effects]

end Kicked

/-- A raised flag has its wakeup queued, a thread about to queue it, or the drain that is
going to clear it. -/
def Woken (s : Conn F) : Prop :=
  s.queueDeleted = false → s.ledger.signaled = true →
    0 < s.ledger.wakeups ∨ At Op.Notifying s.op ∨ s.op .writePump = .yieldClear ∨
      s.drain.BeforeYield

/-- Frames that can be sent are signaled, or some thread still has to look at them. -/
def Watched (s : Conn F) : Prop :=
  s.queueDeleted = false → s.queue ≠ [] → s.ledger.Sendable → s.ledger.signaled = false →
    Responsible (Op.Watchful s.ledger.unlimited) s

/-- Frames that wait for credits have the probe armed, unless some thread is bound to arm
it or to grant. -/
def Armed (s : Conn F) : Prop :=
  s.ledger.closed = false → s.queueDeleted = false → s.queue ≠ [] → s.ledger.Starved →
    (s.ledger.probeFired = true ∧ ¬At (· = Op.fireReset) s.op) ∨ Responsible Op.Arming s

section Flags
variable {s t : Conn F}

theorem Outside.responsible {W : Op → Prop} (ho : Outside s t) (hW : Op.Follows W)
    (hd : t.queueDeleted = false) (h : Responsible W s) : Responsible W t := by
  rcases h with hb | hp | hat
  · rcases ho.beforeYield hd hb with hb | hy
    · exact .inl hb
    · exact .inr (.inr ⟨.writePump, by rw [hy]; exact hW.yieldClear⟩)
  · rcases ho.pushed hd hp with hp | hn
    · exact .inr (.inl hp)
    · exact .inr (.inr ⟨.producer, by rw [hn]; exact hW.enqUnlimited⟩)
  · exact .inr (.inr (ho.at hW.parked hat))

theorem Responsible.access {W W' : Op → Prop} {u : Tid} {l : Ledger} {o : Op}
    (h : Responsible W s) (hu : ¬W (s.op u)) (hW : ∀ o, W o → W' o) :
    Responsible W' { s with ledger := l, op := Function.update s.op u o } := by
  rcases h with hb | hp | hat
  · exact .inl hb
  · exact .inr (.inl hp)
  · exact .inr (.inr (hat.update (fun hw => absurd hw hu) fun v => hW _))

theorem Woken.outside (hw : Woken s) (ho : Outside s t)
    (hdel : t.queueDeleted = false → s.queueDeleted = false) : Woken t := by
  intro hd hsig
  rw [ho.signaled] at hsig
  rcases hw (hdel hd) hsig with hpos | hat | hy | hb
  · rcases ho.wakeups with hle | hb
    · exact .inl (by omega)
    · exact .inr (.inr (.inr hb))
  · exact .inr (.inl (ho.at (fun o => Op.Parked.not_notifying) hat))
  · refine .inr (.inr (.inl ?_))
    rw [ho.op_eq (by simp [hy, Op.Parked]), hy]
  · rcases ho.beforeYield hd hb with hb | hy
    · exact .inr (.inr (.inr hb))
    · exact .inr (.inr (.inl hy))

theorem Woken.access {u : Tid} (hw : Woken s) (h : s.access u = some t) : Woken t := by
  obtain ⟨l, o, hstep, rfl⟩ := access_eq_some h
  obtain ⟨hsignaled, hnotify, hwakeups⟩ := (Op.step_access hstep).signaled
  intro hd hsig
  rcases hsignaled hsig with ⟨hne, hold⟩ | hn
  · rcases hw hd hold with hpos | ⟨v, hv⟩ | hy | hb
    · exact .inl (lt_of_lt_of_le hpos hwakeups)
    · by_cases huv : v = u
      · subst huv
        rcases hnotify hv with hn | hpos
        · exact .inr (.inl (At.moved hn))
        · exact .inl hpos
      · exact .inr (.inl ⟨v, by simpa [Function.update_of_ne huv] using hv⟩)
    · have hu : Tid.writePump ≠ u := by
        rintro rfl
        exact hne hy
      exact .inr (.inr (.inl ((Function.update_of_ne hu ..).trans hy)))
    · exact .inr (.inr (.inr hb))
  · exact .inr (.inl (At.moved hn))

theorem Watched.outside (hw : Watched s) (ho : Outside s t)
    (hdel : t.queueDeleted = false → s.queueDeleted = false) : Watched t := by
  intro hd hq hsend hsig
  rw [Ledger.Sendable, ho.unlimited, ho.available] at hsend
  rw [ho.signaled] at hsig
  rw [ho.unlimited]
  rcases ho.queue hq with hq | hp
  · exact ho.responsible (Op.watchful_follows _) hd (hw (hdel hd) hq hsend hsig)
  · exact .inr (.inl hp)

theorem Watched.access {u : Tid} (hw : Watched s) (hs : Sound s) (h : s.access u = some t) :
    Watched t := by
  obtain ⟨l, o, hstep, rfl⟩ := access_eq_some h
  intro hd hq hsend hsig
  have hq : s.queue ≠ [] := hq
  rw [show (!s.queue.isEmpty) = true by simpa using hq] at hstep
  by_cases hspend : (s.op u).Spending
  · exact .inl (hs.typed.spending u hspend).2
  rcases Op.step_watchful hspend hstep hsend hsig with hwatch | ⟨hold, hold', hnot, hunl⟩
  · exact .inr (.inr (At.moved hwatch))
  · refine (hw hd hq hold hold').access hnot fun o ho => ?_
    have hunl : l.unlimited = s.ledger.unlimited := hunl
    simpa only [hunl] using ho

theorem Armed.outside (ha : Armed s) (ho : Outside s t)
    (hdel : t.queueDeleted = false → s.queueDeleted = false) : Armed t := by
  intro hopen hd hq hout
  rw [ho.closed] at hopen
  rw [Ledger.Starved, ho.unlimited, ho.available] at hout
  rcases ho.queue hq with hq | hp
  · rcases ha hopen (hdel hd) hq hout with ⟨hfired, hreset⟩ | hr
    · refine .inl ⟨ho.probeFired.trans hfired, fun hat => ?_⟩
      obtain ⟨u, hu⟩ := hat
      exact ho.forall_op (fun _ _ he => he.quiet.fireReset) (fun v hv => hreset ⟨v, hv⟩) u hu
    · exact .inr (ho.responsible Op.arming_follows hd hr)
  · exact .inr (.inr (.inl hp))

theorem Armed.access {u : Tid} (ha : Armed s) (hs : Sound s) (h : s.access u = some t) :
    Armed t := by
  obtain ⟨l, o, hstep, rfl⟩ := access_eq_some h
  intro hopen hd hq hout
  have hq : s.queue ≠ [] := hq
  have hopen : l.closed = false := hopen
  rw [show (!s.queue.isEmpty) = true by simpa using hq] at hstep
  by_cases hspend : (s.op u).Spending
  · exact .inr (.inl (hs.typed.spending u hspend).2)
  have hopen' : s.ledger.closed = false := by
    by_contra hcon
    rw [((Op.step_access hstep).closing (hs.closing u)).1 (by simpa using hcon)] at hopen
    cases hopen
  have hcap := hs.maxCap
  have hrange := maxReverseCreditCapacity_range
  have hfits := hs.fits u
  have havail := hs.available
  rw [← hcap] at hrange hfits havail
  rcases Op.step_arming hrange.1 hrange.2 hfits (hs.closing u) havail hspend hstep hopen hout with
    harm | ⟨hop, hfired, hne⟩ | ⟨hold, hnot, hne, hsame⟩
  · exact .inr (.inr (.inr (At.moved harm)))
  · -- The thread that armed holds probeMu, so no other one is about to reset the flag.
    refine .inl ⟨hfired, fun hat => ?_⟩
    rcases hat.of_update with ho | ⟨w, hwu, hw⟩
    · exact hne ho
    · exact hwu (hs.exclusive.unique w u (by rw [hw]; trivial) (by rw [hop]; trivial))
  · rcases ha hopen' hd hq hold with ⟨hfired, hreset⟩ | hr
    · refine .inl ⟨?_, fun hat => ?_⟩
      · rcases hsame with hop | hsame
        · exact absurd ⟨u, hop⟩ hreset
        · exact hsame.trans hfired
      · rcases hat.of_update with ho | ⟨w, -, hw⟩
        · exact hne ho
        · exact hreset ⟨w, hw⟩
    · exact .inr (hr.access hnot fun _ => id)

end Flags

/-- The invariants together. -/
structure Alert (s : Conn F) : Prop where
  sound : Sound s
  kicked : Kicked s
  woken : Woken s
  watched : Watched s
  armed : Armed s

section Alert
variable {s t : Conn F}

theorem start_alert (initial : ℤ) (outbound : Bool) : Alert (start (F := F) initial outbound) where
  sound := start_sound initial outbound
  kicked := start_kicked initial outbound
  woken _ h := by cases h
  watched _ h := absurd rfl h
  armed _ _ h := absurd rfl h

theorem step_alert {a : Action F} (hs : Alert s) (h : s.step a = some t) : Alert t := by
  have hdel := step_queueDeleted h
  have hkicked := step_kicked hs.sound hs.kicked h
  have hsound := step_sound hs.sound h
  rcases step_cases hs.sound.typed h with ⟨u, rfl, hacc⟩ | ho
  · exact ⟨hsound, hkicked, hs.woken.access hacc, hs.watched.access hs.sound hacc,
      hs.armed.access hs.sound hacc⟩
  · exact ⟨hsound, hkicked, hs.woken.outside ho hdel, hs.watched.outside ho hdel,
      hs.armed.outside ho hdel⟩

theorem run_alert {as : List (Action F)} {initial : ℤ} {outbound : Bool}
    (h : run step (start initial outbound) as = some s) : Alert s :=
  invariant_run (fun _ _ _ => step_alert) (start_alert initial outbound) h

theorem Idle.not_responsible {W : Op → Prop} (hi : Idle s) (hW : Op.Follows W) :
    ¬Responsible W s := by
  rintro (hb | hp | ⟨u, hu⟩)
  · rw [hi.drain] at hb
    exact hb
  · rw [hi.producer] at hp
    cases hp
  · rw [hi.op u] at hu
    exact hW.parked .idle trivial hu

/-- No wakeup is lost. -/
theorem idle_queue_signaled {as : List (Action F)} {initial : ℤ} {outbound : Bool}
    (h : run step (start initial outbound) as = some s) (hopen : s.ledger.closed = false)
    (hi : Idle s) (hq : s.queue ≠ []) :
    (s.ledger.Sendable → s.ledger.signaled = true ∧ 0 < s.ledger.wakeups) ∧
      (¬s.ledger.Sendable → s.ledger.probeFired = true) := by
  have hs := run_alert h
  have hd := hs.kicked.present hs.sound.typed hopen
  constructor
  · intro hsend
    have hsig : s.ledger.signaled = true := by
      by_contra hcon
      exact hi.not_responsible (Op.watchful_follows _)
        (hs.watched hd hq hsend (by simpa using hcon))
    refine ⟨hsig, ?_⟩
    rcases hs.woken hd hsig with hpos | ⟨u, hu⟩ | hy | hb
    · exact hpos
    · simp [hi.op u, Op.Notifying] at hu
    · simp [hi.op .writePump] at hy
    · rw [hi.drain] at hb
      exact absurd hb id
  · intro hout
    rcases hs.armed hopen hd hq ((Ledger.starved_iff _).mpr hout) with ⟨hfired, -⟩ | hr
    · exact hfired
    · exact absurd hr (hi.not_responsible Op.arming_follows)

/-- A producer queues one frame, and its `NotifyEnqueue` takes `accesses` steps. -/
def firstFrame (accesses : ℕ) : List (Action ℕ) :=
  [.enqueueData 7, .push, .loadConn] ++ List.replicate accesses (.access .producer) ++ [.enqueued]

theorem idle_queue_signaled_firstFrame :
    (∃ s, run step (start 1 false) (firstFrame 4) = some s ∧ s.ledger.Sendable ∧
      s.ledger.signaled = true ∧ 0 < s.ledger.wakeups) ∧
    ∃ s, run step (start 0 false) (firstFrame 12) = some s ∧ ¬s.ledger.Sendable ∧
      s.ledger.probeFired = true := by
  constructor
  · obtain ⟨s, h, hop, hp, hd, hopen, hq, hsend⟩ : ∃ s,
        run step (start 1 false) (firstFrame 4) = some s ∧
          (∀ u ∈ (firstFrame 4).map Action.thread, s.op u = .idle) ∧ s.producer = .idle ∧
          s.drain = .idle ∧ s.ledger.closed = false ∧ s.queue ≠ [] ∧ s.ledger.Sendable :=
      exists_run_of_any (by decide +kernel)
    exact ⟨s, h, hsend,
      (idle_queue_signaled h hopen (idle_of_run h hop hp hd) hq).1 hsend⟩
  · obtain ⟨s, h, hop, hp, hd, hopen, hq, hout⟩ : ∃ s,
        run step (start 0 false) (firstFrame 12) = some s ∧
          (∀ u ∈ (firstFrame 12).map Action.thread, s.op u = .idle) ∧ s.producer = .idle ∧
          s.drain = .idle ∧ s.ledger.closed = false ∧ s.queue ≠ [] ∧ ¬s.ledger.Sendable :=
      exists_run_of_any (by decide +kernel)
    exact ⟨s, h, hout,
      (idle_queue_signaled h hopen (idle_of_run h hop hp hd) hq).2 hout⟩

end Alert

end Conn
end NexusProxy.Client
