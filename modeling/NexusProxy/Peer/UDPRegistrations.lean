import NexusProxy.Bandwidth.SharedRefs
import NexusProxy.Peer.UDPFlows
import Mathlib.Algebra.BigOperators.Group.Multiset.Basic
import Mathlib.Algebra.Order.BigOperators.Group.Multiset

/-! Shared bandwidth registrations of UDP flows. A flow is in the table before its reference is
taken, and out of it before its reference is given up; what the calls under way have yet to do
makes up the difference. -/
namespace NexusProxy.Peer.UDPFlows
open Calls Transition
open Bandwidth.ActiveCount (Scheduler Op SharedStep Relies advance_shared)

variable {Addr : Type*}

namespace Instr

/-- A reference for the id is asked for and not counted yet. -/
def owing (b : List Char) : Instr Addr → ℕ
  | .schedule f op => if f.bandwidthID = b then op.owing else 0
  | _ => 0

/-- A reference for the id is counted, of a flow that has left the table. -/
def releasing (b : List Char) : Instr Addr → ℕ
  | .cleanup f => if f.bandwidthID = b then 1 else 0
  | .schedule f op => if f.bandwidthID = b then op.releasing else 0
  | _ => 0

def critical : Instr Addr → ℕ
  | .schedule _ op => op.critical
  | _ => 0

/-- The flow whose `RegisterShared` has not returned. -/
def registering? : Instr Addr → Option (Flow Addr)
  | .schedule f op => if op.registering then some f else none
  | _ => none

/-- An instruction that is no part of a registration. -/
def Quiet : Instr Addr → Prop
  | .cleanup _ => False
  | .schedule f op => op.About f.bandwidthID ∧ op.kind = (Op.done : Op (List Char)).kind
  | _ => True

theorem quiet_of_not_isCall {i : Instr Addr} (h : i.isCall = false) : i.Quiet := by
  cases i <;> trivial

theorem Plain.quiet {i : Instr Addr} (h : i.Plain) : i.Quiet := by
  cases i with
  | cleanup f => exact h.elim
  | schedule f op =>
    obtain rfl : op = .load f.bandwidthID := h
    exact ⟨trivial, rfl⟩
  | _ => trivial

end Instr

def total (w : Instr Addr → ℕ) (p : Multiset (Instr Addr)) : ℕ := (p.map w).sum

@[simp] theorem total_cons (w : Instr Addr → ℕ) (i : Instr Addr) (p : Multiset (Instr Addr)) :
    total w (i ::ₘ p) = w i + total w p := by
  rw [total, Multiset.map_cons, Multiset.sum_cons, total]

theorem le_total (w : Instr Addr → ℕ) {i : Instr Addr} {p : Multiset (Instr Addr)} (h : i ∈ p) :
    w i ≤ total w p :=
  Multiset.le_sum_of_mem (Multiset.mem_map_of_mem w h)

def registering (p : Multiset (Instr Addr)) : Multiset (Flow Addr) :=
  p.filterMap Instr.registering?

def users (b : List Char) (flows : Multiset (Flow Addr)) : ℕ :=
  flows.countP fun f => f.bandwidthID = b

/-- The references that are counted, with what the calls under way have yet to do, are those of
the flows in the table; an entry that is missing will be stored, and one that is left over will be
deleted. -/
structure Matched (flows : Multiset (Flow Addr)) (s : Scheduler (List Char))
    (p : Multiset (Instr Addr)) : Prop where
  about : ∀ f op, .schedule f op ∈ p → op.About f.bandwidthID
  positive : ∀ b c, s.refCounts.lookup b = some c → 0 < c
  counts : ∀ b, s.refs b + total (Instr.owing b) p = users b flows + total (Instr.releasing b) p
  nodup : (registering p).Nodup
  present : registering p ⊆ flows
  lock : total Instr.critical p = s.sharedMu.toNat
  gone : ∀ f op, .schedule f op ∈ p → op.deleting = true →
    s.refCounts.lookup f.bandwidthID = none
  stores : ∀ b, s.Unstored b →
    ∃ f op, .schedule f op ∈ p ∧ f.bandwidthID = b ∧ op.storing = true
  deletes : ∀ b, s.Undeleted b →
    ∃ f op, .schedule f op ∈ p ∧ f.bandwidthID = b ∧ op.deleting = true

section Accounting
variable {flows flows' : Multiset (Flow Addr)} {s : Scheduler (List Char)}
  {p : Multiset (Instr Addr)} {f : Flow Addr} {i : Instr Addr}

theorem users_cons (b : List Char) (f : Flow Addr) (flows : Multiset (Flow Addr)) :
    users b (f ::ₘ flows) = users b flows + if f.bandwidthID = b then 1 else 0 :=
  Multiset.countP_cons _ f flows

theorem registering_cons_none (h : i.registering? = none) :
    registering (i ::ₘ p) = registering p :=
  Multiset.filterMap_cons_none i p h

theorem registering_le_cons (i : Instr Addr) (p : Multiset (Instr Addr)) :
    registering p ≤ registering (i ::ₘ p) :=
  Multiset.filterMap_le_filterMap _ (Multiset.le_cons_self p i)

theorem registering_cons_some (h : i.registering? = some f) :
    registering (i ::ₘ p) = f ::ₘ registering p :=
  Multiset.filterMap_cons_some _ i p h

theorem Matched.cons (h : Matched flows s p)
    (hop : ∀ f op, i = .schedule f op → op.About f.bandwidthID ∧ op.deleting = false)
    (hcritical : i.critical = 0)
    (hcounts : ∀ b, users b flows + i.owing b = users b flows' + i.releasing b)
    (hnodup : (registering (i ::ₘ p)).Nodup) (hpresent : registering (i ::ₘ p) ⊆ flows') :
    Matched flows' s (i ::ₘ p) where
  about := by
    intro f op hmem
    rcases Multiset.mem_cons.mp hmem with heq | hmem
    · exact (hop f op heq.symm).1
    · exact h.about f op hmem
  positive := h.positive
  counts := by
    intro b
    have hbefore := h.counts b
    have hnew := hcounts b
    rw [total_cons, total_cons]
    omega
  nodup := hnodup
  present := hpresent
  lock := by rw [total_cons, hcritical, zero_add, h.lock]
  gone := by
    intro f op hmem hdeleting
    rcases Multiset.mem_cons.mp hmem with heq | hmem
    · rw [(hop f op heq.symm).2] at hdeleting
      cases hdeleting
    · exact h.gone f op hmem hdeleting
  stores := by
    intro b hb
    obtain ⟨f, op, hmem, hstoring⟩ := h.stores b hb
    exact ⟨f, op, Multiset.mem_cons_of_mem hmem, hstoring⟩
  deletes := by
    intro b hb
    obtain ⟨f, op, hmem, hdeleting⟩ := h.deletes b hb
    exact ⟨f, op, Multiset.mem_cons_of_mem hmem, hdeleting⟩

theorem Matched.tail (h : Matched flows s (i ::ₘ p))
    (hop : ∀ f op, i = .schedule f op → op.storing = false ∧ op.deleting = false)
    (hcritical : i.critical = 0)
    (hcounts : ∀ b, users b flows + i.releasing b = users b flows' + i.owing b)
    (hpresent : registering p ⊆ flows') : Matched flows' s p where
  about := fun f op hmem => h.about f op (Multiset.mem_cons_of_mem hmem)
  positive := h.positive
  counts := by
    intro b
    have hbefore := h.counts b
    have hnew := hcounts b
    rw [total_cons, total_cons] at hbefore
    omega
  nodup := Multiset.nodup_of_le (registering_le_cons i p) h.nodup
  present := hpresent
  lock := by
    have hlock := h.lock
    rwa [total_cons, hcritical, zero_add] at hlock
  gone := fun f op hmem => h.gone f op (Multiset.mem_cons_of_mem hmem)
  stores := by
    intro b hb
    obtain ⟨f, op, hmem, hf, hstoring⟩ := h.stores b hb
    rcases Multiset.mem_cons.mp hmem with heq | hmem
    · rw [(hop f op heq.symm).1] at hstoring
      cases hstoring
    · exact ⟨f, op, hmem, hf, hstoring⟩
  deletes := by
    intro b hb
    obtain ⟨f, op, hmem, hf, hdeleting⟩ := h.deletes b hb
    rcases Multiset.mem_cons.mp hmem with heq | hmem
    · rw [(hop f op heq.symm).2] at hdeleting
      cases hdeleting
    · exact ⟨f, op, hmem, hf, hdeleting⟩

theorem Instr.Quiet.none (h : i.Quiet) : (∀ b, i.owing b = 0 ∧ i.releasing b = 0) ∧
    i.critical = 0 ∧ i.registering? = none ∧
    ∀ f op, i = .schedule f op →
      op.About f.bandwidthID ∧ op.storing = false ∧ op.deleting = false := by
  cases i with
  | cleanup f => exact h.elim
  | schedule f op =>
    obtain ⟨habout, hkind⟩ := h
    simp only [Op.kind, Prod.mk.injEq] at hkind
    obtain ⟨howing, hreleasing, hcritical, hregistering, hstoring, hdeleting⟩ := hkind
    refine ⟨fun b => ?_, hcritical, ?_, ?_⟩
    · rw [owing, releasing, howing, hreleasing]
      exact ⟨ite_self _, ite_self _⟩
    · rw [registering?, hregistering]
      rfl
    · rintro f' op' heq
      cases heq
      exact ⟨habout, hstoring, hdeleting⟩
  | _ => exact ⟨fun _ => ⟨rfl, rfl⟩, rfl, rfl, fun _ _ heq => by cases heq⟩

theorem matched_cons_quiet (hi : i.Quiet) : Matched flows s (i ::ₘ p) ↔ Matched flows s p := by
  obtain ⟨hnone, hcritical, hregistering, hop⟩ := hi.none
  have hregs : registering (i ::ₘ p) = registering p := registering_cons_none hregistering
  have hcounts (b : List Char) : users b flows + i.owing b = users b flows + i.releasing b := by
    rw [(hnone b).1, (hnone b).2]
  constructor
  · intro h
    refine h.tail (fun f op heq => (hop f op heq).2) hcritical (fun b => (hcounts b).symm) ?_
    exact hregs ▸ h.present
  · intro h
    refine h.cons (fun f op heq => ⟨(hop f op heq).1, (hop f op heq).2.2⟩) hcritical hcounts ?_ ?_
    · exact hregs ▸ h.nodup
    · exact hregs ▸ h.present

theorem Matched.pushes {pushed : List (Instr Addr)} (h : Matched flows s p)
    (hpushed : ∀ j ∈ pushed, j.Quiet) : Matched flows s (pushed.foldr Multiset.cons p) := by
  induction pushed with
  | nil => exact h
  | cons j pushed ih =>
    rw [List.foldr_cons, matched_cons_quiet (hpushed j List.mem_cons_self)]
    exact ih fun k hk => hpushed k (List.mem_cons_of_mem j hk)

theorem Matched.adds (h : Matched flows s p) (hf : f ∉ flows) :
    Matched (f ::ₘ flows) s (.schedule f (.lockRetain f.bandwidthID) ::ₘ p) := by
  have hregs : registering (.schedule f (.lockRetain f.bandwidthID) ::ₘ p) =
      f ::ₘ registering p := registering_cons_some rfl
  refine h.cons ?_ rfl (fun b => ?_) ?_ ?_
  · rintro f' op heq
    cases heq
    exact ⟨rfl, rfl⟩
  · rw [users_cons]
    simp only [Instr.owing, Instr.releasing, Op.owing, Op.releasing, ite_self, add_zero]
  · rw [hregs, Multiset.nodup_cons]
    exact ⟨fun hmem => hf (h.present hmem), h.nodup⟩
  · rw [hregs]
    exact Multiset.cons_subset_cons h.present

theorem Matched.removes (h : Matched (f ::ₘ flows) s p) (hf : f ∉ registering p) :
    Matched flows s (.cleanup f ::ₘ p) := by
  have hregs : registering (.cleanup f ::ₘ p) = registering p := registering_cons_none rfl
  refine h.cons (fun f' op heq => by cases heq) rfl (fun b => ?_) ?_ ?_
  · rw [users_cons]
    rfl
  · exact hregs ▸ h.nodup
  · rw [hregs]
    intro f' hf'
    rcases Multiset.mem_cons.mp (h.present hf') with rfl | hmem
    · exact absurd hf' hf
    · exact hmem

theorem Matched.cleansUp (h : Matched flows s (.cleanup f ::ₘ p)) :
    Matched flows s (.schedule f (.lockRelease f.bandwidthID) ::ₘ p) := by
  have hpresent : registering p ⊆ flows := by
    have hregs : registering (.cleanup f ::ₘ p) = registering p := registering_cons_none rfl
    exact hregs ▸ h.present
  have hregs : registering (.schedule f (.lockRelease f.bandwidthID) ::ₘ p) = registering p :=
    registering_cons_none rfl
  -- between the two the reference is one of a flow in the table
  have hflow : Matched (f ::ₘ flows) s p := by
    refine h.tail (fun f' op heq => by cases heq) rfl (fun b => ?_) ?_
    · rw [users_cons]
      rfl
    · exact fun f' hf' => Multiset.mem_cons_of_mem (hpresent hf')
  refine hflow.cons ?_ rfl (fun b => ?_) (hregs ▸ hflow.nodup) (hregs ▸ hpresent)
  · rintro f' op heq
    cases heq
    exact ⟨rfl, rfl⟩
  · rw [users_cons]
    simp only [Instr.owing, Instr.releasing, Op.owing, Op.releasing, ite_self, add_zero]

theorem users_registering_schedule (b : List Char) (f : Flow Addr) (op : Op (List Char))
    (p : Multiset (Instr Addr)) : users b (registering (.schedule f op ::ₘ p)) =
      users b (registering p) + if f.bandwidthID = b then op.registering.toNat else 0 := by
  cases hop : op.registering with
  | false =>
    have hnone : Instr.registering? (.schedule f op) = none := by rw [Instr.registering?, hop]; rfl
    rw [registering_cons_none hnone, Bool.toNat_false, ite_self, add_zero]
  | true =>
    have hsome : Instr.registering? (.schedule f op) = some f := by
      rw [Instr.registering?, hop]
      rfl
    rw [registering_cons_some hsome, users_cons, Bool.toNat_true]

/-- No reference is asked for but by a call that registers its flow. -/
theorem total_owing_le (b : List Char) (p : Multiset (Instr Addr)) :
    total (Instr.owing b) p ≤ users b (registering p) := by
  induction p using Multiset.induction_on with
  | empty => exact le_rfl
  | cons i p ih =>
    rw [total_cons]
    cases i with
    | schedule f op =>
      have hop := op.owing_add_storing
      rw [users_registering_schedule, Instr.owing]
      split_ifs <;> omega
    | _ =>
      rw [registering_cons_none rfl]
      exact (Nat.zero_add _).trans_le ih

theorem Matched.users_registering_le (h : Matched flows s p) (b : List Char) :
    users b (registering p) ≤ users b flows :=
  Multiset.countP_le_of_le _ (Multiset.le_iff_subset h.nodup |>.mpr h.present)

theorem Matched.relies {op : Op (List Char)} (h : Matched flows s (.schedule f op ::ₘ p)) :
    Relies f.bandwidthID s op where
  about := h.about f op (Multiset.mem_cons_self _ _)
  positive := h.positive f.bandwidthID
  locked := by
    intro hcritical
    have hlock := h.lock
    have hself : Instr.critical (.schedule f op) = op.critical := rfl
    rw [total_cons, hself, hcritical] at hlock
    cases hmu : s.sharedMu with
    | true => rfl
    | false =>
      rw [hmu, Bool.toNat_false] at hlock
      omega
  counted := by
    intro hop hnone
    have hcounts := h.counts f.bandwidthID
    have howing := total_owing_le f.bandwidthID p
    have hle := h.users_registering_le f.bandwidthID
    have hrefs : s.refs f.bandwidthID = 0 := by rw [Scheduler.refs, hnone, Option.getD_none]
    have hop' := op.owing_add_storing
    have hkind : 0 < op.releasing + op.storing.toNat := by
      rcases hop with hop | hop
      · omega
      · rw [hop, Bool.toNat_true]
        omega
    rw [users_registering_schedule, if_pos rfl] at hle
    rw [hrefs, total_cons, total_cons, Instr.owing, Instr.releasing, if_pos rfl, if_pos rfl]
      at hcounts
    omega
  gone := h.gone f op (Multiset.mem_cons_self _ _)

theorem registering_schedule_le {op op' : Op (List Char)}
    (h : op'.registering = true → op.registering = true) :
    registering (.schedule f op' ::ₘ p) ≤ registering (.schedule f op ::ₘ p) := by
  cases hop : op'.registering with
  | false =>
    have hnone : Instr.registering? (.schedule f op') = none := by
      rw [Instr.registering?, hop]
      rfl
    rw [registering_cons_none hnone]
    exact registering_le_cons _ p
  | true =>
    have hsome (o : Op (List Char)) (ho : o.registering = true) :
        Instr.registering? (.schedule f o) = some f := by
      rw [Instr.registering?, ho]
      rfl
    rw [registering_cons_some (hsome op' hop), registering_cons_some (hsome op (h hop))]

theorem waits_step {k : Op (List Char) → Bool} {U U' : List Char → Prop} {op op' : Op (List Char)}
    (h : ∀ b, U b → ∃ f' o, .schedule f' o ∈ (.schedule f op ::ₘ p) ∧ f'.bandwidthID = b ∧
      k o = true)
    (hself : U' f.bandwidthID → k op' = true ∨ k op = false ∧ U f.bandwidthID)
    (hothers : ∀ b, b ≠ f.bandwidthID → U' b → U b) (b : List Char) (hb : U' b) :
    ∃ f' o, .schedule f' o ∈ (.schedule f op' ::ₘ p) ∧ f'.bandwidthID = b ∧ k o = true := by
  have hwaits : U b → (f.bandwidthID = b → k op = false) →
      ∃ f' o, .schedule f' o ∈ (.schedule f op' ::ₘ p) ∧ f'.bandwidthID = b ∧ k o = true := by
    intro hbefore hop
    obtain ⟨f', o, hmem, hf', hk⟩ := h b hbefore
    rcases Multiset.mem_cons.mp hmem with heq | hmem
    · cases heq
      rw [hop hf'] at hk
      cases hk
    · exact ⟨f', o, Multiset.mem_cons_of_mem hmem, hf', hk⟩
  by_cases hid : b = f.bandwidthID
  · subst hid
    rcases hself hb with hk | ⟨hop, hbefore⟩
    · exact ⟨f, op', Multiset.mem_cons_self _ _, rfl, hk⟩
    · exact hwaits hbefore fun _ => hop
  · exact hwaits (hothers b hid hb) fun heq => absurd heq.symm hid

/-- While a call deletes an entry, it has the lock, and no other call does. -/
theorem Matched.critical_eq_zero {f' : Flow Addr} {op o : Op (List Char)}
    (h : Matched flows s (.schedule f op ::ₘ p)) (hmem : .schedule f' o ∈ p)
    (hdeleting : o.deleting = true) : op.critical = 0 := by
  have hcritical : 1 ≤ total Instr.critical p := by
    rw [← Op.critical_of_deleting hdeleting]
    exact le_total Instr.critical hmem
  have hlock := h.lock
  have hmu := Bool.toNat_le s.sharedMu
  rw [total_cons] at hlock
  simp only [Instr.critical] at hlock
  omega

theorem Matched.schedules {op op' : Op (List Char)} {t : Scheduler (List Char)}
    (h : Matched flows s (.schedule f op ::ₘ p))
    (hadvance : s.advance none false op = some (t, op')) :
    Matched flows t (.schedule f op' ::ₘ p) := by
  have hstep : SharedStep f.bandwidthID s op t op' := advance_shared h.relies hadvance
  have hregs := registering_schedule_le (p := p) (f := f) hstep.registering
  have hrefs (b : List Char) (hb : b ≠ f.bandwidthID) : t.refs b = s.refs b := by
    rw [Scheduler.refs, Scheduler.refs, hstep.lookup_of_ne b hb]
  exact {
    about := by
      intro f' o hmem
      rcases Multiset.mem_cons.mp hmem with heq | hmem
      · cases heq
        exact hstep.about
      · exact h.about f' o (Multiset.mem_cons_of_mem hmem)
    positive := by
      intro b c hc
      by_cases hb : b = f.bandwidthID
      · exact hstep.positive c (hb ▸ hc)
      · exact h.positive b c (hstep.lookup_of_ne b hb ▸ hc)
    counts := by
      intro b
      have hcounts := h.counts b
      rw [total_cons, total_cons] at hcounts ⊢
      by_cases hb : f.bandwidthID = b
      · subst hb
        have hmoves := hstep.refs
        simp only [Instr.owing, Instr.releasing, if_true] at hcounts ⊢
        omega
      · simp only [Instr.owing, Instr.releasing, if_neg hb] at hcounts ⊢
        rw [hrefs b (Ne.symm hb)]
        exact hcounts
    nodup := Multiset.nodup_of_le hregs h.nodup
    present := fun f' hf' => h.present (Multiset.mem_of_le hregs hf')
    lock := by
      have hlock := h.lock
      have hmoves := hstep.lock
      rw [total_cons] at hlock ⊢
      simp only [Instr.critical] at hlock ⊢
      omega
    gone := by
      intro f' o hmem hdeleting
      rcases Multiset.mem_cons.mp hmem with heq | hmem
      · cases heq
        exact hstep.deleting hdeleting
      · have hnone := h.gone f' o (Multiset.mem_cons_of_mem hmem) hdeleting
        by_cases hb : f'.bandwidthID = f.bandwidthID
        · rw [hb, hstep.lookup_of_free (h.critical_eq_zero hmem hdeleting), ← hb]
          exact hnone
        · rw [hstep.lookup_of_ne _ hb]
          exact hnone
    stores := by
      refine waits_step h.stores hstep.unstored fun b hid hb => ?_
      rwa [Scheduler.Unstored, hstep.load_of_ne b hid, hstep.lookup_of_ne b hid] at hb
    deletes := by
      refine waits_step h.deletes hstep.undeleted fun b hid hb => ?_
      rwa [Scheduler.Undeleted, hstep.load_of_ne b hid, hstep.lookup_of_ne b hid] at hb }

theorem matched_schedule {op : Op (List Char)} :
    Matched flows s ((schedule f op).foldr Multiset.cons p) ↔
      Matched flows s (.schedule f op ::ₘ p) := by
  cases op with
  | done =>
    have hdone : (Instr.schedule f .done).Quiet := ⟨trivial, rfl⟩
    exact (matched_cons_quiet hdone).symm
  | _ => exact Iff.rfl

theorem registering_foldr {l : List (Instr Addr)} (h : ∀ j ∈ l, j.registering? = none) :
    registering (l.foldr Multiset.cons p) = registering p := by
  induction l with
  | nil => rfl
  | cons j l ih =>
    rw [List.foldr_cons, registering_cons_none (h j List.mem_cons_self)]
    exact ih fun k hk => h k (List.mem_cons_of_mem j hk)

theorem Matched.removesAll {gone rest : List (Flow Addr)}
    (h : Matched ((gone ++ rest : List (Flow Addr)) : Multiset (Flow Addr)) s p)
    (hgone : ∀ f ∈ gone, f ∉ registering p) :
    Matched (rest : Multiset (Flow Addr)) s ((gone.map .cleanup).foldr Multiset.cons p) := by
  induction gone generalizing rest with
  | nil => exact h
  | cons f gone ih =>
    have hmiddle : ((f :: gone ++ rest : List (Flow Addr)) : Multiset (Flow Addr)) =
        (gone ++ f :: rest : List (Flow Addr)) := Multiset.coe_eq_coe.mpr List.perm_middle.symm
    rw [hmiddle] at h
    have htail := ih h fun f' hf' => hgone f' (List.mem_cons_of_mem f hf')
    rw [← Multiset.cons_coe] at htail
    refine htail.removes ?_
    rw [registering_foldr (by simp [Instr.registering?])]
    exact hgone f List.mem_cons_self

end Accounting

/-- No flow is taken out of the table while its `RegisterShared` has not returned. -/
def Registered [DecidableEq Addr] (s : State Addr) (a : Action Addr) : Prop :=
  ∀ t ∈ step s a, ∀ f ∈ s.shared.table.flows,
    f ∈ t.shared.table.flows ∨ f ∉ registering (pending s.goroutines)

instance decidableRegistered [DecidableEq Addr] (s : State Addr) (a : Action Addr) :
    Decidable (Registered s a) :=
  inferInstanceAs (Decidable (∀ t ∈ step s a, ∀ f ∈ s.shared.table.flows, _ ∨ _))

/-- No operation is in progress. -/
def Quiescent (s : State Addr) : Prop := ∀ stack ∈ s.goroutines, stack = []

instance decidableQuiescent (s : State Addr) : Decidable (Quiescent s) :=
  inferInstanceAs (Decidable (∀ stack ∈ s.goroutines, stack = []))

structure Balanced (s : State Addr) : Prop where
  known : Known s
  matched : Matched s.shared.table.flows s.shared.scheduler (pending s.goroutines)

theorem balanced_init (maxFlows totalMbps : ℤ) :
    Balanced (init maxFlows totalMbps : State Addr) where
  known := fun _ h => by simp [init] at h
  matched := by
    refine ⟨fun _ _ h => ?_, fun b c h => ?_, fun b => rfl, Multiset.nodup_zero, fun f h => ?_,
      rfl, fun _ _ h => ?_, fun b h => ?_, fun b h => ?_⟩
    · exact absurd h (Multiset.notMem_zero _)
    · cases h
    · exact absurd h (Multiset.notMem_zero _)
    · exact absurd h (Multiset.notMem_zero _)
    · exact absurd rfl h.2
    · exact absurd rfl h.1

section Steps
variable {m m' : Memory Addr} {i : Instr Addr} {pushed : List (Instr Addr)}
  {p : Multiset (Instr Addr)}

theorem Table.flows_nodup (t : Table Addr) : t.flows.Nodup := .of_map _ t.ids

theorem Effect.matched (heffect : Effect m i m' pushed)
    (hguard : ∀ f ∈ m.table.flows, f ∈ m'.table.flows ∨ f ∉ registering (i ::ₘ p))
    (h : Matched m.table.flows m.scheduler (i ::ₘ p)) :
    Matched m'.table.flows m'.scheduler (pushed.foldr Multiset.cons p) := by
  cases heffect with
  | looks hleaves hi hpushed hflow =>
    have hflows := Multiset.coe_eq_coe.mpr hleaves.perm
    rw [List.nil_append] at hflows
    rw [hflows, matched_cons_quiet (Instr.quiet_of_not_isCall hi)] at h
    exact h.pushes fun j hj => (hpushed j hj).quiet
  | @passes i d hi =>
    have hquiet : i.Quiet := by cases i <;> trivial
    have haddition : (Instr.addIfAbsent d : Instr Addr).Quiet := trivial
    rw [matched_cons_quiet hquiet] at h
    exact (matched_cons_quiet haddition).mpr h
  | @removes i table gone rest hleaves hi hrest hlength =>
    have hquiet := Instr.quiet_of_not_isCall hi
    have hperm := hleaves.perm
    have hnodup := hperm.nodup_iff.mp m.table.flows_nodup
    rw [Multiset.coe_eq_coe.mpr hperm, matched_cons_quiet hquiet] at h
    rw [List.foldr_append]
    refine (h.pushes fun j hj => ?_).removesAll fun f hf => ?_
    · obtain ⟨d, rfl⟩ := hrest j hj
      trivial
    · have hregs : registering (rest.foldr Multiset.cons p) = registering (i ::ₘ p) := by
        rw [registering_cons_none hquiet.none.2.2.1]
        refine registering_foldr fun j hj => ?_
        obtain ⟨d, rfl⟩ := hrest j hj
        rfl
      rw [hregs]
      refine (hguard f (hperm.mem_iff.mpr (List.mem_append_left _ hf))).resolve_left ?_
      exact List.disjoint_of_nodup_append hnodup hf
  | @adds d f table hflows hid hcreated hmax =>
    have hnew : f ∉ (m.table.flows : Multiset (Flow Addr)) := by
      intro hmem
      have hknown := m.table.known f hmem
      rw [hid] at hknown
      exact absurd (List.getElem?_eq_some_iff.mp hknown).1 (lt_irrefl _)
    have haddition : (Instr.addIfAbsent d : Instr Addr).Quiet := trivial
    have hopen : (Instr.sendOpen f : Instr Addr).Quiet := trivial
    rw [matched_cons_quiet haddition, ← matched_cons_quiet hopen] at h
    have hadds := h.adds hnew
    rw [Multiset.cons_coe, ← hflows] at hadds
    exact hadds
  | cleansUp f => exact h.cleansUp
  | schedules hadvance => exact matched_schedule.mpr (h.schedules hadvance)

variable [DecidableEq Addr] {s t : State Addr} {a : Action Addr}

theorem Balanced.step (h : Balanced s) (hguard : Registered s a)
    (hstep : UDPFlows.step s a = some t) : Balanced t := by
  refine ⟨known_step h.known hstep, ?_⟩
  have hmatched := h.matched
  have hflows := hguard t hstep
  rcases step_effect h.known hstep with ⟨i, -, -, hi, rfl⟩ | ⟨g, c, i, rest, m', pushed, rfl,
    hstack, heffect, rfl⟩
  · rw [pending_spawn, matched_cons_quiet (Instr.quiet_of_not_isCall hi)]
    exact hmatched
  · obtain ⟨others, hbefore, hafter⟩ := pending_set hstack pushed
    rw [hbefore] at hmatched hflows
    dsimp only
    rw [hafter]
    exact heffect.matched hflows hmatched

end Steps

theorem users_tunnelID (k : List Char) (flows : List (Flow Addr)) :
    users (tunnelID k) (flows : Multiset (Flow Addr)) = flows.countP fun f => f.routeKey = k := by
  refine (Multiset.coe_countP _ flows).trans (List.countP_congr fun f _ => ?_)
  rw [decide_eq_true_iff, decide_eq_true_iff]
  exact tunnelID_injective.eq_iff

/-- With nothing to come, the references and the entry of an id are those of its flows. -/
theorem Matched.settled {flows : Multiset (Flow Addr)} {s : Scheduler (List Char)}
    (h : Matched flows s 0) (b : List Char) :
    s.refCounts.lookup b = (if users b flows = 0 then none else some (users b flows : ℤ)) ∧
      ((s.registry.load b).isSome ↔ 0 < users b flows) := by
  have hcounts : s.refs b = users b flows := by
    have hcounts := h.counts b
    simpa only [total, Multiset.map_zero, Multiset.sum_zero, Nat.cast_zero, add_zero] using hcounts
  have hstored : ¬ s.Unstored b := by
    intro hu
    obtain ⟨f, op, hmem, -⟩ := h.stores b hu
    exact Multiset.notMem_zero _ hmem
  have hdeleted : ¬ s.Undeleted b := by
    intro hu
    obtain ⟨f, op, hmem, -⟩ := h.deletes b hu
    exact Multiset.notMem_zero _ hmem
  rw [Scheduler.refs] at hcounts
  rw [Scheduler.Unstored] at hstored
  rw [Scheduler.Undeleted] at hdeleted
  rw [Option.isSome_iff_ne_none]
  cases hlookup : s.refCounts.lookup b with
  | none =>
    rw [hlookup, Option.getD_none] at hcounts
    have hzero : users b flows = 0 := by omega
    rw [hzero, if_pos rfl]
    exact ⟨rfl, fun hload => absurd ⟨hload, hlookup⟩ hdeleted, fun hlt => absurd hlt (lt_irrefl 0)⟩
  | some c =>
    have hpositive := h.positive b c hlookup
    rw [hlookup, Option.getD_some] at hcounts
    rw [if_neg (by omega), hcounts]
    refine ⟨rfl, fun _ => by omega, fun _ hload => hstored ⟨hload, ?_⟩⟩
    rw [hlookup]
    exact Option.some_ne_none c

/-- While no flow leaves the table before its reference is taken, the references and the entry of
a UDP route are those of its flows, whenever no operation is in progress. -/
theorem registrations_match [DecidableEq Addr] {maxFlows totalMbps : ℤ}
    {trace : List (Action Addr)} {t : State Addr}
    (hregistered : Along step Registered (init maxFlows totalMbps) trace)
    (hrun : run step (init maxFlows totalMbps) trace = some t) (hquiescent : Quiescent t)
    (port : ℤ) :
    let routeKey := Protocol.routeKey .udp port
    let flows := t.shared.table.flows.countP fun f => f.routeKey = routeKey
    t.shared.scheduler.refCounts.lookup (tunnelID routeKey) =
        (if flows = 0 then none else some (flows : ℤ)) ∧
      ((t.shared.scheduler.registry.load (tunnelID routeKey)).isSome ↔ 0 < flows) := by
  intro routeKey flows
  have hbalanced : Balanced t :=
    invariant_along (fun _ _ _ h hg hs => h.step hg hs) (balanced_init maxFlows totalMbps)
      hregistered hrun
  have hmatched := hbalanced.matched
  rw [pending_eq_zero hquiescent] at hmatched
  have hsettled := hmatched.settled (tunnelID routeKey)
  rw [users_tunnelID] at hsettled
  exact hsettled

/-- Two clients send to a route, and the flow of the first is closed. -/
def closed : List (Action ℕ) :=
  [Action.forwardUDP (query 0 53)] ++ List.replicate 15 (Action.go 0 works) ++
    [Action.forwardUDP (query 1 53)] ++ List.replicate 12 (Action.go 1 works) ++
    [Action.handleOutboundUDPClose 0] ++ List.replicate 6 (Action.go 2 works)

theorem registrations_match_closed :
    ∃ t, run step (init 4 1) closed = some t ∧ Quiescent t ∧
      let routeKey := Protocol.routeKey .udp 53
      let flows := t.shared.table.flows.countP fun f => f.routeKey = routeKey
      flows = 1 ∧ t.shared.scheduler.refCounts.lookup (tunnelID routeKey) =
          (if flows = 0 then none else some (flows : ℤ)) ∧
        ((t.shared.scheduler.registry.load (tunnelID routeKey)).isSome ↔ 0 < flows) := by
  have hregistered : Along step Registered (init 4 1) closed := by decide +kernel
  obtain ⟨t, hrun, hquiescent, hflows⟩ : ∃ t, run step (init 4 1) closed = some t ∧
      (Quiescent t ∧ (t.shared.table.flows.countP fun f =>
        f.routeKey = Protocol.routeKey .udp 53) = 1) := exists_run_of_any (by decide +kernel)
  exact ⟨t, hrun, hquiescent, hflows, registrations_match hregistered hrun hquiescent 53⟩

/-- The second call evicts the flow of the first before its reference is taken; the release is
ignored. Once the second flow is closed too, a reference and an entry are left over. -/
def evictedEarly : List (Action ℕ) :=
  [Action.forwardUDP (query 0 53)] ++ List.replicate 4 (Action.go 0 works) ++
    [Action.forwardUDP (query 1 123)] ++ List.replicate 20 (Action.go 1 works) ++
    List.replicate 11 (Action.go 0 works) ++
    [Action.handleOutboundUDPClose 1] ++ List.replicate 10 (Action.go 2 works)

theorem registrations_leak :
    ∃ t, run step (init 1 1) evictedEarly = some t ∧ Quiescent t ∧ t.shared.table.flows = [] ∧
      t.shared.scheduler.refCounts.lookup (tunnelID (Protocol.routeKey .udp 53)) = some 1 ∧
      (t.shared.scheduler.registry.load (tunnelID (Protocol.routeKey .udp 53))).isSome :=
  exists_run_of_any (by decide +kernel)

end NexusProxy.Peer.UDPFlows
