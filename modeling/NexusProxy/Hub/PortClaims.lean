import NexusProxy.Hub.Claims

/-! Port claims as a partition: what the normalizers of TCP and outbound ports accept, what they
report as rejected, and that the accepted ports depend on the set of claimed ports only. -/
namespace NexusProxy.Hub
open Checks Protocol

def tcpPortNotAllowed (port : ℤ) : RejectedClaim where
  kind := .tcpPort
  code := .tcpPortNotAllowed
  value := itoa port
  reason := "tcp port claim ".toList ++ itoa port ++ " is not in allowedTCPPortClaims".toList

def outboundPortNotAllowed (port : ℤ) : RejectedClaim where
  kind := .outboundPort
  code := .outboundPortNotAllowed
  value := itoa port
  reason := "outbound port ".toList ++ itoa port ++ " is not in allowedOutboundPorts".toList

/-- The rejected list holds the first entries of `all`, and the flag says whether there were
more. -/
structure Normalized.Reports {α : Type*} (n : Normalized α) (all : List RejectedClaim) : Prop where
  rejected : n.rejected = all.take rejectedListBound
  truncated : n.truncated = true ↔ rejectedListBound < all.length

namespace Normalized.Reports
variable {α : Type*} {n : Normalized α} {all : List RejectedClaim}

theorem empty : (Normalized.empty : Normalized α).Reports [] :=
  ⟨rfl, by simp [Normalized.empty]⟩

theorem appendRejected (h : n.Reports all) (entry : RejectedClaim) :
    (n.appendRejected entry).Reports (all ++ [entry]) := by
  have hlength : n.rejected.length = min rejectedListBound all.length := by
    rw [h.rejected, List.length_take]
  have htruncated := h.truncated
  unfold Normalized.appendRejected
  split_ifs with hfull
  · have hle : rejectedListBound ≤ all.length := by omega
    constructor
    · rw [List.take_append_of_le_length hle]
      exact h.rejected
    · rw [List.length_append, List.length_singleton]
      exact iff_of_true rfl (by omega)
  · have hlt : all.length < rejectedListBound := by omega
    constructor
    · dsimp only
      rw [h.rejected, List.take_of_length_le hlt.le, List.take_of_length_le (by simpa using hlt)]
    · rw [List.length_append, List.length_singleton]
      dsimp only
      rw [htruncated]
      exact iff_of_false (by omega) (by omega)

end Normalized.Reports

section Loop
variable {allowed : ℤ → Bool} {invalid : List Char} {entry : ℤ → RejectedClaim}

def denied (allowed : ℤ → Bool) (entry : ℤ → RejectedClaim) (ports : List ℤ) :
    List RejectedClaim :=
  (ports.filter fun port => !allowed port).map entry

theorem addPort_reports {acc next : Normalized ℤ} {port : ℤ} {all : List RejectedClaim}
    (hacc : acc.Reports all) (h : addPort allowed invalid entry acc port = .ok next) :
    next.Reports (all ++ denied allowed entry [port]) := by
  unfold addPort at h
  split_ifs at h with hrange hallowed hdup
  · obtain rfl := Except.ok.inj h
    have hentry : denied allowed entry [port] = [entry port] := by simp [denied, hallowed]
    rw [hentry]
    exact hacc.appendRejected (entry port)
  · obtain rfl := Except.ok.inj h
    simpa [denied, hallowed] using hacc
  · obtain rfl := Except.ok.inj h
    have hnone : denied allowed entry [port] = [] := by simp [denied, hallowed]
    rw [hnone, List.append_nil]
    exact ⟨hacc.rejected, hacc.truncated⟩

theorem addPorts_reports {ports : List ℤ} {out : Normalized ℤ}
    (h : addPorts allowed invalid entry ports = .ok out) :
    out.Reports (denied allowed entry ports) := by
  have hloop {acc last : Normalized ℤ} {all : List RejectedClaim} (hacc : acc.Reports all)
      (hlast : ports.foldlM (addPort allowed invalid entry) acc = .ok last) :
      last.Reports (all ++ denied allowed entry ports) := by
    clear h
    induction ports generalizing acc all with
    | nil =>
      obtain rfl := Except.ok.inj hlast
      simpa [denied] using hacc
    | cons port ports ih =>
      rw [List.foldlM_cons] at hlast
      obtain ⟨next, hnext, hrest⟩ := parts_of_ok hlast
      have hsplit : denied allowed entry (port :: ports) =
          denied allowed entry [port] ++ denied allowed entry ports := by
        rw [denied, denied, denied, ← List.map_append, ← List.filter_append]
        rfl
      rw [hsplit, ← List.append_assoc]
      exact ih (addPort_reports hacc hnext) hrest
  obtain ⟨last, hfold, rfl⟩ := addPorts_eq_ok h
  have hreports := hloop .empty hfold
  rw [List.nil_append] at hreports
  exact ⟨hreports.rejected, hreports.truncated⟩

theorem addPorts_sorted {ports : List ℤ} {out : Normalized ℤ}
    (h : addPorts allowed invalid entry ports = .ok out) : out.accepted.Pairwise (· < ·) := by
  have hnodup : out.accepted.Nodup := (addPorts_spec h).2.1
  have hle : out.accepted.Pairwise (· ≤ ·) := by
    obtain ⟨last, -, rfl⟩ := addPorts_eq_ok h
    exact List.pairwise_insertionSort _ _
  exact (hle.and hnodup).imp fun ⟨hle, hne⟩ => lt_of_le_of_ne hle hne

end Loop

/-- What `out`, the outcome of a normalizer for the claims `ports`, says about them. -/
structure Partitions (normalize : List ℤ → Except (List Char) (Normalized ℤ)) (allowed : ℤ → Bool)
    (entry : ℤ → RejectedClaim) (ports : List ℤ) (out : Normalized ℤ) : Prop where
  sorted : out.accepted.Pairwise (· < ·)
  accepted : ∀ p, p ∈ out.accepted ↔ p ∈ ports ∧ allowed p = true
  rejected : out.rejected = (denied allowed entry ports).take rejectedListBound
  truncated : out.truncated = true ↔ rejectedListBound < (denied allowed entry ports).length
  /-- Neither the order of the claims nor their number of occurrences matters. -/
  stable : ∀ ports', (∀ p, p ∈ ports' ↔ p ∈ ports) →
    ∃ out', normalize ports' = .ok out' ∧ out'.accepted = out.accepted
  again : ∃ out', normalize out.accepted = .ok out' ∧ out'.accepted = out.accepted

section
variable {normalize : List ℤ → Except (List Char) (Normalized ℤ)} {allowed : ℤ → Bool}
  {invalid : List Char} {entry : ℤ → RejectedClaim}

theorem partitions_nil (hnil : normalize [] = .ok .empty) :
    Partitions normalize allowed entry [] .empty where
  sorted := List.Pairwise.nil
  accepted := by simp [Normalized.empty]
  rejected := rfl
  truncated := by simp [Normalized.empty, denied]
  stable := by
    intro ports' hsame
    have hempty : ports' = [] := by simpa [List.eq_nil_iff_forall_not_mem] using hsame
    exact ⟨.empty, by rw [hempty, hnil], rfl⟩
  again := ⟨.empty, hnil, rfl⟩

theorem partitions_addPorts (hnil : normalize [] = .ok .empty)
    (hloop : ∀ ports, ports ≠ [] → normalize ports = addPorts allowed invalid entry ports)
    {ports : List ℤ} {out : Normalized ℤ} (h : addPorts allowed invalid entry ports = .ok out) :
    Partitions normalize allowed entry ports out := by
  obtain ⟨hports, -, hmem⟩ := addPorts_spec h
  have hsorted := addPorts_sorted h
  have hreports := addPorts_reports h
  -- a strictly increasing list is determined by its members
  have hagree (ports' : List ℤ) (hports' : ∀ p ∈ ports', IsPort p)
      (hsame : ∀ p, p ∈ ports' ∧ allowed p = true ↔ p ∈ out.accepted) :
      ∃ out', normalize ports' = .ok out' ∧ out'.accepted = out.accepted := by
    by_cases hempty : ports' = []
    · refine ⟨.empty, by rw [hempty, hnil], ?_⟩
      have hnone : out.accepted = [] := by
        rw [List.eq_nil_iff_forall_not_mem]
        intro p hp
        simp [hempty] at hsame
        exact hsame p hp
      rw [hnone]
      rfl
    · obtain ⟨out', hout'⟩ := addPorts_ok hports'
      refine ⟨out', (hloop ports' hempty).trans hout', ?_⟩
      apply (addPorts_sorted hout').eq_of_mem_iff hsorted
      intro p
      rw [(addPorts_spec hout').2.2, hsame]
  refine ⟨hsorted, hmem, hreports.rejected, hreports.truncated, ?_, ?_⟩
  · intro ports' hsame
    apply hagree ports'
    · intro p hp
      exact hports p ((hsame p).mp hp)
    · intro p
      rw [hsame, hmem]
  · apply hagree out.accepted
    · intro p hp
      exact hports p ((hmem p).mp hp).1
    · intro p
      refine and_iff_left_of_imp fun hp => ?_
      exact ((hmem p).mp hp).2

end

/-- The normalizers of TCP ports and of outbound ports partition the claims by the allow list; an
empty list of outbound ports allows all of them. -/
theorem port_claims_partitioned (cfg : Config) (ports : List ℤ) (out : Normalized ℤ) :
    (normalizeTCPPortClaims cfg ports = .ok out →
      Partitions (normalizeTCPPortClaims cfg) (fun port => port ∈ cfg.allowedTCPPortClaims)
        tcpPortNotAllowed ports out) ∧
    (normalizeOutboundPortClaims cfg true ports = .ok out →
      Partitions (normalizeOutboundPortClaims cfg true)
        (fun port => cfg.allowedOutboundPorts = [] ∨ port ∈ cfg.allowedOutboundPorts)
        outboundPortNotAllowed ports out) := by
  constructor
  · intro h
    have hnil : normalizeTCPPortClaims cfg [] = .ok .empty := rfl
    by_cases hports : ports = []
    · subst hports
      obtain rfl := Except.ok.inj h
      exact partitions_nil hnil
    · unfold normalizeTCPPortClaims at h
      rw [if_neg hports] at h
      split_ifs at h with hdisabled
      refine partitions_addPorts hnil (fun ports' hne => ?_) h
      rw [normalizeTCPPortClaims, if_neg hne, if_neg hdisabled]
      rfl
  · intro h
    have hon : ¬cfg.allowOutbound = false := by
      intro hoff
      simp [normalizeOutboundPortClaims, hoff] at h
    have hnil : normalizeOutboundPortClaims cfg true [] = .ok .empty := by
      simp [normalizeOutboundPortClaims, hon]
    by_cases hports : ports = []
    · subst hports
      obtain rfl := Except.ok.inj (hnil.symm.trans h)
      exact partitions_nil hnil
    · rw [normalizeOutboundPortClaims, if_neg (by decide), if_neg hon, if_neg hports] at h
      refine partitions_addPorts hnil (fun ports' hne => ?_) h
      rw [normalizeOutboundPortClaims, if_neg (by decide), if_neg hon, if_neg hne]
      rfl

/-- A relay that allows two TCP ports and every outbound port. -/
def webRelay : Config where
  allowedTCPPortClaims := [80, 443]
  allowedUDPPortClaims := []
  udpFlowIdleTimeoutDefaultSeconds := 0
  udpFlowIdleTimeoutMinSeconds := 0
  udpFlowIdleTimeoutMaxSeconds := 0
  allowOutbound := true
  allowedOutboundPorts := []

theorem port_claims_partitioned_webRelay :
    (∃ out, normalizeTCPPortClaims webRelay [443, 22, 80, 443, 22] = .ok out ∧
      out.accepted = [80, 443] ∧ out.rejected.length = 2 ∧
      Partitions (normalizeTCPPortClaims webRelay) (fun port => port ∈ [80, 443])
        tcpPortNotAllowed [443, 22, 80, 443, 22] out) ∧
    ∃ out, normalizeOutboundPortClaims webRelay true [443, 22, 443] = .ok out ∧
      out.accepted = [22, 443] ∧
      Partitions (normalizeOutboundPortClaims webRelay true)
        (fun port => ([] : List ℤ) = [] ∨ port ∈ ([] : List ℤ)) outboundPortNotAllowed
        [443, 22, 443] out := by
  refine ⟨⟨_, rfl, by decide, by decide, ?_⟩, ⟨_, rfl, by decide, ?_⟩⟩
  · exact (port_claims_partitioned webRelay [443, 22, 80, 443, 22] _).1 rfl
  · exact (port_claims_partitioned webRelay [443, 22, 443] _).2 rfl

end NexusProxy.Hub
