import Mathlib.Data.List.Basic

/-! The reason of a policy close frame: the encoder of the hub and the parser of the client. -/
namespace NexusProxy.Hub.CloseReason

/-- The bytes of a Go string literal of ASCII characters. -/
def ascii (s : String) : List UInt8 := s.toList.map fun c => UInt8.ofNat c.toNat

def closePolicyReasonPrefix : List UInt8 := ascii "policy:"

def closePolicyReasonTruncTail : List UInt8 := ascii ",..."

def closeReasonByteBudget : ℕ := 123

def closeReasonElided : List UInt8 := ascii "<elided>"

def colon : UInt8 := 58

def comma : UInt8 := 44

/-- The code and the value of a `RejectedClaim`; nothing here reads its kind and its reason. -/
structure RejectedClaim where
  code : List UInt8
  value : List UInt8
  deriving DecidableEq

inductive TerminalKind where
  | policyShaped
  | inputMalformed
  deriving DecidableEq

/-- The class of `closeReasonValueCharsetRE`: lower case letters, digits, `.`, `_` and `-`. -/
def inValueCharset (b : UInt8) : Bool :=
  (97 ≤ b && b ≤ 122) || (48 ≤ b && b ≤ 57) || b == 46 || b == 95 || b == 45

/-- `closeReasonValueCharsetRE.MatchString`: one byte of the class or more, and no others. -/
def matchesValueCharset (value : List UInt8) : Bool := !value.isEmpty && value.all inValueCharset

def truncateBytes (s : List UInt8) (n : ℕ) : List UInt8 := if s.length ≤ n then s else s.take n

def RejectedClaim.shown (r : RejectedClaim) : RejectedClaim where
  code := r.code
  value := if matchesValueCharset r.value then r.value else closeReasonElided

def RejectedClaim.entry (r : RejectedClaim) : List UInt8 := r.code ++ colon :: r.shown.value

def sep (first : Bool) : List UInt8 := if first then [] else [comma]

/-- The loop over the rejected claims: the buffer, and whether a claim was dropped. -/
def encodeEntries : Bool → List UInt8 → List RejectedClaim → List UInt8 × Bool
  | _, buf, [] => (buf, false)
  | first, buf, r :: rest =>
      let need := (sep first).length + r.entry.length
      let reserve := if rest = [] then 0 else closePolicyReasonTruncTail.length
      if closeReasonByteBudget < buf.length + need + reserve then (buf, true)
      else encodeEntries false (buf ++ sep first ++ r.entry) rest

def encodeRejectedReason (kind : TerminalKind) (rejected : List RejectedClaim)
    (fallback : List UInt8) : List UInt8 :=
  match kind with
  | .inputMalformed => truncateBytes fallback closeReasonByteBudget
  | .policyShaped =>
      if rejected = [] then truncateBytes fallback closeReasonByteBudget
      else
        let (buf, dropped) := encodeEntries true closePolicyReasonPrefix rejected
        if dropped then buf ++ closePolicyReasonTruncTail else buf

/-- What the parser returns. -/
structure Parsed where
  rejected : List RejectedClaim
  truncated : Bool
  rawFallback : List UInt8
  deriving DecidableEq

/-- One entry, split at its first colon; `none` for a malformed one. -/
def parseEntry (entry : List UInt8) : Option RejectedClaim :=
  match entry.findIdx? (· == colon) with
  | some idx =>
      if idx = 0 ∨ idx = entry.length - 1 then none
      else some ⟨entry.take idx, entry.drop (idx + 1)⟩
  | none => none

def parsePolicyCloseReason (text : List UInt8) : Parsed :=
  if closePolicyReasonPrefix.isPrefixOf text then
    let body := text.drop closePolicyReasonPrefix.length
    let truncated := closePolicyReasonTruncTail.isSuffixOf body
    let body :=
      if truncated then body.take (body.length - closePolicyReasonTruncTail.length) else body
    if body = [] then ⟨[], truncated, []⟩
    else
      match (body.splitOn comma).mapM parseEntry with
      | some rejected => ⟨rejected, truncated, []⟩
      | none => ⟨[], false, text⟩
  else ⟨[], false, text⟩

/-- A code that the separators of the reason do not break. -/
def WellFormed (r : RejectedClaim) : Prop := r.code ≠ [] ∧ colon ∉ r.code ∧ comma ∉ r.code

section Encoder

/-- The entries as the encoder lays them out, the first one with or without a separator. -/
def joined : Bool → List RejectedClaim → List UInt8
  | _, [] => []
  | first, r :: rest => sep first ++ r.entry ++ joined false rest

theorem joined_eq_intercalate (rs : List RejectedClaim) :
    joined true rs = [comma].intercalate (rs.map RejectedClaim.entry) := by
  have hrest (r : RejectedClaim) (rs : List RejectedClaim) :
      r.entry ++ joined false rs =
        [comma].intercalate (r.entry :: rs.map RejectedClaim.entry) := by
    induction rs generalizing r with
    | nil => simp [joined, List.intercalate]
    | cons r' rs ih =>
      rw [joined, List.map_cons, List.intercalate_cons_cons, ← ih r']
      simp [sep]
  cases rs with
  | nil => rfl
  | cons r rs =>
    rw [joined, List.map_cons, ← hrest]
    rfl

/-- The loop keeps the entries up to the first one that does not fit, and always leaves room
for the tail unless it has kept them all. -/
theorem encodeEntries_spec (rs : List RejectedClaim) (first : Bool) (buf : List UInt8)
    (hbuf : buf.length + closePolicyReasonTruncTail.length ≤ closeReasonByteBudget) :
    ∃ kept, kept <+: rs ∧
      encodeEntries first buf rs = (buf ++ joined first kept, decide (kept ≠ rs)) ∧
      (buf ++ joined first kept).length ≤ closeReasonByteBudget ∧
      (kept ≠ rs → (buf ++ joined first kept).length + closePolicyReasonTruncTail.length ≤
        closeReasonByteBudget) := by
  induction rs generalizing first buf with
  | nil =>
    refine ⟨[], List.prefix_refl [], by simp [encodeEntries, joined], ?_, fun h => absurd rfl h⟩
    rw [joined, List.append_nil]
    omega
  | cons r rest ih =>
    have hjoined (kept : List RejectedClaim) : buf ++ joined first (r :: kept) =
        buf ++ sep first ++ r.entry ++ joined false kept := by
      simp only [joined, List.append_assoc]
    have hlength : (buf ++ sep first ++ r.entry).length =
        buf.length + ((sep first).length + r.entry.length) := by
      simp only [List.length_append]
      omega
    rw [encodeEntries]
    by_cases hfull : closeReasonByteBudget < buf.length + ((sep first).length + r.entry.length) +
        if rest = [] then 0 else closePolicyReasonTruncTail.length
    · rw [if_pos hfull]
      refine ⟨[], List.nil_prefix, by simp [joined], ?_, fun _ => ?_⟩
      · rw [joined, List.append_nil]
        omega
      · rwa [joined, List.append_nil]
    · rw [if_neg hfull]
      by_cases hrest : rest = []
      · -- The last entry may use the room that the others leave for the tail.
        subst hrest
        rw [if_pos rfl] at hfull
        refine ⟨[r], List.prefix_refl [r], ?_, ?_, fun h => absurd rfl h⟩
        · rw [hjoined]
          simp [encodeEntries, joined]
        · rw [hjoined, joined, List.append_nil]
          omega
      · rw [if_neg hrest] at hfull
        obtain ⟨kept, hkept, heq, hlen, hroom⟩ := ih false (buf ++ sep first ++ r.entry) (by omega)
        refine ⟨r :: kept, (List.prefix_cons_inj r).mpr hkept, ?_, ?_, fun hne => ?_⟩
        · rw [hjoined, heq]
          simp
        · rwa [hjoined]
        · rw [hjoined]
          exact hroom fun heq => hne (congrArg _ heq)

/-- The reason of a policy close is a list of entries, and the tail if there are more. -/
theorem encodeRejectedReason_spec {rs : List RejectedClaim} (hne : rs ≠ [])
    (fallback : List UInt8) :
    ∃ kept, kept <+: rs ∧
      (encodeRejectedReason .policyShaped rs fallback).length ≤ closeReasonByteBudget ∧
      encodeRejectedReason .policyShaped rs fallback =
        closePolicyReasonPrefix ++ ([comma].intercalate (kept.map RejectedClaim.entry) ++
          if kept = rs then [] else closePolicyReasonTruncTail) := by
  obtain ⟨kept, hkept, heq, hlen, hroom⟩ :=
    encodeEntries_spec rs true closePolicyReasonPrefix (by decide)
  have hencode : encodeRejectedReason .policyShaped rs fallback =
      closePolicyReasonPrefix ++ joined true kept ++
        if kept = rs then [] else closePolicyReasonTruncTail := by
    rw [encodeRejectedReason]
    dsimp only
    rw [if_neg hne, heq]
    by_cases hall : kept = rs <;> simp [hall]
  refine ⟨kept, hkept, ?_, ?_⟩
  · rw [hencode, List.length_append]
    split_ifs with hall
    · simpa using hlen
    · exact hroom hall
  · rw [hencode, joined_eq_intercalate, List.append_assoc]

/-- Whatever ends the session, its reason fits into the close frame. -/
theorem encodeRejectedReason_length_le (kind : TerminalKind) (rs : List RejectedClaim)
    (fallback : List UInt8) :
    (encodeRejectedReason kind rs fallback).length ≤ closeReasonByteBudget := by
  have htruncate : (truncateBytes fallback closeReasonByteBudget).length ≤
      closeReasonByteBudget := by
    unfold truncateBytes
    split_ifs with hshort
    · exact hshort
    · exact List.length_take_le _ _
  cases kind with
  | inputMalformed => exact htruncate
  | policyShaped =>
    by_cases hne : rs = []
    · rw [encodeRejectedReason, if_pos hne]
      exact htruncate
    · obtain ⟨-, -, hlen, -⟩ := encodeRejectedReason_spec hne fallback
      exact hlen

end Encoder

section Parser
variable {r : RejectedClaim}

theorem mem_entry_colon (r : RejectedClaim) : colon ∈ r.entry := by
  simp [RejectedClaim.entry]

theorem shown_value (r : RejectedClaim) : r.shown.value ≠ [] ∧ comma ∉ r.shown.value := by
  rw [RejectedClaim.shown]
  dsimp only
  split_ifs with hmatch
  · simp only [matchesValueCharset, Bool.and_eq_true, Bool.not_eq_true', List.isEmpty_eq_false_iff,
      List.all_eq_true] at hmatch
    refine ⟨hmatch.1, fun hmem => ?_⟩
    have hcomma := hmatch.2 comma hmem
    exact absurd hcomma (by decide)
  · decide

theorem comma_notMem_entry (h : WellFormed r) : comma ∉ r.entry := by
  rw [RejectedClaim.entry, List.mem_append, List.mem_cons]
  rintro (hcode | heq | hvalue)
  · exact h.2.2 hcode
  · exact absurd heq (by decide)
  · exact (shown_value r).2 hvalue

theorem parseEntry_entry (h : WellFormed r) : parseEntry r.entry = some r.shown := by
  have hidx : r.entry.findIdx? (· == colon) = some r.code.length := by
    rw [RejectedClaim.entry, List.findIdx?_append, List.findIdx?_eq_none_iff.mpr]
    · simp [List.findIdx?_cons]
    · intro b hb
      exact beq_eq_false_iff_ne.mpr fun heq => h.2.1 (heq ▸ hb)
  have hcode : 0 < r.code.length := List.length_pos_iff.mpr h.1
  have hvalue : 0 < r.shown.value.length := List.length_pos_iff.mpr (shown_value r).1
  rw [parseEntry, hidx]
  dsimp only
  rw [if_neg]
  · simp [RejectedClaim.entry, RejectedClaim.shown]
  · simp only [RejectedClaim.entry, List.length_append, List.length_cons]
    omega

theorem mapM_parseEntry {rs : List RejectedClaim} (h : ∀ r ∈ rs, WellFormed r) :
    (rs.map RejectedClaim.entry).mapM parseEntry = some (rs.map RejectedClaim.shown) := by
  induction rs with
  | nil => rfl
  | cons r rs ih =>
    rw [List.map_cons, List.mapM_cons, parseEntry_entry (h r List.mem_cons_self),
      ih fun r hr => h r (List.mem_cons_of_mem _ hr)]
    rfl

theorem splitOn_entries {rs : List RejectedClaim} (hne : rs ≠ []) (h : ∀ r ∈ rs, WellFormed r) :
    ([comma].intercalate (rs.map RejectedClaim.entry)).splitOn comma =
      rs.map RejectedClaim.entry := by
  refine List.splitOn_intercalate comma ?_ (by simpa using hne)
  intro entry hentry
  obtain ⟨r, hr, rfl⟩ := List.mem_map.mp hentry
  exact comma_notMem_entry (h r hr)

/-- No list of entries ends like a truncated one: after its last comma there is a colon. -/
theorem not_tail_suffix {rs : List RejectedClaim} (hne : rs ≠ []) (h : ∀ r ∈ rs, WellFormed r) :
    ¬ closePolicyReasonTruncTail <:+ [comma].intercalate (rs.map RejectedClaim.entry) := by
  rintro ⟨init, hinit⟩
  have hsplit := splitOn_entries hne h
  have htail : closePolicyReasonTruncTail = comma :: ascii "..." := rfl
  rw [← hinit, htail, List.splitOn, List.splitOnP_append_cons _ _ (by simp)] at hsplit
  have hdots : ascii "..." ∈ rs.map RejectedClaim.entry := by
    rw [← hsplit]
    exact List.mem_append_right _ (by decide)
  obtain ⟨r, -, hr⟩ := List.mem_map.mp hdots
  have hcolon := mem_entry_colon r
  rw [hr] at hcolon
  exact absurd hcolon (by decide)

theorem parse_body (body : List UInt8) (dropped : Bool)
    (hbody : dropped = false → ¬ closePolicyReasonTruncTail <:+ body) :
    parsePolicyCloseReason (closePolicyReasonPrefix ++
      (body ++ if dropped then closePolicyReasonTruncTail else [])) =
      if body = [] then ⟨[], dropped, []⟩
      else match (body.splitOn comma).mapM parseEntry with
        | some rejected => ⟨rejected, dropped, []⟩
        | none => ⟨[], false, closePolicyReasonPrefix ++
            (body ++ if dropped then closePolicyReasonTruncTail else [])⟩ := by
  rw [parsePolicyCloseReason, if_pos (List.isPrefixOf_iff_prefix.mpr (List.prefix_append _ _)),
    List.drop_left]
  cases dropped with
  | true =>
    have hsuffix : closePolicyReasonTruncTail.isSuffixOf (body ++ closePolicyReasonTruncTail) :=
      List.isSuffixOf_iff_suffix.mpr (List.suffix_append _ _)
    simp only [if_true, hsuffix, List.length_append, Nat.add_sub_cancel, List.take_left']
  | false =>
    have hsuffix : closePolicyReasonTruncTail.isSuffixOf body = false := by
      rw [← Bool.not_eq_true, List.isSuffixOf_iff_suffix]
      exact hbody rfl
    simp only [Bool.false_eq_true, if_false, List.append_nil, hsuffix]

/-- The parser reads a list of entries back, with or without the tail. -/
theorem parse_entries {kept : List RejectedClaim} (h : ∀ r ∈ kept, WellFormed r)
    (dropped : Bool) (hdropped : kept = [] → dropped = true) :
    parsePolicyCloseReason (closePolicyReasonPrefix ++
      ([comma].intercalate (kept.map RejectedClaim.entry) ++
        if dropped then closePolicyReasonTruncTail else [])) =
      ⟨kept.map RejectedClaim.shown, dropped, []⟩ := by
  by_cases hne : kept = []
  · subst hne
    rw [hdropped rfl]
    decide
  · rw [parse_body _ _ fun _ => not_tail_suffix hne h, splitOn_entries hne h, mapM_parseEntry h,
      if_neg]
    obtain ⟨r, rest, rfl⟩ := List.exists_cons_of_ne_nil hne
    intro hempty
    rw [← joined_eq_intercalate, joined] at hempty
    simp only [List.append_eq_nil_iff] at hempty
    exact absurd (mem_entry_colon r) (by simp [hempty.1.2])

end Parser

/-- What the hub puts into the close frame the client reads back: the first claims, with their
codes and with the values that may be shown, and whether there were more. -/
theorem policyReason_survives {rs : List RejectedClaim} (hne : rs ≠ [])
    (hrs : ∀ r ∈ rs, WellFormed r) (fallback : List UInt8) :
    (encodeRejectedReason .policyShaped rs fallback).length ≤ 123 ∧
      ∃ kept, kept <+: rs ∧
        parsePolicyCloseReason (encodeRejectedReason .policyShaped rs fallback) =
          ⟨kept.map RejectedClaim.shown, decide (kept ≠ rs), []⟩ := by
  obtain ⟨kept, hkept, hlen, heq⟩ := encodeRejectedReason_spec hne fallback
  refine ⟨hlen, kept, hkept, ?_⟩
  have hparse := parse_entries (fun r hr => hrs r (hkept.subset hr)) (decide (kept ≠ rs))
    (fun hnil => by simpa [hnil] using hne.symm)
  rw [heq, ← hparse]
  by_cases hall : kept = rs <;> simp [hall]

/-- A claim that is shown, one whose value is elided, and one that does not fit. -/
def threeClaims : List RejectedClaim :=
  [⟨ascii "tcp_port_not_allowed", ascii "25"⟩,
    ⟨ascii "hostname_reserved_route_key", ascii "tcp:25"⟩,
    ⟨ascii "outbound_port_not_allowed", List.replicate 70 48⟩]

theorem threeClaims_survive :
    (∃ r ∈ threeClaims, r.shown ≠ r) ∧
      (encodeRejectedReason .policyShaped threeClaims []).length ≤ 123 ∧
      ∃ kept, kept <+: threeClaims ∧
        parsePolicyCloseReason (encodeRejectedReason .policyShaped threeClaims []) =
          ⟨kept.map RejectedClaim.shown, decide (kept ≠ threeClaims), []⟩ := by
  have hwell : ∀ r ∈ threeClaims, WellFormed r := by
    unfold WellFormed
    decide
  exact ⟨by decide, policyReason_survives (by decide) hwell []⟩

end NexusProxy.Hub.CloseReason
