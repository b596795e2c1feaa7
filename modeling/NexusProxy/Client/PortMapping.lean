import NexusProxy.Hostnames.Canonical
import NexusProxy.Lib.Checks
import NexusProxy.Lib.Collections

/-! The client's port mappings: `finalize` folds the overrides of a mapping, in the order in which
Go happens to iterate over the map, into exact names and wildcards, and `Resolve` picks a target. -/
namespace NexusProxy.Client
open Checks Collections Hostnames

structure WildcardRoute where
  pattern : List Char
  suffix : List Char
  target : List Char
  deriving DecidableEq

/-- A raw pattern of the map `Hosts` with its target. -/
abbrev Override := Sigma fun _ : List Char => List Char

/-- `Hosts` is `none` for a nil map. -/
structure PortMapping where
  default : List Char
  hosts : Option (AList fun _ : List Char => List Char)
  wild : List WildcardRoute

def matchesWildcard (host suffix : List Char) : Bool :=
  if suffix.isSuffixOf host then
    let label := host.take (host.length - suffix.length)
    if label = [] then false else !decide ('.' ∈ label)
  else false

def byteLength (s : List Char) : ℕ := (s.map Char.utf8Size).sum

/-- The stable sort by decreasing length of the suffix. -/
def sortBySuffix (routes : List WildcardRoute) : List WildcardRoute :=
  routes.insertionSort fun a b => byteLength b.suffix ≤ byteLength a.suffix

/-- The variables of the loop of `finalize`. -/
structure Overrides where
  exacts : AList fun _ : List Char => List Char
  wildcards : List WildcardRoute

section
variable (u : Unicode)

def addOverride (acc : Overrides) (entry : Override) : Except (List Char) Overrides :=
  let target := trimSpace u entry.2
  if target = [] then
    .error ("port mapping override '".toList ++ entry.1 ++ "' has empty target".toList)
  else
    let normalizedPattern := normalizeOrWildcard u entry.1
    if normalizedPattern = [] then
      .error ("invalid hostname pattern '".toList ++ entry.1 ++ "' in port mapping".toList)
    else if isWildcard normalizedPattern then
      .ok { acc with
        wildcards := acc.wildcards ++ [⟨normalizedPattern, normalizedPattern.drop 1, target⟩] }
    else .ok { acc with exacts := acc.exacts.insert normalizedPattern target }

namespace PortMapping

def entries (pm : PortMapping) : List Override := (pm.hosts.getD ∅).entries

/-- `order` is the order of the iteration over `Hosts`. -/
def finalize (pm : PortMapping) (order : List Override) : Except (List Char) PortMapping :=
  let default := trimSpace u pm.default
  if pm.entries = [] then .ok ⟨default, none, []⟩
  else
    (order.foldlM (addOverride u) ⟨∅, []⟩).map fun out =>
      ⟨default, some out.exacts, sortBySuffix out.wildcards⟩

/-- The target of an override for the host, if there is one. -/
def override (pm : PortMapping) (host : List Char) : Option (List Char) :=
  match pm.hosts with
  | none => none
  | some hosts =>
      match hosts.lookup host with
      | some target => some target
      | none => (pm.wild.find? fun wc => matchesWildcard host wc.suffix).map (·.target)

def resolve (pm : PortMapping) (hostname : List Char) : Option (List Char) :=
  let found :=
    if hostname ≠ [] then
      let host := normalize u hostname
      if host ≠ [] then pm.override host else none
    else none
  match found with
  | some target => some target
  | none => if pm.default ≠ [] then some pm.default else none

end PortMapping

end

/-! ### Wildcards -/

section
variable {host suffix label : List Char}

theorem matchesWildcard_append (label suffix : List Char) :
    matchesWildcard (label ++ suffix) suffix =
      if label = [] then false else !decide ('.' ∈ label) := by
  unfold matchesWildcard
  rw [if_pos (List.isSuffixOf_iff_suffix.mpr ⟨label, rfl⟩), List.length_append,
    Nat.add_sub_cancel, List.take_left]

theorem matchesWildcard_iff :
    matchesWildcard host suffix = true ↔
      ∃ label, label ≠ [] ∧ '.' ∉ label ∧ host = label ++ suffix := by
  constructor
  · intro h
    have hsuffix : suffix.isSuffixOf host = true := by
      by_contra hno
      rw [matchesWildcard, if_neg hno] at h
      cases h
    obtain ⟨label, rfl⟩ := List.isSuffixOf_iff_suffix.mp hsuffix
    rw [matchesWildcard_append] at h
    split_ifs at h with hnil
    exact ⟨label, hnil, by simpa using h, rfl⟩
  · rintro ⟨label, hne, hdot, rfl⟩
    rw [matchesWildcard_append, if_neg hne]
    simpa using hdot

theorem dropWhile_label (hdot : '.' ∉ label) (rest : List Char) :
    (label ++ '.' :: rest).dropWhile (· ≠ '.') = '.' :: rest := by
  rw [List.dropWhile_append_of_pos]
  · exact List.dropWhile_cons_of_neg (by decide)
  · intro c hc
    simp only [ne_eq, decide_eq_true_eq]
    rintro rfl
    exact hdot hc

/-- A host matches one suffix at most. -/
theorem suffix_of_matchesWildcard {rest : List Char}
    (h : matchesWildcard host ('.' :: rest) = true) :
    '.' :: rest = host.dropWhile (· ≠ '.') := by
  obtain ⟨label, -, hdot, rfl⟩ := matchesWildcard_iff.mp h
  exact (dropWhile_label hdot rest).symm

theorem firstDotSuffix_eq_some_iff {u : Unicode} {rest : List Char}
    (hhost : normalize u host = host) :
    firstDotSuffix u host = some ('.' :: rest) ↔
      ∃ label, label ≠ [] ∧ '.' ∉ label ∧ host = label ++ '.' :: rest := by
  unfold firstDotSuffix
  rw [hhost]
  constructor
  · intro h
    dsimp only at h
    split_ifs at h with hnone
    push Not at hnone
    have hsplit := List.takeWhile_append_dropWhile (p := (· ≠ '.')) (l := host)
    rw [Option.some.inj h] at hsplit hnone
    refine ⟨host.takeWhile (· ≠ '.'), ?_, ?_, hsplit.symm⟩
    · intro hnil
      rw [hnil] at hsplit
      exact hnone.2 hsplit
    · intro hdot
      exact absurd (List.mem_takeWhile_imp hdot) (by decide)
  · rintro ⟨label, hne, hdot, rfl⟩
    dsimp only
    rw [dropWhile_label hdot, if_neg]
    rintro (h | h)
    · cases h
    · exact hne (List.append_left_eq_self.mp h.symm)

theorem wildcardSuffix_eq_some {u : Unicode} {pattern : List Char}
    (h : wildcardSuffix u pattern = some suffix) : ∃ rest, suffix = '.' :: rest := by
  unfold wildcardSuffix at h
  dsimp only at h
  split_ifs at h with hvalid
  have hwild : isWildcard (normalizeOrWildcard u pattern) = true := by
    simp only [isValidWildcard, Bool.and_eq_true] at hvalid
    exact hvalid.1.1.1
  obtain ⟨rest, hrest⟩ := isWildcard_iff.mp hwild
  rw [hrest] at h
  exact ⟨rest, (Option.some.inj h).symm⟩

/-- Where all suffixes start with a dot, the sort does not change the first match. -/
theorem find?_sortBySuffix {routes : List WildcardRoute}
    (h : ∀ wc ∈ routes, ∃ rest, wc.suffix = '.' :: rest) (host : List Char) :
    (sortBySuffix routes).find? (fun wc => matchesWildcard host wc.suffix) =
      routes.find? fun wc => matchesWildcard host wc.suffix := by
  apply find?_insertionSort
  intro a ha b hb hma hmb
  obtain ⟨rest, hrest⟩ := h a ha
  obtain ⟨rest', hrest'⟩ := h b hb
  rw [hrest] at hma
  rw [hrest'] at hmb
  rw [hrest, hrest', suffix_of_matchesWildcard hma, suffix_of_matchesWildcard hmb]

end

/-- The relay and the client read the same names out of a wildcard: one label before the suffix. No
name matches two suffixes, so the order of the wildcards by length decides nothing. -/
theorem wildcards_agree (u : Unicode) (host : List Char) (hhost : normalize u host = host) :
    (∀ pattern suffix, wildcardSuffix u pattern = some suffix →
      (firstDotSuffix u host = some suffix ↔ matchesWildcard host suffix = true) ∧
        (matchesWildcard host suffix = true ↔
          ∃ label, label ≠ [] ∧ '.' ∉ label ∧ host = label ++ suffix)) ∧
      (∀ pattern pattern' suffix suffix', wildcardSuffix u pattern = some suffix →
        wildcardSuffix u pattern' = some suffix' → matchesWildcard host suffix = true →
        matchesWildcard host suffix' = true → suffix = suffix') ∧
      ∀ routes : List WildcardRoute,
        (∀ wc ∈ routes, ∃ pattern, wildcardSuffix u pattern = some wc.suffix) →
        (sortBySuffix routes).find? (fun wc => matchesWildcard host wc.suffix) =
          routes.find? fun wc => matchesWildcard host wc.suffix := by
  refine ⟨?_, ?_, ?_⟩
  · intro pattern suffix hsuffix
    obtain ⟨rest, rfl⟩ := wildcardSuffix_eq_some hsuffix
    rw [firstDotSuffix_eq_some_iff hhost, matchesWildcard_iff]
    exact ⟨Iff.rfl, Iff.rfl⟩
  · intro pattern pattern' suffix suffix' hsuffix hsuffix' hmatch hmatch'
    obtain ⟨rest, rfl⟩ := wildcardSuffix_eq_some hsuffix
    obtain ⟨rest', rfl⟩ := wildcardSuffix_eq_some hsuffix'
    rw [suffix_of_matchesWildcard hmatch, suffix_of_matchesWildcard hmatch']
  · intro routes hroutes
    apply find?_sortBySuffix
    intro wc hwc
    obtain ⟨pattern, hpattern⟩ := hroutes wc hwc
    exact wildcardSuffix_eq_some hpattern

theorem wildcards_agree_subdomain :
    normalize plainLookup "a.example.com".toList = "a.example.com".toList ∧
      wildcardSuffix plainLookup "*.Example.com".toList = some ".example.com".toList ∧
      firstDotSuffix plainLookup "a.example.com".toList = some ".example.com".toList ∧
      matchesWildcard "a.example.com".toList ".example.com".toList = true := by
  have hhost : normalize plainLookup "a.example.com".toList = "a.example.com".toList := by
    decide +kernel
  have hsuffix :
      wildcardSuffix plainLookup "*.Example.com".toList = some ".example.com".toList := by
    decide +kernel
  have hfirst : firstDotSuffix plainLookup "a.example.com".toList = some ".example.com".toList := by
    decide +kernel
  have hagree := ((wildcards_agree plainLookup "a.example.com".toList hhost).1 _ _ hsuffix).1
  exact ⟨hhost, hsuffix, hfirst, hagree.mp hfirst⟩

/-! ### What a mapping makes of an order -/

section
variable {u : Unicode} {pm : PortMapping} {host : List Char} {e : Override} {order : List Override}

def Override.pattern (u : Unicode) (e : Override) : List Char := normalizeOrWildcard u e.1

def Override.target (u : Unicode) (e : Override) : List Char := trimSpace u e.2

def Override.isExactly (u : Unicode) (host : List Char) (e : Override) : Bool :=
  !isWildcard (e.pattern u) && decide (e.pattern u = host)

def Override.covers (u : Unicode) (host : List Char) (e : Override) : Bool :=
  isWildcard (e.pattern u) && matchesWildcard host ((e.pattern u).drop 1)

def Override.Valid (u : Unicode) (e : Override) : Prop := e.target u ≠ [] ∧ e.pattern u ≠ []

def Override.route (u : Unicode) (e : Override) : WildcardRoute :=
  ⟨e.pattern u, (e.pattern u).drop 1, e.target u⟩

def Overrides.add (u : Unicode) (acc : Overrides) (e : Override) : Overrides :=
  if isWildcard (e.pattern u) then { acc with wildcards := acc.wildcards ++ [e.route u] }
  else { acc with exacts := acc.exacts.insert (e.pattern u) (e.target u) }

theorem addOverride_of_valid (h : e.Valid u) (acc : Overrides) :
    addOverride u acc e = .ok (acc.add u e) := by
  obtain ⟨htarget, hpattern⟩ := h
  unfold addOverride Overrides.add Override.route
  unfold Override.target at htarget ⊢
  unfold Override.pattern at hpattern ⊢
  dsimp only
  rw [if_neg htarget, if_neg hpattern]
  by_cases hwild : isWildcard (normalizeOrWildcard u e.1) = true
  · rw [if_pos hwild, if_pos hwild]
  · rw [if_neg hwild, if_neg hwild]

theorem valid_of_addOverride {acc next : Overrides} (h : addOverride u acc e = .ok next) :
    e.Valid u := by
  unfold addOverride at h
  dsimp only at h
  split_ifs at h with htarget hpattern
  · exact ⟨htarget, hpattern⟩
  · exact ⟨htarget, hpattern⟩

theorem foldlM_addOverride (h : ∀ e ∈ order, e.Valid u) (acc : Overrides) :
    order.foldlM (addOverride u) acc = .ok (order.foldl (Overrides.add u) acc) := by
  induction order generalizing acc with
  | nil => rfl
  | cons e order ih =>
    rw [List.foldlM_cons, addOverride_of_valid (h e List.mem_cons_self)]
    exact ih (fun e' he' => h e' (List.mem_cons_of_mem _ he')) _

theorem foldl_add (acc : Overrides) :
    order.foldl (Overrides.add u) acc =
      { exacts := (order.filter fun e => !isWildcard (e.pattern u)).foldl
          (fun m e => m.insert (e.pattern u) (e.target u)) acc.exacts
        wildcards := acc.wildcards ++
          (order.filter fun e => isWildcard (e.pattern u)).map (Override.route u) } := by
  induction order generalizing acc with
  | nil => simp
  | cons e order ih =>
    rw [List.foldl_cons, ih]
    unfold Overrides.add
    by_cases hwild : isWildcard (e.pattern u) = true
    · simp [hwild]
    · simp [hwild]

/-- The override that decides for a host: the last one of the name, or the first matching wildcard
of the iteration. -/
def chosen (u : Unicode) (host : List Char) (order : List Override) : Option Override :=
  (order.reverse.find? (Override.isExactly u host)).or (order.find? (Override.covers u host))

def PortMapping.fallback (u : Unicode) (pm : PortMapping) : Option (List Char) :=
  if trimSpace u pm.default ≠ [] then some (trimSpace u pm.default) else none

theorem route_suffix (h : isWildcard (e.pattern u) = true) :
    ∃ rest, (e.route u).suffix = '.' :: rest := by
  obtain ⟨rest, hrest⟩ := isWildcard_iff.mp h
  refine ⟨rest, ?_⟩
  unfold Override.route
  rw [hrest]
  rfl

theorem override_foldl (default host : List Char) :
    let out := order.foldl (Overrides.add u) ⟨∅, []⟩
    PortMapping.override ⟨default, some out.exacts, sortBySuffix out.wildcards⟩ host =
      (chosen u host order).map (Override.target u) := by
  have hexact : ((order.filter fun e => !isWildcard (e.pattern u)).foldl
      (fun m e => m.insert (e.pattern u) (e.target u)) ∅ :
        AList fun _ : List Char => List Char).lookup host =
      (order.reverse.find? (Override.isExactly u host)).map (Override.target u) := by
    rw [lookup_foldl_insert, AList.lookup_empty, Option.or_none, ← List.filter_reverse,
      List.find?_filter]
    congr 2
    funext e
    rw [Override.isExactly, Bool.decide_and, Bool.decide_eq_true, Bool.decide_eq_true]
  have hwild : (sortBySuffix
      ((order.filter fun e => isWildcard (e.pattern u)).map (Override.route u))).find?
        (fun wc => matchesWildcard host wc.suffix) =
      (order.find? (Override.covers u host)).map (Override.route u) := by
    rw [find?_sortBySuffix, List.find?_map, List.find?_filter]
    · congr 2
      funext e
      rw [Override.covers, Bool.decide_and, Bool.decide_eq_true, Bool.decide_eq_true]
      rfl
    · intro wc hwc
      obtain ⟨e, he, rfl⟩ := List.mem_map.mp hwc
      exact route_suffix (List.mem_filter.mp he).2
  dsimp only
  rw [foldl_add]
  unfold PortMapping.override chosen
  dsimp only
  rw [hexact, List.nil_append, hwild]
  cases order.reverse.find? (Override.isExactly u host) with
  | some e => rfl
  | none =>
    cases order.find? (Override.covers u host) with
    | some e => rfl
    | none => rfl

theorem valid_of_finalize {f : PortMapping} (hperm : order.Perm pm.entries)
    (h : pm.finalize u order = .ok f) : ∀ e ∈ pm.entries, e.Valid u := by
  unfold PortMapping.finalize at h
  dsimp only at h
  split_ifs at h with hnil
  · simp [hnil]
  · cases hfold : order.foldlM (addOverride u) ⟨∅, []⟩ with
    | error err =>
      rw [hfold] at h
      cases h
    | ok out =>
      intro e he
      exact foldlM_checks (fun _ _ _ hnext => valid_of_addOverride hnext) hfold e
        (hperm.mem_iff.mpr he)

/-- Whether the overrides are accepted does not depend on the order. -/
theorem finalize_of_valid (hperm : order.Perm pm.entries) (h : ∀ e ∈ pm.entries, e.Valid u) :
    ∃ f, pm.finalize u order = .ok f := by
  unfold PortMapping.finalize
  dsimp only
  split_ifs with hnil
  · exact ⟨_, rfl⟩
  · rw [foldlM_addOverride fun e he => h e (hperm.mem_iff.mp he)]
    exact ⟨_, rfl⟩

theorem chosen_nil_host (h : ∀ e ∈ order, e.Valid u) : chosen u [] order = none := by
  have hexact : order.reverse.find? (Override.isExactly u []) = none := by
    rw [List.find?_eq_none]
    intro e he
    simp [Override.isExactly, (h e (List.mem_reverse.mp he)).2]
  have hcovers : order.find? (Override.covers u []) = none := by
    rw [List.find?_eq_none]
    intro e _ hcovers
    obtain ⟨-, hmatch⟩ := Bool.and_eq_true_iff.mp hcovers
    obtain ⟨label, hne, -, happend⟩ := matchesWildcard_iff.mp hmatch
    exact hne (List.append_eq_nil_iff.mp happend.symm).1
  rw [chosen, hexact, hcovers]
  rfl

theorem resolve_finalize {f : PortMapping} (hperm : order.Perm pm.entries)
    (h : pm.finalize u order = .ok f) (hostname : List Char) :
    f.resolve u hostname =
      ((chosen u (normalize u hostname) order).map (Override.target u)).or (pm.fallback u) := by
  have hvalid : ∀ e ∈ order, e.Valid u := fun e he =>
    valid_of_finalize hperm h e (hperm.mem_iff.mp he)
  have hf : f.default = trimSpace u pm.default ∧
      ∀ host, f.override host = (chosen u host order).map (Override.target u) := by
    unfold PortMapping.finalize at h
    dsimp only at h
    split_ifs at h with hnil
    · obtain rfl := Except.ok.inj h
      rw [hnil, List.perm_nil] at hperm
      rw [hperm]
      exact ⟨rfl, fun host => rfl⟩
    · rw [foldlM_addOverride hvalid] at h
      obtain rfl := Except.ok.inj h
      exact ⟨rfl, override_foldl _⟩
  obtain ⟨hdefault, hoverride⟩ := hf
  have hfound : (if hostname ≠ [] then
      if normalize u hostname ≠ [] then f.override (normalize u hostname) else none else none) =
        (chosen u (normalize u hostname) order).map (Override.target u) := by
    by_cases hname : normalize u hostname = []
    · rw [hname, chosen_nil_host hvalid]
      simp
    · have hne : hostname ≠ [] := by
        rintro rfl
        exact hname rfl
      rw [if_pos hne, if_pos hname, hoverride]
  unfold PortMapping.resolve PortMapping.fallback
  dsimp only
  rw [hfound, hdefault]
  cases (chosen u (normalize u hostname) order).map (Override.target u) with
  | some target => rfl
  | none => rfl

end

/-! ### Independence of the order -/

/-- The override is for this host, or it is a wildcard for it and no override is for it. -/
def PortMapping.Decides (u : Unicode) (pm : PortMapping) (host : List Char) (e : Override) : Prop :=
  e.pattern u = host ∨ (∀ e' ∈ pm.entries, e'.pattern u ≠ host) ∧ e.covers u host = true

/-- The overrides of a pattern that decides for the host agree on the target. -/
def PortMapping.Unambiguous (u : Unicode) (pm : PortMapping) (host : List Char) : Prop :=
  ∀ e ∈ pm.entries, ∀ e' ∈ pm.entries, e.pattern u = e'.pattern u → pm.Decides u host e →
    e.target u = e'.target u

/-- The target of the override for this host, or else of a wildcard for it, or else the default. -/
def PortMapping.Selects (u : Unicode) (pm : PortMapping) (host : List Char)
    (result : Option (List Char)) : Prop :=
  (∃ e ∈ pm.entries, e.pattern u = host ∧ result = some (e.target u)) ∨
    (∀ e ∈ pm.entries, e.pattern u ≠ host) ∧
      ((∃ e ∈ pm.entries, e.covers u host = true ∧ result = some (e.target u)) ∨
        (∀ e ∈ pm.entries, e.covers u host = false) ∧ result = pm.fallback u)

section
variable {u : Unicode} {pm : PortMapping} {host : List Char} {e e' : Override}
  {order : List Override}

theorem Override.covers_of_pattern (h : e.pattern u = host) (hwild : isWildcard host = true) :
    e.covers u host = true := by
  obtain ⟨rest, rfl⟩ := isWildcard_iff.mp hwild
  unfold Override.covers
  rw [h, hwild, Bool.true_and]
  exact matchesWildcard_iff.mpr ⟨['*'], by decide, by decide, rfl⟩

theorem Override.pattern_of_covers (h : e.covers u host = true) :
    e.pattern u = '*' :: host.dropWhile (· ≠ '.') := by
  obtain ⟨hwild, hmatch⟩ := Bool.and_eq_true_iff.mp h
  obtain ⟨rest, hrest⟩ := isWildcard_iff.mp hwild
  rw [hrest] at hmatch ⊢
  exact congrArg (List.cons '*') (suffix_of_matchesWildcard hmatch)

theorem Override.isExactly_or_covers (h : e.pattern u = host) :
    e.isExactly u host = true ∨ isWildcard host = true ∧ e.covers u host = true := by
  cases hwild : isWildcard host with
  | true => exact .inr ⟨rfl, e.covers_of_pattern h hwild⟩
  | false =>
    left
    simp [Override.isExactly, h, hwild]

theorem PortMapping.Decides.pattern_eq (he : e ∈ pm.entries) (he' : e' ∈ pm.entries)
    (h : pm.Decides u host e) (h' : pm.Decides u host e') : e.pattern u = e'.pattern u := by
  rcases h with h | ⟨hnone, h⟩
  · rcases h' with h' | ⟨hnone', -⟩
    · rw [h, h']
    · exact absurd h (hnone' e he)
  · rcases h' with h' | ⟨-, h'⟩
    · exact absurd h' (hnone e' he')
    · rw [e.pattern_of_covers h, e'.pattern_of_covers h']

theorem decides_of_chosen (hperm : order.Perm pm.entries) (h : chosen u host order = some e) :
    e ∈ pm.entries ∧ pm.Decides u host e := by
  rcases Option.or_eq_some_iff.mp h with hexact | ⟨hnone, hcovers⟩
  · have hmem := List.mem_reverse.mp (List.mem_of_find?_eq_some hexact)
    have hpattern := List.find?_some hexact
    refine ⟨hperm.mem_iff.mp hmem, .inl ?_⟩
    simp only [Override.isExactly, Bool.and_eq_true, decide_eq_true_eq] at hpattern
    exact hpattern.2
  · have hmem := List.mem_of_find?_eq_some hcovers
    have hmatch := List.find?_some hcovers
    refine ⟨hperm.mem_iff.mp hmem, ?_⟩
    by_cases hnames : ∃ e' ∈ pm.entries, e'.pattern u = host
    · -- only a wildcard can be for this host, and it is of the same pattern
      obtain ⟨e', he', hpattern⟩ := hnames
      rcases e'.isExactly_or_covers hpattern with hexact | ⟨-, hcovers'⟩
      · have hmem' := List.mem_reverse.mpr (hperm.mem_iff.mpr he')
        exact absurd hexact (List.find?_eq_none.mp hnone e' hmem')
      · left
        rw [e.pattern_of_covers hmatch, ← e'.pattern_of_covers hcovers', hpattern]
    · push Not at hnames
      exact .inr ⟨hnames, hmatch⟩

theorem none_of_chosen (hperm : order.Perm pm.entries) (h : chosen u host order = none)
    (he : e ∈ pm.entries) : e.pattern u ≠ host ∧ e.covers u host = false := by
  obtain ⟨hexact, hcovers⟩ := Option.or_eq_none_iff.mp h
  have hcovers' := List.find?_eq_none.mp hcovers e (hperm.mem_iff.mpr he)
  refine ⟨fun hpattern => ?_, by simpa using hcovers'⟩
  rcases e.isExactly_or_covers hpattern with h | ⟨-, h⟩
  · exact List.find?_eq_none.mp hexact e (List.mem_reverse.mpr (hperm.mem_iff.mpr he)) h
  · exact hcovers' h

theorem not_decides_of_chosen (hperm : order.Perm pm.entries) (h : chosen u host order = none)
    (he : e ∈ pm.entries) : ¬pm.Decides u host e := by
  obtain ⟨hname, hcovers⟩ := none_of_chosen hperm h he
  rintro (hdecides | ⟨-, hdecides⟩)
  · exact hname hdecides
  · rw [hcovers] at hdecides
    cases hdecides

theorem selects_of_finalize {f : PortMapping} (hperm : order.Perm pm.entries)
    (h : pm.finalize u order = .ok f) (hostname : List Char) :
    pm.Selects u (normalize u hostname) (f.resolve u hostname) := by
  rw [resolve_finalize hperm h]
  cases hchosen : chosen u (normalize u hostname) order with
  | some e =>
    obtain ⟨he, hpattern | ⟨hnone, hcovers⟩⟩ := decides_of_chosen hperm hchosen
    · exact .inl ⟨e, he, hpattern, rfl⟩
    · exact .inr ⟨hnone, .inl ⟨e, he, hcovers, rfl⟩⟩
  | none =>
    right
    refine ⟨fun e he => (none_of_chosen hperm hchosen he).1, .inr ⟨fun e he => ?_, rfl⟩⟩
    exact (none_of_chosen hperm hchosen he).2

theorem exists_order_chosen (he : e ∈ pm.entries) (h : pm.Decides u host e) :
    ∃ order, order.Perm pm.entries ∧ chosen u host order = some e := by
  cases hexact : e.isExactly u host with
  | true =>
    refine ⟨pm.entries.erase e ++ [e], ?_, ?_⟩
    · exact (List.perm_append_singleton _ _).trans (List.perm_cons_erase he).symm
    · rw [chosen, List.reverse_append, List.reverse_singleton, List.singleton_append,
        List.find?_cons_of_pos hexact]
      rfl
  | false =>
    have hcovers : e.covers u host = true := by
      rcases h with hpattern | ⟨-, hcovers⟩
      · rcases e.isExactly_or_covers hpattern with h | ⟨-, h⟩
        · rw [hexact] at h
          cases h
        · exact h
      · exact hcovers
    have hnone : ∀ e' ∈ pm.entries, e'.isExactly u host = false := by
      intro e' he'
      by_contra hexact'
      have hpattern : !isWildcard (e'.pattern u) ∧ e'.pattern u = host := by
        simpa [Override.isExactly] using hexact'
      rcases h with h | ⟨hnone, -⟩
      · rw [Override.isExactly, h, ← hpattern.2, hpattern.1] at hexact
        simp at hexact
      · exact hnone e' he' hpattern.2
    refine ⟨e :: pm.entries.erase e, (List.perm_cons_erase he).symm, ?_⟩
    have hfind : (e :: pm.entries.erase e).reverse.find? (Override.isExactly u host) = none := by
      rw [List.find?_eq_none]
      intro e' he'
      have hmem := (List.perm_cons_erase he).mem_iff.mpr (List.mem_reverse.mp he')
      rw [hnone e' hmem]
      exact Bool.false_ne_true
    rw [chosen, hfind, List.find?_cons_of_pos hcovers]
    rfl

end

/-- Two orders of the iteration resolve a host alike, to the target of the override for it, of the
wildcard for it or to the default, exactly when the overrides of the deciding pattern agree. -/
theorem resolve_order_independent_iff (u : Unicode) (pm : PortMapping)
    (hok : ∃ order f, order.Perm pm.entries ∧ pm.finalize u order = .ok f)
    (hostname : List Char) :
    (∀ order order' f f', order.Perm pm.entries → order'.Perm pm.entries →
      pm.finalize u order = .ok f → pm.finalize u order' = .ok f' →
        f.resolve u hostname = f'.resolve u hostname ∧
          pm.Selects u (normalize u hostname) (f.resolve u hostname)) ↔
      pm.Unambiguous u (normalize u hostname) := by
  obtain ⟨order₀, f₀, hperm₀, hf₀⟩ := hok
  have hvalid := valid_of_finalize hperm₀ hf₀
  constructor
  · intro h e he e' he' hpattern hdecides
    have hdecides' : pm.Decides u (normalize u hostname) e' := by
      rcases hdecides with hname | ⟨hnone, hcovers⟩
      · exact .inl (hpattern ▸ hname)
      · refine .inr ⟨hnone, ?_⟩
        rwa [Override.covers, ← hpattern]
    obtain ⟨order, hperm, hchosen⟩ := exists_order_chosen he hdecides
    obtain ⟨order', hperm', hchosen'⟩ := exists_order_chosen he' hdecides'
    obtain ⟨f, hf⟩ := finalize_of_valid hperm hvalid
    obtain ⟨f', hf'⟩ := finalize_of_valid hperm' hvalid
    have hsame := (h order order' f f' hperm hperm' hf hf').1
    rw [resolve_finalize hperm hf, resolve_finalize hperm' hf', hchosen, hchosen'] at hsame
    exact Option.some.inj hsame
  · intro hagree order order' f f' hperm hperm' hf hf'
    refine ⟨?_, selects_of_finalize hperm hf hostname⟩
    rw [resolve_finalize hperm hf, resolve_finalize hperm' hf']
    congr 1
    cases hchosen : chosen u (normalize u hostname) order with
    | some e =>
      obtain ⟨he, hdecides⟩ := decides_of_chosen hperm hchosen
      cases hchosen' : chosen u (normalize u hostname) order' with
      | some e' =>
        obtain ⟨he', hdecides'⟩ := decides_of_chosen hperm' hchosen'
        exact congrArg some (hagree e he e' he' (hdecides.pattern_eq he he' hdecides') hdecides)
      | none =>
        exact absurd hdecides (not_decides_of_chosen hperm' hchosen' he)
    | none =>
      cases hchosen' : chosen u (normalize u hostname) order' with
      | some e' =>
        obtain ⟨he', hdecides'⟩ := decides_of_chosen hperm' hchosen'
        exact absurd hdecides' (not_decides_of_chosen hperm hchosen he')
      | none => rfl

def apiAndWildcard : PortMapping where
  default := " localhost:80 ".toList
  hosts := some ((AList.insert "*.example.com".toList "localhost:81".toList ∅).insert
    "API.example.com".toList "localhost:82".toList)
  wild := []

theorem resolve_order_independent_iff_apiAndWildcard :
    ∃ f f', apiAndWildcard.finalize plainLookup apiAndWildcard.entries = .ok f ∧
      apiAndWildcard.finalize plainLookup apiAndWildcard.entries.reverse = .ok f' ∧
      f.resolve plainLookup "api.example.com".toList =
        f'.resolve plainLookup "api.example.com".toList ∧
      f.resolve plainLookup "api.example.com".toList = some "localhost:82".toList := by
  have hagree : apiAndWildcard.Unambiguous plainLookup
      (normalize plainLookup "api.example.com".toList) := by
    have hpatterns : ∀ e ∈ apiAndWildcard.entries, ∀ e' ∈ apiAndWildcard.entries,
        e.pattern plainLookup = e'.pattern plainLookup →
          e.target plainLookup = e'.target plainLookup := by decide +kernel
    exact fun e he e' he' hpattern _ => hpatterns e he e' he' hpattern
  refine ⟨_, _, rfl, rfl, ?_, by decide +kernel⟩
  exact ((resolve_order_independent_iff plainLookup apiAndWildcard ⟨_, _, List.Perm.refl _, rfl⟩
    "api.example.com".toList).mpr hagree _ _ _ _ (List.Perm.refl _) (List.reverse_perm _) rfl
    rfl).1

/-- Two spellings of one name with different targets. -/
def twoSpellings : PortMapping where
  default := []
  hosts := some ((AList.insert "app.example.com".toList "localhost:81".toList ∅).insert
    "App.example.com".toList "localhost:82".toList)
  wild := []

/-- The spelling that the iteration visits last wins. -/
theorem resolve_depends_on_order :
    ∃ order order' f f', order.Perm twoSpellings.entries ∧ order'.Perm twoSpellings.entries ∧
      twoSpellings.finalize plainLookup order = .ok f ∧
      twoSpellings.finalize plainLookup order' = .ok f' ∧
      f.resolve plainLookup "app.example.com".toList = some "localhost:81".toList ∧
      f'.resolve plainLookup "app.example.com".toList = some "localhost:82".toList :=
  ⟨twoSpellings.entries, twoSpellings.entries.reverse, _, _, List.Perm.refl _, List.reverse_perm _,
    rfl, rfl, by decide +kernel, by decide +kernel⟩

end NexusProxy.Client
