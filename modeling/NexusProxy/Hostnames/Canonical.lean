import NexusProxy.Hostnames

/-! When a second normalization changes nothing: the names that `Normalize` and
`NormalizeOrWildcard` map to themselves, and the names whose normal form is one of them. -/
namespace NexusProxy.Hostnames

/-- The facts of the Unicode tables that a normal form rests on. -/
structure Unicode.Tables (u : Unicode) : Prop where
  lower_lower : ∀ c, u.toLower (u.toLower c) = u.toLower c
  isSpace_lower : ∀ c, u.isSpace (u.toLower c) = u.isSpace c
  lower_dot : ∀ c, u.toLower c = '.' ↔ c = '.'
  lower_star : ∀ c, u.toLower c = '*' ↔ c = '*'
  dot : u.isSpace '.' = false
  star : u.isSpace '*' = false

/-- The output of `ToASCII` on a name, if it succeeds with more than the empty one. -/
def Encodes (u : Unicode) (host ascii : List Char) : Prop :=
  u.toASCII host = some ascii ∧ ascii ≠ []

/-- What `idna.Lookup.ToASCII` is relied upon for. -/
structure Unicode.Lookup (u : Unicode) : Prop where
  space : ∀ host, host.any u.isSpace = true → u.toASCII host = none
  lower : ∀ host ascii, Encodes u host ascii → ascii.map u.toLower = ascii
  fixed : ∀ host ascii, Encodes u host ascii → u.toASCII ascii = some ascii

section
variable {u : Unicode} {host s t y : List Char}

/-! ### Trimming -/

def endsInSpace (u : Unicode) (y : List Char) : Bool := y.getLast?.any u.isSpace

def endsInDot (y : List Char) : Bool := y.getLast? = some '.'

def startsInSpace (u : Unicode) (y : List Char) : Bool := y.head?.any u.isSpace

theorem startsInSpace_of_isPrefix (h : t <+: s) (hs : startsInSpace u s = false) :
    startsInSpace u t = false := by
  cases t with
  | nil => rfl
  | cons c t =>
    obtain ⟨rest, rfl⟩ := h
    exact hs

theorem startsInSpace_trimSpace (s : List Char) : startsInSpace u (trimSpace u s) = false := by
  have hrest : startsInSpace u (s.dropWhile u.isSpace) = false := by
    cases h : s.dropWhile u.isSpace with
    | nil => rfl
    | cons c rest =>
      have hhead := List.head?_dropWhile_not u.isSpace s
      rw [h] at hhead
      exact hhead
  exact startsInSpace_of_isPrefix (List.rdropWhile_prefix u.isSpace _) hrest

theorem trimSpace_eq_rdropWhile (h : startsInSpace u y = false) :
    trimSpace u y = y.rdropWhile u.isSpace := by
  unfold trimSpace
  cases y with
  | nil => rfl
  | cons c y =>
    have hc : u.isSpace c = false := h
    rw [List.dropWhile_cons_of_neg (by simp [hc])]

theorem trimSpace_eq_self (hstart : startsInSpace u y = false) (hend : endsInSpace u y = false) :
    trimSpace u y = y := by
  rw [trimSpace_eq_rdropWhile hstart, List.rdropWhile_eq_self_iff]
  intro hne
  unfold endsInSpace at hend
  rw [List.getLast?_eq_some_getLast hne] at hend
  simpa using hend

theorem length_trimSpace_lt (hstart : startsInSpace u y = false) (hend : endsInSpace u y = true) :
    (trimSpace u y).length < y.length := by
  rw [trimSpace_eq_rdropWhile hstart]
  rcases List.eq_nil_or_concat' y with rfl | ⟨init, c, rfl⟩
  · cases hend
  · have hc : u.isSpace c = true := by simpa [endsInSpace] using hend
    rw [List.rdropWhile_concat_pos _ _ _ hc]
    have hle := (List.rdropWhile_prefix u.isSpace init).length_le
    rw [List.length_append, List.length_singleton]
    omega

theorem trimSuffixDot_eq_self (h : endsInDot y = false) : trimSuffixDot y = y := by
  unfold trimSuffixDot
  exact if_neg (by simpa [endsInDot] using h)

theorem trimSuffixDot_of_dot (h : endsInDot y = true) : trimSuffixDot y = y.dropLast := by
  unfold trimSuffixDot
  exact if_pos (by simpa [endsInDot] using h)

theorem trimSuffixDot_isPrefix (y : List Char) : trimSuffixDot y <+: y := by
  unfold trimSuffixDot
  split_ifs
  · exact List.dropLast_prefix y
  · exact List.prefix_rfl

/-! ### The encoding step -/

/-- The name that `Normalize` lower-cases. -/
def asciiOr (u : Unicode) (host : List Char) : List Char :=
  match u.toASCII host with
  | some ascii => if ascii = [] then host else ascii
  | none => host

theorem normalize_of_blank (h : trimSpace u s = []) : normalize u s = [] := if_pos h

theorem normalize_of_trimSpace (h : trimSpace u s ≠ []) :
    normalize u s = toLower u (asciiOr u (trimSuffixDot (trimSpace u s))) := by
  unfold normalize
  exact if_neg h

theorem asciiOr_of_encodes {ascii : List Char} (h : Encodes u host ascii) :
    asciiOr u host = ascii := by
  unfold asciiOr
  rw [h.1]
  exact if_neg h.2

theorem asciiOr_of_not (h : ∀ ascii, ¬Encodes u host ascii) : asciiOr u host = host := by
  unfold asciiOr
  cases hascii : u.toASCII host with
  | none => rfl
  | some ascii =>
    by_cases hnil : ascii = []
    · exact if_pos hnil
    · exact absurd ⟨hascii, hnil⟩ (h ascii)

theorem Unicode.Lookup.no_space (hu : u.Lookup) (h : u.toASCII host ≠ none) :
    host.any u.isSpace = false := by
  by_contra hspace
  exact h (hu.space host (by simpa using hspace))

theorem lower_asciiOr_eq (hu : u.Lookup) (h : toLower u (asciiOr u host) = y) :
    Encodes u host y ∨ (∀ ascii, ¬Encodes u host ascii) ∧ toLower u host = y := by
  by_cases hex : ∃ ascii, Encodes u host ascii
  · obtain ⟨ascii, hascii⟩ := hex
    rw [asciiOr_of_encodes hascii, toLower, hu.lower host ascii hascii] at h
    exact .inl (h ▸ hascii)
  · push Not at hex
    rw [asciiOr_of_not hex] at h
    exact .inr ⟨hex, h⟩

end

/-! ### Names that are their own normal form -/

/-- The final dot of the name is one that `ToASCII` adds to the rest. -/
def AddsDot (u : Unicode) (y : List Char) : Prop :=
  endsInDot y = true ∧ u.toASCII y.dropLast = some y

/-- Nothing is trimmed and nothing is encoded; or what is trimmed comes back. -/
def Canonical (u : Unicode) (y : List Char) : Prop :=
  y = [] ∨ AddsDot u y ∨
    endsInSpace u y = false ∧ endsInDot y = false ∧ ∀ ascii, Encodes u y ascii → ascii = y

section
variable {u : Unicode} {host s t y : List Char}

theorem length_toLower (y : List Char) : (toLower u y).length = y.length := List.length_map _

theorem any_of_endsInSpace (h : endsInSpace u y = true) : y.any u.isSpace = true := by
  unfold endsInSpace at h
  cases hlast : y.getLast? with
  | none =>
    rw [hlast] at h
    cases h
  | some c =>
    rw [hlast] at h
    exact List.any_eq_true.mpr ⟨c, List.mem_of_getLast? hlast, h⟩

theorem any_of_startsInSpace (h : startsInSpace u y = true) : y.any u.isSpace = true := by
  cases y with
  | nil => cases h
  | cons c y =>
    have hc : u.isSpace c = true := h
    rw [List.any_cons, hc, Bool.true_or]

theorem startsInSpace_of_any (h : y.any u.isSpace = false) : startsInSpace u y = false := by
  by_contra hstart
  rw [any_of_startsInSpace (by simpa using hstart)] at h
  cases h

theorem endsInSpace_of_any (h : y.any u.isSpace = false) : endsInSpace u y = false := by
  by_contra hend
  rw [any_of_endsInSpace (by simpa using hend)] at h
  cases h

theorem Encodes.no_space {ascii : List Char} (h : Encodes u host ascii) (hu : u.Lookup) :
    ascii.any u.isSpace = false := by
  apply hu.no_space
  rw [hu.fixed _ _ h]
  exact Option.some_ne_none _

theorem endsInSpace_of_dot (hu : u.Tables) (h : endsInDot y = true) : endsInSpace u y = false := by
  have hlast : y.getLast? = some '.' := by simpa [endsInDot] using h
  rw [endsInSpace, hlast]
  exact hu.dot

theorem toLower_ne_of_length_lt (h : t.length < y.length) : toLower u t ≠ y := by
  intro heq
  have := congrArg List.length heq
  rw [length_toLower] at this
  omega

theorem normalize_ne_self_of_space (hu : u.Lookup) (hstart : startsInSpace u y = false)
    (hnil : y ≠ []) (hend : endsInSpace u y = true) : normalize u y ≠ y := by
  intro h
  by_cases htrim : trimSpace u y = []
  · exact hnil (h.symm.trans (normalize_of_blank htrim))
  · rw [normalize_of_trimSpace htrim] at h
    rcases lower_asciiOr_eq hu h with hascii | ⟨-, heq⟩
    · have hspace := hascii.no_space hu
      rw [any_of_endsInSpace hend] at hspace
      cases hspace
    · refine toLower_ne_of_length_lt ?_ heq
      exact (trimSuffixDot_isPrefix _).length_le.trans_lt (length_trimSpace_lt hstart hend)

theorem lower_asciiOr_dropLast_iff (hu : u.Lookup) (hlower : toLower u y = y) (hnil : y ≠ []) :
    toLower u (asciiOr u y.dropLast) = y ↔ u.toASCII y.dropLast = some y := by
  constructor
  · intro h
    rcases lower_asciiOr_eq hu h with hascii | ⟨-, heq⟩
    · exact hascii.1
    · refine absurd heq (toLower_ne_of_length_lt ?_)
      have := List.length_pos_iff.mpr hnil
      rw [List.length_dropLast]
      omega
  · intro h
    rw [asciiOr_of_encodes ⟨h, hnil⟩, hlower]

theorem lower_asciiOr_self_iff (hu : u.Lookup) (hlower : toLower u y = y) :
    toLower u (asciiOr u y) = y ↔ ∀ ascii, Encodes u y ascii → ascii = y := by
  constructor
  · intro h ascii hascii
    rw [asciiOr_of_encodes hascii, toLower, hu.lower _ _ hascii] at h
    exact h
  · intro h
    by_cases hex : ∃ ascii, Encodes u y ascii
    · obtain ⟨ascii, hascii⟩ := hex
      rw [asciiOr_of_encodes hascii, h ascii hascii, hlower]
    · push Not at hex
      rw [asciiOr_of_not hex, hlower]

/-- The names that normalization leaves alone, among those without leading space or upper case. -/
theorem normalize_eq_self_iff (htables : u.Tables) (hu : u.Lookup)
    (hstart : startsInSpace u y = false) (hlower : toLower u y = y) :
    normalize u y = y ↔ Canonical u y := by
  by_cases hnil : y = []
  · subst hnil
    exact iff_of_true rfl (.inl rfl)
  rw [Canonical, or_iff_right hnil, AddsDot]
  cases hend : endsInSpace u y with
  | true =>
    refine iff_of_false (normalize_ne_self_of_space hu hstart hnil hend) ?_
    rintro (⟨hdot, -⟩ | ⟨h, -⟩)
    · rw [endsInSpace_of_dot htables hdot] at hend
      cases hend
    · cases h
  | false =>
    have htrim : trimSpace u y = y := trimSpace_eq_self hstart hend
    rw [normalize_of_trimSpace (by rw [htrim]; exact hnil), htrim]
    cases hdot : endsInDot y with
    | true =>
      rw [trimSuffixDot_of_dot hdot, lower_asciiOr_dropLast_iff hu hlower hnil]
      simp
    | false =>
      rw [trimSuffixDot_eq_self hdot, lower_asciiOr_self_iff hu hlower]
      simp

theorem Encodes.normalize_eq_self_iff (htables : u.Tables) (hu : u.Lookup) {ascii : List Char}
    (h : Encodes u host ascii) :
    normalize u ascii = ascii ↔ endsInDot ascii = false ∨ AddsDot u ascii := by
  have hfixed := hu.fixed _ _ h
  have hspace := h.no_space hu
  have hend := endsInSpace_of_any hspace
  have hstart := startsInSpace_of_any hspace
  rw [Hostnames.normalize_eq_self_iff htables hu hstart (hu.lower _ _ h)]
  constructor
  · rintro (hnil | hadds | ⟨-, hdot, -⟩)
    · exact absurd hnil h.2
    · exact .inr hadds
    · exact .inl hdot
  · rintro (hdot | hadds)
    · refine .inr (.inr ⟨hend, hdot, fun other hother => ?_⟩)
      exact (Option.some.inj (hfixed.symm.trans hother.1)).symm
    · exact .inr (.inl hadds)

end

/-! ### Normalizing twice -/

/-- A name without surrounding space and final dot whose normal form is canonical: it is encoded
to a name without a final dot; or it is not encoded, and neither ends in space or a dot nor is
encoded once it is in lower case. -/
def Settled (u : Unicode) (t : List Char) : Prop :=
  (∃ ascii, Encodes u t ascii ∧ (endsInDot ascii = false ∨ AddsDot u ascii)) ∨
    (∀ ascii, ¬Encodes u t ascii) ∧
      (t = [] ∨ AddsDot u (toLower u t) ∨
        endsInSpace u t = false ∧ endsInDot t = false ∧
          ∀ ascii, Encodes u (toLower u t) ascii → ascii = toLower u t)

def Stable (u : Unicode) (s : List Char) : Prop :=
  trimSpace u s = [] ∨ Settled u (trimSuffixDot (trimSpace u s))

/-- The condition for a pattern: what follows the wildcard is a stable name; without a wildcard the
pattern is one itself, unless it is encoded to a wildcard. -/
def StablePattern (u : Unicode) (s : List Char) : Prop :=
  let x := trimSpace u s
  if isWildcard x then Stable u (x.drop 2)
  else
    x = [] ∨ (∃ rest, Encodes u (trimSuffixDot x) ('*' :: '.' :: rest) ∧ rest ≠ [] ∧
        (endsInDot rest = false ∧ (∀ ascii, Encodes u rest ascii → ascii = rest) ∨
          AddsDot u rest)) ∨
      (∀ rest, ¬Encodes u (trimSuffixDot x) ('*' :: '.' :: rest)) ∧ Settled u (trimSuffixDot x)

section
variable {u : Unicode} {host s t y : List Char}

theorem trimSpace_trimSpace (s : List Char) : trimSpace u (trimSpace u s) = trimSpace u s := by
  rw [trimSpace_eq_rdropWhile (startsInSpace_trimSpace s)]
  exact List.rdropWhile_idempotent _ _

theorem normalize_congr (h : trimSpace u s = trimSpace u t) : normalize u s = normalize u t := by
  unfold normalize
  rw [h]

theorem startsInSpace_toLower (hu : u.Tables) (y : List Char) :
    startsInSpace u (toLower u y) = startsInSpace u y := by
  cases y with
  | nil => rfl
  | cons c y => exact hu.isSpace_lower c

theorem endsInSpace_toLower (hu : u.Tables) (y : List Char) :
    endsInSpace u (toLower u y) = endsInSpace u y := by
  unfold endsInSpace toLower
  rw [List.getLast?_map]
  cases y.getLast? with
  | none => rfl
  | some c => exact hu.isSpace_lower c

theorem endsInDot_toLower (hu : u.Tables) (y : List Char) :
    endsInDot (toLower u y) = endsInDot y := by
  unfold endsInDot toLower
  rw [List.getLast?_map]
  cases y.getLast? with
  | none => rfl
  | some c => simp [hu.lower_dot c]

theorem toLower_toLower (hu : u.Tables) (y : List Char) :
    toLower u (toLower u y) = toLower u y := by
  unfold toLower
  rw [List.map_map]
  exact List.map_congr_left fun c _ => hu.lower_lower c

theorem startsInSpace_trimmed (s : List Char) :
    startsInSpace u (trimSuffixDot (trimSpace u s)) = false :=
  startsInSpace_of_isPrefix (trimSuffixDot_isPrefix _) (startsInSpace_trimSpace s)

theorem normalize_normalize_iff (htables : u.Tables) (hu : u.Lookup) (s : List Char) :
    normalize u (normalize u s) = normalize u s ↔ Stable u s := by
  by_cases htrim : trimSpace u s = []
  · rw [normalize_of_blank htrim]
    exact iff_of_true rfl (.inl htrim)
  have hstable : Stable u s ↔ Settled u (trimSuffixDot (trimSpace u s)) := or_iff_right htrim
  rw [hstable, normalize_of_trimSpace htrim]
  by_cases hex : ∃ ascii, Encodes u (trimSuffixDot (trimSpace u s)) ascii
  · obtain ⟨ascii, hascii⟩ := hex
    rw [asciiOr_of_encodes hascii, toLower, hu.lower _ _ hascii,
      hascii.normalize_eq_self_iff htables hu]
    constructor
    · intro h
      exact .inl ⟨ascii, hascii, h⟩
    · rintro (⟨other, hother, h⟩ | ⟨hnone, -⟩)
      · obtain rfl : ascii = other := Option.some.inj (hascii.1.symm.trans hother.1)
        exact h
      · exact absurd hascii (hnone ascii)
  · push Not at hex
    rw [asciiOr_of_not hex, Hostnames.normalize_eq_self_iff htables hu
      ((startsInSpace_toLower htables _).trans (startsInSpace_trimmed s))
      (toLower_toLower htables _), Canonical, endsInSpace_toLower htables,
      endsInDot_toLower htables]
    have hnil : toLower u (trimSuffixDot (trimSpace u s)) = [] ↔
        trimSuffixDot (trimSpace u s) = [] := List.map_eq_nil_iff
    rw [hnil]
    constructor
    · intro h
      exact .inr ⟨hex, h⟩
    · rintro (⟨ascii, hascii, -⟩ | ⟨-, h⟩)
      · exact absurd hascii (hex ascii)
      · exact h

end

/-! ### Patterns -/

section
variable {u : Unicode} {host s t y rest : List Char}

theorem rdropWhile_cons_neg {p : Char → Bool} {c : Char} (hc : p c = false) (y : List Char) :
    (c :: y).rdropWhile p = c :: y.rdropWhile p := by
  unfold List.rdropWhile
  rw [List.reverse_cons, List.dropWhile_append]
  split_ifs with hnil
  · rw [List.isEmpty_iff.mp hnil, List.dropWhile_cons_of_neg (by simp [hc])]
    rfl
  · rw [List.reverse_append]
    rfl

theorem trimSpace_wildcard (hu : u.Tables) (rest : List Char) :
    trimSpace u ('*' :: '.' :: rest) = '*' :: '.' :: rest.rdropWhile u.isSpace := by
  have hstart : startsInSpace u ('*' :: '.' :: rest) = false := hu.star
  rw [trimSpace_eq_rdropWhile hstart, rdropWhile_cons_neg hu.star, rdropWhile_cons_neg hu.dot]

theorem startsInSpace_normalize (htables : u.Tables) (hu : u.Lookup) (s : List Char) :
    startsInSpace u (normalize u s) = false := by
  by_cases htrim : trimSpace u s = []
  · rw [normalize_of_blank htrim]
    rfl
  rw [normalize_of_trimSpace htrim, startsInSpace_toLower htables]
  by_cases hex : ∃ ascii, Encodes u (trimSuffixDot (trimSpace u s)) ascii
  · obtain ⟨ascii, hascii⟩ := hex
    rw [asciiOr_of_encodes hascii]
    exact startsInSpace_of_any (hascii.no_space hu)
  · push Not at hex
    rw [asciiOr_of_not hex]
    exact startsInSpace_trimmed s

theorem normalizeOrWildcard_wildcard (h : trimSpace u s = '*' :: '.' :: rest) :
    normalizeOrWildcard u s =
      if normalize u rest = [] then [] else '*' :: '.' :: normalize u rest := by
  unfold normalizeOrWildcard
  rw [h]
  rfl

theorem normalizeOrWildcard_plain (h : isWildcard (trimSpace u s) = false) :
    normalizeOrWildcard u s = normalize u s := by
  unfold normalizeOrWildcard
  dsimp only
  rw [h, if_neg Bool.false_ne_true]
  split_ifs with hnil
  · exact (if_pos hnil).symm
  · exact normalize_congr (trimSpace_trimSpace s)

theorem normalizeOrWildcard_again (htables : u.Tables) (hstart : startsInSpace u y = false)
    (hne : y ≠ []) :
    normalizeOrWildcard u ('*' :: '.' :: y) = '*' :: '.' :: y ↔ normalize u y = y := by
  have hbase : normalize u (y.rdropWhile u.isSpace) = normalize u y := by
    rw [← trimSpace_eq_rdropWhile hstart]
    exact normalize_congr (trimSpace_trimSpace y)
  rw [normalizeOrWildcard_wildcard (trimSpace_wildcard htables y), hbase]
  by_cases hnil : normalize u y = []
  · rw [if_pos hnil, hnil]
    exact iff_of_false (List.cons_ne_nil _ _).symm hne.symm
  · rw [if_neg hnil, List.cons.injEq, List.cons.injEq]
    simp

theorem Encodes.normalizeOrWildcard_iff (htables : u.Tables) (hu : u.Lookup)
    (h : Encodes u host ('*' :: '.' :: rest)) :
    normalizeOrWildcard u ('*' :: '.' :: rest) = '*' :: '.' :: rest ↔
      rest ≠ [] ∧ (endsInDot rest = false ∧ (∀ ascii, Encodes u rest ascii → ascii = rest) ∨
        AddsDot u rest) := by
  have hspace : rest.any u.isSpace = false := by
    have hall := h.no_space hu
    rw [List.any_cons, List.any_cons, Bool.or_eq_false_iff, Bool.or_eq_false_iff] at hall
    exact hall.2.2
  have hlower : toLower u rest = rest := by
    have hall := hu.lower _ _ h
    rw [List.map_cons, List.map_cons, List.cons.injEq, List.cons.injEq] at hall
    exact hall.2.2
  by_cases hnil : rest = []
  · subst hnil
    refine iff_of_false ?_ fun h => h.1 rfl
    rw [normalizeOrWildcard_wildcard (trimSpace_wildcard htables [])]
    exact (List.cons_ne_nil _ _).symm
  rw [normalizeOrWildcard_again htables (startsInSpace_of_any hspace) hnil,
    Hostnames.normalize_eq_self_iff htables hu (startsInSpace_of_any hspace) hlower]
  constructor
  · rintro (h | h | ⟨-, hdot, h⟩)
    · exact absurd h hnil
    · exact ⟨hnil, .inr h⟩
    · exact ⟨hnil, .inl ⟨hdot, h⟩⟩
  · rintro ⟨-, ⟨hdot, h⟩ | h⟩
    · exact .inr (.inr ⟨endsInSpace_of_any hspace, hdot, h⟩)
    · exact .inr (.inl h)

theorem not_isWildcard_normalize (htables : u.Tables) (hu : u.Lookup)
    (hwild : isWildcard (trimSpace u s) = false) (htrim : trimSpace u s ≠ [])
    (hpattern : ∀ rest, ¬Encodes u (trimSuffixDot (trimSpace u s)) ('*' :: '.' :: rest)) :
    isWildcard (trimSpace u (normalize u s)) = false := by
  by_contra h
  obtain ⟨rest, hrest⟩ := isWildcard_iff.mp (by simpa using h)
  obtain ⟨tail, htail⟩ : trimSpace u (normalize u s) <+: normalize u s := by
    rw [trimSpace_eq_rdropWhile (startsInSpace_normalize htables hu s)]
    exact List.rdropWhile_prefix _ _
  rw [hrest, normalize_of_trimSpace htrim] at htail
  rcases lower_asciiOr_eq hu htail.symm with hascii | ⟨-, hlower⟩
  · exact hpattern _ hascii
  · obtain ⟨c, t, ht, hc, hlower⟩ := List.map_eq_cons_iff.mp hlower
    obtain ⟨d, t, rfl, hd, -⟩ := List.map_eq_cons_iff.mp hlower
    rw [htables.lower_star] at hc
    rw [htables.lower_dot] at hd
    subst hc hd
    obtain ⟨tail, htail⟩ := trimSuffixDot_isPrefix (trimSpace u s)
    rw [ht] at htail
    rw [← htail] at hwild
    cases hwild

theorem normalizeOrWildcard_twice_iff (htables : u.Tables) (hu : u.Lookup) (s : List Char) :
    normalizeOrWildcard u (normalizeOrWildcard u s) = normalizeOrWildcard u s ↔
      StablePattern u s := by
  unfold StablePattern
  dsimp only
  cases hwild : isWildcard (trimSpace u s) with
  | true =>
    obtain ⟨rest, hrest⟩ := isWildcard_iff.mp hwild
    rw [if_pos rfl, hrest, normalizeOrWildcard_wildcard hrest]
    show _ ↔ Stable u rest
    rw [← normalize_normalize_iff htables hu]
    split_ifs with hnil
    · rw [hnil]
      exact iff_of_true rfl rfl
    · exact normalizeOrWildcard_again htables (startsInSpace_normalize htables hu rest) hnil
  | false =>
    rw [if_neg Bool.false_ne_true, normalizeOrWildcard_plain hwild]
    by_cases htrim : trimSpace u s = []
    · rw [normalize_of_blank htrim]
      exact iff_of_true rfl (.inl htrim)
    rw [or_iff_right htrim]
    by_cases hpattern : ∃ rest, Encodes u (trimSuffixDot (trimSpace u s)) ('*' :: '.' :: rest)
    · obtain ⟨rest, hrest⟩ := hpattern
      rw [normalize_of_trimSpace htrim, asciiOr_of_encodes hrest, toLower, hu.lower _ _ hrest,
        hrest.normalizeOrWildcard_iff htables hu]
      constructor
      · intro h
        exact .inl ⟨rest, hrest, h⟩
      · rintro (⟨other, hother, h⟩ | ⟨hnone, -⟩)
        · obtain rfl : rest = other := by simpa using hrest.1.symm.trans hother.1
          exact h
        · exact absurd hrest (hnone rest)
    · push Not at hpattern
      rw [normalizeOrWildcard_plain (not_isWildcard_normalize htables hu hwild htrim hpattern),
        normalize_normalize_iff htables hu, Stable, or_iff_right htrim]
      constructor
      · intro h
        exact .inr ⟨hpattern, h⟩
      · rintro (⟨rest, hrest, -⟩ | ⟨-, h⟩)
        · exact absurd hrest (hpattern rest)
        · exact h

end

/-- Normalizing a name or a pattern a second time changes nothing exactly when it is stable, and
then the suffix functions see the same name. -/
theorem normalization_canonical_iff (u : Unicode) (htables : u.Tables) (hu : u.Lookup)
    (s : List Char) :
    (normalize u (normalize u s) = normalize u s ↔ Stable u s) ∧
      (normalizeOrWildcard u (normalizeOrWildcard u s) = normalizeOrWildcard u s ↔
        StablePattern u s) ∧
      (Stable u s → firstDotSuffix u (normalize u s) = firstDotSuffix u s) ∧
      (StablePattern u s →
        wildcardSuffix u (normalizeOrWildcard u s) = wildcardSuffix u s) := by
  have hname := normalize_normalize_iff htables hu s
  have hpattern := normalizeOrWildcard_twice_iff htables hu s
  refine ⟨hname, hpattern, fun h => ?_, fun h => ?_⟩
  · unfold firstDotSuffix
    rw [hname.mpr h]
  · unfold wildcardSuffix
    rw [hpattern.mpr h]

def isUnicodeSpace (c : Char) : Bool :=
  let n := c.toNat
  decide (9 ≤ n ∧ n ≤ 13 ∨ n = 32 ∨ n = 0x85 ∨ n = 0xA0 ∨ n = 0x1680 ∨ 0x2000 ≤ n ∧ n ≤ 0x200A ∨
    n = 0x2028 ∨ n = 0x2029 ∨ n = 0x202F ∨ n = 0x205F ∨ n = 0x3000)

def isHostChar (c : Char) : Bool :=
  let n := c.toNat
  decide (48 ≤ n ∧ n ≤ 57 ∨ 65 ≤ n ∧ n ≤ 90 ∨ 97 ≤ n ∧ n ≤ 122 ∨ n = 45 ∨ n = 46)

/-- Host names of ASCII letters, digits, hyphens and dots, where `ToASCII` only lower-cases. -/
def plainLookup : Unicode where
  isSpace := isUnicodeSpace
  toLower := Char.toLower
  toASCII host := if host.all isHostChar then some (host.map Char.toLower) else none

theorem toNat_toLower (c : Char) :
    c.toLower.toNat = if 65 ≤ c.toNat ∧ c.toNat ≤ 90 then c.toNat + 32 else c.toNat := by
  have hupper : (c.val ≥ 'A'.val ∧ c.val ≤ 'Z'.val) ↔ 65 ≤ c.toNat ∧ c.toNat ≤ 90 := Iff.rfl
  unfold Char.toLower
  split_ifs with hletter hrange hrange
  · show (c.val + 32).toNat = _
    rw [UInt32.toNat_add]
    show (c.toNat + 32) % _ = _
    omega
  · exact absurd (hupper.mp hletter) hrange
  · exact absurd (hupper.mpr hrange) hletter
  · rfl

theorem toLower_eq_iff {c d : Char} (hd : d.toNat < 65) : c.toLower = d ↔ c = d := by
  rw [← Char.toNat_inj, ← Char.toNat_inj, toNat_toLower]
  split_ifs <;> omega

theorem plainLookup_tables : plainLookup.Tables where
  lower_lower c := by
    show c.toLower.toLower = c.toLower
    rw [← Char.toNat_inj, toNat_toLower c.toLower, toNat_toLower]
    split_ifs <;> omega
  isSpace_lower c := by
    show isUnicodeSpace c.toLower = isUnicodeSpace c
    unfold isUnicodeSpace
    rw [toNat_toLower, decide_eq_decide]
    split_ifs <;> omega
  lower_dot c := toLower_eq_iff (by decide)
  lower_star c := toLower_eq_iff (by decide)
  dot := by decide
  star := by decide

theorem isHostChar_toLower {c : Char} (h : isHostChar c = true) : isHostChar c.toLower = true := by
  unfold isHostChar at h ⊢
  rw [decide_eq_true_iff] at h ⊢
  rw [toNat_toLower]
  split_ifs <;> omega

theorem plainLookup_encodes {host ascii : List Char} (h : Encodes plainLookup host ascii) :
    host.all isHostChar = true ∧ ascii = host.map Char.toLower := by
  have hascii : (if host.all isHostChar then some (host.map Char.toLower) else none) =
      some ascii := h.1
  split_ifs at hascii with hall
  exact ⟨hall, (Option.some.inj hascii).symm⟩

theorem plainLookup_lookup : plainLookup.Lookup where
  space host h := by
    obtain ⟨c, hc, hspace⟩ := List.any_eq_true.mp h
    refine if_neg fun hall => ?_
    have hchar := List.all_eq_true.mp hall c hc
    have hspace : isUnicodeSpace c = true := hspace
    unfold isUnicodeSpace at hspace
    unfold isHostChar at hchar
    rw [decide_eq_true_iff] at hspace hchar
    omega
  lower host ascii h := by
    obtain ⟨-, rfl⟩ := plainLookup_encodes h
    rw [List.map_map]
    exact List.map_congr_left fun c _ => plainLookup_tables.lower_lower c
  fixed host ascii h := by
    obtain ⟨hall, rfl⟩ := plainLookup_encodes h
    have hlower : (host.map Char.toLower).all isHostChar = true := by
      rw [List.all_map, List.all_eq_true]
      intro c hc
      exact isHostChar_toLower (List.all_eq_true.mp hall c hc)
    show (if (host.map Char.toLower).all isHostChar then _ else none) = _
    rw [if_pos hlower, List.map_map]
    exact congrArg some (List.map_congr_left fun c _ => plainLookup_tables.lower_lower c)

theorem normalization_canonical_iff_plain :
    normalize plainLookup " Example.COM. ".toList = "example.com".toList ∧
      normalize plainLookup (normalize plainLookup " Example.COM. ".toList) =
        normalize plainLookup " Example.COM. ".toList ∧
      normalizeOrWildcard plainLookup (normalizeOrWildcard plainLookup "*.Example.com.".toList) =
        normalizeOrWildcard plainLookup "*.Example.com.".toList := by
  have hname := (normalization_canonical_iff plainLookup plainLookup_tables plainLookup_lookup
    " Example.COM. ".toList).1
  have hpattern := (normalization_canonical_iff plainLookup plainLookup_tables plainLookup_lookup
    "*.Example.com.".toList).2.1
  refine ⟨by decide +kernel, hname.mpr ?_, hpattern.mpr ?_⟩
  · exact .inr (.inl ⟨"example.com".toList, ⟨by decide +kernel, by decide +kernel⟩,
      .inl (by decide +kernel)⟩)
  · exact .inr (.inl ⟨"example.com".toList, ⟨by decide +kernel, by decide +kernel⟩,
      .inl (by decide +kernel)⟩)

/-- A space before the final dot is left at the end, and the next normalization trims it. -/
theorem normalization_exposes_space :
    plainLookup.Tables ∧ plainLookup.Lookup ∧
      normalize plainLookup (normalize plainLookup "a.com .".toList) ≠
        normalize plainLookup "a.com .".toList ∧
      normalizeOrWildcard plainLookup (normalizeOrWildcard plainLookup "*.a.com .".toList) ≠
        normalizeOrWildcard plainLookup "*.a.com .".toList :=
  ⟨plainLookup_tables, plainLookup_lookup, by decide +kernel, by decide +kernel⟩

end NexusProxy.Hostnames
