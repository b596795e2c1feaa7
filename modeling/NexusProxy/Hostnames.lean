import Mathlib.Data.List.Basic
import Mathlib.Data.List.DropRight
import Mathlib.Data.List.Infix

/-! Package `hostnames`: the canonical form of a host name and single-label wildcards.
Strings are lists of code points. -/
namespace NexusProxy.Hostnames

/-- Names are compared as they are spelled. -/
instance lawfulBEqName : LawfulBEq (List Char) := List.instLawfulBEq

/-- The library functions that depend on the Unicode tables. -/
structure Unicode where
  isSpace : Char → Bool
  toLower : Char → Char
  /-- `idna.Lookup.ToASCII`. -/
  toASCII : List Char → Option (List Char)

variable (u : Unicode)

def trimSpace (s : List Char) : List Char :=
  (s.dropWhile u.isSpace).rdropWhile u.isSpace

def toLower (s : List Char) : List Char := s.map u.toLower

def trimSuffixDot (s : List Char) : List Char :=
  if s.getLast? = some '.' then s.dropLast else s

def normalize (host : List Char) : List Char :=
  let host := trimSpace u host
  if host = [] then []
  else
    let host := trimSuffixDot host
    let ascii :=
      match u.toASCII host with
      | some ascii => if ascii = [] then host else ascii
      | none => host
    toLower u ascii

def isWildcard (pattern : List Char) : Bool := ['*', '.'].isPrefixOf pattern

def normalizeOrWildcard (host : List Char) : List Char :=
  let host := trimSpace u host
  if host = [] then []
  else if isWildcard host then
    let base := normalize u (host.drop 2)
    if base = [] then [] else '*' :: '.' :: base
  else normalize u host

/-- `IsValidWildcard`: at least two labels follow the wildcard, none of them empty. -/
def isValidWildcard (pattern : List Char) : Bool :=
  let rest := pattern.drop 2
  isWildcard pattern && decide ('.' ∈ rest) && !decide ('*' ∈ rest) &&
    !(decide (rest.head? = some '.') || decide (rest.getLast? = some '.') ||
      decide (['.', '.'] <:+: rest))

/-- `WildcardSuffix`: what follows the star of a valid wildcard. -/
def wildcardSuffix (pattern : List Char) : Option (List Char) :=
  let p := normalizeOrWildcard u pattern
  if isValidWildcard p then some (p.drop 1) else none

/-- `FirstDotSuffix`: the name from its first dot on, unless it starts with it. -/
def firstDotSuffix (host : List Char) : Option (List Char) :=
  let h := normalize u host
  let rest := h.dropWhile (· ≠ '.')
  if rest = [] ∨ rest = h then none else some rest

theorem isWildcard_iff {y : List Char} :
    isWildcard y = true ↔ ∃ rest, y = '*' :: '.' :: rest := by
  unfold isWildcard
  rw [List.isPrefixOf_iff_prefix]
  constructor
  · rintro ⟨rest, rfl⟩
    exact ⟨rest, rfl⟩
  · rintro ⟨rest, rfl⟩
    exact ⟨rest, rfl⟩

end NexusProxy.Hostnames
