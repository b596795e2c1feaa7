import Mathlib.Data.List.Basic
import Mathlib.Data.Nat.Digits.Lemmas

/-! Constants of the wire protocol shared by the relay and its clients, and the keys of
port-claimed routes. -/
namespace NexusProxy.Protocol

/-- `DefaultCreditCapacity`: the initial credit grant per client connection. -/
def defaultCreditCapacity : ℕ := 64

/-- `CreditReplenishBatch`: consumed messages before a replenishment is sent. -/
def creditReplenishBatch : ℕ := 8

def clientIDLength : ℕ := 16

/-- `MessageHeaderLength`: the control byte and the client identifier. -/
def messageHeaderLength : ℕ := 1 + clientIDLength

/-- A client's identifier, a UUID. -/
abbrev ClientID := Vector UInt8 clientIDLength

def controlByteData : UInt8 := 0x01

/-- `maxMessageSize`, the read limit of both WebSocket ends. -/
def maxMessageSize : ℕ := 32 * 1024 + messageHeaderLength

inductive Transport where
  | tcp
  | udp
  deriving DecidableEq

def itoa : ℤ → List Char
  | .ofNat 0 => ['0']
  | .ofNat n => ((Nat.digits 10 n).map Nat.digitChar).reverse
  | .negSucc n => '-' :: ((Nat.digits 10 (n + 1)).map Nat.digitChar).reverse

/-- The number that a list of decimal digits stands for, and its sign. -/
def atoi (text : List Char) : ℤ :=
  let value (digits : List Char) : ℕ := Nat.ofDigits 10 (digits.reverse.map fun c => c.toNat - 48)
  if text.head? = some '-' then -value text.tail else value text

theorem digitText_value (n : ℕ) :
    Nat.ofDigits 10 ((((Nat.digits 10 n).map Nat.digitChar).reverse).reverse.map
      fun c => c.toNat - 48) = n := by
  have hdigit : ∀ d < 10, (Nat.digitChar d).toNat - 48 = d := by decide
  have hmap : (Nat.digits 10 n).map ((fun c => c.toNat - 48) ∘ Nat.digitChar) =
      Nat.digits 10 n := by
    conv_rhs => rw [← List.map_id (Nat.digits 10 n)]
    apply List.map_congr_left
    intro d hd
    exact hdigit d (Nat.digits_lt_base (by decide) hd)
  rw [List.reverse_reverse, List.map_map, hmap, Nat.ofDigits_digits]

theorem digitText_head (n : ℕ) :
    (((Nat.digits 10 n).map Nat.digitChar).reverse).head? ≠ some '-' := by
  intro h
  have hdigit : ∀ d < 10, Nat.digitChar d ≠ '-' := by decide
  have hmem := List.mem_of_mem_head? h
  rw [List.mem_reverse, List.mem_map] at hmem
  obtain ⟨d, hd, hminus⟩ := hmem
  exact hdigit d (Nat.digits_lt_base (by decide) hd) hminus

theorem atoi_itoa (n : ℤ) : atoi (itoa n) = n := by
  match n with
  | .ofNat 0 => decide
  | .ofNat (n + 1) =>
    simp only [itoa, atoi, if_neg (digitText_head (n + 1)), digitText_value]
    rfl
  | .negSucc n =>
    simp only [itoa, atoi, List.head?_cons, List.tail_cons, if_true, digitText_value]
    rfl

def routeKeyPrefix : Transport → List Char
  | .tcp => ['t', 'c', 'p', ':']
  | .udp => ['u', 'd', 'p', ':']

def routeKey (transport : Transport) (port : ℤ) : List Char :=
  routeKeyPrefix transport ++ itoa port

theorem routeKey_ne_nil (t : Transport) (port : ℤ) : routeKey t port ≠ [] := by
  cases t <;> simp [routeKey, routeKeyPrefix]

/-- Route keys of different claims are different. -/
theorem routeKey_injective {t t' : Transport} {port port' : ℤ}
    (h : routeKey t port = routeKey t' port') : t = t' ∧ port = port' := by
  have hlen : (routeKeyPrefix t).length = (routeKeyPrefix t').length := by
    cases t <;> cases t' <;> rfl
  obtain ⟨hkind, hport⟩ := List.append_inj h hlen
  constructor
  · cases t <;> cases t' <;> first | rfl | exact absurd hkind (by decide)
  · rw [← atoi_itoa port, hport, atoi_itoa]

example : routeKey .udp 53 = ['u', 'd', 'p', ':', '5', '3'] := by decide

end NexusProxy.Protocol
