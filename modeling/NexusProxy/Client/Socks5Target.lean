import NexusProxy.Client.Socks5

/-! From a SOCKS5 request to the relay's port checks: the target address is written as text,
carried in a JSON message, and taken apart again by the relay. -/
namespace NexusProxy.Client.Socks5
open Proxy Protocol Checks Hub

section Json

/-- What `json.Marshal` and `json.Unmarshal` make of a Go string. An ASCII byte stands for
itself wherever it is, and the bytes between ASCII bytes become other characters, U+FFFD where
they are not UTF-8. -/
structure JsonText where
  text : Bytes → List Char
  text_nil : text [] = []
  text_ascii : ∀ (before : Bytes) (b : UInt8) (after : Bytes), b.toNat < 128 →
    text (before ++ b :: after) = text before ++ Char.ofNat b.toNat :: text after
  text_other : ∀ bytes : Bytes, (∀ b ∈ bytes, 128 ≤ b.toNat) → ∀ ch ∈ text bytes, 128 ≤ ch.toNat

theorem ofNat_toNat_of_ascii : ∀ n < 128, (Char.ofNat n).toNat = n := by decide

namespace JsonText
variable (json : JsonText)

theorem mem_text {n : ℕ} (hn : n < 128) (bytes : Bytes) :
    Char.ofNat n ∈ json.text bytes ↔ UInt8.ofNat n ∈ bytes := by
  have hchar := ofNat_toNat_of_ascii n hn
  have hbyte : (UInt8.ofNat n).toNat = n := toNat_length (by omega)
  induction hlen : bytes.length using Nat.strong_induction_on generalizing bytes with
  | _ len ih =>
    by_cases hascii : ∃ b ∈ bytes, b.toNat < 128
    · obtain ⟨b, hb, hlt⟩ := hascii
      obtain ⟨before, after, rfl⟩ := List.append_of_mem hb
      rw [List.length_append, List.length_cons] at hlen
      have hsame : Char.ofNat n = Char.ofNat b.toNat ↔ UInt8.ofNat n = b := by
        constructor
        · intro h
          rw [← UInt8.toNat_inj, hbyte, ← hchar, h, ofNat_toNat_of_ascii _ hlt]
        · rintro rfl
          rw [hbyte]
      have ihbefore : Char.ofNat n ∈ json.text before ↔ UInt8.ofNat n ∈ before :=
        ih before.length (by omega) before rfl
      have ihafter : Char.ofNat n ∈ json.text after ↔ UInt8.ofNat n ∈ after :=
        ih after.length (by omega) after rfl
      rw [json.text_ascii before b after hlt, List.mem_append, List.mem_append, List.mem_cons,
        List.mem_cons, ihbefore, ihafter, hsame]
    · push Not at hascii
      constructor
      · intro h
        have hle := json.text_other bytes hascii _ h
        omega
      · intro h
        have hle := hascii _ h
        omega

theorem text_of_ascii {bytes : Bytes} (h : ∀ b ∈ bytes, b.toNat < 128) :
    json.text bytes = bytes.map fun b => Char.ofNat b.toNat := by
  induction bytes with
  | nil => exact json.text_nil
  | cons b bytes ih =>
    have hcons := json.text_ascii [] b bytes (h b List.mem_cons_self)
    rw [List.nil_append, json.text_nil, List.nil_append] at hcons
    rw [hcons, ih fun b' hb' => h b' (List.mem_cons_of_mem b hb'), List.map_cons]

theorem text_append_ascii (before : Bytes) {bytes : Bytes} (h : ∀ b ∈ bytes, b.toNat < 128) :
    json.text (before ++ bytes) = json.text before ++ bytes.map fun b => Char.ofNat b.toNat := by
  cases bytes with
  | nil => simp
  | cons b bytes =>
    rw [json.text_ascii before b bytes (h b List.mem_cons_self),
      json.text_of_ascii fun b' hb' => h b' (List.mem_cons_of_mem b hb'), List.map_cons]

end JsonText

theorem map_ascii {text : List Char} (h : ∀ ch ∈ text, ch.toNat < 128) :
    (∀ b ∈ ascii text, b.toNat < 128) ∧
      ((ascii text).map fun b => Char.ofNat b.toNat) = text := by
  induction text with
  | nil => simp [ascii]
  | cons ch text ih =>
    obtain ⟨hbytes, hmap⟩ := ih fun ch' hch' => h ch' (List.mem_cons_of_mem ch hch')
    have hch := h ch List.mem_cons_self
    have hbyte : (UInt8.ofNat ch.toNat).toNat = ch.toNat := toNat_length (by omega)
    constructor
    · intro b hb
      obtain rfl | hb := List.mem_cons.mp hb
      · rw [hbyte]
        exact hch
      · exact hbytes b hb
    · change Char.ofNat (UInt8.ofNat ch.toNat).toNat :: (ascii text).map _ = ch :: text
      rw [hbyte, hmap, Char.ofNat_toNat]

end Json

section Ports

theorem mem_itoa {port : ℕ} {ch : Char} (h : ch ∈ itoa port) : ch.isDigit = true := by
  have hdigit : ∀ d < 10, (Nat.digitChar d).isDigit = true := by decide
  change ch ∈ itoa (.ofNat port) at h
  cases port with
  | zero =>
    obtain rfl := List.mem_singleton.mp h
    decide
  | succ port =>
    change ch ∈ ((Nat.digits 10 (port + 1)).map Nat.digitChar).reverse at h
    rw [List.mem_reverse, List.mem_map] at h
    obtain ⟨d, hd, rfl⟩ := h
    exact hdigit d (Nat.digits_lt_base (by decide) hd)

theorem itoa_ne_nil (port : ℕ) : itoa port ≠ [] := by
  change itoa (.ofNat port) ≠ []
  cases port with
  | zero => decide
  | succ port =>
    change ((Nat.digits 10 (port + 1)).map Nat.digitChar).reverse ≠ []
    simp

theorem strconvAtoi_itoa {port : ℕ} (h : port < 65536) :
    strconvAtoi (itoa port) = some (port : ℤ) := by
  have hsign : ∀ ch, ch.isDigit = true → ch ≠ '-' ∧ ch ≠ '+' := by
    rintro ch hch
    constructor
    · rintro rfl
      exact absurd hch (by decide)
    · rintro rfl
      exact absurd hch (by decide)
  have hhead : ∀ ch, (itoa port).head? = some ch → ch ≠ '-' ∧ ch ≠ '+' :=
    fun ch hch => hsign ch (mem_itoa (List.mem_of_mem_head? hch))
  have hminus : (itoa port).head? ≠ some '-' := fun h => (hhead _ h).1 rfl
  have hplus : (itoa port).head? ≠ some '+' := fun h => (hhead _ h).2 rfl
  have hdigits : ((itoa port).any fun c => !c.isDigit) = false := by
    rw [List.any_eq_false]
    intro ch hch
    simp [mem_itoa hch]
  have hvalue :
      Nat.ofDigits (10 : ℤ) ((itoa port).reverse.map fun c => c.toNat - 48) = port := by
    have hatoi := atoi_itoa port
    simpa only [atoi, if_neg hminus, Nat.coe_ofDigits, Nat.cast_ofNat] using hatoi
  unfold strconvAtoi
  simp only [hminus, hplus, or_self, if_false, itoa_ne_nil, hdigits, Bool.false_eq_true, hvalue]
  rw [if_pos (by omega)]

end Ports

section Addresses

theorem idxOf?_append_cons {before after : List Char} {c : Char} (h : c ∉ before) :
    (before ++ c :: after).idxOf? c = some before.length := by
  induction before with
  | nil => simp [List.idxOf?_cons]
  | cons ch before ih =>
    have hne : (ch == c) = false := by
      simp only [beq_eq_false_iff_ne]
      rintro rfl
      exact h List.mem_cons_self
    rw [List.cons_append, List.idxOf?_cons, hne,
      ih fun hmem => h (List.mem_cons_of_mem ch hmem)]
    rfl

theorem lastIndexOf_append_cons {before after : List Char} {c : Char} (h : c ∉ after) :
    lastIndexOf c (before ++ c :: after) = some before.length := by
  have hreverse : (before ++ c :: after).reverse = after.reverse ++ c :: before.reverse := by simp
  rw [lastIndexOf, hreverse, idxOf?_append_cons (by simpa using h), Option.map_some,
    List.length_append, List.length_cons, List.length_reverse]
  congr 1
  omega

def joinText (host port : List Char) : List Char :=
  if ':' ∈ host then '[' :: host ++ [']', ':'] ++ port else host ++ ':' :: port

theorem JsonText.text_joinHostPort (json : JsonText) (host : Bytes) (port : ℕ) :
    json.text (socks5TargetAddr host port) = joinText (json.text host) (itoa port) := by
  have hport : ∀ ch ∈ itoa port, ch.toNat < 128 := by
    intro ch hch
    have hdigit := mem_itoa hch
    simp only [Char.isDigit, Bool.and_eq_true, decide_eq_true_eq] at hdigit
    have hle : ch.val ≤ '9'.val := hdigit.2
    have hle' : ch.toNat ≤ 57 := UInt32.le_iff_toNat_le.mp hle
    omega
  obtain ⟨hbytes, hmap⟩ := map_ascii hport
  have hcolon : ':' ∈ json.text host ↔ (58 : UInt8) ∈ host :=
    json.mem_text (n := 58) (by decide) host
  unfold socks5TargetAddr joinHostPort joinText
  by_cases h : (58 : UInt8) ∈ host
  · have htail : ∀ b ∈ [93, 58] ++ ascii (itoa port), b.toNat < 128 := by
      intro b hb
      obtain hb | hb := List.mem_append.mp hb
      · fin_cases hb <;> decide
      · exact hbytes b hb
    have hopen := json.text_ascii [] 91 (host ++ ([93, 58] ++ ascii (itoa port))) (by decide)
    rw [if_pos h, if_pos (hcolon.mpr h), List.append_assoc, List.cons_append,
      ← List.nil_append (91 :: _), hopen, json.text_nil, json.text_append_ascii host htail,
      List.map_append, hmap]
    simp
  · rw [if_neg h, if_neg fun hmem => h (hcolon.mp hmem),
      json.text_ascii host 58 _ (by decide), json.text_of_ascii hbytes, hmap]
    rfl

theorem splitHostPort_bracketed {x port h p : List Char} (hport : ':' ∉ port)
    (hsplit : splitHostPort ('[' :: x ++ ':' :: port) = some (h, p)) :
    p = port ∧ x = h ++ [']'] := by
  have hhead : ('[' :: x ++ ':' :: port).head? = some '[' := rfl
  rw [splitHostPort, lastIndexOf_append_cons hport] at hsplit
  dsimp only at hsplit
  rw [if_pos hhead] at hsplit
  cases hclose : ('[' :: x ++ ':' :: port).idxOf? ']' with
  | none =>
    rw [hclose] at hsplit
    cases hsplit
  | some close =>
    rw [hclose] at hsplit
    dsimp only at hsplit
    split_ifs at hsplit with hend
    obtain ⟨rfl, rfl⟩ := Prod.mk.inj (Option.some.inj hsplit)
    obtain ⟨hlt, hat, -⟩ := List.idxOf?_eq_some_iff.mp hclose
    obtain rfl : close = x.length := by
      rw [List.length_cons] at hend
      omega
    refine ⟨by simp, ?_⟩
    -- the closing bracket is the last character in front of the colon
    obtain rfl | ⟨front, last, rfl⟩ := x.eq_nil_or_concat
    · have hbracket : '[' = ']' := hat
      exact absurd hbracket (by decide)
    · have hlast : last = ']' := by simpa using hat
      rw [hlast]
      simp

theorem splitHostPort_plain {x port h p : List Char} (hport : ':' ∉ port)
    (hhead : x.head? ≠ some '[')
    (hsplit : splitHostPort (x ++ ':' :: port) = some (h, p)) : p = port ∧ h = x := by
  have hhead' : (x ++ ':' :: port).head? ≠ some '[' := by
    cases x with
    | nil => simp
    | cons ch x => exact hhead
  rw [splitHostPort, lastIndexOf_append_cons hport] at hsplit
  dsimp only at hsplit
  rw [if_neg hhead'] at hsplit
  split_ifs at hsplit
  obtain ⟨rfl, rfl⟩ := Prod.mk.inj (Option.some.inj hsplit)
  simp

/-- Whatever the host, the port that the relay takes from an address is the one that was put
into it; the host is the same up to one pair of brackets around it. -/
theorem splitHostPort_joinText {host port h p : List Char} (hport : ':' ∉ port)
    (hsplit : splitHostPort (joinText host port) = some (h, p)) :
    p = port ∧ (h = host ∨ host = '[' :: h ++ [']']) := by
  unfold joinText at hsplit
  by_cases hcolon : ':' ∈ host
  · rw [if_pos hcolon] at hsplit
    have hassoc : '[' :: host ++ [']', ':'] ++ port = '[' :: (host ++ [']']) ++ ':' :: port := by
      simp
    rw [hassoc] at hsplit
    obtain ⟨rfl, hhost⟩ := splitHostPort_bracketed hport hsplit
    exact ⟨rfl, .inl (List.append_cancel_right hhost).symm⟩
  · rw [if_neg hcolon] at hsplit
    by_cases hhead : host.head? = some '['
    · obtain ⟨x, rfl⟩ : ∃ x, host = '[' :: x := ⟨_, List.eq_cons_of_mem_head? hhead⟩
      obtain ⟨rfl, rfl⟩ := splitHostPort_bracketed hport hsplit
      exact ⟨rfl, .inr rfl⟩
    · obtain ⟨rfl, rfl⟩ := splitHostPort_plain hport hhead hsplit
      exact ⟨rfl, .inl rfl⟩

theorem splitHostPort_joinText_eq {host port : List Char} (hhost : '[' ∉ host ∧ ']' ∉ host)
    (hport : ':' ∉ port ∧ '[' ∉ port ∧ ']' ∉ port) :
    splitHostPort (joinText host port) = some (host, port) := by
  unfold joinText
  by_cases hcolon : ':' ∈ host
  · have hassoc : '[' :: host ++ [']', ':'] ++ port = '[' :: (host ++ [']']) ++ ':' :: port := by
      simp
    have hclose : ('[' :: (host ++ [']']) ++ ':' :: port).idxOf? ']' =
        some ('[' :: host).length := by
      have hsplit : '[' :: (host ++ [']']) ++ ':' :: port =
          ('[' :: host) ++ ']' :: (':' :: port) := by simp
      rw [hsplit, idxOf?_append_cons (by simpa using hhost.2)]
    have hhead : ('[' :: (host ++ [']']) ++ ':' :: port).head? = some '[' := rfl
    rw [if_pos hcolon, hassoc, splitHostPort, lastIndexOf_append_cons hport.1]
    dsimp only
    rw [if_pos hhead, hclose]
    simp [hhost, hport]
  · have hhead : (host ++ ':' :: port).head? ≠ some '[' := by
      cases host with
      | nil => simp
      | cons ch host =>
        rintro h
        exact hhost.1 (List.mem_of_mem_head? h)
    rw [if_neg hcolon, splitHostPort, lastIndexOf_append_cons hport.1]
    dsimp only
    rw [if_neg hhead]
    simp [hcolon, hhost, hport]

end Addresses

section IPText

theorem mem_intercalate {sep : List Char} {parts : List (List Char)} {ch : Char}
    (h : ch ∈ sep.intercalate parts) : ch ∈ sep ∨ ∃ part ∈ parts, ch ∈ part := by
  induction parts with
  | nil => simp at h
  | cons part parts ih =>
    cases parts with
    | nil => exact .inr ⟨part, List.mem_cons_self, by simpa using h⟩
    | cons next parts =>
      rw [List.intercalate_cons_cons, List.mem_append, List.mem_append] at h
      obtain (h | h) | h := h
      · exact .inr ⟨part, List.mem_cons_self, h⟩
      · exact .inl h
      · obtain h | ⟨other, hother, hch⟩ := ih h
        · exact .inl h
        · exact .inr ⟨other, List.mem_cons_of_mem part hother, hch⟩

theorem length_intercalate_le (sep : List Char) {parts : List (List Char)} {n : ℕ}
    (h : ∀ part ∈ parts, part.length ≤ n) :
    (sep.intercalate parts).length ≤ (n + sep.length) * parts.length := by
  induction parts with
  | nil => simp
  | cons part parts ih =>
    have hpart := h part List.mem_cons_self
    cases parts with
    | nil =>
      simp only [List.intercalate_singleton, List.length_cons, List.length_nil, Nat.zero_add,
        Nat.mul_one]
      omega
    | cons next parts =>
      have hrest := ih fun other hother => h other (List.mem_cons_of_mem part hother)
      rw [List.intercalate_cons_cons, List.length_append, List.length_append,
        List.length_cons (a := part), Nat.mul_succ]
      omega

theorem length_digitText_le {base n k : ℕ} (hbase : 1 < base) (h : n < base ^ k) :
    (((Nat.digits base n).map Nat.digitChar).reverse).length ≤ k := by
  rw [List.length_reverse, List.length_map]
  exact (Nat.digits_length_le_iff hbase n).mpr h

def IsAddressChar (ch : Char) : Prop :=
  ch.isDigit = true ∨ ch ∈ ['a', 'b', 'c', 'd', 'e', 'f', ':', '.']

theorem IsAddressChar.plain {ch : Char} (h : IsAddressChar ch) :
    0x20 ≤ ch.toNat ∧ ch.toNat < 0x7f ∧ ch ≠ '[' ∧ ch ≠ ']' := by
  obtain h | h := h
  · simp only [Char.isDigit, Bool.and_eq_true, decide_eq_true_eq] at h
    have hlow : '0'.toNat ≤ ch.toNat := UInt32.le_iff_toNat_le.mp h.1
    have hhigh : ch.toNat ≤ '9'.toNat := UInt32.le_iff_toNat_le.mp h.2
    have h0 : '0'.toNat = 48 := rfl
    have h9 : '9'.toNat = 57 := rfl
    refine ⟨by omega, by omega, ?_, ?_⟩
    · rintro rfl
      exact absurd hhigh (by decide)
    · rintro rfl
      exact absurd hhigh (by decide)
  · fin_cases h <;> decide

theorem isAddressChar_digitChar : ∀ d < 16, IsAddressChar (Nat.digitChar d) := by
  unfold IsAddressChar
  decide

theorem itoa_spec (b : UInt8) :
    (itoa b.toNat).length ≤ 3 ∧ ∀ ch ∈ itoa b.toNat, IsAddressChar ch := by
  refine ⟨?_, fun ch hch => .inl (mem_itoa hch)⟩
  have hlt := b.toNat_lt
  change (itoa (.ofNat b.toNat)).length ≤ 3
  generalize b.toNat = n at hlt ⊢
  cases n with
  | zero => decide
  | succ n => exact length_digitText_le (by decide) (by omega)

theorem hexText_spec {n : ℕ} (h : n < 65536) :
    (hexText n).length ≤ 4 ∧ hexText n ≠ [] ∧ ∀ ch ∈ hexText n, IsAddressChar ch := by
  unfold hexText
  by_cases hzero : n = 0
  · rw [if_pos hzero]
    exact ⟨by decide, by decide, by simp [IsAddressChar]⟩
  · rw [if_neg hzero]
    refine ⟨length_digitText_le (by decide) (by omega),
      by simpa [Nat.digits_eq_nil_iff_eq_zero] using hzero, ?_⟩
    intro ch hch
    rw [List.mem_reverse, List.mem_map] at hch
    obtain ⟨d, hd, rfl⟩ := hch
    exact isAddressChar_digitChar d (Nat.digits_lt_base (by decide) hd)

theorem ipv4Text_spec {addr : Bytes} (h : addr.length = 4) :
    (ipv4Text addr).length ≤ 82 ∧ ipv4Text addr ≠ [] ∧ ∀ ch ∈ ipv4Text addr, IsAddressChar ch := by
  have hparts : ∀ part ∈ addr.map fun b => itoa b.toNat,
      part.length ≤ 3 ∧ ∀ ch ∈ part, IsAddressChar ch := by
    intro part hpart
    obtain ⟨b, -, rfl⟩ := List.mem_map.mp hpart
    exact itoa_spec b
  refine ⟨?_, ?_, ?_⟩
  · have hle := length_intercalate_le ['.'] fun part hpart => (hparts part hpart).1
    rw [List.length_map, h] at hle
    exact hle.trans (by decide)
  · match addr, h with
    | b₁ :: b₂ :: rest, _ =>
      rw [ipv4Text, List.map_cons, List.map_cons, List.intercalate_cons_cons]
      simp
  · intro ch hch
    obtain hch | ⟨part, hpart, hch⟩ := mem_intercalate hch
    · obtain rfl := List.mem_singleton.mp hch
      exact .inr (by decide)
    · exact (hparts part hpart).2 ch hch

theorem groups_spec (addr : Bytes) :
    2 * (groups addr).length ≤ addr.length ∧ ∀ g ∈ groups addr, g < 65536 := by
  fun_induction groups addr with
  | case1 high low rest ih =>
    have hhigh := high.toNat_lt
    have hlow := low.toNat_lt
    refine ⟨by simp only [List.length_cons]; omega, ?_⟩
    intro g hg
    obtain rfl | hg := List.mem_cons.mp hg
    · omega
    · exact ih.2 g hg
  | case2 => simp

theorem groupText_spec {g : List ℕ} (hlength : g.length ≤ 8) (hg : ∀ n ∈ g, n < 65536) :
    ([':'].intercalate (g.map hexText)).length ≤ 40 ∧
      ∀ ch ∈ [':'].intercalate (g.map hexText), IsAddressChar ch := by
  have hparts : ∀ part ∈ g.map hexText, part.length ≤ 4 ∧ ∀ ch ∈ part, IsAddressChar ch := by
    intro part hpart
    obtain ⟨n, hn, rfl⟩ := List.mem_map.mp hpart
    exact ⟨(hexText_spec (hg n hn)).1, (hexText_spec (hg n hn)).2.2⟩
  constructor
  · have hle := length_intercalate_le [':'] fun part hpart => (hparts part hpart).1
    rw [List.length_map, List.length_singleton] at hle
    omega
  · intro ch hch
    obtain hch | ⟨part, hpart, hch⟩ := mem_intercalate hch
    · obtain rfl := List.mem_singleton.mp hch
      exact .inr (by decide)
    · exact (hparts part hpart).2 ch hch

theorem ipv6Text_spec {addr : Bytes} (h : addr.length = 16) :
    (ipv6Text addr).length ≤ 82 ∧ ipv6Text addr ≠ [] ∧ ∀ ch ∈ ipv6Text addr, IsAddressChar ch := by
  unfold ipv6Text
  split_ifs
  · exact ipv4Text_spec (by simp [h])
  obtain ⟨hlength, hlt⟩ := groups_spec addr
  have hpart : ∀ part : List ℕ, part.Sublist (groups addr) →
      part.length ≤ 8 ∧ ∀ n ∈ part, n < 65536 :=
    fun part hsub => ⟨hsub.length_le.trans (by omega), fun n hn => hlt n (hsub.subset hn)⟩
  dsimp only
  cases zeroRun (groups addr) with
  | none =>
    obtain ⟨hle, hchars⟩ := groupText_spec (hpart _ (List.Sublist.refl _)).1 hlt
    refine ⟨hle.trans (by decide), ?_, hchars⟩
    match addr, h with
    | b₁ :: b₂ :: b₃ :: b₄ :: rest, _ =>
      rw [groups, groups, List.map_cons, List.map_cons, List.intercalate_cons_cons]
      simp
  | some run =>
    obtain ⟨hfirst, hfirstChars⟩ :=
      groupText_spec (hpart _ (List.take_sublist run.1 _)).1 (hpart _ (List.take_sublist _ _)).2
    obtain ⟨hlast, hlastChars⟩ :=
      groupText_spec (hpart _ (List.drop_sublist run.2 _)).1 (hpart _ (List.drop_sublist _ _)).2
    refine ⟨?_, by simp, ?_⟩
    · simp only [List.length_append, List.length_cons, List.length_nil]
      omega
    · intro ch hch
      rw [List.mem_append, List.mem_append] at hch
      obtain (hch | hch) | hch := hch
      · exact hfirstChars ch hch
      · have hcolon : ch = ':' := by simpa using hch
        rw [hcolon]
        exact .inr (by decide)
      · exact hlastChars ch hch

end IPText

/-- An address that the relay's syntax checks let through: an IP address, or a name of
printable ASCII characters other than brackets that is not too long. -/
def Address.Plain : Address → Prop
  | .ipv4 _ => True
  | .domain d => d.name.length ≤ 252 ∧
      ∀ b ∈ d.name, 0x20 ≤ b.toNat ∧ b.toNat < 0x7f ∧ b ≠ 91 ∧ b ≠ 93
  | .ipv6 _ => True

theorem ascii_spec {text : List Char} (hlength : text.length ≤ 252) (hne : text ≠ [])
    (h : ∀ ch ∈ text, IsAddressChar ch) :
    (ascii text).length ≤ 252 ∧ ascii text ≠ [] ∧
      ∀ b ∈ ascii text, 0x20 ≤ b.toNat ∧ b.toNat < 0x7f ∧ b ≠ 91 ∧ b ≠ 93 := by
  refine ⟨by simpa [ascii] using hlength, by simpa [ascii] using hne, ?_⟩
  intro b hb
  obtain ⟨ch, hch, rfl⟩ := List.mem_map.mp hb
  obtain ⟨hlow, hhigh, hopen, hclose⟩ := (h ch hch).plain
  have hbyte : (UInt8.ofNat ch.toNat).toNat = ch.toNat := toNat_length (by omega)
  have hne : ∀ other : Char, other.toNat < 128 → ch ≠ other →
      UInt8.ofNat ch.toNat ≠ UInt8.ofNat other.toNat := by
    intro other hother hne heq
    have hnat := congrArg UInt8.toNat heq
    rw [hbyte, toNat_length (by omega)] at hnat
    exact hne (Char.toNat_inj.mp hnat)
  rw [hbyte]
  exact ⟨hlow, hhigh, hne '[' (by decide) hopen, hne ']' (by decide) hclose⟩

theorem Address.Plain.host_spec {a : Address} (h : a.Plain) :
    a.host.length ≤ 252 ∧ a.host ≠ [] ∧
      ∀ b ∈ a.host, 0x20 ≤ b.toNat ∧ b.toNat < 0x7f ∧ b ≠ 91 ∧ b ≠ 93 := by
  cases a with
  | ipv4 addr =>
    obtain ⟨hlength, hne, hchars⟩ := ipv4Text_spec addr.length_toList
    exact ascii_spec (hlength.trans (by decide)) hne hchars
  | domain d => exact ⟨h.1, d.nonempty, h.2⟩
  | ipv6 addr =>
    obtain ⟨hlength, hne, hchars⟩ := ipv6Text_spec addr.length_toList
    exact ascii_spec (hlength.trans (by decide)) hne hchars

/-- The relay and the session allow connections to a port. -/
structure PortAllowed (cfg : Config) (b : Session) (port : ℤ) : Prop where
  server : cfg.allowOutbound = true
  backend : b.outboundAllowed = true
  serverPorts : cfg.allowedOutboundPorts ≠ [] → port ∈ cfg.allowedOutboundPorts
  backendPorts : b.outboundPortsExplicit = true → port ∈ b.allowedOutboundPorts

theorem targetPort_ok {addr : List Char} {port : ℤ} (h : targetPort addr = .ok port) :
    ∃ host portStr, splitHostPort addr = some (host, portStr) ∧
      strconvAtoi portStr = some port ∧ 0 < port := by
  unfold targetPort at h
  cases hsplit : splitHostPort addr with
  | none =>
    rw [hsplit] at h
    cases h
  | some parts =>
    obtain ⟨host, portStr⟩ := parts
    rw [hsplit] at h
    dsimp only at h
    split_ifs at h
    cases hatoi : strconvAtoi portStr with
    | none =>
      rw [hatoi] at h
      cases h
    | some value =>
      rw [hatoi] at h
      dsimp only at h
      split_ifs at h with hrange
      obtain rfl := Except.ok.inj h
      exact ⟨host, portStr, rfl, hatoi, by omega⟩

theorem outboundTarget_targetPort {cfg : Config} {b : Session} {addr : List Char} {port : ℤ}
    (h : outboundTarget cfg b addr = .ok port) : targetPort addr = .ok port := by
  unfold outboundTarget at h
  obtain ⟨_, -, h⟩ := parts_of_ok h
  obtain ⟨_, -, h⟩ := parts_of_ok h
  obtain ⟨_, -, h⟩ := parts_of_ok h
  obtain ⟨_, -, h⟩ := parts_of_ok h
  obtain ⟨target, htarget, h⟩ := parts_of_ok h
  obtain ⟨_, -, h⟩ := parts_of_ok h
  obtain ⟨_, -, h⟩ := parts_of_ok h
  obtain rfl := Except.ok.inj h
  exact htarget

/-- A port that the relay lets through is the port that was asked for, and it is allowed. -/
theorem outboundTarget_sound (json : JsonText) {cfg : Config} {b : Session} {host : Bytes}
    {port : ℕ} {p : ℤ} (hport : port < 65536)
    (h : outboundTarget cfg b (json.text (socks5TargetAddr host port)) = .ok p) :
    p = port ∧ 0 < port ∧ PortAllowed cfg b port := by
  obtain ⟨hserver, hbackend, hserverPorts, hbackendPorts⟩ := outboundTarget_ok h
  obtain ⟨_, portStr, hsplit, hatoi, hpos⟩ := targetPort_ok (outboundTarget_targetPort h)
  have hcolon : ':' ∉ itoa port := fun hmem => absurd (mem_itoa hmem) (by decide)
  rw [json.text_joinHostPort] at hsplit
  obtain ⟨rfl, -⟩ := splitHostPort_joinText hcolon hsplit
  rw [strconvAtoi_itoa hport] at hatoi
  obtain rfl := Option.some.inj hatoi
  exact ⟨rfl, by omega, hserver, hbackend, hserverPorts, hbackendPorts⟩

theorem length_itoa_le {port : ℕ} (h : port < 65536) : (itoa port).length ≤ 5 := by
  change (itoa (.ofNat port)).length ≤ 5
  cases port with
  | zero => decide
  | succ port => exact length_digitText_le (by decide) (by omega)

theorem sum_utf8Size {text : List Char} (h : ∀ ch ∈ text, ch.toNat < 0x7f) :
    (text.map Char.utf8Size).sum = text.length := by
  induction text with
  | nil => rfl
  | cons ch text ih =>
    have hch : ch.utf8Size = 1 :=
      Char.utf8Size_eq_one_iff.mpr
        (UInt32.le_iff_toNat_le.mpr (Nat.le_of_lt (h ch List.mem_cons_self)))
    rw [List.map_cons, List.sum_cons, ih fun ch' hch' => h ch' (List.mem_cons_of_mem ch hch'), hch,
      List.length_cons, Nat.add_comm]

theorem mem_joinText {host port : List Char} {ch : Char} (h : ch ∈ joinText host port) :
    ch ∈ host ∨ ch ∈ port ∨ ch ∈ ['[', ']', ':'] := by
  unfold joinText at h
  split_ifs at h <;> simp at h ⊢ <;> tauto

theorem length_joinText_le (host port : List Char) :
    (joinText host port).length ≤ host.length + port.length + 3 := by
  unfold joinText
  split_ifs <;> simp <;> omega

theorem plain_target (json : JsonText) {a : Address} (ha : a.Plain) {port : ℕ}
    (hport : port < 65536) (hpos : 0 < port) :
    ((json.text (socks5TargetAddr a.host port)).map Char.utf8Size).sum ≤ maxTargetAddrLen ∧
      ((json.text (socks5TargetAddr a.host port)).any
        fun c => c.toNat < 0x20 || c.toNat == 0x7f) = false ∧
      targetPort (json.text (socks5TargetAddr a.host port)) = .ok (port : ℤ) := by
  obtain ⟨hlength, hne, hbytes⟩ := ha.host_spec
  have htext := json.text_of_ascii fun b hb =>
    show b.toNat < 128 from (hbytes b hb).2.1.trans (by decide)
  have hhost : ∀ ch ∈ json.text a.host, 0x20 ≤ ch.toNat ∧ ch.toNat < 0x7f := by
    intro ch hch
    rw [htext] at hch
    obtain ⟨b, hb, rfl⟩ := List.mem_map.mp hch
    obtain ⟨hlow, hhigh, -⟩ := hbytes b hb
    rw [ofNat_toNat_of_ascii _ (by omega)]
    exact ⟨hlow, hhigh⟩
  have hchars : ∀ ch ∈ joinText (json.text a.host) (itoa port),
      0x20 ≤ ch.toNat ∧ ch.toNat < 0x7f := by
    intro ch hch
    obtain hch | hch | hch := mem_joinText hch
    · exact hhost ch hch
    · have hplain := IsAddressChar.plain (.inl (mem_itoa hch))
      exact ⟨hplain.1, hplain.2.1⟩
    · fin_cases hch <;> decide
  have hbrackets : '[' ∉ json.text a.host ∧ ']' ∉ json.text a.host := by
    constructor
    · intro hmem
      exact (hbytes _ ((json.mem_text (n := 91) (by decide) a.host).mp hmem)).2.2.1 rfl
    · intro hmem
      exact (hbytes _ ((json.mem_text (n := 93) (by decide) a.host).mp hmem)).2.2.2 rfl
  have hdigits : ':' ∉ itoa port ∧ '[' ∉ itoa port ∧ ']' ∉ itoa port := by
    refine ⟨?_, ?_, ?_⟩ <;> exact fun hmem => absurd (mem_itoa hmem) (by decide)
  have hsplit := splitHostPort_joinText_eq hbrackets hdigits
  have hnonempty : json.text a.host ≠ [] := by
    rw [htext]
    simpa using hne
  rw [json.text_joinHostPort]
  refine ⟨?_, ?_, ?_⟩
  · rw [sum_utf8Size fun ch hch => (hchars ch hch).2]
    have hle := length_joinText_le (json.text a.host) (itoa port)
    have hitoa := length_itoa_le hport
    have hsame : (json.text a.host).length = a.host.length := by rw [htext, List.length_map]
    have hmax : maxTargetAddrLen = 260 := rfl
    omega
  · rw [List.any_eq_false]
    intro ch hch
    have hrange := hchars ch hch
    simp
    omega
  · unfold targetPort
    rw [hsplit]
    dsimp only
    rw [if_neg (by simp [hnonempty, itoa_ne_nil]), strconvAtoi_itoa hport]
    dsimp only
    rw [if_neg (by omega)]

theorem outboundTarget_complete (json : JsonText) {cfg : Config} {b : Session} {a : Address}
    (ha : a.Plain) {port : ℕ} (hport : port < 65536) (hpos : 0 < port)
    (hallowed : PortAllowed cfg b port) :
    outboundTarget cfg b (json.text (socks5TargetAddr a.host port)) = .ok (port : ℤ) := by
  obtain ⟨hlength, hcontrol, htarget⟩ := plain_target json ha hport hpos
  have hports : ∀ list : List ℤ, (port : ℤ) ∈ list → portAllowed list port ≠ false := by
    intro list hmem
    simpa [portAllowed] using hmem
  unfold outboundTarget
  rw [failIf_eq_ok.mpr (by simp [hallowed.server]), failIf_eq_ok.mpr (by simp [hallowed.backend]),
    failIf_eq_ok.mpr (by omega), failIf_eq_ok.mpr (by simp [hcontrol]), htarget]
  change (failIf (cfg.allowedOutboundPorts ≠ [] ∧ portAllowed cfg.allowedOutboundPorts port = false)
    _ >>= fun _ => failIf (b.outboundPortsExplicit = true ∧
      portAllowed b.allowedOutboundPorts port = false) _ >>= fun _ => Except.ok (port : ℤ)) = _
  rw [failIf_eq_ok.mpr fun h => hports _ (hallowed.serverPorts h.1) h.2]
  change (failIf (b.outboundPortsExplicit = true ∧
    portAllowed b.allowedOutboundPorts port = false) _ >>= fun _ => Except.ok (port : ℤ)) = _
  rw [failIf_eq_ok.mpr fun h => hports _ (hallowed.backendPorts h.1) h.2]
  rfl

/-- Whatever bytes a SOCKS5 client sends, and however the JSON encoding treats its host name:
when the relay's checks let the target through, the port that they have allowed is the port of
the request. And an allowed port of a request for an IP address or an ordinary name passes. -/
theorem socks5_port_authorized (json : JsonText) {c c' : Conn} {host : Bytes} {port : ℕ}
    (h : outcome accept c = (.ok (host, port), c')) (cfg : Config) (b : Session) :
    ∃ (g : Greeting) (r : Request), available c.input = g.wire ++ r.wire ++ available c'.input ∧
      host = r.address.host ∧ port = r.port.val ∧
      (∀ p, outboundTarget cfg b (json.text (socks5TargetAddr host port)) = .ok p →
        p = r.port.val ∧ 0 < r.port.val ∧ PortAllowed cfg b r.port.val) ∧
      (r.address.Plain → 0 < r.port.val → PortAllowed cfg b r.port.val →
        outboundTarget cfg b (json.text (socks5TargetAddr host port)) = .ok (r.port.val : ℤ)) := by
  obtain ⟨wire, ⟨g, r, -, hresult, rfl⟩, hview⟩ := accept_recognizes.sound h
  obtain ⟨rfl, rfl⟩ := Prod.mk.inj hresult
  refine ⟨g, r, hview, rfl, rfl, ?_, ?_⟩
  · intro p hp
    exact outboundTarget_sound json r.port.isLt hp
  · intro hplain hpos hallowed
    exact outboundTarget_complete json hplain r.port.isLt hpos hallowed

/-- The JSON text when every byte is looked at on its own. -/
def bytewise : JsonText where
  text bytes := bytes.map fun b => if b.toNat < 128 then Char.ofNat b.toNat else Char.ofNat 0xFFFD
  text_nil := rfl
  text_ascii before b after h := by simp [h]
  text_other bytes h ch hch := by
    obtain ⟨b, hb, rfl⟩ := List.mem_map.mp hch
    rw [if_neg (by have := h b hb; omega)]
    decide

theorem socks5_port_authorized_https :
    outcome accept httpsRequest = (.ok ([104], 443), httpsAccepted) ∧
      PortAllowed dialEnv.config (newSession 0 ['b'] dialAttested) 443 ∧
      outboundTarget dialEnv.config (newSession 0 ['b'] dialAttested)
        (bytewise.text (socks5TargetAddr [104] 443)) = .ok 443 := by
  have haccept : outcome accept httpsRequest = (.ok ([104], 443), httpsAccepted) := rfl
  have htarget : outboundTarget dialEnv.config (newSession 0 ['b'] dialAttested)
      (bytewise.text (socks5TargetAddr [104] 443)) = .ok 443 := rfl
  obtain ⟨g, r, -, -, hport, hallowed, -⟩ :=
    socks5_port_authorized bytewise haccept dialEnv.config (newSession 0 ['b'] dialAttested)
  rw [← hport] at hallowed
  exact ⟨haccept, (hallowed 443 htarget).2.2, htarget⟩

end NexusProxy.Client.Socks5
