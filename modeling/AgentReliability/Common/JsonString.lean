import AgentReliability.Common.Hex
/-!
# `JSON.stringify` of a string

A string is quoted code point by code point: what JSON reserves, the
controls and a surrogate that stands alone are escaped, everything else is
the character it is. No quoted string is the beginning of another.
-/

namespace AgentReliability

namespace JsonString

def isHigh (u : UInt16) : Bool := 0xd800 ≤ u.toNat ∧ u.toNat < 0xdc00

def isLow (u : UInt16) : Bool := 0xdc00 ≤ u.toNat ∧ u.toNat < 0xe000

/-- The character of a code unit that is no surrogate. -/
def unitChar (u : UInt16) : Char := .ofNat u.toNat

/-- The character of a pair of surrogates. -/
def pairChar (high low : UInt16) : Char :=
  .ofNat (0x10000 + (high.toNat - 0xd800) * 0x400 + (low.toNat - 0xdc00))

def hexDigit (n : ℕ) : Char := if n < 10 then .ofNat (48 + n) else .ofNat (87 + n)

/-- `UnicodeEscape`. -/
def unicodeEscape (u : UInt16) : List Char :=
  ['\\', 'u', hexDigit (u.toNat / 4096), hexDigit (u.toNat / 256 % 16),
    hexDigit (u.toNat / 16 % 16), hexDigit (u.toNat % 16)]

/-- A code unit that is a code point of its own. -/
def escapeUnit (u : UInt16) : List Char :=
  if u = 8 then ['\\', 'b']
  else if u = 9 then ['\\', 't']
  else if u = 10 then ['\\', 'n']
  else if u = 12 then ['\\', 'f']
  else if u = 13 then ['\\', 'r']
  else if u = 34 then ['\\', '"']
  else if u = 92 then ['\\', '\\']
  else if u.toNat < 32 || isHigh u || isLow u then unicodeEscape u
  else [unitChar u]

def escapeUnits : JsString → List Char
  | high :: low :: rest =>
    if isHigh high && isLow low then pairChar high low :: escapeUnits rest
    else escapeUnit high ++ escapeUnits (low :: rest)
  | [u] => escapeUnit u
  | [] => []

/-- `QuoteJSONString`. -/
def quote (s : JsString) : List Char := '"' :: (escapeUnits s ++ ['"'])

/-! ## Reading a quoted string -/

/-- The value of a digit. -/
def hexValue (c : Char) : ℕ := if c.toNat < 58 then c.toNat - 48 else c.toNat - 87

/-- The code units of the code point a text starts with, and what follows. -/
def readUnits : List Char → Option (JsString × List Char)
  | '\\' :: 'u' :: a :: b :: c :: d :: rest =>
    some ([.ofNat (4096 * hexValue a + 256 * hexValue b + 16 * hexValue c + hexValue d)], rest)
  | '\\' :: 'b' :: rest => some ([8], rest)
  | '\\' :: 't' :: rest => some ([9], rest)
  | '\\' :: 'n' :: rest => some ([10], rest)
  | '\\' :: 'f' :: rest => some ([12], rest)
  | '\\' :: 'r' :: rest => some ([13], rest)
  | '\\' :: '"' :: rest => some ([34], rest)
  | '\\' :: '\\' :: rest => some ([92], rest)
  | c :: rest => some (JsString.ofChar c, rest)
  | [] => none

/-- The string up to its closing quote, and what follows; the number bounds
how many code points it has. -/
def unquote : ℕ → List Char → Option (JsString × List Char)
  | 0, _ => none
  | _ + 1, '"' :: rest => some ([], rest)
  | n + 1, cs => do
    let (units, rest) ← readUnits cs
    let (s, rest) ← unquote n rest
    pure (units ++ s, rest)

theorem hexValue_hexDigit {n : ℕ} (hn : n < 16) : hexValue (hexDigit n) = n := by
  have hall : ∀ n < 16, hexValue (hexDigit n) = n := by decide
  exact hall n hn

theorem toNat_ofNat {n : ℕ} (h : n < 0xd800 ∨ 0xdfff < n ∧ n < 0x110000) :
    (Char.ofNat n).toNat = n := by
  have hvalid : n.isValidChar := h
  rw [Char.ofNat, dif_pos hvalid]
  rfl

theorem readUnits_unicodeEscape (u : UInt16) (rest : List Char) :
    readUnits (unicodeEscape u ++ rest) = some ([u], rest) := by
  have hu := u.toNat_lt
  show some ([UInt16.ofNat (4096 * hexValue (hexDigit (u.toNat / 4096)) +
    256 * hexValue (hexDigit (u.toNat / 256 % 16)) + 16 * hexValue (hexDigit (u.toNat / 16 % 16)) +
      hexValue (hexDigit (u.toNat % 16)))], rest) = _
  rw [hexValue_hexDigit (by omega), hexValue_hexDigit (by omega), hexValue_hexDigit (by omega),
    hexValue_hexDigit (by omega)]
  have hvalue : 4096 * (u.toNat / 4096) + 256 * (u.toNat / 256 % 16) + 16 * (u.toNat / 16 % 16) +
      u.toNat % 16 = u.toNat := by omega
  rw [hvalue, UInt16.ofNat_toNat]

/-- A character that is not a backslash is read as it is. -/
theorem readUnits_char {c : Char} (hc : c ≠ '\\') (rest : List Char) :
    readUnits (c :: rest) = some (JsString.ofChar c, rest) := by
  unfold readUnits
  split
  all_goals rename_i heq
  on_goal 9 =>
    obtain ⟨rfl, rfl⟩ := List.cons.inj heq
    rfl
  on_goal 9 => exact absurd heq (by simp)
  all_goals exact absurd (List.cons.inj heq).1 hc

theorem readUnits_escapeUnit (u : UInt16) (rest : List Char) :
    readUnits (escapeUnit u ++ rest) = some ([u], rest) := by
  unfold escapeUnit
  split_ifs with h₁ h₂ h₃ h₄ h₅ h₆ h₇ h₈
  · rw [h₁]; rfl
  · rw [h₂]; rfl
  · rw [h₃]; rfl
  · rw [h₄]; rfl
  · rw [h₅]; rfl
  · rw [h₆]; rfl
  · rw [h₇]; rfl
  · exact readUnits_unicodeEscape u rest
  · have hu := u.toNat_lt
    simp only [isHigh, isLow, Bool.or_eq_true, decide_eq_true_eq, not_or, not_and] at h₈
    have hnat : (unitChar u).toNat = u.toNat := toNat_ofNat (by omega)
    have hback : unitChar u ≠ '\\' := by
      intro hback
      refine h₇ (UInt16.toNat_inj.mp ?_)
      rw [← hnat, hback]
      rfl
    have hunits : JsString.ofChar (unitChar u) = [u] := by
      rw [JsString.ofChar, hnat, if_pos (by omega), UInt16.ofNat_toNat]
    rw [List.singleton_append, readUnits_char hback, hunits]

theorem pairChar_toNat {high low : UInt16} (hhigh : isHigh high) (hlow : isLow low) :
    (pairChar high low).toNat =
      0x10000 + (high.toNat - 0xd800) * 0x400 + (low.toNat - 0xdc00) := by
  simp only [isHigh, isLow, decide_eq_true_eq] at hhigh hlow
  exact toNat_ofNat (by omega)

theorem ofChar_pairChar {high low : UInt16} (hhigh : isHigh high) (hlow : isLow low) :
    JsString.ofChar (pairChar high low) = [high, low] := by
  have hnat := pairChar_toNat hhigh hlow
  simp only [isHigh, isLow, decide_eq_true_eq] at hhigh hlow
  have hh : 0xd800 + ((pairChar high low).toNat - 0x10000) / 0x400 = high.toNat := by omega
  have hl : 0xdc00 + ((pairChar high low).toNat - 0x10000) % 0x400 = low.toNat := by omega
  rw [JsString.ofChar, if_neg (by omega), hh, hl, UInt16.ofNat_toNat, UInt16.ofNat_toNat]

/-- A character above the first plane is nothing JSON reserves. -/
theorem pairChar_ne {high low : UInt16} {c : Char} (hhigh : isHigh high) (hlow : isLow low)
    (hc : c.toNat < 0x10000) : pairChar high low ≠ c := by
  rintro rfl
  have hnat := pairChar_toNat hhigh hlow
  omega

/-- An escape does not start with a quote. -/
theorem escapeUnit_head (u : UInt16) : ∃ c rest, escapeUnit u = c :: rest ∧ c ≠ '"' := by
  unfold escapeUnit unicodeEscape
  split_ifs with h₁ h₂ h₃ h₄ h₅ h₆ h₇ h₈
  · exact ⟨_, _, rfl, by decide⟩
  · exact ⟨_, _, rfl, by decide⟩
  · exact ⟨_, _, rfl, by decide⟩
  · exact ⟨_, _, rfl, by decide⟩
  · exact ⟨_, _, rfl, by decide⟩
  · exact ⟨_, _, rfl, by decide⟩
  · exact ⟨_, _, rfl, by decide⟩
  · exact ⟨_, _, rfl, by decide⟩
  · refine ⟨_, _, rfl, fun hquote => h₆ (UInt16.toNat_inj.mp ?_)⟩
    have hu := u.toNat_lt
    simp only [isHigh, isLow, Bool.or_eq_true, decide_eq_true_eq, not_or, not_and] at h₈
    have hnat : (unitChar u).toNat = u.toNat := toNat_ofNat (by omega)
    rw [← hnat, hquote]
    rfl

/-- One code point is read, then the rest of the string. -/
theorem unquote_of_readUnits {c : Char} {cs rest r : List Char} {units s : JsString} {n : ℕ}
    (hc : c ≠ '"') (hread : readUnits (c :: cs) = some (units, rest))
    (hrest : unquote n rest = some (s, r)) : unquote (n + 1) (c :: cs) = some (units ++ s, r) := by
  unfold unquote
  split
  · simp_all
  · next heq => exact absurd (List.cons.inj heq).1 hc
  · simp_all

/-- **A string is read back from its quotation.** -/
theorem unquote_escapeUnits (s : JsString) (r : List Char) :
    ∀ n, s.length < n → unquote n (escapeUnits s ++ '"' :: r) = some (s, r) := by
  induction s using escapeUnits.induct with
  | case1 high low rest hpair ih =>
    intro n hn
    obtain ⟨hhigh, hlow⟩ := Bool.and_eq_true_iff.mp hpair
    obtain ⟨m, rfl⟩ : ∃ m, n = m + 1 := ⟨n - 1, by omega⟩
    simp only [List.length_cons] at hn
    have hread : readUnits (pairChar high low :: (escapeUnits rest ++ '"' :: r)) =
        some ([high, low], escapeUnits rest ++ '"' :: r) := by
      rw [readUnits_char (pairChar_ne hhigh hlow (by decide)), ofChar_pairChar hhigh hlow]
    rw [escapeUnits, if_pos hpair, List.cons_append]
    exact unquote_of_readUnits (pairChar_ne hhigh hlow (by decide)) hread (ih m (by omega))
  | case2 high low rest hpair ih =>
    intro n hn
    obtain ⟨m, rfl⟩ : ∃ m, n = m + 1 := ⟨n - 1, by omega⟩
    simp only [List.length_cons] at hn
    have hread := readUnits_escapeUnit high (escapeUnits (low :: rest) ++ '"' :: r)
    obtain ⟨c, cs, hhead, hc⟩ := escapeUnit_head high
    rw [escapeUnits, if_neg hpair, List.append_assoc, hhead, List.cons_append]
    rw [hhead, List.cons_append] at hread
    exact unquote_of_readUnits hc hread (ih m (by simp only [List.length_cons]; omega))
  | case3 u =>
    intro n hn
    rw [List.length_singleton] at hn
    obtain ⟨m, rfl⟩ : ∃ m, n = m + 1 + 1 := ⟨n - 2, by omega⟩
    have hread := readUnits_escapeUnit u ('"' :: r)
    obtain ⟨c, cs, hhead, hc⟩ := escapeUnit_head u
    rw [escapeUnits, hhead, List.cons_append]
    rw [hhead, List.cons_append] at hread
    exact unquote_of_readUnits hc hread rfl
  | case4 =>
    intro n hn
    obtain ⟨m, rfl⟩ : ∃ m, n = m + 1 := ⟨n - 1, by omega⟩
    rfl

/-- **The end of a string is where its quote is.** -/
theorem quote_inj {s t : JsString} {r r' : List Char} (h : quote s ++ r = quote t ++ r') :
    s = t ∧ r = r' := by
  simp only [quote, List.cons_append, List.append_assoc, List.cons.injEq, true_and,
    List.nil_append] at h
  have hs := unquote_escapeUnits s r (s.length + t.length + 1) (by omega)
  have ht := unquote_escapeUnits t r' (s.length + t.length + 1) (by omega)
  rw [h, ht] at hs
  obtain ⟨rfl, rfl⟩ := Prod.mk.inj (Option.some.inj hs)
  exact ⟨rfl, rfl⟩

end JsonString

end AgentReliability
