import Mathlib.Data.Int.Log
import Mathlib.Data.List.TakeWhile
import Mathlib.Data.Rat.Floor
import Mathlib.Tactic.FieldSimp
import Mathlib.Tactic.Ring
/-!
# The number a text denotes

`Number(text)` of ECMAScript, for the texts that denote a finite number: the
literal is read exactly, as a rational, and rounded to the nearest double.
`safeInteger?` is the value where `Number.isSafeInteger` accepts it.
-/

namespace AgentReliability

namespace StringNumber

/-! ## The literal -/

/-- `WhiteSpace` and `LineTerminator`. -/
def isWhite (c : Char) : Bool :=
  c.toNat ∈ [0x09, 0x0a, 0x0b, 0x0c, 0x0d, 0x20, 0xa0, 0x1680, 0x2028, 0x2029, 0x202f, 0x205f,
    0x3000, 0xfeff] || (0x2000 ≤ c.toNat && c.toNat ≤ 0x200a)

def trim (cs : List Char) : List Char :=
  ((cs.dropWhile isWhite).reverse.dropWhile isWhite).reverse

/-- The value of a digit in a radix up to 16. -/
def digit? (c : Char) : Option ℕ :=
  if c.isDigit then some (c.toNat - 48)
  else if 'a' ≤ c ∧ c ≤ 'f' then some (c.toNat - 87)
  else if 'A' ≤ c ∧ c ≤ 'F' then some (c.toNat - 55)
  else none

/-- At least one digit of a radix, and nothing else. -/
def digits? (radix : ℕ) (cs : List Char) : Option ℕ :=
  if cs.isEmpty then none
  else cs.foldlM (fun n c => (digit? c).bind fun d => if d < radix then some (radix * n + d) else none) 0

/-- `ExponentPart`, or nothing. -/
def exponent? : List Char → Option ℤ
  | [] => some 0
  | c :: cs =>
    if c = 'e' ∨ c = 'E' then
      match cs with
      | '+' :: ds => (digits? 10 ds).map fun n => (n : ℤ)
      | '-' :: ds => (digits? 10 ds).map fun n => -(n : ℤ)
      | ds => (digits? 10 ds).map fun n => (n : ℤ)
    else none

/-- `StrUnsignedDecimalLiteral`, but for `Infinity`. -/
def unsigned? (cs : List Char) : Option ℚ :=
  let whole := cs.takeWhile Char.isDigit
  let (fraction, tail) := match cs.dropWhile Char.isDigit with
    | '.' :: ds => (ds.takeWhile Char.isDigit, ds.dropWhile Char.isDigit)
    | ds => ([], ds)
  if (whole ++ fraction).isEmpty then none
  else (exponent? tail).map fun e =>
    (Nat.ofDigitChars 10 (whole ++ fraction) 0 : ℚ) * 10 ^ (e - (fraction.length : ℤ))

/-- `StringNumericLiteral`, after the white space around it. The empty text
is 0. -/
def literal? : List Char → Option ℚ
  | [] => some 0
  | '0' :: 'x' :: ds => (digits? 16 ds).map fun n => (n : ℚ)
  | '0' :: 'X' :: ds => (digits? 16 ds).map fun n => (n : ℚ)
  | '0' :: 'o' :: ds => (digits? 8 ds).map fun n => (n : ℚ)
  | '0' :: 'O' :: ds => (digits? 8 ds).map fun n => (n : ℚ)
  | '0' :: 'b' :: ds => (digits? 2 ds).map fun n => (n : ℚ)
  | '0' :: 'B' :: ds => (digits? 2 ds).map fun n => (n : ℚ)
  | '+' :: ds => unsigned? ds
  | '-' :: ds => (unsigned? ds).map fun v => -v
  | ds => unsigned? ds

/-! ## The double -/

/-- The nearest integer, a tie to the even one. -/
def roundHalfEven (v : ℚ) : ℤ :=
  let n := ⌊v⌋
  if v - n < 1 / 2 ∨ v - n = 1 / 2 ∧ n % 2 = 0 then n else n + 1

/-- The double nearest to a rational, as a rational. There is none where it
is infinite. -/
def toDouble (v : ℚ) : Option ℚ :=
  let ulp : ℚ := 2 ^ max (Int.log 2 |v| - 52) (-1074)
  let x : ℚ := roundHalfEven (v / ulp) * ulp
  if |x| < 2 ^ 1024 then some x else none

/-- `Number.MAX_SAFE_INTEGER`. -/
def maxSafeInteger : ℕ := 2 ^ 53 - 1

/-- `Number(text)`, where `Number.isSafeInteger` holds of it. -/
def safeInteger? (text : String) : Option ℤ :=
  (literal? (trim text.toList)).bind fun v => (toDouble v).bind fun x =>
    if x.den = 1 ∧ x.num.natAbs ≤ maxSafeInteger then some x.num else none

theorem natAbs_le_of_safeInteger {text : String} {n : ℤ} (h : safeInteger? text = some n) :
    n.natAbs ≤ maxSafeInteger := by
  obtain ⟨v, -, hv⟩ := Option.bind_eq_some_iff.mp h
  obtain ⟨x, -, hx⟩ := Option.bind_eq_some_iff.mp hv
  split at hx
  · next hsafe =>
    rw [← Option.some.inj hx]
    exact hsafe.2
  · exact absurd hx (by simp)

/-! ## Decimal digits are read back -/

section

variable {cs : List Char}

theorem dropWhile_eq_self {p : Char → Bool} (h : ∀ c ∈ cs, p c = false) : cs.dropWhile p = cs := by
  cases cs with
  | nil => rfl
  | cons c cs => rw [List.dropWhile_cons_of_neg (by simp [h c])]

theorem isWhite_of_isDigit {c : Char} (h : c.isDigit = true) : isWhite c = false := by
  simp only [Char.isDigit, Bool.and_eq_true, decide_eq_true_eq, UInt32.le_iff_toNat_le] at h
  have hlow : 48 ≤ c.toNat := h.1
  have hhigh : c.toNat ≤ 57 := h.2
  simp only [isWhite, List.mem_cons, List.not_mem_nil, or_false, Bool.or_eq_false_iff,
    Bool.and_eq_false_iff, decide_eq_false_iff_not]
  omega

theorem trim_of_digits (h : ∀ c ∈ cs, c.isDigit = true) : trim cs = cs := by
  have hwhite : ∀ c ∈ cs, isWhite c = false := fun c hc => isWhite_of_isDigit (h c hc)
  have hback : ∀ c ∈ cs.reverse, isWhite c = false := fun c hc => hwhite c (List.mem_reverse.mp hc)
  rw [trim, dropWhile_eq_self hwhite, dropWhile_eq_self hback, List.reverse_reverse]

theorem unsigned_of_digits (hne : cs ≠ []) (h : ∀ c ∈ cs, c.isDigit = true) :
    unsigned? cs = some (Nat.ofDigitChars 10 cs 0 : ℚ) := by
  have htake : cs.takeWhile Char.isDigit = cs := List.takeWhile_eq_self_iff.mpr h
  have hdrop : cs.dropWhile Char.isDigit = [] := List.dropWhile_eq_nil_iff.mpr h
  simp [unsigned?, htake, hdrop, exponent?, hne]

/-- No other form of a literal is made of digits alone. -/
theorem literal_of_digits (hne : cs ≠ []) (h : ∀ c ∈ cs, c.isDigit = true) :
    literal? cs = some (Nat.ofDigitChars 10 cs 0 : ℚ) := by
  rw [← unsigned_of_digits hne h]
  unfold literal?
  split
  · exact absurd rfl hne
  all_goals first
    | rfl
    | exact absurd (h _ (List.mem_cons_of_mem _ List.mem_cons_self)) (by decide)
    | exact absurd (h _ List.mem_cons_self) (by decide)

end

theorem roundHalfEven_intCast (n : ℤ) : roundHalfEven (n : ℚ) = n := by
  simp [roundHalfEven]

/-- **A natural number below `2 ^ 53` is a double.** -/
theorem toDouble_natCast {n : ℕ} (hn : n ≤ maxSafeInteger) : toDouble (n : ℚ) = some (n : ℚ) := by
  have hlt : n < 2 ^ 53 := by
    unfold maxSafeInteger at hn
    omega
  have hlog : Nat.log 2 n ≤ 52 := by
    have := Nat.log_lt_of_lt_pow' (b := 2) (by decide : (53 : ℕ) ≠ 0) hlt
    omega
  have habs : |(n : ℚ)| = n := abs_of_nonneg (Nat.cast_nonneg n)
  -- The unit in the last place is `2 ^ -k` for some `k`, so `n` is a whole number of units.
  obtain ⟨k, hk⟩ : ∃ k : ℕ, max (Int.log 2 |(n : ℚ)| - 52) (-1074) = -(k : ℤ) := by
    refine ⟨52 - Nat.log 2 n, ?_⟩
    rw [habs, Int.log_natCast]
    omega
  have hunits : (n : ℚ) / 2 ^ (-(k : ℤ)) = ((n * 2 ^ k : ℕ) : ℤ) := by
    push_cast
    rw [zpow_neg, zpow_natCast, div_inv_eq_mul]
  have hexact : (((n * 2 ^ k : ℕ) : ℤ) : ℚ) * 2 ^ (-(k : ℤ)) = n := by
    push_cast
    rw [zpow_neg, zpow_natCast, mul_assoc, mul_inv_cancel₀ (by positivity), mul_one]
  have hfinite : |(n : ℚ)| < 2 ^ 1024 := by
    have hbelow : (n : ℚ) < 2 ^ 53 := by exact_mod_cast hlt
    rw [habs]
    exact hbelow.trans_le (pow_le_pow_right₀ one_le_two (by norm_num))
  unfold toDouble
  simp only [hk]
  rw [hunits, roundHalfEven_intCast, hexact, if_pos hfinite]

/-- **The decimal digits of a safe integer are read back as it.** -/
theorem safeInteger_toString {n : ℕ} (hn : n ≤ maxSafeInteger) :
    safeInteger? (toString n) = some (n : ℤ) := by
  have hdigits : ∀ c ∈ Nat.toDigits 10 n, c.isDigit = true := fun c hc =>
    Nat.isDigit_of_mem_toDigits (by decide) (by decide) hc
  have htext : (toString n).toList = Nat.toDigits 10 n := Nat.toList_repr
  unfold safeInteger?
  rw [htext, trim_of_digits hdigits, literal_of_digits Nat.toDigits_ne_nil hdigits,
    Nat.ofDigitChars_ten_toDigits, Option.bind_some]
  simp [toDouble_natCast hn, hn]

end StringNumber

end AgentReliability
