import Mathlib.Data.List.Basic
import Mathlib.Tactic.Common
/-!
# Strings of code units, and the bytes in them

A string of ECMAScript is a sequence of code units of 16 bits. Bytes are
written in hexadecimal with two digits each, in lower case. What reads them
back takes a digit in either case, and stops at the first pair that is not
of two digits.
-/

namespace AgentReliability

/-- A string, by its code units. -/
abbrev JsString := List UInt16

/-- The code units of a character: one, or a pair of surrogates. -/
def JsString.ofChar (c : Char) : JsString :=
  if c.toNat < 0x10000 then [.ofNat c.toNat]
  else
    [.ofNat (0xd800 + (c.toNat - 0x10000) / 0x400), .ofNat (0xdc00 + (c.toNat - 0x10000) % 0x400)]

/-- The code units of a text. -/
def JsString.ofText (text : String) : JsString := text.toList.flatMap ofChar

namespace Hex

/-- The digit of a value below 16. -/
def digit (n : ℕ) : UInt16 := if n < 10 then .ofNat (48 + n) else .ofNat (87 + n)

/-- The value of a digit, in either case. -/
def value? (u : UInt16) : Option ℕ :=
  if 48 ≤ u.toNat ∧ u.toNat ≤ 57 then some (u.toNat - 48)
  else if 97 ≤ u.toNat ∧ u.toNat ≤ 102 then some (u.toNat - 87)
  else if 65 ≤ u.toNat ∧ u.toNat ≤ 70 then some (u.toNat - 55)
  else none

/-- A digit in lower case; what is not a digit stays as it is. -/
def lower (u : UInt16) : UInt16 :=
  if 65 ≤ u.toNat ∧ u.toNat ≤ 70 then .ofNat (u.toNat + 32) else u

/-- `digest('hex')`. -/
def encode (bytes : List UInt8) : JsString :=
  bytes.flatMap fun b => [digit (b.toNat / 16), digit (b.toNat % 16)]

/-- `Buffer.from(s, 'hex')`, of a string without units above U+00FF: of these,
which no header has, it reads the low byte. -/
def decode : JsString → List UInt8
  | high :: low :: rest =>
    match value? high, value? low with
    | some h, some l => .ofNat (16 * h + l) :: decode rest
    | _, _ => []
  | _ => []

/-- A string of digits. -/
def IsHex (s : JsString) : Prop := ∀ u ∈ s, (value? u).isSome

instance (s : JsString) : Decidable (IsHex s) := List.decidableBAll _ s

/-! ## Digits -/

variable {u : UInt16} {n : ℕ}

theorem value_lt (h : value? u = some n) : n < 16 := by
  unfold value? at h
  split_ifs at h
  all_goals
    obtain rfl := Option.some.inj h
    omega

theorem value_digit (hn : n < 16) : value? (digit n) = some n := by
  have hall : ∀ n < 16, value? (digit n) = some n := by decide
  exact hall n hn

/-- The value of a digit tells which digit it is, up to its case. -/
theorem digit_of_value (h : value? u = some n) : digit n = lower u := by
  apply UInt16.toNat_inj.mp
  have hu := u.toNat_lt
  unfold value? at h
  unfold digit lower
  split_ifs at h with h₁ h₂ h₃
  all_goals
    obtain rfl := Option.some.inj h
    split_ifs
    all_goals
      first
        | omega
        | (simp only [UInt16.toNat_ofNat']; omega)

theorem value_lower : value? (lower u) = value? u := by
  by_cases hupper : 65 ≤ u.toNat ∧ u.toNat ≤ 70
  · have hlower : (lower u).toNat = u.toNat + 32 := by
      unfold lower
      rw [if_pos hupper, UInt16.toNat_ofNat']
      omega
    unfold value?
    rw [hlower]
    split_ifs
    all_goals first
      | omega
      | rfl
  · unfold lower
    rw [if_neg hupper]

/-! ## Bytes -/

@[simp] theorem length_encode (bytes : List UInt8) : (encode bytes).length = 2 * bytes.length := by
  induction bytes with
  | nil => rfl
  | cons b bytes ih =>
    show (encode bytes).length + 1 + 1 = 2 * (bytes.length + 1)
    omega

theorem decode_cons {high low : UInt16} {rest : JsString} {h l : ℕ} (hhigh : value? high = some h)
    (hlow : value? low = some l) :
    decode (high :: low :: rest) = .ofNat (16 * h + l) :: decode rest := by
  rw [decode, hhigh, hlow]

/-- **What was written is read back.** -/
theorem decode_encode (bytes : List UInt8) : decode (encode bytes) = bytes := by
  induction bytes with
  | nil => rfl
  | cons b bytes ih =>
    have hb := b.toNat_lt
    have hhigh : value? (digit (b.toNat / 16)) = some (b.toNat / 16) := value_digit (by omega)
    have hlow : value? (digit (b.toNat % 16)) = some (b.toNat % 16) := value_digit (by omega)
    have hbyte : UInt8.ofNat (16 * (b.toNat / 16) + b.toNat % 16) = b := by
      rw [Nat.div_add_mod, UInt8.ofNat_toNat]
    show decode (digit (b.toNat / 16) :: digit (b.toNat % 16) :: encode bytes) = b :: bytes
    rw [decode_cons hhigh hlow, hbyte, ih]

/-- **Digits are the bytes they are read as**, up to their case. -/
theorem encode_decode {s : JsString} (heven : s.length % 2 = 0) (hs : IsHex s) :
    encode (decode s) = s.map lower := by
  induction s using decode.induct with
  | case1 high low rest h l hlow hhigh ih =>
    have hrest : IsHex rest := fun u hu => hs u (List.mem_cons_of_mem _ (List.mem_cons_of_mem _ hu))
    have hlen : rest.length % 2 = 0 := by
      rw [List.length_cons, List.length_cons] at heven
      omega
    have hh := value_lt hhigh
    have hl := value_lt hlow
    have hbyte : (UInt8.ofNat (16 * h + l)).toNat = 16 * h + l := by
      rw [UInt8.toNat_ofNat']
      omega
    have hdiv : (16 * h + l) / 16 = h := by omega
    have hmod : (16 * h + l) % 16 = l := by omega
    rw [decode_cons hhigh hlow]
    show digit ((UInt8.ofNat (16 * h + l)).toNat / 16) ::
      digit ((UInt8.ofNat (16 * h + l)).toNat % 16) :: encode (decode rest) = _
    rw [hbyte, hdiv, hmod, digit_of_value hhigh, digit_of_value hlow, ih hlen hrest]
    rfl
  | case2 high low rest hnone =>
    obtain ⟨h, hh⟩ := Option.isSome_iff_exists.mp (hs high List.mem_cons_self)
    obtain ⟨l, hl⟩ :=
      Option.isSome_iff_exists.mp (hs low (List.mem_cons_of_mem _ List.mem_cons_self))
    exact absurd hl (hnone h l hh)
  | case3 s hshort =>
    match s with
    | [] => rfl
    | [u] => exact absurd heven (by simp)
    | high :: low :: rest => exact absurd rfl (hshort high low rest)

/-- **A pair that is not of two digits cuts the bytes short.** -/
theorem length_decode_lt {s : JsString} (heven : s.length % 2 = 0) (hs : ¬ IsHex s) :
    2 * (decode s).length < s.length := by
  induction s using decode.induct with
  | case1 high low rest h l hlow hhigh ih =>
    have hlen : rest.length % 2 = 0 := by
      rw [List.length_cons, List.length_cons] at heven
      omega
    have hrest : ¬ IsHex rest := by
      intro hrest
      refine hs fun u hu => ?_
      rcases List.mem_cons.mp hu with rfl | hu
      · rw [hhigh]; rfl
      · rcases List.mem_cons.mp hu with rfl | hu
        · rw [hlow]; rfl
        · exact hrest u hu
    have hlt := ih hlen hrest
    rw [decode_cons hhigh hlow, List.length_cons, List.length_cons, List.length_cons]
    omega
  | case2 high low rest hnone =>
    have hcut : decode (high :: low :: rest) = [] := by
      rw [decode]
      split
      · next h l hh hl => exact absurd hl (hnone h l hh)
      · rfl
    rw [hcut, List.length_cons, List.length_cons, List.length_nil]
    omega
  | case3 s hshort =>
    match s with
    | [] => exact absurd (fun u hu => absurd hu List.not_mem_nil) hs
    | [u] => exact absurd heven (by simp)
    | high :: low :: rest => exact absurd rfl (hshort high low rest)

theorem isHex_encode (bytes : List UInt8) : IsHex (encode bytes) := by
  intro u hu
  obtain ⟨b, -, hu⟩ := List.mem_flatMap.mp hu
  have hb := b.toNat_lt
  rcases List.mem_pair.mp hu with rfl | rfl
  · rw [value_digit (by omega)]; rfl
  · rw [value_digit (by omega)]; rfl

theorem isHex_of_lower {s : JsString} (h : IsHex (s.map lower)) : IsHex s := by
  intro u hu
  rw [← value_lower]
  exact h _ (List.mem_map_of_mem hu)

/-- **Which strings are read as given bytes**: their digits, in either case. -/
theorem decode_eq_iff {s : JsString} {bytes : List UInt8} (heven : s.length % 2 = 0)
    (hs : IsHex s) : decode s = bytes ↔ s.map lower = encode bytes := by
  rw [← encode_decode heven hs]
  constructor
  · rintro rfl
    rfl
  · intro h
    rw [← decode_encode (decode s), h, decode_encode]

end Hex

/-- A digest of SHA-256. -/
structure Sha256Digest where
  bytes : List UInt8
  length_bytes : bytes.length = 32

/-- `digest('hex')`. -/
def Sha256Digest.hex (d : Sha256Digest) : JsString := Hex.encode d.bytes

theorem Sha256Digest.length_hex (d : Sha256Digest) : d.hex.length = 64 := by
  rw [hex, Hex.length_encode, d.length_bytes]

theorem Sha256Digest.hex_injective {d e : Sha256Digest} (h : d.hex = e.hex) : d = e := by
  have hbytes := congrArg Hex.decode h
  rw [hex, hex, Hex.decode_encode, Hex.decode_encode] at hbytes
  obtain ⟨bytes, length_bytes⟩ := d
  obtain ⟨bytes', length_bytes'⟩ := e
  obtain rfl : bytes = bytes' := hbytes
  rfl

end AgentReliability
