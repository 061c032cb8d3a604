import AgentReliability.Common.Hex
/-!
# The signature of a webhook

`verifyWebhookSignature` compares the header of a request with the HMAC of
its body. The lengths are compared before the digits are decoded, and
`timingSafeEqual` takes no buffers of different lengths, so a header of the
right length that is not all digits does not end in an answer.
-/

namespace AgentReliability

namespace ControlPlane

inductive CryptoError where
  /-- `ERR_CRYPTO_TIMING_SAFE_EQUAL_LENGTH`. -/
  | inputLength
  deriving DecidableEq, Repr

/-- `timingSafeEqual`. -/
def timingSafeEqual (a b : List UInt8) : Except CryptoError Bool :=
  if a.length ≠ b.length then .error .inputLength else .ok (a == b)

/-- `'sha256='`. -/
def signatureScheme : JsString := .ofText "sha256="

section

variable (hmacSha256 : JsString → List UInt8 → Sha256Digest) (secret : JsString)
  (rawBody : List UInt8) (signatureHeader : Option JsString)

/-- `verifyWebhookSignature`. -/
def verifyWebhookSignature : Except CryptoError Bool :=
  match signatureHeader with
  | none => .ok false
  | some header =>
    if ¬ signatureScheme <+: header then .ok false
    else
      let expected := (hmacSha256 secret rawBody).hex
      let provided := header.drop signatureScheme.length
      if provided.length ≠ expected.length then .ok false
      else timingSafeEqual (Hex.decode provided) (Hex.decode expected)

/-- The header is the digits of the HMAC, in either case, after its scheme. -/
def IsSignature : Prop :=
  ∃ digits, signatureHeader = some (signatureScheme ++ digits) ∧
    digits.map Hex.lower = (hmacSha256 secret rawBody).hex

/-- **The check is total and exact.** -/
def ChecksExactly : Prop :=
  ∃ answer, verifyWebhookSignature hmacSha256 secret rawBody signatureHeader = .ok answer ∧
    (answer = true ↔ IsSignature hmacSha256 secret rawBody signatureHeader)

end

variable {hmacSha256 : JsString → List UInt8 → Sha256Digest} {secret : JsString}
  {rawBody : List UInt8}

/-- What is compared, after the scheme. -/
theorem verify_scheme (provided : JsString) :
    verifyWebhookSignature hmacSha256 secret rawBody (some (signatureScheme ++ provided)) =
      if provided.length ≠ 64 then .ok false
      else timingSafeEqual (Hex.decode provided) (hmacSha256 secret rawBody).bytes := by
  have hstart : signatureScheme <+: signatureScheme ++ provided := List.prefix_append _ _
  unfold verifyWebhookSignature
  simp only [hstart, not_true_eq_false, if_false, List.drop_left, Sha256Digest.length_hex]
  rw [Sha256Digest.hex, Hex.decode_encode]

theorem isSignature_scheme {provided : JsString} :
    IsSignature hmacSha256 secret rawBody (some (signatureScheme ++ provided)) ↔
      provided.map Hex.lower = (hmacSha256 secret rawBody).hex := by
  constructor
  · rintro ⟨digits, heq, hdigits⟩
    rw [List.append_cancel_left (Option.some.inj heq)]
    exact hdigits
  · exact fun h => ⟨provided, rfl, h⟩

/-- A signature has as many digits as the HMAC, and nothing but digits. -/
theorem hex_of_lower {provided : JsString} {d : Sha256Digest}
    (h : provided.map Hex.lower = d.hex) : provided.length = 64 ∧ Hex.IsHex provided := by
  refine ⟨?_, Hex.isHex_of_lower ?_⟩
  · rw [← d.length_hex, ← h, List.length_map]
  · rw [h]
    exact Hex.isHex_encode _

/-- **A header of the right length that is not all digits raises.** -/
theorem verify_of_not_hex {provided : JsString} (hlength : provided.length = 64)
    (hhex : ¬ Hex.IsHex provided) :
    verifyWebhookSignature hmacSha256 secret rawBody (some (signatureScheme ++ provided)) =
      .error .inputLength := by
  have hlt := Hex.length_decode_lt (by omega) hhex
  have hbytes := (hmacSha256 secret rawBody).length_bytes
  rw [verify_scheme, if_neg (by omega), timingSafeEqual, if_pos (by omega)]

/-- Digits are compared as the bytes they denote. -/
theorem verify_of_hex {provided : JsString} (hlength : provided.length = 64)
    (hhex : Hex.IsHex provided) :
    verifyWebhookSignature hmacSha256 secret rawBody (some (signatureScheme ++ provided)) =
      .ok (Hex.decode provided == (hmacSha256 secret rawBody).bytes) := by
  have hbytes := (hmacSha256 secret rawBody).length_bytes
  have hdecoded : 2 * (Hex.decode provided).length = 64 := by
    rw [← Hex.length_encode, Hex.encode_decode (by omega) hhex, List.length_map, hlength]
  rw [verify_scheme, if_neg (by omega), timingSafeEqual, if_neg (by omega)]

theorem not_checksExactly {provided : JsString} (hlength : provided.length = 64)
    (hhex : ¬ Hex.IsHex provided) :
    ¬ ChecksExactly hmacSha256 secret rawBody (some (signatureScheme ++ provided)) := by
  rintro ⟨answer, hanswer, -⟩
  rw [verify_of_not_hex hlength hhex] at hanswer
  exact absurd hanswer (by simp)

theorem checksExactly_scheme {provided : JsString}
    (h : ¬ (provided.length = 64 ∧ ¬ Hex.IsHex provided)) :
    ChecksExactly hmacSha256 secret rawBody (some (signatureScheme ++ provided)) := by
  by_cases hlength : provided.length = 64
  · have hhex : Hex.IsHex provided := by
      by_contra hhex
      exact h ⟨hlength, hhex⟩
    refine ⟨_, verify_of_hex hlength hhex, ?_⟩
    rw [isSignature_scheme, beq_iff_eq, Hex.decode_eq_iff (by omega) hhex, Sha256Digest.hex]
  · refine ⟨false, ?_, ?_⟩
    · rw [verify_scheme, if_pos hlength]
    · rw [isSignature_scheme]
      refine ⟨fun hfalse => absurd hfalse (by simp), fun hlower => ?_⟩
      exact absurd (hex_of_lower hlower).1 hlength

/-- **The check is total and exact unless 64 characters that are not all
digits follow the scheme.** -/
theorem checksExactly_iff (hmacSha256 : JsString → List UInt8 → Sha256Digest) (secret : JsString)
    (rawBody : List UInt8) (signatureHeader : Option JsString) :
    ChecksExactly hmacSha256 secret rawBody signatureHeader ↔
      ∀ provided, signatureHeader = some (signatureScheme ++ provided) →
        provided.length = 64 → Hex.IsHex provided := by
  constructor
  · rintro hexact provided rfl hlength
    by_contra hhex
    exact not_checksExactly hlength hhex hexact
  · intro h
    cases signatureHeader with
    | none =>
      refine ⟨false, rfl, fun hfalse => absurd hfalse (by simp), ?_⟩
      rintro ⟨digits, heq, -⟩
      exact absurd heq (by simp)
    | some header =>
      by_cases hscheme : signatureScheme <+: header
      · obtain ⟨provided, rfl⟩ := hscheme
        exact checksExactly_scheme fun hbad => hbad.2 (h provided rfl hbad.1)
      · have hfalse :
            verifyWebhookSignature hmacSha256 secret rawBody (some header) = .ok false := by
          unfold verifyWebhookSignature
          simp only [hscheme, not_false_eq_true, if_true]
        refine ⟨false, hfalse, fun hfalse => absurd hfalse (by simp), ?_⟩
        rintro ⟨digits, heq, -⟩
        exact absurd (Option.some.inj heq ▸ List.prefix_append _ _) hscheme

/-- 64 times the letter `z`. -/
theorem lettersOnly_not_checksExactly :
    ¬ ∀ hmacSha256 secret rawBody signatureHeader,
      ChecksExactly hmacSha256 secret rawBody signatureHeader := by
  intro hall
  have hletters : JsString.ofText (.ofList (List.replicate 64 'z')) = List.replicate 64 122 := rfl
  have hlength : (JsString.ofText (.ofList (List.replicate 64 'z'))).length = 64 := by
    rw [hletters, List.length_replicate]
  have hhex : ¬ Hex.IsHex (.ofText (.ofList (List.replicate 64 'z'))) := by
    rw [hletters]
    intro h
    exact absurd (h 122 (List.mem_replicate.mpr ⟨by decide, rfl⟩)) (by decide)
  let digest : Sha256Digest := ⟨List.replicate 32 0, rfl⟩
  exact not_checksExactly hlength hhex (hall (fun _ _ => digest) (.ofText "s3cret") [] _)

end ControlPlane

end AgentReliability
