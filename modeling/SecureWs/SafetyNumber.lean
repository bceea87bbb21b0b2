import SecureWs.Crypto
import SecureWs.Lib.BigEndian
import SecureWs.Lib.Decimal

/-!
# SecureWs.SafetyNumber

The safety number of `crypto.py`, which two users compare by voice.

* `safetyNumber` renders the digest of a handshake hash;
* `safetyText` is the rendering of a number, and `safetyText_spec` says what
  it looks like and what it denotes;
* `safety_number_faithful`: two safety numbers agree exactly when the digests
  agree modulo `10 ^ 60`.
-/

namespace SecureWs

open Python

def SAFETY_NUMBER_DIGITS : Nat := 60

def SAFETY_NUMBER_GROUP : Nat := 5

/-- `_SAFETY_DOMAIN`. -/
def SAFETY_DOMAIN : Bytes := "secure-websocket-sdk/safety-number/v1".toUTF8.toList

/-- The text of a safety number: sixty digits in groups of five. -/
def safetyText (value : Nat) : Str :=
  let digits := zfill SAFETY_NUMBER_DIGITS (decimal value)
  let groups := slices SAFETY_NUMBER_DIGITS SAFETY_NUMBER_GROUP digits
  join [CodePoint.ofChar ' '] groups

/-- `safety_number(handshake_hash)`. -/
def safetyNumber (sha256 : Bytes → Bytes) (handshakeHash : Bytes) : Except PyError Str := do
  raiseIf (handshakeHash.length ≠ HANDSHAKE_HASH_LEN) (.valueError
    ["handshake hash must be ", .int HANDSHAKE_HASH_LEN, " bytes, got ", .int handshakeHash.length])
  let digest := sha256 (SAFETY_DOMAIN ++ handshakeHash)
  let value := BigEndian.decode digest % 10 ^ SAFETY_NUMBER_DIGITS
  return safetyText value

/-- The number that is rendered. -/
def safetyValue (sha256 : Bytes → Bytes) (handshakeHash : Bytes) : Nat :=
  BigEndian.decode (sha256 (SAFETY_DOMAIN ++ handshakeHash))

theorem safetyNumber_eq {handshakeHash : Bytes} (h : handshakeHash.length = HANDSHAKE_HASH_LEN)
    (sha256 : Bytes → Bytes) : safetyNumber sha256 handshakeHash =
      .ok (safetyText (safetyValue sha256 handshakeHash % 10 ^ SAFETY_NUMBER_DIGITS)) := by
  unfold safetyNumber
  rw [raiseIf_bind_except, if_neg (not_not.mpr h)]
  rfl

/-- A text of twelve groups of five digits, separated by single spaces. -/
def IsSafetyText (text : Str) : Prop :=
  ∃ groups, text = join [CodePoint.ofChar ' '] groups ∧ groups.length = 12 ∧
    ∀ group ∈ groups, group.length = 5 ∧ ∀ c ∈ group, Json.isDigit c = true

def withoutSpaces (text : Str) : Str := text.filter (· ≠ CodePoint.ofChar ' ')

/-- **The rendering** of a number of at most sixty digits: its shape, and the
number its digits denote. -/
theorem safetyText_spec {value : Nat} (h : value < 10 ^ SAFETY_NUMBER_DIGITS) :
    IsSafetyText (safetyText value) ∧ (withoutSpaces (safetyText value)).length = 60 ∧
      Json.digitsValue (withoutSpaces (safetyText value)) = value := by
  have hdecimal : decimal value = Json.digitsOf value := by
    rw [Json.decimal_eq, if_neg (by omega), Int.natAbs_natCast]
  obtain ⟨hlen, hdigits, hvalue⟩ := zfill_digitsOf (by decide) h
  rw [← hdecimal] at hlen hdigits hvalue
  have htotal : (zfill SAFETY_NUMBER_DIGITS (decimal value)).length = 12 * SAFETY_NUMBER_GROUP :=
    hlen
  have hflatten : (slices SAFETY_NUMBER_DIGITS SAFETY_NUMBER_GROUP
      (zfill SAFETY_NUMBER_DIGITS (decimal value))).flatten =
        zfill SAFETY_NUMBER_DIGITS (decimal value) := flatten_slices (by decide) htotal
  have hgroup : ∀ group ∈ slices SAFETY_NUMBER_DIGITS SAFETY_NUMBER_GROUP
      (zfill SAFETY_NUMBER_DIGITS (decimal value)), ∀ c ∈ group, Json.isDigit c = true := by
    intro group hmem c hc
    refine hdigits c ?_
    rw [← hflatten]
    exact List.mem_flatten_of_mem hmem hc
  have hspaces : withoutSpaces (safetyText value) = zfill SAFETY_NUMBER_DIGITS (decimal value) := by
    rw [← hflatten]
    refine filter_join fun group hmem hspace => ?_
    exact absurd (hgroup group hmem _ hspace) (by decide)
  rw [hspaces]
  refine ⟨⟨_, rfl, length_slices 12 (by decide) _, fun group hmem => ?_⟩, hlen, hvalue⟩
  exact ⟨length_of_mem_slices (n := 12) (by decide) htotal group hmem, hgroup group hmem⟩

/-- **The safety number is faithful.**  It is twelve groups of five digits
that denote the digest modulo `10 ^ 60`, so that two safety numbers are equal
exactly when the digests are congruent. -/
theorem safety_number_faithful (sha256 : Bytes → Bytes) :
    (∀ handshakeHash : Bytes, handshakeHash.length = HANDSHAKE_HASH_LEN →
      ∃ text, safetyNumber sha256 handshakeHash = .ok text ∧ IsSafetyText text ∧
        (withoutSpaces text).length = 60 ∧
        Json.digitsValue (withoutSpaces text) =
          BigEndian.decode (sha256 (SAFETY_DOMAIN ++ handshakeHash)) % 10 ^ 60) ∧
    ∀ first second : Bytes, first.length = HANDSHAKE_HASH_LEN →
      second.length = HANDSHAKE_HASH_LEN →
      (safetyNumber sha256 first = safetyNumber sha256 second ↔
        BigEndian.decode (sha256 (SAFETY_DOMAIN ++ first)) ≡
          BigEndian.decode (sha256 (SAFETY_DOMAIN ++ second)) [MOD 10 ^ 60]) := by
  have hlt : ∀ n, n % 10 ^ SAFETY_NUMBER_DIGITS < 10 ^ SAFETY_NUMBER_DIGITS := fun n =>
    Nat.mod_lt n (by decide)
  refine ⟨fun handshakeHash h => ⟨_, safetyNumber_eq h sha256, safetyText_spec (hlt _)⟩,
    fun first second hfirst hsecond => ?_⟩
  rw [safetyNumber_eq hfirst, safetyNumber_eq hsecond, Except.ok.injEq]
  constructor
  · intro htext
    -- the text gives the number back
    obtain ⟨-, -, hvalue⟩ := safetyText_spec (hlt (safetyValue sha256 first))
    obtain ⟨-, -, hvalue'⟩ := safetyText_spec (hlt (safetyValue sha256 second))
    rw [htext, hvalue'] at hvalue
    exact hvalue.symm
  · intro hcongr
    exact congrArg safetyText hcongr

/-- Two hashes whose digests differ by `10 ^ 60`, the smaller of them being 7. -/
theorem safety_number_faithful_seven :
    let sha256 := fun message : Bytes => BigEndian.encode 32
      (if message.getLast? = some 1 then 7 else 10 ^ 60 + 7)
    let first : Bytes := List.replicate 32 0
    let second : Bytes := List.replicate 32 1
    safetyNumber sha256 first = .ok (Str.ofString
        "00000 00000 00000 00000 00000 00000 00000 00000 00000 00000 00000 00007") ∧
      safetyNumber sha256 first = safetyNumber sha256 second := by
  intro sha256 first second
  exact ⟨by decide +kernel, ((safety_number_faithful sha256).2 first second rfl rfl).mpr
    (by decide +kernel)⟩

end SecureWs
