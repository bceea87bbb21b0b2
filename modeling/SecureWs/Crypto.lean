import SecureWs.Lib.Imp
import SecureWs.Errors
import SecureWs.Protocol

/-!
# SecureWs.Crypto

The helpers of `crypto.py` that authentication uses: the validation of a
public key, the constant-time comparison and the key fingerprint.  SHA-256 is
a parameter.
-/

namespace SecureWs

open Python

/-- `validate_public_key(raw)`.  X25519 takes any 32 bytes as a public key. -/
def validatePublicKey (raw : Bytes) : Except PyError Unit :=
  raiseIf (raw.length ≠ X25519_KEY_LEN) (.valueError
    ["X25519 public key must be ", .int X25519_KEY_LEN, " bytes, got ", .int raw.length])

/-- `constant_time_equal(a, b)`. -/
def constantTimeEqual (a b : Bytes) : Bool := a = b

/-- `_FINGERPRINT_DOMAIN`. -/
def FINGERPRINT_DOMAIN : Bytes := "secure-websocket-sdk/key-fingerprint/v1".toUTF8.toList

/-- `key_fingerprint(public_key)`: eight bytes of the digest, in hexadecimal
and separated by colons. -/
def keyFingerprint (sha256 : Bytes → Bytes) (publicKey : Bytes) : Except PyError Str := do
  validatePublicKey publicKey
  let digest := (sha256 (FINGERPRINT_DOMAIN ++ publicKey)).take 8
  return List.intercalate [CodePoint.ofChar ':'] (digest.map fun b => hex [b])

@[simp] theorem validatePublicKey_eq_ok_iff {raw : Bytes} {u : Unit} :
    validatePublicKey raw = .ok u ↔ raw.length = X25519_KEY_LEN := by
  unfold validatePublicKey
  rw [raiseIf_eq_ok_iff, not_not]

@[simp] theorem constantTimeEqual_eq_true_iff {a b : Bytes} :
    constantTimeEqual a b = true ↔ a = b := by
  simp [constantTimeEqual]

end SecureWs
