import Mathlib

/-!
# SecureWs.Lib.Signature

Signature schemes on byte strings, and the ideal scheme.

Unforgeability is stated for one key against the list of the messages its
owner signed; `SignatureScheme.ideal` makes any scheme unforgeable in this
sense, by having verification consult the list.  `SignatureScheme.Correct`
says that a scheme accepts what it signs.
-/

/-- A signature scheme.  `loads` says which byte strings are accepted as
public keys. -/
structure SignatureScheme where
  publicKey : List UInt8 → List UInt8
  sign : List UInt8 → List UInt8 → List UInt8
  loads : List UInt8 → Bool
  verify : List UInt8 → List UInt8 → List UInt8 → Bool

namespace SignatureScheme

/-- The scheme in which nothing but `signed` verifies under `key`. -/
def ideal (S : SignatureScheme) (key : List UInt8) (signed : List (List UInt8)) :
    SignatureScheme where
  publicKey := S.publicKey
  sign := S.sign
  loads := S.loads
  verify key' signature message :=
    S.verify key' signature message && (key' != key || signed.contains message)

/-- Under the key nothing verifies but the messages in `signed`. -/
def Unforgeable (S : SignatureScheme) (key : List UInt8) (signed : List (List UInt8)) : Prop :=
  ∀ signature message, S.verify key signature message = true → message ∈ signed

theorem unforgeable_ideal (S : SignatureScheme) (key : List UInt8) (signed : List (List UInt8)) :
    (S.ideal key signed).Unforgeable key signed := by
  intro signature message h
  simp only [ideal, bne_self_eq_false, Bool.false_or, Bool.and_eq_true] at h
  exact List.contains_iff_mem.mp h.2

/-- A scheme to run examples with: a key is its own public key, and every
signature is `length` zero bytes. -/
def stamp (length : Nat) : SignatureScheme where
  publicKey key := key
  sign _ _ := List.replicate length 0
  loads _ := true
  verify _ signature _ := signature = List.replicate length 0

/-- The scheme accepts its own signatures, for private keys of `keyLength`
bytes. -/
structure Correct (S : SignatureScheme) (keyLength signatureLength : Nat) : Prop where
  length_publicKey : ∀ key, key.length = keyLength → (S.publicKey key).length = keyLength
  loads_publicKey : ∀ key, key.length = keyLength → S.loads (S.publicKey key) = true
  length_sign : ∀ key message, key.length = keyLength →
    (S.sign key message).length = signatureLength
  verify_sign : ∀ key message, key.length = keyLength →
    S.verify (S.publicKey key) (S.sign key message) message = true

theorem correct_stamp (keyLength signatureLength : Nat) :
    (stamp signatureLength).Correct keyLength signatureLength where
  length_publicKey _ h := h
  loads_publicKey _ _ := rfl
  length_sign _ _ _ := List.length_replicate
  verify_sign _ _ _ := decide_eq_true rfl

end SignatureScheme
