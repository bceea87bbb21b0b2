import SecureWs.Lib.Imp
import SecureWs.Lib.Aead
import SecureWs.Errors

/-!
# SecureWs.Cipher

The Noise `CipherState` that `noiseprotocol` hands over after the handshake
(`CipherStateLike` in `handshake.py`): a key and an implicit nonce counter
over an AEAD.  The AEAD itself is a parameter.

* `encrypt_with_ad` and `decrypt_with_ad` use the current nonce and advance
  it by one when they succeed; they raise `NoiseMaxNonceError`, and a failed
  tag check raises `InvalidTag`, without changing the state;
* `rekey` replaces the key and keeps the nonce.
-/

namespace SecureWs

open Python

/-- The nonce that is reserved for `rekey`. -/
def MAX_NONCE : Nat := 2 ^ 64 - 1

namespace CipherState

variable {Key : Type}

/-- `cipher.encrypt_with_ad(ad, plaintext)`. -/
def encryptWithAd (A : Aead Key) (ad plaintext : Bytes) : Imp PyError (CipherState Key) Bytes := do
  let self ← get
  raiseIf (self.nonce = MAX_NONCE) .noiseMaxNonceError
  let ciphertext := A.encrypt self.key self.nonce ad plaintext
  let entry : Sealing Key := ⟨self.key, self.epoch, self.nonce, ad, plaintext, ciphertext⟩
  set { self with nonce := self.nonce + 1, sealed := self.sealed ++ [entry] }
  return ciphertext

/-- `cipher.decrypt_with_ad(ad, ciphertext)`. -/
def decryptWithAd (A : Aead Key) (ad ciphertext : Bytes) :
    Imp PyError (CipherState Key) Bytes := do
  let self ← get
  raiseIf (self.nonce = MAX_NONCE) .noiseMaxNonceError
  match A.decrypt self.key self.nonce ad ciphertext with
  | none => throw .invalidTag
  | some plaintext => do
      set { self with nonce := self.nonce + 1 }
      return plaintext

/-- `cipher.rekey()`. -/
def rekey (A : Aead Key) : Imp PyError (CipherState Key) Unit :=
  modify fun self => { self with key := A.rekey self.key, epoch := self.epoch + 1 }

@[simp] theorem run_rekey (A : Aead Key) (self : CipherState Key) :
    (rekey A).run self = (.ok (), self.ratchet A) := rfl

theorem run_encryptWithAd (A : Aead Key) (ad plaintext : Bytes) (self : CipherState Key) :
    (encryptWithAd A ad plaintext).run self =
      if self.nonce = MAX_NONCE then (.error .noiseMaxNonceError, self)
      else (.ok (self.sealing A ad plaintext).ciphertext, self.afterSeal A ad plaintext) := by
  rw [encryptWithAd, Imp.run_bind_of_ok (Imp.run_get self), Imp.run_raiseIf_bind]
  rfl

theorem run_decryptWithAd (A : Aead Key) (ad ciphertext : Bytes) (self : CipherState Key) :
    (decryptWithAd A ad ciphertext).run self =
      if self.nonce = MAX_NONCE then (.error .noiseMaxNonceError, self)
      else match A.decrypt self.key self.nonce ad ciphertext with
        | none => (.error .invalidTag, self)
        | some plaintext => (.ok plaintext, self.afterOpen) := by
  rw [decryptWithAd, Imp.run_bind_of_ok (Imp.run_get self), Imp.run_raiseIf_bind]
  cases A.decrypt self.key self.nonce ad ciphertext <;> rfl

end CipherState

end SecureWs
