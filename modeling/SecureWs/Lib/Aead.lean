import SecureWs.Lib.BigEndian
import Mathlib

/-!
# SecureWs.Lib.Aead

Authenticated encryption with associated data (AEAD) under an implicit nonce
counter, and the ideal AEAD.

* `Aead` is the scheme, with a key-replacement function;
* `CipherState` is a key and the counter that supplies the nonces.  Two of
  its fields are history variables: nothing computes with them, they record
  how often the key was replaced and everything that was encrypted;
* `Aead.spelled` is a small scheme to run examples on;
* `Aead.ideal log` is the scheme in which decryption succeeds on what was
  really encrypted and on nothing else (`mem_of_decrypt_ideal`): the
  unforgeability assumption, as a scheme.
-/

/-- An AEAD scheme with a key-replacement function. -/
structure Aead (Key : Type) where
  encrypt : Key → Nat → List UInt8 → List UInt8 → List UInt8
  decrypt : Key → Nat → List UInt8 → List UInt8 → Option (List UInt8)
  rekey : Key → Key

/-- One encryption: its inputs and its result. -/
structure Sealing (Key : Type) where
  key : Key
  epoch : Nat
  nonce : Nat
  ad : List UInt8
  plaintext : List UInt8
  ciphertext : List UInt8
  deriving DecidableEq, Repr

/-- The associated data followed by the ciphertext: what goes on the wire. -/
def Sealing.wire {Key : Type} (s : Sealing Key) : List UInt8 := s.ad ++ s.ciphertext

/-- A key and its nonce counter.  `epoch` and `sealed` are history variables:
how often the key was replaced, and everything encrypted, oldest first. -/
structure CipherState (Key : Type) where
  key : Key
  nonce : Nat
  epoch : Nat
  sealed : List (Sealing Key)
  deriving DecidableEq, Repr

namespace Aead

variable {Key : Type}

/-- What was encrypted decrypts under the same key, nonce and associated data. -/
def Correct (A : Aead Key) : Prop :=
  ∀ key nonce ad plaintext, A.decrypt key nonce ad (A.encrypt key nonce ad plaintext) = some plaintext

/-- A ciphertext is `n` bytes longer than its plaintext. -/
def Overhead (A : Aead Key) (n : Nat) : Prop :=
  ∀ key nonce ad plaintext, (A.encrypt key nonce ad plaintext).length = plaintext.length + n

/-- A scheme to run examples on: the tag spells the key and the nonce.  It
hides nothing and authenticates no data, but it is correct, has the usual
overhead and refuses another key or nonce. -/
def spelled (ratchet : Nat → Nat) : Aead Nat where
  encrypt key nonce _ plaintext :=
    plaintext ++ (BigEndian.encode 8 key ++ BigEndian.encode 8 nonce)
  decrypt key nonce _ ciphertext :=
    if ciphertext.drop (ciphertext.length - 16) =
        BigEndian.encode 8 key ++ BigEndian.encode 8 nonce then
      some (ciphertext.take (ciphertext.length - 16))
    else none
  rekey := ratchet

theorem correct_spelled (ratchet : Nat → Nat) : (spelled ratchet).Correct := by
  intro key nonce ad plaintext
  simp [spelled]

theorem overhead_spelled (ratchet : Nat → Nat) : (spelled ratchet).Overhead 16 := by
  intro key nonce ad plaintext
  simp [spelled]

/-- The ideal scheme after exactly `log` was encrypted: a ciphertext
decrypts if it is in the log under this key, nonce and associated data. -/
def ideal [DecidableEq Key] (A : Aead Key) (log : List (Sealing Key)) : Aead Key where
  encrypt := A.encrypt
  decrypt key nonce ad ciphertext :=
    (log.find? fun s => s.key = key ∧ s.nonce = nonce ∧ s.ad = ad ∧ s.ciphertext = ciphertext).map
      Sealing.plaintext
  rekey := A.rekey

/-- The ideal scheme decrypts only what was encrypted. -/
theorem mem_of_decrypt_ideal [DecidableEq Key] {A : Aead Key} {log : List (Sealing Key)} {key : Key}
    {nonce : Nat} {ad ciphertext plaintext : List UInt8}
    (h : (A.ideal log).decrypt key nonce ad ciphertext = some plaintext) :
    ∃ s ∈ log, s.key = key ∧ s.nonce = nonce ∧ s.ad = ad ∧ s.ciphertext = ciphertext ∧
      s.plaintext = plaintext := by
  obtain ⟨s, hs, hp⟩ := Option.map_eq_some_iff.mp h
  have hprop := List.find?_some hs
  simp only [decide_eq_true_eq] at hprop
  obtain ⟨hkey, hnonce, had, hct⟩ := hprop
  exact ⟨s, List.mem_of_find?_eq_some hs, hkey, hnonce, had, hct, hp⟩

/-- The ideal scheme decrypts everything that was encrypted. -/
theorem exists_decrypt_ideal [DecidableEq Key] {A : Aead Key} {log : List (Sealing Key)}
    {s : Sealing Key} (h : s ∈ log) :
    ∃ plaintext, (A.ideal log).decrypt s.key s.nonce s.ad s.ciphertext = some plaintext := by
  have hfound : (log.find? fun t => t.key = s.key ∧ t.nonce = s.nonce ∧ t.ad = s.ad ∧
      t.ciphertext = s.ciphertext).isSome := by
    rw [List.find?_isSome]
    exact ⟨s, h, by simp⟩
  obtain ⟨t, ht⟩ := Option.isSome_iff_exists.mp hfound
  exact ⟨t.plaintext, congrArg (Option.map Sealing.plaintext) ht⟩

end Aead

namespace CipherState

variable {Key : Type}

def fresh (key : Key) : CipherState Key := ⟨key, 0, 0, []⟩

/-- The encryption of `plaintext` under the current key and nonce. -/
def sealing (A : Aead Key) (self : CipherState Key) (ad plaintext : List UInt8) : Sealing Key :=
  ⟨self.key, self.epoch, self.nonce, ad, plaintext, A.encrypt self.key self.nonce ad plaintext⟩

def afterSeal (A : Aead Key) (self : CipherState Key) (ad plaintext : List UInt8) :
    CipherState Key :=
  { self with nonce := self.nonce + 1, sealed := self.sealed ++ [self.sealing A ad plaintext] }

def afterOpen (self : CipherState Key) : CipherState Key := { self with nonce := self.nonce + 1 }

/-- The state after the key was replaced; the counter goes on. -/
def ratchet (A : Aead Key) (self : CipherState Key) : CipherState Key :=
  { self with key := A.rekey self.key, epoch := self.epoch + 1 }

end CipherState
