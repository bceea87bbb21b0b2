/-!
# SecureWs.Protocol

The constants of `protocol.py`, and the prologue.
-/

namespace SecureWs

def PROTOCOL_NAME : String := "secure-websocket-sdk"

def PROTOCOL_VERSION : Nat := 1

def NOISE_PROTOCOL_NAME : String := "Noise_XX_25519_ChaChaPoly_SHA256"

def buildPrologue : List UInt8 :=
  (PROTOCOL_NAME ++ "/" ++ toString PROTOCOL_VERSION ++ ";suite=" ++ NOISE_PROTOCOL_NAME).toUTF8.toList

def X25519_KEY_LEN : Nat := 32

def HANDSHAKE_HASH_LEN : Nat := 32

def AEAD_TAG_LEN : Nat := 16

/-- The frame types on the wire. -/
inductive MessageType where
  | handshake
  | transport
  | rekey
  | close
  deriving DecidableEq, Repr

namespace MessageType

/-- `int(msg_type)`. -/
def toNat : MessageType → Nat
  | handshake => 1
  | transport => 2
  | rekey => 3
  | close => 4

/-- `MessageType(raw)`; `none` is the `ValueError` of an unknown value. -/
def ofNat? : Nat → Option MessageType
  | 1 => some handshake
  | 2 => some transport
  | 3 => some rekey
  | 4 => some close
  | _ => none

def name : MessageType → String
  | handshake => "HANDSHAKE"
  | transport => "TRANSPORT"
  | rekey => "REKEY"
  | close => "CLOSE"

@[simp] theorem ofNat?_toNat (t : MessageType) : ofNat? t.toNat = some t := by
  cases t <;> rfl

/-- A raw value names a type exactly when it is that type's value. -/
theorem ofNat?_eq_some_iff {n : Nat} {t : MessageType} : ofNat? n = some t ↔ n = t.toNat := by
  constructor
  · intro h
    unfold ofNat? at h
    split at h <;> simp only [Option.some.injEq, reduceCtorEq] at h <;> subst h <;> rfl
  · rintro rfl
    exact ofNat?_toNat t

theorem toNat_lt (t : MessageType) : t.toNat < 256 := by
  cases t <;> decide

theorem toNat_injective : Function.Injective toNat := by
  intro a b h
  exact Option.some.inj (by rw [← ofNat?_toNat a, h, ofNat?_toNat b])

end MessageType

end SecureWs
