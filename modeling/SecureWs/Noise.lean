import SecureWs.Handshake
import SecureWs.Lib.NoiseXX

/-!
# SecureWs.Noise

Noise XX and the library that `handshake.py` is written against.

* `NoiseLibrary.Implements` is what the library documents: that it is an
  implementation of Noise XX over its primitives;
* `NoiseLibrary.xx` is the specification itself, run as a library, over any
  primitives: it implements Noise XX (`implements_xx`), and only an all-zero
  secret leaves it as anything but a handshake error (`documented_xx`).
-/

namespace SecureWs

open Python NoiseXX

variable {Key : Type}

/-- The exception for a refused message. -/
def exceptionOf : Failure → NoiseException
  | .outOfTurn => .listed .noiseHandshakeError []
  | .tooShort => .listed .noiseInvalidMessage []
  | .missingKey => .listed .noiseValidationError []
  | .invalidTag => .listed .invalidTag []
  | .zeroSecret => .other (.valueError ["Error computing shared key."])

/-- Only an all-zero secret raises something outside `_HANDSHAKE_ERRORS`. -/
theorem exceptionOf_eq_other_iff {failure : Failure} {exc : PyError} :
    exceptionOf failure = .other exc ↔
      exc = .valueError ["Error computing shared key."] ∧ failure = .zeroSecret := by
  cases failure <;> simp [exceptionOf, eq_comm]

/-- A call that leaves the state alone when it raises. -/
def callOf (f : State Key → Except Failure (Bytes × State Key)) :
    Imp NoiseException (State Key) Bytes := fun self =>
  match f self with
  | .ok (bytes, self') => (.ok bytes, self')
  | .error failure => (.error (exceptionOf failure), self)

/-- A call returns what the function returns. -/
theorem run_callOf_ok {f : State Key → Except Failure (Bytes × State Key)} {self self' : State Key}
    {bytes : Bytes} (h : f self = .ok (bytes, self')) : (callOf f).run self = (.ok bytes, self') := by
  show callOf f self = _
  rw [callOf, h]

/-- And raises something outside `_HANDSHAKE_ERRORS` for an all-zero secret only. -/
theorem run_callOf_other_iff {f : State Key → Except Failure (Bytes × State Key)}
    {self : State Key} {exc : PyError} : ((callOf f).run self).1 = .error (.other exc) ↔
      exc = .valueError ["Error computing shared key."] ∧ f self = .error .zeroSecret := by
  show (callOf f self).1 = _ ↔ _
  unfold callOf
  cases f self with
  | ok r => simp
  | error failure => simp [exceptionOf_eq_other_iff]

/-- A call that returns is one of the function. -/
theorem eq_of_run_callOf {f : State Key → Except Failure (Bytes × State Key)} {self self' : State Key}
    {bytes : Bytes} (h : (callOf f).run self = (.ok bytes, self')) : f self = .ok (bytes, self') := by
  change callOf f self = _ at h
  unfold callOf at h
  cases hf : f self with
  | ok r =>
      simp only [hf, Prod.mk.injEq, Except.ok.injEq] at h
      rw [← h.1, ← h.2]
  | error failure => simp [hf] at h

/-- The two keys; they are handed out after the last message. -/
def transportKeys (P : Primitives Key) (self : State Key) : Key × Key :=
  self.transport.getD (P.split self.symmetric.chainingKey)

/-- Noise XX as a library; the first of the two keys is the initiator's. -/
def NoiseLibrary.xx (P : Primitives Key) (name : Bytes) : NoiseLibrary (State Key) Key where
  publicKey := P.publicKey
  startHandshake initiator staticPrivate prologue entropy :=
    start P name initiator staticPrivate entropy prologue
  handshakeFinished self := self.transport.isSome
  writeMessage payload := callOf (State.writeMessage P payload)
  readMessage data := callOf (State.readMessage P data)
  remoteStatic := State.rs
  handshakeHash self := self.symmetric.h
  cipherStateEncrypt self :=
    .fresh (if self.initiator = true then (transportKeys P self).1 else (transportKeys P self).2)
  cipherStateDecrypt self :=
    .fresh (if self.initiator = true then (transportKeys P self).2 else (transportKeys P self).1)

/-- The library's documentation: it implements Noise XX.  `stateOf` reads the
handshake state of the specification off a connection: the handshake starts as
`Initialize` has it, a call that returns has done what `WriteMessage` or
`ReadMessage` does, and what the program reads off the connection is in that
state.  Nothing is said of a call that raises. -/
structure NoiseLibrary.Implements {Conn : Type} (lib : NoiseLibrary Conn Key) (P : Primitives Key)
    (name : Bytes) (stateOf : Conn → State Key) : Prop where
  publicKey : ∀ own, lib.publicKey own = P.publicKey own
  starts : ∀ initiator secret prologue entropy,
    stateOf (lib.startHandshake initiator secret prologue entropy) =
      start P name initiator secret entropy prologue
  writes : ∀ {conn payload message conn'}, (lib.writeMessage payload).run conn = (.ok message, conn') →
    (stateOf conn).writeMessage P payload = .ok (message, stateOf conn')
  reads : ∀ {conn message payload conn'}, (lib.readMessage message).run conn = (.ok payload, conn') →
    (stateOf conn).readMessage P message = .ok (payload, stateOf conn')
  handshakeFinished : ∀ conn, lib.handshakeFinished conn = (stateOf conn).transport.isSome
  remoteStatic : ∀ conn, lib.remoteStatic conn = (stateOf conn).rs
  handshakeHash : ∀ conn, lib.handshakeHash conn = (stateOf conn).symmetric.h
  cipherStates : ∀ conn keys, (stateOf conn).transport = some keys →
    lib.cipherStateEncrypt conn =
        .fresh (if (stateOf conn).initiator = true then keys.1 else keys.2) ∧
      lib.cipherStateDecrypt conn =
        .fresh (if (stateOf conn).initiator = true then keys.2 else keys.1)

/-- The specification implements itself. -/
theorem implements_xx (P : Primitives Key) (name : Bytes) :
    (NoiseLibrary.xx P name).Implements P name id where
  publicKey _ := rfl
  starts _ _ _ _ := rfl
  writes := eq_of_run_callOf
  reads := eq_of_run_callOf
  handshakeFinished _ := rfl
  remoteStatic _ := rfl
  handshakeHash _ := rfl
  cipherStates conn keys h := by
    have hkeys : transportKeys P conn = keys := congrArg (Option.getD · _) h
    simp only [NoiseLibrary.xx, hkeys, id, and_self]

/-- The exchanges of a call. -/
def exchangesOf (P : Primitives Key) (self : State Key) : NoiseCall → List (Bytes × Bytes)
  | .write _ => self.writeExchanges P
  | .read data => self.readExchanges P data

/-- Noise XX lets nothing through but the error of an all-zero secret. -/
theorem documented_xx (P : Primitives Key) (name : Bytes) :
    (NoiseLibrary.xx P name).Documented P.dh (exchangesOf P) where
  other_iff self call := by
    cases call with
    | write payload =>
        exact (exists_congr fun _ => run_callOf_other_iff).trans
          (exists_eq_left.trans (State.writeMessage_zero_iff payload self))
    | read data =>
        exact (exists_congr fun _ => run_callOf_other_iff).trans
          (exists_eq_left.trans (State.readMessage_zero_iff data self))
  valueError self call exc h := by
    cases call with
    | write payload => exact ⟨_, (run_callOf_other_iff.mp h).1⟩
    | read data => exact ⟨_, (run_callOf_other_iff.mp h).1⟩

/-- Primitives to run examples with: a key is its own public key, and a zero
key makes the shared secret zero, as one of small order does in X25519. -/
def examplePrimitives : Primitives Nat where
  publicKey own := (own ++ List.replicate 32 0).take 32
  dh own other := if other = List.replicate 32 0 then List.replicate 32 0
    else List.zipWith (· + ·) own other
  hash data := data
  mixKey chainingKey secret := (chainingKey ++ secret, chainingKey.length)
  split chainingKey := (chainingKey.length, chainingKey.length + 1)
  aead := Aead.spelled (· + 1)

theorem lawful_examplePrimitives : examplePrimitives.Lawful where
  correct := Aead.correct_spelled _
  overhead := Aead.overhead_spelled _
  length_publicKey own := by simp [examplePrimitives, NoiseXX.keyLength]

end SecureWs
