import SecureWs.Lib.Imp
import SecureWs.Lib.Aead

/-!
# SecureWs.Lib.NoiseXX

The XX handshake of the Noise Protocol Framework over abstract primitives: a
Diffie-Hellman function, a hash, the key derivation and an AEAD.

```
-> e
<- e, ee, s, es
-> s, se
```

* `writeMessage` and `readMessage` process the tokens of the next message and
  then its payload;
* `InStep` says that two ends agree on everything that was exchanged so far;
  one token keeps it (`InStep.token`), hence a message does (`InStep.message`);
* `exchange` is the theorem on the whole handshake of two ends;
* `writeExchanges` and `readExchanges` are the Diffie-Hellman exchanges that a
  call makes: it fails with `zeroSecret` exactly when one of them has an
  all-zero secret.
-/

namespace NoiseXX

/-- The primitives.  `dh` takes the own private key and the other's public
key; `mixKey` is HKDF with two outputs, of which the second becomes a key. -/
structure Primitives (Key : Type) where
  publicKey : List UInt8 → List UInt8
  dh : List UInt8 → List UInt8 → List UInt8
  hash : List UInt8 → List UInt8
  mixKey : List UInt8 → List UInt8 → List UInt8 × Key
  split : List UInt8 → Key × Key
  aead : Aead Key

inductive Token where
  | e
  | s
  | ee
  | es
  | se
  deriving DecidableEq, Repr

def pattern : List (List Token) := [[.e], [.e, .ee, .s, .es], [.s, .se]]

inductive Failure where
  | outOfTurn
  | tooShort
  | missingKey
  | invalidTag
  | zeroSecret
  deriving DecidableEq, Repr

/-- A `SymmetricState`; `cipher` is the key and the nonce, once there is one. -/
structure Symmetric (Key : Type) where
  chainingKey : List UInt8
  h : List UInt8
  cipher : Option (Key × Nat)

/-- A `HandshakeState`: the own private keys, the other's public keys, and the
messages to come.  `transport` are the keys after the last message. -/
structure State (Key : Type) where
  initiator : Bool
  s : List UInt8
  e : List UInt8
  rs : Option (List UInt8)
  re : Option (List UInt8)
  symmetric : Symmetric Key
  remaining : List (List Token)
  transport : Option (Key × Key)

def zeroSecret : List UInt8 := List.replicate 32 0

def keyLength : Nat := 32

def tagLength : Nat := 16

variable {Key : Type} (P : Primitives Key)

namespace Symmetric

/-- `MixHash(data)`. -/
def mixHash (self : Symmetric Key) (data : List UInt8) : Symmetric Key :=
  { self with h := P.hash (self.h ++ data) }

/-- `MixKey(secret)`. -/
def mixKey (self : Symmetric Key) (secret : List UInt8) : Symmetric Key :=
  { self with
    chainingKey := (P.mixKey self.chainingKey secret).1
    cipher := some ((P.mixKey self.chainingKey secret).2, 0) }

/-- `EncryptAndHash(plaintext)`. -/
def encryptAndHash (self : Symmetric Key) (plaintext : List UInt8) :
    List UInt8 × Symmetric Key :=
  match self.cipher with
  | none => (plaintext, self.mixHash P plaintext)
  | some (key, n) =>
      (P.aead.encrypt key n self.h plaintext,
        mixHash P { self with cipher := some (key, n + 1) } (P.aead.encrypt key n self.h plaintext))

/-- `DecryptAndHash(data)`. -/
def decryptAndHash (self : Symmetric Key) (data : List UInt8) :
    Option (List UInt8 × Symmetric Key) :=
  match self.cipher with
  | none => some (data, self.mixHash P data)
  | some (key, n) => (P.aead.decrypt key n self.h data).map fun plaintext =>
      (plaintext, mixHash P { self with cipher := some (key, n + 1) } data)

def overhead (self : Symmetric Key) : Nat := if self.cipher.isSome = true then tagLength else 0

variable {P}

/-- What one end encrypts, the other decrypts, and their states stay equal. -/
theorem decryptAndHash_encryptAndHash (correct : P.aead.Correct) (self : Symmetric Key)
    (plaintext : List UInt8) :
    self.decryptAndHash P (self.encryptAndHash P plaintext).1 =
      some (plaintext, (self.encryptAndHash P plaintext).2) := by
  unfold decryptAndHash encryptAndHash
  cases self.cipher with
  | none => rfl
  | some k => simp [correct k.1 k.2]

/-- A ciphertext is longer than its plaintext by the tag, if there is a key. -/
theorem length_encryptAndHash (hover : P.aead.Overhead tagLength) (self : Symmetric Key)
    (plaintext : List UInt8) :
    (self.encryptAndHash P plaintext).1.length = plaintext.length + self.overhead := by
  unfold encryptAndHash overhead
  cases self.cipher with
  | none => rfl
  | some k => simp [hover k.1 k.2]

end Symmetric

/-! ## Tokens -/

namespace State

/-- The private and the public key of a Diffie-Hellman token. -/
def exchange (self : State Key) : Token → Option (List UInt8 × List UInt8)
  | .ee => self.re.map fun re => (self.e, re)
  | .es => if self.initiator = true then self.rs.map fun rs => (self.e, rs)
      else self.re.map fun re => (self.s, re)
  | .se => if self.initiator = true then self.re.map fun re => (self.s, re)
      else self.rs.map fun rs => (self.e, rs)
  | .e | .s => none

/-- `MixKey(DH(…))`. -/
def mixDh (self : State Key) (token : Token) : Except Failure (State Key) :=
  match self.exchange token with
  | none => .error .missingKey
  | some (own, other) =>
      if P.dh own other = zeroSecret then .error .zeroSecret
      else .ok { self with symmetric := self.symmetric.mixKey P (P.dh own other) }

/-- Write a token: what it adds to the message, and the state after it. -/
def writeToken (self : State Key) : Token → Except Failure (List UInt8 × State Key)
  | .e => .ok (P.publicKey self.e,
      { self with symmetric := self.symmetric.mixHash P (P.publicKey self.e) })
  | .s => .ok ((self.symmetric.encryptAndHash P (P.publicKey self.s)).1,
      { self with symmetric := (self.symmetric.encryptAndHash P (P.publicKey self.s)).2 })
  | token => (self.mixDh P token).map fun self => ([], self)

/-- Read a token off the message: the rest of the message, and the state. -/
def readToken (self : State Key) (data : List UInt8) :
    Token → Except Failure (List UInt8 × State Key)
  | .e =>
      if data.length < keyLength then .error .tooShort
      else .ok (data.drop keyLength, { self with
        re := some (data.take keyLength)
        symmetric := self.symmetric.mixHash P (data.take keyLength) })
  | .s =>
      if data.length < keyLength + self.symmetric.overhead then .error .tooShort
      else match self.symmetric.decryptAndHash P
          (data.take (keyLength + self.symmetric.overhead)) with
        | none => .error .invalidTag
        | some (rs, symmetric) => .ok (data.drop (keyLength + self.symmetric.overhead),
            { self with rs := some rs, symmetric := symmetric })
  | token => (self.mixDh P token).map fun self => (data, self)

def writeTokens : List Token → State Key → Except Failure (List UInt8 × State Key)
  | [], self => .ok ([], self)
  | token :: tokens, self => do
      let (bytes, self) ← self.writeToken P token
      let (more, self) ← writeTokens tokens self
      return (bytes ++ more, self)

def readTokens : List Token → List UInt8 → State Key → Except Failure (List UInt8 × State Key)
  | [], data, self => .ok (data, self)
  | token :: tokens, data, self => do
      let (data, self) ← self.readToken P data token
      readTokens tokens data self

/-- After the last message the chaining key is split. -/
def finish (self : State Key) (remaining : List (List Token)) : State Key :=
  { self with
    remaining := remaining
    transport := if remaining = [] then some (P.split self.symmetric.chainingKey) else none }

/-- Whether the next message is written here. -/
def writesNext (self : State Key) : Bool :=
  ((pattern.length - self.remaining.length) % 2 == 0) == self.initiator

/-- `WriteMessage(payload)`.  How long a message may be on the wire is for the
caller to check, here and in `readMessage`. -/
def writeMessage (payload : List UInt8) (self : State Key) :
    Except Failure (List UInt8 × State Key) :=
  match self.remaining with
  | [] => .error .outOfTurn
  | tokens :: remaining => do
      raiseIf (self.writesNext = false) .outOfTurn
      let (bytes, self) ← self.writeTokens P tokens
      let (ciphertext, symmetric) := self.symmetric.encryptAndHash P payload
      return (bytes ++ ciphertext, finish P { self with symmetric := symmetric } remaining)

/-- `ReadMessage(data)`. -/
def readMessage (data : List UInt8) (self : State Key) :
    Except Failure (List UInt8 × State Key) :=
  match self.remaining with
  | [] => .error .outOfTurn
  | tokens :: remaining => do
      raiseIf (self.writesNext = true) .outOfTurn
      let (rest, self) ← readTokens P tokens data self
      match self.symmetric.decryptAndHash P rest with
      | none => throw .invalidTag
      | some (payload, symmetric) =>
          return (payload, finish P { self with symmetric := symmetric } remaining)

end State

/-- `Initialize(…)`: a handshake before its first message. -/
def start (name : List UInt8) (initiator : Bool) (s e prologue : List UInt8) : State Key :=
  ⟨initiator, s, e, none, none, Symmetric.mixHash P ⟨name, name, none⟩ prologue, pattern, none⟩

/-! ## Two ends in step -/

/-- The two private keys have one shared secret, and it is not zero. -/
def Agree (x y : List UInt8) : Prop :=
  P.dh x (P.publicKey y) = P.dh y (P.publicKey x) ∧ P.dh x (P.publicKey y) ≠ zeroSecret

/-- What the theorems below need of the primitives. -/
structure Primitives.Lawful (P : Primitives Key) : Prop where
  correct : P.aead.Correct
  overhead : P.aead.Overhead tagLength
  length_publicKey : ∀ own, (P.publicKey own).length = keyLength

variable {P}

/-- Agreement does not depend on whose point of view it is. -/
theorem Agree.symm {x y : List UInt8} (h : Agree P x y) : Agree P y x :=
  ⟨h.1.symm, fun hzero => h.2 (h.1.trans hzero)⟩

/-- What was exchanged between two ends: which keys the one has sent, which the
other has, and whether there is a cipher key. -/
structure Exchanged where
  e : Bool
  s : Bool
  e' : Bool
  s' : Bool
  key : Bool
  deriving DecidableEq, Repr

namespace Exchanged

def swap (k : Exchanged) : Exchanged := ⟨k.e', k.s', k.e, k.s, k.key⟩

/-- After a token of the one, where both ends have the keys for it. -/
def after (initiator : Bool) (k : Exchanged) : Token → Option Exchanged
  | .e => some { k with e := true }
  | .s => some { k with s := true }
  | .ee => if k.e = true ∧ k.e' = true then some { k with key := true } else none
  | .es => if (if initiator = true then k.e = true ∧ k.s' = true else k.s = true ∧ k.e' = true) then
      some { k with key := true } else none
  | .se => if (if initiator = true then k.s = true ∧ k.e' = true else k.e = true ∧ k.s' = true) then
      some { k with key := true } else none

def afterAll (initiator : Bool) : List Token → Exchanged → Option Exchanged
  | [], k => some k
  | token :: tokens, k => (k.after initiator token).bind (afterAll initiator tokens)

def tokenLength (k : Exchanged) : Token → Nat
  | .e => keyLength
  | .s => keyLength + if k.key = true then tagLength else 0
  | _ => 0

/-- The length of the tokens of a message. -/
def length (initiator : Bool) : List Token → Exchanged → Nat
  | [], _ => 0
  | token :: tokens, k =>
      k.tokenLength token + ((k.after initiator token).map (length initiator tokens)).getD 0

end Exchanged

variable (P) in
/-- The ends `a` and `b` agree on everything that was exchanged. -/
structure InStep (a b : State Key) (k : Exchanged) : Prop where
  roles : b.initiator = !a.initiator
  symmetric : a.symmetric = b.symmetric
  remaining : a.remaining = b.remaining
  cipher : a.symmetric.cipher.isSome = k.key
  re : a.re = if k.e' = true then some (P.publicKey b.e) else none
  rs : a.rs = if k.s' = true then some (P.publicKey b.s) else none
  re' : b.re = if k.e = true then some (P.publicKey a.e) else none
  rs' : b.rs = if k.s = true then some (P.publicKey a.s) else none
  ee : Agree P a.e b.e
  es : Agree P a.e b.s
  se : Agree P a.s b.e

/-- The role and the private keys do not change. -/
structure Same (a a' : State Key) : Prop where
  initiator : a'.initiator = a.initiator
  s : a'.s = a.s
  e : a'.e = a.e

theorem Same.refl (a : State Key) : Same a a := ⟨rfl, rfl, rfl⟩

theorem Same.trans {a a' a'' : State Key} (h : Same a a') (h' : Same a' a'') : Same a a'' :=
  ⟨h'.initiator.trans h.initiator, h'.s.trans h.s, h'.e.trans h.e⟩

namespace InStep

variable {a b : State Key} {k k' : Exchanged}

/-- Being in step does not either. -/
theorem swap (h : InStep P a b k) : InStep P b a k.swap where
  roles := by rw [h.roles, Bool.not_not]
  symmetric := h.symmetric.symm
  remaining := h.remaining.symm
  cipher := by rw [← h.symmetric]; exact h.cipher
  re := h.re'
  rs := h.rs'
  re' := h.re
  rs' := h.rs
  ee := h.ee.symm
  es := h.se.symm
  se := h.es.symm

/-- A Diffie-Hellman token: both ends mix in the same secret. -/
theorem mixDh (h : InStep P a b k) {token : Token} {own other own' other' : List UInt8}
    (ha : a.exchange token = some (own, other)) (hb : b.exchange token = some (own', other'))
    (hsame : P.dh own other = P.dh own' other') (hne : P.dh own other ≠ zeroSecret) :
    ∃ symmetric, a.mixDh P token = .ok { a with symmetric := symmetric } ∧
      b.mixDh P token = .ok { b with symmetric := symmetric } ∧
      InStep P { a with symmetric := symmetric } { b with symmetric := symmetric }
        { k with key := true } := by
  refine ⟨a.symmetric.mixKey P (P.dh own other), ?_, ?_, ?_⟩
  · unfold State.mixDh
    rw [ha]
    exact if_neg hne
  · unfold State.mixDh
    rw [hb, h.symmetric, hsame]
    exact if_neg (hsame ▸ hne)
  · exact { h with symmetric := rfl, cipher := rfl }

/-- A Diffie-Hellman token, written and read. -/
theorem dhToken (h : InStep P a b k) {token : Token} {own other own' other' : List UInt8}
    (ha : a.exchange token = some (own, other)) (hb : b.exchange token = some (own', other'))
    (hsame : P.dh own other = P.dh own' other') (hne : P.dh own other ≠ zeroSecret)
    (hwrite : a.writeToken P token = (a.mixDh P token).map fun a' => ([], a'))
    (hread : ∀ data, b.readToken P data token = (b.mixDh P token).map fun b' => (data, b')) :
    ∃ bytes a' b', a.writeToken P token = .ok (bytes, a') ∧
      (∀ rest, b.readToken P (bytes ++ rest) token = .ok (rest, b')) ∧
      InStep P a' b' { k with key := true } ∧ Same a a' ∧ Same b b' ∧ bytes.length = 0 := by
  obtain ⟨symmetric, hmixa, hmixb, hstep⟩ := h.mixDh ha hb hsame hne
  refine ⟨[], _, _, by rw [hwrite, hmixa]; rfl, fun rest => by rw [hread, hmixb]; rfl, hstep, ?_, ?_,
    rfl⟩
  · exact ⟨rfl, rfl, rfl⟩
  · exact ⟨rfl, rfl, rfl⟩

/-- The writer's ephemeral key with the reader's static key. -/
theorem ephemeralStatic (h : InStep P a b k) {token : Token} (hkeys : k.e = true ∧ k.s' = true)
    (ha : a.exchange token = a.rs.map fun rs => (a.e, rs))
    (hb : b.exchange token = b.re.map fun re => (b.s, re))
    (hwrite : a.writeToken P token = (a.mixDh P token).map fun a' => ([], a'))
    (hread : ∀ data, b.readToken P data token = (b.mixDh P token).map fun b' => (data, b')) :
    ∃ bytes a' b', a.writeToken P token = .ok (bytes, a') ∧
      (∀ rest, b.readToken P (bytes ++ rest) token = .ok (rest, b')) ∧
      InStep P a' b' { k with key := true } ∧ Same a a' ∧ Same b b' ∧ bytes.length = 0 := by
  have hrs := h.rs
  have hre' := h.re'
  rw [if_pos hkeys.2] at hrs
  rw [if_pos hkeys.1] at hre'
  exact h.dhToken (by rw [ha, hrs]; rfl) (by rw [hb, hre']; rfl) h.es.1 h.es.2 hwrite hread

/-- The writer's static key with the reader's ephemeral key. -/
theorem staticEphemeral (h : InStep P a b k) {token : Token} (hkeys : k.s = true ∧ k.e' = true)
    (ha : a.exchange token = a.re.map fun re => (a.s, re))
    (hb : b.exchange token = b.rs.map fun rs => (b.e, rs))
    (hwrite : a.writeToken P token = (a.mixDh P token).map fun a' => ([], a'))
    (hread : ∀ data, b.readToken P data token = (b.mixDh P token).map fun b' => (data, b')) :
    ∃ bytes a' b', a.writeToken P token = .ok (bytes, a') ∧
      (∀ rest, b.readToken P (bytes ++ rest) token = .ok (rest, b')) ∧
      InStep P a' b' { k with key := true } ∧ Same a a' ∧ Same b b' ∧ bytes.length = 0 := by
  have hre := h.re
  have hrs' := h.rs'
  rw [if_pos hkeys.2] at hre
  rw [if_pos hkeys.1] at hrs'
  exact h.dhToken (by rw [ha, hre]; rfl) (by rw [hb, hrs']; rfl) h.se.1 h.se.2 hwrite hread

/-- **One token** keeps the ends in step. -/
theorem token (h : InStep P a b k) (lawful : P.Lawful) {token : Token}
    (hafter : k.after a.initiator token = some k') :
    ∃ bytes a' b', a.writeToken P token = .ok (bytes, a') ∧
      (∀ rest, b.readToken P (bytes ++ rest) token = .ok (rest, b')) ∧
      InStep P a' b' k' ∧ Same a a' ∧ Same b b' ∧ bytes.length = k.tokenLength token := by
  have hlength := lawful.length_publicKey
  cases token with
  | e =>
      obtain rfl := Option.some.inj hafter
      refine ⟨P.publicKey a.e, _, { b with
        re := some (P.publicKey a.e)
        symmetric := b.symmetric.mixHash P (P.publicKey a.e) }, rfl, fun rest => ?_, ?_,
        ⟨rfl, rfl, rfl⟩, ⟨rfl, rfl, rfl⟩, hlength a.e⟩
      · have hle : ¬(P.publicKey a.e ++ rest).length < keyLength := by
          rw [List.length_append, hlength]
          omega
        unfold State.readToken
        rw [if_neg hle, List.take_left' (hlength a.e), List.drop_left' (hlength a.e)]
      · exact { h with
          symmetric := congrArg (Symmetric.mixHash P · _) h.symmetric
          cipher := h.cipher
          re' := rfl }
  | s =>
      obtain rfl := Option.some.inj hafter
      have hopen := Symmetric.decryptAndHash_encryptAndHash lawful.correct a.symmetric
        (P.publicKey a.s)
      have hlen := Symmetric.length_encryptAndHash lawful.overhead a.symmetric (P.publicKey a.s)
      rw [hlength] at hlen
      refine ⟨_, _, { b with
        rs := some (P.publicKey a.s)
        symmetric := (a.symmetric.encryptAndHash P (P.publicKey a.s)).2 }, rfl, fun rest => ?_, ?_,
        ⟨rfl, rfl, rfl⟩, ⟨rfl, rfl, rfl⟩, ?_⟩
      · have hle : ¬((a.symmetric.encryptAndHash P (P.publicKey a.s)).1 ++ rest).length <
            keyLength + a.symmetric.overhead := by
          rw [List.length_append, hlen]
          omega
        unfold State.readToken
        rw [← h.symmetric, if_neg hle, List.take_left' hlen, List.drop_left' hlen, hopen]
      · refine { h with
          symmetric := rfl
          cipher := ?_
          rs' := rfl }
        rw [← h.cipher]
        unfold Symmetric.encryptAndHash
        cases hcipher : a.symmetric.cipher with
        | none => simp [Symmetric.mixHash, hcipher]
        | some key => rfl
      · rw [hlen, Symmetric.overhead, h.cipher]
        rfl
  | ee =>
      simp only [Exchanged.after, Option.ite_none_right_eq_some, Option.some.injEq] at hafter
      obtain ⟨⟨he, he'⟩, rfl⟩ := hafter
      have hre := h.re
      have hre' := h.re'
      rw [if_pos he'] at hre
      rw [if_pos he] at hre'
      exact h.dhToken (by rw [State.exchange, hre]; rfl) (by rw [State.exchange, hre']; rfl) h.ee.1
        h.ee.2 rfl fun _ => rfl
  | es =>
      simp only [Exchanged.after, Option.ite_none_right_eq_some, Option.some.injEq] at hafter
      obtain ⟨hkeys, rfl⟩ := hafter
      have hroles := h.roles
      by_cases hinitiator : a.initiator = true
      · rw [if_pos hinitiator] at hkeys
        rw [hinitiator] at hroles
        exact h.ephemeralStatic hkeys (by rw [State.exchange, if_pos hinitiator])
          (by rw [State.exchange, hroles]; rfl) rfl fun _ => rfl
      · rw [if_neg hinitiator] at hkeys
        rw [Bool.eq_false_of_not_eq_true hinitiator] at hroles
        exact h.staticEphemeral hkeys (by rw [State.exchange, if_neg hinitiator])
          (by rw [State.exchange, hroles]; rfl) rfl fun _ => rfl
  | se =>
      simp only [Exchanged.after, Option.ite_none_right_eq_some, Option.some.injEq] at hafter
      obtain ⟨hkeys, rfl⟩ := hafter
      have hroles := h.roles
      by_cases hinitiator : a.initiator = true
      · rw [if_pos hinitiator] at hkeys
        rw [hinitiator] at hroles
        exact h.staticEphemeral hkeys (by rw [State.exchange, if_pos hinitiator])
          (by rw [State.exchange, hroles]; rfl) rfl fun _ => rfl
      · rw [if_neg hinitiator] at hkeys
        rw [Bool.eq_false_of_not_eq_true hinitiator] at hroles
        exact h.ephemeralStatic hkeys (by rw [State.exchange, if_neg hinitiator])
          (by rw [State.exchange, hroles]; rfl) rfl fun _ => rfl

/-- The tokens of a message keep the ends in step. -/
theorem tokens (h : InStep P a b k) (lawful : P.Lawful) {tokens : List Token}
    (hafter : k.afterAll a.initiator tokens = some k') :
    ∃ bytes a' b', State.writeTokens P tokens a = .ok (bytes, a') ∧
      (∀ rest, State.readTokens P tokens (bytes ++ rest) b = .ok (rest, b')) ∧
      InStep P a' b' k' ∧ Same a a' ∧ Same b b' ∧ bytes.length = k.length a.initiator tokens := by
  induction tokens generalizing a b k with
  | nil =>
      obtain rfl := Option.some.inj hafter
      exact ⟨[], a, b, rfl, fun _ => rfl, h, .refl a, .refl b, rfl⟩
  | cons token tokens ih =>
      obtain ⟨k₁, hfirst, hrest⟩ := Option.bind_eq_some_iff.mp hafter
      obtain ⟨bytes, a₁, b₁, hwrite, hread, hstep, hsame, hsame', hlen⟩ := h.token lawful hfirst
      rw [← hsame.initiator] at hrest
      obtain ⟨more, a₂, b₂, hwrites, hreads, hstep', hsame₂, hsame₂', hlen'⟩ := ih hstep hrest
      refine ⟨bytes ++ more, a₂, b₂, ?_, fun rest => ?_, hstep', hsame.trans hsame₂,
        hsame'.trans hsame₂', ?_⟩
      · rw [State.writeTokens, hwrite]
        show (State.writeTokens P tokens a₁ >>= _) = _
        rw [hwrites]
        rfl
      · rw [State.readTokens, List.append_assoc, hread]
        exact hreads rest
      · rw [List.length_append, hlen, hlen', Exchanged.length, hfirst, hsame.initiator]
        rfl

/-- **One message** keeps the ends in step, and its payload arrives. -/
theorem message (h : InStep P a b k) (lawful : P.Lawful) {tokens : List Token}
    {remaining : List (List Token)} (hremaining : a.remaining = tokens :: remaining)
    (hturn : a.writesNext = true) (hafter : k.afterAll a.initiator tokens = some k')
    (payload : List UInt8) :
    ∃ message a' b', a.writeMessage P payload = .ok (message, a') ∧
      b.readMessage P message = .ok (payload, b') ∧ InStep P a' b' k' ∧ Same a a' ∧ Same b b' ∧
      a'.remaining = remaining ∧ a'.transport = b'.transport ∧
      a'.transport = (if remaining = [] then some (P.split a'.symmetric.chainingKey) else none) ∧
      message.length = k.length a.initiator tokens + payload.length +
        (if k'.key = true then tagLength else 0) := by
  obtain ⟨bytes, a₁, b₁, hwrite, hread, hstep, hsame, hsame', hlen⟩ := h.tokens lawful hafter
  have hopen := Symmetric.decryptAndHash_encryptAndHash lawful.correct a₁.symmetric payload
  have hsealed := Symmetric.length_encryptAndHash lawful.overhead a₁.symmetric payload
  rw [Symmetric.overhead, hstep.cipher] at hsealed
  have hmessage : (bytes ++ (a₁.symmetric.encryptAndHash P payload).1).length =
      k.length a.initiator tokens + payload.length + (if k'.key = true then tagLength else 0) := by
    rw [List.length_append, hlen, hsealed, Nat.add_assoc]
  have hturn' : b.writesNext = false := by
    have hroles := h.roles
    unfold State.writesNext at hturn ⊢
    rw [← h.remaining, hroles]
    cases ha : a.initiator <;> simp_all
  refine ⟨bytes ++ (a₁.symmetric.encryptAndHash P payload).1,
    State.finish P { a₁ with symmetric := (a₁.symmetric.encryptAndHash P payload).2 } remaining,
    State.finish P { b₁ with symmetric := (a₁.symmetric.encryptAndHash P payload).2 } remaining,
    ?_, ?_, ?_, ⟨hsame.initiator, hsame.s, hsame.e⟩, ⟨hsame'.initiator, hsame'.s, hsame'.e⟩, rfl, rfl,
    rfl, hmessage⟩
  · simp only [State.writeMessage, hremaining, raiseIf_bind_except, hturn, Bool.true_eq_false,
      if_false]
    rw [hwrite]
    rfl
  · simp only [State.readMessage, ← h.remaining, hremaining, raiseIf_bind_except, hturn',
      Bool.false_eq_true, if_false]
    rw [hread]
    simp only [bind, Except.bind]
    rw [← hstep.symmetric, hopen]
    rfl
  · refine { hstep with
      symmetric := rfl
      remaining := rfl
      cipher := ?_ }
    rw [← hstep.cipher]
    show (a₁.symmetric.encryptAndHash P payload).2.cipher.isSome = _
    unfold Symmetric.encryptAndHash
    cases hcipher : a₁.symmetric.cipher with
    | none => simp [Symmetric.mixHash, hcipher]
    | some key => rfl

end InStep

/-! ## The whole exchange -/

/-- Two ends before the first message. -/
theorem inStep_start (name prologue : List UInt8) {s e s' e' : List UInt8} (hee : Agree P e e')
    (hes : Agree P e s') (hse : Agree P s e') :
    InStep P (start P name true s e prologue) (start P name false s' e' prologue)
      ⟨false, false, false, false, false⟩ :=
  ⟨rfl, rfl, rfl, rfl, rfl, rfl, rfl, rfl, hee, hes, hse⟩

variable (P) in
/-- A handshake of two ends, message by message, with these payloads. -/
structure Transcript (i r : State Key) (p₁ p₂ p₃ : List UInt8) where
  m₁ : List UInt8
  m₂ : List UInt8
  m₃ : List UInt8
  i₁ : State Key
  i₂ : State Key
  i₃ : State Key
  r₁ : State Key
  r₂ : State Key
  r₃ : State Key
  keys : Key × Key
  write₁ : i.writeMessage P p₁ = .ok (m₁, i₁)
  read₁ : r.readMessage P m₁ = .ok (p₁, r₁)
  write₂ : r₁.writeMessage P p₂ = .ok (m₂, r₂)
  read₂ : i₁.readMessage P m₂ = .ok (p₂, i₂)
  write₃ : i₂.writeMessage P p₃ = .ok (m₃, i₃)
  read₃ : r₂.readMessage P m₃ = .ok (p₃, r₃)
  length₁ : m₁.length = p₁.length + 32
  length₂ : m₂.length = p₂.length + 96
  length₃ : m₃.length = p₃.length + 64
  open₁ : i₁.transport = none ∧ r₁.transport = none
  open₂ : i₂.transport = none ∧ r₂.transport = none
  done : i₃.transport = some keys ∧ r₃.transport = some keys
  initiators : i₃.initiator = true ∧ r₃.initiator = false
  hash : i₃.symmetric.h = r₃.symmetric.h
  static_r : i₂.rs = some (P.publicKey r.s)
  static_i : r₃.rs = some (P.publicKey i.s)

/-- **Noise XX works**: two ends whose keys agree complete the handshake,
every payload arrives, and both have the other's static key and the same
transport keys. -/
theorem exchange (lawful : P.Lawful) (name prologue : List UInt8) {s e s' e' : List UInt8}
    (hee : Agree P e e') (hes : Agree P e s') (hse : Agree P s e') (p₁ p₂ p₃ : List UInt8) :
    Nonempty (Transcript P (start P name true s e prologue) (start P name false s' e' prologue)
      p₁ p₂ p₃) := by
  have h₀ := inStep_start name prologue hee hes hse
  generalize hi : start P name true s e prologue = i at h₀
  generalize hr : start P name false s' e' prologue = r at h₀
  have hi_initiator : i.initiator = true := by rw [← hi]; rfl
  have hi_remaining : i.remaining = pattern := by rw [← hi]; rfl
  -- the first message, from the initiator
  have hafter₁ : Exchanged.afterAll i.initiator [.e] ⟨false, false, false, false, false⟩ =
      some ⟨true, false, false, false, false⟩ := by
    rw [hi_initiator]
    rfl
  have hlen₁ : Exchanged.length i.initiator [.e] ⟨false, false, false, false, false⟩ = 32 := by
    rw [hi_initiator]
    rfl
  have hturn₁ : i.writesNext = true := by
    rw [State.writesNext, hi_remaining, hi_initiator]
    rfl
  obtain ⟨m₁, i₁, r₁, write₁, read₁, h₁, si₁, sr₁, hrem₁, hsame₁, hopen₁, length₁⟩ :=
    h₀.message lawful hi_remaining hturn₁ hafter₁ p₁
  -- the second, from the responder
  have hr_initiator : r₁.initiator = false := by
    rw [h₁.roles, si₁.initiator, hi_initiator]
    rfl
  have hr_remaining : r₁.remaining = [[.e, .ee, .s, .es], [.s, .se]] := by
    rw [← h₁.remaining, hrem₁]
  have hafter₂ : Exchanged.afterAll r₁.initiator [.e, .ee, .s, .es]
      (Exchanged.swap ⟨true, false, false, false, false⟩) = some ⟨true, true, true, false, true⟩ := by
    rw [hr_initiator]
    rfl
  have hlen₂ : Exchanged.length r₁.initiator [.e, .ee, .s, .es]
      (Exchanged.swap ⟨true, false, false, false, false⟩) = 80 := by
    rw [hr_initiator]
    rfl
  have hturn₂ : r₁.writesNext = true := by
    rw [State.writesNext, hr_remaining, hr_initiator]
    rfl
  obtain ⟨m₂, r₂, i₂, write₂, read₂, h₂, sr₂, si₂, hrem₂, hsame₂, hopen₂, length₂⟩ :=
    h₁.swap.message lawful hr_remaining hturn₂ hafter₂ p₂
  -- the third, from the initiator
  have hi_initiator₂ : i₂.initiator = true := by rw [si₂.initiator, si₁.initiator, hi_initiator]
  have hi_remaining₂ : i₂.remaining = [[.s, .se]] := by rw [← h₂.remaining, hrem₂]
  have hafter₃ : Exchanged.afterAll i₂.initiator [.s, .se]
      (Exchanged.swap ⟨true, true, true, false, true⟩) = some ⟨true, true, true, true, true⟩ := by
    rw [hi_initiator₂]
    rfl
  have hlen₃ : Exchanged.length i₂.initiator [.s, .se]
      (Exchanged.swap ⟨true, true, true, false, true⟩) = 48 := by
    rw [hi_initiator₂]
    rfl
  have hturn₃ : i₂.writesNext = true := by
    rw [State.writesNext, hi_remaining₂, hi_initiator₂]
    rfl
  obtain ⟨m₃, i₃, r₃, write₃, read₃, h₃, si₃, sr₃, hrem₃, hsame₃, hopen₃, length₃⟩ :=
    h₂.swap.message lawful hi_remaining₂ hturn₃ hafter₃ p₃
  have hi_initiator₃ : i₃.initiator = true := si₃.initiator.trans hi_initiator₂
  refine ⟨⟨m₁, m₂, m₃, i₁, i₂, i₃, r₁, r₂, r₃, P.split i₃.symmetric.chainingKey, write₁, read₁, write₂,
    read₂, write₃, read₃, ?_, ?_, ?_, ⟨hopen₁, hsame₁ ▸ hopen₁⟩, ⟨hsame₂ ▸ hopen₂, hopen₂⟩,
    ⟨hopen₃, hsame₃ ▸ hopen₃⟩, ⟨hi_initiator₃, ?_⟩, congrArg Symmetric.h h₃.symmetric, ?_, ?_⟩⟩
  · rw [length₁, hlen₁]
    simp
    omega
  · rw [length₂, hlen₂]
    simp [tagLength]
    omega
  · rw [length₃, hlen₃]
    simp [tagLength]
    omega
  · rw [h₃.roles, hi_initiator₃]
    rfl
  · have hrs := h₂.rs'
    rw [if_pos rfl] at hrs
    rw [hrs, sr₂.s, sr₁.s]
  · have hrs := h₃.rs'
    rw [if_pos rfl] at hrs
    rw [hrs, si₃.s, si₂.s, si₁.s]

/-! ## The Diffie-Hellman exchanges of a call -/

namespace State

variable (P) in
/-- The exchanges made while the tokens of a message are written. -/
def madeWriting : List Token → State Key → List (List UInt8 × List UInt8)
  | [], _ => []
  | token :: tokens, self => (self.exchange token).toList ++ match self.writeToken P token with
      | .ok (_, self) => madeWriting tokens self
      | .error _ => []

variable (P) in
/-- The exchanges made while the tokens of a message are read. -/
def madeReading : List Token → List UInt8 → State Key → List (List UInt8 × List UInt8)
  | [], _, _ => []
  | token :: tokens, data, self => (self.exchange token).toList ++ match self.readToken P data token with
      | .ok (data, self) => madeReading tokens data self
      | .error _ => []

variable (P) in
/-- The exchanges that `writeMessage` makes. -/
def writeExchanges (self : State Key) : List (List UInt8 × List UInt8) :=
  match self.remaining with
  | [] => []
  | tokens :: _ => if self.writesNext = false then [] else self.madeWriting P tokens

variable (P) in
/-- The exchanges that `readMessage` makes. -/
def readExchanges (data : List UInt8) (self : State Key) : List (List UInt8 × List UInt8) :=
  match self.remaining with
  | [] => []
  | tokens :: _ =>
      if self.writesNext = true then [] else madeReading P tokens data self

/-- An exchange with an all-zero secret. -/
def HasZero (P : Primitives Key) (exchanges : List (List UInt8 × List UInt8)) : Prop :=
  ∃ exchange ∈ exchanges, P.dh exchange.1 exchange.2 = zeroSecret

/-- The exchanges of two parts of a message. -/
theorem hasZero_append {made made' : List (List UInt8 × List UInt8)} :
    HasZero P (made ++ made') ↔ HasZero P made ∨ HasZero P made' := by
  unfold HasZero
  simp only [List.mem_append, or_and_right, exists_or]

theorem not_hasZero_nil : ¬HasZero P [] := by
  simp [HasZero]

/-- Mixing a secret in fails with `zeroSecret` exactly when it is zero. -/
theorem mixDh_zero_iff (self : State Key) (token : Token) :
    self.mixDh P token = .error .zeroSecret ↔ HasZero P (self.exchange token).toList := by
  unfold mixDh HasZero
  cases self.exchange token with
  | none => simp
  | some exchange => simp

/-- Writing a token fails with `zeroSecret` exactly when its exchange has a zero secret. -/
theorem writeToken_zero_iff (self : State Key) (token : Token) :
    self.writeToken P token = .error .zeroSecret ↔ HasZero P (self.exchange token).toList := by
  have hmix := mixDh_zero_iff (P := P) self token
  have hmap : (self.mixDh P token).map (fun self => (([] : List UInt8), self)) = .error .zeroSecret ↔
      self.mixDh P token = .error .zeroSecret := by
    cases self.mixDh P token <;> simp [Except.map]
  cases token with
  | e => simp [writeToken, exchange, HasZero]
  | s => simp [writeToken, exchange, HasZero]
  | ee => exact hmap.trans hmix
  | es => exact hmap.trans hmix
  | se => exact hmap.trans hmix

/-- So does reading it. -/
theorem readToken_zero_iff (self : State Key) (data : List UInt8) (token : Token) :
    self.readToken P data token = .error .zeroSecret ↔ HasZero P (self.exchange token).toList := by
  have hmix := mixDh_zero_iff (P := P) self token
  have hmap : (self.mixDh P token).map (fun self => (data, self)) = .error .zeroSecret ↔
      self.mixDh P token = .error .zeroSecret := by
    cases self.mixDh P token <;> simp [Except.map]
  cases token with
  | e =>
      refine iff_of_false (fun h => ?_) not_hasZero_nil
      simp only [readToken] at h
      split_ifs at h
      cases h
  | s =>
      refine iff_of_false (fun h => ?_) not_hasZero_nil
      simp only [readToken] at h
      split_ifs at h
      · cases h
      · split at h
        · cases h
        · cases h
  | ee => exact hmap.trans hmix
  | es => exact hmap.trans hmix
  | se => exact hmap.trans hmix

/-- The tokens of a message stop at a zero secret, and at nothing else with
this failure. -/
theorem writeTokens_zero_iff (tokens : List Token) (self : State Key) :
    self.writeTokens P tokens = .error .zeroSecret ↔ HasZero P (self.madeWriting P tokens) := by
  induction tokens generalizing self with
  | nil => exact iff_of_false (fun h => nomatch h) not_hasZero_nil
  | cons token tokens ih =>
      have hfirst := writeToken_zero_iff (P := P) self token
      rw [madeWriting, hasZero_append, ← hfirst, writeTokens]
      cases hwrite : self.writeToken P token with
      | error failure =>
          show Except.error failure = _ ↔ _
          simp [not_hasZero_nil]
      | ok r =>
          simp only [reduceCtorEq, false_or, ← ih]
          show (writeTokens P tokens r.2 >>= _) = _ ↔ _
          cases writeTokens P tokens r.2 with
          | error failure => rfl
          | ok more => exact iff_of_false (fun h => nomatch h) fun h => nomatch h

/-- Reading the tokens stops at a zero secret, and at nothing else with this failure. -/
theorem readTokens_zero_iff (tokens : List Token) (data : List UInt8) (self : State Key) :
    readTokens P tokens data self = .error .zeroSecret ↔
      HasZero P (madeReading P tokens data self) := by
  induction tokens generalizing data self with
  | nil => exact iff_of_false (fun h => nomatch h) not_hasZero_nil
  | cons token tokens ih =>
      have hfirst := readToken_zero_iff (P := P) self data token
      rw [madeReading, hasZero_append, ← hfirst, readTokens]
      cases hread : self.readToken P data token with
      | error failure =>
          show Except.error failure = _ ↔ _
          simp [not_hasZero_nil]
      | ok r =>
          simp only [reduceCtorEq, false_or, ← ih]
          rfl

/-- **`WriteMessage` fails on a zero secret** exactly when it makes an exchange
with one. -/
theorem writeMessage_zero_iff (payload : List UInt8) (self : State Key) :
    self.writeMessage P payload = .error .zeroSecret ↔ HasZero P (self.writeExchanges P) := by
  unfold writeMessage writeExchanges
  cases self.remaining with
  | nil => exact iff_of_false (fun h => nomatch h) not_hasZero_nil
  | cons tokens remaining =>
      simp only [raiseIf_bind_except]
      by_cases hturn : self.writesNext = false
      · rw [if_pos hturn, if_pos hturn]
        exact iff_of_false (fun h => nomatch h) not_hasZero_nil
      · rw [if_neg hturn, if_neg hturn, ← writeTokens_zero_iff]
        cases self.writeTokens P tokens with
        | error failure => rfl
        | ok r => exact iff_of_false (fun h => nomatch h) fun h => nomatch h

/-- **`ReadMessage` fails on a zero secret** exactly when it makes an exchange
with one. -/
theorem readMessage_zero_iff (data : List UInt8) (self : State Key) :
    self.readMessage P data = .error .zeroSecret ↔ HasZero P (self.readExchanges P data) := by
  unfold readMessage readExchanges
  cases self.remaining with
  | nil => exact iff_of_false (fun h => nomatch h) not_hasZero_nil
  | cons tokens remaining =>
      simp only [raiseIf_bind_except]
      by_cases hturn : self.writesNext = true
      · rw [if_pos hturn, if_pos hturn]
        exact iff_of_false (fun h => nomatch h) not_hasZero_nil
      rw [if_neg hturn, if_neg hturn, ← readTokens_zero_iff]
      cases readTokens P tokens data self with
      | error failure => rfl
      | ok r =>
          refine iff_of_false (fun h => ?_) fun h => nomatch h
          simp only [bind, Except.bind] at h
          split at h
          · cases h
          · cases h

end State

end NoiseXX
