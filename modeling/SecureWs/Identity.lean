import SecureWs.Crypto

/-!
# SecureWs.Identity

The store of pinned peer keys of `identity.py`.
-/

namespace SecureWs

open Python

/-- A `KnownPeers` store: the key pinned under each label. -/
structure KnownPeers where
  pins : Finmap fun _ : Str => Bytes
  deriving DecidableEq

namespace KnownPeers

def empty : KnownPeers := ⟨∅⟩

/-- `self._pins[label] = public_key`. -/
def insert (self : KnownPeers) (label : Str) (publicKey : Bytes) : KnownPeers :=
  ⟨self.pins.insert label publicKey⟩

/-- `known_peers.pinned(label)`. -/
def pinned (self : KnownPeers) (label : Str) : Option Bytes := self.pins.lookup label

def isKnown (self : KnownPeers) (label : Str) : Bool := label ∈ self.pins

/-- `known_peers.pin(label, public_key)`. -/
def pin (label : Str) (publicKey : Bytes) : Imp PyError KnownPeers Unit := do
  Imp.ofExcept (validatePublicKey publicKey)
  modify fun self => self.insert label publicKey

/-- `known_peers.verify(label, public_key)`.  A store built from a dictionary
may hold a key of any length, whose fingerprint then raises. -/
def verify (sha256 : Bytes → Bytes) (self : KnownPeers) (label : Str) (publicKey : Bytes) :
    Except PyError Unit := do
  validatePublicKey publicKey
  match self.pinned label with
  | none => throw (.identityError ["no pinned key for peer ", .repr label])
  | some pinned => raiseWith (constantTimeEqual pinned publicKey = false) do
      let known ← keyFingerprint sha256 pinned
      let got ← keyFingerprint sha256 publicKey
      return .identityError ["static key mismatch for peer ", .repr label, ": pinned ",
        .str known, ", got ", .str got]

/-- `known_peers.trust_or_verify(label, public_key)`. -/
def trustOrVerify (sha256 : Bytes → Bytes) (label : Str) (publicKey : Bytes) :
    Imp PyError KnownPeers Bool := do
  let self ← get
  if self.isKnown label = true then do
    Imp.ofExcept (self.verify sha256 label publicKey)
    return false
  else do
    pin label publicKey
    return true

theorem pinned_insert (self : KnownPeers) (label label' : Str) (publicKey : Bytes) :
    (self.insert label publicKey).pinned label' =
      if label' = label then some publicKey else self.pinned label' := by
  unfold pinned insert
  by_cases h : label' = label
  · rw [if_pos h, h, Finmap.lookup_insert]
  · rw [if_neg h, Finmap.lookup_insert_of_ne _ h]

theorem isKnown_eq_false_iff {self : KnownPeers} {label : Str} :
    self.isKnown label = false ↔ self.pinned label = none := by
  unfold isKnown pinned
  rw [decide_eq_false_iff_not, Finmap.lookup_eq_none]

theorem isKnown_iff {self : KnownPeers} {label : Str} :
    self.isKnown label = true ↔ ∃ key, self.pinned label = some key := by
  rw [← Bool.not_eq_false, isKnown_eq_false_iff, ← ne_eq, Option.ne_none_iff_exists']

theorem run_pin {label : Str} {publicKey : Bytes} (h : publicKey.length = X25519_KEY_LEN)
    (self : KnownPeers) :
    (pin label publicKey).run self = (.ok (), self.insert label publicKey) := by
  have hkey : validatePublicKey publicKey = .ok () := validatePublicKey_eq_ok_iff.mpr h
  unfold pin
  rw [hkey]
  rfl

/-- A key of the wrong length is not pinned. -/
theorem run_pin_of_invalid {label : Str} {publicKey : Bytes} {exc : PyError}
    (h : validatePublicKey publicKey = .error exc) (self : KnownPeers) :
    (pin label publicKey).run self = (.error exc, self) := by
  unfold pin
  rw [h]
  rfl

/-- A pin is verified by the pinned key alone. -/
theorem verify_eq_ok_iff {sha256 : Bytes → Bytes} {self : KnownPeers} {label : Str}
    {publicKey : Bytes} (h : publicKey.length = X25519_KEY_LEN) {u : Unit} :
    self.verify sha256 label publicKey = .ok u ↔ self.pinned label = some publicKey := by
  unfold verify
  simp only [bind_eq_ok_iff, validatePublicKey_eq_ok_iff, h, true_and, exists_const]
  cases self.pinned label with
  | none => simp
  | some pinned => simp [raiseWith_eq_ok_iff]

/-- Only the pinned key passes, whatever its length. -/
theorem pinned_of_verify {sha256 : Bytes → Bytes} {self : KnownPeers} {label : Str}
    {publicKey : Bytes} {u : Unit} (h : self.verify sha256 label publicKey = .ok u) :
    self.pinned label = some publicKey := by
  have hvalid : validatePublicKey publicKey = .ok () := by
    unfold verify at h
    obtain ⟨_, hvalid, -⟩ := bind_eq_ok_iff.mp h
    exact hvalid
  exact (verify_eq_ok_iff (validatePublicKey_eq_ok_iff.mp hvalid)).mp h

/-! ## Stores that are written once -/

/-- The store is left alone, or the key is pinned under a label that was free. -/
def PinsFirst (label : Str) (publicKey : Bytes) (before after : KnownPeers) : Prop :=
  after = before ∨ before.pinned label = none ∧ after = before.insert label publicKey

namespace PinsFirst

variable {label : Str} {publicKey : Bytes} {before after : KnownPeers}

/-- No pin changes. -/
theorem pinned_of_pinned (h : PinsFirst label publicKey before after) {label' : Str} {key : Bytes}
    (hpinned : before.pinned label' = some key) : after.pinned label' = some key := by
  obtain rfl | ⟨hfree, rfl⟩ := h
  · exact hpinned
  · rw [pinned_insert, if_neg ?_]
    · exact hpinned
    · intro heq
      rw [heq, hfree] at hpinned
      cases hpinned

/-- No other label is touched. -/
theorem pinned_of_ne (h : PinsFirst label publicKey before after) {label' : Str}
    (hne : label' ≠ label) : after.pinned label' = before.pinned label' := by
  obtain rfl | ⟨-, rfl⟩ := h
  · rfl
  · rw [pinned_insert, if_neg hne]

end PinsFirst

/-- What `trust_or_verify` can do. -/
theorem trustOrVerify_cases (sha256 : Bytes → Bytes) (label : Str) (publicKey : Bytes)
    (self : KnownPeers) :
    (∃ exc, (trustOrVerify sha256 label publicKey).run self = (.error exc, self)) ∨
    ((trustOrVerify sha256 label publicKey).run self = (.ok false, self) ∧
      self.pinned label = some publicKey) ∨
    ((trustOrVerify sha256 label publicKey).run self =
        (.ok true, self.insert label publicKey) ∧ self.pinned label = none ∧
      publicKey.length = X25519_KEY_LEN) := by
  unfold trustOrVerify
  rw [Imp.run_bind_of_ok (Imp.run_get self)]
  by_cases hknown : self.isKnown label = true
  · rw [if_pos hknown, Imp.run_bind, Imp.run_ofExcept]
    cases hverify : self.verify sha256 label publicKey with
    | error exc => exact .inl ⟨exc, rfl⟩
    | ok u => exact .inr (.inl ⟨rfl, pinned_of_verify hverify⟩)
  · rw [if_neg hknown]
    have hfree := isKnown_eq_false_iff.mp (Bool.not_eq_true _ ▸ hknown)
    cases hvalid : validatePublicKey publicKey with
    | error exc =>
        rw [Imp.run_bind_of_error (run_pin_of_invalid hvalid self)]
        exact .inl ⟨exc, rfl⟩
    | ok u =>
        have hlength := validatePublicKey_eq_ok_iff.mp hvalid
        rw [Imp.run_bind_of_ok (run_pin hlength self)]
        exact .inr (.inr ⟨rfl, hfree, hlength⟩)

end KnownPeers

end SecureWs
