import SecureWs.Ca
import SecureWs.Channel
import SecureWs.Identity

/-!
# SecureWs.Transport

The authentication gate of `transport.py`: what `connect` and `serve` check
between the handshake and the moment the connection is handed on.

* `authenticate` is the sequence of checks the two paths share;
* `Admits` says, without order or state, what the configuration demands of a
  peer, and `gate_admits_exactly` that the two paths let through just that;
* `FirstUse` is the one situation in which a check writes to the pin store.

The handshake itself, TLS and the clock are inputs.
-/

namespace SecureWs

open Python

/-- `expected_subject`: a subject, or `ANY_SUBJECT`. -/
inductive ExpectedSubject where
  | anySubject
  | subject (s : Str)
  deriving DecidableEq

/-- The keyword arguments that `connect` and `serve` share.  Of `known_peers`
only whether it is given: the store is mutable, and part of `World`. -/
structure Config where
  knownPeers : Bool
  peerLabel : Option Str
  expectedPeerKey : Option Bytes
  requireKnownPeer : Bool
  trustedIssuer : Option Bytes
  expectedSubject : Option ExpectedSubject
  revocation : Option RevocationList
  secure : Bool
  handshakeTimeout : Option ℚ

/-- `require = require_known_peer or secure`. -/
def Config.require (config : Config) : Bool := config.requireKnownPeer || config.secure

/-- `known_peers is not None and peer_label is not None`, with the label. -/
def Config.pinLabel (config : Config) : Option Str :=
  if config.knownPeers = true then config.peerLabel else none

/-- `ssl_context.verify_mode`. -/
inductive VerifyMode where
  | certNone
  | certOptional
  | certRequired
  deriving DecidableEq

/-- What `connect` takes for TLS, and the certificate the server showed. -/
structure Tls where
  sslContext : Option VerifyMode
  certPin : Option Str
  peerCertDer : Option Bytes

/-- What the handshake returns: its result, and the certificate bytes the
peer sent.  The static key is an X25519 public key. -/
structure Peer (Key : Type) where
  result : HandshakeResult Key
  certBytes : Bytes
  remoteStatic_length : result.remoteStatic.length = X25519_KEY_LEN

variable {Key T : Type} [Zero T] [LE T]

/-- What an attempt can change: the pin store, the connections handed to the
handler, the calls of `ws.close` and the log. -/
structure World (Key T : Type) [Zero T] [LE T] where
  knownPeers : KnownPeers
  handled : List (SecureChannel Key T)
  closes : List (Option (Nat × String))
  log : List LogRecord

namespace World

/-- A piece of `connect` or of `serve`. -/
abbrev Action (Key T : Type) [Zero T] [LE T] (α : Type) := Imp PyError (World Key T) α

/-- `logger.debug(…)` or `logger.warning(…)`. -/
def emitLog (record : LogRecord) : Action Key T Unit :=
  modify fun world => { world with log := world.log ++ [record] }

/-- `ws.close()`, with the code and the reason if given. -/
def closeWs (reason : Option (Nat × String)) : Action Key T Unit :=
  modify fun world => { world with closes := world.closes ++ [reason] }

/-- A call on `known_peers`. -/
def onKnownPeers {α : Type} (m : Imp PyError KnownPeers α) : Action Key T α :=
  Imp.onField knownPeers (fun world store => { world with knownPeers := store }) m

end World

open World

/-! ## The checks -/

/-- `_validate_handshake_timeout(handshake_timeout)`. -/
def validateHandshakeTimeout (handshakeTimeout : Option ℚ) : Except PyError Unit :=
  raiseIf (handshakeTimeout.any (· ≤ 0) = true)
    (.valueError ["handshake_timeout must be positive, or None to disable it"])

/-- `_require_subject_with_issuer(trusted_issuer, expected_subject)`. -/
def requireSubjectWithIssuer (config : Config) : Except PyError Unit :=
  raiseIf (config.trustedIssuer.isSome = true ∧ config.expectedSubject.isNone = true)
    (.valueError ["trusted_issuer requires expected_subject (or ANY_SUBJECT to accept ",
      "any subject signed by that issuer)"])

/-- `_enforce_not_revoked(remote_static, revocation)`. -/
def enforceNotRevoked (env : Env) (remoteStatic : Bytes) (revocation : Option RevocationList) :
    Except PyError Unit :=
  raiseWith (revocation.any (·.isRevokedKey remoteStatic) = true) do
    let fingerprint ← keyFingerprint env.sha256 remoteStatic
    return .identityError ["peer static key ", .str fingerprint, " has been revoked"]

/-- The comparison in `_authenticate_peer` with an expected key. -/
def compareKeys (env : Env) (remoteStatic expected : Bytes) : Except PyError Unit := do
  validatePublicKey expected
  raiseWith (constantTimeEqual remoteStatic expected = false) do
    let got ← keyFingerprint env.sha256 remoteStatic
    let want ← keyFingerprint env.sha256 expected
    return .identityError ["peer static key ", .str got, " does not match the expected key ",
      .str want]

/-- The `expected_peer_key` part of `_authenticate_peer`; the result is the
value of `verified`. -/
def matchExpectedKey (env : Env) (expectedPeerKey : Option Bytes) (remoteStatic : Bytes) :
    Action Key T Bool :=
  match expectedPeerKey with
  | none => return false
  | some expected => do
      Imp.ofExcept (compareKeys env remoteStatic expected)
      emitLog (debug "peer verified against expected_peer_key" [])
      return true

/-- What `_authenticate_peer` does with `known_peers` and a label. -/
def matchPin (env : Env) (require : Bool) (label : Str) (remoteStatic : Bytes) :
    Action Key T Bool := do
  let world ← get
  if world.knownPeers.isKnown label = true then do
    Imp.ofExcept (world.knownPeers.verify env.sha256 label remoteStatic)
    emitLog (debug "peer %s verified against existing pin" [.str label])
    return true
  else if require = false then do
    onKnownPeers (KnownPeers.pin label remoteStatic)
    emitLog (debug "peer %s trusted on first use (pinned)" [.str label])
    return false
  else
    return false

/-- The `known_peers` part of `_authenticate_peer`. -/
def matchKnownPeers (env : Env) (config : Config) (remoteStatic : Bytes) : Action Key T Bool :=
  match config.pinLabel with
  | some label => matchPin env config.require label remoteStatic
  | none => return false

/-- `_authenticate_peer(remote_static, …)`. -/
def authenticatePeer (env : Env) (config : Config) (remoteStatic : Bytes) : Action Key T Bool := do
  let byKey ← matchExpectedKey env config.expectedPeerKey remoteStatic
  let byPin ← matchKnownPeers env config remoteStatic
  return byKey || byPin

/-- The subject check of `_verify_certificate`. -/
def matchSubject (expectedSubject : Option ExpectedSubject) (subject : Str) :
    Except PyError Unit :=
  match expectedSubject with
  | some .anySubject => return ()
  | none => throw (.identityError ["expected_subject is required when trusted_issuer is set"])
  | some (.subject expected) => raiseIf (subject ≠ expected)
      (.identityError ["certificate subject ", .repr subject, " does not match ", .repr expected])

/-- The checks of `_verify_certificate`, with a trusted issuer. -/
def checkCertificate (env : Env) (config : Config) (clock : ℚ) (trustedIssuer : Bytes)
    (remoteStatic certBytes : Bytes) : Except PyError IdentityCertificate := do
  raiseIf (certBytes = []) (.identityError ["peer presented no identity certificate"])
  let cert ← IdentityCertificate.fromBytes env certBytes
  cert.verify env trustedIssuer clock none config.revocation
  raiseIf (constantTimeEqual cert.publicKey remoteStatic = false)
    (.identityError ["certificate key does not match the peer's Noise static key"])
  matchSubject config.expectedSubject cert.subject
  return cert

/-- `_verify_certificate(peer_cert_bytes, …)`. -/
def verifyCertificate (env : Env) (config : Config) (clock : ℚ) (remoteStatic certBytes : Bytes) :
    Action Key T Bool :=
  match config.trustedIssuer with
  | none => return false
  | some trustedIssuer => do
      let cert ← Imp.ofExcept
        (checkCertificate env config clock trustedIssuer remoteStatic certBytes)
      emitLog (debug "peer certificate verified (subject=%s)" [.str cert.subject])
      return true

/-- `_enforce_authentication(…)`. -/
def enforceAuthentication (require verifiedByKeyOrPin verifiedByCertificate : Bool) :
    Except PyError Unit :=
  raiseIf (require = true ∧ ¬(verifiedByKeyOrPin = true ∨ verifiedByCertificate = true))
    (.identityError ["refusing unauthenticated connection: provide trusted_issuer, ",
      "expected_peer_key, or a pre-pinned known_peers/peer_label"])

/-- The checks that `connect` and `_on_connection` both make on the peer, in
the same order and with the same arguments. -/
def authenticate (env : Env) (config : Config) (clock : ℚ) (peer : Peer Key) :
    Action Key T Unit := do
  Imp.ofExcept (enforceNotRevoked env peer.result.remoteStatic config.revocation)
  let verifiedPin ← authenticatePeer env config peer.result.remoteStatic
  let verifiedCert ←
    verifyCertificate env config clock peer.result.remoteStatic peer.certBytes
  Imp.ofExcept (enforceAuthentication config.require verifiedPin verifiedCert)

/-! ## `connect` and `serve` -/

/-- `SecureChannel(result, …)`. -/
def Peer.channel (peer : Peer Key) (replayWindow : ReplayWindow) (rekeyPolicy : RekeyPolicy T) :
    SecureChannel Key T :=
  SecureChannel.init peer.result replayWindow rekeyPolicy

def checkConnect (config : Config) (tls : Tls) : Except PyError Unit := do
  validateHandshakeTimeout config.handshakeTimeout
  requireSubjectWithIssuer config
  raiseIf (config.secure = true ∧ ¬(config.trustedIssuer.isSome = true ∨
      config.expectedPeerKey.isSome = true ∨ config.pinLabel.isSome = true))
    (.valueError ["secure=True requires an authenticator: trusted_issuer, ",
      "expected_peer_key, or known_peers + peer_label"])
  raiseIf (config.secure = true ∧ tls.sslContext = some .certNone)
    (.valueError ["secure=True requires a TLS context that verifies the server"])

/-- The `cert_pin` check of `connect`. -/
def checkCertPin (env : Env) (tls : Tls) : Except PyError Unit :=
  match tls.certPin with
  | none => return ()
  | some certPin => match tls.peerCertDer with
      | none => throw (.identityError ["cert pinning requested but connection is not TLS"])
      | some der => raiseIf (hex (env.sha256 der) ≠ certPin) (.identityError
          ["certificate pin mismatch: expected ", .str certPin, ", got ",
            .str (hex (env.sha256 der))])

/-- `connect(uri, …)`, from the moment the WebSocket is open.  `handshake` is
what `_drive_handshake_timed` returns or raises. -/
def connect (env : Env) (config : Config) (tls : Tls) (clock : ℚ)
    (handshake : Except PyError (Peer Key)) (replayWindow : ReplayWindow)
    (rekeyPolicy : RekeyPolicy T) : Action Key T (SecureChannel Key T) := do
  Imp.ofExcept (checkConnect config tls)
  tryCatch
    (do
      Imp.ofExcept (checkCertPin env tls)
      let peer ← Imp.ofExcept handshake
      authenticate env config clock peer
      return peer.channel replayWindow rekeyPolicy)
    fun exc => do
      closeWs none
      throw exc

def checkServe (config : Config) : Except PyError Unit := do
  validateHandshakeTimeout config.handshakeTimeout
  requireSubjectWithIssuer config

/-- `await handler(SecureConnection(ws, channel))`. -/
def callHandler (handler : SecureChannel Key T → Except PyError Unit)
    (channel : SecureChannel Key T) : Action Key T Unit := do
  modify fun world => { world with handled := world.handled ++ [channel] }
  Imp.ofExcept (handler channel)

/-- The `except` clauses of `_on_connection`. -/
def rejectClient (remoteAddress : Str) (exc : PyError) : Action Key T Unit :=
  if exc = .connectionClosed then
    emitLog (debug "client %s disconnected" [.str remoteAddress])
  else if exc.isSecureWebSocketError = true then do
    emitLog (warning "rejecting client %s: %s" [.str remoteAddress, exc.typeName])
    closeWs (some (1008, "handshake failed"))
  else
    throw exc

/-- The callback `_on_connection(ws)` of `serve`; the channel gets the default
window and policy. -/
def onConnection (env : Env) (config : Config) (remoteAddress : Str) (clock : ℚ)
    (handshake : Except PyError (Peer Key)) (replayWindow : ReplayWindow)
    (rekeyPolicy : RekeyPolicy T) (handler : SecureChannel Key T → Except PyError Unit) :
    Action Key T Unit :=
  tryCatch
    (do
      let peer ← Imp.ofExcept handshake
      authenticate env config clock peer
      callHandler handler (peer.channel replayWindow rekeyPolicy))
    (rejectClient remoteAddress)

/-- `serve(handler, …)`, and one connection that reaches it. -/
def serve (env : Env) (config : Config) (remoteAddress : Str) (clock : ℚ)
    (handshake : Except PyError (Peer Key)) (replayWindow : ReplayWindow)
    (rekeyPolicy : RekeyPolicy T) (handler : SecureChannel Key T → Except PyError Unit) :
    Action Key T Unit := do
  Imp.ofExcept (checkServe config)
  onConnection env config remoteAddress clock handshake replayWindow rekeyPolicy handler

/-! ## What the configuration demands -/

/-- A certificate that passes `_verify_certificate` under a trusted issuer. -/
structure GoodCertificate (env : Env) (config : Config) (clock : ℚ) (trustedIssuer : Bytes)
    (remoteStatic certBytes : Bytes) (cert : IdentityCertificate) : Prop where
  presented : certBytes ≠ []
  parses : IdentityCertificate.fromBytes env certBytes = .ok cert
  verified : cert.Verified env trustedIssuer clock config.revocation
  key_eq : cert.publicKey = remoteStatic
  subject_eq : config.expectedSubject = some .anySubject ∨
    config.expectedSubject = some (.subject cert.subject)

/-- The pin under the configured label, if there is one, is this key. -/
def AcceptsPin (config : Config) (store : KnownPeers) (remoteStatic : Bytes) : Prop :=
  ∀ label, config.pinLabel = some label →
    ∀ key, store.pinned label = some key → key = remoteStatic

/-- The demands on the peer's static key: it is not revoked, it is the expected
key if one is given, and the pinned key if there is one. -/
structure AcceptsKey (config : Config) (store : KnownPeers) (remoteStatic : Bytes) : Prop where
  not_revoked : ∀ list, config.revocation = some list → list.isRevokedKey remoteStatic = false
  expected : ∀ key, config.expectedPeerKey = some key → remoteStatic = key
  pinned : AcceptsPin config store remoteStatic

/-- The demand on the peer's certificate: with a trusted issuer, a good one. -/
def AcceptsCertificate (env : Env) (config : Config) (clock : ℚ) (remoteStatic certBytes : Bytes) :
    Prop :=
  ∀ trustedIssuer, config.trustedIssuer = some trustedIssuer →
    ∃ cert, GoodCertificate env config clock trustedIssuer remoteStatic certBytes cert

/-- There is a pin to compare with. -/
def HasPin (config : Config) (store : KnownPeers) : Prop :=
  ∃ label key, config.pinLabel = some label ∧ store.pinned label = some key

/-- What the configuration demands of a peer. -/
structure Admits (env : Env) (config : Config) (clock : ℚ) (store : KnownPeers)
    (peer : Peer Key) : Prop where
  key : AcceptsKey config store peer.result.remoteStatic
  certificate : AcceptsCertificate env config clock peer.result.remoteStatic peer.certBytes
  authenticated : config.require = true → config.expectedPeerKey.isSome = true ∨
    HasPin config store ∨ config.trustedIssuer.isSome = true

/-- The key is about to be pinned under the label, on first use. -/
structure FirstUse (config : Config) (store : KnownPeers) (label : Str) : Prop where
  label_eq : config.pinLabel = some label
  unpinned : store.pinned label = none
  optional : config.require = false

/-- The store after `_authenticate_peer` returned. -/
def storeAfter (config : Config) (store : KnownPeers) (remoteStatic : Bytes) : KnownPeers :=
  match config.pinLabel with
  | some label =>
      if store.isKnown label = false ∧ config.require = false then store.insert label remoteStatic
      else store
  | none => store

/-! ## The pure checks, evaluated -/

theorem enforceNotRevoked_eq_ok_iff {env : Env} {remoteStatic : Bytes}
    {revocation : Option RevocationList} {u : Unit} :
    enforceNotRevoked env remoteStatic revocation = .ok u ↔
      ∀ list, revocation = some list → list.isRevokedKey remoteStatic = false := by
  unfold enforceNotRevoked
  rw [raiseWith_eq_ok_iff, Bool.not_eq_true, Option.any_eq_false]

/-- An expected key of the wrong length matches no remote key. -/
theorem compareKeys_eq_ok_iff {env : Env} {remoteStatic expected : Bytes} {u : Unit}
    (h : remoteStatic.length = X25519_KEY_LEN) :
    compareKeys env remoteStatic expected = .ok u ↔ remoteStatic = expected := by
  unfold compareKeys
  simp only [bind_eq_ok_iff, validatePublicKey_eq_ok_iff, raiseWith_eq_ok_iff, exists_const,
    Bool.not_eq_false, constantTimeEqual_eq_true_iff]
  constructor
  · intro h
    obtain ⟨_, heq⟩ := h
    exact heq
  · intro heq
    exact ⟨heq ▸ h, heq⟩

theorem matchSubject_eq_ok_iff {expectedSubject : Option ExpectedSubject} {subject : Str}
    {u : Unit} :
    matchSubject expectedSubject subject = .ok u ↔
      expectedSubject = some .anySubject ∨ expectedSubject = some (.subject subject) := by
  cases expectedSubject with
  | none => simp [matchSubject]
  | some expected => cases expected with
    | anySubject => simp [matchSubject, pure, Except.pure]
    | subject s =>
        unfold matchSubject
        rw [raiseIf_eq_ok_iff]
        simp [eq_comm]

/-- `_verify_certificate` accepts just the good certificates. -/
theorem checkCertificate_eq_ok_iff {env : Env} {config : Config} {clock : ℚ}
    {trustedIssuer remoteStatic certBytes : Bytes} {cert : IdentityCertificate} :
    checkCertificate env config clock trustedIssuer remoteStatic certBytes = .ok cert ↔
      GoodCertificate env config clock trustedIssuer remoteStatic certBytes cert := by
  unfold checkCertificate
  simp only [bind_eq_ok_iff, raiseIf_eq_ok_iff, matchSubject_eq_ok_iff,
    IdentityCertificate.verify_eq_ok_iff, exists_const, Bool.not_eq_false,
    constantTimeEqual_eq_true_iff, Option.getD_none]
  constructor
  · intro h
    obtain ⟨hpresented, cert', hparses, hverified, hkey, hsubject, hcert⟩ := h
    obtain rfl := Except.ok.inj hcert
    exact ⟨hpresented, hparses, hverified, hkey, hsubject⟩
  · intro h
    exact ⟨h.presented, cert, h.parses, h.verified, h.key_eq, h.subject_eq, rfl⟩

theorem enforceAuthentication_eq_ok_iff {require byKeyOrPin byCertificate : Bool} {u : Unit} :
    enforceAuthentication require byKeyOrPin byCertificate = .ok u ↔
      (require = true → byKeyOrPin = true ∨ byCertificate = true) := by
  unfold enforceAuthentication
  rw [raiseIf_eq_ok_iff]
  grind

/-! ## The checks with an effect -/

section

variable (env : Env) (config : Config) (remoteStatic : Bytes) (world : World Key T)

/-- The expected key, compared: only the log moves. -/
theorem matchExpectedKey_cases (h : remoteStatic.length = X25519_KEY_LEN) :
    (∃ exc, (matchExpectedKey env config.expectedPeerKey remoteStatic).run world =
        (.error exc, world) ∧
      ¬∀ key, config.expectedPeerKey = some key → remoteStatic = key) ∨
    ∃ log, (matchExpectedKey env config.expectedPeerKey remoteStatic).run world =
        (.ok config.expectedPeerKey.isSome, { world with log := log }) ∧
      ∀ key, config.expectedPeerKey = some key → remoteStatic = key := by
  cases hkey : config.expectedPeerKey with
  | none => exact .inr ⟨world.log, rfl, fun _ hsome => nomatch hsome⟩
  | some expected =>
      unfold matchExpectedKey
      rw [Imp.run_bind, Imp.run_ofExcept]
      cases hcompare : compareKeys env remoteStatic expected with
      | error exc =>
          refine .inl ⟨exc, rfl, fun hall => ?_⟩
          rw [(compareKeys_eq_ok_iff (u := ()) h).mpr (hall expected rfl)] at hcompare
          contradiction
      | ok u =>
          refine .inr ⟨_, rfl, fun key hsome => ?_⟩
          rw [← Option.some.inj hsome]
          exact (compareKeys_eq_ok_iff h).mp hcompare

/-- The pin under a label, compared or made. -/
theorem matchPin_cases (h : remoteStatic.length = X25519_KEY_LEN) (label : Str) :
    (∃ exc key, (matchPin env config.require label remoteStatic).run world =
        (.error exc, world) ∧ world.knownPeers.pinned label = some key ∧ key ≠ remoteStatic) ∨
    (∃ log, (matchPin env config.require label remoteStatic).run world =
        (.ok true, { world with log := log }) ∧
      world.knownPeers.pinned label = some remoteStatic) ∨
    (∃ log, (matchPin env config.require label remoteStatic).run world =
        (.ok false, { world with
          knownPeers := world.knownPeers.insert label remoteStatic, log := log }) ∧
      world.knownPeers.pinned label = none ∧ config.require = false) ∨
    (matchPin env config.require label remoteStatic).run world = (.ok false, world) ∧
      world.knownPeers.pinned label = none ∧ config.require = true := by
  unfold matchPin
  rw [Imp.run_bind_of_ok (Imp.run_get world)]
  by_cases hknown : world.knownPeers.isKnown label = true
  · rw [if_pos hknown, Imp.run_bind, Imp.run_ofExcept]
    obtain ⟨key, hkey⟩ := KnownPeers.isKnown_iff.mp hknown
    cases hverify : world.knownPeers.verify env.sha256 label remoteStatic with
    | error exc =>
        refine .inl ⟨exc, key, rfl, hkey, fun heq => ?_⟩
        rw [heq] at hkey
        rw [(KnownPeers.verify_eq_ok_iff (u := ()) h).mpr hkey] at hverify
        contradiction
    | ok u => exact .inr (.inl ⟨_, rfl, (KnownPeers.verify_eq_ok_iff h).mp hverify⟩)
  · rw [if_neg hknown]
    have hnone := KnownPeers.isKnown_eq_false_iff.mp (Bool.not_eq_true _ ▸ hknown)
    by_cases hrequire : config.require = false
    · rw [if_pos hrequire]
      have hpin : (onKnownPeers (KnownPeers.pin label remoteStatic)).run world = (.ok (),
          { world with knownPeers := world.knownPeers.insert label remoteStatic }) := by
        unfold onKnownPeers
        rw [Imp.run_onField, KnownPeers.run_pin h]
      rw [Imp.run_bind_of_ok hpin]
      exact .inr (.inr (.inl ⟨_, rfl, hnone, hrequire⟩))
    · rw [if_neg hrequire]
      exact .inr (.inr (.inr ⟨rfl, hnone, Bool.not_eq_false _ ▸ hrequire⟩))

/-- The known peers, consulted. -/
theorem matchKnownPeers_cases (h : remoteStatic.length = X25519_KEY_LEN) :
    (∃ exc, (matchKnownPeers env config remoteStatic).run world = (.error exc, world) ∧
      ¬AcceptsPin config world.knownPeers remoteStatic) ∨
    ∃ verified log, (matchKnownPeers env config remoteStatic).run world =
        (.ok verified, { world with
          knownPeers := storeAfter config world.knownPeers remoteStatic, log := log }) ∧
      AcceptsPin config world.knownPeers remoteStatic ∧
      (verified = true ↔ HasPin config world.knownPeers) := by
  unfold matchKnownPeers AcceptsPin HasPin storeAfter
  cases config.pinLabel with
  | none => exact .inr ⟨false, world.log, rfl, by simp, by simp⟩
  | some label =>
      simp only [Option.some.injEq, KnownPeers.isKnown_eq_false_iff]
      obtain ⟨exc, key, hrun, hkey, hne⟩ | ⟨log, hrun, hkey⟩ | ⟨log, hrun, hnone, hopt⟩ |
        ⟨hrun, hnone, hreq⟩ := matchPin_cases env config remoteStatic world h label
      · exact .inl ⟨exc, hrun, fun hall => hne (hall label rfl key hkey)⟩
      · refine .inr ⟨true, log, ?_, ?_, ?_⟩
        · simpa [hkey] using hrun
        · simp [hkey]
        · simp [hkey]
      · refine .inr ⟨false, log, ?_, ?_, ?_⟩
        · simpa [hnone, hopt] using hrun
        · simp [hnone]
        · simp [hnone]
      · refine .inr ⟨false, world.log, ?_, ?_, ?_⟩
        · simpa [hreq] using hrun
        · simp [hnone]
        · simp [hnone]

/-- What `_authenticate_peer` can do, on a key that is not revoked. -/
inductive AuthenticatePeerOutcome : Except PyError Bool × World Key T → Prop
  | refused (exc : PyError) (log : List LogRecord)
      (h : ¬AcceptsKey config world.knownPeers remoteStatic) :
      AuthenticatePeerOutcome (.error exc, { world with log := log })
  | returned (verified : Bool) (log : List LogRecord)
      (h : AcceptsKey config world.knownPeers remoteStatic)
      (hverified : verified = true ↔
        config.expectedPeerKey.isSome = true ∨ HasPin config world.knownPeers) :
      AuthenticatePeerOutcome (.ok verified, { world with
        knownPeers := storeAfter config world.knownPeers remoteStatic, log := log })

/-- The specification of `_authenticate_peer`. -/
theorem authenticatePeer_outcome (h : remoteStatic.length = X25519_KEY_LEN)
    (hrev : ∀ list, config.revocation = some list → list.isRevokedKey remoteStatic = false) :
    AuthenticatePeerOutcome config remoteStatic world
      ((authenticatePeer env config remoteStatic).run world) := by
  unfold authenticatePeer
  obtain ⟨exc, hrun, hkey⟩ | ⟨log, hrun, hkey⟩ :=
    matchExpectedKey_cases env config remoteStatic world h
  · rw [Imp.run_bind_of_error hrun]
    exact .refused exc world.log fun haccepts => hkey haccepts.expected
  · rw [Imp.run_bind_of_ok hrun]
    obtain ⟨exc, hrun', hpin⟩ | ⟨verified, log', hrun', hpin, hverified⟩ :=
      matchKnownPeers_cases env config remoteStatic { world with log := log } h
    · rw [Imp.run_bind_of_error hrun']
      exact .refused exc log fun haccepts => hpin haccepts.pinned
    · rw [Imp.run_bind_of_ok hrun']
      refine .returned _ log' ⟨hrev, hkey, hpin⟩ ?_
      rw [Bool.or_eq_true, hverified]

/-- The certificate, checked: only the log moves. -/
theorem verifyCertificate_cases (clock : ℚ) (certBytes : Bytes) :
    (∃ exc, (verifyCertificate env config clock remoteStatic certBytes).run world =
        (.error exc, world) ∧ ¬AcceptsCertificate env config clock remoteStatic certBytes) ∨
    ∃ log, (verifyCertificate env config clock remoteStatic certBytes).run world =
        (.ok config.trustedIssuer.isSome, { world with log := log }) ∧
      AcceptsCertificate env config clock remoteStatic certBytes := by
  unfold verifyCertificate AcceptsCertificate
  cases config.trustedIssuer with
  | none => exact .inr ⟨world.log, rfl, fun _ hsome => nomatch hsome⟩
  | some trustedIssuer =>
      simp only [Option.some.injEq, forall_eq']
      rw [Imp.run_bind, Imp.run_ofExcept]
      cases hcheck : checkCertificate env config clock trustedIssuer remoteStatic certBytes with
      | error exc =>
          refine .inl ⟨exc, rfl, fun ⟨cert, hcert⟩ => ?_⟩
          rw [checkCertificate_eq_ok_iff.mpr hcert] at hcheck
          contradiction
      | ok cert => exact .inr ⟨_, rfl, cert, checkCertificate_eq_ok_iff.mp hcheck⟩

end

theorem storeAfter_of_firstUse {config : Config} {store : KnownPeers} {label : Str}
    (h : FirstUse config store label) (remoteStatic : Bytes) :
    storeAfter config store remoteStatic = store.insert label remoteStatic := by
  unfold storeAfter
  rw [h.label_eq]
  exact if_pos ⟨KnownPeers.isKnown_eq_false_iff.mpr h.unpinned, h.optional⟩

theorem storeAfter_of_not_firstUse {config : Config} {store : KnownPeers}
    (h : ∀ label, ¬FirstUse config store label) (remoteStatic : Bytes) :
    storeAfter config store remoteStatic = store := by
  unfold storeAfter
  cases hlabel : config.pinLabel with
  | none => rfl
  | some label =>
      refine if_neg fun ⟨hunpinned, hoptional⟩ => h label ?_
      exact ⟨hlabel, KnownPeers.isKnown_eq_false_iff.mp hunpinned, hoptional⟩

/-- What the checks can do: refuse the key, the certificate, or a peer that
nothing verified, or let the peer through.  A refused certificate comes after
the pin. -/
inductive AuthenticateOutcome (env : Env) (config : Config) (clock : ℚ) (peer : Peer Key)
    (world : World Key T) : Except PyError Unit × World Key T → Prop
  | keyRefused (exc : PyError) (log : List LogRecord)
      (h : ¬AcceptsKey config world.knownPeers peer.result.remoteStatic) :
      AuthenticateOutcome env config clock peer world (.error exc, { world with log := log })
  | certificateRefused (exc : PyError) (log : List LogRecord)
      (hkey : AcceptsKey config world.knownPeers peer.result.remoteStatic)
      (h : ¬AcceptsCertificate env config clock peer.result.remoteStatic peer.certBytes) :
      AuthenticateOutcome env config clock peer world (.error exc, { world with
        knownPeers := storeAfter config world.knownPeers peer.result.remoteStatic, log := log })
  | unverified (exc : PyError) (log : List LogRecord)
      (hcert : AcceptsCertificate env config clock peer.result.remoteStatic peer.certBytes)
      (hrequire : config.require = true)
      (h : ¬Admits env config clock world.knownPeers peer) :
      AuthenticateOutcome env config clock peer world (.error exc, { world with log := log })
  | admitted (log : List LogRecord) (h : Admits env config clock world.knownPeers peer) :
      AuthenticateOutcome env config clock peer world (.ok (), { world with
        knownPeers := storeAfter config world.knownPeers peer.result.remoteStatic, log := log })

/-- The specification of the checks. -/
theorem authenticate_outcome (env : Env) (config : Config) (clock : ℚ) (peer : Peer Key)
    (world : World Key T) :
    AuthenticateOutcome env config clock peer world
      ((authenticate env config clock peer).run world) := by
  unfold authenticate
  rw [Imp.run_bind, Imp.run_ofExcept]
  cases hrev : enforceNotRevoked env peer.result.remoteStatic config.revocation with
  | error exc =>
      refine .keyRefused exc world.log fun h => ?_
      rw [enforceNotRevoked_eq_ok_iff (u := ()) |>.mpr h.not_revoked] at hrev
      contradiction
  | ok u =>
      show AuthenticateOutcome env config clock peer world (Imp.run (_ >>= _) world)
      rw [Imp.run_bind]
      have hout := authenticatePeer_outcome env config peer.result.remoteStatic world
        peer.remoteStatic_length (enforceNotRevoked_eq_ok_iff.mp hrev)
      generalize (authenticatePeer env config peer.result.remoteStatic).run world = r at hout
      cases hout with
      | refused exc log h => exact .keyRefused exc log h
      | returned verified log hkey hverified =>
          show AuthenticateOutcome env config clock peer world (Imp.run (_ >>= _) _)
          obtain ⟨exc, hrun, hcert⟩ | ⟨log', hrun, hcert⟩ := verifyCertificate_cases env config
            peer.result.remoteStatic { world with
              knownPeers := storeAfter config world.knownPeers peer.result.remoteStatic
              log := log } clock peer.certBytes
          · rw [Imp.run_bind_of_error hrun]
            exact .certificateRefused exc log hkey hcert
          · rw [Imp.run_bind_of_ok hrun, Imp.run_ofExcept]
            have hverdict : (config.require = true → config.expectedPeerKey.isSome = true ∨
                HasPin config world.knownPeers ∨ config.trustedIssuer.isSome = true) ↔
                enforceAuthentication config.require verified config.trustedIssuer.isSome =
                  .ok () := by
              rw [enforceAuthentication_eq_ok_iff, hverified, or_assoc]
            cases henforce : enforceAuthentication config.require verified
                config.trustedIssuer.isSome with
            | error exc =>
                rw [henforce] at hverdict
                have hrequire : config.require = true := by
                  by_contra hoptional
                  exact nomatch hverdict.mp fun hrequire => absurd hrequire hoptional
                have hnot : ∀ label, ¬FirstUse config world.knownPeers label := by
                  intro label huse
                  simp [huse.optional] at hrequire
                rw [storeAfter_of_not_firstUse hnot]
                exact .unverified exc log' hcert hrequire fun h =>
                  nomatch hverdict.mp h.authenticated
            | ok u =>
                rw [henforce] at hverdict
                exact .admitted log' ⟨hkey, hcert, hverdict.mpr rfl⟩

/-- The checks call no handler. -/
theorem authenticate_keeps_handled (env : Env) (config : Config) (clock : ℚ) (peer : Peer Key)
    (world : World Key T) :
    ((authenticate env config clock peer).run world).2.handled = world.handled := by
  have hout := authenticate_outcome env config clock peer world
  generalize (authenticate env config clock peer).run world = r at hout
  cases hout with
  | keyRefused => rfl
  | certificateRefused => rfl
  | unverified => rfl
  | admitted => rfl

/-- The checks let through just the peers that the configuration admits. -/
theorem authenticate_eq_ok_iff {env : Env} {config : Config} {clock : ℚ} {peer : Peer Key}
    {world : World Key T} :
    ((authenticate env config clock peer).run world).1 = .ok () ↔
      Admits env config clock world.knownPeers peer := by
  have hout := authenticate_outcome env config clock peer world
  generalize (authenticate env config clock peer).run world = r at hout
  cases hout with
  | keyRefused exc log h => simpa using fun hadmits : Admits .. => h hadmits.key
  | certificateRefused exc log hkey h => simpa using fun hadmits : Admits .. => h hadmits.certificate
  | unverified exc log hcert hrequire h => simpa using h
  | admitted log h => simpa using h

/-! ## The gate -/

section

variable {env : Env} {config : Config} {tls : Tls} {clock : ℚ} {peer : Peer Key}
  {world : World Key T} (remoteAddress : Str) (replayWindow : ReplayWindow)
  (rekeyPolicy : RekeyPolicy T) (handler : SecureChannel Key T → Except PyError Unit)

/-- `connect` after its other checks: the verdict of `authenticate`, and the
WebSocket is closed on a refusal. -/
theorem run_connect (hargs : checkConnect config tls = .ok ())
    (hpin : checkCertPin env tls = .ok ()) :
    (connect env config tls clock (.ok peer) replayWindow rekeyPolicy).run world =
      match (authenticate env config clock peer).run world with
      | (.ok (), world') => (.ok (peer.channel replayWindow rekeyPolicy), world')
      | (.error exc, world') =>
          (.error exc, { world' with closes := world'.closes ++ [none] }) := by
  unfold connect
  rw [hargs, hpin, Imp.run_ofExcept_ok_bind, Imp.run_tryCatch, Imp.run_ofExcept_ok_bind,
    Imp.run_ofExcept_ok_bind, Imp.run_bind]
  generalize (authenticate env config clock peer).run world = r
  obtain ⟨result, world'⟩ := r
  cases result with
  | ok u => rfl
  | error exc => rfl

/-- The `except` clauses only write to the log and close the WebSocket. -/
theorem run_rejectClient (exc : PyError) (world : World Key T) :
    ∃ result closes log, (rejectClient remoteAddress exc).run world =
      (result, { world with closes := closes, log := log }) := by
  unfold rejectClient
  by_cases hclosed : exc = .connectionClosed
  · rw [if_pos hclosed]
    exact ⟨_, world.closes, _, rfl⟩
  · by_cases hsecure : exc.isSecureWebSocketError = true
    · rw [if_neg hclosed, if_pos hsecure]
      exact ⟨_, _, _, rfl⟩
    · rw [if_neg hclosed, if_neg hsecure]
      exact ⟨_, world.closes, world.log, rfl⟩

/-- `_on_connection` on a peer that the checks refuse calls no handler. -/
theorem run_onConnection_of_error {exc : PyError} {world' : World Key T}
    (h : (authenticate env config clock peer).run world = (.error exc, world')) :
    ∃ result closes log, (onConnection env config remoteAddress clock (.ok peer) replayWindow
      rekeyPolicy handler).run world =
        (result, { world' with closes := closes, log := log }) := by
  unfold onConnection
  rw [Imp.run_tryCatch, Imp.run_ofExcept_ok_bind, Imp.run_bind_of_error h]
  exact run_rejectClient remoteAddress exc world'

/-- `_on_connection` on a peer that the checks let through calls the handler. -/
theorem run_onConnection_of_ok {world' : World Key T}
    (h : (authenticate env config clock peer).run world = (.ok (), world')) :
    ∃ result closes log, (onConnection env config remoteAddress clock (.ok peer) replayWindow
      rekeyPolicy handler).run world = (result, { world' with
        handled := world'.handled ++ [peer.channel replayWindow rekeyPolicy]
        closes := closes, log := log }) := by
  unfold onConnection
  have hcall : (callHandler handler (peer.channel replayWindow rekeyPolicy)).run world' =
      (handler (peer.channel replayWindow rekeyPolicy), { world' with
        handled := world'.handled ++ [peer.channel replayWindow rekeyPolicy] }) := by
    unfold callHandler
    rw [Imp.run_bind_of_ok (Imp.run_modify _ world'), Imp.run_ofExcept]
  rw [Imp.run_tryCatch, Imp.run_ofExcept_ok_bind, Imp.run_bind_of_ok h, hcall]
  cases handler (peer.channel replayWindow rekeyPolicy) with
  | ok u => exact ⟨.ok (), world'.closes, world'.log, rfl⟩
  | error exc => exact run_rejectClient remoteAddress exc _

theorem connect_ok_iff (hargs : checkConnect config tls = .ok ())
    (hpin : checkCertPin env tls = .ok ()) :
    (∃ channel, ((connect env config tls clock (.ok peer) replayWindow rekeyPolicy).run world).1 =
      .ok channel) ↔ Admits env config clock world.knownPeers peer := by
  rw [run_connect replayWindow rekeyPolicy hargs hpin, ← authenticate_eq_ok_iff]
  generalize (authenticate env config clock peer).run world = r
  obtain ⟨result, world'⟩ := r
  cases result with
  | ok u => simp
  | error exc => simp

theorem serve_handled_iff (hargs : checkServe config = .ok ()) :
    (∃ channel, ((serve env config remoteAddress clock (.ok peer) replayWindow rekeyPolicy
        handler).run world).2.handled = world.handled ++ [channel]) ↔
      Admits env config clock world.knownPeers peer := by
  have hhandled := authenticate_keeps_handled env config clock peer world
  unfold serve
  rw [hargs, Imp.run_ofExcept_ok_bind, ← authenticate_eq_ok_iff]
  cases hrun : (authenticate env config clock peer).run world with
  | mk result world' =>
      rw [hrun] at hhandled
      cases result with
      | ok u =>
          obtain ⟨result, closes, log, hcall⟩ :=
            run_onConnection_of_ok remoteAddress replayWindow rekeyPolicy handler hrun
          rw [hcall]
          exact iff_of_true ⟨_, congrArg (· ++ [_]) hhandled⟩ rfl
      | error exc =>
          obtain ⟨result, closes, log, hcall⟩ :=
            run_onConnection_of_error remoteAddress replayWindow rekeyPolicy handler hrun
          rw [hcall]
          refine iff_of_false ?_ nofun
          intro h
          obtain ⟨channel, hgrown⟩ := h
          have hlen := congrArg List.length (hhandled.symm.trans hgrown)
          simp at hlen

/-- **The gate admits exactly what the configuration demands**, on the client
path and on the server path. -/
theorem gate_admits_exactly (env : Env) (config : Config) (tls : Tls) (remoteAddress : Str)
    (clock : ℚ) (peer : Peer Key) (replayWindow : ReplayWindow) (rekeyPolicy : RekeyPolicy T)
    (handler : SecureChannel Key T → Except PyError Unit) (world : World Key T) :
    (checkConnect config tls = .ok () → checkCertPin env tls = .ok () →
      ((∃ channel, ((connect env config tls clock (.ok peer) replayWindow rekeyPolicy).run
          world).1 = .ok channel) ↔ Admits env config clock world.knownPeers peer)) ∧
    (checkServe config = .ok () →
      ((∃ channel, ((serve env config remoteAddress clock (.ok peer) replayWindow rekeyPolicy
          handler).run world).2.handled = world.handled ++ [channel]) ↔
        Admits env config clock world.knownPeers peer)) :=
  ⟨connect_ok_iff replayWindow rekeyPolicy,
    serve_handled_iff remoteAddress replayWindow rekeyPolicy handler⟩

end

def exampleCertificate : Json := .dict
  [(Str.ofString "v", .int 1), (Str.ofString "sub", .str (Str.ofString "alice")),
    (Str.ofString "key", .str (hex (List.replicate 32 5))), (Str.ofString "exp", .int 2000),
    (Str.ofString "iss", .str (hex (List.replicate 32 7))),
    (Str.ofString "sig", .str (hex (List.replicate 64 0)))]

def examplePeer (certBytes : Bytes) : Peer Nat where
  result := ⟨true, [], List.replicate 32 5, List.replicate 32 6, .fresh 0, .fresh 1⟩
  certBytes := certBytes
  remoteStatic_length := rfl

/-- An expected key, a pin, a trusted issuer and a revocation list at once: a
peer that meets them all is let through on both paths. -/
theorem gate_admits_exactly_alice :
    let env := exampleEnv (fun _ => .ok exampleCertificate) (SignatureScheme.stamp 64)
    let config : Config := ⟨true, some (Str.ofString "alice"), some (List.replicate 32 5), false,
      some (List.replicate 32 7), some (.subject (Str.ofString "alice")),
      some ⟨{List.replicate 32 9}, {Str.ofString "bob"}⟩, true, some 10⟩
    let tls : Tls := ⟨some .certRequired, none, none⟩
    let window : ReplayWindow := ⟨1, 1, -1, 0, by decide, rfl⟩
    let policy : RekeyPolicy ℤ := ⟨1, 900, fun _ => 0, 1, 0, 0, by decide, by decide⟩
    let world : World Nat ℤ :=
      ⟨KnownPeers.empty.insert (Str.ofString "alice") (List.replicate 32 5), [], [], []⟩
    (∃ channel, ((connect env config tls 1500 (.ok (examplePeer [0])) window policy).run
      world).1 = .ok channel) ∧
    ∃ channel, ((serve env config [] 1500 (.ok (examplePeer [0])) window policy
      fun _ => .ok ()).run world).2.handled = world.handled ++ [channel] := by
  intro env config tls window policy world
  have hadmits : Admits env config 1500 world.knownPeers (examplePeer [0]) :=
    authenticate_eq_ok_iff.mp (by decide +kernel)
  have hgate := gate_admits_exactly env config tls [] 1500 (examplePeer [0]) window policy
    (fun _ => .ok ()) world
  exact ⟨(hgate.1 (by decide +kernel) (by decide +kernel)).mpr hadmits,
    (hgate.2 (by decide +kernel)).mpr hadmits⟩

end SecureWs
