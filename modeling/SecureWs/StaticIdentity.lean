import SecureWs.Noise
import SecureWs.Transport

/-!
# SecureWs.StaticIdentity

The static identity of `identity.py`, its wipeable key of `crypto.py`, and who
uses it: calls of `connect`, servers, and whoever wipes it.

* `connect` reads the private key when its WebSocket is open, and a server
  reads it again for each connection that it accepts, so that a wipe may fall
  in between;
* `handshake_key`: a handshake runs on the identity's own key as long as
  nothing has wiped it, and on 32 zero bytes from then on;
* `SameButKeys.run`: a wipe refuses nothing.
-/

namespace SecureWs

open Python

/-! ## The key -/

/-- `secure_zero(buffer)`. -/
def secureZero (buffer : Bytes) : Bytes :=
  (List.range buffer.length).foldl (fun buffer i => buffer.set i 0) buffer

/-- A `SecretBytes`. -/
structure SecretBytes where
  buf : Bytes
  deriving DecidableEq, Repr

/-- `secret.wipe()`. -/
def SecretBytes.wipe (self : SecretBytes) : SecretBytes := ⟨secureZero self.buf⟩

/-- A `StaticIdentity`. -/
structure StaticIdentity where
  secret : SecretBytes
  publicKey : Bytes
  deriving DecidableEq, Repr

namespace StaticIdentity

/-- `StaticIdentity(private=…, public=…)`. -/
def new (privateKey publicKey : Bytes) : StaticIdentity := ⟨⟨privateKey⟩, publicKey⟩

def privateKey (self : StaticIdentity) : Bytes := self.secret.buf

/-- `identity.wipe()`. -/
def wipe (self : StaticIdentity) : StaticIdentity := { self with secret := self.secret.wipe }

/-- `StaticIdentity.generate()`, of the key that is drawn. -/
def generate (x25519 : Bytes → Bytes) (drawn : Bytes) : StaticIdentity := new drawn (x25519 drawn)

/-- `StaticIdentity.from_private(private)`. -/
def fromPrivate (x25519 : Bytes → Bytes) (privateKey : Bytes) : Except PyError StaticIdentity := do
  raiseIf (privateKey.length ≠ X25519_KEY_LEN) (.valueError
    ["X25519 private key must be ", .int X25519_KEY_LEN, " bytes, got ", .int privateKey.length])
  return new privateKey (x25519 privateKey)

/-- An identity that the program can have made. -/
def Obtained (x25519 : Bytes → Bytes) (identity : StaticIdentity) : Prop :=
  (∃ drawn, drawn.length = X25519_KEY_LEN ∧ identity = generate x25519 drawn) ∨
    ∃ privateKey, fromPrivate x25519 privateKey = .ok identity

end StaticIdentity

/-- The loop of `secure_zero` leaves nothing but zeros. -/
theorem secureZero_eq (buffer : Bytes) : secureZero buffer = List.replicate buffer.length 0 := by
  have hloop : ∀ n ≤ buffer.length,
      (List.range n).foldl (fun buffer i => buffer.set i 0) buffer =
        List.replicate n 0 ++ buffer.drop n := by
    intro n hn
    induction n with
    | zero => simp
    | succ n ih =>
        rw [List.range_succ, List.foldl_append, ih (by omega)]
        show (List.replicate n 0 ++ buffer.drop n).set n 0 = _
        rw [List.set_append_right _ _ (by simp), List.length_replicate, Nat.sub_self,
          List.drop_eq_getElem_cons hn, List.set_cons_zero, List.replicate_succ']
        simp
  rw [secureZero, hloop _ le_rfl, List.drop_length, List.append_nil]

namespace StaticIdentity

variable {x25519 : Bytes → Bytes} {identity : StaticIdentity}

/-- An identity holds a key of the right length, and its public key. -/
theorem Obtained.key (h : Obtained x25519 identity) :
    identity.privateKey.length = X25519_KEY_LEN ∧ identity.publicKey = x25519 identity.privateKey := by
  obtain ⟨drawn, hlen, rfl⟩ | ⟨privateKey, hnew⟩ := h
  · exact ⟨hlen, rfl⟩
  · unfold fromPrivate at hnew
    rw [raiseIf_bind_except] at hnew
    split_ifs at hnew with hlen
    obtain rfl := Except.ok.inj hnew
    exact ⟨not_not.mp hlen, rfl⟩

end StaticIdentity

/-! ## Using it -/

variable {Conn Key : Type}

/-- A handshake that was started, and the private key it was given. -/
structure Started (Conn : Type) where
  initiator : Bool
  staticPrivate : Bytes
  hs : NoiseXXHandshake Conn

/-- An identity in use: the calls of `connect` that wait for their WebSocket,
the servers, the handshakes started so far and the exceptions raised. -/
structure IdentityUse (Conn : Type) where
  identity : StaticIdentity
  connecting : List Tls
  serving : List Config
  started : List (Started Conn)
  raised : List PyError

namespace IdentityUse

/-- What happens: the identity is wiped, or its context manager is left;
`connect` is called, and later its WebSocket is open; `serve` is called, and
later the server accepts a connection. -/
inductive Event where
  | wipe
  | exit
  | connect (config : Config) (tls : Tls)
  | connected (i : Nat) (entropy : Bytes)
  | serve (config : Config)
  | accept (i : Nat) (entropy : Bytes)

/-- An identity that has not been used. -/
def init (identity : StaticIdentity) : IdentityUse Conn := ⟨identity, [], [], [], []⟩

/-- `NoiseXXHandshake(initiator=…, static_private=identity.private,
prologue=build_prologue())`. -/
def startHandshake (lib : NoiseLibrary Conn Key) (initiator : Bool) (entropy : Bytes)
    (s : IdentityUse Conn) : IdentityUse Conn :=
  match NoiseXXHandshake.new lib initiator s.identity.privateKey buildPrologue entropy with
  | .ok hs => { s with started := s.started ++ [⟨initiator, s.identity.privateKey, hs⟩] }
  | .error exc => { s with raised := s.raised ++ [exc] }

/-- `connect`, from the moment the WebSocket is open to the handshake. -/
def connected (lib : NoiseLibrary Conn Key) (env : Env) (tls : Tls) (entropy : Bytes)
    (s : IdentityUse Conn) : IdentityUse Conn :=
  match checkCertPin env tls with
  | .ok _ => startHandshake lib true entropy s
  | .error exc => { s with raised := s.raised ++ [exc] }

def step (lib : NoiseLibrary Conn Key) (env : Env) (s : IdentityUse Conn) :
    Event → IdentityUse Conn
  | .wipe => { s with identity := s.identity.wipe }
  | .exit => { s with identity := s.identity.wipe }
  | .connect config tls => match checkConnect config tls with
      | .ok _ => { s with connecting := s.connecting ++ [tls] }
      | .error exc => { s with raised := s.raised ++ [exc] }
  | .connected i entropy => match s.connecting[i]? with
      | some tls => connected lib env tls entropy { s with connecting := s.connecting.eraseIdx i }
      | none => s
  | .serve config => match checkServe config with
      | .ok _ => { s with serving := s.serving ++ [config] }
      | .error exc => { s with raised := s.raised ++ [exc] }
  | .accept i entropy => match s.serving[i]? with
      | some _ => startHandshake lib false entropy s
      | none => s

def run (lib : NoiseLibrary Conn Key) (env : Env) (identity : StaticIdentity)
    (events : List Event) : IdentityUse Conn :=
  events.foldl (step lib env) (init identity)

/-- Whether the event wipes the identity. -/
def Event.wipes : Event → Bool
  | wipe | exit => true
  | _ => false

def wiped (events : List Event) : Bool := events.any Event.wipes

/-! ## The key of a handshake -/

variable {lib : NoiseLibrary Conn Key} {env : Env} {identity : StaticIdentity}

/-- The identity itself, once it may have been wiped. -/
def identityAfter (identity : StaticIdentity) (events : List Event) : StaticIdentity :=
  if wiped events = true then identity.wipe else identity

/-- Starting a handshake never fails for a key of the right length. -/
theorem startHandshake_eq {s : IdentityUse Conn} (h : s.identity.privateKey.length = X25519_KEY_LEN)
    (initiator : Bool) (entropy : Bytes) : startHandshake lib initiator entropy s =
      { s with started := s.started ++ [⟨initiator, s.identity.privateKey,
          ⟨lib.startHandshake initiator s.identity.privateKey buildPrologue entropy, initiator,
            lib.publicKey s.identity.privateKey, none, 0⟩⟩] } := by
  unfold startHandshake NoiseXXHandshake.new
  rw [raiseIf_bind_except, if_neg (not_not.mpr h)]
  rfl

theorem length_wipe (identity : StaticIdentity) :
    identity.wipe.privateKey.length = identity.privateKey.length := by
  show (secureZero identity.secret.buf).length = _
  rw [secureZero_eq, List.length_replicate]
  rfl

/-- One step: only a wipe changes the identity, and a handshake is started on
the key that the identity has. -/
theorem step_spec (lib : NoiseLibrary Conn Key) (env : Env) {s : IdentityUse Conn}
    (h : s.identity.privateKey.length = X25519_KEY_LEN) (event : Event) :
    (step lib env s event).identity =
        (if event.wipes = true then s.identity.wipe else s.identity) ∧
      ∃ new, (step lib env s event).started = s.started ++ new ∧
        ∀ st ∈ new, st.staticPrivate = s.identity.privateKey := by
  have hnone : ∃ new, s.started = s.started ++ new ∧
      ∀ st ∈ new, st.staticPrivate = s.identity.privateKey := ⟨[], by simp, by simp⟩
  cases event with
  | wipe => exact ⟨rfl, hnone⟩
  | exit => exact ⟨rfl, hnone⟩
  | connect config tls =>
      simp only [step]
      cases checkConnect config tls with
      | ok u => exact ⟨rfl, hnone⟩
      | error exc => exact ⟨rfl, hnone⟩
  | connected i entropy =>
      simp only [step]
      cases s.connecting[i]? with
      | none => exact ⟨rfl, hnone⟩
      | some tls =>
          simp only [connected]
          cases checkCertPin env tls with
          | error exc => exact ⟨rfl, hnone⟩
          | ok u =>
              simp only [startHandshake_eq (s := { s with connecting := s.connecting.eraseIdx i }) h]
              exact ⟨rfl, _, rfl, by simp⟩
  | serve config =>
      simp only [step]
      cases checkServe config with
      | ok u => exact ⟨rfl, hnone⟩
      | error exc => exact ⟨rfl, hnone⟩
  | accept i entropy =>
      simp only [step]
      cases s.serving[i]? with
      | none => exact ⟨rfl, hnone⟩
      | some config =>
          simp only [startHandshake_eq h]
          exact ⟨rfl, _, rfl, by simp⟩

/-- Wiping twice is wiping once. -/
theorem wipe_identityAfter (identity : StaticIdentity) (events : List Event) :
    (identityAfter identity events).wipe = identity.wipe := by
  unfold identityAfter
  split
  · simp [StaticIdentity.wipe, SecretBytes.wipe, secureZero_eq]
  · rfl

/-- After a run, the identity is the one it was, or wiped. -/
theorem identity_run (lib : NoiseLibrary Conn Key) (env : Env)
    (h : identity.privateKey.length = X25519_KEY_LEN) (events : List Event) :
    (run lib env identity events).identity = identityAfter identity events := by
  induction events using List.reverseRecOn with
  | nil => rfl
  | append_singleton events event ih =>
      have hlen : (identityAfter identity events).privateKey.length = X25519_KEY_LEN := by
        unfold identityAfter
        split
        · rw [length_wipe, h]
        · exact h
      rw [← ih] at hlen
      have hspec := (step_spec lib env hlen event).1
      rw [run, List.foldl_append]
      show (step lib env (run lib env identity events) event).identity = _
      rw [hspec, ih]
      cases hevent : event.wipes with
      | true =>
          rw [if_pos rfl, wipe_identityAfter]
          simp [identityAfter, wiped, hevent]
      | false => simp [identityAfter, wiped, hevent]

/-! ## What a wipe changes -/

/-- Two uses that differ in the keys at most. -/
structure SameButKeys (s s' : IdentityUse Conn) : Prop where
  length_eq : s.identity.privateKey.length = X25519_KEY_LEN
  length_eq' : s'.identity.privateKey.length = X25519_KEY_LEN
  connecting_eq : s.connecting = s'.connecting
  serving_eq : s.serving = s'.serving
  initiators_eq : s.started.map Started.initiator = s'.started.map Started.initiator
  raised_eq : s.raised = s'.raised

/-- A handshake is started whatever the key. -/
theorem SameButKeys.startHandshake {s s' : IdentityUse Conn} (h : SameButKeys s s')
    (initiator : Bool) (entropy : Bytes) : SameButKeys
      (startHandshake lib initiator entropy s) (IdentityUse.startHandshake lib initiator entropy s') := by
  rw [startHandshake_eq h.length_eq, startHandshake_eq h.length_eq']
  exact { h with initiators_eq := by simp [h.initiators_eq] }

/-- A step keeps two uses the same but for the keys. -/
theorem SameButKeys.step {s s' : IdentityUse Conn} (h : SameButKeys s s') (event : Event) :
    SameButKeys (step lib env s event) (IdentityUse.step lib env s' event) := by
  have hraise : ∀ exc : PyError, SameButKeys { s with raised := s.raised ++ [exc] }
      { s' with raised := s'.raised ++ [exc] } :=
    fun exc => { h with raised_eq := by rw [h.raised_eq] }
  cases event with
  | wipe => exact { h with
      length_eq := (length_wipe _).trans h.length_eq
      length_eq' := (length_wipe _).trans h.length_eq' }
  | exit => exact { h with
      length_eq := (length_wipe _).trans h.length_eq
      length_eq' := (length_wipe _).trans h.length_eq' }
  | connect config tls =>
      simp only [IdentityUse.step]
      cases checkConnect config tls with
      | ok u => exact { h with connecting_eq := by rw [h.connecting_eq] }
      | error exc => exact hraise exc
  | connected i entropy =>
      simp only [IdentityUse.step, h.connecting_eq]
      cases s'.connecting[i]? with
      | none => exact h
      | some tls =>
          have h' : SameButKeys { s with connecting := s'.connecting.eraseIdx i }
              { s' with connecting := s'.connecting.eraseIdx i } := { h with connecting_eq := rfl }
          simp only [connected]
          cases checkCertPin env tls with
          | ok u => exact h'.startHandshake true entropy
          | error exc => exact { h' with raised_eq := by rw [h'.raised_eq] }
  | serve config =>
      simp only [IdentityUse.step]
      cases checkServe config with
      | ok u => exact { h with serving_eq := by rw [h.serving_eq] }
      | error exc => exact hraise exc
  | accept i entropy =>
      simp only [IdentityUse.step, h.serving_eq]
      cases s'.serving[i]? with
      | none => exact h
      | some config => exact h.startHandshake false entropy

/-- A wipe changes nothing else. -/
theorem SameButKeys.wipe {s s' : IdentityUse Conn} (h : SameButKeys s s') {event : Event}
    (hwipes : event.wipes = true) : SameButKeys (IdentityUse.step lib env s event) s' := by
  have hlen := (length_wipe s.identity).trans h.length_eq
  cases event with
  | wipe => exact { h with length_eq := hlen }
  | exit => exact { h with length_eq := hlen }
  | _ => cases hwipes

/-- A run with wipes and the run without them. -/
theorem SameButKeys.run {s s' : IdentityUse Conn} (h : SameButKeys s s') (events : List Event) :
    SameButKeys (events.foldl (IdentityUse.step lib env) s)
      ((events.filter fun event => !event.wipes).foldl (IdentityUse.step lib env) s') := by
  induction events generalizing s s' with
  | nil => exact h
  | cons event events ih =>
      cases hevent : event.wipes with
      | false =>
          rw [List.filter_cons_of_pos (by simp [hevent])]
          exact ih (h.step event)
      | true =>
          rw [List.filter_cons_of_neg (by simp [hevent])]
          exact ih (h.wipe hevent)

/-- **The key of a handshake.**  Whatever is done with an identity, and in
whatever order: a handshake that `connect` or a server starts runs on a key
whose public key is `identity.public` exactly when nothing has wiped the
identity before, and on zeros otherwise; a wipe refuses nothing: the same
handshakes are started, and the same exceptions raised, as without it; and it
leaves the identity's own copy of the key as zeros, as many as before. -/
theorem handshake_key (lib : NoiseLibrary Conn Key) (env : Env) (identity : StaticIdentity)
    (hobtained : identity.Obtained lib.publicKey)
    (hzero : lib.publicKey (List.replicate X25519_KEY_LEN 0) ≠ identity.publicKey)
    (events : List Event) :
    (∀ event, ∃ new, (run lib env identity (events ++ [event])).started =
        (run lib env identity events).started ++ new ∧
      ∀ st ∈ new, (lib.publicKey st.staticPrivate = identity.publicKey ↔ wiped events = false) ∧
        (wiped events = true → st.staticPrivate = List.replicate X25519_KEY_LEN 0)) ∧
    (run lib env identity events).started.map Started.initiator =
      (run lib env identity (events.filter fun event => !event.wipes)).started.map
        Started.initiator ∧
    (run lib env identity events).raised =
      (run lib env identity (events.filter fun event => !event.wipes)).raised ∧
    (run lib env identity events).identity.privateKey =
      if wiped events = true then List.replicate identity.privateKey.length 0
      else identity.privateKey := by
  obtain ⟨hlen, hpublic⟩ := hobtained.key
  have hidentity := identity_run lib env hlen events
  have hzeroed : identity.wipe.privateKey = List.replicate identity.privateKey.length 0 :=
    secureZero_eq identity.secret.buf
  have hwipe : identity.wipe.privateKey = List.replicate X25519_KEY_LEN 0 := hlen ▸ hzeroed
  have hsame : SameButKeys (init identity : IdentityUse Conn) (init identity) :=
    ⟨hlen, hlen, rfl, rfl, rfl, rfl⟩
  have hrun : SameButKeys (run lib env identity events)
      (run lib env identity (events.filter fun event => !event.wipes)) := hsame.run events
  refine ⟨fun event => ?_, hrun.initiators_eq, hrun.raised_eq, ?_⟩
  · obtain ⟨new, hnew, hkey⟩ := (step_spec lib env hrun.length_eq event).2
    refine ⟨new, ?_, fun st hst => ?_⟩
    · rw [run, List.foldl_append]
      exact hnew
    · rw [hkey st hst, hidentity, identityAfter]
      cases wiped events with
      | false => simp [hpublic]
      | true => simp [hwipe, hzero]
  · rw [hidentity, identityAfter]
    cases wiped events with
    | false => rfl
    | true => exact hzeroed

/-- A server that accepts a connection before the wipe and one after it. -/
theorem handshake_key_served :
    let lib := NoiseLibrary.xx examplePrimitives []
    let env := exampleEnv (fun _ => .ok exampleCertificate) (SignatureScheme.stamp 64)
    let config : Config := ⟨false, none, none, false, none, none, none, false, none⟩
    let identity := StaticIdentity.generate lib.publicKey (List.replicate 32 3)
    let events : List Event := [.serve config, .accept 0 (List.replicate 32 4), .wipe]
    let event : Event := .accept 0 (List.replicate 32 6)
    (run lib env identity (events ++ [event])).started.map Started.staticPrivate =
        [List.replicate 32 3, List.replicate 32 0] ∧
      ∃ new, (run lib env identity (events ++ [event])).started =
          (run lib env identity events).started ++ new ∧
        ∀ st ∈ new, (lib.publicKey st.staticPrivate = identity.publicKey ↔ wiped events = false) ∧
          (wiped events = true → st.staticPrivate = List.replicate X25519_KEY_LEN 0) := by
  intro lib env config identity events event
  exact ⟨by decide +kernel, (handshake_key lib env identity
    (.inl ⟨List.replicate 32 3, rfl, rfl⟩) (by decide) events).1 event⟩

/-- The second of these connections is not refused, and runs on the wrong key. -/
theorem wiped_identity_serves :
    let lib := NoiseLibrary.xx examplePrimitives []
    let env := exampleEnv (fun _ => .ok exampleCertificate) (SignatureScheme.stamp 64)
    let config : Config := ⟨false, none, none, false, none, none, none, false, none⟩
    let identity := StaticIdentity.generate lib.publicKey (List.replicate 32 3)
    let s := run lib env identity [.serve config, .wipe, .accept 0 (List.replicate 32 6)]
    s.started.map Started.staticPrivate = [List.replicate 32 0] ∧ s.raised = [] ∧
      ¬∀ st ∈ s.started, lib.publicKey st.staticPrivate = identity.publicKey := by
  intro lib env config identity s
  have hstarted : s.started.map Started.staticPrivate = [List.replicate 32 0] := by
    decide +kernel
  refine ⟨hstarted, by decide +kernel, fun hall => ?_⟩
  obtain ⟨st, hst, hkey⟩ := List.mem_map.mp (hstarted ▸ List.mem_singleton_self _ :
    List.replicate 32 0 ∈ s.started.map Started.staticPrivate)
  have hwrong := hall st hst
  rw [hkey] at hwrong
  exact absurd hwrong (by decide)

end IdentityUse

end SecureWs
