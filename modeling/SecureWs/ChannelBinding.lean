import SecureWs.Establishment
import SecureWs.SafetyNumber
import SecureWs.Lib.NoiseTranscript

/-!
# SecureWs.ChannelBinding

What two users learn when they compare their safety numbers: whether anybody
between them has touched the handshake.

* `Driver.exchanged` are the handshake messages of a run of the driver, and
  `Driver.Returns` says what a run returns, whatever the network hands it;
* `Driver.drive_onState`: over a library that implements Noise XX, the driver
  refines the driver over the specification;
* `handshakeHash_of_returns`: the handshake hash is the hash of the prologue
  and of the messages that the end has written and read;
* `safety_numbers_agree_iff`: two ends show the same number exactly when they
  have the same prologue and every message arrived as it was written;
* `no_man_in_the_middle`: then each has the other's key and certificate, and the
  keys of the two channels cross.
-/

namespace SecureWs

open Python

variable {Conn Key : Type}

namespace Driver

/-! ## What was exchanged -/

variable (lib : NoiseLibrary Conn Key)

/-- The handshake messages of the first `n` passes, written and read, without
their frames. -/
def exchanged : Nat → List WsMessage → Driver Conn → List Bytes
  | 0, _, _ => []
  | n + 1, messages, self => match self.iterate lib messages.head? with
      | .wrote frame driver =>
          (handshakePayload (.binary frame)).toOption.toList ++ exchanged n messages driver
      | .read driver =>
          (messages.head?.bind fun message => (handshakePayload message).toOption).toList ++
            exchanged n messages.tail driver
      | _ => []

/-- Some number of passes, on some messages from the network, makes the driver
return this, and these are the handshake messages of the run. -/
def Returns (self : Driver Conn) (result : HandshakeResult Key) (peerCert : Bytes)
    (messages : List Bytes) : Prop :=
  ∃ n received, self.drive lib n received = .returned result peerCert ∧
    self.exchanged lib n received = messages

variable {lib} {self driver : Driver Conn}

/-- A pass that writes a message. -/
theorem pass_wrote {received : List WsMessage} {frame : Bytes}
    (h : self.iterate lib received.head? = .wrote frame driver) :
    ∃ msg, handshakePayload (.binary frame) = .ok msg ∧ ∀ n,
      self.drive lib (n + 1) received = driver.drive lib n received ∧
        self.exchanged lib (n + 1) received = msg :: driver.exchanged lib n received := by
  obtain ⟨-, f, -, -, rfl, htype, -⟩ := wrote_of_iterate h
  have hmsg := handshakePayload_wire htype
  refine ⟨f.payload, hmsg, fun n => ⟨by simp only [drive, h], ?_⟩⟩
  simp only [exchanged, h, hmsg]
  rfl

/-- A pass that reads one. -/
theorem pass_read {received : List WsMessage}
    (h : self.iterate lib received.head? = .read driver) :
    ∃ message msg, received.head? = some message ∧ handshakePayload message = .ok msg ∧ ∀ n,
      self.drive lib (n + 1) received = driver.drive lib n received.tail ∧
        self.exchanged lib (n + 1) received = msg :: driver.exchanged lib n received.tail := by
  obtain ⟨-, message, msg, -, -, hfirst, hmsg, -⟩ := read_of_iterate h
  refine ⟨message, msg, hfirst, hmsg, fun n => ⟨by simp only [drive, h], ?_⟩⟩
  rw [exchanged, h]
  simp only [hfirst, Option.bind_some, hmsg]
  rfl

/-- **The rule for a run that returns**: it leaves the loop, or it writes or
reads one message and returns from there. -/
theorem Returns.cases {result : HandshakeResult Key} {peerCert : Bytes} {messages : List Bytes}
    (h : self.Returns lib result peerCert messages) :
    (messages = [] ∧ ∃ first, self.iterate lib first = .returned result peerCert) ∨
    (∃ frame driver msg rest first, self.iterate lib first = .wrote frame driver ∧
      handshakePayload (.binary frame) = .ok msg ∧ messages = msg :: rest ∧
      driver.Returns lib result peerCert rest) ∨
    ∃ message driver msg rest, self.iterate lib (some message) = .read driver ∧
      handshakePayload message = .ok msg ∧ messages = msg :: rest ∧
      driver.Returns lib result peerCert rest := by
  obtain ⟨n, received, hdrive, rfl⟩ := h
  cases n with
  | zero => cases hdrive
  | succ n =>
      cases hiterate : self.iterate lib received.head? with
      | returned result' peerCert' =>
          simp only [drive, hiterate] at hdrive
          exact .inl ⟨by simp only [exchanged, hiterate], received.head?, hiterate.trans hdrive⟩
      | raised exc => simp [drive, hiterate] at hdrive
      | waiting => simp [drive, hiterate] at hdrive
      | wrote frame driver =>
          obtain ⟨msg, hmsg, hpass⟩ := pass_wrote hiterate
          exact .inr (.inl ⟨frame, driver, msg, _, received.head?, hiterate, hmsg, (hpass n).2,
            n, received, (hpass n).1.symm.trans hdrive, rfl⟩)
      | read driver =>
          obtain ⟨message, msg, hfirst, hmsg, hpass⟩ := pass_read hiterate
          exact .inr (.inr ⟨message, driver, msg, _, hfirst ▸ hiterate, hmsg, (hpass n).2,
            n, received.tail, (hpass n).1.symm.trans hdrive, rfl⟩)

/-- A driver that returns makes as many passes as it exchanges messages, and
one. -/
theorem drive_of_returned {n : Nat} {received : List WsMessage} {result : HandshakeResult Key}
    {peerCert : Bytes} (h : self.drive lib n received = .returned result peerCert) :
    let k := (self.exchanged lib n received).length + 1
    self.drive lib k received = .returned result peerCert ∧
      self.exchanged lib k received = self.exchanged lib n received := by
  induction n generalizing self received with
  | zero => cases h
  | succ n ih =>
      intro k
      cases hiterate : self.iterate lib received.head? with
      | returned result' peerCert' =>
          simp only [drive, hiterate] at h
          have hnone : ∀ m, self.exchanged lib (m + 1) received = [] := fun m => by
            simp only [exchanged, hiterate]
          exact ⟨by simp only [drive, hiterate, k, h], by simp only [hnone, k]⟩
      | raised exc => simp [drive, hiterate] at h
      | waiting => simp [drive, hiterate] at h
      | wrote frame driver =>
          obtain ⟨msg, -, hpass⟩ := pass_wrote hiterate
          obtain ⟨hdrive, hexchanged⟩ := ih ((hpass n).1.symm.trans h)
          have hk : k = (driver.exchanged lib n received).length + 1 + 1 := by
            simp only [k, (hpass n).2, List.length_cons]
          rw [hk, (hpass _).1, (hpass _).2, (hpass n).2]
          exact ⟨hdrive, congrArg _ hexchanged⟩
      | read driver =>
          obtain ⟨message, msg, -, -, hpass⟩ := pass_read hiterate
          obtain ⟨hdrive, hexchanged⟩ := ih ((hpass n).1.symm.trans h)
          have hk : k = (driver.exchanged lib n received.tail).length + 1 + 1 := by
            simp only [k, (hpass n).2, List.length_cons]
          rw [hk, (hpass _).1, (hpass _).2, (hpass n).2]
          exact ⟨hdrive, congrArg _ hexchanged⟩

end Driver

/-! ## A library that implements Noise XX -/

section Refinement

open NoiseXX

variable {lib : NoiseLibrary Conn Key} {P : Primitives Key} {name : Bytes} {stateOf : Conn → State Key}
  {self driver : Driver Conn} {first : Option WsMessage}

/-- The handshake, on the state of the specification. -/
def NoiseXXHandshake.onState (stateOf : Conn → State Key) (self : NoiseXXHandshake Conn) :
    NoiseXXHandshake (State Key) :=
  ⟨stateOf self.conn, self.initiator, self.localStaticPub, self.remoteStatic, self.step⟩

def Driver.onState (stateOf : Conn → State Key) (self : Driver Conn) : Driver (State Key) :=
  ⟨self.hs.onState stateOf, self.localCertBytes, self.peerCert, self.writeIndex⟩

/-- The handshake starts as in the specification. -/
theorem NoiseXXHandshake.new_onState (himpl : lib.Implements P name stateOf) {initiator : Bool}
    {secret prologue entropy : Bytes} {hs : NoiseXXHandshake Conn}
    (hnew : NoiseXXHandshake.new lib initiator secret prologue entropy = .ok hs) :
    NoiseXXHandshake.new (NoiseLibrary.xx P name) initiator secret prologue entropy =
      .ok (hs.onState stateOf) := by
  unfold NoiseXXHandshake.new at hnew ⊢
  rw [raiseIf_bind_except] at hnew ⊢
  split_ifs at hnew with hlen
  rw [if_neg hlen]
  obtain rfl := Except.ok.inj hnew
  rw [onState, himpl.starts, himpl.publicKey]
  rfl

/-- A pass that writes, on the specification. -/
theorem Driver.iterate_onState_wrote (himpl : lib.Implements P name stateOf) {frame : Bytes}
    (h : self.iterate lib first = .wrote frame driver) :
    (self.onState stateOf).iterate (NoiseLibrary.xx P name) first =
      .wrote frame (driver.onState stateOf) := by
  have hrunning : (NoiseLibrary.xx P name).handshakeFinished (self.onState stateOf).hs.conn = false :=
    (himpl.handshakeFinished _).symm.trans (running_of_wrote h)
  obtain ⟨hturn, ⟨msgType, seq, payload, hseq, hfits⟩, conn, hwrite, rfl, rfl, rfl, rfl⟩ :=
    wrote_of_iterate h
  have hturn' : (self.onState stateOf).hs.nextIsWrite = true := hturn
  have hwrite' : ((NoiseLibrary.xx P name).writeMessage (self.onState stateOf).payload).run
      (self.onState stateOf).hs.conn = (.ok payload, stateOf conn) :=
    run_callOf_ok (himpl.writes hwrite)
  exact iterate_wrote hrunning hturn' hwrite' hseq hfits first

/-- A pass that reads, on the specification. -/
theorem Driver.iterate_onState_read (himpl : lib.Implements P name stateOf)
    (h : self.iterate lib first = .read driver) :
    (self.onState stateOf).iterate (NoiseLibrary.xx P name) first =
      .read (driver.onState stateOf) := by
  have hrunning : (self.onState stateOf).hs.isComplete (NoiseLibrary.xx P name) = false :=
    (himpl.handshakeFinished _).symm.trans (running_of_read h)
  obtain ⟨hturn, message, msg, payload, conn, rfl, hmsg, hread, rfl⟩ := read_of_iterate h
  have hturn' : (self.onState stateOf).hs.nextIsWrite = false := hturn
  have hread' : ((NoiseLibrary.xx P name).readMessage msg).run (self.onState stateOf).hs.conn =
      (.ok payload, stateOf conn) := run_callOf_ok (himpl.reads hread)
  simp only [iterate, hrunning, Bool.false_eq_true, if_false, hturn', run_read, hmsg,
    NoiseXXHandshake.run_readMessage_of_ok hread']
  simp only [onState, NoiseXXHandshake.onState, himpl.remoteStatic]
  rfl

/-- The pass that leaves the loop, on the specification. -/
theorem Driver.iterate_onState_returned (himpl : lib.Implements P name stateOf)
    {result : HandshakeResult Key} {peerCert : Bytes}
    (h : self.iterate lib first = .returned result peerCert) :
    (self.onState stateOf).iterate (NoiseLibrary.xx P name) first = .returned result peerCert := by
  obtain ⟨hfinished, rfl, key, hkey, rfl⟩ := returned_of_iterate h
  rw [himpl.handshakeFinished] at hfinished
  obtain ⟨keys, hkeys⟩ := Option.isSome_iff_exists.mp hfinished
  have hkey' : (self.onState stateOf).hs.remoteStatic = some key := hkey
  have hstep : (self.onState stateOf).iterate (NoiseLibrary.xx P name) first = .returned _ _ :=
    iterate_returned hfinished hkey' first
  obtain ⟨hencrypt, hdecrypt⟩ := himpl.cipherStates _ _ hkeys
  obtain ⟨hencrypt', hdecrypt'⟩ := (implements_xx P name).cipherStates _ _ hkeys
  rw [hstep, himpl.handshakeHash, hencrypt, hdecrypt]
  exact congrArg₂ (fun encrypt decrypt => Iteration.returned ⟨_, _, _, _, encrypt, decrypt⟩ _)
    hencrypt' hdecrypt'

/-- **The driver on the library refines the driver on the specification**: what
it returns on some messages, and the messages of the run, are the same there. -/
theorem Driver.drive_onState (himpl : lib.Implements P name stateOf) {n : Nat}
    {received : List WsMessage} {result : HandshakeResult Key} {peerCert : Bytes}
    (h : self.drive lib n received = .returned result peerCert) :
    (self.onState stateOf).drive (NoiseLibrary.xx P name) n received = .returned result peerCert ∧
      (self.onState stateOf).exchanged (NoiseLibrary.xx P name) n received =
        self.exchanged lib n received := by
  induction n generalizing self received with
  | zero => cases h
  | succ n ih =>
      cases hiterate : self.iterate lib received.head? with
      | raised exc => simp [drive, hiterate] at h
      | waiting => simp [drive, hiterate] at h
      | returned result' peerCert' =>
          have hstep := iterate_onState_returned himpl hiterate
          simp only [drive, hiterate, Iteration.returned.injEq] at h
          simp only [drive, exchanged, hiterate, hstep, h, and_self]
      | wrote frame driver =>
          have hstep := iterate_onState_wrote himpl hiterate
          simp only [drive, hiterate] at h
          simp only [drive, exchanged, hiterate, hstep]
          obtain ⟨hdrive, hexchanged⟩ := ih h
          exact ⟨hdrive, congrArg _ hexchanged⟩
      | read driver =>
          have hstep := iterate_onState_read himpl hiterate
          simp only [drive, hiterate] at h
          simp only [drive, exchanged, hiterate, hstep]
          obtain ⟨hdrive, hexchanged⟩ := ih h
          exact ⟨hdrive, congrArg _ hexchanged⟩

/-- A run that returns over the library returns the same over the specification. -/
theorem Driver.Returns.onState (himpl : lib.Implements P name stateOf) {result : HandshakeResult Key}
    {peerCert : Bytes} {messages : List Bytes} (h : self.Returns lib result peerCert messages) :
    (self.onState stateOf).Returns (NoiseLibrary.xx P name) result peerCert messages := by
  obtain ⟨n, received, hdrive, rfl⟩ := h
  obtain ⟨hdrive', hexchanged⟩ := Driver.drive_onState himpl hdrive
  exact ⟨n, received, hdrive', hexchanged⟩

end Refinement

/-! ## The handshake hash -/

section Hash

open NoiseXX

variable {P : Primitives Key} {name : Bytes}

/-- The driver over the specification, which has finished just when no message
is left. -/
def Driver.Sound (self : Driver (State Key)) : Prop :=
  self.hs.conn.transport.isSome = true ↔ self.hs.conn.remaining = []

/-- What a pass that writes or reads does to the state of the specification. -/
theorem Driver.advances_of_wrote (lawful : P.Lawful) {self driver : Driver (State Key)}
    {first : Option WsMessage} {frame msg : Bytes}
    (h : self.iterate (NoiseLibrary.xx P name) first = .wrote frame driver)
    (hmsg : handshakePayload (.binary frame) = .ok msg) :
    ∃ tokens, Advances P tokens self.hs.conn msg driver.hs.conn := by
  obtain ⟨-, f, conn, hwrite, rfl, htype, -, rfl⟩ := wrote_of_iterate h
  obtain rfl := Except.ok.inj ((handshakePayload_wire htype).symm.trans hmsg)
  exact advances_of_write lawful (eq_of_run_callOf hwrite)

/-- So does a pass that reads. -/
theorem Driver.advances_of_read {self driver : Driver (State Key)} {message : WsMessage} {msg : Bytes}
    (h : self.iterate (NoiseLibrary.xx P name) (some message) = .read driver)
    (hmsg : handshakePayload message = .ok msg) :
    ∃ tokens, Advances P tokens self.hs.conn msg driver.hs.conn := by
  obtain ⟨-, message', msg', payload, conn, hfirst, hmsg', hread, rfl⟩ := read_of_iterate h
  obtain rfl := Option.some.inj hfirst
  obtain rfl := Except.ok.inj (hmsg'.symm.trans hmsg)
  exact NoiseXX.advances_of_read (eq_of_run_callOf hread)

/-- The handshake hash over the specification, from whatever state the driver
returns. -/
theorem Driver.hash_of_returns (lawful : P.Lawful) {messages : List Bytes} {self : Driver (State Key)}
    {result : HandshakeResult Key} {peerCert : Bytes} (hsound : self.Sound)
    (h : self.Returns (NoiseLibrary.xx P name) result peerCert messages) :
    result.handshakeHash = absorb P self.hs.conn.symmetric.h
        (transcript self.hs.conn.remaining self.hs.conn.key messages) ∧
      messages.length = self.hs.conn.remaining.length := by
  induction messages generalizing self with
  | nil =>
      obtain ⟨-, first, hiterate⟩ | ⟨_, _, _, _, _, _, _, hmessages, _⟩ |
        ⟨_, _, _, _, _, _, hmessages, _⟩ := h.cases
      · obtain ⟨hfinished, -, key, -, rfl⟩ := returned_of_iterate hiterate
        rw [hsound.mp hfinished]
        exact ⟨rfl, rfl⟩
      · cases hmessages
      · cases hmessages
  | cons msg messages ih =>
      have hnext : ∀ (driver : Driver (State Key)) tokens,
          Advances P tokens self.hs.conn msg driver.hs.conn →
          driver.Returns (NoiseLibrary.xx P name) result peerCert messages →
          result.handshakeHash = absorb P self.hs.conn.symmetric.h
              (transcript self.hs.conn.remaining self.hs.conn.key (msg :: messages)) ∧
            (msg :: messages).length = self.hs.conn.remaining.length := by
        intro driver tokens hadvances hreturns
        obtain ⟨hhash, hlen⟩ := ih hadvances.finished hreturns
        rw [hadvances.remaining, transcript, absorb_append, ← hadvances.hash, ← hadvances.key, hhash,
          List.length_cons, List.length_cons, hlen]
        exact ⟨rfl, rfl⟩
      obtain ⟨hmessages, -⟩ | ⟨frame, driver, msg', rest, first, hiterate, hmsg, hmessages, hreturns⟩ |
        ⟨message, driver, msg', rest, hiterate, hmsg, hmessages, hreturns⟩ := h.cases
      · cases hmessages
      · obtain ⟨rfl, rfl⟩ := List.cons.inj hmessages
        obtain ⟨tokens, hadvances⟩ := advances_of_wrote lawful hiterate hmsg
        exact hnext driver tokens hadvances hreturns
      · obtain ⟨rfl, rfl⟩ := List.cons.inj hmessages
        obtain ⟨tokens, hadvances⟩ := advances_of_read hiterate hmsg
        exact hnext driver tokens hadvances hreturns

variable {lib : NoiseLibrary Conn Key} {stateOf : Conn → State Key} {secret entropy prologue : Bytes}
  {initiator : Bool} {hs : NoiseXXHandshake Conn} {cert peerCert : Bytes}
  {result : HandshakeResult Key} {messages : List Bytes}

/-- **The handshake hash is the hash of the transcript**: of the prologue and
of the messages that the end has written and read, whoever has written them. -/
theorem handshakeHash_of_returns (himpl : lib.Implements P name stateOf) (lawful : P.Lawful)
    (hnew : NoiseXXHandshake.new lib initiator secret prologue entropy = .ok hs)
    (h : (Driver.init hs cert).Returns lib result peerCert messages) :
    result.handshakeHash = transcriptHash P name prologue messages ∧ messages.length = 3 := by
  have hspec := h.onState himpl
  obtain rfl := NoiseXXHandshake.eq_of_new hnew
  simp only [Driver.onState, Driver.init, NoiseXXHandshake.onState, himpl.starts] at hspec
  refine Driver.hash_of_returns lawful (iff_of_false (fun hsome => ?_) fun hnil => ?_) hspec
  · cases hsome
  · cases hnil

/-- The handshake hash has the length of the hash. -/
theorem length_handshakeHash (himpl : lib.Implements P name stateOf) (lawful : P.Lawful)
    (hlen : P.HashLength HANDSHAKE_HASH_LEN)
    (hnew : NoiseXXHandshake.new lib initiator secret prologue entropy = .ok hs)
    (h : (Driver.init hs cert).Returns lib result peerCert messages) :
    result.handshakeHash.length = HANDSHAKE_HASH_LEN := by
  rw [(handshakeHash_of_returns himpl lawful hnew h).1]
  exact length_absorb hlen (List.cons_ne_nil _ _)

end Hash

/-! ## Two users compare -/

/-- Two hashes have the same safety number just when their digests agree
modulo `10 ^ 60`. -/
theorem safetyNumber_eq_iff {sha256 : Bytes → Bytes} {first second : Bytes}
    (hfirst : first.length = HANDSHAKE_HASH_LEN) (hsecond : second.length = HANDSHAKE_HASH_LEN) :
    safetyNumber sha256 first = safetyNumber sha256 second ↔
      safetyValue sha256 first ≡ safetyValue sha256 second [MOD 10 ^ SAFETY_NUMBER_DIGITS] := by
  have hlt : ∀ n, n % 10 ^ SAFETY_NUMBER_DIGITS < 10 ^ SAFETY_NUMBER_DIGITS := fun n =>
    Nat.mod_lt n (by decide)
  rw [safetyNumber_eq hfirst, safetyNumber_eq hsecond, Except.ok.injEq]
  constructor
  · intro htext
    obtain ⟨-, -, hvalue⟩ := safetyText_spec (hlt (safetyValue sha256 first))
    obtain ⟨-, -, hvalue'⟩ := safetyText_spec (hlt (safetyValue sha256 second))
    exact hvalue.symm.trans ((congrArg _ (congrArg _ htext)).trans hvalue')
  · exact congrArg safetyText

section Compare

open NoiseXX

variable {lib : NoiseLibrary Conn Key} {P : Primitives Key} {name : Bytes} {stateOf : Conn → State Key}
  {secret entropy prologue certs : Side → Bytes} {hs : Side → NoiseXXHandshake Conn}
  {result : Side → HandshakeResult Key} {peerCert : Side → Bytes} {messages : Side → List Bytes}

/-- **Safety numbers agree exactly on an untouched handshake.**  Over a library
that implements Noise XX, two ends run the driver on whatever the network hands
them, and both return: where neither hash collides on what was hashed, their
safety numbers are equal exactly when the prologues are and each has read the
messages that the other has written. -/
theorem safety_numbers_agree_iff (himpl : lib.Implements P name stateOf) (lawful : P.Lawful)
    (hlen : P.HashLength HANDSHAKE_HASH_LEN)
    (hnew : ∀ side, NoiseXXHandshake.new lib (side = .initiator) (secret side) (prologue side)
      (entropy side) = .ok (hs side))
    (hreturns : ∀ side, (Driver.init (hs side) (certs side)).Returns lib (result side) (peerCert side)
      (messages side))
    (hdistinct : P.Distinct
      (transcriptInputs P name (prologue .initiator) (messages .initiator))
      (transcriptInputs P name (prologue .responder) (messages .responder)))
    (sha256 : Bytes → Bytes)
    (hdigest : safetyValue sha256 (result .initiator).handshakeHash ≡
        safetyValue sha256 (result .responder).handshakeHash [MOD 10 ^ SAFETY_NUMBER_DIGITS] →
      (result .initiator).handshakeHash = (result .responder).handshakeHash) :
    safetyNumber sha256 (result .initiator).handshakeHash =
        safetyNumber sha256 (result .responder).handshakeHash ↔
      prologue .initiator = prologue .responder ∧ messages .initiator = messages .responder := by
  have hhash := fun side => handshakeHash_of_returns himpl lawful (hnew side) (hreturns side)
  have hlength := fun side => length_handshakeHash himpl lawful hlen (hnew side) (hreturns side)
  rw [safetyNumber_eq_iff (hlength .initiator) (hlength .responder)]
  constructor
  · intro hcongr
    have heq := hdigest hcongr
    rw [(hhash .initiator).1, (hhash .responder).1] at heq
    have hcount := (hhash .initiator).2.trans (hhash .responder).2.symm
    exact (transcriptHash_inj hlen rfl hcount (hhash .initiator).2.le hdistinct heq).2
  · intro h
    rw [(hhash .initiator).1, (hhash .responder).1, h.1, h.2]

end Compare

/-! ## Two ends that have seen the same messages -/

namespace IdealExchange

variable {lib : NoiseLibrary Conn Key} {secret entropy certs : Side → Bytes} {prologue : Bytes}
  {x : IdealExchange lib secret entropy prologue (payloads certs)}
  {result : Side → HandshakeResult Key} {peerCert : Side → Bytes} {messages : List Bytes} {n : Nat}

/-- The driver unpacks a frame of the exchange to its message. -/
theorem handshakePayload_frame (hn : n < 3) :
    Driver.handshakePayload (.binary (x.frame n)) = .ok (x.message n) := by
  have hindex : n / 2 ≤ MAX_SEQ := by
    simp only [MAX_SEQ]
    omega
  have hdecode := decode_wire (Driver.frame (n / 2) (x.message n) hindex (x.fits n))
  have hwire : x.frame n = (Driver.frame (n / 2) (x.message n) hindex (x.fits n)).wire := rfl
  simp only [Driver.handshakePayload, asBytes, bind, Except.bind, hwire, hdecode]
  rfl

/-- The end that writes the next message. -/
theorem next_of_sender (hn : n < 3) {side : Side} (hturn : sender n = side)
    (h : (x.driver side n).Returns lib (result side) (peerCert side) messages) :
    ∃ rest, messages = x.message n :: rest ∧
      (x.driver side (n + 1)).Returns lib (result side) (peerCert side) rest := by
  subst hturn
  obtain ⟨-, first, hiterate⟩ |
    ⟨frame, driver, msg, rest, first, hiterate, hmsg, hmessages, hreturns⟩ |
    ⟨message, driver, msg, rest, hiterate, hmsg, hmessages, hreturns⟩ := h.cases
  · rw [iterate_writes hn first] at hiterate
    cases hiterate
  · rw [iterate_writes hn first, Iteration.wrote.injEq] at hiterate
    obtain ⟨rfl, rfl⟩ := hiterate
    rw [handshakePayload_frame hn, Except.ok.injEq] at hmsg
    exact ⟨rest, by rw [hmessages, hmsg], hreturns⟩
  · rw [iterate_writes hn] at hiterate
    cases hiterate

/-- The end that reads it. -/
theorem next_of_reader (hn : n < 3) {side : Side} (hturn : (sender n).peer = side) {rest : List Bytes}
    (h : (x.driver side n).Returns lib (result side) (peerCert side) (x.message n :: rest)) :
    (x.driver side (n + 1)).Returns lib (result side) (peerCert side) rest := by
  subst hturn
  obtain ⟨hmessages, -⟩ | ⟨frame, driver, msg, rest', first, hiterate, hmsg, hmessages, hreturns⟩ |
    ⟨message, driver, msg, rest', hiterate, hmsg, hmessages, hreturns⟩ := h.cases
  · cases hmessages
  · obtain ⟨hwrites, -⟩ := Driver.wrote_of_iterate hiterate
    simp [nextIsWrite_driver] at hwrites
  · obtain ⟨rfl, rfl⟩ := List.cons.inj hmessages
    have hsame : (x.driver (sender n).peer n).iterate lib (some message) =
        (x.driver (sender n).peer n).iterate lib (some (.binary (x.frame n))) :=
      Driver.iterate_congr (hmsg.trans (handshakePayload_frame hn).symm)
    rw [hsame, iterate_reads hn, Iteration.read.injEq] at hiterate
    rw [hiterate]
    exact hreturns

/-- **Two ends that have seen the same messages** and both return have followed
the exchange. -/
theorem followed_of_returns (hn : n ≤ 3)
    (h : ∀ side, (x.driver side n).Returns lib (result side) (peerCert side) messages) (side : Side) :
    result side = honestHandshake x.keys x.hash (fun side => lib.publicKey (secret side)) side ∧
      peerCert side = certs side.peer := by
  induction hd : 3 - n generalizing n messages with
  | zero =>
      obtain rfl : n = 3 := by omega
      obtain ⟨-, first, hiterate⟩ | ⟨_, _, _, _, first, hiterate, _⟩ | ⟨_, _, _, _, hiterate, _⟩ :=
        (h side).cases
      · rw [iterate_returns, Iteration.returned.injEq] at hiterate
        exact ⟨hiterate.1.symm, hiterate.2.symm⟩
      · rw [iterate_returns] at hiterate
        cases hiterate
      · rw [iterate_returns] at hiterate
        cases hiterate
  | succ d ih =>
      have hlt : n < 3 := by omega
      obtain ⟨rest, rfl, hsender⟩ := next_of_sender hlt rfl (h (sender n))
      have hreader := next_of_reader hlt rfl (h (sender n).peer)
      exact ih hlt (Side.forall_of_peer (sender n) hsender hreader) (by omega)

end IdealExchange

/-! ## A driver that returns has written everything -/

section Positions

open NoiseXX

variable {P : Primitives Key} {name : Bytes} {role : Side} {cert : Bytes} {k : Nat}
  {self : Driver (State Key)}

/-- A driver over the specification after `k` messages, whatever they were. -/
structure Driver.Stands (driver : Driver (State Key)) (role : Side) (cert : Bytes) (k : Nat) :
    Prop where
  step : driver.hs.step = k
  initiator : driver.hs.initiator = decide (role = .initiator)
  localCertBytes : driver.localCertBytes = cert
  writeIndex : driver.writeIndex = if role = .initiator then (k + 1) / 2 else k / 2
  remaining : driver.hs.conn.remaining = pattern.drop k
  key : driver.hs.conn.key = decide (2 ≤ k)
  sound : driver.Sound

/-- It writes when it is its turn. -/
theorem Driver.Stands.nextIsWrite (h : self.Stands role cert k) :
    self.hs.nextIsWrite = decide (sender k = role) := by
  unfold NoiseXXHandshake.nextIsWrite
  rw [h.step, h.initiator]
  unfold sender
  by_cases hk : k % 2 = 0
  · cases role <;> simp [hk]
  · cases role <;> simp [hk]

/-- The index counts the messages of the end itself. -/
theorem writeIndex_succ (role : Side) (k : Nat) :
    (if role = .initiator then (k + 1 + 1) / 2 else (k + 1) / 2) =
      (if role = .initiator then (k + 1) / 2 else k / 2) + if sender k = role then 1 else 0 := by
  unfold sender
  by_cases hk : k % 2 = 0
  · cases role <;> simp [hk] <;> omega
  · cases role <;> simp [hk] <;> omega

/-- The key is there from the second message on. -/
theorem keyed_pattern (hk : k < 3) {tokens : List Token} {remaining : List (List Token)}
    (h : pattern.drop k = tokens :: remaining) :
    keyed tokens (decide (2 ≤ k)) = decide (2 ≤ k + 1) ∧ remaining = pattern.drop (k + 1) := by
  have hremaining : remaining = pattern.drop (k + 1) := by
    rw [← List.tail_drop, h, List.tail_cons]
  refine ⟨?_, hremaining⟩
  interval_cases k
  · obtain ⟨rfl, -⟩ := List.cons.inj h
    rfl
  · obtain ⟨rfl, -⟩ := List.cons.inj h
    rfl
  · obtain ⟨rfl, -⟩ := List.cons.inj h
    rfl

variable {result : HandshakeResult Key} {peerCert : Bytes} {messages : List Bytes}

/-- One message further; what is written fits. -/
theorem Driver.Stands.next (lawful : P.Lawful) (hk : k < 3) (h : self.Stands role cert k)
    (hreturns : self.Returns (NoiseLibrary.xx P name) result peerCert messages) :
    (sender k = role → ∃ tokens, pattern.drop k = tokens :: pattern.drop (k + 1) ∧
      self.payload.length + messageOverhead tokens (decide (2 ≤ k)) ≤ MAX_PAYLOAD) ∧
    ∃ (driver : Driver (State Key)) (rest : List Bytes), driver.Stands role cert (k + 1) ∧
      driver.Returns (NoiseLibrary.xx P name) result peerCert rest := by
  have hmoves : ∀ {tokens : List Token} {msg : Bytes} {conn : State Key},
      Advances P tokens self.hs.conn msg conn →
      pattern.drop k = tokens :: pattern.drop (k + 1) ∧ conn.remaining = pattern.drop (k + 1) ∧
        conn.key = decide (2 ≤ k + 1) := by
    intro tokens msg conn hadvances
    have hdrop := hadvances.remaining
    rw [h.remaining] at hdrop
    obtain ⟨hkeyed, hremaining⟩ := keyed_pattern hk hdrop
    exact ⟨hremaining ▸ hdrop, hremaining, by rw [hadvances.key, h.key, hkeyed]⟩
  obtain ⟨-, first, hiterate⟩ |
    ⟨frame, driver, msg, rest, first, hiterate, hmsg, -, hrest⟩ |
    ⟨message, driver, msg, rest, hiterate, hmsg, -, hrest⟩ := hreturns.cases
  · -- the pattern is not at its end, so that the library has not finished
    have hend := h.sound.mp (returned_of_iterate hiterate).1
    rw [h.remaining] at hend
    interval_cases k <;> cases hend
  · obtain ⟨tokens, hadvances⟩ := advances_of_wrote lawful hiterate hmsg
    obtain ⟨hturn, f, conn, hwrite, -, -, -, rfl⟩ := wrote_of_iterate hiterate
    rw [h.nextIsWrite, decide_eq_true_eq] at hturn
    obtain ⟨hdrop, hremaining, hkey⟩ := hmoves hadvances
    have hlength := length_of_write lawful (h.remaining.trans hdrop) (eq_of_run_callOf hwrite)
    rw [h.key] at hlength
    -- the message is in a frame
    refine ⟨fun _ => ⟨tokens, hdrop, hlength ▸ f.payload_le⟩, _, rest, ?_, hrest⟩
    refine ⟨congrArg (· + 1) h.step, h.initiator, h.localCertBytes, ?_, hremaining, hkey,
      hadvances.finished⟩
    show self.writeIndex + 1 = _
    rw [h.writeIndex, writeIndex_succ, if_pos hturn]
  · obtain ⟨tokens, hadvances⟩ := advances_of_read hiterate hmsg
    obtain ⟨hturn, message', msg', payload, conn, -, -, hread, rfl⟩ := read_of_iterate hiterate
    rw [h.nextIsWrite, decide_eq_false_iff_not] at hturn
    obtain ⟨hdrop, hremaining, hkey⟩ := hmoves hadvances
    refine ⟨fun hwrites => absurd hwrites hturn, _, rest, ?_, hrest⟩
    refine ⟨congrArg (· + 1) h.step, h.initiator, h.localCertBytes, ?_, hremaining, hkey,
      hadvances.finished⟩
    show self.writeIndex = _
    rw [h.writeIndex, writeIndex_succ, if_neg hturn]
    rfl

/-- The driver of an end before its first message. -/
theorem Driver.stands_init {secret prologue entropy : Bytes} {hs : NoiseXXHandshake (State Key)}
    (hnew : NoiseXXHandshake.new (NoiseLibrary.xx P name) (role = .initiator) secret prologue entropy =
      .ok hs) : (Driver.init hs cert).Stands role cert 0 := by
  obtain rfl := NoiseXXHandshake.eq_of_new hnew
  refine ⟨rfl, rfl, rfl, by cases role <;> rfl, rfl, rfl, iff_of_false (fun h => ?_) fun h => ?_⟩
  · cases h
  · cases h

/-- **A driver that returns** had a certificate that fits into its message. -/
theorem Driver.fits_of_returns (lawful : P.Lawful) (h : self.Stands role cert 0)
    (hreturns : self.Returns (NoiseLibrary.xx P name) result peerCert messages) :
    cert.length + overhead (knownAfter role.peer - 1) ≤ MAX_PAYLOAD := by
  obtain ⟨-, driver₁, rest₁, h₁, hreturns₁⟩ := h.next lawful (by decide) hreturns
  obtain ⟨hfits₁, driver₂, rest₂, h₂, hreturns₂⟩ := h₁.next lawful (by decide) hreturns₁
  cases role with
  | initiator =>
      obtain ⟨hfits₂, -⟩ := h₂.next lawful (by decide) hreturns₂
      obtain ⟨tokens, hdrop, hle⟩ := hfits₂ rfl
      obtain ⟨rfl, -⟩ := List.cons.inj hdrop
      have hpayload : driver₂.payload = cert := by
        rw [Driver.payload, h₂.initiator, h₂.writeIndex, h₂.localCertBytes]
        rfl
      rw [hpayload] at hle
      exact hle
  | responder =>
      obtain ⟨tokens, hdrop, hle⟩ := hfits₁ rfl
      obtain ⟨rfl, -⟩ := List.cons.inj hdrop
      have hpayload : driver₁.payload = cert := by
        rw [Driver.payload, h₁.initiator, h₁.writeIndex, h₁.localCertBytes]
        rfl
      rw [hpayload] at hle
      exact hle

end Positions

section Compare

open NoiseXX

variable {lib : NoiseLibrary Conn Key} {P : Primitives Key} {name : Bytes} {stateOf : Conn → State Key}
  {secret entropy prologue certs : Side → Bytes} {hs : Side → NoiseXXHandshake Conn}
  {result : Side → HandshakeResult Key} {peerCert : Side → Bytes} {messages : Side → List Bytes}

/-- Two ends whose handshake hashes are equal have come out of one handshake, and
each has the certificate of the other. -/
theorem honest_of_hash_eq (himpl : lib.Implements P name stateOf) (lawful : P.Lawful)
    (hlen : P.HashLength HANDSHAKE_HASH_LEN)
    (hnew : ∀ side, NoiseXXHandshake.new lib (side = .initiator) (secret side) (prologue side)
      (entropy side) = .ok (hs side))
    (hee : Agree P (entropy .initiator) (entropy .responder))
    (hes : Agree P (entropy .initiator) (secret .responder))
    (hse : Agree P (secret .initiator) (entropy .responder))
    (hreturns : ∀ side, (Driver.init (hs side) (certs side)).Returns lib (result side) (peerCert side)
      (messages side))
    (hdistinct : P.Distinct
      (transcriptInputs P name (prologue .initiator) (messages .initiator))
      (transcriptInputs P name (prologue .responder) (messages .responder)))
    (heq : (result .initiator).handshakeHash = (result .responder).handshakeHash) :
    ∃ (keys : Side → Key) (hash : Bytes), ∀ side,
      result side = honestHandshake keys hash (fun side => P.publicKey (secret side)) side ∧
        peerCert side = certs side.peer := by
  have hhash := fun side => handshakeHash_of_returns himpl lawful (hnew side) (hreturns side)
  rw [(hhash .initiator).1, (hhash .responder).1] at heq
  obtain ⟨-, hprologue, hmessages⟩ := transcriptHash_inj hlen rfl
    ((hhash .initiator).2.trans (hhash .responder).2.symm) (hhash .initiator).2.le hdistinct heq
  -- the two runs, on the specification
  have hnew' := fun side => NoiseXXHandshake.new_onState himpl (hnew side)
  have hreturns' : ∀ side, (Driver.init ((hs side).onState stateOf) (certs side)).Returns
      (NoiseLibrary.xx P name) (result side) (peerCert side) (messages side) := fun side =>
    (hreturns side).onState himpl
  -- the exchange of two ends with this prologue and these certificates
  have hfits := fun side =>
    Driver.fits_of_returns lawful (Driver.stands_init (hnew' side)) (hreturns' side)
  have hideal := ideal_xx lawful name (prologue .initiator) hee hes hse (payloads certs)
    fun n hn => by
      interval_cases n
      · simp [payloads, overhead, MAX_PAYLOAD]
      · exact hfits .responder
      · exact hfits .initiator
  obtain ⟨x⟩ := hideal
  have hall : ∀ side, (x.driver side 0).Returns (NoiseLibrary.xx P name) (result side)
      (peerCert side) (messages .initiator) := by
    refine Side.forall_of_peer .initiator ?_ ?_
    · rw [← Establishment.driver_init (x := x) (hnew' .initiator)]
      exact hreturns' .initiator
    · have hresponder := hnew' .responder
      rw [← hprologue] at hresponder
      rw [hmessages, Side.peer, ← Establishment.driver_init (x := x) hresponder]
      exact hreturns' .responder
  exact ⟨x.keys, x.hash, IdealExchange.followed_of_returns (Nat.zero_le 3) hall⟩

/-- **No man in the middle.**  Over a library that implements Noise XX, two ends
whose handshake hashes are equal have each other's static key and certificate,
and what the one seals the other opens: nobody stands between them. -/
theorem no_man_in_the_middle (himpl : lib.Implements P name stateOf) (lawful : P.Lawful)
    (hlen : P.HashLength HANDSHAKE_HASH_LEN)
    (hnew : ∀ side, NoiseXXHandshake.new lib (side = .initiator) (secret side) (prologue side)
      (entropy side) = .ok (hs side))
    (hee : Agree P (entropy .initiator) (entropy .responder))
    (hes : Agree P (entropy .initiator) (secret .responder))
    (hse : Agree P (secret .initiator) (entropy .responder))
    (hreturns : ∀ side, (Driver.init (hs side) (certs side)).Returns lib (result side) (peerCert side)
      (messages side))
    (hdistinct : P.Distinct
      (transcriptInputs P name (prologue .initiator) (messages .initiator))
      (transcriptInputs P name (prologue .responder) (messages .responder)))
    (heq : (result .initiator).handshakeHash = (result .responder).handshakeHash) :
    ∀ side, (result side).remoteStatic = (result side.peer).localStatic ∧
      (result side).localStatic = lib.publicKey (secret side) ∧
      peerCert side = certs side.peer ∧
      (result side).sendCipher = (result side.peer).recvCipher := by
  obtain ⟨keys, hash, hhonest⟩ :=
    honest_of_hash_eq himpl lawful hlen hnew hee hes hse hreturns hdistinct heq
  intro side
  obtain ⟨hresult, hcert⟩ := hhonest side
  obtain ⟨hresult', -⟩ := hhonest side.peer
  rw [hresult, hresult', hcert]
  exact ⟨rfl, (himpl.publicKey _).symm, rfl, by simp [honestHandshake]⟩

end Compare

/-! ## Two ends and a third -/

section Example

open NoiseXX

def Iteration.result [Inhabited Key] : Iteration Conn Key → HandshakeResult Key × Bytes
  | .returned result peerCert => (result, peerCert)
  | _ => (⟨false, [], [], [], .fresh default, .fresh default⟩, [])

def Iteration.isReturned : Iteration Conn Key → Bool
  | .returned _ _ => true
  | _ => false

/-- A run of the driver that is seen to return. -/
theorem Driver.returns_of_drive [Inhabited Key] {lib : NoiseLibrary Conn Key} {self : Driver Conn}
    {n : Nat} {received : List WsMessage} (h : (self.drive lib n received).isReturned = true) :
    self.Returns lib (self.drive lib n received).result.1 (self.drive lib n received).result.2
      (self.exchanged lib n received) := by
  refine ⟨n, received, ?_, rfl⟩
  cases hdrive : self.drive lib n received with
  | returned result peerCert => rfl
  | _ => simp [hdrive, Iteration.isReturned] at h

/-- The primitives of the examples, with a hash of 32 bytes. -/
def hashingPrimitives : Primitives Nat :=
  { examplePrimitives with
    hash := fun data =>
      BigEndian.encode 32 (data.foldl (fun h b => (h * 257 + b.toNat + 1) % 2 ^ 256) 0) }

theorem lawful_hashingPrimitives : hashingPrimitives.Lawful :=
  ⟨lawful_examplePrimitives.correct, lawful_examplePrimitives.overhead,
    lawful_examplePrimitives.length_publicKey⟩

theorem hashLength_hashingPrimitives : hashingPrimitives.HashLength HANDSHAKE_HASH_LEN :=
  fun _ => BigEndian.length_encode _ _

def exampleHandshake (own : UInt8) (role : Side) : NoiseXXHandshake (State Nat) :=
  ⟨start hashingPrimitives [1] (role = .initiator) (List.replicate 32 own)
    (List.replicate 32 (own + 1)) [], role = .initiator, List.replicate 32 own, none, 0⟩

/-- What an end with the static key `own` receives in a handshake with an end
whose key is `other`; the certificates are a byte long. -/
def receivedFrom (own other : UInt8) (role : Side) : List WsMessage :=
  let window : ReplayWindow := ⟨1, 1, -1, 0, by decide, rfl⟩
  let policy : RekeyPolicy ℤ := ⟨1, 900, fun _ => 0, 1, 0, 0, by decide, by decide⟩
  let key : Side → UInt8 := fun side => if side = role then own else other
  let s₀ : Establishment (State Nat) Nat ℤ := Establishment.start
    (fun side => exampleHandshake (key side) side) (fun side => [key side]) (fun _ => window)
    (fun _ => policy) fun _ => []
  let turns : List Side := [.initiator, .responder, .responder, .initiator, .initiator, .responder]
  let s := turns.foldl (Establishment.drive (NoiseLibrary.xx hashingPrimitives [1])) s₀
  (s role).taken.map .binary

def exampleKey (side : Side) : UInt8 := if side = .initiator then 3 else 5

/-- The run of an end that talks to an end with the key `other`. -/
def exampleRun (other : UInt8) (side : Side) : Iteration (State Nat) Nat :=
  (Driver.init (exampleHandshake (exampleKey side) side) [exampleKey side]).drive
    (NoiseLibrary.xx hashingPrimitives [1]) 4 (receivedFrom (exampleKey side) other side)

/-- The handshakes of the examples are those that the program starts. -/
theorem new_exampleHandshake (side : Side) :
    NoiseXXHandshake.new (NoiseLibrary.xx hashingPrimitives [1]) (side = .initiator)
      (List.replicate 32 (exampleKey side)) [] (List.replicate 32 (exampleKey side + 1)) =
        .ok (exampleHandshake (exampleKey side) side) := by
  cases side <;> rfl

/-- Two ends, between which a third with the key 9 runs a handshake with each:
their safety numbers differ. -/
theorem safety_numbers_agree_iff_third :
    (∀ side, (exampleRun 9 side).isReturned = true) ∧
      safetyNumber hashingPrimitives.hash (exampleRun 9 .initiator).result.1.handshakeHash ≠
        safetyNumber hashingPrimitives.hash (exampleRun 9 .responder).result.1.handshakeHash := by
  have hreturned : ∀ side, (exampleRun 9 side).isReturned = true :=
    Side.forall_of_peer .initiator (by decide +kernel) (by decide +kernel)
  refine ⟨hreturned, mt (safety_numbers_agree_iff (implements_xx _ [1])
    lawful_hashingPrimitives hashLength_hashingPrimitives new_exampleHandshake
    (fun side => Driver.returns_of_drive (hreturned side)) ?_ hashingPrimitives.hash ?_).mp ?_⟩
  · decide +kernel
  · decide +kernel
  · decide +kernel

/-- The same ends with nobody between them. -/
theorem no_man_in_the_middle_two :
    let run : Side → Iteration (State Nat) Nat := fun side => exampleRun (exampleKey side.peer) side
    ∀ side, (run side).isReturned = true ∧
      (run side).result.1.remoteStatic = (run side.peer).result.1.localStatic ∧
      (run side).result.2 = [exampleKey side.peer] ∧
      (run side).result.1.sendCipher = (run side.peer).result.1.recvCipher := by
  intro run side
  have hreturned : ∀ side, (run side).isReturned = true :=
    Side.forall_of_peer .initiator (by decide +kernel) (by decide +kernel)
  have hagree : Agree hashingPrimitives (List.replicate 32 4) (List.replicate 32 6) ∧
      Agree hashingPrimitives (List.replicate 32 4) (List.replicate 32 5) ∧
      Agree hashingPrimitives (List.replicate 32 3) (List.replicate 32 6) := by
    unfold Agree
    decide
  obtain ⟨hstatic, -, hcert, hcipher⟩ := no_man_in_the_middle (implements_xx _ [1])
    lawful_hashingPrimitives hashLength_hashingPrimitives new_exampleHandshake
    hagree.1 hagree.2.1 hagree.2.2 (fun side => Driver.returns_of_drive (hreturned side)) (by decide +kernel) (by decide +kernel) side
  exact ⟨hreturned side, hstatic, hcert, hcipher⟩

end Example

end SecureWs
