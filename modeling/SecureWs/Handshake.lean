import SecureWs.Channel

/-!
# SecureWs.Handshake

The handshake of `handshake.py` and its driver `_drive_handshake`.

* `NoiseLibrary` is what the program uses of `noiseprotocol` and of X25519: a
  parameter.  A call either raises one of `_HANDSHAKE_ERRORS` or something
  else, and only the first kind is turned into a `HandshakeError`;
* `Driver` holds the local variables of the driver; `Driver.write` and
  `Driver.read` are the two branches of its loop;
* `Driver.iterate` is one pass of the loop, `Driver.drive` a run of it, and
  `Driver.calls` are the library calls that the run makes.
-/

namespace SecureWs

open Python

/-! ## The Noise library -/

/-- `_HANDSHAKE_ERRORS`. -/
inductive HandshakeErrors where
  | noiseHandshakeError
  | noiseInvalidMessage
  | noiseMaxNonceError
  | noiseValidationError
  | noiseValueError
  | invalidTag
  deriving DecidableEq, Repr

/-- What a call of the library raises: one of `_HANDSHAKE_ERRORS`, with its
text, or something else. -/
inductive NoiseException where
  | listed (cls : HandshakeErrors) (text : Text)
  | other (exc : PyError)
  deriving DecidableEq, Repr

/-- A `NoiseConnection`, and the derivation of X25519 public keys.  `entropy`
is what the library draws for its ephemeral key; `remoteStatic` is the key in
the handshake state's `rs`. -/
structure NoiseLibrary (Conn Key : Type) where
  publicKey : Bytes → Bytes
  startHandshake (initiator : Bool) (staticPrivate prologue entropy : Bytes) : Conn
  handshakeFinished : Conn → Bool
  writeMessage : Bytes → Imp NoiseException Conn Bytes
  readMessage : Bytes → Imp NoiseException Conn Bytes
  remoteStatic : Conn → Option Bytes
  handshakeHash : Conn → Bytes
  cipherStateEncrypt : Conn → CipherState Key
  cipherStateDecrypt : Conn → CipherState Key

variable {Conn Key : Type}

/-- `except _HANDSHAKE_ERRORS as exc: raise HandshakeError(f"…{exc}")`. -/
def NoiseException.raised (context : String) : NoiseException → PyError
  | listed _ text => .handshakeError (context :: text)
  | other exc => exc

/-- `isinstance(exc, HandshakeError)`. -/
def IsHandshakeError (exc : PyError) : Prop := ∃ message, exc = .handshakeError message

theorem isHandshakeError_raised_iff (context : String) (exc : NoiseException) :
    IsHandshakeError (exc.raised context) ↔ ∀ e, exc = .other e → IsHandshakeError e := by
  cases exc with
  | listed cls text => simp [NoiseException.raised, IsHandshakeError]
  | other e => simp [NoiseException.raised]

/-! ## `NoiseXXHandshake` -/

structure NoiseXXHandshake (Conn : Type) where
  conn : Conn
  initiator : Bool
  localStaticPub : Bytes
  remoteStatic : Option Bytes
  step : Nat

namespace NoiseXXHandshake

variable (lib : NoiseLibrary Conn Key)

/-- `NoiseXXHandshake(initiator=…, static_private=…, prologue=…)`. -/
def new (initiator : Bool) (staticPrivate prologue entropy : Bytes) :
    Except PyError (NoiseXXHandshake Conn) := do
  raiseIf (staticPrivate.length ≠ X25519_KEY_LEN) (.valueError
    ["X25519 private key must be ", .int X25519_KEY_LEN, " bytes, got ", .int staticPrivate.length])
  return ⟨lib.startHandshake initiator staticPrivate prologue entropy, initiator,
    lib.publicKey staticPrivate, none, 0⟩

/-- The handshake that an end starts. -/
theorem eq_of_new {lib : NoiseLibrary Conn Key} {initiator : Bool}
    {secret prologue entropy : Bytes} {hs : NoiseXXHandshake Conn}
    (hnew : NoiseXXHandshake.new lib initiator secret prologue entropy = .ok hs) :
    hs = ⟨lib.startHandshake initiator secret prologue entropy, initiator, lib.publicKey secret,
      none, 0⟩ := by
  unfold NoiseXXHandshake.new at hnew
  rw [raiseIf_bind_except] at hnew
  split_ifs at hnew
  exact (Except.ok.inj hnew).symm

def isComplete (self : NoiseXXHandshake Conn) : Bool := lib.handshakeFinished self.conn

def nextIsWrite (self : NoiseXXHandshake Conn) : Bool := (self.step % 2 == 0) == self.initiator

/-- A call on `self._conn`, whose handshake errors are raised again as
`HandshakeError`. -/
def onConn {α : Type} (context : String) (m : Imp NoiseException Conn α) :
    Imp PyError (NoiseXXHandshake Conn) α :=
  Imp.onField conn (fun self conn => { self with conn := conn }) (Imp.mapError (·.raised context) m)

/-- `hs.write_message(payload)`. -/
def writeMessage (payload : Bytes) : Imp PyError (NoiseXXHandshake Conn) Bytes := do
  let data ← onConn "failed to write handshake message: " (lib.writeMessage payload)
  modify fun self => { self with step := self.step + 1 }
  return data

/-- `self._capture_remote_static(hs_state)`. -/
def captureRemoteStatic : Imp PyError (NoiseXXHandshake Conn) Unit :=
  modify fun self => match lib.remoteStatic self.conn with
    | some key => { self with remoteStatic := some key }
    | none => self

/-- `hs.read_message(data)`. -/
def readMessage (data : Bytes) : Imp PyError (NoiseXXHandshake Conn) Bytes := do
  let payload ← onConn "handshake message rejected: " (lib.readMessage data)
  captureRemoteStatic lib
  modify fun self => { self with step := self.step + 1 }
  return payload

variable {lib}

/-- A message that the library writes. -/
theorem run_writeMessage_of_ok {self : NoiseXXHandshake Conn} {payload data : Bytes} {conn : Conn}
    (h : (lib.writeMessage payload).run self.conn = (.ok data, conn)) :
    (writeMessage lib payload).run self =
      (.ok data, { self with conn := conn, step := self.step + 1 }) := by
  rw [writeMessage, Imp.run_bind, onConn, Imp.run_onField, Imp.run_mapError, h]
  rfl

/-- A message that the library reads. -/
theorem run_readMessage_of_ok {self : NoiseXXHandshake Conn} {payload data : Bytes} {conn : Conn}
    (h : (lib.readMessage data).run self.conn = (.ok payload, conn)) :
    (readMessage lib data).run self = (.ok payload, { self with
      conn := conn
      remoteStatic := (lib.remoteStatic conn).or self.remoteStatic
      step := self.step + 1 }) := by
  rw [readMessage, Imp.run_bind, onConn, Imp.run_onField, Imp.run_mapError, h]
  show Imp.run (captureRemoteStatic lib >>= _) _ = _
  rw [Imp.run_bind, captureRemoteStatic, Imp.run_modify]
  cases lib.remoteStatic conn with
  | none => rfl
  | some key => rfl

variable (lib)

/-- `hs.result()`. -/
def result (self : NoiseXXHandshake Conn) : Except PyError (HandshakeResult Key) := do
  raiseIf (self.isComplete lib = false) (.handshakeError ["handshake not finished"])
  match self.remoteStatic with
  | none => throw (.handshakeError ["peer static key was not captured"])
  | some remoteStatic => return ⟨self.initiator, lib.handshakeHash self.conn, remoteStatic,
      self.localStaticPub, lib.cipherStateEncrypt self.conn, lib.cipherStateDecrypt self.conn⟩

end NoiseXXHandshake

/-! ## The driver -/

/-- A message as `ws.recv()` returns it. -/
inductive WsMessage where
  | text (s : Str)
  | binary (data : Bytes)
  deriving DecidableEq, Repr

/-- `_as_bytes(message)`. -/
def asBytes : WsMessage → Except PyError Bytes
  | .text _ => .error (.protocolError ["expected a binary WebSocket message, got text"])
  | .binary data => .ok data

/-- The arguments and the local variables of `_drive_handshake`. -/
structure Driver (Conn : Type) where
  hs : NoiseXXHandshake Conn
  localCertBytes : Bytes
  peerCert : Bytes
  writeIndex : Nat

namespace Driver

/-- `_drive_handshake(hs, ws, local_cert_bytes)`, at its start. -/
def init (hs : NoiseXXHandshake Conn) (localCertBytes : Bytes) : Driver Conn :=
  ⟨hs, localCertBytes, [], 0⟩

/-- A call on `hs`. -/
def onHs {α : Type} (m : Imp PyError (NoiseXXHandshake Conn) α) : Imp PyError (Driver Conn) α :=
  Imp.onField hs (fun self hs => { self with hs := hs }) m

/-- The payload of the next message to write: the certificate goes into the
initiator's second message and into the responder's first. -/
def payload (self : Driver Conn) : Bytes :=
  if (if self.hs.initiator = true then self.writeIndex = 1 else self.writeIndex = 0) then
    self.localCertBytes
  else []

variable (lib : NoiseLibrary Conn Key)

/-- The writing branch of the loop; the result is the frame handed to
`ws.send`. -/
def write : Imp PyError (Driver Conn) Bytes := do
  let self ← get
  let msg ← onHs (NoiseXXHandshake.writeMessage lib self.payload)
  let frame ← Imp.ofExcept (encode .handshake self.writeIndex msg)
  modify fun self => { self with writeIndex := self.writeIndex + 1 }
  return frame

/-- The payload of what `ws.recv()` returned, which must be a HANDSHAKE frame. -/
def handshakePayload (message : WsMessage) : Except PyError Bytes := do
  let frame ← decode (← asBytes message)
  raiseIf (frame.msgType ≠ .handshake)
    (.protocolError ["expected HANDSHAKE frame, got ", frame.msgType.name])
  return frame.payload

/-- The reading branch of the loop. -/
def read (message : WsMessage) : Imp PyError (Driver Conn) Unit := do
  let data ← Imp.ofExcept (handshakePayload message)
  let received ← onHs (NoiseXXHandshake.readMessage lib data)
  modify fun self => if received ≠ [] then { self with peerCert := received } else self

/-- The writing branch, evaluated. -/
theorem run_write (self : Driver Conn) : (write lib).run self =
    match (NoiseXXHandshake.writeMessage lib self.payload).run self.hs with
    | (.error exc, hs) => (.error exc, { self with hs := hs })
    | (.ok msg, hs) => match encode .handshake self.writeIndex msg with
        | .error exc => (.error exc, { self with hs := hs })
        | .ok frame => (.ok frame, { self with hs := hs, writeIndex := self.writeIndex + 1 }) := by
  rw [write, Imp.run_bind_of_ok (Imp.run_get self), Imp.run_bind, onHs, Imp.run_onField]
  cases (NoiseXXHandshake.writeMessage lib self.payload).run self.hs with
  | mk result hs => cases result with
    | error exc => rfl
    | ok msg =>
        show Imp.run (Imp.ofExcept _ >>= _) _ = _
        rw [Imp.run_bind, Imp.run_ofExcept]
        simp only
        cases encode .handshake self.writeIndex msg <;> rfl

/-- The reading branch, evaluated. -/
theorem run_read (message : WsMessage) (self : Driver Conn) : (read lib message).run self =
    match handshakePayload message with
    | .error exc => (.error exc, self)
    | .ok data => match (NoiseXXHandshake.readMessage lib data).run self.hs with
        | (.error exc, hs) => (.error exc, { self with hs := hs })
        | (.ok received, hs) => (.ok (), { self with
            hs := hs, peerCert := if received ≠ [] then received else self.peerCert }) := by
  rw [read, Imp.run_bind, Imp.run_ofExcept]
  cases handshakePayload message with
  | error exc => rfl
  | ok data =>
      show Imp.run (onHs _ >>= _) self = _
      rw [Imp.run_bind, onHs, Imp.run_onField]
      simp only
      cases (NoiseXXHandshake.readMessage lib data).run self.hs with
      | mk result hs => cases result with
        | error exc => rfl
        | ok received =>
            show (Except.ok (), if received ≠ [] then _ else _) = _
            by_cases h : received ≠ []
            · simp only [if_pos h]
            · simp only [if_neg h]

/-- What the driver returns after its loop. -/
def returned (self : Driver Conn) : Except PyError (HandshakeResult Key × Bytes) := do
  return (← self.hs.result lib, self.peerCert)

end Driver

/-- What one pass of the driver's loop does: leave the loop and return or
raise, wait for a message, write a frame, or read one. -/
inductive Iteration (Conn Key : Type) where
  | returned (result : HandshakeResult Key) (peerCert : Bytes)
  | raised (exc : PyError)
  | waiting
  | wrote (frame : Bytes) (driver : Driver Conn)
  | read (driver : Driver Conn)

namespace Driver

variable (lib : NoiseLibrary Conn Key)

/-- One pass of the loop, where `first` is the next message of the peer if it
has arrived. -/
def iterate (self : Driver Conn) (first : Option WsMessage) : Iteration Conn Key :=
  if self.hs.isComplete lib = true then
    match self.returned lib with
    | .ok (result, peerCert) => .returned result peerCert
    | .error exc => .raised exc
  else if self.hs.nextIsWrite = true then
    match (write lib).run self with
    | (.ok frame, driver) => .wrote frame driver
    | (.error exc, _) => .raised exc
  else match first with
    | none => .waiting
    | some message => match (read lib message).run self with
        | (.ok _, driver) => .read driver
        | (.error exc, _) => .raised exc

variable {lib}

def frame (index : Nat) (msg : Bytes) (hindex : index ≤ MAX_SEQ) (hfits : msg.length ≤ MAX_PAYLOAD) :
    Frame := ⟨.handshake, index, msg, hindex, hfits⟩

/-- A pass that writes. -/
theorem iterate_wrote {self : Driver Conn} {msg : Bytes} {conn : Conn}
    (hrunning : lib.handshakeFinished self.hs.conn = false) (hturn : self.hs.nextIsWrite = true)
    (h : (lib.writeMessage self.payload).run self.hs.conn = (.ok msg, conn))
    (hindex : self.writeIndex ≤ MAX_SEQ) (hfits : msg.length ≤ MAX_PAYLOAD)
    (first : Option WsMessage) :
    self.iterate lib first = .wrote (frame self.writeIndex msg hindex hfits).wire
      { self with
        hs := { self.hs with conn := conn, step := self.hs.step + 1 }
        writeIndex := self.writeIndex + 1 } := by
  have hencode := encode_frame (frame self.writeIndex msg hindex hfits)
  have hrun : self.hs.isComplete lib = false := hrunning
  simp only [frame] at hencode
  simp only [iterate, hrun, Bool.false_eq_true, if_false, hturn, if_true, run_write,
    NoiseXXHandshake.run_writeMessage_of_ok h, hencode, frame]

/-- A pass that reads. -/
theorem iterate_read {self : Driver Conn} {index : Nat} {msg payload : Bytes} {conn : Conn}
    (hrunning : lib.handshakeFinished self.hs.conn = false) (hturn : self.hs.nextIsWrite = false)
    (h : (lib.readMessage msg).run self.hs.conn = (.ok payload, conn)) (hindex : index ≤ MAX_SEQ)
    (hfits : msg.length ≤ MAX_PAYLOAD) :
    self.iterate lib (some (.binary (frame index msg hindex hfits).wire)) = .read
      { self with
        hs := { self.hs with
          conn := conn
          remoteStatic := (lib.remoteStatic conn).or self.hs.remoteStatic
          step := self.hs.step + 1 }
        peerCert := if payload ≠ [] then payload else self.peerCert } := by
  have hdecode := decode_wire (frame index msg hindex hfits)
  have hrun : self.hs.isComplete lib = false := hrunning
  have hpayload : handshakePayload (.binary (frame index msg hindex hfits).wire) = .ok msg := by
    simp only [handshakePayload, asBytes, bind, Except.bind, hdecode]
    rfl
  simp only [iterate, hrun, Bool.false_eq_true, if_false, hturn, run_read, hpayload,
    NoiseXXHandshake.run_readMessage_of_ok h]

/-- A pass that waits for a message. -/
theorem iterate_waiting {self : Driver Conn}
    (hrunning : lib.handshakeFinished self.hs.conn = false) (hturn : self.hs.nextIsWrite = false) :
    self.iterate lib none = .waiting := by
  have hrun : self.hs.isComplete lib = false := hrunning
  simp only [iterate, hrun, Bool.false_eq_true, if_false, hturn]

/-- A pass that leaves the loop. -/
theorem iterate_returned {self : Driver Conn} {key : Bytes}
    (hfinished : lib.handshakeFinished self.hs.conn = true)
    (hkey : self.hs.remoteStatic = some key) (first : Option WsMessage) :
    self.iterate lib first = .returned
      ⟨self.hs.initiator, lib.handshakeHash self.hs.conn, key, self.hs.localStaticPub,
        lib.cipherStateEncrypt self.hs.conn, lib.cipherStateDecrypt self.hs.conn⟩ self.peerCert := by
  have hrun : self.hs.isComplete lib = true := hfinished
  have hreturned : self.returned lib = .ok (⟨self.hs.initiator, lib.handshakeHash self.hs.conn, key,
      self.hs.localStaticPub, lib.cipherStateEncrypt self.hs.conn,
      lib.cipherStateDecrypt self.hs.conn⟩, self.peerCert) := by
    unfold returned NoiseXXHandshake.result
    rw [raiseIf_bind_except, if_neg (by simp [hrun]), hkey]
    rfl
  simp only [iterate, hrun, if_true, hreturned]

/-! ## The passes of the driver, read backwards -/

variable {self driver : Driver Conn} {first : Option WsMessage}

/-- A HANDSHAKE frame, taken apart. -/
theorem handshakePayload_wire {f : Frame} (h : f.msgType = .handshake) :
    handshakePayload (.binary f.wire) = .ok f.payload := by
  simp only [handshakePayload, asBytes, bind, Except.bind, decode_wire]
  simp [raiseIf, h, pure, Except.pure]

/-- A pass that wrote a frame. -/
theorem wrote_of_iterate {frame : Bytes} (h : self.iterate lib first = .wrote frame driver) :
    self.hs.nextIsWrite = true ∧ ∃ (f : Frame) (conn : Conn),
      (lib.writeMessage self.payload).run self.hs.conn = (.ok f.payload, conn) ∧
        frame = f.wire ∧ f.msgType = .handshake ∧ f.seq = self.writeIndex ∧
        driver = { self with
          hs := { self.hs with conn := conn, step := self.hs.step + 1 }
          writeIndex := self.writeIndex + 1 } := by
  unfold iterate at h
  by_cases hcomplete : self.hs.isComplete lib = true
  · rw [if_pos hcomplete] at h
    cases hreturned : self.returned lib <;> simp [hreturned] at h
  rw [if_neg hcomplete] at h
  by_cases hturn : self.hs.nextIsWrite = true
  · rw [if_pos hturn, run_write] at h
    refine ⟨hturn, ?_⟩
    cases hwrite : (lib.writeMessage self.payload).run self.hs.conn with
    | mk result conn => cases result with
      | error exc =>
          have hrun : (NoiseXXHandshake.writeMessage lib self.payload).run self.hs =
              (.error (exc.raised "failed to write handshake message: "),
                { self.hs with conn := conn }) := by
            rw [NoiseXXHandshake.writeMessage, Imp.run_bind, NoiseXXHandshake.onConn,
              Imp.run_onField, Imp.run_mapError, hwrite]
            rfl
          simp [hrun] at h
      | ok msg =>
          simp only [NoiseXXHandshake.run_writeMessage_of_ok hwrite] at h
          cases hencode : encode .handshake self.writeIndex msg with
          | error exc => simp [hencode] at h
          | ok bytes =>
              simp only [hencode, Iteration.wrote.injEq] at h
              obtain ⟨rfl, rfl⟩ := h
              obtain ⟨f, htype, hseq, rfl, rfl⟩ := encode_eq_ok_iff.mp hencode
              exact ⟨f, conn, rfl, rfl, htype, Int.ofNat_inj.mp hseq, rfl⟩
  · rw [if_neg hturn] at h
    cases first with
    | none => simp at h
    | some message =>
        simp only at h
        split at h <;> simp at h

/-- A pass that read a message. -/
theorem read_of_iterate (h : self.iterate lib first = .read driver) :
    self.hs.nextIsWrite = false ∧ ∃ message msg payload conn, first = some message ∧
      handshakePayload message = .ok msg ∧
        (lib.readMessage msg).run self.hs.conn = (.ok payload, conn) ∧
        driver = { self with
          hs := { self.hs with
            conn := conn
            remoteStatic := (lib.remoteStatic conn).or self.hs.remoteStatic
            step := self.hs.step + 1 }
          peerCert := if payload ≠ [] then payload else self.peerCert } := by
  unfold iterate at h
  by_cases hcomplete : self.hs.isComplete lib = true
  · rw [if_pos hcomplete] at h
    cases hreturned : self.returned lib <;> simp [hreturned] at h
  rw [if_neg hcomplete] at h
  by_cases hturn : self.hs.nextIsWrite = true
  · rw [if_pos hturn] at h
    split at h <;> simp at h
  rw [if_neg hturn] at h
  refine ⟨by simpa using hturn, ?_⟩
  cases first with
  | none => simp at h
  | some message =>
      simp only [run_read] at h
      cases hpayload : handshakePayload message with
      | error exc => simp [hpayload] at h
      | ok msg =>
          simp only [hpayload] at h
          cases hread : (lib.readMessage msg).run self.hs.conn with
          | mk result conn => cases result with
            | error exc =>
                have hrun : (NoiseXXHandshake.readMessage lib msg).run self.hs =
                    (.error (exc.raised "handshake message rejected: "),
                      { self.hs with conn := conn }) := by
                  rw [NoiseXXHandshake.readMessage, Imp.run_bind, NoiseXXHandshake.onConn,
                    Imp.run_onField, Imp.run_mapError, hread]
                  rfl
                simp [hrun] at h
            | ok payload =>
                simp only [NoiseXXHandshake.run_readMessage_of_ok hread, Iteration.read.injEq] at h
                exact ⟨message, msg, payload, conn, rfl, hpayload, hread, h.symm⟩

/-- A pass that left the loop. -/
theorem returned_of_iterate {result : HandshakeResult Key} {peerCert : Bytes}
    (h : self.iterate lib first = .returned result peerCert) :
    lib.handshakeFinished self.hs.conn = true ∧ peerCert = self.peerCert ∧
      ∃ key, self.hs.remoteStatic = some key ∧
        result = ⟨self.hs.initiator, lib.handshakeHash self.hs.conn, key, self.hs.localStaticPub,
          lib.cipherStateEncrypt self.hs.conn, lib.cipherStateDecrypt self.hs.conn⟩ := by
  unfold iterate at h
  by_cases hcomplete : self.hs.isComplete lib = true
  · rw [if_pos hcomplete, returned, NoiseXXHandshake.result, raiseIf_bind_except,
      if_neg (by simp [hcomplete])] at h
    refine ⟨hcomplete, ?_⟩
    cases hkey : self.hs.remoteStatic with
    | none => simp [hkey, bind, Except.bind] at h
    | some key =>
        simp only [hkey, bind, Except.bind, pure, Except.pure, Iteration.returned.injEq] at h
        exact ⟨h.2.symm, key, rfl, h.1.symm⟩
  rw [if_neg hcomplete] at h
  by_cases hturn : self.hs.nextIsWrite = true
  · rw [if_pos hturn] at h
    split at h <;> simp at h
  · rw [if_neg hturn] at h
    cases first with
    | none => simp at h
    | some message =>
        simp only at h
        split at h <;> simp at h

/-- Once the library has finished, the loop ends. -/
theorem ends_of_finished (hfinished : lib.handshakeFinished self.hs.conn = true)
    (first : Option WsMessage) :
    (∃ result peerCert, self.iterate lib first = .returned result peerCert) ∨
      ∃ exc, self.iterate lib first = .raised exc := by
  have hcomplete : self.hs.isComplete lib = true := hfinished
  unfold iterate
  rw [if_pos hcomplete]
  cases self.returned lib with
  | ok r => exact .inl ⟨r.1, r.2, rfl⟩
  | error exc => exact .inr ⟨exc, rfl⟩

/-- As long as the loop goes on, the library has not finished. -/
theorem running_of_goes_on {iteration : Iteration Conn Key}
    (h : self.iterate lib first = iteration)
    (hreturned : ∀ result peerCert, iteration ≠ .returned result peerCert)
    (hraised : ∀ exc, iteration ≠ .raised exc) : lib.handshakeFinished self.hs.conn = false := by
  by_contra hfinished
  obtain ⟨result, peerCert, hends⟩ | ⟨exc, hends⟩ :=
    ends_of_finished ((Bool.not_eq_false _).mp hfinished) first
  · exact hreturned result peerCert (h.symm.trans hends)
  · exact hraised exc (h.symm.trans hends)

/-- A pass that writes: the library has not finished. -/
theorem running_of_wrote {frame : Bytes} (h : self.iterate lib first = .wrote frame driver) :
    lib.handshakeFinished self.hs.conn = false :=
  running_of_goes_on h (by simp) (by simp)

/-- A pass that reads: the library has not finished. -/
theorem running_of_read (h : self.iterate lib first = .read driver) :
    lib.handshakeFinished self.hs.conn = false :=
  running_of_goes_on h (by simp) (by simp)

/-- A pass depends on the payload of the frame only. -/
theorem iterate_congr {message message' : WsMessage}
    (h : handshakePayload message = handshakePayload message') :
    self.iterate lib (some message) = self.iterate lib (some message') := by
  simp only [iterate, run_read, h]

/-- A pass that writes does not look at what has arrived. -/
theorem iterate_wrote_congr {frame : Bytes}
    (h : self.iterate lib none = .wrote frame driver) : self.iterate lib first = .wrote frame driver := by
  unfold iterate at h ⊢
  by_cases hcomplete : self.hs.isComplete lib = true
  · rw [if_pos hcomplete] at h ⊢
    exact h
  rw [if_neg hcomplete] at h ⊢
  by_cases hturn : self.hs.nextIsWrite = true
  · rw [if_pos hturn] at h ⊢
    exact h
  · rw [if_neg hturn] at h
    cases h

variable (lib)

/-- The first `n` passes of the loop, while these messages arrive: the last of
them, or the first that ends the loop or waits. -/
def drive : Nat → List WsMessage → Driver Conn → Iteration Conn Key
  | 0, _, self => .read self
  | n + 1, messages, self => match self.iterate lib messages.head? with
      | .wrote _ driver => drive n messages driver
      | .read driver => drive n messages.tail driver
      | stop => stop

end Driver

/-! ## The calls of a run -/

inductive NoiseCall where
  | write (payload : Bytes)
  | read (data : Bytes)
  deriving DecidableEq, Repr

/-- The call, on the library's state. -/
def NoiseCall.run (lib : NoiseLibrary Conn Key) : NoiseCall → Imp NoiseException Conn Bytes
  | write payload => lib.writeMessage payload
  | read data => lib.readMessage data

/-- The call, as the driver makes it. -/
def NoiseCall.made (lib : NoiseLibrary Conn Key) :
    NoiseCall → Imp PyError (NoiseXXHandshake Conn) Bytes
  | write payload => NoiseXXHandshake.writeMessage lib payload
  | read data => NoiseXXHandshake.readMessage lib data

namespace Driver

variable (lib : NoiseLibrary Conn Key)

/-- The call that one pass of the loop makes. -/
def call? (self : Driver Conn) (first : Option WsMessage) : Option NoiseCall :=
  if self.hs.isComplete lib = true then none
  else if self.hs.nextIsWrite = true then some (.write self.payload)
  else first.bind fun message => (handshakePayload message).toOption.map .read

/-- The calls of the first `n` passes, each with the handshake it is made on. -/
def calls : Nat → List WsMessage → Driver Conn → List (NoiseXXHandshake Conn × NoiseCall)
  | 0, _, _ => []
  | n + 1, messages, self =>
      ((self.call? lib messages.head?).map fun call => (self.hs, call)).toList ++
        match self.iterate lib messages.head? with
        | .wrote _ driver => calls n messages driver
        | .read driver => calls n messages.tail driver
        | _ => []

end Driver

/-- The library's documentation: `exchanges` are the X25519 exchanges of a
call, each with the own private key and the peer's public key.  Whatever else
goes wrong, only an all-zero shared secret raises something outside
`_HANDSHAKE_ERRORS`: the `ValueError` of `cryptography`. -/
structure NoiseLibrary.Documented (lib : NoiseLibrary Conn Key) (x25519 : Bytes → Bytes → Bytes)
    (exchanges : Conn → NoiseCall → List (Bytes × Bytes)) : Prop where
  other_iff : ∀ conn (call : NoiseCall), (∃ exc, ((call.run lib).run conn).1 = .error (.other exc)) ↔
    ∃ exchange ∈ exchanges conn call, x25519 exchange.1 exchange.2 = List.replicate 32 0
  valueError : ∀ conn (call : NoiseCall) exc, ((call.run lib).run conn).1 = .error (.other exc) →
    ∃ text, exc = .valueError text

end SecureWs
