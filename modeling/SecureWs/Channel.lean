import SecureWs.Framing
import SecureWs.Replay
import SecureWs.Rekey
import SecureWs.Cipher

/-!
# SecureWs.Channel

The secure channel of `channel.py`: after the handshake it turns plaintexts
into numbered, authenticated frames and back.

* Sending: `encrypt` and `closeFrame` number a frame, pack its header and
  encrypt under the header as associated data.  `run_emit` evaluates one
  frame, `encrypt_outcome` and `run_closeFrame` a whole call.
* Receiving: `decrypt_outcome` says that a frame is either rejected, and then
  nothing changed, or authenticated, and then the channel moved as the
  frame's type says.
* `encrypt_keeps_receiver` and `decrypt_keeps_sender`: the two directions do
  not touch each other's state.
-/

namespace SecureWs

open Python

variable {Key T : Type} [Zero T] [LE T]

/-- What the handshake hands over. -/
structure HandshakeResult (Key : Type) where
  isInitiator : Bool
  handshakeHash : Bytes
  remoteStatic : Bytes
  localStatic : Bytes
  sendCipher : CipherState Key
  recvCipher : CipherState Key

/-- A `SecureChannel`.  `log` collects the records it hands to the logger. -/
structure SecureChannel (Key T : Type) [Zero T] [LE T] where
  sendCipher : CipherState Key
  recvCipher : CipherState Key
  handshakeHash : Bytes
  remoteStatic : Bytes
  localStatic : Bytes
  replay : ReplayWindow
  rekey : RekeyPolicy T
  sendSeq : Nat
  closed : Bool
  log : List LogRecord

namespace SecureChannel

/-- `SecureChannel(result, replay_window=…, rekey_policy=…)`. -/
def init (result : HandshakeResult Key) (replay : ReplayWindow) (rekey : RekeyPolicy T) :
    SecureChannel Key T :=
  ⟨result.sendCipher, result.recvCipher, result.handshakeHash, result.remoteStatic,
    result.localStatic, replay, rekey, 0, false, []⟩

/-- A method of the channel. -/
abbrev Method (Key T : Type) [Zero T] [LE T] (α : Type) := Imp PyError (SecureChannel Key T) α

/-! ## Calls on the parts of the channel -/

/-- A call on `self._send_cipher`. -/
def onSendCipher {α : Type} (m : Imp PyError (CipherState Key) α) : Method Key T α :=
  Imp.onField sendCipher (fun c cs => { c with sendCipher := cs }) m

/-- A call on `self._recv_cipher`. -/
def onRecvCipher {α : Type} (m : Imp PyError (CipherState Key) α) : Method Key T α :=
  Imp.onField recvCipher (fun c cs => { c with recvCipher := cs }) m

/-- A call on `self._replay`. -/
def onReplay {α : Type} (m : Imp PyError ReplayWindow α) : Method Key T α :=
  Imp.onField replay (fun c w => { c with replay := w }) m

/-- A call on `self._rekey`. -/
def onRekey {α : Type} (m : Imp PyError (RekeyPolicy T) α) : Method Key T α :=
  Imp.onField rekey (fun c r => { c with rekey := r }) m

/-- `logger.debug(…)`. -/
def logDebug (record : LogRecord) : Method Key T Unit :=
  modify fun c => { c with log := c.log ++ [record] }

/-! ## Sending -/

/-- `self._ensure_open()`. -/
def ensureOpen : Method Key T Unit := do
  let self ← get
  raiseIf (self.closed = true) (.channelClosedError ["channel is closed"])

/-- `self._next_send_seq()`. -/
def nextSendSeq : Method Key T Nat :=
  modifyGet fun self => (self.sendSeq, { self with sendSeq := self.sendSeq + 1 })

/-- What `_emit_transport` and `_emit_control` share: number a frame, encrypt
under its header and log it. -/
def emit (A : Aead Key) (msgType : MessageType) (plaintext : Bytes) (record : Nat → LogRecord) :
    Method Key T Bytes := do
  let seq ← nextSendSeq
  let header ← Imp.ofExcept (packHeader msgType seq ((plaintext.length + AEAD_TAG_LEN : Nat) : Int))
  let ciphertext ← onSendCipher (CipherState.encryptWithAd A header plaintext)
  logDebug (record seq)
  return header ++ ciphertext

/-- `self._emit_transport(plaintext)`. -/
def emitTransport (A : Aead Key) (plaintext : Bytes) : Method Key T Bytes :=
  emit A .transport plaintext fun seq =>
    debug "send TRANSPORT seq=%d len=%d" [.int seq, .int plaintext.length]

/-- `self._emit_control(msg_type)`. -/
def emitControl (A : Aead Key) (msgType : MessageType) : Method Key T Bytes :=
  emit A msgType [] fun seq => debug "send %s seq=%d" [msgType.name, .int seq]

/-- The `if self._rekey.due()` block of `encrypt`: the REKEY frame goes out
under the old key, then the send key is replaced and the policy restarted. -/
def emitRekey (A : Aead Key) : Method Key T Bytes := do
  let self ← get
  logDebug (debug "rekey due after %d messages" [.int self.rekey.count])
  let frame ← emitControl A .rekey
  onSendCipher (CipherState.rekey A)
  onRekey RekeyPolicy.reset
  return frame

section Encrypt

variable [Sub T] [DecidableLE T]

/-- The frames that `encrypt` puts before the message. -/
def rekeyIfDue (A : Aead Key) : Method Key T (List Bytes) := do
  if ← onRekey RekeyPolicy.due then do
    let frame ← emitRekey A
    return [frame]
  else
    return []

def encrypt (A : Aead Key) (plaintext : Arg) : Method Key T (List Bytes) := do
  ensureOpen
  match plaintext with
  | .other => throw (.protocolError ["plaintext must be bytes-like"])
  | .bytesLike plaintext => do
      raiseIf (plaintext.length > MAX_PLAINTEXT) (.protocolError
        ["message too large: ", .int plaintext.length, " > ", .int MAX_PLAINTEXT])
      let frames ← rekeyIfDue A
      let frame ← emitTransport A plaintext
      onRekey RekeyPolicy.noteMessage
      return frames ++ [frame]

end Encrypt

def closeFrame (A : Aead Key) : Method Key T Bytes := do
  ensureOpen
  let frame ← emitControl A .close
  modify fun self => { self with closed := true }
  return frame

/-! ## Receiving -/

/-- What `decrypt` does with an authenticated frame, by its type. -/
def receive (A : Aead Key) (msgType : MessageType) (seq : Nat) (plaintext : Bytes) :
    Method Key T (Option Bytes) :=
  match msgType with
  | .transport => do
      logDebug (debug "recv TRANSPORT seq=%d len=%d" [.int seq, .int plaintext.length])
      return some plaintext
  | .rekey => do
      onRecvCipher (CipherState.rekey A)
      logDebug (debug "recv REKEY seq=%d -> ratcheted recv key" [.int seq])
      return none
  | .close => do
      modify fun self => { self with closed := true }
      logDebug (debug "recv CLOSE seq=%d -> channel closed" [.int seq])
      throw (.channelClosedError ["peer closed the channel"])
  | .handshake =>
      throw (.protocolError
        ["unexpected message type in transport phase: ", MessageType.handshake.name])

/-- `channel.decrypt(wire)`; `none` is the `None` of a REKEY frame. -/
def decrypt (A : Aead Key) (wire : Bytes) : Method Key T (Option Bytes) := do
  let self ← get
  raiseIf (self.closed = true) (.channelClosedError ["channel is closed"])
  let frame ← Imp.ofExcept (decode wire)
  onReplay (ReplayWindow.check frame.seq)
  let header ← Imp.ofExcept frame.header
  let plaintext ← tryCatch (onRecvCipher (CipherState.decryptWithAd A header frame.payload))
    fun exc => match exc with
      | .invalidTag => throw (.decryptionError ["authentication failed for ",
          frame.msgType.name, " seq=", .int frame.seq, " (tampered or truncated)"])
      | exc => throw exc
  onReplay (ReplayWindow.commit frame.seq)
  receive A frame.msgType frame.seq plaintext

/-! ## Evaluating the calls on the parts -/

theorem run_onSendCipher {α : Type} (m : Imp PyError (CipherState Key) α)
    (self : SecureChannel Key T) :
    (onSendCipher m).run self =
      ((m.run self.sendCipher).1, { self with sendCipher := (m.run self.sendCipher).2 }) := rfl

theorem run_onRecvCipher {α : Type} (m : Imp PyError (CipherState Key) α)
    (self : SecureChannel Key T) :
    (onRecvCipher m).run self =
      ((m.run self.recvCipher).1, { self with recvCipher := (m.run self.recvCipher).2 }) := rfl

theorem run_onReplay {α : Type} (m : Imp PyError ReplayWindow α) (self : SecureChannel Key T) :
    (onReplay m).run self =
      ((m.run self.replay).1, { self with replay := (m.run self.replay).2 }) := rfl

theorem run_onRekey {α : Type} (m : Imp PyError (RekeyPolicy T) α) (self : SecureChannel Key T) :
    (onRekey m).run self =
      ((m.run self.rekey).1, { self with rekey := (m.run self.rekey).2 }) := rfl

@[simp] theorem run_ensureOpen (self : SecureChannel Key T) :
    ensureOpen.run self =
      if self.closed = true then (.error (.channelClosedError ["channel is closed"]), self)
      else (.ok (), self) := by
  rw [ensureOpen, Imp.run_bind_of_ok (Imp.run_get self), raiseIf]
  split <;> rfl

/-! ## One frame -/

/-- The frame that `emit` returns. -/
def emitted (A : Aead Key) (self : SecureChannel Key T) (msgType : MessageType)
    (plaintext : Bytes) : Bytes :=
  let header := headerFor msgType self.sendSeq plaintext
  header ++ (self.sendCipher.sealing A header plaintext).ciphertext

/-- The channel after `emit` returned. -/
def afterEmit (A : Aead Key) (self : SecureChannel Key T) (msgType : MessageType)
    (plaintext : Bytes) (record : LogRecord) : SecureChannel Key T :=
  { self with
    sendSeq := self.sendSeq + 1
    sendCipher := self.sendCipher.afterSeal A (headerFor msgType self.sendSeq plaintext) plaintext
    log := self.log ++ [record] }

/-- The channel after `emit` raised: the number is gone. -/
def skipSeq (self : SecureChannel Key T) : SecureChannel Key T :=
  { self with sendSeq := self.sendSeq + 1 }

/-- Whether a frame can be numbered and encrypted. -/
def CanEmit (self : SecureChannel Key T) : Prop :=
  self.sendSeq ≤ MAX_SEQ ∧ self.sendCipher.nonce ≠ MAX_NONCE

instance (self : SecureChannel Key T) : Decidable self.CanEmit :=
  inferInstanceAs (Decidable (_ ∧ _))

/-- What `emit` raises: past the last sequence number `pack_header` refuses,
before that the cipher at its last nonce. -/
def emitError (self : SecureChannel Key T) : PyError :=
  if MAX_SEQ < self.sendSeq then .protocolError ["seq out of range: ", .int self.sendSeq]
  else .noiseMaxNonceError

/-- One frame, when its plaintext fits. -/
theorem run_emit (A : Aead Key) (msgType : MessageType) {plaintext : Bytes}
    (record : Nat → LogRecord) (self : SecureChannel Key T)
    (hlen : plaintext.length ≤ MAX_PLAINTEXT) :
    (emit A msgType plaintext record).run self =
      if self.CanEmit then
        (.ok (self.emitted A msgType plaintext),
          self.afterEmit A msgType plaintext (record self.sendSeq))
      else (.error self.emitError, self.skipSeq) := by
  have hseq : (nextSendSeq : Method Key T Nat).run self = (.ok self.sendSeq, self.skipSeq) := by
    simp [nextSendSeq, skipSeq]
  rw [emit, Imp.run_bind_of_ok hseq, Imp.run_bind, Imp.run_ofExcept]
  by_cases hmax : MAX_SEQ < self.sendSeq
  · rw [packHeader_of_lt msgType _ hmax]
    simp [CanEmit, emitError, Nat.not_le.mpr hmax, hmax]
  · have hlen' : plaintext.length + AEAD_TAG_LEN ≤ MAX_PAYLOAD := by
      simp only [MAX_PLAINTEXT, MAX_PAYLOAD, AEAD_TAG_LEN] at hlen ⊢
      omega
    rw [packHeader_of_le msgType (Nat.not_lt.mp hmax) hlen']
    simp only [Imp.run_bind, run_onSendCipher, CipherState.run_encryptWithAd]
    by_cases hn : self.sendCipher.nonce = MAX_NONCE
    · simp [CanEmit, emitError, skipSeq, hn, hmax]
    · simp [CanEmit, skipSeq, hn, Nat.not_lt.mp hmax, logDebug, emitted, afterEmit, headerFor]

/-! ## `encrypt` and `close_frame`, evaluated -/

def afterControl (A : Aead Key) (self : SecureChannel Key T) (msgType : MessageType) :
    SecureChannel Key T :=
  self.afterEmit A msgType [] (debug "send %s seq=%d" [msgType.name, .int self.sendSeq])

theorem run_emitControl (A : Aead Key) (msgType : MessageType) (self : SecureChannel Key T) :
    (emitControl A msgType).run self =
      if self.CanEmit then (.ok (self.emitted A msgType []), self.afterControl A msgType)
      else (.error self.emitError, self.skipSeq) :=
  run_emit A msgType _ self (Nat.zero_le _)

def afterTransport (A : Aead Key) (self : SecureChannel Key T) (plaintext : Bytes) :
    SecureChannel Key T :=
  let self := self.afterEmit A .transport plaintext
    (debug "send TRANSPORT seq=%d len=%d" [.int self.sendSeq, .int plaintext.length])
  { self with rekey := self.rekey.afterNote }

def afterRekey (A : Aead Key) (self : SecureChannel Key T) : SecureChannel Key T :=
  let self := self.afterControl A .rekey
  { self with sendCipher := self.sendCipher.ratchet A, rekey := self.rekey.afterReset }

def afterClose (A : Aead Key) (self : SecureChannel Key T) : SecureChannel Key T :=
  { self.afterControl A .close with closed := true }

/-- `close_frame` on an open channel. -/
theorem run_closeFrame (A : Aead Key) (self : SecureChannel Key T) :
    (closeFrame A).run self =
      if self.closed = true then (.error (.channelClosedError ["channel is closed"]), self)
      else if self.CanEmit then (.ok (self.emitted A .close []), self.afterClose A)
      else (.error self.emitError, self.skipSeq) := by
  rw [closeFrame, Imp.run_bind, run_ensureOpen]
  by_cases hc : self.closed = true
  · simp [hc]
  · simp only [if_neg hc, Imp.run_bind, run_emitControl]
    by_cases he : self.CanEmit
    · simp [he, afterClose]
    · simp [he]

/-- The channel after the policy was asked. -/
def polled (self : SecureChannel Key T) : SecureChannel Key T :=
  { self with rekey := self.rekey.afterDue }

/-- The channel after the policy was asked and the answer was logged. -/
def rekeyDue (self : SecureChannel Key T) : SecureChannel Key T :=
  { self.polled with
    log := self.log ++ [debug "rekey due after %d messages" [.int self.rekey.afterDue.count]] }

theorem run_emitRekey (A : Aead Key) (self : SecureChannel Key T) :
    (emitRekey A).run self.polled =
      if self.CanEmit then (.ok (self.emitted A .rekey []), self.rekeyDue.afterRekey A)
      else (.error self.emitError, self.rekeyDue.skipSeq) := by
  have hlog : (logDebug (debug "rekey due after %d messages"
      [.int self.polled.rekey.count])).run self.polled = (.ok (), self.rekeyDue) := rfl
  rw [emitRekey, Imp.run_bind_of_ok (Imp.run_get _), Imp.run_bind_of_ok hlog, Imp.run_bind,
    run_emitControl]
  have hcan : self.rekeyDue.CanEmit ↔ self.CanEmit := Iff.rfl
  by_cases he : self.CanEmit
  · simp only [hcan, if_pos he, Imp.run_bind, run_onSendCipher, run_onRekey,
      CipherState.run_rekey, RekeyPolicy.run_reset, Imp.run_pure]
    rfl
  · simp only [hcan, if_neg he]
    rfl

variable [Sub T] [DecidableLE T]

/-- The channel when `encrypt` comes to the message itself. -/
def beforeTransport (A : Aead Key) (self : SecureChannel Key T) : SecureChannel Key T :=
  if self.rekey.isDue = true then self.rekeyDue.afterRekey A else self.polled

/-- The frames before the message. -/
def rekeyFrames (A : Aead Key) (self : SecureChannel Key T) : List Bytes :=
  if self.rekey.isDue = true then [self.emitted A .rekey []] else []

inductive EncryptOutcome (A : Aead Key) (self : SecureChannel Key T) :
    Arg → Except PyError (List Bytes) × SecureChannel Key T → Prop where
  | closed {arg} (hclosed : self.closed = true) :
      EncryptOutcome A self arg (.error (.channelClosedError ["channel is closed"]), self)
  | notBytes (hopen : self.closed = false) :
      EncryptOutcome A self .other (.error (.protocolError ["plaintext must be bytes-like"]), self)
  | tooLarge {plaintext} (hopen : self.closed = false) (hlen : plaintext.length > MAX_PLAINTEXT) :
      EncryptOutcome A self (.bytesLike plaintext) (.error (.protocolError
        ["message too large: ", .int plaintext.length, " > ", .int MAX_PLAINTEXT]), self)
  | rekeyFailed {plaintext} (hopen : self.closed = false)
      (hlen : plaintext.length ≤ MAX_PLAINTEXT) (hdue : self.rekey.isDue = true)
      (hfull : ¬ self.CanEmit) :
      EncryptOutcome A self (.bytesLike plaintext) (.error self.emitError, self.rekeyDue.skipSeq)
  | transportFailed {plaintext} (hopen : self.closed = false)
      (hlen : plaintext.length ≤ MAX_PLAINTEXT) (hdue : self.rekey.isDue = true → self.CanEmit)
      (hfull : ¬ (self.beforeTransport A).CanEmit) :
      EncryptOutcome A self (.bytesLike plaintext)
        (.error (self.beforeTransport A).emitError, (self.beforeTransport A).skipSeq)
  | sent {plaintext} (hopen : self.closed = false) (hlen : plaintext.length ≤ MAX_PLAINTEXT)
      (hdue : self.rekey.isDue = true → self.CanEmit) (hcan : (self.beforeTransport A).CanEmit) :
      EncryptOutcome A self (.bytesLike plaintext)
        (.ok (self.rekeyFrames A ++ [(self.beforeTransport A).emitted A .transport plaintext]),
          (self.beforeTransport A).afterTransport A plaintext)

theorem run_rekeyIfDue (A : Aead Key) (self : SecureChannel Key T) :
    (rekeyIfDue A).run self =
      if self.rekey.isDue = true ∧ ¬ self.CanEmit then
        (.error self.emitError, self.rekeyDue.skipSeq)
      else (.ok (self.rekeyFrames A), self.beforeTransport A) := by
  have hdue : (onRekey RekeyPolicy.due).run self = (.ok self.rekey.isDue, self.polled) := by
    rw [run_onRekey, RekeyPolicy.run_due]
    rfl
  rw [rekeyIfDue, Imp.run_bind_of_ok hdue, Imp.run_ite, rekeyFrames, beforeTransport]
  by_cases hd : self.rekey.isDue = true
  · by_cases he : self.CanEmit
    · simp [hd, he, Imp.run_bind, run_emitRekey]
    · simp [hd, he, Imp.run_bind, run_emitRekey]
  · simp [hd]

/-- Every call of `encrypt` ends in one of the outcomes. -/
theorem encrypt_outcome (A : Aead Key) (arg : Arg) (self : SecureChannel Key T) :
    EncryptOutcome A self arg ((encrypt A arg).run self) := by
  unfold encrypt
  rw [Imp.run_bind, run_ensureOpen]
  by_cases hc : self.closed = true
  · rw [if_pos hc]
    exact .closed hc
  have hopen : self.closed = false := by simpa using hc
  rw [if_neg hc]
  cases arg with
  | other => exact .notBytes hopen
  | bytesLike plaintext =>
      simp only [Imp.run_raiseIf_bind]
      by_cases hlen : plaintext.length > MAX_PLAINTEXT
      · rw [if_pos hlen]
        exact .tooLarge hopen hlen
      rw [if_neg hlen, Imp.run_bind, run_rekeyIfDue]
      by_cases hfail : self.rekey.isDue = true ∧ ¬ self.CanEmit
      · rw [if_pos hfail]
        exact .rekeyFailed hopen (Nat.not_lt.mp hlen) hfail.1 hfail.2
      have hdue : self.rekey.isDue = true → self.CanEmit := by grind
      simp only [if_neg hfail, Imp.run_bind, emitTransport,
        run_emit A .transport _ (self.beforeTransport A) (Nat.not_lt.mp hlen)]
      by_cases hcan : (self.beforeTransport A).CanEmit
      · simp only [if_pos hcan, run_onRekey, RekeyPolicy.run_noteMessage, Imp.run_pure]
        exact .sent hopen (Nat.not_lt.mp hlen) hdue hcan
      · simp only [if_neg hcan]
        exact .transportFailed hopen (Nat.not_lt.mp hlen) hdue hcan

/-! ## `decrypt`, evaluated -/

omit [Sub T] [DecidableLE T]

/-- The channel after a frame passed the tag check and its number was
committed. -/
def authenticated (self : SecureChannel Key T) (frame : Frame) : SecureChannel Key T :=
  { self with
    recvCipher := self.recvCipher.afterOpen
    replay := ((ReplayWindow.commit frame.seq).run self.replay).2 }

/-- What a call of `decrypt` does, by cause.  Only an authenticated frame
changes anything. -/
inductive DecryptOutcome (A : Aead Key) (self : SecureChannel Key T) (wire : Bytes) :
    Except PyError (Option Bytes) × SecureChannel Key T → Prop where
  | closed (hclosed : self.closed = true) :
      DecryptOutcome A self wire (.error (.channelClosedError ["channel is closed"]), self)
  | malformed {e} (hopen : self.closed = false) (hdecode : decode wire = .error e) :
      DecryptOutcome A self wire (.error e, self)
  | replayed {frame e} (hopen : self.closed = false) (hdecode : decode wire = .ok frame)
      (hcheck : ((ReplayWindow.check frame.seq).run self.replay).1 = .error e) :
      DecryptOutcome A self wire (.error e, self)
  | exhausted {frame} (hopen : self.closed = false) (hdecode : decode wire = .ok frame)
      (hcheck : ((ReplayWindow.check frame.seq).run self.replay).1 = .ok ())
      (hnonce : self.recvCipher.nonce = MAX_NONCE) :
      DecryptOutcome A self wire (.error .noiseMaxNonceError, self)
  | tampered {frame} (hopen : self.closed = false) (hdecode : decode wire = .ok frame)
      (hcheck : ((ReplayWindow.check frame.seq).run self.replay).1 = .ok ())
      (hnonce : self.recvCipher.nonce ≠ MAX_NONCE)
      (htag : A.decrypt self.recvCipher.key self.recvCipher.nonce
        (headerBytes frame.msgType frame.seq frame.payload.length) frame.payload = none) :
      DecryptOutcome A self wire (.error (.decryptionError ["authentication failed for ",
        frame.msgType.name, " seq=", .int frame.seq, " (tampered or truncated)"]), self)
  | authenticated {frame plaintext} (hopen : self.closed = false)
      (hdecode : decode wire = .ok frame)
      (hcheck : ((ReplayWindow.check frame.seq).run self.replay).1 = .ok ())
      (hnonce : self.recvCipher.nonce ≠ MAX_NONCE)
      (htag : A.decrypt self.recvCipher.key self.recvCipher.nonce
        (headerBytes frame.msgType frame.seq frame.payload.length) frame.payload =
          some plaintext) :
      DecryptOutcome A self wire
        ((receive A frame.msgType frame.seq plaintext).run (self.authenticated frame))

/-- Every call of `decrypt` ends in one of the outcomes. -/
theorem decrypt_outcome (A : Aead Key) (wire : Bytes) (self : SecureChannel Key T) :
    DecryptOutcome A self wire ((decrypt A wire).run self) := by
  rw [decrypt, Imp.run_bind_of_ok (Imp.run_get self), Imp.run_raiseIf_bind]
  by_cases hc : self.closed = true
  · rw [if_pos hc]
    exact .closed hc
  have hopen : self.closed = false := by simpa using hc
  rw [if_neg hc, Imp.run_bind, Imp.run_ofExcept]
  cases hdec : decode wire with
  | error e => exact .malformed hopen hdec
  | ok frame =>
      have hkeep : ((ReplayWindow.check frame.seq).run self.replay).2 = self.replay := by
        rw [ReplayWindow.run_check]
      simp only [Imp.run_bind, run_onReplay, hkeep]
      cases hchk : ((ReplayWindow.check frame.seq).run self.replay).1 with
      | error e => exact .replayed hopen hdec hchk
      | ok _ =>
          simp only [Frame.header_eq, Imp.run_ofExcept, Imp.run_tryCatch, run_onRecvCipher,
            CipherState.run_decryptWithAd]
          by_cases hn : self.recvCipher.nonce = MAX_NONCE
          · simp only [if_pos hn]
            exact .exhausted hopen hdec hchk hn
          · simp only [if_neg hn]
            cases htag : A.decrypt self.recvCipher.key self.recvCipher.nonce
                (headerBytes frame.msgType frame.seq frame.payload.length) frame.payload with
            | none => exact .tampered hopen hdec hchk hn htag
            | some plaintext => exact .authenticated hopen hdec hchk hn htag

/-! ## The two directions are independent -/

def receiver (self : SecureChannel Key T) : CipherState Key × ReplayWindow :=
  (self.recvCipher, self.replay)

def sender (self : SecureChannel Key T) : CipherState Key × Nat × RekeyPolicy T :=
  (self.sendCipher, self.sendSeq, self.rekey)

/-- Sending leaves the receiving half alone. -/
theorem encrypt_keeps_receiver [Sub T] [DecidableLE T] (A : Aead Key) (arg : Arg) :
    Imp.Keeps (receiver : SecureChannel Key T → _) (encrypt A arg) := by
  intro self
  have hbefore : (self.beforeTransport A).receiver = self.receiver := by
    unfold beforeTransport
    split <;> rfl
  have h := encrypt_outcome A arg self
  generalize (encrypt A arg).run self = r at h
  cases h with
  | closed => rfl
  | notBytes => rfl
  | tooLarge => rfl
  | rekeyFailed => rfl
  | transportFailed => exact hbefore
  | sent => exact hbefore

/-- Sending a message leaves an open channel open. -/
theorem encrypt_keeps_closed [Sub T] [DecidableLE T] (A : Aead Key) (arg : Arg) :
    Imp.Keeps (closed : SecureChannel Key T → _) (encrypt A arg) := by
  intro self
  have hbefore : (self.beforeTransport A).closed = self.closed := by
    unfold beforeTransport
    split <;> rfl
  have h := encrypt_outcome A arg self
  generalize (encrypt A arg).run self = r at h
  cases h with
  | closed => rfl
  | notBytes => rfl
  | tooLarge => rfl
  | rekeyFailed => rfl
  | transportFailed => exact hbefore
  | sent => exact hbefore

theorem closeFrame_keeps_receiver (A : Aead Key) :
    Imp.Keeps (receiver : SecureChannel Key T → _) (closeFrame A) := by
  intro self
  rw [run_closeFrame]
  split_ifs <;> rfl

/-- Receiving leaves the sending half alone. -/
theorem decrypt_keeps_sender (A : Aead Key) (wire : Bytes) :
    Imp.Keeps (sender : SecureChannel Key T → _) (decrypt A wire) := by
  intro self
  have h := decrypt_outcome A wire self
  generalize (decrypt A wire).run self = r at h
  cases h with
  | authenticated =>
      unfold receive
      split <;> rfl
  | _ => rfl

/-- A call of `decrypt` uses one nonce at most. -/
theorem nonce_decrypt_le (A : Aead Key) (wire : Bytes) (self : SecureChannel Key T) :
    ((decrypt A wire).run self).2.recvCipher.nonce ≤ self.recvCipher.nonce + 1 := by
  have h := decrypt_outcome A wire self
  generalize (decrypt A wire).run self = r at h
  cases h with
  | authenticated =>
      unfold receive
      split <;> exact Nat.le_refl _
  | _ => exact Nat.le_succ _

end SecureChannel

end SecureWs
