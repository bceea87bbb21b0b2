import SecureWs.Delivery
import SecureWs.Handshake

/-!
# SecureWs.Conversation

Two `SecureConnection`s from one handshake, each of which sends, closes, and
runs `async for message in conn`.

* `SecureConnection` is one end: `anext` is `__anext__` from one `ws.recv` to the
  next, and ends the loop on every exception of the SDK;
* over a network in the hands of an attacker the ends refine two channels
  (`parties_run`), and `loop_faithful` says what a loop that has ended tells:
  whether the peer has closed, and then everything has arrived;
* over a network that delivers in order, `loop_complete` says that a loop goes on
  until the peer closes, unless its own end has closed.
-/

namespace SecureWs

open Python

variable {Key T : Type} [Zero T] [LE T]

/-- What `decrypt` raises on a CLOSE. -/
def closedByPeer : PyError := .channelClosedError ["peer closed the channel"]

/-- What has become of `async for`: it has ended on a `StopAsyncIteration` with
this cause, or an exception came out of it. -/
inductive Loop where
  | running
  | stopped (cause : PyError)
  | raised (exc : PyError)
  deriving DecidableEq

/-- `except (SecureWebSocketError, ConnectionClosed)` in `__anext__`. -/
def Loop.ofException (exc : PyError) : Loop :=
  if exc.isSecureWebSocketError = true ∨ exc = .connectionClosed then .stopped exc else .raised exc

/-- A `SecureConnection`: its channel, the frames given to `ws.send`, and whether
`ws.close` was called.  Of the loop: its state, the messages it has yielded, and
the number of messages that `ws.recv` has given it.  `encrypted` are the messages
that `send` has accepted. -/
structure SecureConnection (Key T : Type) [Zero T] [LE T] where
  channel : SecureChannel Key T
  wire : List Bytes
  socketClosed : Bool
  loop : Loop
  received : List Bytes
  taken : Nat
  encrypted : List Bytes

namespace SecureConnection

/-- A connection that enters its loop. -/
def init (channel : SecureChannel Key T) : SecureConnection Key T :=
  ⟨channel, [], false, .running, [], 0, []⟩

/-- The frames that get out: a closed socket raises `ConnectionClosed`. -/
def sent (self : SecureConnection Key T) (frames : List Bytes) : List Bytes :=
  if self.socketClosed = true then self.wire else self.wire ++ frames

def send [Sub T] [DecidableLE T] (A : Aead Key) (arg : Arg) (self : SecureConnection Key T) :
    SecureConnection Key T :=
  match arg, (SecureChannel.encrypt A arg).run self.channel with
  | .bytesLike plaintext, (.ok frames, c) =>
      { self with
        channel := c
        wire := self.sent frames
        encrypted := self.encrypted ++ [plaintext] }
  | _, (_, c) => { self with channel := c }

/-- `conn.close()`: an exception of the SDK is passed over, and `ws.close`
follows. -/
def close (A : Aead Key) (self : SecureConnection Key T) : SecureConnection Key T :=
  if self.channel.closed = true then { self with socketClosed := true }
  else match (SecureChannel.closeFrame A).run self.channel with
    | (.ok frame, c) => { self with channel := c, wire := self.sent [frame], socketClosed := true }
    | (.error exc, c) => { self with
        channel := c
        socketClosed := self.socketClosed || exc.isSecureWebSocketError }

/-- `__anext__` goes on with what `ws.recv` gives it: it returns a message to the
loop, waits for the next one, or raises. -/
def anext (A : Aead Key) (message : WsMessage) (self : SecureConnection Key T) :
    SecureConnection Key T :=
  match asBytes message with
  | .error exc => { self with loop := .ofException exc }
  | .ok wire => match (SecureChannel.decrypt A wire).run self.channel with
      | (.ok (some plaintext), c) =>
          { self with channel := c, received := self.received ++ [plaintext] }
      | (.ok none, c) => { self with channel := c }
      | (.error exc, c) => { self with channel := c, loop := .ofException exc }

def arrive (A : Aead Key) (message : WsMessage) (self : SecureConnection Key T) :
    SecureConnection Key T :=
  match self.loop with
  | .running => { anext A message self with taken := self.taken + 1 }
  | _ => self

/-- `ws.recv` raises `ConnectionClosed`. -/
def lose (self : SecureConnection Key T) : SecureConnection Key T :=
  match self.loop with
  | .running => { self with loop := .ofException .connectionClosed }
  | _ => self

/-! ## One connection -/

/-- What holds of a connection whatever it is handed. -/
structure Consistent (conn : SecureConnection Key T) : Prop where
  raised : ∀ exc, conn.loop = .raised exc →
    exc = .noiseMaxNonceError ∧ conn.channel.recvCipher.nonce = MAX_NONCE
  closed : conn.channel.closed = true → conn.loop = .stopped closedByPeer ∨ conn.socketClosed = true
  told : conn.loop = .stopped closedByPeer → conn.channel.closed = true

variable {conn : SecureConnection Key T}

/-- A connection whose loop is running. -/
theorem Consistent.of_running (hrunning : conn.loop = .running)
    (hclosed : conn.channel.closed = true → conn.socketClosed = true) : conn.Consistent where
  raised exc hraised := by simp [hrunning] at hraised
  closed hshut := .inr (hclosed hshut)
  told htold := by simp [hrunning] at htold

/-- A connection whose loop has ended on a `StopAsyncIteration`. -/
theorem Consistent.of_stopped {cause : PyError} (hstopped : conn.loop = .stopped cause)
    (hclosed : conn.channel.closed = true → cause = closedByPeer ∨ conn.socketClosed = true)
    (htold : cause = closedByPeer → conn.channel.closed = true) : conn.Consistent where
  raised exc hraised := by simp [hstopped] at hraised
  closed hshut := (hclosed hshut).imp (fun hcause => hstopped.trans (congrArg _ hcause)) id
  told hcause := htold (Loop.stopped.inj (hstopped.symm.trans hcause))

/-- A new connection is consistent. -/
theorem consistent_init (channel : SecureChannel Key T) (hopen : channel.closed = false) :
    (init channel).Consistent :=
  .of_running rfl fun hclosed => absurd (hopen.symm.trans hclosed) Bool.false_ne_true

/-- While the loop is running, a closed channel is one that the end has closed. -/
theorem Consistent.socketClosed (h : conn.Consistent) (hrunning : conn.loop = .running)
    (hclosed : conn.channel.closed = true) : conn.socketClosed = true :=
  (h.closed hclosed).resolve_left (by simp [hrunning])

/-- What `send` does to a connection. -/
theorem send_spec [Sub T] [DecidableLE T] (A : Aead Key) (arg : Arg)
    (conn : SecureConnection Key T) :
    (conn.send A arg).channel = ((SecureChannel.encrypt A arg).run conn.channel).2 ∧
      (conn.send A arg).loop = conn.loop ∧ (conn.send A arg).received = conn.received ∧
      (conn.send A arg).taken = conn.taken ∧ (conn.send A arg).socketClosed = conn.socketClosed := by
  unfold send
  split <;> simp [*]

/-- `send` keeps a connection consistent. -/
theorem Consistent.send [Sub T] [DecidableLE T] (h : conn.Consistent) (A : Aead Key) (arg : Arg) :
    (conn.send A arg).Consistent := by
  obtain ⟨hchannel, hloop, -, -, hsocket⟩ := send_spec A arg conn
  have hclosed := SecureChannel.encrypt_keeps_closed A arg conn.channel
  have hkeep := SecureChannel.encrypt_keeps_receiver A arg conn.channel
  simp only [SecureChannel.receiver, Prod.mk.injEq] at hkeep
  constructor
  · rw [hchannel, hloop, hkeep.1]
    exact h.raised
  · rw [hchannel, hloop, hsocket, hclosed]
    exact h.closed
  · rw [hchannel, hloop, hclosed]
    exact h.told

/-- What `close` does to a connection. -/
theorem close_spec (A : Aead Key) (conn : SecureConnection Key T) :
    (conn.close A).channel = ((SecureChannel.closeFrame A).run conn.channel).2 ∧
      (conn.close A).loop = conn.loop ∧ (conn.close A).received = conn.received ∧
      (conn.close A).taken = conn.taken ∧ (conn.close A).encrypted = conn.encrypted := by
  unfold close
  rw [SecureChannel.run_closeFrame]
  split_ifs <;> exact ⟨rfl, rfl, rfl, rfl, rfl⟩

/-- `close` keeps a connection consistent. -/
theorem Consistent.close (h : conn.Consistent) (A : Aead Key) : (conn.close A).Consistent := by
  unfold SecureConnection.close
  rw [SecureChannel.run_closeFrame]
  by_cases hclosed : conn.channel.closed = true
  · rw [if_pos hclosed]
    exact ⟨h.raised, fun _ => .inr rfl, h.told⟩
  · rw [if_neg hclosed, if_neg hclosed]
    by_cases hcan : conn.channel.CanEmit
    · rw [if_pos hcan]
      exact ⟨h.raised, fun _ => .inr rfl, fun _ => rfl⟩
    · rw [if_neg hcan]
      exact ⟨h.raised, fun hagain => absurd hagain hclosed,
        fun htold => absurd (h.told htold) hclosed⟩

/-- An exception of the SDK ends the loop. -/
theorem ofException_of_sdk {exc : PyError} (h : exc.isSecureWebSocketError = true) :
    Loop.ofException exc = .stopped exc := if_pos (.inl h)

/-- The loop ends on an exception of the SDK other than that of a CLOSE. -/
theorem Consistent.ended (h : conn.Consistent) (hrunning : conn.loop = .running) {exc : PyError}
    (hsdk : exc.isSecureWebSocketError = true) (hother : exc ≠ closedByPeer) :
    Consistent { conn with loop := .ofException exc } :=
  .of_stopped (ofException_of_sdk hsdk) (fun hclosed => .inr (h.socketClosed hrunning hclosed))
    fun hcause => absurd hcause hother

/-- One turn of the loop keeps it consistent. -/
theorem Consistent.anext (h : conn.Consistent) (hrunning : conn.loop = .running) (A : Aead Key)
    (message : WsMessage) : (anext A message conn).Consistent := by
  unfold SecureConnection.anext
  cases message with
  | text s => exact h.ended hrunning rfl (by decide)
  | binary wire =>
      have hout := SecureChannel.decrypt_outcome A wire conn.channel
      simp only [asBytes]
      generalize (SecureChannel.decrypt A wire).run conn.channel = r at hout
      cases hout with
      | closed => exact h.ended hrunning rfl (by decide)
      | malformed _ hdecode =>
          obtain ⟨m, rfl⟩ | ⟨m, rfl⟩ := decode_error hdecode
          · exact h.ended hrunning rfl (by simp [closedByPeer])
          · exact h.ended hrunning rfl (by simp [closedByPeer])
      | replayed _ _ hcheck =>
          obtain ⟨m, rfl⟩ := ReplayWindow.check_error hcheck
          exact h.ended hrunning rfl (by simp [closedByPeer])
      | tampered => exact h.ended hrunning rfl (by simp [closedByPeer])
      | exhausted hopen _ _ hnonce =>
          have hraised : Loop.ofException .noiseMaxNonceError = .raised .noiseMaxNonceError := rfl
          constructor
          · exact fun exc hexc => ⟨(Loop.raised.inj (hraised.symm.trans hexc)).symm, hnonce⟩
          · exact fun hclosed => absurd (hopen.symm.trans hclosed) Bool.false_ne_true
          · exact fun htold => absurd (hraised.symm.trans htold) (by simp)
      | @authenticated frame plaintext hopen =>
          have hstays : (conn.channel.authenticated frame).closed = true →
              conn.socketClosed = true := fun hclosed =>
            absurd (Eq.trans (Eq.symm hopen) hclosed) Bool.false_ne_true
          cases frame.msgType with
          | transport => exact .of_running hrunning hstays
          | rekey => exact .of_running hrunning hstays
          | close => exact .of_stopped rfl (fun _ => .inl rfl) fun _ => rfl
          | handshake =>
              exact .of_stopped rfl (fun hclosed => .inr (hstays hclosed)) fun hcause =>
                absurd hcause (by simp [closedByPeer])

/-- A message keeps it consistent, also when the loop has ended. -/
theorem Consistent.arrive (h : conn.Consistent) (A : Aead Key) (message : WsMessage) :
    (conn.arrive A message).Consistent := by
  unfold SecureConnection.arrive
  cases hloop : conn.loop with
  | running =>
      have hanext := h.anext hloop A message
      exact ⟨hanext.raised, hanext.closed, hanext.told⟩
  | _ => exact h

/-- So does the loss of the socket. -/
theorem Consistent.lose (h : conn.Consistent) : conn.lose.Consistent := by
  unfold SecureConnection.lose
  cases hloop : conn.loop with
  | running =>
      exact .of_stopped rfl (fun hclosed => .inr (h.socketClosed hloop hclosed)) fun hcause =>
        absurd hcause (by simp [closedByPeer])
  | _ => exact h

/-- A loop that has ended stays as it is, with what it has yielded. -/
theorem arrive_of_ended (hended : conn.loop ≠ .running) (A : Aead Key) (message : WsMessage) :
    conn.arrive A message = conn := by
  unfold SecureConnection.arrive
  cases hloop : conn.loop with
  | running => exact absurd hloop hended
  | _ => rfl

/-- A running loop takes what arrives. -/
theorem taken_arrive (hrunning : conn.loop = .running) (A : Aead Key) (message : WsMessage) :
    (conn.arrive A message).taken = conn.taken + 1 := by
  simp [SecureConnection.arrive, hrunning]

/-- A message does not close the socket. -/
theorem socketClosed_arrive (A : Aead Key) (message : WsMessage) :
    (conn.arrive A message).socketClosed = conn.socketClosed := by
  unfold SecureConnection.arrive SecureConnection.anext
  repeat' split
  all_goals rfl

/-- A loop that has ended does not notice that the socket is lost. -/
theorem lose_of_ended (hended : conn.loop ≠ .running) : conn.lose = conn := by
  unfold SecureConnection.lose
  cases hloop : conn.loop with
  | running => exact absurd hloop hended
  | _ => rfl

/-- What the session sees of a connection. -/
def party (conn : SecureConnection Key T) : Party Key T :=
  ⟨conn.channel, conn.encrypted, conn.received, conn.loop = .stopped closedByPeer⟩

/-- On the channel, `send` is `encrypt`. -/
theorem party_send [Sub T] [DecidableLE T] (A : Aead Key) (arg : Arg)
    (conn : SecureConnection Key T) : (conn.send A arg).party = conn.party.encrypt A arg := by
  unfold SecureConnection.send Party.encrypt party
  split <;> simp [*]

/-- On the channel, `close` is `close_frame`, which does nothing to a closed one. -/
theorem party_close (A : Aead Key) (conn : SecureConnection Key T) :
    (conn.close A).party = conn.party.closeFrame A := by
  obtain ⟨hchannel, hloop, hreceived, -, hencrypted⟩ := close_spec A conn
  simp [party, Party.closeFrame, hchannel, hloop, hreceived, hencrypted]

/-- Of the ways in which the loop ends, that of a CLOSE is known by its cause. -/
theorem ofException_eq_stopped_closedByPeer {exc : PyError} :
    Loop.ofException exc = .stopped closedByPeer ↔ exc = closedByPeer := by
  unfold Loop.ofException
  split_ifs with hcaught
  · exact ⟨Loop.stopped.inj, congrArg _⟩
  · refine ⟨fun hraised => by simp at hraised, fun hexc => absurd (Or.inl ?_) hcaught⟩
    rw [hexc]
    rfl

/-- The loss of the socket does nothing to the channel. -/
theorem party_lose (conn : SecureConnection Key T) : conn.lose.party = conn.party := by
  unfold lose
  cases hloop : conn.loop with
  | running =>
      have hother : PyError.connectionClosed ≠ closedByPeer := by simp [closedByPeer]
      simp [party, hloop, ofException_eq_stopped_closedByPeer, hother]
  | _ => rfl

/-- A running loop decrypts what arrives, if it is bytes. -/
theorem party_arrive (A : Aead Key) (message : WsMessage) (conn : SecureConnection Key T) :
    (conn.arrive A message).party = match conn.loop, message with
      | .running, .binary wire => conn.party.decrypt A wire
      | _, _ => conn.party := by
  cases hloop : conn.loop with
  | running => cases message with
    | text s =>
        have hother : PyError.protocolError ["expected a binary WebSocket message, got text"] ≠
          closedByPeer := by simp [closedByPeer]
        simp [arrive, anext, asBytes, party, hloop, ofException_eq_stopped_closedByPeer, hother]
    | binary wire =>
        simp only [arrive, hloop, anext, asBytes, party, Party.decrypt]
        generalize (SecureChannel.decrypt A wire).run conn.channel = r
        obtain ⟨⟨exc⟩ | ⟨_ | plaintext⟩, c⟩ := r
        · simp only [reduceCtorEq, decide_false, Bool.false_or, Party.mk.injEq, true_and]
          exact decide_eq_decide.mpr ofException_eq_stopped_closedByPeer
        · simp
        · simp
  | _ => rw [arrive_of_ended (by simp [hloop])]

end SecureConnection

/-! ## Over a hostile network -/

abbrev Conversation (Key T : Type) [Zero T] [LE T] := Side → SecureConnection Key T

namespace Conversation

/-- What happens: a side calls `send` or `close`, or its `ws.recv` returns a
message or raises. -/
inductive Event where
  | send (side : Side) (arg : Arg)
  | close (side : Side)
  | arrive (side : Side) (message : WsMessage)
  | lost (side : Side)

def start (keys : Side → Key) (hash : Bytes) (static : Side → Bytes) (replay : Side → ReplayWindow)
    (rekey : Side → RekeyPolicy T) : Conversation Key T :=
  fun side => SecureConnection.init
    (SecureChannel.init (honestHandshake keys hash static side) (replay side) (rekey side))

/-- What the session sees of the two ends. -/
def parties (s : Conversation Key T) : Session Key T := SecureConnection.party ∘ s

/-- Two connections at the start are a session at the start. -/
theorem parties_start (keys : Side → Key) (hash : Bytes) (static : Side → Bytes)
    (replay : Side → ReplayWindow) (rekey : Side → RekeyPolicy T) :
    parties (start keys hash static replay rekey) =
      Session.start keys hash static replay rekey := rfl

theorem parties_update (s : Conversation Key T) (side : Side) (conn : SecureConnection Key T) :
    parties (Function.update s side conn) = Function.update (parties s) side conn.party :=
  Function.comp_update _ s side conn

/-- Both connections begin consistent. -/
theorem consistent_start (keys : Side → Key) (hash : Bytes) (static : Side → Bytes)
    (replay : Side → ReplayWindow) (rekey : Side → RekeyPolicy T) (side : Side) :
    (start keys hash static replay rekey side).Consistent :=
  SecureConnection.consistent_init _ rfl

/-- Consistency is a matter of each connection alone. -/
theorem consistent_update {s : Conversation Key T} (h : ∀ side, (s side).Consistent) (side : Side)
    {conn : SecureConnection Key T} (hconn : conn.Consistent) :
    ∀ other, (Function.update s side conn other).Consistent :=
  (Function.forall_update_iff s fun _ conn => conn.Consistent).mpr ⟨hconn, fun other _ => h other⟩

section Step

variable [Sub T] [DecidableLE T]

/-- One step, in which the ends decrypt with `D`. -/
def step (A D : Aead Key) (s : Conversation Key T) : Event → Conversation Key T
  | .send side arg => Function.update s side ((s side).send A arg)
  | .close side => Function.update s side ((s side).close A)
  | .arrive side message => Function.update s side ((s side).arrive D message)
  | .lost side => Function.update s side (s side).lose

/-- One step changes one end, by one of its four moves. -/
theorem consistent_step (A D : Aead Key) {s : Conversation Key T}
    (h : ∀ side, (s side).Consistent) (event : Event) :
    ∀ side, (step A D s event side).Consistent := by
  cases event with
  | send side arg => exact consistent_update h side ((h side).send A arg)
  | close side => exact consistent_update h side ((h side).close A)
  | arrive side message => exact consistent_update h side ((h side).arrive D message)
  | lost side => exact consistent_update h side (h side).lose

/-- A loop that has ended stays as it is, and so does what it has yielded. -/
theorem ended_step (A D : Aead Key) {s : Conversation Key T} {side : Side}
    (hended : (s side).loop ≠ .running) (event : Event) :
    (step A D s event side).loop = (s side).loop ∧
      (step A D s event side).received = (s side).received := by
  have hupdate : ∀ (other : Side) (conn : SecureConnection Key T),
      (other = side → conn.loop = (s side).loop ∧ conn.received = (s side).received) →
      (Function.update s other conn side).loop = (s side).loop ∧
        (Function.update s other conn side).received = (s side).received := by
    intro other conn hconn
    by_cases hother : other = side
    · subst hother
      rw [Function.update_self]
      exact hconn rfl
    · rw [Function.update_of_ne (Ne.symm hother)]
      exact ⟨rfl, rfl⟩
  cases event with
  | send other arg =>
      refine hupdate other _ fun heq => ?_
      obtain ⟨-, hloop, hreceived, -⟩ := SecureConnection.send_spec A arg (s other)
      exact heq ▸ ⟨hloop, hreceived⟩
  | close other =>
      refine hupdate other _ fun heq => ?_
      obtain ⟨-, hloop, hreceived, -⟩ := SecureConnection.close_spec A (s other)
      exact heq ▸ ⟨hloop, hreceived⟩
  | arrive other message =>
      refine hupdate other _ fun heq => ?_
      subst heq
      rw [SecureConnection.arrive_of_ended hended]
      exact ⟨rfl, rfl⟩
  | lost other =>
      refine hupdate other _ fun heq => ?_
      subst heq
      rw [SecureConnection.lose_of_ended hended]
      exact ⟨rfl, rfl⟩

section Hostile

variable [DecidableEq Key]

/-- A run over a network that hands the ends any messages at all.  The AEAD is
ideal: decryption knows what the two ends have encrypted. -/
def run (A : Aead Key) (s : Conversation Key T) (events : List Event) : Conversation Key T :=
  events.foldl (fun s event => step A (A.ideal (Session.log (parties s))) s event) s

/-- What the two channels are asked to do in a step. -/
def calls (s : Conversation Key T) : Event → List SecureWs.Event
  | .send side arg => [.encrypt side arg]
  | .close side => [.closeFrame side]
  | .arrive side message => match (s side).loop, message with
      | .running, .binary wire => [.decrypt side wire]
      | _, _ => []
  | .lost _ => []

/-- A step of the conversation is one of the session, or none. -/
theorem parties_step (A : Aead Key) (s : Conversation Key T) (event : Event) :
    parties (step A (A.ideal (Session.log (parties s))) s event) =
      Session.run A (parties s) (calls s event) := by
  cases event with
  | send side arg => exact (parties_update ..).trans (by rw [SecureConnection.party_send]; rfl)
  | close side => exact (parties_update ..).trans (by rw [SecureConnection.party_close]; rfl)
  | arrive side message =>
      refine (parties_update ..).trans ?_
      rw [SecureConnection.party_arrive]
      simp only [calls]
      split
      · rfl
      · exact Function.update_eq_self side (parties s)
  | lost side =>
      refine (parties_update ..).trans ?_
      rw [SecureConnection.party_lose]
      exact Function.update_eq_self side (parties s)

/-- **Refinement.**  A run of the conversation is a run of the session. -/
theorem parties_run (A : Aead Key) (s : Conversation Key T) (events : List Event) :
    ∃ calls, parties (run A s events) = Session.run A (parties s) calls := by
  induction events generalizing s with
  | nil => exact ⟨[], rfl⟩
  | cons event events ih =>
      obtain ⟨more, hmore⟩ := ih (step A (A.ideal (Session.log (parties s))) s event)
      refine ⟨calls s event ++ more, hmore.trans ?_⟩
      rw [parties_step, Session.run, Session.run, Session.run, List.foldl_append]

/-- A whole run keeps both connections consistent. -/
theorem consistent_run (A : Aead Key) {s : Conversation Key T} (h : ∀ side, (s side).Consistent)
    (events : List Event) : ∀ side, (run A s events side).Consistent := by
  induction events generalizing s with
  | nil => exact h
  | cons event events ih => exact ih (consistent_step A _ h event)

/-- A loop that has ended yields nothing more, whatever happens. -/
theorem ended_run (A : Aead Key) {s : Conversation Key T} {side : Side}
    (hended : (s side).loop ≠ .running) (events : List Event) :
    (run A s events side).loop = (s side).loop ∧
      (run A s events side).received = (s side).received := by
  induction events generalizing s with
  | nil => exact ⟨rfl, rfl⟩
  | cons event events ih =>
      obtain ⟨hloop, hreceived⟩ :=
        ended_step A (A.ideal (Session.log (parties s))) hended event
      obtain ⟨hloop', hreceived'⟩ := ih (hloop ▸ hended)
      exact ⟨hloop'.trans hloop, hreceived'.trans hreceived⟩

omit [Sub T] [DecidableLE T] [DecidableEq Key] in
/-- What a loop tells in a conversation whose session is sound. -/
theorem faithful_of_inv {A : Aead Key} {keys : Side → Key} {s : Conversation Key T}
    (h : Session.Inv A keys (parties s)) {side : Side} (hconsistent : (s side).Consistent) :
    (s side).received <+: (s side.peer).encrypted ∧
      (∀ exc, (s side).loop = .raised exc →
        exc = .noiseMaxNonceError ∧ (s side).channel.recvCipher.nonce = MAX_NONCE) ∧
      ((s side).loop = .stopped closedByPeer →
        (s side).received = (s side.peer).encrypted ∧ (s side.peer).channel.closed = true) ∧
      ((s side).socketClosed = false →
        ((s side).channel.closed = true ↔ (s side).loop = .stopped closedByPeer)) := by
  obtain ⟨said, heard, hdir⟩ := h side.peer
  rw [Side.peer_peer] at hdir
  obtain ⟨hpre, hall⟩ := hdir.delivered
  refine ⟨hpre, hconsistent.raised, fun htold => hall (decide_eq_true htold), fun hsocket => ?_⟩
  refine ⟨fun hclosed => (hconsistent.closed hclosed).resolve_right ?_, hconsistent.told⟩
  rw [hsocket]
  exact Bool.false_ne_true

/-- **What a loop tells.**  Whatever the two ends do and whatever the network
hands them: a loop has yielded a prefix of what the peer has sent; an exception
comes out of it only when the nonces are used up; it has ended on a CLOSE only
if the peer has closed and everything has arrived; until the end itself closes,
its channel is closed exactly when its loop has ended on a CLOSE, so that a
network that cuts the connection is found out; and a loop that has ended stays
as it is. -/
theorem loop_faithful (A : Aead Key) (keys : Side → Key) (hkeys : Session.KeysDistinct A keys)
    (hash : Bytes) (static : Side → Bytes) (replay : Side → ReplayWindow)
    (rekey : Side → RekeyPolicy T) (events : List Event) (side : Side) :
    let s := run A (start keys hash static replay rekey) events
    (s side).received <+: (s side.peer).encrypted ∧
      (∀ exc, (s side).loop = .raised exc →
        exc = .noiseMaxNonceError ∧ (s side).channel.recvCipher.nonce = MAX_NONCE) ∧
      ((s side).loop = .stopped closedByPeer →
        (s side).received = (s side.peer).encrypted ∧ (s side.peer).channel.closed = true) ∧
      ((s side).socketClosed = false →
        ((s side).channel.closed = true ↔ (s side).loop = .stopped closedByPeer)) ∧
      ((s side).loop ≠ .running → ∀ more : List Event,
        (run A s more side).loop = (s side).loop ∧
          (run A s more side).received = (s side).received) := by
  intro s
  have hconsistent : (s side).Consistent :=
    consistent_run A (consistent_start keys hash static replay rekey) events side
  have hinv : Session.Inv A keys (parties s) := by
    obtain ⟨trace, htrace⟩ := parties_run A (start keys hash static replay rekey) events
    rw [htrace, parties_start]
    exact (Session.inv_start A keys hash static replay rekey).run hkeys trace
  obtain ⟨hpre, hraised, htold, hclosed⟩ := faithful_of_inv hinv hconsistent
  exact ⟨hpre, hraised, htold, hclosed, fun hended => ended_run A hended⟩

/-- The two chains of keys that the spelled-out AEAD steps along do not meet. -/
theorem keysDistinct_spelled (key : Nat) :
    Session.KeysDistinct (Aead.spelled (· + 2)) fun side =>
      if side = .initiator then key else key + 1 := by
  have hiter : ∀ n k : ℕ, (fun m => m + 2)^[n] k = k + 2 * n := by
    intro n k
    induction n generalizing k with
    | zero => rfl
    | succ n ih => rw [Function.iterate_succ_apply, ih]; omega
  intro i j
  simp only [Aead.spelled, hiter]
  simp
  omega

/-- The initiator sends a message and closes; the frames arrive, and the
responder's loop ends on the CLOSE. -/
theorem loop_faithful_closed :
    let A := Aead.spelled (· + 2)
    let window : ReplayWindow := ⟨1024, (1 <<< 1024) - 1, -1, 0, by decide, rfl⟩
    let policy : RekeyPolicy ℤ := ⟨10000, 900, fun _ => 0, 1, 0, 0, by decide, by decide⟩
    let s₀ : Conversation Nat ℤ := start (fun side => if side = .initiator then 0 else 1) []
      (fun _ => []) (fun _ => window) (fun _ => policy)
    let message := headerFor .transport 0 [104, 105] ++ A.encrypt 0 0 [] [104, 105]
    let farewell := headerFor .close 1 [] ++ A.encrypt 0 1 [] []
    let s := run A s₀ [.send .initiator (.bytesLike [104, 105]), .close .initiator,
      .arrive .responder (.binary message), .arrive .responder (.binary farewell)]
    (s .responder).loop = .stopped closedByPeer ∧
      (s .responder).received = (s .initiator).encrypted := by
  intro A window policy s₀ message farewell s
  have hstopped : (s .responder).loop = .stopped closedByPeer := by decide
  exact ⟨hstopped, ((loop_faithful A _ (keysDistinct_spelled 0) [] (fun _ => []) (fun _ => window)
    (fun _ => policy) _ .responder).2.2.1 hstopped).1⟩

end Hostile

/-! ## Over a network that delivers in order -/

/-- The steps over such a network: `ws.recv` returns the next frame that the
peer has sent, and raises when the connection was closed and no frame is left.
Fewer than `2^64 - 2` frames were sent before by a side that sends or closes. -/
def Allowed (s : Conversation Key T) : Event → Prop
  | .send side _ => (s side).wire.length < 2 ^ 64 - 2
  | .close side => (s side).wire.length < 2 ^ 64 - 2
  | .arrive side message =>
      ∃ frame, message = .binary frame ∧ (s side.peer).wire[(s side).taken]? = some frame
  | .lost side => (s side).socketClosed = true ∨
      (s side.peer).socketClosed = true ∧ (s side).taken = (s side.peer).wire.length

inductive Reachable (A : Aead Key) (s₀ : Conversation Key T) : Conversation Key T → Prop where
  | start : Reachable A s₀ s₀
  | step {s} (h : Reachable A s₀ s) (event : Event) (hallowed : Allowed s event) :
      Reachable A s₀ (step A A s event)

end Step

/-- The connection `tx` has said `said`, and `rx` has taken the first of the
frames: until it closes, it listens, and has heard no CLOSE, or it has heard
everything and a CLOSE was the last of it. -/
structure Carried (A : Aead Key) (key : Key) (tx rx : SecureConnection Key T) (said : List Msg) :
    Prop where
  sends : tx.channel.Sends A key said
  wire_eq : tx.wire = frames A (stream.cipher A key []) said
  encrypted_eq : tx.encrypted = plaintexts said
  closes : .close ∈ said → tx.socketClosed = true
  announced : tx.socketClosed = true → .close ∈ said ∨ rx.socketClosed = true
  taken_le : rx.taken ≤ said.length
  received_prefix : rx.received <+: plaintexts said
  hears : rx.socketClosed = false → rx.channel.Hears A key (said.take rx.taken) ∧
    rx.received = plaintexts (said.take rx.taken)
  loop_eq : rx.socketClosed = false →
    rx.loop = .running ∧ .close ∉ said.take rx.taken ∨
      rx.loop = .stopped closedByPeer ∧ said.take rx.taken = said ∧ .close ∈ said

/-- What holds of each end. -/
structure Orderly (conn : SecureConnection Key T) : Prop extends conn.Consistent where
  shut : conn.socketClosed = true → conn.channel.closed = true
  unraised : ∀ exc, conn.loop ≠ .raised exc

structure Inv (A : Aead Key) (keys : Side → Key) (s : Conversation Key T) : Prop where
  carried : ∀ side : Side, ∃ said, Carried A (keys side) (s side) (s side.peer) said
  orderly : ∀ side, Orderly (s side)

namespace Carried

variable {A : Aead Key} {key : Key} {tx tx' rx rx' : SecureConnection Key T} {said new : List Msg}

/-- The sender says more: it is open, so that no CLOSE was said before. -/
theorem say (h : Carried A key tx rx said) (hopen : tx.channel.closed = false)
    (hsends : tx'.channel.Sends A key (said ++ new))
    (hwire : tx'.wire = tx.wire ++ frames A tx.channel.sendCipher new)
    (henc : tx'.encrypted = tx.encrypted ++ plaintexts new)
    (hsocket : tx'.socketClosed = true ↔ .close ∈ new ∨ tx.socketClosed = true) :
    Carried A key tx' rx (said ++ new) := by
  have hsilent := h.sends.not_close_mem hopen
  have htake : (said ++ new).take rx.taken = said.take rx.taken :=
    List.take_append_of_le_length h.taken_le
  have hlistens := fun hrx => (h.loop_eq hrx).resolve_right fun hstopped => hsilent hstopped.2.2
  constructor
  · exact hsends
  · rw [hwire, h.wire_eq, h.sends.cipher_eq]
    exact (frames_append A key [] said new).symm
  · rw [henc, h.encrypted_eq, plaintexts_append]
  · intro hmem
    exact hsocket.mpr (.inl ((List.mem_append.mp hmem).resolve_left hsilent))
  · intro hclosed
    cases hsocket.mp hclosed with
    | inl hnew => exact .inl (List.mem_append_right _ hnew)
    | inr hold => exact (h.announced hold).imp (fun hmem => absurd hmem hsilent) id
  · exact h.taken_le.trans (by simp)
  · rw [plaintexts_append]
    exact h.received_prefix.trans (List.prefix_append _ _)
  · rw [htake]
    exact h.hears
  · rw [htake]
    exact fun hrx => .inl (hlistens hrx)

/-- The sender does something else than send. -/
theorem tx_congr (h : Carried A key tx rx said) (hsends : tx'.channel.Sends A key said)
    (hwire : tx'.wire = tx.wire) (henc : tx'.encrypted = tx.encrypted)
    (hsocket : tx.socketClosed = true → tx'.socketClosed = true)
    (hannounced : tx'.socketClosed = true → tx.socketClosed = true ∨ rx.socketClosed = true) :
    Carried A key tx' rx said where
  sends := hsends
  wire_eq := hwire.trans h.wire_eq
  encrypted_eq := henc.trans h.encrypted_eq
  closes hmem := hsocket (h.closes hmem)
  announced hclosed := (hannounced hclosed).elim h.announced .inr
  taken_le := h.taken_le
  received_prefix := h.received_prefix
  hears := h.hears
  loop_eq := h.loop_eq

/-- The receiver does something else than receive. -/
theorem rx_congr (h : Carried A key tx rx said)
    (hrecv : rx'.channel.receiver = rx.channel.receiver) (hloop : rx'.loop = rx.loop)
    (hreceived : rx'.received = rx.received) (htaken : rx'.taken = rx.taken)
    (hsocket : rx.socketClosed = true → rx'.socketClosed = true) :
    Carried A key tx rx' said := by
  have hopen : rx'.socketClosed = false → rx.socketClosed = false := by
    intro hopen
    by_contra hclosed
    rw [hsocket (by simpa using hclosed)] at hopen
    contradiction
  simp only [SecureChannel.receiver, Prod.mk.injEq] at hrecv
  constructor
  · exact h.sends
  · exact h.wire_eq
  · exact h.encrypted_eq
  · exact h.closes
  · exact fun hclosed => (h.announced hclosed).imp id hsocket
  · exact htaken ▸ h.taken_le
  · exact hreceived ▸ h.received_prefix
  · intro hrx
    obtain ⟨⟨hinStep, hwindow⟩, heq⟩ := h.hears (hopen hrx)
    rw [htaken, hreceived]
    exact ⟨⟨hrecv.1 ▸ hinStep, hrecv.2 ▸ hwindow⟩, heq⟩
  · rw [hloop, htaken]
    exact fun hrx => h.loop_eq (hopen hrx)

end Carried

/-! ### Moves of one end -/

section Moves

variable {A : Aead Key} {key : Key} {conn tx : SecureConnection Key T} {said : List Msg}

/-- While there are nonces, `encrypt` sends or changes nothing. -/
theorem encrypt_of_room [Sub T] [DecidableLE T] {c : SecureChannel Key T} (h : c.Sends A key said)
    (hroom : said.length < 2 ^ 64 - 2) (arg : Arg) :
    c.CanEncrypt arg ∨ ∃ exc, (SecureChannel.encrypt A arg).run c = (.error exc, c) := by
  have hout := SecureChannel.encrypt_outcome A arg c
  generalize hrun : (SecureChannel.encrypt A arg).run c = r at hout
  have hcan : c.CanEmit := h.canEmit_iff.mpr (by simp only [MAX_NONCE]; omega)
  cases hout with
  | closed => exact .inr ⟨_, rfl⟩
  | notBytes => exact .inr ⟨_, rfl⟩
  | tooLarge => exact .inr ⟨_, rfl⟩
  | rekeyFailed _ _ _ hfull => exact absurd hcan hfull
  | transportFailed hopen hlen hdue =>
      refine .inl ⟨hopen, _, rfl, hlen, ?_⟩
      rw [h.nonce_eq, SecureChannel.length_batch]
      simp only [MAX_NONCE]
      split <;> omega
  | sent hopen hlen =>
      refine .inl ⟨hopen, _, rfl, hlen, ?_⟩
      rw [h.nonce_eq, SecureChannel.length_batch]
      simp only [MAX_NONCE]
      split <;> omega

/-- The end is open, or its channel is closed. -/
theorem Orderly.socket_of_open (h : Orderly conn) (hopen : conn.channel.closed = false) :
    conn.socketClosed = false := by
  by_contra hclosed
  rw [h.shut (by simpa using hclosed)] at hopen
  contradiction

/-- `send` keeps an end orderly. -/
theorem Orderly.send [Sub T] [DecidableLE T] (h : Orderly conn) (arg : Arg) :
    Orderly (conn.send A arg) := by
  obtain ⟨hchannel, hloop, -, -, hsocket⟩ := SecureConnection.send_spec A arg conn
  have hclosed := SecureChannel.encrypt_keeps_closed A arg conn.channel
  refine ⟨h.toConsistent.send A arg, ?_, ?_⟩
  · rw [hsocket, hchannel, hclosed]
    exact h.shut
  · rw [hloop]
    exact h.unraised

/-- `close` leaves the channel closed, while there are nonces. -/
theorem Orderly.close (h : Orderly conn) (hcan : conn.channel.CanEmit) :
    Orderly (conn.close A) := by
  have hspec := SecureConnection.close_spec A conn
  refine ⟨h.toConsistent.close A, fun _ => ?_, hspec.2.1 ▸ h.unraised⟩
  rw [hspec.1, SecureChannel.run_closeFrame, if_pos hcan]
  split_ifs with hclosed
  · exact hclosed
  · rfl

/-- The loss of the socket keeps it orderly. -/
theorem Orderly.lose (h : Orderly conn) : Orderly conn.lose := by
  refine ⟨h.toConsistent.lose, ?_, ?_⟩
  · unfold SecureConnection.lose
    split <;> exact h.shut
  · unfold SecureConnection.lose
    have hlost : Loop.ofException .connectionClosed = .stopped .connectionClosed := rfl
    split
    · simp [hlost]
    · exact h.unraised

/-- A loop whose channel is closed ends on what arrives. -/
theorem arrive_of_closed (hrunning : conn.loop = .running) (hclosed : conn.channel.closed = true)
    (frame : Bytes) : conn.arrive A (.binary frame) =
      { conn with
        loop := .stopped (.channelClosedError ["channel is closed"])
        taken := conn.taken + 1 } := by
  have hout := SecureChannel.decrypt_outcome A frame conn.channel
  generalize hrun : (SecureChannel.decrypt A frame).run conn.channel = r at hout
  cases hout with
  | closed =>
      have hstopped : Loop.ofException (.channelClosedError ["channel is closed"]) =
        .stopped (.channelClosedError ["channel is closed"]) := rfl
      simp [SecureConnection.arrive, hrunning, SecureConnection.anext, asBytes, hrun, hstopped]
  | _ hopen => simp [hclosed] at hopen

/-- The loop takes the frame of the message `m`. -/
theorem arrive_heard (hrunning : conn.loop = .running) {frame : Bytes} {m : Msg}
    {c : SecureChannel Key T}
    (hrun : (SecureChannel.decrypt A frame).run conn.channel = (SecureChannel.heardAs m, c)) :
    conn.arrive A (.binary frame) =
      { conn with
        channel := c
        received := conn.received ++ m.delivered?.toList
        loop := if m = .close then .stopped closedByPeer else .running
        taken := conn.taken + 1 } := by
  cases m with
  | close =>
      have hcause : SecureChannel.heardAs .close = .error closedByPeer := rfl
      have hstopped : Loop.ofException closedByPeer = .stopped closedByPeer := rfl
      simp [SecureConnection.arrive, hrunning, SecureConnection.anext, asBytes, hrun, hcause,
        hstopped, Msg.delivered?]
  | _ =>
      simp [SecureConnection.arrive, hrunning, SecureConnection.anext, asBytes, hrun,
        SecureChannel.heardAs, Msg.delivered?]

end Moves

/-! ### The conversation -/

section Ordered

variable {A : Aead Key} {keys : Side → Key} {s : Conversation Key T}

/-- The invariant holds before anything is sent. -/
theorem inv_start (A : Aead Key) (keys : Side → Key) (hash : Bytes) (static : Side → Bytes)
    {sizes : Side → Int} {replay : Side → ReplayWindow} (rekey : Side → RekeyPolicy T)
    (hnew : ∀ side, ReplayWindow.new (sizes side) = .ok (replay side)) :
    Inv A keys (start keys hash static replay rekey) where
  carried side := by
    have hhears : (start keys hash static replay rekey side.peer).channel.Hears A (keys side) [] :=
      SecureChannel.Hears.init _ (rekey side.peer) (by simp [honestHandshake]) (hnew side.peer)
    exact ⟨[], .init _ _ _ rfl, rfl, rfl, by simp, by simp [start, SecureConnection.init],
      Nat.le_refl _, List.prefix_refl _, fun _ => ⟨hhears, rfl⟩, fun _ => .inl ⟨rfl, by simp⟩⟩
  orderly side := ⟨consistent_start keys hash static replay rekey side,
    by simp [start, SecureConnection.init], by simp [start, SecureConnection.init]⟩

/-- A move of one side concerns the direction in which it sends and the
direction in which it receives. -/
theorem Inv.update (h : Inv A keys s) (side : Side) {conn : SecureConnection Key T}
    (hconn : Orderly conn) (htx : ∃ said, Carried A (keys side) conn (s side.peer) said)
    (hrx : ∃ said, Carried A (keys side.peer) (s side.peer) conn said) :
    Inv A keys (Function.update s side conn) := by
  constructor
  · refine Side.forall_of_peer side ?_ ?_
    · obtain ⟨said, hcarried⟩ := htx
      exact ⟨said, by simpa using hcarried⟩
    · obtain ⟨said, hcarried⟩ := hrx
      exact ⟨said, by simpa using hcarried⟩
  · exact (Function.forall_update_iff s fun _ conn => Orderly conn).mpr
      ⟨hconn, fun other _ => h.orderly other⟩

/-- What the peer says to a side. -/
theorem Inv.carried_peer (h : Inv A keys s) (side : Side) :
    ∃ said, Carried A (keys side.peer) (s side.peer) (s side) said := by
  have hcarried := h.carried side.peer
  rwa [Side.peer_peer] at hcarried

/-- `send` keeps it, as long as there is room for two frames. -/
theorem Inv.send [Sub T] [DecidableLE T] (h : Inv A keys s) (side : Side) (arg : Arg)
    (hroom : (s side).wire.length < 2 ^ 64 - 2) :
    Inv A keys (Function.update s side ((s side).send A arg)) := by
  obtain ⟨said, hcarried⟩ := h.carried side
  obtain ⟨heard, hback⟩ := h.carried_peer side
  rw [hcarried.wire_eq, length_frames] at hroom
  cases encrypt_of_room hcarried.sends hroom arg with
  | inr hfails =>
      obtain ⟨exc, hrun⟩ := hfails
      have hsame : (s side).send A arg = s side := by
        cases arg <;> simp [SecureConnection.send, hrun]
      rw [hsame, Function.update_eq_self]
      exact h
  | inl hcan =>
      have hspec := SecureConnection.send_spec A arg (s side)
      refine h.update side ((h.orderly side).send arg) ?_ ⟨heard, hback.rx_congr ?_ hspec.2.1
        hspec.2.2.1 hspec.2.2.2.1 (hspec.2.2.2.2 ▸ id)⟩
      · obtain ⟨plaintext, rfl, -, hrun, hsends⟩ | ⟨-, -, -, -, hcannot⟩ :=
          hcarried.sends.encrypt arg
        swap
        · exact absurd hcan hcannot
        have hsocket := (h.orderly side).socket_of_open hcan.1
        refine ⟨said ++ (s side).channel.batch plaintext, hcarried.say hcan.1 ?_ ?_ ?_ ?_⟩
        · simpa [SecureConnection.send, hrun] using hsends
        · simp [SecureConnection.send, hrun, SecureConnection.sent, hsocket]
        · simp [SecureConnection.send, hrun]
        · rw [hspec.2.2.2.2]
          simp [SecureChannel.close_notMem_batch]
      · rw [hspec.1]
        exact SecureChannel.encrypt_keeps_receiver A arg (s side).channel

/-- `close` keeps it. -/
theorem Inv.close (h : Inv A keys s) (side : Side) (hroom : (s side).wire.length < 2 ^ 64 - 2) :
    Inv A keys (Function.update s side ((s side).close A)) := by
  obtain ⟨said, hcarried⟩ := h.carried side
  obtain ⟨heard, hback⟩ := h.carried_peer side
  rw [hcarried.wire_eq, length_frames] at hroom
  have hcan : (s side).channel.CanEmit :=
    hcarried.sends.canEmit_iff.mpr (by simp only [MAX_NONCE]; omega)
  obtain ⟨hchannel, hloop, hreceived, htaken, hencrypted⟩ :=
    SecureConnection.close_spec A (s side)
  have hclosed : ((s side).close A).socketClosed = true := by
    unfold SecureConnection.close
    rw [SecureChannel.run_closeFrame, if_pos hcan]
    split_ifs <;> rfl
  refine h.update side ((h.orderly side).close hcan) ?_
    ⟨heard, hback.rx_congr ?_ hloop hreceived htaken fun _ => hclosed⟩
  · by_cases hagain : (s side).channel.closed = true
    · -- closed before: by `close`, or on a CLOSE of the peer
      have hsame : (s side).close A = { s side with socketClosed := true } := if_pos hagain
      refine ⟨said, hcarried.tx_congr ?_ ?_ hencrypted (fun _ => hclosed) fun _ => ?_⟩
      · rw [hsame]
        exact hcarried.sends
      · rw [hsame]
      · by_cases hsocket : (s side).socketClosed = true
        · exact .inl hsocket
        · have hstopped := ((h.orderly side).closed hagain).resolve_right hsocket
          obtain ⟨hrunning, -⟩ | ⟨-, -, hmem⟩ := hback.loop_eq (by simpa using hsocket)
          · simp [hstopped] at hrunning
          · exact .inr (hback.closes hmem)
    · obtain ⟨hopen, hrun, hsends⟩ | ⟨-, -, -, -, hclosed | hfull⟩ := hcarried.sends.closeFrame
      rotate_left
      · exact absurd hclosed hagain
      · have hlt := hcarried.sends.canEmit_iff.mp hcan
        omega
      have hsocket := (h.orderly side).socket_of_open hopen
      refine ⟨said ++ [.close], hcarried.say hopen ?_ ?_ ?_ (by simp [hclosed])⟩
      · rw [hchannel, hrun]
        exact hsends
      · simp [SecureConnection.close, hagain, hrun, SecureConnection.sent, hsocket, frames,
          AeadStream.sealings]
      · rw [hencrypted]
        simp [Msg.delivered?]
  · rw [hchannel]
    exact SecureChannel.closeFrame_keeps_receiver A (s side).channel

/-- What was taken grows by the next message. -/
theorem Carried.hear {key : Key} {tx rx : SecureConnection Key T} {said : List Msg}
    (h : Carried A key tx rx said) (hsocket : rx.socketClosed = false) {m : Msg}
    (hnext : said[rx.taken]? = some m) (hrunning : rx.loop = .running) {c : SecureChannel Key T}
    (hhears : c.Hears A key (said.take rx.taken ++ [m])) :
    Carried A key tx
      { rx with
        channel := c
        received := rx.received ++ m.delivered?.toList
        loop := if m = .close then .stopped closedByPeer else .running
        taken := rx.taken + 1 } said := by
  have htake : said.take (rx.taken + 1) = said.take rx.taken ++ [m] := by
    rw [List.take_add_one, hnext, Option.toList_some]
  have hplain : rx.received ++ m.delivered?.toList = plaintexts (said.take (rx.taken + 1)) := by
    rw [htake, (h.hears hsocket).2]
    simp
  constructor
  · exact h.sends
  · exact h.wire_eq
  · exact h.encrypted_eq
  · exact h.closes
  · exact h.announced
  · exact (List.getElem?_eq_some_iff.mp hnext).1
  · exact hplain ▸ (List.take_prefix _ said).filterMap Msg.delivered?
  · exact fun _ => ⟨htake ▸ hhears, hplain⟩
  · intro _
    by_cases hclose : m = .close
    · have hmem : Msg.close ∈ said.take (rx.taken + 1) := by simp [htake, hclose]
      have hall := h.sends.eq_of_close_mem (List.take_prefix _ said) hmem
      exact .inr ⟨if_pos hclose, hall, hall ▸ hmem⟩
    · refine .inl ⟨if_neg hclose, ?_⟩
      have hsilent := (h.loop_eq hsocket).resolve_right (by simp [hrunning])
      rw [htake, List.mem_append, List.mem_singleton, not_or]
      exact ⟨hsilent.2, Ne.symm hclose⟩

/-- What a side takes changes nothing about what it says. -/
theorem Carried.of_arrive {key : Key} {tx rx : SecureConnection Key T} {said : List Msg}
    (h : Carried A key tx rx said) {c : SecureChannel Key T} (hsends : c.Sends A key said)
    (loop : Loop) (received : List Bytes) (taken : Nat) :
    Carried A key
      { tx with channel := c, loop := loop, received := received, taken := taken } rx said :=
  h.tx_congr hsends rfl rfl id .inl

/-- The next frame arrives at an end whose loop is running. -/
theorem Inv.arrive (h : Inv A keys s) (hA : A.Correct) (hover : A.Overhead AEAD_TAG_LEN)
    (side : Side) (hrunning : (s side).loop = .running) {frame : Bytes}
    (hframe : (s side.peer).wire[(s side).taken]? = some frame) :
    Inv A keys (Function.update s side ((s side).arrive A (.binary frame))) := by
  have horderly := h.orderly side
  have harrive := horderly.toConsistent.arrive A (.binary frame)
  obtain ⟨said, hout⟩ := h.carried side
  obtain ⟨heard, hin⟩ := h.carried_peer side
  rw [hin.wire_eq, getElem?_frames, Option.map_eq_some_iff] at hframe
  obtain ⟨m, hnext, hframe⟩ := hframe
  have hlt := (List.getElem?_eq_some_iff.mp hnext).1
  by_cases hclosed : (s side).channel.closed = true
  · have hsocket := horderly.socketClosed hrunning hclosed
    rw [arrive_of_closed hrunning hclosed] at harrive ⊢
    refine h.update side ⟨harrive, horderly.shut, by simp⟩
      ⟨said, hout.of_arrive hout.sends _ _ _⟩ ⟨heard, ?_⟩
    -- its end has closed: nothing is promised any more
    have hvacuous : ∀ {p : Prop}, (s side).socketClosed = false → p := fun hopen =>
      absurd (hopen.symm.trans hsocket) Bool.false_ne_true
    exact ⟨hin.sends, hin.wire_eq, hin.encrypted_eq, hin.closes, hin.announced, hlt,
      hin.received_prefix, hvacuous, hvacuous⟩
  · have hopen : (s side).channel.closed = false := by simpa using hclosed
    have hsocket := horderly.socket_of_open hopen
    have hlen := hin.sends.length_le
    have htake : (heard.take (s side).taken).length = (s side).taken :=
      List.length_take_of_le hin.taken_le
    obtain ⟨c, hrun, hhears, -⟩ := (hin.hears hsocket).1.decrypt_next hA hover hopen (by omega)
      (hin.sends.fits m (List.mem_of_getElem? hnext))
    rw [hframe] at hrun
    have hsends := hout.sends.decrypt A frame
    rw [hrun] at hsends
    rw [arrive_heard hrunning hrun] at harrive ⊢
    refine h.update side ⟨harrive, fun hshut => ?_, ?_⟩ ⟨said, hout.of_arrive hsends _ _ _⟩
      ⟨heard, hin.hear hsocket hnext hrunning hhears⟩
    · exact absurd (hsocket.symm.trans hshut) Bool.false_ne_true
    · intro exc hraised
      dsimp only at hraised
      split at hraised <;> cases hraised

/-- A connection that is lost in order was closed, and the loop knows. -/
theorem Inv.lose (h : Inv A keys s) (side : Side)
    (hlost : (s side).socketClosed = true ∨
      (s side.peer).socketClosed = true ∧ (s side).taken = (s side.peer).wire.length) :
    Inv A keys (Function.update s side (s side).lose) := by
  by_cases hrunning : (s side).loop = .running
  swap
  · rw [SecureConnection.lose_of_ended hrunning, Function.update_eq_self]
    exact h
  obtain ⟨said, hout⟩ := h.carried side
  obtain ⟨heard, hin⟩ := h.carried_peer side
  have hsocket : (s side).socketClosed = true := by
    by_contra hsocket
    obtain ⟨hpeer, htaken⟩ := hlost.resolve_left hsocket
    rw [hin.wire_eq, length_frames] at htaken
    have hsilent := (hin.loop_eq (by simpa using hsocket)).resolve_right (by simp [hrunning])
    rw [htaken, List.take_length] at hsilent
    exact (hin.announced hpeer).elim hsilent.2 hsocket
  have hlose : (s side).lose = { s side with loop := .ofException .connectionClosed } := by
    simp [SecureConnection.lose, hrunning]
  have horderly := (h.orderly side).lose
  have hvacuous : ∀ {p : Prop}, (s side).socketClosed = false → p := fun hopen =>
    absurd (hopen.symm.trans hsocket) Bool.false_ne_true
  rw [hlose] at horderly ⊢
  exact h.update side horderly ⟨said, hout.of_arrive hout.sends _ _ _⟩
    ⟨heard, hin.sends, hin.wire_eq, hin.encrypted_eq, hin.closes, hin.announced, hin.taken_le,
      hin.received_prefix, hvacuous, hvacuous⟩

variable [Sub T] [DecidableLE T]

/-- One allowed step keeps the invariant. -/
theorem Inv.step (h : Inv A keys s) (hA : A.Correct) (hover : A.Overhead AEAD_TAG_LEN)
    {event : Event} (hallowed : Allowed s event) : Inv A keys (step A A s event) := by
  cases event with
  | send side arg => exact h.send side arg hallowed
  | close side => exact h.close side hallowed
  | lost side => exact h.lose side hallowed
  | arrive side message =>
      obtain ⟨frame, rfl, hframe⟩ := hallowed
      by_cases hrunning : (s side).loop = .running
      · exact h.arrive hA hover side hrunning hframe
      · simp only [Conversation.step, SecureConnection.arrive_of_ended hrunning,
          Function.update_eq_self]
        exact h

/-- A whole run keeps the invariant. -/
theorem Inv.reachable {s₀ : Conversation Key T} (h : Inv A keys s₀) (hA : A.Correct)
    (hover : A.Overhead AEAD_TAG_LEN) (hs : Reachable A s₀ s) : Inv A keys s := by
  induction hs with
  | start => exact h
  | step _ event hallowed ih => exact ih.step hA hover hallowed

/-- The frames in flight can be delivered, one by one. -/
theorem Inv.deliver (h : Inv A keys s) (hA : A.Correct) (hover : A.Overhead AEAD_TAG_LEN)
    {side : Side} (hsocket : (s side).socketClosed = false) (k : Nat)
    (hk : (s side).taken + k ≤ (s side.peer).wire.length) :
    ∃ s', Reachable A s s' ∧ s' side.peer = s side.peer ∧ (s' side).socketClosed = false ∧
      (s' side).taken = (s side).taken + k := by
  induction k with
  | zero => exact ⟨s, .start, rfl, hsocket, rfl⟩
  | succ k ih =>
      obtain ⟨s', hs', hpeer, hsocket', htaken⟩ := ih (by omega)
      have hinv := h.reachable hA hover hs'
      obtain ⟨said, hcarried⟩ := hinv.carried_peer side
      have hlt : (s' side).taken < (s' side.peer).wire.length := by
        rw [hpeer, htaken]
        omega
      have hrunning : (s' side).loop = .running := by
        obtain ⟨hrunning, -⟩ | ⟨-, hall, -⟩ := hcarried.loop_eq hsocket'
        · exact hrunning
        · rw [hcarried.wire_eq, length_frames] at hlt
          rw [List.take_eq_self_iff] at hall
          omega
      refine ⟨_, hs'.step (.arrive side (.binary _))
        ⟨_, rfl, List.getElem?_eq_getElem hlt⟩, ?_, ?_, ?_⟩
      · simpa [Conversation.step] using hpeer
      · simpa [Conversation.step, SecureConnection.socketClosed_arrive] using hsocket'
      · simp [Conversation.step, SecureConnection.taken_arrive hrunning, htaken, Nat.add_assoc]

/-- **A loop goes on to the end.**  Over a network that delivers in order, with
a correct AEAD: no exception comes out of a loop, and it has yielded a prefix of
what the peer has sent.  Until its own end closes, it goes on, or it has ended
on the CLOSE of the peer with everything the peer has sent; when nothing is in
flight, it has yielded everything, and goes on exactly if the peer has not
closed; and what is in flight can still be delivered, all of it. -/
theorem loop_complete (A : Aead Key) (hA : A.Correct) (hover : A.Overhead AEAD_TAG_LEN)
    (keys : Side → Key) (hash : Bytes) (static : Side → Bytes) (sizes : Side → Int)
    (replay : Side → ReplayWindow)
    (hnew : ∀ side, ReplayWindow.new (sizes side) = .ok (replay side))
    (rekey : Side → RekeyPolicy T) (s : Conversation Key T)
    (hs : Reachable A (start keys hash static replay rekey) s) (side : Side) :
    (∀ exc, (s side).loop ≠ .raised exc) ∧
      (s side).received <+: (s side.peer).encrypted ∧
      ((s side).socketClosed = false →
        ((s side).loop = .running ∨ (s side).loop = .stopped closedByPeer ∧
          (s side).received = (s side.peer).encrypted ∧ (s side.peer).socketClosed = true) ∧
        ((s side).taken = (s side.peer).wire.length →
          (s side).received = (s side.peer).encrypted ∧
            ((s side).loop = .running ↔ (s side.peer).socketClosed = false)) ∧
        ∃ s', Reachable A s s' ∧ s' side.peer = s side.peer ∧
          (s' side).received = (s side.peer).encrypted) := by
  have hinv := (inv_start A keys hash static rekey hnew).reachable hA hover hs
  obtain ⟨said, hin⟩ := hinv.carried_peer side
  refine ⟨(hinv.orderly side).unraised, hin.encrypted_eq ▸ hin.received_prefix, fun hsocket => ?_⟩
  have hreceived := (hin.hears hsocket).2
  refine ⟨?_, fun htaken => ?_, ?_⟩
  · obtain ⟨hrunning, -⟩ | ⟨hstopped, hall, hclose⟩ := hin.loop_eq hsocket
    · exact .inl hrunning
    · rw [hall] at hreceived
      exact .inr ⟨hstopped, hreceived.trans hin.encrypted_eq.symm, hin.closes hclose⟩
  · rw [hin.wire_eq, length_frames] at htaken
    have hloop := hin.loop_eq hsocket
    rw [htaken, List.take_length] at hreceived hloop
    refine ⟨hreceived.trans hin.encrypted_eq.symm, ?_⟩
    obtain ⟨hrunning, hsilent⟩ | ⟨hstopped, -, hclose⟩ := hloop
    · refine ⟨fun _ => ?_, fun _ => hrunning⟩
      by_contra hpeer
      obtain hclose | hown := hin.announced (by simpa using hpeer)
      · exact hsilent hclose
      · exact absurd (hsocket.symm.trans hown) Bool.false_ne_true
    · simp [hstopped, hin.closes hclose]
  · have hle := hin.taken_le
    rw [← length_frames A (stream.cipher A (keys side.peer) []) said, ← hin.wire_eq] at hle
    obtain ⟨s', hs', hpeer, hsocket', htaken⟩ := hinv.deliver hA hover hsocket
      ((s side.peer).wire.length - (s side).taken) (by omega)
    refine ⟨s', hs', hpeer, ?_⟩
    obtain ⟨said', hin'⟩ := (hinv.reachable hA hover hs').carried_peer side
    have hreceived' := (hin'.hears hsocket').2
    have hall : (s' side).taken = said'.length := by
      rw [← length_frames A (stream.cipher A (keys side.peer) []) said', ← hin'.wire_eq, hpeer,
        htaken]
      omega
    rw [hall, List.take_length] at hreceived'
    rw [hreceived', ← hin'.encrypted_eq, hpeer]

/-- The initiator sends a message and closes; the responder's loop yields the
message and ends on the CLOSE. -/
theorem loop_complete_closed :
    let A := Aead.spelled (· + 2)
    let window : ReplayWindow := ⟨1, 1, -1, 0, by decide, rfl⟩
    let policy : RekeyPolicy ℤ := ⟨1, 900, fun _ => 0, 1, 0, 0, by decide, by decide⟩
    let s₀ : Conversation Nat ℤ := start (fun side => if side = .initiator then 0 else 1) []
      (fun _ => []) (fun _ => window) (fun _ => policy)
    let message := headerFor .transport 0 [104, 105] ++ A.encrypt 0 0 [] [104, 105]
    let farewell := headerFor .close 1 [] ++ A.encrypt 0 1 [] []
    let s := [Event.send .initiator (.bytesLike [104, 105]), .close .initiator,
      .arrive .responder (.binary message), .arrive .responder (.binary farewell)].foldl
        (step A A) s₀
    (s .responder).loop = .stopped closedByPeer ∧ (s .responder).received = [[104, 105]] ∧
      ∀ exc, (s .responder).loop ≠ .raised exc := by
  intro A window policy s₀ message farewell s
  have hs : Reachable A s₀ s :=
    (((Reachable.start.step (.send .initiator (.bytesLike [104, 105]))
      (by simp only [Allowed]; decide)).step (.close .initiator)
      (by simp only [Allowed]; decide)).step (.arrive .responder (.binary message))
      ⟨_, rfl, by decide⟩).step (.arrive .responder (.binary farewell)) ⟨_, rfl, by decide⟩
  exact ⟨by decide, by decide, (loop_complete A (Aead.correct_spelled _) (Aead.overhead_spelled _)
    _ [] _ (fun _ => 1) (fun _ => window) (fun _ => rfl) (fun _ => policy) s hs .responder).1⟩

end Ordered

end Conversation

end SecureWs
