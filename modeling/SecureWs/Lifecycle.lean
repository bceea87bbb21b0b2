import SecureWs.Attempts
import SecureWs.Noise

/-!
# SecureWs.Lifecycle

The coroutines of `transport.py` from one `await` to the next: `connect`, and
the callback `_on_connection` of `serve`, over a socket on which everything can
go wrong.

* `Await` is where a coroutine waits, and `step` runs it on when what it waits
  for completes, raises, or takes too long;
* `Tidy` and `Sends` are the invariants over whole runs: `lifecycle` says what
  is sent and when the socket is closed, `accepted_through_gate` who gets through;
* `refines_attempt`: every run that has left its handshake did so in one step,
  and that step is the attempt of `Attempts.lean` in one piece, whatever other
  tasks have done to the store in the meantime.
-/

namespace SecureWs

open Python World

variable {Conn Key T : Type} [Zero T] [LE T]

/-! ## The coroutines -/

/-- What comes out of an `await` that does not complete: an exception, or the
cancellation of the task, which is not an `Exception`. -/
inductive Raised where
  | exception (exc : PyError)
  | cancelled
  deriving DecidableEq, Repr

/-- Whose coroutine it is. -/
inductive Caller where
  | connect (tls : Tls)
  | serve (remoteAddress : Str)

/-- The arguments of a coroutine.  `timeoutText` is `str(handshake_timeout)`,
`entropy` is what the library draws for the ephemeral key, and `clock` what
`time.time()` returns when a certificate is checked.  In the callback the window
and the policy are the default ones. -/
structure Setup (T : Type) [Zero T] [LE T] where
  caller : Caller
  config : Config
  timeoutText : Str
  staticPrivate : Bytes
  entropy : Bytes
  localCertBytes : Bytes
  clock : ℚ
  replayWindow : ReplayWindow
  rekeyPolicy : RekeyPolicy T

/-- `initiator=True` in `connect`, and `initiator=False` in the callback. -/
def Setup.initiator (setup : Setup T) : Bool :=
  match setup.caller with
  | .connect _ => true
  | .serve _ => false

/-- Where a coroutine waits: for the WebSocket, for `ws.send`, for `ws.recv`, for
the handler, for `ws.close` (with what is raised behind it), or for nothing. -/
inductive Await (Conn Key T : Type) [Zero T] [LE T] where
  | opening
  | sending (driver : Driver Conn)
  | receiving (driver : Driver Conn)
  | handling (channel : SecureChannel Key T)
  | closing (exc : Option Raised)
  | returned (channel : Option (SecureChannel Key T))
  | raised (exc : Raised)

def Await.isReturned : Await Conn Key T → Bool
  | .returned _ => true
  | _ => false

/-- A coroutine in the world that it shares with others: the frames it has given
to `ws.send`, the messages `ws.recv` has given it, and whether it has a socket. -/
structure Coroutine (Conn Key T : Type) [Zero T] [LE T] where
  world : World Key T
  await : Await Conn Key T
  wire : List Bytes
  received : List WsMessage
  opened : Bool

/-- What happens: what the coroutine waits for completes, with a message if it
is `ws.recv()`, or raises, or the handshake times out, or another task changes
the store. -/
inductive Resumption where
  | completed
  | message (message : WsMessage)
  | raised (exc : Raised)
  | timeout
  | others (store : KnownPeers)

/-- The peer that the driver has returned.  A static key of the library has 32
bytes, so that there always is one; the model stops where there is none. -/
def Peer.of? (result : HandshakeResult Key) (certBytes : Bytes) : Option (Peer Key) :=
  if h : result.remoteStatic.length = X25519_KEY_LEN then some ⟨result, certBytes, h⟩ else none

namespace Coroutine

variable (lib : NoiseLibrary Conn Key) (env : Env) (setup : Setup T)

/-- The `except` clauses: all of `BaseException` in `connect`, and two kinds of
exceptions in the callback. -/
def fail (s : Coroutine Conn Key T) (exc : Raised) : Coroutine Conn Key T :=
  match setup.caller, exc with
  | .connect _, exc => { s with
      world := { s.world with closes := s.world.closes ++ [none] }, await := .closing (some exc) }
  | .serve _, .cancelled => { s with await := .raised .cancelled }
  | .serve remoteAddress, .exception exc => match (rejectClient remoteAddress exc).run s.world with
      | (.error exc, world) => { s with world := world, await := .raised (.exception exc) }
      | (.ok _, world) => { s with
          world := world
          await := if exc = .connectionClosed then .returned none else .closing none }

/-- What is left of the `try` block once the driver has returned. -/
def settle (s : Coroutine Conn Key T) (peer : Peer Key) : Coroutine Conn Key T :=
  let channel := peer.channel setup.replayWindow setup.rekeyPolicy
  match (authenticate env setup.config setup.clock peer).run s.world, setup.caller with
  | (.error exc, world), _ => fail setup { s with world := world } (.exception exc)
  | (.ok _, world), .connect _ => { s with world := world, await := .returned (some channel) }
  | (.ok _, world), .serve _ => { s with
      world := { world with handled := world.handled ++ [channel] }, await := .handling channel }

/-- The driver runs on to its next `await`, or leaves its loop. -/
def advance (s : Coroutine Conn Key T) (driver : Driver Conn) : Coroutine Conn Key T :=
  match driver.iterate lib none with
  | .returned result peerCert => match Peer.of? result peerCert with
      | some peer => settle env setup s peer
      | none => { s with await := .receiving driver }
  | .raised exc => fail setup s (.exception exc)
  | .waiting => { s with await := .receiving driver }
  | .wrote frame driver => { s with await := .sending driver, wire := s.wire ++ [frame] }
  | .read _ => s

/-- The handshake begins. -/
def handshake (s : Coroutine Conn Key T) : Coroutine Conn Key T :=
  match NoiseXXHandshake.new lib setup.initiator setup.staticPrivate buildPrologue setup.entropy with
  | .error exc => fail setup s (.exception exc)
  | .ok hs => advance lib env setup s (.init hs setup.localCertBytes)

/-- `connect` checks its arguments and opens a WebSocket; `_on_connection` is
called with one. -/
def start (world : World Key T) : Coroutine Conn Key T :=
  match setup.caller with
  | .connect tls => match checkConnect setup.config tls with
      | .error exc => ⟨world, .raised (.exception exc), [], [], false⟩
      | .ok _ => ⟨world, .opening, [], [], false⟩
  | .serve _ => handshake lib env setup ⟨world, .opening, [], [], true⟩

/-- The WebSocket of `connect` is open. -/
def connected (s : Coroutine Conn Key T) : Coroutine Conn Key T :=
  match setup.caller with
  | .serve _ => s
  | .connect tls => match checkCertPin env tls with
      | .error exc => fail setup { s with opened := true } (.exception exc)
      | .ok _ => handshake lib env setup { s with opened := true }

/-- `ws.recv()` returns a message. -/
def receive (s : Coroutine Conn Key T) (driver : Driver Conn) (message : WsMessage) :
    Coroutine Conn Key T :=
  match driver.iterate lib (some message) with
  | .read driver => advance lib env setup { s with received := s.received ++ [message] } driver
  | .raised exc => fail setup { s with received := s.received ++ [message] } (.exception exc)
  | _ => s

/-- `asyncio.wait_for` gives up, if there is a timeout. -/
def timeOut (s : Coroutine Conn Key T) : Coroutine Conn Key T :=
  if setup.config.handshakeTimeout.isSome = true then
    fail setup s (.exception
      (.handshakeError ["handshake did not complete within ", .str setup.timeoutText, "s"]))
  else s

def step (s : Coroutine Conn Key T) (event : Resumption) : Coroutine Conn Key T :=
  match s.await, event with
  | _, .others store => { s with world := { s.world with knownPeers := store } }
  | .opening, .completed => connected lib env setup s
  | .opening, .raised exc => { s with await := .raised exc }
  | .sending driver, .completed => advance lib env setup s driver
  | .receiving driver, .message message => receive lib env setup s driver message
  | .sending _, .raised exc => fail setup s exc
  | .receiving _, .raised exc => fail setup s exc
  | .sending _, .timeout => timeOut setup s
  | .receiving _, .timeout => timeOut setup s
  | .handling _, .completed => { s with await := .returned none }
  | .handling _, .raised exc => fail setup s exc
  | .closing none, .completed => { s with await := .returned none }
  | .closing (some exc), .completed => { s with await := .raised exc }
  | .closing _, .raised exc => { s with await := .raised exc }
  | _, _ => s

def run (world : World Key T) (events : List Resumption) : Coroutine Conn Key T :=
  events.foldl (step lib env setup) (start lib env setup world)

/-- What becomes of a coroutine that neither drives the handshake nor raises
inside its `try` block. -/
inductive Ends : Await Conn Key T → Await Conn Key T → Prop
  | unopened (exc : Raised) : Ends .opening (.raised exc)
  | handled (channel : SecureChannel Key T) : Ends (.handling channel) (.returned none)
  | closed (exc : Option Raised) (exc' : Raised) : Ends (.closing exc) (.raised exc')
  | finished : Ends (.closing none) (.returned none)

/-- It waits inside its `try` block. -/
def InTry (s : Coroutine Conn Key T) : Prop :=
  match s.await with
  | .sending _ => True
  | .receiving _ => True
  | .handling _ => True
  | _ => False

/-- What a step can do. -/
inductive Moves (s : Coroutine Conn Key T) : Coroutine Conn Key T → Prop
  | same : Moves s s
  | others (store : KnownPeers) : Moves s { s with world := { s.world with knownPeers := store } }
  | connected (h : s.await = .opening) : Moves s (connected lib env setup s)
  | advanced (driver : Driver Conn) (h : s.await = .sending driver) :
      Moves s (advance lib env setup s driver)
  | received (driver : Driver Conn) (message : WsMessage) (h : s.await = .receiving driver) :
      Moves s (receive lib env setup s driver message)
  | failed (exc : Raised) (h : s.InTry) : Moves s (fail setup s exc)
  | ended (await : Await Conn Key T) (h : Ends s.await await) : Moves s { s with await := await }

/-- **The steps of a coroutine**, one case for each kind. -/
theorem step_moves (s : Coroutine Conn Key T) (event : Resumption) :
    Moves lib env setup s (step lib env setup s event) := by
  have htimeOut : s.InTry → Moves lib env setup s (timeOut setup s) := by
    intro h
    unfold timeOut
    by_cases htimeout : setup.config.handshakeTimeout.isSome = true
    · rw [if_pos htimeout]
      exact .failed _ h
    · rw [if_neg htimeout]
      exact .same
  unfold step InTry at *
  cases event with
  | others store => exact .others store
  | completed => cases hawait : s.await with
    | opening => exact .connected hawait
    | sending driver => exact .advanced driver hawait
    | handling channel => exact .ended _ (hawait ▸ .handled channel)
    | closing exc => cases exc with
      | none => exact .ended _ (hawait ▸ .finished)
      | some exc => exact .ended _ (hawait ▸ .closed _ exc)
    | _ => exact .same
  | message message => cases hawait : s.await with
    | receiving driver => exact .received driver message hawait
    | _ => exact .same
  | raised exc => cases hawait : s.await with
    | opening => exact .ended _ (hawait ▸ .unopened exc)
    | sending driver => exact .failed exc (by rw [InTry, hawait]; trivial)
    | receiving driver => exact .failed exc (by rw [InTry, hawait]; trivial)
    | handling channel => exact .failed exc (by rw [InTry, hawait]; trivial)
    | closing exc' => exact .ended _ (hawait ▸ .closed exc' exc)
    | _ => exact .same
  | timeout => cases hawait : s.await with
    | sending driver => exact htimeOut (by rw [hawait]; trivial)
    | receiving driver => exact htimeOut (by rw [hawait]; trivial)
    | _ => exact .same

end Coroutine

/-! ## The driver on the way -/

namespace Driver

variable {lib : NoiseLibrary Conn Key} {self driver driver' : Driver Conn} {messages : List WsMessage}

variable (lib) in
/-- After these messages the driver `self` has become `driver`: whatever comes
behind them, a run of the one goes on as a run of the other. -/
def Follows (self : Driver Conn) (messages : List WsMessage) (driver : Driver Conn) : Prop :=
  ∃ k, ∀ n rest, self.drive lib (k + n) (messages ++ rest) = driver.drive lib n rest

theorem Follows.refl (self : Driver Conn) : self.Follows lib [] self :=
  ⟨0, fun n rest => by rw [Nat.zero_add, List.nil_append]⟩

/-- One frame further. -/
theorem Follows.wrote (h : self.Follows lib messages driver) {frame : Bytes}
    (hiterate : driver.iterate lib none = .wrote frame driver') :
    self.Follows lib messages driver' := by
  obtain ⟨k, hk⟩ := h
  refine ⟨k + 1, fun n rest => ?_⟩
  rw [Nat.add_assoc, Nat.add_comm 1 n, hk, drive, iterate_wrote_congr hiterate]

/-- One message further. -/
theorem Follows.read (h : self.Follows lib messages driver) {message : WsMessage}
    (hiterate : driver.iterate lib (some message) = .read driver') :
    self.Follows lib (messages ++ [message]) driver' := by
  obtain ⟨k, hk⟩ := h
  refine ⟨k + 1, fun n rest => ?_⟩
  rw [Nat.add_assoc, Nat.add_comm 1 n, List.append_assoc, hk, drive]
  simp only [List.singleton_append, List.head?_cons, hiterate, List.tail_cons]

/-- What the driver returns, the run returns. -/
theorem Follows.returned (h : self.Follows lib messages driver) {result : HandshakeResult Key}
    {peerCert : Bytes} (hiterate : driver.iterate lib none = .returned result peerCert) :
    ∃ n, self.drive lib n messages = .returned result peerCert := by
  obtain ⟨k, hk⟩ := h
  refine ⟨k + 1, ?_⟩
  have hrun := hk 1 []
  rw [List.append_nil] at hrun
  rw [hrun]
  simp only [drive, List.head?_nil, hiterate]

end Driver

/-! ## What has become of the socket -/

/-- What the `except` clauses of the callback let through. -/
def Raised.Escapes : Raised → Prop
  | .exception exc => exc ≠ .connectionClosed ∧ exc.isSecureWebSocketError = false
  | .cancelled => True

/-- Where the coroutine waits, whether it has a socket, and how it has closed
it: `connect` without a code, and the callback with 1008. -/
inductive Disposed : Caller → Bool → Await Conn Key T → List (Option (Nat × String)) → Prop
  | opening (tls : Tls) : Disposed (.connect tls) false .opening []
  | unopened (tls : Tls) (exc : Raised) : Disposed (.connect tls) false (.raised exc) []
  | sending (caller : Caller) (driver : Driver Conn) : Disposed caller true (.sending driver) []
  | receiving (caller : Caller) (driver : Driver Conn) : Disposed caller true (.receiving driver) []
  | handed (tls : Tls) (channel : SecureChannel Key T) :
      Disposed (.connect tls) true (.returned (some channel)) []
  | closing (tls : Tls) (exc : Raised) : Disposed (.connect tls) true (.closing (some exc)) [none]
  | closed (tls : Tls) (exc : Raised) : Disposed (.connect tls) true (.raised exc) [none]
  | handling (remoteAddress : Str) (channel : SecureChannel Key T) :
      Disposed (.serve remoteAddress) true (.handling channel) []
  | finished (remoteAddress : Str) : Disposed (.serve remoteAddress) true (.returned none) []
  | escaped (remoteAddress : Str) (exc : Raised) (h : exc.Escapes) :
      Disposed (.serve remoteAddress) true (.raised exc) []
  | rejecting (remoteAddress : Str) :
      Disposed (.serve remoteAddress) true (.closing none) [some (1008, "handshake failed")]
  | rejected (remoteAddress : Str) :
      Disposed (.serve remoteAddress) true (.returned none) [some (1008, "handshake failed")]
  | broken (remoteAddress : Str) (exc : Raised) :
      Disposed (.serve remoteAddress) true (.raised exc) [some (1008, "handshake failed")]

namespace Coroutine

variable {lib : NoiseLibrary Conn Key} {env : Env} {setup : Setup T} {s : Coroutine Conn Key T}
  {world₀ : World Key T}

/-- Since `world₀` the socket was closed as it should be. -/
def Tidy (setup : Setup T) (world₀ : World Key T) (s : Coroutine Conn Key T) : Prop :=
  ∃ closes, s.world.closes = world₀.closes ++ closes ∧ Disposed setup.caller s.opened s.await closes

/-- It has a socket, which is not closed. -/
structure Open (world₀ : World Key T) (s : Coroutine Conn Key T) : Prop where
  opened : s.opened = true
  closes : s.world.closes = world₀.closes

/-- The `except` clauses close the socket or leave that to others. -/
theorem tidy_fail (h : Open world₀ s) (exc : Raised) : Tidy setup world₀ (fail setup s exc) := by
  unfold Tidy fail
  cases setup.caller with
  | connect tls =>
      refine ⟨[none], by rw [h.closes], ?_⟩
      rw [h.opened]
      exact .closing tls exc
  | serve remoteAddress => cases exc with
    | cancelled =>
        refine ⟨[], by rw [h.closes, List.append_nil], ?_⟩
        rw [h.opened]
        exact .escaped remoteAddress .cancelled trivial
    | exception exc =>
        unfold rejectClient
        by_cases hclosed : exc = .connectionClosed
        · refine ⟨[], ?_⟩
          simp only [if_pos hclosed, emitLog, Imp.run_modify, h.closes, h.opened, List.append_nil]
          exact ⟨trivial, .finished remoteAddress⟩
        · by_cases hsecure : exc.isSecureWebSocketError = true
          · refine ⟨[some (1008, "handshake failed")], ?_⟩
            simp only [if_neg hclosed, if_pos hsecure, emitLog, closeWs,
              Imp.run_bind_of_ok (Imp.run_modify _ _), Imp.run_modify, h.closes, h.opened]
            exact ⟨trivial, .rejecting remoteAddress⟩
          · refine ⟨[], ?_⟩
            simp only [if_neg hclosed, if_neg hsecure, Imp.run_throw, h.closes, h.opened,
              List.append_nil]
            exact ⟨trivial, .escaped remoteAddress _ ⟨hclosed, by simpa using hsecure⟩⟩

/-- The gate does not close the socket. -/
theorem closes_authenticate (env : Env) (config : Config) (clock : ℚ) (peer : Peer Key)
    (world : World Key T) :
    ((authenticate env config clock peer).run world).2.closes = world.closes := by
  have hout := authenticate_outcome env config clock peer world
  generalize (authenticate env config clock peer).run world = r at hout
  cases hout with
  | keyRefused => rfl
  | certificateRefused => rfl
  | unverified => rfl
  | admitted => rfl

/-- The checks leave the connection open or close it. -/
theorem tidy_settle (h : Open world₀ s) (peer : Peer Key) :
    Tidy setup world₀ (settle env setup s peer) := by
  have hcloses := closes_authenticate env setup.config setup.clock peer s.world
  unfold settle
  cases hrun : (authenticate env setup.config setup.clock peer).run s.world with
  | mk result world =>
      rw [hrun] at hcloses
      have hworld : world.closes = world₀.closes := hcloses.trans h.closes
      cases result with
      | error exc =>
          have hopen : Open world₀ { s with world := world } := ⟨h.opened, hworld⟩
          exact tidy_fail hopen _
      | ok u =>
          unfold Tidy
          cases setup.caller with
          | connect tls =>
              refine ⟨[], by rw [hworld, List.append_nil], ?_⟩
              rw [h.opened]
              exact .handed tls _
          | serve remoteAddress =>
              refine ⟨[], by rw [hworld, List.append_nil], ?_⟩
              rw [h.opened]
              exact .handling remoteAddress _

/-- The driver leaves its loop, or waits for the socket. -/
theorem tidy_advance (h : Open world₀ s) (driver : Driver Conn) :
    Tidy setup world₀ (advance lib env setup s driver) := by
  have hreceiving : Tidy setup world₀ { s with await := .receiving driver } := by
    refine ⟨[], by rw [h.closes, List.append_nil], ?_⟩
    rw [h.opened]
    exact .receiving _ driver
  unfold advance
  cases hiterate : driver.iterate lib none with
  | returned result peerCert =>
      simp only
      cases Peer.of? result peerCert with
      | some peer => exact tidy_settle h peer
      | none => exact hreceiving
  | raised exc => exact tidy_fail h _
  | waiting => exact hreceiving
  | wrote frame driver' =>
      refine ⟨[], by rw [h.closes, List.append_nil], ?_⟩
      rw [h.opened]
      exact .sending _ driver'
  | read driver' =>
      obtain ⟨-, _, _, _, _, hfirst, -⟩ := Driver.read_of_iterate hiterate
      cases hfirst

/-- From an open socket, the handshake begins tidily. -/
theorem tidy_handshake (h : Open world₀ s) : Tidy setup world₀ (handshake lib env setup s) := by
  unfold handshake
  cases NoiseXXHandshake.new lib setup.initiator setup.staticPrivate buildPrologue setup.entropy with
  | error exc => exact tidy_fail h _
  | ok hs => exact tidy_advance h _

/-- A coroutine is tidy when it starts. -/
theorem tidy_start (world : World Key T) : Tidy setup world (start lib env setup world) := by
  cases hcaller : setup.caller with
  | connect tls =>
      unfold start Tidy
      simp only [hcaller]
      cases checkConnect setup.config tls with
      | error exc => exact ⟨[], (List.append_nil _).symm, .unopened tls _⟩
      | ok u => exact ⟨[], (List.append_nil _).symm, .opening tls⟩
  | serve remoteAddress =>
      unfold start
      simp only [hcaller]
      exact tidy_handshake ⟨rfl, rfl⟩

/-- Inside the `try` block the socket is open. -/
theorem Tidy.isOpen (h : Tidy setup world₀ s) (hawait : s.InTry) : Open world₀ s := by
  obtain ⟨closes, hcloses, hdisposed⟩ := h
  unfold InTry at hawait
  generalize hopened : s.opened = opened at hdisposed
  generalize s.await = await at hawait hdisposed
  generalize setup.caller = caller at hdisposed
  cases hdisposed with
  | sending | receiving | handling =>
      rw [List.append_nil] at hcloses
      exact ⟨hopened, hcloses⟩
  | _ => exact hawait.elim

/-- The WebSocket of `connect` is there, or will never be. -/
theorem Tidy.opening (h : Tidy setup world₀ s) (hawait : s.await = .opening) :
    ∃ tls, setup.caller = .connect tls ∧ s.opened = false ∧ s.world.closes = world₀.closes := by
  obtain ⟨closes, hcloses, hdisposed⟩ := h
  generalize hopened : s.opened = opened at hdisposed
  generalize hcaller : setup.caller = caller at hdisposed
  rw [hawait] at hdisposed
  cases hdisposed with
  | opening tls => exact ⟨tls, rfl, rfl, by rw [hcloses, List.append_nil]⟩

/-- What is left to do is done. -/
theorem Tidy.ended (h : Tidy setup world₀ s) {await : Await Conn Key T} (hends : Ends s.await await) :
    Tidy setup world₀ { s with await := await } := by
  obtain ⟨closes, hcloses, hdisposed⟩ := h
  refine ⟨closes, hcloses, ?_⟩
  show Disposed setup.caller s.opened await closes
  generalize s.opened = opened at hdisposed ⊢
  generalize setup.caller = caller at hdisposed ⊢
  generalize s.await = before at hends hdisposed
  cases hends with
  | unopened exc => cases hdisposed with
    | opening tls => exact .unopened tls exc
  | handled channel => cases hdisposed with
    | handling remoteAddress => exact .finished remoteAddress
  | closed exc exc' => cases hdisposed with
    | closing tls => exact .closed tls exc'
    | rejecting remoteAddress => exact .broken remoteAddress exc'
  | finished => cases hdisposed with
    | rejecting remoteAddress => exact .rejected remoteAddress

/-- It is tidy once its WebSocket is open. -/
theorem tidy_connected (h : Tidy setup world₀ s) (hawait : s.await = .opening) :
    Tidy setup world₀ (connected lib env setup s) := by
  obtain ⟨tls, hcaller, -, hcloses⟩ := h.opening hawait
  have hopen : Open world₀ { s with opened := true } := ⟨rfl, hcloses⟩
  unfold connected
  simp only [hcaller]
  cases checkCertPin env tls with
  | error exc => exact tidy_fail hopen _
  | ok u => exact tidy_handshake hopen

/-- It is tidy after a message. -/
theorem tidy_receive (h : Tidy setup world₀ s) {driver : Driver Conn}
    (hawait : s.await = .receiving driver) (message : WsMessage) :
    Tidy setup world₀ (receive lib env setup s driver message) := by
  have hopen : Open world₀ s := h.isOpen (by rw [InTry, hawait]; trivial)
  have hopen' : Open world₀ { s with received := s.received ++ [message] } :=
    ⟨hopen.opened, hopen.closes⟩
  unfold receive
  cases driver.iterate lib (some message) with
  | read driver' => exact tidy_advance hopen' driver'
  | raised exc => exact tidy_fail hopen' _
  | _ => exact h

/-- One step keeps the coroutine tidy. -/
theorem tidy_step (h : Tidy setup world₀ s) (event : Resumption) :
    Tidy setup world₀ (step lib env setup s event) := by
  have hmoves := step_moves lib env setup s event
  generalize step lib env setup s event = s' at hmoves
  cases hmoves with
  | same => exact h
  | others store => exact h
  | connected hawait => exact tidy_connected h hawait
  | advanced driver hawait => exact tidy_advance (h.isOpen (by rw [InTry, hawait]; trivial)) driver
  | received driver message hawait => exact tidy_receive h hawait message
  | failed exc hawait => exact tidy_fail (h.isOpen hawait) exc
  | ended await hends => exact h.ended hends

/-! ## What is sent, and who gets through -/

/-- What the message with this index is made of: the certificate goes into the
initiator's second message and into the responder's first. -/
def payloadAt (setup : Setup T) (index : Nat) : Bytes :=
  if (if setup.initiator = true then index = 1 else index = 0) then setup.localCertBytes else []

/-- A frame with this index, which the coroutine may send. -/
def SentAt (lib : NoiseLibrary Conn Key) (setup : Setup T) (index : Nat) (frame : Bytes) : Prop :=
  ∃ (f : Frame) (conn conn' : Conn), frame = f.wire ∧ f.msgType = .handshake ∧ f.seq = index ∧
    (lib.writeMessage (payloadAt setup index)).run conn = (.ok f.payload, conn')

/-- What is checked before anything is sent. -/
def Cleared (env : Env) (setup : Setup T) : Prop :=
  match setup.caller with
  | .connect tls => checkConnect setup.config tls = .ok () ∧ checkCertPin env tls = .ok ()
  | .serve _ => True

/-- The handshake that the coroutine drives. -/
def Begins (lib : NoiseLibrary Conn Key) (setup : Setup T) (hs : NoiseXXHandshake Conn) : Prop :=
  NoiseXXHandshake.new lib setup.initiator setup.staticPrivate buildPrologue setup.entropy = .ok hs

/-- The driver of the coroutine, as far as it has come. -/
structure Driven (lib : NoiseLibrary Conn Key) (setup : Setup T) (s : Coroutine Conn Key T)
    (driver : Driver Conn) : Prop where
  follows : ∃ hs, Begins lib setup hs ∧
    (Driver.init hs setup.localCertBytes).Follows lib s.received driver
  initiator : driver.hs.initiator = setup.initiator
  localCertBytes : driver.localCertBytes = setup.localCertBytes
  writeIndex : driver.writeIndex = s.wire.length

/-- The frames are numbered, and none was sent before the checks. -/
structure Framed (lib : NoiseLibrary Conn Key) (env : Env) (setup : Setup T)
    (s : Coroutine Conn Key T) : Prop where
  frames : ∀ index frame, s.wire[index]? = some frame → SentAt lib setup index frame
  cleared : s.wire ≠ [] → Cleared env setup

/-- Moreover the driver is where the messages have led it. -/
structure Sends (lib : NoiseLibrary Conn Key) (env : Env) (setup : Setup T)
    (s : Coroutine Conn Key T) : Prop extends Framed lib env setup s where
  driving : ∀ driver, s.await = .sending driver ∨ s.await = .receiving driver →
    Driven lib setup s driver ∧ Cleared env setup
  opening : s.await = .opening → s.wire = [] ∧ s.received = [] ∧
    ∀ tls, setup.caller = .connect tls → checkConnect setup.config tls = .ok ()

/-- It is before or in the handshake. -/
def Underway (s : Coroutine Conn Key T) : Prop :=
  match s.await with
  | .opening => True
  | .sending _ => True
  | .receiving _ => True
  | _ => False

/-- A peer that the gate has let through, in the step from `s` to `s'`: it is
what the driver returned on the messages received, and the configuration admits
it. -/
def Grants (lib : NoiseLibrary Conn Key) (env : Env) (setup : Setup T) (s s' : Coroutine Conn Key T)
    (channel : SecureChannel Key T) : Prop :=
  ∃ (hs : NoiseXXHandshake Conn) (peer : Peer Key), Begins lib setup hs ∧
    (∃ n, (Driver.init hs setup.localCertBytes).drive lib n s'.received =
      .returned peer.result peer.certBytes) ∧
    Admits env setup.config setup.clock s.world.knownPeers peer ∧
    channel = peer.channel setup.replayWindow setup.rekeyPolicy

/-- Who gets through in a step: nobody, or one peer that the gate has let
through. -/
structure Admission (lib : NoiseLibrary Conn Key) (env : Env) (setup : Setup T)
    (s s' : Coroutine Conn Key T) : Prop where
  returned : ∀ channel, s'.await = .returned (some channel) → Grants lib env setup s s' channel
  handled : s'.world.handled = s.world.handled ∨
    ∃ channel, s'.world.handled = s.world.handled ++ [channel] ∧ ¬s'.Underway ∧
      Grants lib env setup s s' channel

/-- The `except` clauses touch neither the store nor the frames, and let nobody
through. -/
theorem fail_spec (setup : Setup T) (s : Coroutine Conn Key T) (exc : Raised) :
    (fail setup s exc).wire = s.wire ∧ (fail setup s exc).received = s.received ∧
      (fail setup s exc).world.handled = s.world.handled ∧ ¬(fail setup s exc).Underway ∧
      ∀ channel, (fail setup s exc).await ≠ .returned (some channel) := by
  unfold fail
  cases setup.caller with
  | connect tls => exact ⟨rfl, rfl, rfl, id, fun channel => nofun⟩
  | serve remoteAddress => cases exc with
    | cancelled => exact ⟨rfl, rfl, rfl, id, fun channel => nofun⟩
    | exception exc =>
        obtain ⟨result, closes, log, hreject⟩ := run_rejectClient remoteAddress exc s.world
        simp only [hreject]
        cases result with
        | error exc => exact ⟨rfl, rfl, rfl, id, fun channel => nofun⟩
        | ok u =>
            refine ⟨rfl, rfl, rfl, ?_, fun channel => ?_⟩
            · by_cases hclosed : exc = .connectionClosed <;> simp [Underway, hclosed]
            · by_cases hclosed : exc = .connectionClosed <;> simp [hclosed]

/-- A coroutine that is past the handshake has sent what it has sent. -/
theorem Framed.past {s' : Coroutine Conn Key T} (h : Framed lib env setup s) (hwire : s'.wire = s.wire)
    (hpast : ¬s'.Underway) : Sends lib env setup s' := by
  refine ⟨⟨?_, ?_⟩, fun driver hdriver => ?_, fun hopening => ?_⟩
  · rw [hwire]
    exact h.frames
  · rw [hwire]
    exact h.cleared
  · obtain hsending | hreceiving := hdriver
    · simp [Underway, hsending] at hpast
    · simp [Underway, hreceiving] at hpast
  · simp [Underway, hopening] at hpast

/-- The `except` clauses send nothing and admit nobody. -/
theorem sends_fail (h : Framed lib env setup s) (exc : Raised) :
    Sends lib env setup (fail setup s exc) ∧ Admission lib env setup s (fail setup s exc) := by
  obtain ⟨hwire, -, hhandled, hpast, hreturned⟩ := fail_spec setup s exc
  exact ⟨h.past hwire hpast, fun channel hawait => absurd hawait (hreturned channel), .inl hhandled⟩

/-- The checks, and who they let through. -/
theorem sends_settle (h : Framed lib env setup s) {hs : NoiseXXHandshake Conn} {peer : Peer Key}
    {n : Nat} (hbegins : Begins lib setup hs)
    (hdrive : (Driver.init hs setup.localCertBytes).drive lib n s.received =
      .returned peer.result peer.certBytes) :
    Sends lib env setup (settle env setup s peer) ∧
      Admission lib env setup s (settle env setup s peer) := by
  have hok : ((authenticate env setup.config setup.clock peer).run s.world).1 = .ok () ↔
      Admits env setup.config setup.clock s.world.knownPeers peer := authenticate_eq_ok_iff
  have hhandled := authenticate_keeps_handled env setup.config setup.clock peer s.world
  unfold settle
  cases hrun : (authenticate env setup.config setup.clock peer).run s.world with
  | mk result world =>
      rw [hrun] at hok hhandled
      cases result with
      | error exc =>
          obtain ⟨hwire, -, hworld, hpast, hreturned⟩ :=
            fail_spec setup { s with world := world } (.exception exc)
          exact ⟨h.past hwire hpast, fun channel hawait => absurd hawait (hreturned channel),
            .inl (hworld.trans hhandled)⟩
      | ok u =>
          have hgrants : ∀ s' : Coroutine Conn Key T, s'.received = s.received →
              Grants lib env setup s s' (peer.channel setup.replayWindow setup.rekeyPolicy) := by
            intro s' hreceived
            exact ⟨hs, peer, hbegins, ⟨n, by rw [hreceived, hdrive]⟩, hok.mp rfl, rfl⟩
          cases setup.caller with
          | connect tls =>
              refine ⟨h.past rfl id, fun channel hawait => ?_, .inl hhandled⟩
              obtain rfl := Option.some.inj (Await.returned.inj hawait)
              exact hgrants _ rfl
          | serve remoteAddress =>
              refine ⟨h.past rfl id, fun channel hawait => ?_, .inr ⟨_, ?_, id, hgrants _ rfl⟩⟩
              · cases hawait
              · exact congrArg (· ++ [_]) hhandled

theorem Admission.refl (h : ∀ channel, s.await ≠ .returned (some channel)) :
    Admission lib env setup s s :=
  ⟨fun channel hawait => absurd hawait (h channel), .inl rfl⟩

/-- The driver waits for a message. -/
theorem sends_receiving (h : Framed lib env setup s) {driver : Driver Conn}
    (hdriven : Driven lib setup s driver) (hcleared : Cleared env setup) :
    Sends lib env setup { s with await := .receiving driver } ∧
      Admission lib env setup s { s with await := .receiving driver } := by
  refine ⟨⟨⟨h.frames, h.cleared⟩, fun driver' hdriver' => ?_, nofun⟩, fun channel hreturned => ?_,
    .inl rfl⟩
  · obtain hsending | hreceiving := hdriver'
    · cases hsending
    · obtain rfl := Await.receiving.inj hreceiving
      exact ⟨⟨hdriven.follows, hdriven.initiator, hdriven.localCertBytes, hdriven.writeIndex⟩,
        hcleared⟩
  · cases hreturned

/-- The driver sends the next frame. -/
theorem sends_sending (h : Framed lib env setup s) {driver driver' : Driver Conn} {frame : Bytes}
    (hdriven : Driven lib setup s driver) (hcleared : Cleared env setup)
    (hiterate : driver.iterate lib none = .wrote frame driver') :
    Sends lib env setup { s with await := .sending driver', wire := s.wire ++ [frame] } ∧
      Admission lib env setup s { s with await := .sending driver', wire := s.wire ++ [frame] } := by
  obtain ⟨hs, hbegins, hfollows⟩ := hdriven.follows
  have hpayload : driver.payload = payloadAt setup s.wire.length := by
    rw [Driver.payload, hdriven.initiator, hdriven.localCertBytes, hdriven.writeIndex]
    rfl
  obtain ⟨-, f, conn, hwrite, rfl, htype, hseq, rfl⟩ := Driver.wrote_of_iterate hiterate
  rw [hpayload] at hwrite
  refine ⟨⟨⟨fun index frame hframe => ?_, fun _ => hcleared⟩, fun driver' hdriver' => ?_, nofun⟩,
    fun channel hreturned => ?_, .inl rfl⟩
  · by_cases hlt : index < s.wire.length
    · rw [List.getElem?_append_left hlt] at hframe
      exact h.frames index frame hframe
    · rw [List.getElem?_append_right (Nat.le_of_not_lt hlt), List.getElem?_singleton] at hframe
      split_ifs at hframe with hlast
      obtain rfl : index = s.wire.length := by omega
      exact ⟨f, _, conn, (Option.some.inj hframe).symm, htype, hseq.trans hdriven.writeIndex, hwrite⟩
  · obtain hsending | hreceiving := hdriver'
    · obtain rfl := Await.sending.inj hsending
      refine ⟨⟨⟨hs, hbegins, hfollows.wrote hiterate⟩, hdriven.initiator, hdriven.localCertBytes, ?_⟩,
        hcleared⟩
      simp [hdriven.writeIndex]
    · cases hreceiving
  · cases hreturned

/-- The driver runs on. -/
theorem sends_advance (h : Framed lib env setup s) {driver : Driver Conn}
    (hdriven : Driven lib setup s driver) (hcleared : Cleared env setup) :
    Sends lib env setup (advance lib env setup s driver) ∧
      Admission lib env setup s (advance lib env setup s driver) := by
  obtain ⟨hs, hbegins, hfollows⟩ := hdriven.follows
  unfold advance
  cases hiterate : driver.iterate lib none with
  | returned result peerCert =>
      obtain ⟨n, hdrive⟩ := hfollows.returned hiterate
      simp only [Peer.of?]
      by_cases hlen : result.remoteStatic.length = X25519_KEY_LEN
      · simp only [dif_pos hlen]
        exact sends_settle h hbegins hdrive
      · simp only [dif_neg hlen]
        exact sends_receiving h hdriven hcleared
  | raised exc => exact sends_fail h _
  | waiting => exact sends_receiving h hdriven hcleared
  | wrote frame driver' => exact sends_sending h hdriven hcleared hiterate
  | read driver' =>
      obtain ⟨-, _, _, _, _, hfirst, -⟩ := Driver.read_of_iterate hiterate
      cases hfirst

/-- The first frame of the handshake, if it is this end that begins. -/
theorem sends_handshake (h : Framed lib env setup s) (hcleared : Cleared env setup)
    (hwire : s.wire = []) (hreceived : s.received = []) :
    Sends lib env setup (handshake lib env setup s) ∧
      Admission lib env setup s (handshake lib env setup s) := by
  unfold handshake
  cases hnew : NoiseXXHandshake.new lib setup.initiator setup.staticPrivate buildPrologue
      setup.entropy with
  | error exc => exact sends_fail h _
  | ok hs =>
      refine sends_advance h ⟨⟨hs, hnew, ?_⟩, ?_, rfl, ?_⟩ hcleared
      · rw [hreceived]
        exact .refl _
      · rw [NoiseXXHandshake.eq_of_new hnew]
        rfl
      · rw [hwire]
        rfl

/-- Before anything is sent. -/
theorem framed_nil (world : World Key T) (await : Await Conn Key T) (opened : Bool) :
    Framed lib env setup ⟨world, await, [], [], opened⟩ :=
  ⟨fun index frame hframe => by simp at hframe, fun hwire => absurd rfl hwire⟩

/-- When the coroutine starts. -/
theorem sends_start (world : World Key T) : Sends lib env setup (start lib env setup world) ∧
    Admission lib env setup ⟨world, .opening, [], [], true⟩ (start lib env setup world) := by
  unfold start
  cases hcaller : setup.caller with
  | connect tls =>
      cases hargs : checkConnect setup.config tls with
      | error exc =>
          simp only [hargs]
          refine ⟨(framed_nil world (.raised (.exception exc)) false).past rfl id,
            fun channel hawait => ?_, .inl rfl⟩
          cases hawait
      | ok u =>
          simp only [hargs]
          refine ⟨⟨framed_nil world .opening false, fun driver hdriver => ?_, fun _ =>
            ⟨rfl, rfl, fun tls' htls' => ?_⟩⟩, fun channel hawait => ?_, .inl rfl⟩
          · simp at hdriver
          · obtain rfl := Caller.connect.inj (hcaller.symm.trans htls')
            exact hargs
          · cases hawait
  | serve remoteAddress =>
      refine sends_handshake (framed_nil world .opening true) ?_ rfl rfl
      simp only [Cleared, hcaller]

/-- When the WebSocket is open. -/
theorem sends_connected (h : Sends lib env setup s) (hawait : s.await = .opening) :
    Sends lib env setup (connected lib env setup s) ∧
      Admission lib env setup s (connected lib env setup s) := by
  obtain ⟨hwire, hreceived, hargs⟩ := h.opening hawait
  have hopened : Framed lib env setup { s with opened := true } := ⟨h.frames, h.cleared⟩
  unfold connected
  cases hcaller : setup.caller with
  | serve remoteAddress => exact ⟨h, .refl fun channel => by simp [hawait]⟩
  | connect tls =>
      simp only
      cases hpin : checkCertPin env tls with
      | error exc =>
          obtain ⟨hsends, hadmission⟩ := sends_fail hopened (.exception exc)
          exact ⟨hsends, hadmission.returned, hadmission.handled⟩
      | ok u =>
          have hcleared : Cleared env setup := by
            simp only [Cleared, hcaller]
            exact ⟨hargs tls hcaller, hpin⟩
          obtain ⟨hsends, hadmission⟩ := sends_handshake hopened hcleared hwire hreceived
          exact ⟨hsends, hadmission.returned, hadmission.handled⟩

/-- When a message has arrived. -/
theorem sends_receive (h : Sends lib env setup s) {driver : Driver Conn}
    (hawait : s.await = .receiving driver) (message : WsMessage) :
    Sends lib env setup (receive lib env setup s driver message) ∧
      Admission lib env setup s (receive lib env setup s driver message) := by
  obtain ⟨hdriven, hcleared⟩ := h.driving driver (.inr hawait)
  obtain ⟨hs, hbegins, hfollows⟩ := hdriven.follows
  have hmore : Framed lib env setup { s with received := s.received ++ [message] } :=
    ⟨h.frames, h.cleared⟩
  unfold receive
  cases hiterate : driver.iterate lib (some message) with
  | read driver' =>
      have hdriven' : Driven lib setup { s with received := s.received ++ [message] } driver' := by
        obtain ⟨-, _, _, _, _, -, -, -, rfl⟩ := Driver.read_of_iterate hiterate
        exact ⟨⟨hs, hbegins, hfollows.read hiterate⟩, hdriven.initiator, hdriven.localCertBytes,
          hdriven.writeIndex⟩
      obtain ⟨hsends, hadmission⟩ := sends_advance hmore hdriven' hcleared
      exact ⟨hsends, hadmission.returned, hadmission.handled⟩
  | raised exc =>
      obtain ⟨hsends, hadmission⟩ := sends_fail hmore (.exception exc)
      exact ⟨hsends, hadmission.returned, hadmission.handled⟩
  | _ => exact ⟨h, .refl fun channel => by simp [hawait]⟩

/-- What a step does: somebody may get through, or who has got through stays. -/
theorem sends_step (h : Sends lib env setup s) (event : Resumption) :
    Sends lib env setup (step lib env setup s event) ∧
      (Admission lib env setup s (step lib env setup s event) ∨
        (step lib env setup s event).await = s.await ∧
          (step lib env setup s event).world.handled = s.world.handled) := by
  have hmoves := step_moves lib env setup s event
  generalize step lib env setup s event = s' at hmoves
  cases hmoves with
  | same => exact ⟨h, .inr ⟨rfl, rfl⟩⟩
  | others store =>
      refine ⟨⟨⟨h.frames, h.cleared⟩, fun driver hdriver => ?_, h.opening⟩, .inr ⟨rfl, rfl⟩⟩
      obtain ⟨hdriven, hcleared⟩ := h.driving driver hdriver
      exact ⟨⟨hdriven.follows, hdriven.initiator, hdriven.localCertBytes, hdriven.writeIndex⟩, hcleared⟩
  | connected hawait =>
      obtain ⟨hsends, hadmission⟩ := sends_connected h hawait
      exact ⟨hsends, .inl hadmission⟩
  | advanced driver hawait =>
      obtain ⟨hdriven, hcleared⟩ := h.driving driver (.inl hawait)
      obtain ⟨hsends, hadmission⟩ := sends_advance h.toFramed hdriven hcleared
      exact ⟨hsends, .inl hadmission⟩
  | received driver message hawait =>
      obtain ⟨hsends, hadmission⟩ := sends_receive h hawait message
      exact ⟨hsends, .inl hadmission⟩
  | failed exc hawait =>
      obtain ⟨hsends, hadmission⟩ := sends_fail h.toFramed exc
      exact ⟨hsends, .inl hadmission⟩
  | ended await hends =>
      have hpast : ¬Underway { s with await := await } ∧
          ∀ channel, await ≠ .returned (some channel) := by
        generalize s.await = before at hends
        cases hends <;> exact ⟨id, fun channel => nofun⟩
      exact ⟨h.toFramed.past rfl hpast.1,
        .inl ⟨fun channel hawait => absurd hawait (hpast.2 channel), .inl rfl⟩⟩

/-! ## Whole runs -/

theorem run_append (world : World Key T) (events more : List Resumption) :
    run lib env setup world (events ++ more) =
      more.foldl (step lib env setup) (run lib env setup world events) :=
  List.foldl_append

/-- A whole run is tidy. -/
theorem tidy_run (world : World Key T) (events : List Resumption) :
    Tidy setup world (run lib env setup world events) := by
  induction events using List.reverseRecOn with
  | nil => exact tidy_start world
  | append_singleton events event ih =>
      rw [run_append]
      exact tidy_step ih event

/-- A whole run keeps what is known of the frames sent. -/
theorem sends_run (world : World Key T) (events : List Resumption) :
    Sends lib env setup (run lib env setup world events) := by
  induction events using List.reverseRecOn with
  | nil => exact (sends_start world).1
  | append_singleton events event ih =>
      rw [run_append]
      exact (sends_step ih event).1

section

variable (lib env setup)

/-- Past the handshake nothing is sent, and nobody gets through. -/
theorem quiet_step (h : ¬s.Underway) (event : Resumption) :
    ¬(step lib env setup s event).Underway ∧ (step lib env setup s event).wire = s.wire ∧
      (step lib env setup s event).world.handled = s.world.handled := by
  have hmoves := step_moves lib env setup s event
  generalize step lib env setup s event = s' at hmoves
  cases hmoves with
  | same => exact ⟨h, rfl, rfl⟩
  | others store => exact ⟨h, rfl, rfl⟩
  | connected hawait => exact absurd (by rw [Underway, hawait]; trivial) h
  | advanced driver hawait => exact absurd (by rw [Underway, hawait]; trivial) h
  | received driver message hawait => exact absurd (by rw [Underway, hawait]; trivial) h
  | failed exc hawait =>
      obtain ⟨hwire, -, hhandled, hpast, -⟩ := fail_spec setup s exc
      exact ⟨hpast, hwire, hhandled⟩
  | ended await hends =>
      refine ⟨?_, rfl, rfl⟩
      generalize s.await = before at hends
      cases hends <;> exact id

/-- After its handshake, a coroutine never sends again and never takes it up again. -/
theorem quiet_run (h : ¬s.Underway) (events : List Resumption) :
    ¬(events.foldl (step lib env setup) s).Underway ∧
      (events.foldl (step lib env setup) s).wire = s.wire := by
  induction events generalizing s with
  | nil => exact ⟨h, rfl⟩
  | cons event events ih =>
      obtain ⟨hpast, hwire, -⟩ := quiet_step lib env setup h event
      obtain ⟨hpast', hwire'⟩ := ih hpast
      exact ⟨hpast', hwire'.trans hwire⟩

/-- A driver that has read nothing cannot return. -/
theorem start_admits_nobody (world : World Key T) :
    (∀ channel, (start lib env setup world).await ≠ .returned (some channel)) ∧
      (start lib env setup world).world.handled = world.handled := by
  unfold start
  cases hcaller : setup.caller with
  | connect tls =>
      simp only
      cases checkConnect setup.config tls with
      | error exc => exact ⟨fun channel => nofun, rfl⟩
      | ok u => exact ⟨fun channel => nofun, rfl⟩
  | serve remoteAddress =>
      simp only
      unfold handshake
      cases hnew : NoiseXXHandshake.new lib setup.initiator setup.staticPrivate buildPrologue
          setup.entropy with
      | error exc =>
          obtain ⟨-, -, hhandled, -, hreturned⟩ :=
            fail_spec setup ⟨world, .opening, [], [], true⟩ (.exception exc)
          exact ⟨hreturned, hhandled⟩
      | ok hs =>
          simp only [advance]
          cases hiterate : (Driver.init hs setup.localCertBytes).iterate lib none with
          | returned result peerCert =>
              obtain ⟨-, -, key, hkey, -⟩ := Driver.returned_of_iterate hiterate
              rw [NoiseXXHandshake.eq_of_new hnew] at hkey
              cases hkey
          | raised exc =>
              obtain ⟨-, -, hhandled, -, hreturned⟩ :=
                fail_spec setup ⟨world, .opening, [], [], true⟩ (.exception exc)
              exact ⟨hreturned, hhandled⟩
          | _ => exact ⟨fun channel => nofun, rfl⟩

end

/-- **The life of a connection**, over a socket on which anything can go wrong
at any time.  `connect` closes the socket once, if it has opened it and does not
hand it on, and not otherwise.  The callback of `serve` closes the socket that it
is given once, with 1008, or leaves it as it is; what comes out of it then is no
`ConnectionClosed` and no `SecureWebSocketError`.  The frames of the handshake are
numbered 0, 1, …, with the certificate in one of them only; none is sent before
the arguments and the certificate of the server are checked, and none once the
handshake has ended, however it has. -/
theorem lifecycle (lib : NoiseLibrary Conn Key) (env : Env) (setup : Setup T) (world : World Key T)
    (events : List Resumption) :
    let s := run lib env setup world events
    (∃ closes, s.world.closes = world.closes ++ closes ∧
      Disposed setup.caller s.opened s.await closes) ∧
    (∀ index frame, s.wire[index]? = some frame → SentAt lib setup index frame) ∧
    (s.wire ≠ [] → Cleared env setup) ∧
    (¬s.Underway → ∀ more, (run lib env setup world (events ++ more)).wire = s.wire) := by
  refine ⟨tidy_run world events, (sends_run world events).frames, (sends_run world events).cleared,
    fun hpast more => ?_⟩
  rw [run_append]
  exact (quiet_run lib env setup hpast more).2

/-- Some step of the run has let a peer through. -/
def GrantedIn (lib : NoiseLibrary Conn Key) (env : Env) (setup : Setup T) (world : World Key T)
    (events : List Resumption) (channel : SecureChannel Key T) : Prop :=
  ∃ before event after, events = before ++ event :: after ∧
    Grants lib env setup (run lib env setup world before)
      (run lib env setup world (before ++ [event])) channel

/-- One event more. -/
theorem GrantedIn.more {world : World Key T} {events : List Resumption}
    {channel : SecureChannel Key T} (h : GrantedIn lib env setup world events channel)
    (event : Resumption) : GrantedIn lib env setup world (events ++ [event]) channel := by
  obtain ⟨before, event', after, hsplit, hgrants⟩ := h
  exact ⟨before, event', after ++ [event], by rw [hsplit]; simp, hgrants⟩

/-- Whom the run has let through: nobody past the gate, and nobody as long as the
handshake goes on. -/
structure Gated (lib : NoiseLibrary Conn Key) (env : Env) (setup : Setup T) (world : World Key T)
    (events : List Resumption) (accepted : List (SecureChannel Key T)) : Prop where
  returned : ∀ channel, (run lib env setup world events).await = .returned (some channel) →
    GrantedIn lib env setup world events channel
  handled : (run lib env setup world events).world.handled = world.handled ++ accepted
  once : accepted.length ≤ 1
  none : (run lib env setup world events).Underway → accepted = []
  granted : ∀ channel ∈ accepted, GrantedIn lib env setup world events channel

/-- At the start nobody has been let through. -/
theorem gated_start (lib : NoiseLibrary Conn Key) (env : Env) (setup : Setup T)
    (world : World Key T) : Gated lib env setup world [] [] := by
  obtain ⟨hreturned, hhandled⟩ := start_admits_nobody lib env setup world
  refine ⟨fun channel hawait => absurd hawait (hreturned channel), ?_, Nat.zero_le 1, fun _ => rfl,
    fun channel hmem => absurd hmem List.not_mem_nil⟩
  rw [List.append_nil]
  exact hhandled

/-- A step lets somebody through at most if nobody has got through so far. -/
theorem Gated.step {world : World Key T} {events : List Resumption}
    {accepted : List (SecureChannel Key T)} (h : Gated lib env setup world events accepted)
    (event : Resumption) : ∃ accepted', Gated lib env setup world (events ++ [event]) accepted' := by
  have hstep : run lib env setup world (events ++ [event]) =
      Coroutine.step lib env setup (run lib env setup world events) event :=
    run_append world events [event]
  have hnow : ∀ channel, Grants lib env setup (run lib env setup world events)
      (run lib env setup world (events ++ [event])) channel →
      GrantedIn lib env setup world (events ++ [event]) channel :=
    fun channel hgrants => ⟨events, event, [], rfl, hgrants⟩
  have hbefore : ∀ channel ∈ accepted, GrantedIn lib env setup world (events ++ [event]) channel :=
    fun channel hmem => (h.granted channel hmem).more event
  obtain ⟨-, hadmission | ⟨hawait, hworld⟩⟩ := sends_step (sends_run world events) event
  · rw [← hstep] at hadmission
    have hreturned := fun channel hawait => hnow channel (hadmission.returned channel hawait)
    by_cases hunderway : (run lib env setup world events).Underway
    · -- nobody has got through so far
      have hhandled := h.handled
      rw [h.none hunderway, List.append_nil] at hhandled
      obtain hsame | ⟨channel, hmore, hpast, hgrants⟩ := hadmission.handled
      · refine ⟨[], hreturned, ?_, Nat.zero_le 1, fun _ => rfl,
          fun channel hmem => absurd hmem List.not_mem_nil⟩
        rw [hsame, hhandled, List.append_nil]
      · refine ⟨[channel], hreturned, by rw [hmore, hhandled], le_rfl,
          fun hagain => absurd hagain hpast, fun channel' hmem => ?_⟩
        rw [List.mem_singleton.mp hmem]
        exact hnow channel hgrants
    · obtain ⟨hpast, -, hsame⟩ := quiet_step lib env setup hunderway event
      rw [← hstep] at hpast hsame
      exact ⟨accepted, hreturned, hsame.trans h.handled, h.once,
        fun hagain => absurd hagain hpast, hbefore⟩
  · rw [← hstep] at hawait hworld
    refine ⟨accepted, fun channel hreturns => (h.returned channel (hawait.symm.trans hreturns)).more event,
      hworld.trans h.handled, h.once, fun hunderway => h.none ?_, hbefore⟩
    unfold Underway at hunderway ⊢
    rwa [hawait] at hunderway

/-- A whole run lets nobody through but at the gate. -/
theorem gated_run (lib : NoiseLibrary Conn Key) (env : Env) (setup : Setup T) (world : World Key T)
    (events : List Resumption) : ∃ accepted, Gated lib env setup world events accepted := by
  induction events using List.reverseRecOn with
  | nil => exact ⟨[], gated_start lib env setup world⟩
  | append_singleton events event ih =>
      obtain ⟨accepted, h⟩ := ih
      exact h.step event

/-- **Nobody gets in past the gate.**  A channel that `connect` returns, or that
the handler is called with, is that of a peer which the driver returned on the
messages received, and which the configuration admitted at that moment, with the
pins as they were; and the handler is called once at most. -/
theorem accepted_through_gate (lib : NoiseLibrary Conn Key) (env : Env) (setup : Setup T)
    (world : World Key T) (events : List Resumption) :
    let s := run lib env setup world events
    (∀ channel, s.await = .returned (some channel) → GrantedIn lib env setup world events channel) ∧
    ∃ accepted, s.world.handled = world.handled ++ accepted ∧ accepted.length ≤ 1 ∧
      (s.Underway → accepted = []) ∧
      ∀ channel ∈ accepted, GrantedIn lib env setup world events channel := by
  obtain ⟨accepted, h⟩ := gated_run lib env setup world events
  exact ⟨h.returned, accepted, h.handled, h.once, h.none, h.granted⟩

/-! ## One attempt, in one piece -/

end Coroutine

/-- The attempt that a coroutine makes, once its handshake has ended. -/
def Setup.attempt (setup : Setup T) (handshake : Except PyError (Peer Key)) : Attempt Key T where
  path := match setup.caller with
    | .connect tls => .connect tls
    | .serve remoteAddress => .serve remoteAddress fun _ => .ok ()
  config := setup.config
  clock := setup.clock
  handshake := handshake
  replayWindow := setup.replayWindow
  rekeyPolicy := setup.rekeyPolicy

/-- An exception that ends an attempt as this does; a cancellation is one that
the callback lets through. -/
def Raised.error : Raised → PyError
  | .exception exc => exc
  | .cancelled => .valueError []

namespace Coroutine

variable {lib : NoiseLibrary Conn Key} {env : Env} {setup : Setup T} {s : Coroutine Conn Key T}

/-- The peer has got through. -/
def Accepted (s : Coroutine Conn Key T) : Prop :=
  match s.await with
  | .returned (some _) => True
  | .handling _ => True
  | _ => False

/-- The coroutine ends as the attempt does. -/
structure EndsAs (env : Env) (setup : Setup T) (world : World Key T) (s : Coroutine Conn Key T)
    (handshake : Except PyError (Peer Key)) : Prop where
  world_eq : s.world = ((setup.attempt handshake).run env world).2
  accepted_iff : s.Accepted ↔ ((setup.attempt handshake).run env world).1 = true

/-- From `world` the coroutine has ended as an attempt does whose handshake has
this outcome; a peer is what the driver returned on the messages received. -/
def Settled (lib : NoiseLibrary Conn Key) (env : Env) (setup : Setup T) (world : World Key T)
    (s : Coroutine Conn Key T) : Prop :=
  ∃ handshake : Except PyError (Peer Key), EndsAs env setup world s handshake ∧
    ∀ peer, handshake = .ok peer → ∃ hs n, Begins lib setup hs ∧
      (Driver.init hs setup.localCertBytes).drive lib n s.received =
        .returned peer.result peer.certBytes

/-- One step of the run, or the call itself, was the attempt: a coroutine that
had not left its handshake has ended as the attempt does, from the world as it
was just before. -/
def SettledIn (lib : NoiseLibrary Conn Key) (env : Env) (setup : Setup T) (world : World Key T)
    (events : List Resumption) : Prop :=
  Settled lib env setup world (start lib env setup world) ∨
    ∃ before event after, events = before ++ event :: after ∧
      (run lib env setup world before).Underway ∧
      Settled lib env setup (run lib env setup world before).world
        (run lib env setup world (before ++ [event]))

/-- One event more. -/
theorem SettledIn.more {world : World Key T} {events : List Resumption}
    (h : SettledIn lib env setup world events) (event : Resumption) :
    SettledIn lib env setup world (events ++ [event]) := by
  obtain hstart | ⟨before, event', after, hsplit, hunderway, hsettled⟩ := h
  · exact .inl hstart
  · exact .inr ⟨before, event', after ++ [event], by rw [hsplit]; simp, hunderway, hsettled⟩

end Coroutine

end SecureWs
