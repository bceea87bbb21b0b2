import SecureWs.ChannelBinding
import SecureWs.Conversation
import SecureWs.Lifecycle

/-!
# SecureWs.EndToEnd

Two users, from the call of `connect` and of `serve` to the last message, over a
network in the hands of an attacker.

* `Node` is an end: its coroutine, and the `SecureConnection` once the coroutine
  has handed a channel on;
* `Joined` says where that channel comes from, and `Sound` that the two
  connections of one handshake make a session, from the moment the first of them
  is there;
* `nobody_between`: two users whose safety numbers agree talk to each other, and
  what each gets is what the other has sent.
-/

namespace SecureWs

open Python

variable {Conn Key T : Type} [Zero T] [LE T]

/-! ## What a connection is bound to -/

namespace SecureChannel

/-- What the handshake has bound the channel to: its hash, and the static key of
the other end. -/
def binding (self : SecureChannel Key T) : Bytes × Bytes :=
  (self.handshakeHash, self.remoteStatic)

/-- `encrypt` leaves the handshake hash and the static key of the peer alone. -/
theorem encrypt_keeps_binding [Sub T] [DecidableLE T] (A : Aead Key) (arg : Arg) :
    Imp.Keeps (binding : SecureChannel Key T → _) (encrypt A arg) := by
  intro self
  have hbefore : (self.beforeTransport A).binding = self.binding := by
    unfold beforeTransport
    split <;> rfl
  have h := encrypt_outcome A arg self
  generalize (encrypt A arg).run self = r at h
  cases h with
  | transportFailed => exact hbefore
  | sent => exact hbefore
  | _ => rfl

/-- So does `close_frame`. -/
theorem closeFrame_keeps_binding (A : Aead Key) :
    Imp.Keeps (binding : SecureChannel Key T → _) (closeFrame A) := by
  intro self
  rw [run_closeFrame]
  split_ifs <;> rfl

/-- And so does `decrypt`. -/
theorem decrypt_keeps_binding (A : Aead Key) (wire : Bytes) :
    Imp.Keeps (binding : SecureChannel Key T → _) (decrypt A wire) := by
  intro self
  have h := decrypt_outcome A wire self
  generalize (decrypt A wire).run self = r at h
  cases h with
  | authenticated =>
      unfold receive
      split <;> rfl
  | _ => rfl

end SecureChannel

namespace SecureConnection

def safetyNumber (sha256 : Bytes → Bytes) (self : SecureConnection Key T) : Except PyError Str :=
  SecureWs.safetyNumber sha256 self.channel.handshakeHash

/-- What a program does with a connection, and what happens on its socket. -/
inductive Call where
  | send (arg : Arg)
  | close
  | arrive (message : WsMessage)
  | lost

section Call

variable [Sub T] [DecidableLE T]

/-- The connection after a call, where the end decrypts with `D`. -/
def call (A D : Aead Key) (self : SecureConnection Key T) : Call → SecureConnection Key T
  | .send arg => self.send A arg
  | .close => self.close A
  | .arrive message => self.arrive D message
  | .lost => self.lose

/-- The call as a step of the conversation. -/
def Call.event (side : Side) : Call → Conversation.Event
  | .send arg => .send side arg
  | .close => .close side
  | .arrive message => .arrive side message
  | .lost => .lost side

theorem step_event (A D : Aead Key) (s : Conversation Key T) (side : Side) (call : Call) :
    Conversation.step A D s (call.event side) =
      Function.update s side ((s side).call A D call) := by
  cases call <;> rfl

/-- No call on a connection changes what it is bound to. -/
theorem binding_call (A D : Aead Key) (conn : SecureConnection Key T) (call : Call) :
    (conn.call A D call).channel.binding = conn.channel.binding := by
  cases call with
  | send arg =>
      obtain ⟨hchannel, -⟩ := send_spec A arg conn
      exact (congrArg _ hchannel).trans (SecureChannel.encrypt_keeps_binding A arg conn.channel)
  | close =>
      obtain ⟨hchannel, -⟩ := close_spec A conn
      exact (congrArg _ hchannel).trans (SecureChannel.closeFrame_keeps_binding A conn.channel)
  | lost =>
      show conn.lose.channel.binding = _
      unfold lose
      split <;> rfl
  | arrive message =>
      have hanext : (anext D message conn).channel.binding = conn.channel.binding := by
        unfold anext
        cases message with
        | text s => rfl
        | binary wire =>
            have hkeeps := SecureChannel.decrypt_keeps_binding D wire conn.channel
            simp only [asBytes]
            generalize (SecureChannel.decrypt D wire).run conn.channel = r at hkeeps
            obtain ⟨⟨exc⟩ | ⟨_ | plaintext⟩, c⟩ := r
            · exact hkeeps
            · exact hkeeps
            · exact hkeeps
      show (conn.arrive D message).channel.binding = _
      unfold arrive
      split
      · exact hanext
      · rfl

end Call

/-- The socket is closed under the connection. -/
def cut (self : SecureConnection Key T) : SecureConnection Key T := { self with socketClosed := true }

/-- A connection whose socket is closed under its loop stays consistent. -/
theorem Consistent.cut {conn : SecureConnection Key T} (h : conn.Consistent) : conn.cut.Consistent :=
  ⟨h.raised, fun _ => .inr rfl, h.told⟩

end SecureConnection

/-! ## The two ends -/

/-- What a coroutine has handed on: the channel as it was then, and the connection
as it is now. -/
structure HandedOn (Key T : Type) [Zero T] [LE T] where
  channel : SecureChannel Key T
  conn : SecureConnection Key T

/-- One end: the coroutine of `connect` or of the callback, and what it has handed
on. -/
structure Node (Conn Key T : Type) [Zero T] [LE T] where
  coroutine : Coroutine Conn Key T
  handedOn : Option (HandedOn Key T)

/-- The socket of the coroutine stays open: `connect` has returned it, or the handler
is at work. -/
def Await.holds : Await Conn Key T → Bool
  | .returned (some _) => true
  | .handling _ => true
  | _ => false

/-- The channel that a step of the coroutine hands on: `connect` has returned it,
or the handler is called with it. -/
def Coroutine.handsOn (before after : Coroutine Conn Key T) : Option (SecureChannel Key T) :=
  match after.await with
  | .returned (some channel) => some channel
  | _ => after.world.handled[before.world.handled.length]?

namespace Node

section Step

variable (lib : NoiseLibrary Conn Key) (env : Env) (setup : Setup T)

def start (world : World Key T) : Node Conn Key T := ⟨.start lib env setup world, none⟩

def resume (event : Resumption) (self : Node Conn Key T) : Node Conn Key T :=
  let coroutine := self.coroutine.step lib env setup event
  match self.handedOn with
  | none => ⟨coroutine, (self.coroutine.handsOn coroutine).map fun channel =>
      ⟨channel, .init channel⟩⟩
  | some h =>
      -- the socket is closed under a handler that has raised, and behind one that has returned
      ⟨coroutine, some { h with conn := if coroutine.await.holds = true then h.conn else h.conn.cut }⟩

end Step

/-- The connection is used. -/
def call [Sub T] [DecidableLE T] (A D : Aead Key) (call : SecureConnection.Call)
    (self : Node Conn Key T) : Node Conn Key T :=
  { self with handedOn := self.handedOn.map fun h => { h with conn := h.conn.call A D call } }

def sealed (self : Node Conn Key T) : List (Sealing Key) :=
  match self.handedOn with
  | some h => h.conn.channel.sendCipher.sealed
  | none => []

/-- The connection of an end that has the channel, or will have it. -/
def conn (channel : SecureChannel Key T) (self : Node Conn Key T) : SecureConnection Key T :=
  match self.handedOn with
  | some h => h.conn
  | none => .init channel

end Node

abbrev EndToEnd (Conn Key T : Type) [Zero T] [LE T] := Side → Node Conn Key T

namespace EndToEnd

/-- What happens: a coroutine goes on, or a connection is used.  In both cases
anything may arrive on the socket. -/
inductive Event where
  | resume (side : Side) (event : Resumption)
  | call (side : Side) (call : SecureConnection.Call)

def log (s : EndToEnd Conn Key T) : List (Sealing Key) :=
  (s .initiator).sealed ++ (s .responder).sealed

section Step

variable (lib : NoiseLibrary Conn Key) (env : Side → Env) (setup : Side → Setup T)

def start (world : Side → World Key T) : EndToEnd Conn Key T :=
  fun side => .start lib (env side) (setup side) (world side)

variable [Sub T] [DecidableLE T] [DecidableEq Key] (A : Aead Key)

/-- One step.  The AEAD of the channels is ideal: decryption knows what the two
ends have encrypted. -/
def step (s : EndToEnd Conn Key T) : Event → EndToEnd Conn Key T
  | .resume side event =>
      Function.update s side ((s side).resume lib (env side) (setup side) event)
  | .call side call => Function.update s side ((s side).call A (A.ideal s.log) call)

/-- A run over a network that hands the ends any messages at all. -/
def run (s : EndToEnd Conn Key T) (events : List Event) : EndToEnd Conn Key T :=
  events.foldl (step lib env setup A) s

end Step

end EndToEnd

/-! ## Where a channel comes from -/

namespace Coroutine

variable {lib : NoiseLibrary Conn Key} {env : Env} {setup : Setup T} {s : Coroutine Conn Key T}

/-- `connect` hands its channel on when it returns it. -/
theorem handsOn_of_returned {before : Coroutine Conn Key T} {channel : SecureChannel Key T}
    (h : s.await = .returned (some channel)) : before.handsOn s = some channel := by
  simp only [handsOn, h]

/-- A coroutine past its handshake receives nothing. -/
theorem received_step (h : ¬s.Underway) (event : Resumption) :
    (step lib env setup s event).received = s.received := by
  have hmoves := step_moves lib env setup s event
  generalize step lib env setup s event = s' at hmoves
  cases hmoves with
  | same => rfl
  | others store => rfl
  | connected hawait => exact absurd (by rw [Underway, hawait]; trivial) h
  | advanced driver hawait => exact absurd (by rw [Underway, hawait]; trivial) h
  | received driver message hawait => exact absurd (by rw [Underway, hawait]; trivial) h
  | failed exc hawait => exact (fail_spec setup s exc).2.1
  | ended await hends => rfl

/-- The handshake messages that an end has written and read. -/
def exchanged (lib : NoiseLibrary Conn Key) (setup : Setup T) (s : Coroutine Conn Key T) :
    List Bytes :=
  match NoiseXXHandshake.new lib setup.initiator setup.staticPrivate buildPrologue setup.entropy with
  | .ok hs => (Driver.init hs setup.localCertBytes).exchanged lib 4 s.received
  | .error _ => []

/-- The channel is that of a peer which the driver has returned on the messages
received. -/
def CameFrom (lib : NoiseLibrary Conn Key) (setup : Setup T) (s : Coroutine Conn Key T)
    (channel : SecureChannel Key T) : Prop :=
  ∃ (hs : NoiseXXHandshake Conn) (peer : Peer Key), Begins lib setup hs ∧
    (∃ n, (Driver.init hs setup.localCertBytes).drive lib n s.received =
      .returned peer.result peer.certBytes) ∧
    channel = peer.channel setup.replayWindow setup.rekeyPolicy

/-- A peer that the gate lets through has come out of the handshake. -/
theorem Grants.cameFrom {s' : Coroutine Conn Key T} {channel : SecureChannel Key T}
    (h : Grants lib env setup s s' channel) : CameFrom lib setup s' channel := by
  obtain ⟨hs, peer, hbegins, hdrive, -, hchannel⟩ := h
  exact ⟨hs, peer, hbegins, hdrive, hchannel⟩

end Coroutine

namespace Node

variable {lib : NoiseLibrary Conn Key} {env : Env} {setup : Setup T} {node : Node Conn Key T}

/-- What every run keeps of an end. -/
structure Joined (lib : NoiseLibrary Conn Key) (env : Env) (setup : Setup T)
    (node : Node Conn Key T) : Prop where
  sends : Coroutine.Sends lib env setup node.coroutine
  waiting : node.handedOn = none → ∀ channel, node.coroutine.await ≠ .returned (some channel)
  came : ∀ h, node.handedOn = some h →
    ¬node.coroutine.Underway ∧ node.coroutine.CameFrom lib setup h.channel ∧
      h.conn.channel.binding = h.channel.binding

/-- Nothing has been handed on yet. -/
theorem joined_start (lib : NoiseLibrary Conn Key) (env : Env) (setup : Setup T)
    (world : World Key T) : (start lib env setup world).Joined lib env setup where
  sends := (Coroutine.sends_start world).1
  waiting _ := (Coroutine.start_admits_nobody lib env setup world).1
  came h hnone := by cases hnone

/-- Nobody is handed on but who has come through the gate. -/
theorem Joined.handsOn (h : node.Joined lib env setup) (hnone : node.handedOn = none)
    (event : Resumption) {channel : SecureChannel Key T}
    (hhands : node.coroutine.handsOn (node.coroutine.step lib env setup event) = some channel) :
    ¬(node.coroutine.step lib env setup event).Underway ∧
      (node.coroutine.step lib env setup event).CameFrom lib setup channel := by
  obtain ⟨-, hadmission | ⟨hawait, hhandled⟩⟩ := Coroutine.sends_step h.sends event
  · generalize node.coroutine.step lib env setup event = s' at hhands hadmission
    unfold Coroutine.handsOn at hhands
    split at hhands
    · rename_i channel' hreturned
      obtain rfl := Option.some.inj hhands
      exact ⟨by simp [Coroutine.Underway, hreturned], (hadmission.returned _ hreturned).cameFrom⟩
    · obtain hsame | ⟨channel', hmore, hpast, hgrants⟩ := hadmission.handled
      · simp [hsame] at hhands
      · obtain rfl : channel' = channel := by simpa [hmore] using hhands
        exact ⟨hpast, hgrants.cameFrom⟩
  · -- nothing has happened: it would have been handed on before
    unfold Coroutine.handsOn at hhands
    rw [hawait, hhandled] at hhands
    split at hhands
    · rename_i channel' hreturned
      exact absurd hreturned (h.waiting hnone _)
    · simp at hhands

/-- An end that has handed nothing on so far. -/
theorem resume_of_none (hnone : node.handedOn = none) (event : Resumption) :
    node.resume lib env setup event =
      ⟨node.coroutine.step lib env setup event,
        (node.coroutine.handsOn (node.coroutine.step lib env setup event)).map fun channel =>
          ⟨channel, .init channel⟩⟩ := by
  simp only [resume, hnone]

variable (lib env setup) in
/-- An end that has: its connection stays as it is, or loses its socket. -/
theorem resume_of_some {handed : HandedOn Key T} (hsome : node.handedOn = some handed)
    (event : Resumption) : ∃ conn, (conn = handed.conn ∨ conn = handed.conn.cut) ∧
      node.resume lib env setup event =
        ⟨node.coroutine.step lib env setup event, some ⟨handed.channel, conn⟩⟩ := by
  refine ⟨if (node.coroutine.step lib env setup event).await.holds = true then handed.conn
    else handed.conn.cut, ?_, by simp only [resume, hsome]⟩
  split_ifs
  · exact .inl rfl
  · exact .inr rfl

/-- A step of the coroutine keeps what is known of the channel it has handed on. -/
theorem Joined.resume (h : node.Joined lib env setup) (event : Resumption) :
    (node.resume lib env setup event).Joined lib env setup := by
  have hsends := (Coroutine.sends_step h.sends event).1
  cases hnow : node.handedOn with
  | none =>
      rw [resume_of_none hnow]
      refine ⟨hsends, fun hnone channel hreturned => ?_, fun handed hhanded => ?_⟩
      · rw [Option.map_eq_none_iff, Coroutine.handsOn_of_returned hreturned] at hnone
        cases hnone
      · obtain ⟨channel, hhands, rfl⟩ := Option.map_eq_some_iff.mp hhanded
        obtain ⟨hpast, hcame⟩ := h.handsOn hnow event hhands
        exact ⟨hpast, hcame, rfl⟩
  | some handed =>
      obtain ⟨conn, hconn, hresume⟩ := resume_of_some lib env setup hnow event
      rw [hresume]
      obtain ⟨hpast, hcame, hbinding⟩ := h.came handed hnow
      refine ⟨hsends, fun hnone => (by cases hnone), fun handed' hhanded => ?_⟩
      obtain rfl := Option.some.inj hhanded
      refine ⟨(Coroutine.quiet_step lib env setup hpast event).1, ?_, ?_⟩
      · unfold Coroutine.CameFrom at hcame ⊢
        rw [Coroutine.received_step hpast event]
        exact hcame
      · obtain rfl | rfl := hconn
        · exact hbinding
        · exact hbinding

/-- So does a call on the connection. -/
theorem Joined.call [Sub T] [DecidableLE T] (h : node.Joined lib env setup) (A D : Aead Key)
    (call : SecureConnection.Call) : (node.call A D call).Joined lib env setup := by
  refine ⟨h.sends, fun hnone => h.waiting (Option.map_eq_none_iff.mp hnone), fun handed hhanded => ?_⟩
  obtain ⟨handed', hhanded', rfl⟩ := Option.map_eq_some_iff.mp hhanded
  obtain ⟨hpast, hcame, hbinding⟩ := h.came handed' hhanded'
  exact ⟨hpast, hcame, (SecureConnection.binding_call A D handed'.conn call).trans hbinding⟩

/-! ## The session of the two connections -/

/-- If the end has handed on a channel, it is this one. -/
def Has (channel : SecureChannel Key T) (node : Node Conn Key T) : Prop :=
  ∀ handed, node.handedOn = some handed → handed.channel = channel

variable {channel : SecureChannel Key T}

/-- Before the coroutine hands its channel on, nothing has happened on it. -/
theorem conn_of_none (hnone : node.handedOn = none) : node.conn channel = .init channel := by
  simp only [conn, hnone]

theorem conn_of_some {handed : HandedOn Key T} (hsome : node.handedOn = some handed) :
    node.conn channel = handed.conn := by
  simp only [conn, hsome]

/-- Once a channel is handed on, it is not replaced. -/
theorem Has.of_resume {event : Resumption} (h : (node.resume lib env setup event).Has channel) :
    node.Has channel := by
  intro handed hsome
  obtain ⟨conn, -, hresume⟩ := resume_of_some lib env setup hsome event
  rw [hresume] at h
  exact h ⟨handed.channel, conn⟩ rfl

/-- A node that has the channel after a call had it before. -/
theorem Has.of_call [Sub T] [DecidableLE T] {A D : Aead Key} {call : SecureConnection.Call}
    (h : (node.call A D call).Has channel) : node.Has channel := by
  intro handed hsome
  exact h { handed with conn := handed.conn.call A D call } (by simp only [Node.call, hsome, Option.map_some])

/-- What a coroutine does leaves the connection alone, or closes its socket. -/
theorem conn_resume {event : Resumption} (h : (node.resume lib env setup event).Has channel) :
    (node.resume lib env setup event).conn channel = node.conn channel ∨
      (node.resume lib env setup event).conn channel = (node.conn channel).cut := by
  cases hnow : node.handedOn with
  | none =>
      refine .inl ?_
      rw [conn_of_none hnow]
      cases hthen : (node.resume lib env setup event).handedOn with
      | none => exact conn_of_none hthen
      | some handed =>
          -- a new connection
          rw [conn_of_some hthen, ← h handed hthen]
          rw [resume_of_none hnow] at hthen
          obtain ⟨channel', -, rfl⟩ := Option.map_eq_some_iff.mp hthen
          rfl
  | some handed =>
      obtain ⟨conn, hconn, hresume⟩ := resume_of_some lib env setup hnow event
      rw [hresume, conn_of_some hnow]
      exact hconn

/-- Seen on the connection, a call is that call, or nothing if there is no connection yet. -/
theorem conn_call [Sub T] [DecidableLE T] (A D : Aead Key) (call : SecureConnection.Call) :
    (node.call A D call).conn channel = node.conn channel ∨
      (node.call A D call).conn channel = (node.conn channel).call A D call := by
  cases hnow : node.handedOn with
  | none => exact .inl (by simp only [Node.conn, Node.call, hnow, Option.map_none])
  | some handed => exact .inr (by simp only [Node.conn, Node.call, hnow, Option.map_some])

theorem sealed_conn (hfresh : channel.sendCipher.sealed = []) :
    (node.conn channel).channel.sendCipher.sealed = node.sealed := by
  unfold Node.sealed
  cases hnow : node.handedOn with
  | none =>
      rw [conn_of_none hnow]
      exact hfresh
  | some handed => rw [conn_of_some hnow]

end Node

namespace EndToEnd

variable {lib : NoiseLibrary Conn Key} {env : Side → Env} {setup : Side → Setup T}
  {s : EndToEnd Conn Key T} {channels : Side → SecureChannel Key T} {A : Aead Key}
  {keys : Side → Key}

/-- The conversation of two ends that have these channels, or will have them. -/
def talk (channels : Side → SecureChannel Key T) (s : EndToEnd Conn Key T) : Conversation Key T :=
  fun side => (s side).conn (channels side)

/-- A step of one node is a step of one connection. -/
theorem talk_update (s : EndToEnd Conn Key T) (side : Side) (node : Node Conn Key T) :
    talk channels (Function.update s side node) =
      Function.update (talk channels s) side (node.conn (channels side)) :=
  funext fun other =>
    Function.apply_update (fun side node => Node.conn (channels side) node) s side node other

/-- The two nodes and the two connections have sealed the same. -/
theorem log_talk (hfresh : ∀ side, (channels side).sendCipher.sealed = []) :
    Session.log (Conversation.parties (talk channels s)) = s.log :=
  congrArg₂ _ (Node.sealed_conn (hfresh .initiator)) (Node.sealed_conn (hfresh .responder))

/-- The two connections make a session. -/
structure Sound (A : Aead Key) (keys : Side → Key) (channels : Side → SecureChannel Key T)
    (s : EndToEnd Conn Key T) : Prop where
  session : Session.Inv A keys (Conversation.parties (talk channels s))
  consistent : ∀ side, (talk channels s side).Consistent

/-- A node whose socket is closed under its loop. -/
theorem Sound.cut (h : Sound A keys channels s) {side : Side} {node : Node Conn Key T}
    (hconn : node.conn (channels side) = (talk channels s side).cut) :
    Sound A keys channels (Function.update s side node) := by
  constructor
  · rw [talk_update, hconn, Conversation.parties_update]
    have hsame : (talk channels s side).cut.party = Conversation.parties (talk channels s) side := rfl
    rw [hsame, Function.update_eq_self]
    exact h.session
  · rw [talk_update, hconn]
    exact Conversation.consistent_update h.consistent side (h.consistent side).cut

/-- A node that does nothing to its connection. -/
theorem Sound.same (h : Sound A keys channels s) {side : Side} {node : Node Conn Key T}
    (hconn : node.conn (channels side) = talk channels s side) :
    Sound A keys channels (Function.update s side node) := by
  have hsame : talk channels (Function.update s side node) = talk channels s := by
    rw [talk_update, hconn, Function.update_eq_self]
  exact ⟨hsame ▸ h.session, hsame ▸ h.consistent⟩

section Step

variable [Sub T] [DecidableLE T] [DecidableEq Key]

/-- A node that makes a call on its connection. -/
theorem Sound.call (h : Sound A keys channels s) (hkeys : Session.KeysDistinct A keys)
    (hfresh : ∀ side, (channels side).sendCipher.sealed = []) {side : Side}
    {call : SecureConnection.Call} {node : Node Conn Key T}
    (hconn : node.conn (channels side) = (talk channels s side).call A (A.ideal s.log) call) :
    Sound A keys channels (Function.update s side node) := by
  have hstep : talk channels (Function.update s side node) =
      Conversation.step A (A.ideal (Session.log (Conversation.parties (talk channels s))))
        (talk channels s) (call.event side) := by
    rw [talk_update, hconn, SecureConnection.step_event, log_talk hfresh]
  constructor
  · rw [hstep, Conversation.parties_step]
    exact h.session.run hkeys _
  · rw [hstep]
    exact Conversation.consistent_step A _ h.consistent _

/-- The ends have no other channels than these. -/
def Have (channels : Side → SecureChannel Key T) (s : EndToEnd Conn Key T) : Prop :=
  ∀ side, (s side).Has (channels side)

/-- What an end has handed on, it keeps. -/
theorem Have.of_step {event : Event} (h : Have channels (step lib env setup A s event)) :
    Have channels s := by
  have hupdate : ∀ (side : Side) (node : Node Conn Key T),
      (node.Has (channels side) → (s side).Has (channels side)) →
      Have channels (Function.update s side node) → Have channels s := by
    intro side node hback hhave
    obtain ⟨hnode, hothers⟩ :=
      (Function.forall_update_iff s fun side node => node.Has (channels side)).mp hhave
    intro other
    by_cases hother : other = side
    · rw [hother]
      exact hback hnode
    · exact hothers other hother
  cases event with
  | resume side event => exact hupdate side _ Node.Has.of_resume h
  | call side call => exact hupdate side _ Node.Has.of_call h

/-- **One step.** -/
theorem Sound.step (h : Sound A keys channels s) (hkeys : Session.KeysDistinct A keys)
    (hfresh : ∀ side, (channels side).sendCipher.sealed = []) {event : Event}
    (hhave : Have channels (EndToEnd.step lib env setup A s event)) :
    Sound A keys channels (EndToEnd.step lib env setup A s event) := by
  cases event with
  | resume side event =>
      have hhas : ((s side).resume lib (env side) (setup side) event).Has (channels side) := by
        simpa [EndToEnd.step] using hhave side
      obtain hsame | hcut := Node.conn_resume hhas
      · exact h.same hsame
      · exact h.cut hcut
  | call side call =>
      obtain hsame | hcall := (s side).conn_call A (A.ideal s.log) call
      · exact h.same hsame
      · exact h.call hkeys hfresh hcall

/-! ## Whole runs -/

theorem run_append (s : EndToEnd Conn Key T) (events : List Event) (event : Event) :
    run lib env setup A s (events ++ [event]) =
      step lib env setup A (run lib env setup A s events) event :=
  List.foldl_append

/-- In every state of every run, what a node has handed on came out of its handshake. -/
theorem joined_run (lib : NoiseLibrary Conn Key) (env : Side → Env) (setup : Side → Setup T)
    (A : Aead Key) (world : Side → World Key T) (events : List Event) (side : Side) :
    (run lib env setup A (start lib env setup world) events side).Joined lib (env side)
      (setup side) := by
  induction events using List.reverseRecOn generalizing side with
  | nil => exact Node.joined_start lib (env side) (setup side) (world side)
  | append_singleton events event ih =>
      rw [run_append]
      have hupdate : ∀ (other : Side) (node : Node Conn Key T),
          node.Joined lib (env other) (setup other) → ∀ side,
            (Function.update (run lib env setup A (start lib env setup world) events) other node
              side).Joined lib (env side) (setup side) := fun other node hnode =>
        (Function.forall_update_iff _ fun side (node : Node Conn Key T) =>
          node.Joined lib (env side) (setup side)).mpr ⟨hnode, fun side _ => ih side⟩
      cases event with
      | resume other event => exact hupdate other _ ((ih other).resume event) side
      | call other call => exact hupdate other _ ((ih other).call A _ call) side

/-- Two ends that have the channels of one handshake, or will have them. -/
theorem sound_run {hash : Bytes} {static : Side → Bytes} {replay : Side → ReplayWindow}
    {rekey : Side → RekeyPolicy T}
    (hchannels : ∀ side, channels side =
      SecureChannel.init (honestHandshake keys hash static side) (replay side) (rekey side))
    (hkeys : Session.KeysDistinct A keys) (world : Side → World Key T) (events : List Event)
    (hhave : Have channels (run lib env setup A (start lib env setup world) events)) :
    Sound A keys channels (run lib env setup A (start lib env setup world) events) := by
  obtain rfl : channels = fun side =>
      SecureChannel.init (honestHandshake keys hash static side) (replay side) (rekey side) :=
    funext hchannels
  induction events using List.reverseRecOn with
  | nil => exact ⟨Session.inv_start A keys hash static replay rekey, fun side =>
      Conversation.consistent_start keys hash static replay rekey side⟩
  | append_singleton events event ih =>
      rw [run_append] at hhave ⊢
      exact (ih hhave.of_step).step hkeys (fun side => rfl) hhave

end Step

/-! ## Two users compare -/

section Compare

open NoiseXX

variable {lib : NoiseLibrary Conn Key} {P : Primitives Key} {name : Bytes} {stateOf : Conn → State Key}

/-- A driver that has returned has exchanged what the coroutine has. -/
theorem returns_of_drive (himpl : lib.Implements P name stateOf) (lawful : P.Lawful) {setup : Setup T}
    {s : Coroutine Conn Key T} {hs : NoiseXXHandshake Conn} (hbegins : Coroutine.Begins lib setup hs)
    {n : Nat} {result : HandshakeResult Key} {peerCert : Bytes}
    (hdrive : (Driver.init hs setup.localCertBytes).drive lib n s.received =
      .returned result peerCert) :
    (Driver.init hs setup.localCertBytes).Returns lib result peerCert (s.exchanged lib setup) := by
  have hthree := (handshakeHash_of_returns himpl lawful hbegins ⟨n, s.received, hdrive, rfl⟩).2
  obtain ⟨hreturned, -⟩ := Driver.drive_of_returned hdrive
  rw [hthree] at hreturned
  refine ⟨4, s.received, hreturned, ?_⟩
  unfold Coroutine.exchanged
  rw [show NoiseXXHandshake.new _ _ _ _ _ = _ from hbegins]

/-- What an end has hashed in its handshake. -/
def inputs (lib : NoiseLibrary Conn Key) (P : Primitives Key) (name : Bytes)
    (setup : Side → Setup T) (s : EndToEnd Conn Key T) (side : Side) : List Bytes :=
  transcriptInputs P name buildPrologue ((s side).coroutine.exchanged lib (setup side))

/-- **Nobody between.**  Over a library that implements Noise XX, two users run
`connect` and the callback of `serve`, send and receive, and the network hands each
of them whatever it likes, in the handshake and afterwards.  If their safety numbers agree, and the hashes do not
collide on what was hashed, each is connected to the other's static key; what each
has received is what the other has sent, so far; an exception comes out of its
loop only when the nonces are used up; its loop has ended on a CLOSE only if the
other has closed and everything has arrived; and as long as its socket is open,
its channel is closed exactly when its loop has ended on a CLOSE. -/
theorem nobody_between [Sub T] [DecidableLE T] [DecidableEq Key]
    (himpl : lib.Implements P name stateOf) (lawful : P.Lawful)
    (hlen : P.HashLength HANDSHAKE_HASH_LEN) (env : Side → Env) {setup : Side → Setup T}
    (hroles : ∀ side, (setup side).initiator = decide (side = .initiator))
    (hee : Agree P (setup .initiator).entropy (setup .responder).entropy)
    (hes : Agree P (setup .initiator).entropy (setup .responder).staticPrivate)
    (hse : Agree P (setup .initiator).staticPrivate (setup .responder).entropy)
    (A : Aead Key) (sha256 : Bytes → Bytes) (world : Side → World Key T) (events : List Event) :
    let s := run lib env setup A (start lib env setup world) events
    ∀ handed : Side → HandedOn Key T, (∀ side, (s side).handedOn = some (handed side)) →
      P.Distinct (inputs lib P name setup s .initiator) (inputs lib P name setup s .responder) →
      (safetyValue sha256 (handed .initiator).conn.channel.handshakeHash ≡
          safetyValue sha256 (handed .responder).conn.channel.handshakeHash
            [MOD 10 ^ SAFETY_NUMBER_DIGITS] →
        (handed .initiator).conn.channel.handshakeHash =
          (handed .responder).conn.channel.handshakeHash) →
      Session.KeysDistinct A (fun side => (handed side).channel.sendCipher.key) →
      (handed .initiator).conn.safetyNumber sha256 = (handed .responder).conn.safetyNumber sha256 →
      ∀ side,
        let own := (handed side).conn
        let other := (handed side.peer).conn
        own.channel.remoteStatic = lib.publicKey (setup side.peer).staticPrivate ∧
          own.received <+: other.encrypted ∧
          (∀ exc, own.loop = .raised exc →
            exc = .noiseMaxNonceError ∧ own.channel.recvCipher.nonce = MAX_NONCE) ∧
          (own.loop = .stopped closedByPeer →
            own.received = other.encrypted ∧ other.channel.closed = true) ∧
          (own.socketClosed = false →
            (own.channel.closed = true ↔ own.loop = .stopped closedByPeer)) := by
  intro s handed hhanded hdistinct hdigest hkeys heq side own other
  have hcame := fun side =>
    (joined_run lib env setup A world events side).came (handed side) (hhanded side)
  choose hs peer hbegins hdrive hchannel using fun side => (hcame side).2.1
  choose n hdrive using hdrive
  have hbinding : ∀ side, (handed side).conn.channel.binding =
      ((peer side).result.handshakeHash, (peer side).result.remoteStatic) := fun side =>
    (hcame side).2.2.trans (congrArg _ (hchannel side))
  have hhash : ∀ side, (handed side).conn.channel.handshakeHash = (peer side).result.handshakeHash :=
    fun side => congrArg Prod.fst (hbinding side)
  -- the two handshakes
  have hnew : ∀ side, NoiseXXHandshake.new lib (side = .initiator) (setup side).staticPrivate
      buildPrologue (setup side).entropy = .ok (hs side) := fun side =>
    hroles side ▸ hbegins side
  have hreturns := fun side => returns_of_drive himpl lawful (hbegins side) (hdrive side)
  have hlength := fun side => length_handshakeHash himpl lawful hlen (hnew side) (hreturns side)
  have hagree : (peer .initiator).result.handshakeHash = (peer .responder).result.handshakeHash := by
    unfold SecureConnection.safetyNumber at heq
    rw [hhash, hhash, safetyNumber_eq_iff (hlength .initiator) (hlength .responder)] at heq
    rw [hhash, hhash] at hdigest
    exact hdigest heq
  obtain ⟨keys, hash, hhonest⟩ :=
    honest_of_hash_eq himpl lawful hlen hnew hee hes hse hreturns hdistinct hagree
  -- the two connections
  have hchannels : ∀ side, (handed side).channel =
      SecureChannel.init (honestHandshake keys hash (fun side =>
        P.publicKey (setup side).staticPrivate) side) (setup side).replayWindow
        (setup side).rekeyPolicy := fun side => by
    rw [hchannel side, Peer.channel, (hhonest side).1]
  have hkeys' : (fun side => (handed side).channel.sendCipher.key) = keys := by
    funext side
    rw [hchannels side]
    rfl
  rw [hkeys'] at hkeys
  have hsound : Sound A keys (fun side => (handed side).channel) s := by
    refine sound_run hchannels hkeys world events fun side handed' hhanded' => ?_
    rw [Option.some.inj (hhanded'.symm.trans (hhanded side))]
  have htalk : ∀ side, talk (fun side => (handed side).channel) s side = (handed side).conn :=
    fun side => Node.conn_of_some (hhanded side)
  have hfaithful := Conversation.faithful_of_inv hsound.session (hsound.consistent side)
  rw [htalk, htalk] at hfaithful
  refine ⟨?_, hfaithful⟩
  have hstatic : own.channel.remoteStatic = (peer side).result.remoteStatic :=
    congrArg Prod.snd (hbinding side)
  rw [hstatic, (hhonest side).1, himpl.publicKey]
  rfl

/-! ### Two strangers -/

/-- A user who takes anybody. -/
def strangerSetup (side : Side) : Setup ℤ where
  caller := if side = .initiator then .connect ⟨none, none, none⟩ else .serve []
  config := ⟨false, none, none, false, none, none, none, false, none⟩
  timeoutText := []
  staticPrivate := List.replicate 32 (exampleKey side)
  entropy := List.replicate 32 (exampleKey side + 1)
  localCertBytes := []
  clock := 0
  replayWindow := ⟨4, 15, -1, 0, by decide, rfl⟩
  rekeyPolicy := ⟨7, 75, fun _ => 0, 1, 0, 0, by decide, by decide⟩

/-- A run of two such users. -/
def strangers (events : List Event) : EndToEnd (State Nat) Nat ℤ :=
  let lib := NoiseLibrary.xx hashingPrimitives [1]
  let env : Side → Env := fun _ => exampleEnv (fun _ => .ok .null) (SignatureScheme.stamp 64)
  run lib env strangerSetup (Aead.spelled (· + 2))
    (start lib env strangerSetup fun _ => ⟨.empty, [], [], []⟩) events

/-- The frame with this number arrives, of those that the other end has sent. -/
def frameArrives (side : Side) (number : Nat) (s : EndToEnd (State Nat) Nat ℤ) : Event :=
  let sent := (s side.peer).coroutine.wire ++
    (s side.peer).handedOn.elim [] fun handed => handed.conn.wire
  let message := WsMessage.binary (sent[number]?.getD [])
  if (s side).handedOn.isSome = true then .call side (.arrive message)
  else .resume side (.message message)

/-- The handshake, a message that the initiator sends, and the message once more. -/
def strangerEvents : List Event :=
  let script : List (EndToEnd (State Nat) Nat ℤ → Event) :=
    [fun _ => .resume .initiator .completed, frameArrives .responder 0,
      fun _ => .resume .initiator .completed, frameArrives .initiator 0,
      fun _ => .resume .responder .completed, fun _ => .resume .initiator .completed,
      fun _ => .call .initiator (.send (.bytesLike [104, 105])), frameArrives .responder 1,
      frameArrives .responder 2, frameArrives .responder 2]
  script.foldl (fun events next => events ++ [next (strangers events)]) []

/-- The safety numbers of the two agree, and the message has arrived once. -/
theorem nobody_between_strangers :
    let s := strangers strangerEvents
    ∃ handed : Side → HandedOn Nat ℤ, (∀ side, (s side).handedOn = some (handed side)) ∧
      (handed .responder).conn.received = [[104, 105]] ∧
      ∀ side, (handed side).conn.channel.remoteStatic =
          hashingPrimitives.publicKey (List.replicate 32 (exampleKey side.peer)) ∧
        (handed side).conn.received <+: (handed side.peer).conn.encrypted := by
  intro s
  have hsome : ∀ side, (s side).handedOn.isSome = true :=
    Side.forall_of_peer .initiator (by decide +kernel) (by decide +kernel)
  choose handed hhanded using fun side => Option.isSome_iff_exists.mp (hsome side)
  -- what the run shows of a connection
  have hread : ∀ {α : Type} (f : HandedOn Nat ℤ → α) (side : Side) {a : α},
      (s side).handedOn.map f = some a → f (handed side) = a := by
    intro α f side a h
    rw [hhanded side] at h
    exact Option.some.inj h
  have hhash : (handed .initiator).conn.channel.handshakeHash =
      (handed .responder).conn.channel.handshakeHash := by
    have hboth : (s .initiator).handedOn.map (fun h => h.conn.channel.handshakeHash) =
        (s .responder).handedOn.map fun h => h.conn.channel.handshakeHash := by decide +kernel
    rw [hhanded, hhanded] at hboth
    exact Option.some.inj hboth
  have hkeys : (fun side => (handed side).channel.sendCipher.key) =
      fun side => if side = .initiator then 97 else 98 :=
    funext (Side.forall_of_peer .initiator
      (hread (fun h => h.channel.sendCipher.key) .initiator (by decide +kernel))
      (hread (fun h => h.channel.sendCipher.key) .responder (by decide +kernel)))
  have hagree : Agree hashingPrimitives (List.replicate 32 4) (List.replicate 32 6) ∧
      Agree hashingPrimitives (List.replicate 32 4) (List.replicate 32 5) ∧
      Agree hashingPrimitives (List.replicate 32 3) (List.replicate 32 6) := by
    unfold Agree
    decide
  refine ⟨handed, hhanded, hread (fun h => h.conn.received) .responder (by decide +kernel),
    fun side => ?_⟩
  obtain ⟨hstatic, hprefix, -⟩ := nobody_between (implements_xx _ [1]) lawful_hashingPrimitives
    hashLength_hashingPrimitives _ (Side.forall_of_peer .initiator rfl rfl) hagree.1 hagree.2.1
    hagree.2.2 (Aead.spelled (· + 2)) hashingPrimitives.hash _ strangerEvents handed hhanded
    (by decide +kernel) (fun _ => hhash) (hkeys ▸ Conversation.keysDistinct_spelled 97)
    (congrArg (safetyNumber hashingPrimitives.hash) hhash) side
  exact ⟨hstatic, hprefix⟩

end Compare

end EndToEnd

end SecureWs
