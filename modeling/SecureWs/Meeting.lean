import SecureWs.Establishment
import SecureWs.Lifecycle

/-!
# SecureWs.Meeting

The two ends of one connection: the coroutine of `connect` and the callback of
`serve`, over a WebSocket that delivers in order and does not fail, while other
tasks of each end go on changing its pins.

* `Provisioned` says what the two ends must have been given;
* `At` says how far an end has come, `rank` what it has left to do;
* `get_through`: whatever the order of events, neither end is ever refused or
  stuck, and under every fair schedule `connect` returns and the handler is
  called, with the two channels of one handshake.
-/

namespace SecureWs

open Python

variable {Conn Key T : Type} [Zero T] [LE T]

abbrev Meeting (Conn Key T : Type) [Zero T] [LE T] := Side → Coroutine Conn Key T

namespace Meeting

/-- What happens: what an end waits for completes, a frame arrives at an end, or
other tasks of an end change its store. -/
inductive Event where
  | completed (side : Side)
  | arrived (side : Side)
  | others (side : Side) (store : KnownPeers)

/-- The next frame on its way to an end: of those that the other end has given to
`ws.send`, the first that this end has not received. -/
def nextFrame (s : Meeting Conn Key T) (side : Side) : Option Bytes :=
  (s side.peer).wire[(s side).received.length]?

section Step

variable (lib : NoiseLibrary Conn Key) (env : Side → Env) (setup : Side → Setup T)

def resume (s : Meeting Conn Key T) (side : Side) (event : Resumption) : Meeting Conn Key T :=
  Function.update s side ((s side).step lib (env side) (setup side) event)

def step (s : Meeting Conn Key T) : Event → Meeting Conn Key T
  | .completed side => resume lib env setup s side .completed
  | .arrived side => match s.nextFrame side with
      | some frame => resume lib env setup s side (.message (.binary frame))
      | none => s
  | .others side store => resume lib env setup s side (.others store)

def start (world : Side → World Key T) : Meeting Conn Key T :=
  fun side => .start lib (env side) (setup side) (world side)

end Step

/-! ## What the ends are given -/

variable {lib : NoiseLibrary Conn Key} {env : Side → Env} {setup : Side → Setup T}

abbrev Exchange (lib : NoiseLibrary Conn Key) (setup : Side → Setup T) : Type :=
  IdealExchange lib (fun side => (setup side).staticPrivate) (fun side => (setup side).entropy)
    buildPrologue (payloads fun side => (setup side).localCertBytes)

/-- The peer of an end, as its driver returns it. -/
def peer (x : Exchange lib setup)
    (hpublic : ∀ side, (lib.publicKey (setup side).staticPrivate).length = X25519_KEY_LEN)
    (side : Side) : Peer Key where
  result := honestHandshake x.keys x.hash (fun side => lib.publicKey (setup side).staticPrivate) side
  certBytes := (setup side.peer).localCertBytes
  remoteStatic_length := hpublic side.peer

/-- The two ends are set up for each other: `connect` has good arguments, the
keys have their lengths, and the configuration of each end admits the other,
with any of the stores that its tasks may leave. -/
structure Provisioned (env : Side → Env) (stores : Side → Set KnownPeers) (x : Exchange lib setup)
    (hpublic : ∀ side, (lib.publicKey (setup side).staticPrivate).length = X25519_KEY_LEN) :
    Prop where
  connects : ∃ tls, (setup .initiator).caller = .connect tls ∧
    checkConnect (setup .initiator).config tls = .ok () ∧ checkCertPin (env .initiator) tls = .ok ()
  serves : ∃ remoteAddress, (setup .responder).caller = .serve remoteAddress
  length_private : ∀ side, (setup side).staticPrivate.length = X25519_KEY_LEN
  admits : ∀ side, ∀ store ∈ stores side,
    Admits (env side) (setup side).config (setup side).clock store (peer x hpublic side)

/-- It is an event of the two ends or of the network. -/
def Event.Own : Event → Prop
  | .others _ _ => False
  | _ => True

/-- Other tasks leave one of these stores. -/
def Allowed (stores : Side → Set KnownPeers) : Event → Prop
  | .others side store => store ∈ stores side
  | _ => True

/-! ## How far an end has come -/

section Positions

variable (x : Exchange lib setup)
  (hpublic : ∀ side, (lib.publicKey (setup side).staticPrivate).length = X25519_KEY_LEN)

def channel (side : Side) : SecureChannel Key T :=
  (peer x hpublic side).channel (setup side).replayWindow (setup side).rekeyPolicy

/-- Where an end waits that has written or read `n` messages. -/
inductive Stage : Side → Nat → Await Conn Key T → Prop
  | opening : Stage .initiator 0 .opening
  | sending (side : Side) (n : Nat) (hn : n ≤ 3) : Stage side n (.sending (x.driver side n))
  | receiving (side : Side) (n : Nat) (hn : n < 3) (hturn : sender n = side.peer) :
      Stage side n (.receiving (x.driver side n))
  | returned : Stage .initiator 3 (.returned (some (channel x hpublic .initiator)))
  | handling : Stage .responder 3 (.handling (channel x hpublic .responder))
  | handled : Stage .responder 3 (.returned none)

/-- The connection has got through: the socket is open, and `connect` has
returned the channel, or the handler was called with it. -/
structure Met (channel : Side → SecureChannel Key T) (world₀ : Side → World Key T) (side : Side)
    (s : Coroutine Conn Key T) : Prop where
  closes_eq : s.world.closes = (world₀ side).closes
  returned : side = .initiator → s.await = .returned (some (channel side))
  handled : side = .responder → s.world.handled = (world₀ side).handled ++ [channel side]

/-- What an end has sent and received after `n` messages, when the other has seen
`m`. -/
structure Exchanged (s : Coroutine Conn Key T) (side : Side) (n m : Nat) : Prop where
  order : ∀ k < n, sender k = side.peer → k < m
  wire_eq : s.wire = x.between side 0 n
  received_eq : s.received = (x.between side.peer 0 n).map .binary

/-- Nothing has been done with the outcome yet. -/
structure Untouched (stores : Side → Set KnownPeers) (world₀ : Side → World Key T) (side : Side)
    (s : Coroutine Conn Key T) : Prop where
  closes_eq : s.world.closes = (world₀ side).closes
  handled_eq : s.world.handled = (world₀ side).handled
  store_mem : s.world.knownPeers ∈ stores side

/-- An end after `n` messages, when the other has seen `m`. -/
structure At (stores : Side → Set KnownPeers) (world₀ : Side → World Key T)
    (s : Coroutine Conn Key T) (side : Side) (n m : Nat) : Prop where
  stage : Stage x hpublic side n s.await
  exchanged : Exchanged x s side n m
  untouched : s.Underway → Untouched stores world₀ side s
  met : ¬s.Underway → Met (channel x hpublic) world₀ side s

end Positions

/-! ## What is left to do -/

/-- What an end has left: a driver writes or reads what is left of the three
messages. -/
def rankOf (s : Coroutine Conn Key T) : Nat :=
  match s.await with
  | .opening => 8
  | .sending driver => 2 * (3 - driver.hs.step) + 2
  | .receiving driver => 2 * (3 - driver.hs.step) + 1
  | _ => 0

/-- What both ends have left. -/
def rank (s : Meeting Conn Key T) : Nat := rankOf (s .initiator) + rankOf (s .responder)

theorem rank_eq (s : Meeting Conn Key T) (side : Side) :
    rank s = rankOf (s side) + rankOf (s side.peer) := by
  cases side with
  | initiator => rfl
  | responder => exact Nat.add_comm _ _

theorem rank_resume (s : Meeting Conn Key T) (side : Side) (event : Resumption) :
    rank (resume lib env setup s side event) =
      rankOf ((s side).step lib (env side) (setup side) event) + rankOf (s side.peer) := by
  simp [rank_eq _ side, resume]

/-! ## The steps of one end -/

section End

variable {x : Exchange lib setup}
  {hpublic : ∀ side, (lib.publicKey (setup side).staticPrivate).length = X25519_KEY_LEN}
  {stores : Side → Set KnownPeers} {world₀ : Side → World Key T} {s : Coroutine Conn Key T}
  {side : Side} {n m : Nat}

theorem At.mono {m' : Nat} (h : At x hpublic stores world₀ s side n m) (hle : m ≤ m') :
    At x hpublic stores world₀ s side n m' :=
  ⟨h.stage, ⟨fun k hk hsender => (h.exchanged.order k hk hsender).trans_le hle, h.exchanged.wire_eq,
    h.exchanged.received_eq⟩, h.untouched, h.met⟩

/-- The checks let the peer through. -/
theorem at_settle (h : Provisioned env stores x hpublic) (hexchanged : Exchanged x s side 3 m)
    (huntouched : Untouched stores world₀ side s) :
    At x hpublic stores world₀ (s.settle (env side) (setup side) (peer x hpublic side)) side 3 m ∧
      rankOf (s.settle (env side) (setup side) (peer x hpublic side)) = 0 := by
  have hok : ((authenticate (env side) (setup side).config (setup side).clock
      (peer x hpublic side)).run s.world).1 = .ok () :=
    authenticate_eq_ok_iff.mpr (h.admits side _ huntouched.store_mem)
  have hcloses := Coroutine.closes_authenticate (env side) (setup side).config (setup side).clock
    (peer x hpublic side) s.world
  have hhandled := authenticate_keeps_handled (env side) (setup side).config (setup side).clock
    (peer x hpublic side) s.world
  unfold Coroutine.settle
  cases hrun : (authenticate (env side) (setup side).config (setup side).clock
      (peer x hpublic side)).run s.world with
  | mk result world =>
      rw [hrun] at hok hcloses hhandled
      obtain rfl : result = .ok () := hok
      cases side with
      | initiator =>
          obtain ⟨tls, hcaller, -, -⟩ := h.connects
          simp only [hcaller]
          refine ⟨⟨.returned, ⟨hexchanged.order, hexchanged.wire_eq, hexchanged.received_eq⟩,
            fun hunderway => hunderway.elim,
            fun _ => ⟨?_, fun _ => rfl, fun hside => absurd hside (by decide)⟩⟩, rfl⟩
          exact hcloses.trans huntouched.closes_eq
      | responder =>
          obtain ⟨remoteAddress, hcaller⟩ := h.serves
          simp only [hcaller]
          refine ⟨⟨.handling, ⟨hexchanged.order, hexchanged.wire_eq, hexchanged.received_eq⟩,
            fun hunderway => hunderway.elim,
            fun _ => ⟨?_, fun hside => absurd hside (by decide), fun _ => ?_⟩⟩, rfl⟩
          · exact hcloses.trans huntouched.closes_eq
          · show world.handled ++ [_] = _
            rw [hhandled.trans huntouched.handled_eq]
            rfl

/-- The driver runs on. -/
theorem at_advance (h : Provisioned env stores x hpublic) (hexchanged : Exchanged x s side n m)
    (huntouched : Untouched stores world₀ side s) (hn : n ≤ 3) :
    ∃ n', n ≤ n' ∧
      At x hpublic stores world₀ (s.advance lib (env side) (setup side) (x.driver side n)) side n' m ∧
      rankOf (s.advance lib (env side) (setup side) (x.driver side n)) < 2 * (3 - n) + 2 := by
  unfold Coroutine.advance
  obtain hlt | rfl := hn.lt_or_eq
  · by_cases hturn : sender n = side
    · -- it writes the next message
      have hnot : sender n ≠ side.peer := by simp [hturn]
      have hwrites : (x.driver side n).iterate lib none =
          .wrote (x.frame n) (x.driver side (n + 1)) := by
        subst hturn
        exact IdealExchange.iterate_writes hlt none
      simp only [hwrites]
      refine ⟨n + 1, Nat.le_succ n, ⟨.sending side (n + 1) hlt, ⟨fun k hk hsender => ?_, ?_, ?_⟩,
        fun _ => ⟨huntouched.closes_eq, huntouched.handled_eq, huntouched.store_mem⟩,
        fun hpast => absurd trivial hpast⟩, ?_⟩
      · have hne : k ≠ n := fun heq => hnot (heq ▸ hsender)
        exact hexchanged.order k (by omega) hsender
      · rw [x.between_succ side (Nat.zero_le n), if_pos hturn, hexchanged.wire_eq]
      · rw [x.between_succ_right hnot]
        exact hexchanged.received_eq
      · simp only [rankOf, IdealExchange.driver]
        omega
    · -- it waits for the other end
      have hturn' : sender n = side.peer := by
        revert hturn
        cases sender n <;> cases side <;> simp [Side.peer]
      simp only [IdealExchange.iterate_waits hlt hturn]
      refine ⟨n, le_rfl, ⟨.receiving side n hlt hturn',
        ⟨hexchanged.order, hexchanged.wire_eq, hexchanged.received_eq⟩,
        fun _ => ⟨huntouched.closes_eq, huntouched.handled_eq, huntouched.store_mem⟩,
        fun hpast => absurd trivial hpast⟩, ?_⟩
      simp only [rankOf, IdealExchange.driver]
      omega
  · -- it has returned
    have hpeer : Peer.of? (honestHandshake x.keys x.hash
        (fun side => lib.publicKey (setup side).staticPrivate) side) (setup side.peer).localCertBytes =
          some (peer x hpublic side) := dif_pos (hpublic side.peer)
    simp only [IdealExchange.iterate_returns, hpeer]
    obtain ⟨hat, hrank⟩ := at_settle h hexchanged huntouched
    exact ⟨3, le_rfl, hat, by rw [hrank]; omega⟩

/-- The handshake begins. -/
theorem at_handshake (h : Provisioned env stores x hpublic) (hexchanged : Exchanged x s side 0 m)
    (huntouched : Untouched stores world₀ side s)
    (hcaller : (setup side).initiator = decide (side = .initiator)) :
    ∃ n', At x hpublic stores world₀ (s.handshake lib (env side) (setup side)) side n' m ∧
      rankOf (s.handshake lib (env side) (setup side)) < 8 := by
  have hnew : NoiseXXHandshake.new lib (setup side).initiator (setup side).staticPrivate buildPrologue
      (setup side).entropy = .ok (x.driver side 0).hs := by
    unfold NoiseXXHandshake.new
    rw [raiseIf_bind_except, if_neg (by simp [h.length_private side]), hcaller, ← x.starts side]
    rfl
  have hdriver : Driver.init (x.driver side 0).hs (setup side).localCertBytes = x.driver side 0 := by
    cases side <;> rfl
  unfold Coroutine.handshake
  simp only [hnew, hdriver]
  obtain ⟨n', -, hat, hrank⟩ := at_advance h hexchanged huntouched (Nat.zero_le 3)
  exact ⟨n', hat, hrank⟩

/-- It waits for the socket, not for the other end. -/
def Acts (s : Coroutine Conn Key T) : Prop :=
  match s.await with
  | .opening => True
  | .sending _ => True
  | _ => False

/-- It waits for a message. -/
def Listens (s : Coroutine Conn Key T) : Prop :=
  match s.await with
  | .receiving _ => True
  | _ => False

/-- For the other end nothing has changed, nor is there more or less to do. -/
structure Alike (s s' : Coroutine Conn Key T) : Prop where
  wire_eq : s'.wire = s.wire
  received_eq : s'.received = s.received
  rank_eq : rankOf s' = rankOf s
  acts_iff : Acts s' ↔ Acts s
  listens_iff : Listens s' ↔ Listens s

theorem Alike.refl (s : Coroutine Conn Key T) : Alike s s := ⟨rfl, rfl, rfl, .rfl, .rfl⟩

/-- The WebSocket of `connect` is open. -/
theorem at_connected (h : Provisioned env stores x hpublic)
    (hat : At x hpublic stores world₀ s side n m) (hawait : s.await = .opening) :
    ∃ n', n ≤ n' ∧ At x hpublic stores world₀ (s.connected lib (env side) (setup side)) side n' m ∧
      rankOf (s.connected lib (env side) (setup side)) < rankOf s := by
  have huntouched := hat.untouched (by rw [Coroutine.Underway, hawait]; trivial)
  have hexchanged := hat.exchanged
  have hstage := hat.stage
  rw [hawait] at hstage
  cases hstage with
  | opening =>
      obtain ⟨tls, hcaller, -, hpin⟩ := h.connects
      have hinitiator : (setup .initiator).initiator = decide (Side.initiator = .initiator) := by
        simp [Setup.initiator, hcaller]
      let opened : Coroutine Conn Key T := { s with opened := true }
      have hexchanged' : Exchanged x opened .initiator 0 m :=
        ⟨hexchanged.order, hexchanged.wire_eq, hexchanged.received_eq⟩
      have huntouched' : Untouched stores world₀ .initiator opened :=
        ⟨huntouched.closes_eq, huntouched.handled_eq, huntouched.store_mem⟩
      obtain ⟨n', hat', hrank⟩ := at_handshake h hexchanged' huntouched' hinitiator
      unfold Coroutine.connected
      simp only [hcaller, hpin]
      have hbefore : rankOf s = 8 := by simp only [rankOf, hawait]
      refine ⟨n', Nat.zero_le n', hat', ?_⟩
      rw [hbefore]
      exact hrank

/-- What an end waits for completes. -/
theorem at_completed (h : Provisioned env stores x hpublic)
    (hat : At x hpublic stores world₀ s side n m) :
    let s' := s.step lib (env side) (setup side) .completed
    ∃ n', n ≤ n' ∧ At x hpublic stores world₀ s' side n' m ∧
      (Acts s ∧ rankOf s' < rankOf s ∨ ¬Acts s ∧ Alike s s') := by
  intro s'
  have hstage := hat.stage
  generalize hawait : s.await = await at hstage
  cases hstage with
  | opening =>
      have hstep : s' = s.connected lib (env .initiator) (setup .initiator) := by
        simp only [s', Coroutine.step, hawait]
      obtain ⟨n', hle, hat', hrank⟩ := at_connected h hat hawait
      rw [hstep]
      exact ⟨n', hle, hat', .inl ⟨by rw [Acts, hawait]; trivial, hrank⟩⟩
  | sending _ _ hn =>
      have hstep : s' = s.advance lib (env side) (setup side) (x.driver side n) := by
        simp only [s', Coroutine.step, hawait]
      have huntouched := hat.untouched (by rw [Coroutine.Underway, hawait]; trivial)
      obtain ⟨n', hle, hat', hrank⟩ := at_advance h hat.exchanged huntouched hn
      rw [hstep]
      refine ⟨n', hle, hat', .inl ⟨by rw [Acts, hawait]; trivial, ?_⟩⟩
      simpa only [rankOf, hawait, IdealExchange.driver] using hrank
  | receiving _ _ hn hturn =>
      have hstep : s' = s := by simp only [s', Coroutine.step, hawait]
      rw [hstep]
      exact ⟨n, le_rfl, hat, .inr ⟨by rw [Acts, hawait]; exact id, .refl s⟩⟩
  | returned =>
      have hstep : s' = s := by simp only [s', Coroutine.step, hawait]
      rw [hstep]
      exact ⟨3, le_rfl, hat, .inr ⟨by rw [Acts, hawait]; exact id, .refl s⟩⟩
  | handling =>
      -- the handler has returned
      have hstep : s' = { s with await := .returned none } := by
        simp only [s', Coroutine.step, hawait]
      have hmet := hat.met (by rw [Coroutine.Underway, hawait]; exact id)
      rw [hstep]
      refine ⟨3, le_rfl, ⟨.handled, ⟨hat.exchanged.order, hat.exchanged.wire_eq,
        hat.exchanged.received_eq⟩, fun hunderway => hunderway.elim, fun _ =>
        ⟨hmet.closes_eq, fun hside => absurd hside (by decide), hmet.handled⟩⟩,
        .inr ⟨by rw [Acts, hawait]; exact id, ?_⟩⟩
      constructor
      · rfl
      · rfl
      · simp only [rankOf, hawait]
      · simp only [Acts, hawait]
      · simp only [Listens, hawait]
  | handled =>
      have hstep : s' = s := by simp only [s', Coroutine.step, hawait]
      rw [hstep]
      exact ⟨3, le_rfl, hat, .inr ⟨by rw [Acts, hawait]; exact id, .refl s⟩⟩

/-- Other tasks change the store. -/
theorem at_others (hat : At x hpublic stores world₀ s side n m) {store : KnownPeers}
    (hstore : store ∈ stores side) :
    let s' := s.step lib (env side) (setup side) (.others store)
    At x hpublic stores world₀ s' side n m ∧ Alike s s' := by
  intro s'
  have hstep : s' = { s with world := { s.world with knownPeers := store } } := by
    simp only [s', Coroutine.step]
  rw [hstep]
  refine ⟨⟨hat.stage, ⟨hat.exchanged.order, hat.exchanged.wire_eq, hat.exchanged.received_eq⟩,
    fun hunderway => ?_, fun hpast => ?_⟩, ⟨rfl, rfl, rfl, .rfl, .rfl⟩⟩
  · have huntouched := hat.untouched hunderway
    exact ⟨huntouched.closes_eq, huntouched.handled_eq, hstore⟩
  · have hmet := hat.met hpast
    exact ⟨hmet.closes_eq, hmet.returned, hmet.handled⟩

/-- A message arrives at an end that waits for none. -/
theorem step_deaf (hat : At x hpublic stores world₀ s side n m) (hdeaf : ¬Listens s)
    (message : WsMessage) : s.step lib (env side) (setup side) (.message message) = s := by
  have hstage := hat.stage
  unfold Listens at hdeaf
  generalize hawait : s.await = await at hstage hdeaf
  cases hstage with
  | receiving => exact absurd trivial hdeaf
  | _ => simp only [Coroutine.step, hawait]

/-- The next message arrives. -/
theorem at_arrived (h : Provisioned env stores x hpublic)
    (hat : At x hpublic stores world₀ s side n m) (hlistens : Listens s) (hahead : n < m) :
    let s' := s.step lib (env side) (setup side) (.message (.binary (x.frame n)))
    ∃ n', n ≤ n' ∧ At x hpublic stores world₀ s' side n' m ∧ rankOf s' < rankOf s := by
  intro s'
  have hstage := hat.stage
  have hexchanged := hat.exchanged
  have huntouched : Untouched stores world₀ side s := by
    refine hat.untouched ?_
    unfold Listens Coroutine.Underway at *
    cases hawait : s.await with
    | receiving driver => trivial
    | _ => simp [hawait] at hlistens
  unfold Listens at hlistens
  generalize hawait : s.await = await at hstage hlistens
  cases hstage with
  | receiving _ _ hn hturn =>
      have hreads : (x.driver side n).iterate lib (some (.binary (x.frame n))) =
          .read (x.driver side (n + 1)) := by
        have hside : (sender n).peer = side := by rw [hturn, Side.peer_peer]
        subst hside
        exact IdealExchange.iterate_reads hn
      let read : Coroutine Conn Key T :=
        { s with received := s.received ++ [.binary (x.frame n)] }
      have hstep : s' = read.advance lib (env side) (setup side) (x.driver side (n + 1)) := by
        simp only [s', Coroutine.step, hawait, Coroutine.receive, hreads, read]
      have hexchanged' : Exchanged x read side (n + 1) m := by
        constructor
        · intro k hk hsender
          obtain hlt | rfl := Nat.lt_succ_iff_lt_or_eq.mp hk
          · exact hexchanged.order k hlt hsender
          · exact hahead
        · rw [x.between_succ_right (by simp [hturn])]
          exact hexchanged.wire_eq
        · rw [x.between_succ _ (Nat.zero_le n), if_pos hturn, List.map_append, ← hexchanged.received_eq]
          rfl
      have huntouched' : Untouched stores world₀ side read :=
        ⟨huntouched.closes_eq, huntouched.handled_eq, huntouched.store_mem⟩
      obtain ⟨n', hle, hat', hrank⟩ := at_advance h hexchanged' huntouched' hn
      rw [hstep]
      refine ⟨n', Nat.le_of_succ_le hle, hat', ?_⟩
      simp only [rankOf, hawait, IdealExchange.driver] at hrank ⊢
      omega
  | _ => exact hlistens.elim

end End

/-! ## The steps of both ends -/

/-- The event makes an end go on. -/
def Ready (s : Meeting Conn Key T) : Event → Prop
  | .completed side => Acts (s side)
  | .arrived side => Listens (s side) ∧ (s.nextFrame side).isSome = true
  | .others _ _ => False

section Invariant

variable (x : Exchange lib setup)
  (hpublic : ∀ side, (lib.publicKey (setup side).staticPrivate).length = X25519_KEY_LEN)
  (stores : Side → Set KnownPeers) (world₀ : Side → World Key T)

def Inv (s : Meeting Conn Key T) : Prop :=
  ∃ pos : Side → Nat, ∀ side, At x hpublic stores world₀ (s side) side (pos side) (pos side.peer)

variable {x hpublic stores world₀} {s : Meeting Conn Key T}

/-- The next frame is there when the other end is ahead. -/
theorem nextFrame_eq {side : Side} {n m : Nat}
    (hat : At x hpublic stores world₀ (s side) side n m)
    (hpeer : Exchanged x (s side.peer) side.peer m n) (hlistens : Listens (s side)) :
    s.nextFrame side = if n < m then some (x.frame n) else none := by
  have hstage := hat.stage
  unfold Listens at hlistens
  generalize (s side).await = await at hstage hlistens
  cases hstage with
  | receiving _ _ hn hturn =>
      have hwire : (s side.peer).wire =
          x.between side.peer 0 n ++ x.between side.peer n m := by
        rw [hpeer.wire_eq, x.between_append hat.exchanged.order]
      have hlen : (s side).received.length = (x.between side.peer 0 n).length := by
        rw [hat.exchanged.received_eq, List.length_map]
      unfold nextFrame
      rw [hwire, hlen, List.getElem?_append_right le_rfl, Nat.sub_self]
      by_cases hahead : n < m
      · rw [if_pos hahead, x.between_eq_cons _ hahead, if_pos hturn]
        rfl
      · rw [if_neg hahead, x.between_eq_nil (Nat.le_of_not_lt hahead)]
        rfl
  | _ => exact hlistens.elim

/-- An end goes on, and the other stays where it is. -/
theorem Inv.resume {pos : Side → Nat}
    (hat : ∀ side, At x hpublic stores world₀ (s side) side (pos side) (pos side.peer)) {side : Side}
    {event : Resumption} {n' : Nat} (hle : pos side ≤ n')
    (hown : At x hpublic stores world₀ ((s side).step lib (env side) (setup side) event) side n'
      (pos side.peer)) : Inv x hpublic stores world₀ (Meeting.resume lib env setup s side event) := by
  refine ⟨Function.update pos side n', Side.forall_of_peer side ?_ ?_⟩
  · simpa [Meeting.resume] using hown
  · have hpeer := hat side.peer
    rw [Side.peer_peer] at hpeer
    simpa [Meeting.resume] using hpeer.mono hle

/-- Where an end has not changed for the other, the same events make the ends go
on. -/
theorem ready_resume {side : Side} {event : Resumption}
    (halike : Alike (s side) ((s side).step lib (env side) (setup side) event)) (event' : Event) :
    Ready (resume lib env setup s side event) event' ↔ Ready s event' := by
  have hacts : ∀ other, Acts (resume lib env setup s side event other) ↔ Acts (s other) :=
    Side.forall_of_peer side (by simpa [resume] using halike.acts_iff) (by simp [resume])
  have hlistens : ∀ other, Listens (resume lib env setup s side event other) ↔ Listens (s other) :=
    Side.forall_of_peer side (by simpa [resume] using halike.listens_iff) (by simp [resume])
  have hnext : ∀ other, (resume lib env setup s side event).nextFrame other = s.nextFrame other :=
    Side.forall_of_peer side (by simp [resume, nextFrame, halike.received_eq])
      (by simp [resume, nextFrame, halike.wire_eq])
  cases event' with
  | completed other => exact hacts other
  | arrived other => simp only [Ready, hlistens, hnext]
  | others other store => exact .rfl

/-- **One step.**  It keeps the invariant; it leaves less to do, if it makes an
end go on, and otherwise changes nothing that matters to either end. -/
theorem Inv.step (h : Inv x hpublic stores world₀ s) (hprovisioned : Provisioned env stores x hpublic)
    {event : Event} (hallowed : Allowed stores event) :
    Inv x hpublic stores world₀ (Meeting.step lib env setup s event) ∧
      (Ready s event → rank (Meeting.step lib env setup s event) < rank s) ∧
      (¬Ready s event → rank (Meeting.step lib env setup s event) = rank s ∧
        ∀ event', Ready (Meeting.step lib env setup s event) event' ↔ Ready s event') := by
  have hs := h
  obtain ⟨pos, hat⟩ := h
  cases event with
  | completed side =>
      obtain ⟨n', hle, hown, hcase⟩ := at_completed hprovisioned (hat side)
      simp only [Meeting.step, Ready]
      rw [rank_resume, rank_eq s side]
      refine ⟨Inv.resume hat hle hown, fun hready => ?_, fun hidle => ?_⟩
      · obtain ⟨-, hless⟩ | ⟨hidle, -⟩ := hcase
        · omega
        · exact absurd hready hidle
      · obtain ⟨hready, -⟩ | ⟨-, halike⟩ := hcase
        · exact absurd hready hidle
        · exact ⟨by rw [halike.rank_eq], ready_resume halike⟩
  | others side store =>
      have hothers : At x hpublic stores world₀ ((s side).step lib (env side) (setup side)
          (.others store)) side (pos side) (pos side.peer) ∧
            Alike (s side) ((s side).step lib (env side) (setup side) (.others store)) :=
        at_others (hat side) hallowed
      obtain ⟨hown, halike⟩ := hothers
      simp only [Meeting.step, Ready]
      rw [rank_resume, rank_eq s side]
      exact ⟨Inv.resume hat le_rfl hown, False.elim, fun _ =>
        ⟨by rw [halike.rank_eq], ready_resume halike⟩⟩
  | arrived side =>
      have hpeer := hat side.peer
      rw [Side.peer_peer] at hpeer
      simp only [Meeting.step, Ready]
      cases hnext : s.nextFrame side with
      | none => exact ⟨hs, fun hready => absurd hready.2 (by simp), fun _ => ⟨rfl, fun _ => .rfl⟩⟩
      | some frame =>
          simp only
          by_cases hlistens : Listens (s side)
          · have heq := nextFrame_eq (hat side) hpeer.exchanged hlistens
            rw [hnext] at heq
            split_ifs at heq with hahead
            obtain rfl := Option.some.inj heq
            obtain ⟨n', hle, hown, hless⟩ := at_arrived hprovisioned (hat side) hlistens hahead
            refine ⟨Inv.resume hat hle hown, fun _ => ?_, fun hidle => absurd ⟨hlistens, rfl⟩ hidle⟩
            rw [rank_resume, rank_eq s side]
            omega
          · have hsame : Meeting.resume lib env setup s side (.message (.binary frame)) = s := by
              unfold Meeting.resume
              rw [step_deaf (hat side) hlistens, Function.update_eq_self]
            rw [hsame]
            exact ⟨hs, fun hready => absurd hready.1 hlistens, fun _ => ⟨rfl, fun _ => .rfl⟩⟩

/-- An end that neither acts nor listens has got through. -/
theorem At.cases {side : Side} {n m : Nat} (hat : At x hpublic stores world₀ (s side) side n m) :
    Acts (s side) ∨ (Listens (s side) ∧ n < 3 ∧ sender n = side.peer) ∨
      (¬(s side).Underway ∧ n = 3 ∧ rankOf (s side) = 0) := by
  have hstage := hat.stage
  unfold Acts Listens Coroutine.Underway rankOf
  generalize (s side).await = await at hstage
  cases hstage with
  | opening => exact .inl trivial
  | sending => exact .inl trivial
  | receiving _ _ hn hturn => exact .inr (.inl ⟨trivial, hn, hturn⟩)
  | returned => exact .inr (.inr ⟨id, rfl, rfl⟩)
  | handling => exact .inr (.inr ⟨id, rfl, rfl⟩)
  | handled => exact .inr (.inr ⟨id, rfl, rfl⟩)

/-- As long as something is left to do, some end can go on: both ends cannot wait
for each other. -/
theorem Inv.progress (h : Inv x hpublic stores world₀ s) (hpos : 0 < rank s) :
    ∃ event, event.Own ∧ Ready s event := by
  obtain ⟨pos, hat⟩ := h
  have hpeer : ∀ side, At x hpublic stores world₀ (s side.peer) side.peer (pos side.peer) (pos side) := by
    intro side
    have hat' := hat side.peer
    rwa [Side.peer_peer] at hat'
  -- an end that listens goes on when the other is ahead
  have hahead : ∀ side, Listens (s side) → pos side < pos side.peer →
      ∃ event, event.Own ∧ Ready s event := by
    intro side hlistens hlt
    refine ⟨.arrived side, trivial, hlistens, ?_⟩
    rw [nextFrame_eq (hat side) (hpeer side).exchanged hlistens, if_pos hlt]
    rfl
  have hacts : ∀ side, Acts (s side) →
      ∃ event, event.Own ∧ Ready s event :=
    fun side h => ⟨.completed side, trivial, h⟩
  obtain h | ⟨hlistens, hlt, hturn⟩ | ⟨-, hdone, hrank⟩ := (hat .initiator).cases
  · exact hacts _ h
  · obtain h' | ⟨hlistens', hlt', hturn'⟩ | ⟨-, hdone', -⟩ := (hat .responder).cases
    · exact hacts _ h'
    · obtain hless | heq | hmore := Nat.lt_trichotomy (pos .initiator) (pos .responder)
      · exact hahead .initiator hlistens hless
      · rw [heq, hturn'] at hturn
        cases hturn
      · exact hahead .responder hlistens' hmore
    · exact hahead .initiator hlistens (hlt.trans_eq hdone'.symm)
  · obtain h' | ⟨hlistens', hlt', -⟩ | ⟨-, -, hrank'⟩ := (hat .responder).cases
    · exact hacts _ h'
    · exact hahead .responder hlistens' (hlt'.trans_eq hdone.symm)
    · rw [rank, hrank, hrank'] at hpos
      exact absurd hpos (lt_irrefl 0)

theorem inv_start (h : Provisioned env stores x hpublic)
    (hstores : ∀ side, (world₀ side).knownPeers ∈ stores side) :
    Inv x hpublic stores world₀ (start lib env setup world₀) := by
  obtain ⟨tls, hconnect, hargs, -⟩ := h.connects
  obtain ⟨remoteAddress, hserve⟩ := h.serves
  have hinitiator : start lib env setup world₀ .initiator =
      ⟨world₀ .initiator, .opening, [], [], false⟩ := by
    simp only [start, Coroutine.start, hconnect, hargs]
  let called : Coroutine Conn Key T := ⟨world₀ .responder, .opening, [], [], true⟩
  have hresponder : start lib env setup world₀ .responder =
      called.handshake lib (env .responder) (setup .responder) := by
    simp only [start, Coroutine.start, hserve, called]
  have hexchanged : Exchanged x called .responder 0 0 :=
    ⟨fun k hk => absurd hk (Nat.not_lt_zero k), rfl, rfl⟩
  have hrole : (setup .responder).initiator = decide (Side.responder = .initiator) := by
    simp [Setup.initiator, hserve]
  obtain ⟨n, hat, -⟩ := at_handshake h hexchanged ⟨rfl, rfl, hstores .responder⟩ hrole
  refine ⟨fun side => if side = .initiator then 0 else n, Side.forall_of_peer .initiator ?_ ?_⟩
  · rw [hinitiator]
    exact ⟨.opening, ⟨fun k hk => absurd hk (Nat.not_lt_zero k), rfl, rfl⟩,
      fun _ => ⟨rfl, rfl, hstores .initiator⟩, fun hpast => absurd trivial hpast⟩
  · show At x hpublic stores world₀ (start lib env setup world₀ .responder) .responder n 0
    rw [hresponder]
    exact hat

end Invariant

end Meeting

end SecureWs
