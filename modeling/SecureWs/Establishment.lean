import SecureWs.Exchange
import SecureWs.Delivery
import SecureWs.Lib.Runs

/-!
# SecureWs.Establishment

From the handshake into the channel: two ends that both run
`_drive_handshake` over a connection that delivers in order, and each of which
sends and receives as soon as its own driver has returned.

* `step`: an end makes one pass of its driver's loop, sends its next message,
  or reads one frame on the channel;
* `Inv` is the invariant: each driver is the one of the ideal exchange after as
  many messages as its end has seen, and what lies behind the handshake frames
  in an inbox is what the other end's channel has sent;
* `hands_over`: the drivers return, with the right certificates and after
  exactly three frames, and every frame sent behind them is read.
-/

namespace SecureWs

open Python

variable {Conn Key T : Type} [Zero T] [LE T]

/-- What an end is doing: driving the handshake, or using the channel, or
raising what came out of the driver.  The inbox holds the frames on their way
to it. -/
inductive EndPhase (Conn Key T : Type) [Zero T] [LE T] where
  | driving (driver : Driver Conn) (inbox : List Bytes)
  | established (result : HandshakeResult Key) (peerCert : Bytes) (endpoint : Endpoint Key T)
  | failed (exc : PyError)

/-- One end: the arguments for its channel, what its driver wrote (each payload
with its frame) and took from the inbox, the messages still to send, and the
exceptions of `encrypt`. -/
structure End (Conn Key T : Type) [Zero T] [LE T] where
  replay : ReplayWindow
  rekey : RekeyPolicy T
  phase : EndPhase Conn Key T
  written : List (Bytes × Bytes)
  taken : List Bytes
  messages : List Bytes
  refused : List PyError

/-- Frames arrive. -/
def EndPhase.push (frames : List Bytes) : EndPhase Conn Key T → EndPhase Conn Key T
  | driving driver inbox => driving driver (inbox ++ frames)
  | established result peerCert p =>
      established result peerCert { p with inbox := p.inbox ++ frames }
  | failed exc => failed exc

abbrev Establishment (Conn Key T : Type) [Zero T] [LE T] := Side → End Conn Key T

namespace Establishment

/-- What happens: an end makes a pass of its driver's loop, calls `send` with
its next message, or reads a frame. -/
inductive Event where
  | drive (side : Side)
  | send (side : Side)
  | recv (side : Side)
  deriving DecidableEq, Repr

def start (hs : Side → NoiseXXHandshake Conn) (certs : Side → Bytes) (replay : Side → ReplayWindow)
    (rekey : Side → RekeyPolicy T) (messages : Side → List Bytes) : Establishment Conn Key T :=
  fun side => ⟨replay side, rekey side, .driving (.init (hs side) (certs side)) [], [], [],
    messages side, []⟩

/-- An end is in a new phase. -/
def enter (s : Establishment Conn Key T) (side : Side) (phase : EndPhase Conn Key T) :
    Establishment Conn Key T :=
  Function.update s side { s side with phase := phase }

def arrive (s : Establishment Conn Key T) (side : Side) (frames : List Bytes) :
    Establishment Conn Key T :=
  s.enter side ((s side).phase.push frames)

/-- One pass of the driver's loop. -/
def drive (lib : NoiseLibrary Conn Key) (s : Establishment Conn Key T) (side : Side) :
    Establishment Conn Key T :=
  match (s side).phase with
  | .driving driver inbox => match driver.iterate lib (inbox.head?.map .binary) with
      | .returned result peerCert => s.enter side (.established result peerCert
          ⟨SecureChannel.init result (s side).replay (s side).rekey, [], [], inbox, [], []⟩)
      | .raised exc => s.enter side (.failed exc)
      | .waiting => s
      | .wrote frame driver' =>
          arrive
            (Function.update s side
              { s side with
                phase := .driving driver' inbox
                written := (s side).written ++ [(driver.payload, frame)] })
            side.peer [frame]
      | .read driver' =>
          Function.update s side
            { s side with
              phase := .driving driver' inbox.tail
              taken := (s side).taken ++ inbox.take 1 }
  | _ => s

/-- One frame is read on the channel. -/
def recv (A : Aead Key) (s : Establishment Conn Key T) (side : Side) : Establishment Conn Key T :=
  match (s side).phase with
  | .established result peerCert p =>
      s.enter side (.established result peerCert (Delivery.deliver A p))
  | _ => s

section Step

variable [Sub T] [DecidableLE T]

def send (A : Aead Key) (s : Establishment Conn Key T) (side : Side) : Establishment Conn Key T :=
  match (s side).phase, (s side).messages with
  | .established result peerCert p, message :: messages =>
      match (SecureChannel.encrypt A (.bytesLike message)).run p.channel with
      | (.ok frames, c) =>
          arrive
            (Function.update s side
              { s side with
                phase := .established result peerCert
                  { p with
                    channel := c
                    encrypted := p.encrypted ++ [message]
                    sent := p.sent ++ frames }
                messages := messages })
            side.peer frames
      | (.error e, c) =>
          Function.update s side
            { s side with
              phase := .established result peerCert { p with channel := c }
              messages := messages
              refused := (s side).refused ++ [e] }
  | _, _ => s

def step (lib : NoiseLibrary Conn Key) (A : Aead Key) (s : Establishment Conn Key T) :
    Event → Establishment Conn Key T
  | .drive side => drive lib s side
  | .send side => send A s side
  | .recv side => recv A s side

end Step

/-! ## One direction of the channel -/

/-- A `Flow` whose sender, once something was refused, may have used up its
nonces: the last thing it said is then a REKEY that was never sent. -/
def Flows (A : Aead Key) (key : Key) (tx rx : Endpoint Key T) (refused : List PyError) : Prop :=
  ∃ c heard pending, Delivery.Flow A key { tx with channel := c } rx heard pending ∧
    (c = tx.channel ∨
      refused ≠ [] ∧ ∃ said, tx.channel.Sends A key said ∧ said.length = MAX_NONCE)

namespace Flows

variable {A : Aead Key} {key : Key} {tx tx' rx rx' : Endpoint Key T} {refused : List PyError}

/-- The sender does something else than send. -/
theorem tx_congr (h : Flows A key tx rx refused)
    (hsends : ∀ said, tx.channel.Sends A key said → tx'.channel.Sends A key said)
    (hsent : tx'.sent = tx.sent) (henc : tx'.encrypted = tx.encrypted) :
    Flows A key tx' rx refused := by
  obtain ⟨c, heard, pending, hflow, hcase⟩ := h
  obtain rfl | ⟨hrefused, said, hsaid, hlen⟩ := hcase
  · exact ⟨tx'.channel, heard, pending, hflow.tx_congr (hsends _ hflow.sends) hsent henc, .inl rfl⟩
  · exact ⟨c, heard, pending, hflow.tx_congr hflow.sends hsent henc,
      .inr ⟨hrefused, said, hsends said hsaid, hlen⟩⟩

/-- The receiver does something else than receive. -/
theorem rx_congr (h : Flows A key tx rx refused)
    (hrecv : rx'.channel.receiver = rx.channel.receiver) (hinbox : rx'.inbox = rx.inbox)
    (hres : rx'.results = rx.results) : Flows A key tx rx' refused := by
  obtain ⟨c, heard, pending, hflow, hcase⟩ := h
  exact ⟨c, heard, pending, hflow.rx_congr hrecv hinbox hres, hcase⟩

/-- The receiver reads the first frame of its inbox. -/
theorem deliver (h : Flows A key tx rx refused) (hA : A.Correct) (hover : A.Overhead AEAD_TAG_LEN)
    (hopen : rx.channel.closed = false) (hraised : rx.raised = []) :
    Flows A key tx (Delivery.deliver A rx) refused ∧
      (Delivery.deliver A rx).channel.closed = false ∧ (Delivery.deliver A rx).raised = [] := by
  obtain ⟨c, heard, pending, hflow, hcase⟩ := h
  obtain ⟨⟨heard', pending', hflow'⟩, hkept⟩ := hflow.deliver hA hover hopen hraised
  exact ⟨⟨c, heard', pending', hflow', hcase⟩, hkept⟩

variable [Sub T] [DecidableLE T] {message : Bytes} {c : SecureChannel Key T}

/-- The sender sends a message. -/
theorem say (h : Flows A key tx rx refused) {frames : List Bytes}
    (hrun : (SecureChannel.encrypt A (.bytesLike message)).run tx.channel = (.ok frames, c)) :
    Flows A key
      { tx with channel := c, encrypted := tx.encrypted ++ [message], sent := tx.sent ++ frames }
      { rx with inbox := rx.inbox ++ frames } refused ∧ frames.length ≤ 2 := by
  obtain ⟨c₀, heard, pending, hflow, hcase⟩ := h
  obtain rfl | ⟨hrefused, said, hsaid, hlen⟩ := hcase
  · obtain ⟨plaintext, hplaintext, -, hrun', hsends⟩ | ⟨e, c', hrun', -⟩ :=
      hflow.sends.encrypt (.bytesLike message)
    · rw [Arg.bytesLike.injEq] at hplaintext
      subst hplaintext
      rw [hrun, Prod.mk.injEq, Except.ok.injEq] at hrun'
      obtain ⟨rfl, rfl⟩ := hrun'
      refine ⟨⟨_, heard, _, hflow.say hsends (tx.channel.close_notMem_batch message) ⟨rfl, rfl⟩ rfl rfl
        (by simp), .inl rfl⟩, ?_⟩
      rw [length_frames, SecureChannel.length_batch]
      split <;> omega
    · rw [hrun] at hrun'
      cases hrun'
  · obtain ⟨plaintext, -, -, -, hsends⟩ | ⟨e, c', hrun', -⟩ := hsaid.encrypt (.bytesLike message)
    · have hle := hsends.length_le
      rw [List.length_append, SecureChannel.length_batch] at hle
      split at hle <;> omega
    · rw [hrun] at hrun'
      cases hrun'

/-- The sender refuses a message. -/
theorem refuse (h : Flows A key tx rx refused) {e : PyError}
    (hrun : (SecureChannel.encrypt A (.bytesLike message)).run tx.channel = (.error e, c)) :
    Flows A key { tx with channel := c } rx (refused ++ [e]) := by
  have hnew : refused ++ [e] ≠ [] := by simp
  obtain ⟨c₀, heard, pending, hflow, hcase⟩ := h
  have hsays : ∀ said, tx.channel.Sends A key said →
      ∃ new, (new = [] ∨ (said ++ new).length = MAX_NONCE) ∧ c.Sends A key (said ++ new) := by
    intro said hsaid
    obtain ⟨plaintext, -, -, hrun', -⟩ | ⟨e', c', hrun', ⟨new, -, hlen, hsends⟩, -⟩ :=
      hsaid.encrypt (.bytesLike message)
    · rw [hrun] at hrun'
      cases hrun'
    · rw [hrun, Prod.mk.injEq] at hrun'
      obtain ⟨-, rfl⟩ := hrun'
      exact ⟨new, hlen, hsends⟩
  obtain rfl | ⟨-, said, hsaid, hlen⟩ := hcase
  · obtain ⟨new, rfl | hfull, hsends⟩ := hsays _ hflow.sends
    · rw [List.append_nil] at hsends
      exact ⟨c, heard, pending, hflow.tx_congr hsends rfl rfl, .inl rfl⟩
    · exact ⟨tx.channel, heard, pending, hflow, .inr ⟨hnew, _, hsends, hfull⟩⟩
  · obtain ⟨new, -, hsends⟩ := hsays said hsaid
    have hle := hsends.length_le
    have hge : said.length ≤ (said ++ new).length := by simp
    exact ⟨c₀, heard, pending, hflow, .inr ⟨hnew, _, hsends, by omega⟩⟩

/-- As long as nothing was refused and there are nonces, a message that fits is
not refused. -/
theorem encrypt_ok (h : Flows A key tx rx []) (hopen : tx.channel.closed = false)
    (hlen : message.length ≤ 65519) (hcount : tx.sent.length < 2 ^ 64 - 2) :
    ∃ frames c, (SecureChannel.encrypt A (.bytesLike message)).run tx.channel = (.ok frames, c) := by
  obtain ⟨c, heard, pending, hflow, hcase⟩ := h
  obtain rfl : c = tx.channel := hcase.resolve_right fun h => h.1 rfl
  obtain ⟨plaintext, -, -, hrun, -⟩ | ⟨e, c', -, -, hcannot⟩ :=
    hflow.sends.encrypt (.bytesLike message)
  · exact ⟨_, _, hrun⟩
  · refine absurd ⟨hopen, message, rfl, hlen, ?_⟩ hcannot
    have hsent := hflow.sent_eq
    rw [hsent, length_frames] at hcount
    rw [hflow.sends.nonce_eq, SecureChannel.length_batch]
    simp only [MAX_NONCE]
    split <;> omega

end Flows

/-! ## The positions of the two ends -/

section Positions

variable {lib : NoiseLibrary Conn Key} {secret entropy certs : Side → Bytes} {prologue : Bytes}
  (x : IdealExchange lib secret entropy prologue (payloads certs))
  (replay : Side → ReplayWindow) (rekey : Side → RekeyPolicy T)

def result (side : Side) : HandshakeResult Key :=
  honestHandshake x.keys x.hash (fun side => lib.publicKey (secret side)) side

/-- An end on its channel, before its first frame. -/
def fresh (side : Side) : Endpoint Key T :=
  ⟨SecureChannel.init (result x side) (replay side) (rekey side), [], [], [], [], []⟩

/-- An end still in the handshake after `n` messages, when the other has seen
`m`: its inbox holds the handshake frames in between, and behind them what the
channel will read. -/
def Driving (u : End Conn Key T) (side : Side) (n m : Nat) (p : Endpoint Key T) : Prop :=
  n ≤ 3 ∧ u.phase = .driving (x.driver side n) (x.between side.peer n m ++ p.inbox) ∧
    p = { fresh x replay rekey side with inbox := p.inbox }

/-- An end that has left the handshake. -/
def Established (u : End Conn Key T) (side : Side) (n : Nat) (p : Endpoint Key T) : Prop :=
  n = 3 ∧ u.phase = .established (result x side) (certs side.peer) p

/-- An end after `n` messages, when the other has seen `m`. -/
structure At (u : End Conn Key T) (side : Side) (n m : Nat) (p : Endpoint Key T) : Prop where
  phase : Driving x replay rekey u side n m p ∨ Established x u side n p
  order : ∀ k < n, sender k = side.peer → k < m
  written_eq : u.written = x.wrote side n
  taken_eq : u.taken = x.between side.peer 0 n
  replay_eq : u.replay = replay side
  rekey_eq : u.rekey = rekey side

/-- It has sent nothing on its channel. -/
theorem Driving.sent_eq {x : IdealExchange lib secret entropy prologue (payloads certs)}
    {replay : Side → ReplayWindow} {rekey : Side → RekeyPolicy T} {u : End Conn Key T} {side : Side}
    {n m : Nat} {p : Endpoint Key T} (h : Driving x replay rekey u side n m p) : p.sent = [] := by
  rw [h.2.2]
  rfl

namespace At

variable {x replay rekey} {u : End Conn Key T} {side : Side} {n m : Nat} {p : Endpoint Key T}

/-- The driver returns. -/
theorem returns (h : At x replay rekey u side 3 m p) :
    At x replay rekey { u with phase := .established (result x side) (certs side.peer) p } side 3 m p :=
  ⟨.inr ⟨rfl, rfl⟩, h.order, h.written_eq, h.taken_eq, h.replay_eq, h.rekey_eq⟩

/-- The driver writes the next message. -/
theorem writes (h : At x replay rekey u side n m p) (hdriving : Driving x replay rekey u side n m p)
    (hn : n < 3) (hturn : sender n = side) : At x replay rekey
      { u with
        phase := .driving (x.driver side (n + 1)) (x.between side.peer n m ++ p.inbox)
        written := u.written ++ [(payloads certs n, x.frame n)] } side (n + 1) m p := by
  have hnot : sender n ≠ side.peer := by simp [hturn]
  constructor
  · exact .inl ⟨hn, by rw [x.between_succ_left hnot], hdriving.2.2⟩
  · intro k hk hsender
    have hne : k ≠ n := fun heq => hnot (heq ▸ hsender)
    exact h.order k (by omega) hsender
  · rw [x.wrote_succ, if_pos hturn, h.written_eq]
  · rw [x.between_succ_right hnot]
    exact h.taken_eq
  · exact h.replay_eq
  · exact h.rekey_eq

/-- The driver reads the next message. -/
theorem reads (h : At x replay rekey u side n m p) (hdriving : Driving x replay rekey u side n m p)
    (hn : n < 3) (hturn : sender n = side.peer) (hm : n < m) : At x replay rekey
      { u with
        phase := .driving (x.driver side (n + 1)) (x.between side.peer (n + 1) m ++ p.inbox)
        taken := u.taken ++ [x.frame n] } side (n + 1) m p := by
  constructor
  · exact .inl ⟨hn, rfl, hdriving.2.2⟩
  · intro k hk hsender
    obtain hlt | rfl := Nat.lt_succ_iff_lt_or_eq.mp hk
    · exact h.order k hlt hsender
    · exact hm
  · rw [x.wrote_succ, if_neg (by simp [hturn]), List.append_nil, h.written_eq]
  · rw [x.between_succ _ (Nat.zero_le n), if_pos hturn, h.taken_eq]
  · exact h.replay_eq
  · exact h.rekey_eq

/-- The other end has read a message. -/
theorem peer_reads (h : At x replay rekey u side n m p) (hturn : sender m = side) :
    At x replay rekey u side n (m + 1) p := by
  refine ⟨?_, fun k hk hsender => Nat.lt_succ_of_lt (h.order k hk hsender), h.written_eq, h.taken_eq,
    h.replay_eq, h.rekey_eq⟩
  obtain ⟨hle, hphase, hfresh⟩ | hestablished := h.phase
  · exact .inl ⟨hle, by rw [hphase, x.between_succ_right (by simp [hturn])], hfresh⟩
  · exact .inr hestablished

/-- The other end has written a message, and the frame arrives. -/
theorem peer_writes (h : At x replay rekey u side n m p) (hturn : sender m = side.peer) (hm : m < 3)
    (hle : n ≤ m) (hinbox : p.inbox = []) :
    At x replay rekey { u with phase := u.phase.push [x.frame m] } side n (m + 1) p := by
  refine ⟨?_, fun k hk hsender => Nat.lt_succ_of_lt (h.order k hk hsender), h.written_eq, h.taken_eq,
    h.replay_eq, h.rekey_eq⟩
  obtain ⟨hn, hphase, hfresh⟩ | ⟨hn, -⟩ := h.phase
  · refine .inl ⟨hn, ?_, hfresh⟩
    show u.phase.push _ = _
    rw [hphase, x.between_succ _ hle, if_pos hturn, hinbox, List.append_nil, List.append_nil]
    rfl
  · omega

/-- Frames of the other end's channel arrive. -/
theorem push (h : At x replay rekey u side n m p) (frames : List Bytes) :
    At x replay rekey { u with phase := u.phase.push frames } side n m
      { p with inbox := p.inbox ++ frames } := by
  refine ⟨?_, h.order, h.written_eq, h.taken_eq, h.replay_eq, h.rekey_eq⟩
  obtain ⟨hn, hphase, hfresh⟩ | ⟨hn, hphase⟩ := h.phase
  · refine .inl ⟨hn, ?_, ?_⟩
    · show u.phase.push frames = _
      rw [hphase, ← List.append_assoc]
      rfl
    · rw [hfresh]
  · refine .inr ⟨hn, ?_⟩
    show u.phase.push frames = _
    rw [hphase]
    rfl

/-- An end on its channel goes on. -/
theorem goes_on (h : At x replay rekey u side n m p) (hestablished : Established x u side n p)
    (q : Endpoint Key T) (messages : List Bytes) (refused : List PyError) : At x replay rekey
      { u with
        phase := .established (result x side) (certs side.peer) q
        messages := messages
        refused := refused } side n m q :=
  ⟨.inr ⟨hestablished.1, rfl⟩, h.order, h.written_eq, h.taken_eq, h.replay_eq, h.rekey_eq⟩

end At

/-! ## A pass of the driver, at each position -/

section Drive

variable {x} {s : Establishment Conn Key T} {side : Side} {n : Nat} {inbox : List Bytes}

/-- After three messages the driver returns. -/
theorem drive_returns (hphase : (s side).phase = .driving (x.driver side 3) inbox) :
    drive lib s side = s.enter side (.established (result x side) (certs side.peer)
      ⟨SecureChannel.init (result x side) (s side).replay (s side).rekey, [], [], inbox, [], []⟩) := by
  simp only [drive, hphase, IdealExchange.iterate_returns]
  rfl

/-- At its turn it writes the next frame. -/
theorem drive_writes (hphase : (s side).phase = .driving (x.driver side n) inbox) (hn : n < 3)
    (hturn : sender n = side) : drive lib s side =
      arrive
        (Function.update s side
          { s side with
            phase := .driving (x.driver side (n + 1)) inbox
            written := (s side).written ++ [(payloads certs n, x.frame n)] })
        side.peer [x.frame n] := by
  subst hturn
  simp only [drive, hphase, IdealExchange.iterate_writes hn, IdealExchange.payload_driver hn]

/-- At the turn of the other it reads the next frame, if it has arrived. -/
theorem drive_reads (hphase : (s side).phase = .driving (x.driver side n) (x.frame n :: inbox))
    (hn : n < 3) (hturn : sender n = side.peer) : drive lib s side =
      Function.update s side
        { s side with
          phase := .driving (x.driver side (n + 1)) inbox
          taken := (s side).taken ++ [x.frame n] } := by
  have hside : (sender n).peer = side := by rw [hturn, Side.peer_peer]
  subst hside
  simp only [drive, hphase, List.head?_cons, Option.map_some, IdealExchange.iterate_reads hn]
  rfl

/-- It waits if it has not. -/
theorem drive_waits (hphase : (s side).phase = .driving (x.driver side n) []) (hn : n < 3)
    (hturn : sender n ≠ side) : drive lib s side = s := by
  simp only [drive, hphase, List.head?_nil, Option.map_none, IdealExchange.iterate_waits hn hturn]

/-- Once it has returned, there is nothing to drive. -/
theorem drive_established {p : Endpoint Key T} (h : Established x (s side) side n p) :
    drive lib s side = s := by
  simp only [drive, h.2]

end Drive

end Positions

/-! ## What is left to do -/

/-- What an end has left: a pass that writes puts one frame into the other's
inbox, and a message at most two. -/
def rankOf (u : End Conn Key T) : Nat :=
  3 * u.messages.length + match u.phase with
    | .driving driver inbox => 2 * (4 - driver.hs.step) + inbox.length
    | .established _ _ p => p.inbox.length
    | .failed _ => 0

/-- What both ends have left. -/
def rank (s : Establishment Conn Key T) : Nat := rankOf (s .initiator) + rankOf (s .responder)

/-- The work of both ends, from the point of view of either. -/
theorem rank_eq (s : Establishment Conn Key T) (side : Side) :
    rank s = rankOf (s side) + rankOf (s side.peer) := by
  cases side with
  | initiator => rfl
  | responder => exact Nat.add_comm _ _

/-- A step of one end changes the work of that end. -/
theorem rank_update (s : Establishment Conn Key T) (side : Side) (u : End Conn Key T) :
    rank (Function.update s side u) = rankOf u + rankOf (s side.peer) := by
  simp [rank_eq _ side]

/-- A step that also sends frames changes the work of both. -/
theorem rank_arrive (s : Establishment Conn Key T) (side : Side) (u : End Conn Key T)
    (frames : List Bytes) : rank (arrive (Function.update s side u) side.peer frames) =
      rankOf u + rankOf { s side.peer with phase := (s side.peer).phase.push frames } := by
  simp [rank_eq _ side, arrive, enter]

/-- An arriving frame counts one. -/
theorem rankOf_push_le (u : End Conn Key T) (frames : List Bytes) :
    rankOf { u with phase := u.phase.push frames } ≤ rankOf u + frames.length := by
  unfold rankOf
  cases u.phase with
  | driving driver inbox =>
      simp only [EndPhase.push, List.length_append]
      omega
  | established result peerCert p =>
      simp only [EndPhase.push, List.length_append]
      omega
  | failed exc => exact Nat.le_add_right _ _

/-! ## The invariant -/

/-- Messages that `encrypt` accepts, and not too many of them. -/
def Fits (messages : List Bytes) : Prop :=
  (∀ message ∈ messages, message.length ≤ MAX_PLAINTEXT) ∧ 2 * messages.length < MAX_NONCE

/-- What holds of the two channels, where `messages` are what the ends had to
send at first. -/
structure Apps (A : Aead Key) (keys : Side → Key) (messages : Side → List Bytes)
    (s : Establishment Conn Key T) (e : Side → Endpoint Key T) : Prop where
  flows : ∀ side : Side, Flows A (keys side) (e side) (e side.peer) (s side).refused
  isOpen : ∀ side, (e side).channel.closed = false
  raised : ∀ side, (e side).raised = []
  sent_eq : ∀ side, (s side).refused = [] → (e side).encrypted ++ (s side).messages = messages side
  count : ∀ side,
    (e side).sent.length + 2 * (s side).messages.length ≤ 2 * (messages side).length
  accepted : ∀ side, Fits (messages side) → (s side).refused = []

/-- What is said of the channels depends on the messages left and refused. -/
theorem Apps.congr {A : Aead Key} {keys : Side → Key} {messages : Side → List Bytes}
    {s s' : Establishment Conn Key T} {e : Side → Endpoint Key T} (h : Apps A keys messages s e)
    (hsame : ∀ side, (s' side).messages = (s side).messages ∧ (s' side).refused = (s side).refused) :
    Apps A keys messages s' e where
  flows side := (hsame side).2 ▸ h.flows side
  isOpen := h.isOpen
  raised := h.raised
  sent_eq side := by
    rw [(hsame side).1, (hsame side).2]
    exact h.sent_eq side
  count side := by
    rw [(hsame side).1]
    exact h.count side
  accepted side := by
    rw [(hsame side).2]
    exact h.accepted side

/-- What has not been sent is not on its way. -/
theorem Flows.inbox_nil {A : Aead Key} {key : Key} {tx rx : Endpoint Key T} {refused : List PyError}
    (h : Flows A key tx rx refused) (hsent : tx.sent = []) : rx.inbox = [] := by
  obtain ⟨c, heard, pending, hflow, -⟩ := h
  have hinbox := hflow.delivered.1
  simpa [hsent] using hinbox

section Invariant

variable {lib : NoiseLibrary Conn Key} {secret entropy certs : Side → Bytes} {prologue : Bytes}
  (x : IdealExchange lib secret entropy prologue (payloads certs)) (A : Aead Key)
  (replay : Side → ReplayWindow) (rekey : Side → RekeyPolicy T) (messages : Side → List Bytes)

def Inv (s : Establishment Conn Key T) : Prop :=
  ∃ (pos : Side → Nat) (e : Side → Endpoint Key T),
    (∀ side, At x replay rekey (s side) side (pos side) (pos side.peer) (e side)) ∧
      Apps A x.keys messages s e

variable {x A replay rekey messages} {s : Establishment Conn Key T}

/-- A step that changes one end, and hands frames to the other, keeps the
invariant of the positions. -/
theorem At.arrive {pos : Side → Nat} {e : Side → Endpoint Key T} {side : Side} {u : End Conn Key T}
    {frames : List Bytes} {n : Nat} {p q : Endpoint Key T}
    (hself : At x replay rekey u side n (pos side.peer) p)
    (hpeer : At x replay rekey { s side.peer with phase := (s side.peer).phase.push frames } side.peer
      (pos side.peer) n q) :
    ∀ other, At x replay rekey (Establishment.arrive (Function.update s side u) side.peer frames other) other
      (Function.update pos side n other) (Function.update pos side n other.peer)
      (Function.update (Function.update e side p) side.peer q other) := by
  refine Side.forall_of_peer side ?_ ?_
  · simpa [Establishment.arrive, enter] using hself
  · simpa [Establishment.arrive, enter] using hpeer

/-- A step that changes one end only keeps the invariant of the positions. -/
theorem At.update {pos : Side → Nat} {e : Side → Endpoint Key T} {side : Side} {u : End Conn Key T}
    {n : Nat} {p : Endpoint Key T} (hself : At x replay rekey u side n (pos side.peer) p)
    (hpeer : At x replay rekey (s side.peer) side.peer (pos side.peer) n (e side.peer)) :
    ∀ other, At x replay rekey (Function.update s side u other) other (Function.update pos side n other)
      (Function.update pos side n other.peer) (Function.update e side p other) := by
  refine Side.forall_of_peer side ?_ ?_
  · simpa using hself
  · simpa using hpeer

/-- A pass of the driver does something and keeps the invariant, or the driver
has returned, or it waits for an end that is not ahead. -/
theorem drive_cases {pos : Side → Nat} {e : Side → Endpoint Key T}
    (hat : ∀ side, At x replay rekey (s side) side (pos side) (pos side.peer) (e side))
    (happs : Apps A x.keys messages s e) (side : Side) :
    (Inv x A replay rekey messages (drive lib s side) ∧ rank (drive lib s side) < rank s) ∨
      (drive lib s side = s ∧ (Established x (s side) side (pos side) (e side) ∨
        pos side < 3 ∧ sender (pos side) = side.peer ∧ pos side.peer ≤ pos side)) := by
  have hown := hat side
  have hpeer := hat side.peer
  rw [Side.peer_peer] at hpeer
  obtain hdriving | hestablished := hown.phase
  · obtain ⟨hle, hphase, hfresh⟩ := id hdriving
    have hquiet : (e side.peer).inbox = [] := (happs.flows side).inbox_nil hdriving.sent_eq
    have hsame : Function.update (Function.update e side (e side)) side.peer (e side.peer) = e := by
      simp
    have hsame' : Function.update e side (e side) = e := by simp
    obtain hlt | heq := hle.lt_or_eq
    · by_cases hturn : sender (pos side) = side
      · -- it writes: the other end cannot be ahead
        have hbehind : pos side.peer ≤ pos side := by
          by_contra hahead
          have hloop := hpeer.order (pos side) (by omega) (by rwa [Side.peer_peer])
          omega
        rw [drive_writes hphase hlt hturn]
        have hat' := At.arrive (e := e) (hown.writes hdriving hlt hturn)
          (hpeer.peer_writes (by rwa [Side.peer_peer]) hlt hbehind hquiet)
        rw [hsame] at hat'
        refine .inl ⟨⟨_, e, hat', happs.congr (Side.forall_of_peer side ?_ ?_)⟩, ?_⟩
        · simp [Establishment.arrive, enter]
        · simp [Establishment.arrive, enter]
        · have hpush := rankOf_push_le (s side.peer) [x.frame (pos side)]
          rw [rank_arrive, rank_eq s side]
          simp only [rankOf, hphase, IdealExchange.driver, List.length_singleton] at hpush ⊢
          omega
      · have hturn' : sender (pos side) = side.peer := by
          revert hturn
          cases sender (pos side) <;> cases side <;> simp [Side.peer]
        by_cases hahead : pos side < pos side.peer
        · -- it reads
          have hqueue : x.between side.peer (pos side) (pos side.peer) ++ (e side).inbox =
              x.frame (pos side) :: (x.between side.peer (pos side + 1) (pos side.peer) ++
                (e side).inbox) := by
            rw [x.between_eq_cons _ hahead, if_pos hturn']
            rfl
          rw [hqueue] at hphase
          rw [drive_reads hphase hlt hturn']
          have hat' := At.update (hown.reads hdriving hlt hturn' hahead) (hpeer.peer_reads hturn')
          rw [hsame'] at hat'
          refine .inl ⟨⟨_, e, hat', happs.congr (Side.forall_of_peer side ?_ ?_)⟩, ?_⟩
          · simp
          · simp
          · rw [rank_update, rank_eq s side]
            simp only [rankOf, hphase, IdealExchange.driver, List.length_cons]
            omega
        · -- it waits: nothing has been sent to it
          have hinbox : (e side).inbox = [] := by
            have hback := happs.flows side.peer
            rw [Side.peer_peer] at hback
            obtain hdriving' | hestablished' := hpeer.phase
            · exact hback.inbox_nil hdriving'.sent_eq
            · have hpos := hestablished'.1
              omega
          rw [x.between_eq_nil (by omega), hinbox, List.append_nil] at hphase
          exact .inr ⟨drive_waits hphase hlt hturn, .inr ⟨hlt, hturn', by omega⟩⟩
    · -- it returns: its channel is as fresh as it was promised
      have hpast : pos side.peer ≤ 3 := by
        obtain hdriving' | hestablished' := hpeer.phase
        · exact hdriving'.1
        · exact hestablished'.1.le
      have hendpoint : (⟨SecureChannel.init (result x side) (s side).replay (s side).rekey, [], [],
          (e side).inbox, [], []⟩ : Endpoint Key T) = e side := by
        rw [hown.replay_eq, hown.rekey_eq, hfresh]
        rfl
      rw [heq] at hphase hown
      rw [x.between_eq_nil hpast, List.nil_append] at hphase
      rw [drive_returns hphase, hendpoint]
      have hat' := At.update hown.returns (heq ▸ hpeer)
      rw [hsame', ← heq, Function.update_eq_self] at hat'
      refine .inl ⟨⟨pos, e, hat', happs.congr (Side.forall_of_peer side ?_ ?_)⟩, ?_⟩
      · simp [enter]
      · simp [enter]
      · rw [enter, rank_update, rank_eq s side]
        simp only [rankOf, hphase, IdealExchange.driver]
        omega
  · exact .inr ⟨drive_established hestablished, .inl hestablished⟩

/-- A pass of the driver keeps the invariant, and does something or nothing. -/
theorem Inv.drive (h : Inv x A replay rekey messages s) (side : Side) :
    Inv x A replay rekey messages (drive lib s side) ∧
      (Establishment.drive lib s side = s ∨ rank (Establishment.drive lib s side) < rank s) := by
  obtain ⟨pos, e, hat, happs⟩ := id h
  obtain ⟨hinv, hless⟩ | ⟨hsame, -⟩ := drive_cases hat happs side
  · exact ⟨hinv, .inr hless⟩
  · rw [hsame]
    exact ⟨h, .inl rfl⟩

/-- The channels, when an end has read a frame. -/
theorem Apps.hears {keys : Side → Key} {e : Side → Endpoint Key T} (h : Apps A keys messages s e)
    (hA : A.Correct) (hover : A.Overhead AEAD_TAG_LEN) {side : Side} {u : End Conn Key T}
    (hmessages : u.messages = (s side).messages) (hrefused : u.refused = (s side).refused) :
    Apps A keys messages (Function.update s side u)
      (Function.update e side (Delivery.deliver A (e side))) := by
  obtain ⟨-, hsent, hencrypted, hsends⟩ := Delivery.deliver_spec A (e side)
  have hback := h.flows side.peer
  rw [Side.peer_peer] at hback
  obtain ⟨hin, hopen, hraised⟩ := hback.deliver hA hover (h.isOpen side) (h.raised side)
  have hout := (h.flows side).tx_congr (hsends _) hsent hencrypted
  constructor
  · exact Side.forall_of_peer side (by simpa [hrefused] using hout) (by simpa using hin)
  · exact Side.forall_of_peer side (by simpa using hopen) (by simpa using h.isOpen side.peer)
  · exact Side.forall_of_peer side (by simpa using hraised) (by simpa using h.raised side.peer)
  · exact Side.forall_of_peer side
      (by simpa [hencrypted, hmessages, hrefused] using h.sent_eq side)
      (by simpa using h.sent_eq side.peer)
  · exact Side.forall_of_peer side (by simpa [hsent, hmessages] using h.count side)
      (by simpa using h.count side.peer)
  · exact Side.forall_of_peer side (by simpa [hrefused] using h.accepted side)
      (by simpa using h.accepted side.peer)

/-- Reading a frame keeps the invariant, and does something unless the end has
no frame to read. -/
theorem Inv.recv (h : Inv x A replay rekey messages s) (hA : A.Correct)
    (hover : A.Overhead AEAD_TAG_LEN) (side : Side) :
    Inv x A replay rekey messages (recv A s side) ∧
      (Establishment.recv A s side = s ∧
          (∀ r cert p, (s side).phase = .established r cert p → p.inbox = []) ∨
        rank (Establishment.recv A s side) < rank s) := by
  have hs := h
  obtain ⟨pos, e, hat, happs⟩ := h
  have hown := hat side
  have hpeer := hat side.peer
  rw [Side.peer_peer] at hpeer
  obtain ⟨-, hphase, -⟩ | hestablished := hown.phase
  · have hsame : Establishment.recv A s side = s := by simp only [Establishment.recv, hphase]
    rw [hsame]
    exact ⟨hs, .inl ⟨rfl, by simp [hphase]⟩⟩
  · have hphase := hestablished.2
    have hrecv : Establishment.recv A s side =
        s.enter side (.established (result x side) (certs side.peer) (Delivery.deliver A (e side))) := by
      simp only [Establishment.recv, hphase]
    obtain ⟨hinbox, -⟩ := Delivery.deliver_spec A (e side)
    rw [hrecv]
    have hat' := At.update (hown.goes_on hestablished (Delivery.deliver A (e side))
      (s side).messages (s side).refused) hpeer
    rw [Function.update_eq_self] at hat'
    refine ⟨⟨pos, _, hat', happs.hears hA hover rfl rfl⟩, ?_⟩
    cases hempty : (e side).inbox with
    | nil =>
        have hidle : Delivery.deliver A (e side) = e side := by simp [Delivery.deliver, hempty]
        refine .inl ⟨?_, by simp [hphase, hempty]⟩
        rw [hidle, ← hphase]
        exact Function.update_eq_self side s
    | cons wire inbox =>
        rw [enter, rank_update, rank_eq s side]
        simp only [rankOf, hphase, hinbox, hempty, List.tail_cons, List.length_cons]
        exact .inr (by omega)

variable [Sub T] [DecidableLE T]

/-- The channels, when an end has sent a message. -/
theorem Apps.says {keys : Side → Key} {e : Side → Endpoint Key T} (h : Apps A keys messages s e)
    {side : Side} {message : Bytes} {rest frames : List Bytes} {c : SecureChannel Key T}
    (hmessages : (s side).messages = message :: rest)
    (hrun : (SecureChannel.encrypt A (.bytesLike message)).run (e side).channel = (.ok frames, c)) :
    Apps A keys messages (Function.update s side { s side with messages := rest })
        (Function.update
          (Function.update e side
            { e side with
              channel := c
              encrypted := (e side).encrypted ++ [message]
              sent := (e side).sent ++ frames })
          side.peer { e side.peer with inbox := (e side.peer).inbox ++ frames }) ∧
      frames.length ≤ 2 := by
  have hkeep := SecureChannel.encrypt_keeps_receiver A (.bytesLike message) (e side).channel
  have hopen := SecureChannel.encrypt_keeps_closed A (.bytesLike message) (e side).channel
  rw [hrun, h.isOpen side] at hopen
  rw [hrun] at hkeep
  obtain ⟨hout, hframes⟩ := (h.flows side).say hrun
  have hback := h.flows side.peer
  rw [Side.peer_peer] at hback
  have hin : Flows A (keys side.peer) { e side.peer with inbox := (e side.peer).inbox ++ frames }
      { e side with
        channel := c
        encrypted := (e side).encrypted ++ [message]
        sent := (e side).sent ++ frames } (s side.peer).refused :=
    Flows.tx_congr (hback.rx_congr hkeep rfl rfl) (fun _ hsaid => hsaid) rfl rfl
  have hsent := h.sent_eq side
  have hcount := h.count side
  rw [hmessages] at hsent hcount
  refine ⟨⟨?_, ?_, ?_, ?_, ?_, ?_⟩, hframes⟩
  · exact Side.forall_of_peer side (by simpa using hout) (by simpa using hin)
  · exact Side.forall_of_peer side (by simpa using hopen) (by simpa using h.isOpen side.peer)
  · exact Side.forall_of_peer side (by simpa using h.raised side) (by simpa using h.raised side.peer)
  · exact Side.forall_of_peer side (by simpa using hsent) (by simpa using h.sent_eq side.peer)
  · refine Side.forall_of_peer side ?_ (by simpa using h.count side.peer)
    simp only [Side.ne_peer, ne_eq, not_false_eq_true, Function.update_of_ne, Function.update_self,
      List.length_append, List.length_cons] at hcount ⊢
    omega
  · exact Side.forall_of_peer side (by simpa using h.accepted side)
      (by simpa using h.accepted side.peer)

/-- The channels, when a message was refused. -/
theorem Apps.refuses {keys : Side → Key} {e : Side → Endpoint Key T} (h : Apps A keys messages s e)
    {side : Side} {message : Bytes} {rest : List Bytes} {exc : PyError} {c : SecureChannel Key T}
    (hmessages : (s side).messages = message :: rest)
    (hrun : (SecureChannel.encrypt A (.bytesLike message)).run (e side).channel = (.error exc, c)) :
    Apps A keys messages
      (Function.update s side
        { s side with messages := rest, refused := (s side).refused ++ [exc] })
      (Function.update e side { e side with channel := c }) := by
  have hkeep := SecureChannel.encrypt_keeps_receiver A (.bytesLike message) (e side).channel
  have hopen := SecureChannel.encrypt_keeps_closed A (.bytesLike message) (e side).channel
  rw [hrun, h.isOpen side] at hopen
  rw [hrun] at hkeep
  have hout := (h.flows side).refuse hrun
  have hback := h.flows side.peer
  rw [Side.peer_peer] at hback
  have hin : Flows A (keys side.peer) (e side.peer) { e side with channel := c }
      (s side.peer).refused := hback.rx_congr hkeep rfl rfl
  have hsent := h.sent_eq side
  have hcount := h.count side
  rw [hmessages] at hsent hcount
  -- no message that fits is refused
  have hfull : ¬Fits (messages side) := by
    intro hfits
    have hnone := h.accepted side hfits
    have hflows := h.flows side
    rw [hnone] at hflows
    have hmem : message ∈ messages side := by
      rw [← hsent hnone]
      simp
    have hshort := hfits.2
    rw [List.length_cons] at hcount
    obtain ⟨frames, c', hrun'⟩ := hflows.encrypt_ok (h.isOpen side) (hfits.1 _ hmem)
      (by simp only [MAX_NONCE] at hshort; omega)
    rw [hrun] at hrun'
    cases hrun'
  constructor
  · exact Side.forall_of_peer side (by simpa using hout) (by simpa using hin)
  · exact Side.forall_of_peer side (by simpa using hopen) (by simpa using h.isOpen side.peer)
  · exact Side.forall_of_peer side (by simpa using h.raised side) (by simpa using h.raised side.peer)
  · exact Side.forall_of_peer side (by simp) (by simpa using h.sent_eq side.peer)
  · refine Side.forall_of_peer side ?_ (by simpa using h.count side.peer)
    simp only [Function.update_self, List.length_cons] at hcount ⊢
    omega
  · exact Side.forall_of_peer side (fun hfits => absurd hfits hfull)
      (by simpa using h.accepted side.peer)

/-- Sending a message keeps the invariant, and does something unless the end
has none to send. -/
theorem Inv.send (h : Inv x A replay rekey messages s) (side : Side) :
    Inv x A replay rekey messages (send A s side) ∧
      (Establishment.send A s side = s ∧
          (∀ r cert p, (s side).phase = .established r cert p → (s side).messages = []) ∨
        rank (Establishment.send A s side) < rank s) := by
  have hs := h
  obtain ⟨pos, e, hat, happs⟩ := h
  have hown := hat side
  have hpeer := hat side.peer
  rw [Side.peer_peer] at hpeer
  obtain ⟨-, hphase, -⟩ | hestablished := hown.phase
  · have hsame : Establishment.send A s side = s := by simp only [Establishment.send, hphase]
    rw [hsame]
    exact ⟨hs, .inl ⟨rfl, by simp [hphase]⟩⟩
  have hphase := hestablished.2
  cases hmessages : (s side).messages with
  | nil =>
      have hsame : Establishment.send A s side = s := by
        simp only [Establishment.send, hphase, hmessages]
      rw [hsame]
      exact ⟨hs, .inl ⟨rfl, fun _ _ _ _ => rfl⟩⟩
  | cons message rest =>
      cases hrun : (SecureChannel.encrypt A (.bytesLike message)).run (e side).channel with
      | mk r c => cases r with
        | ok frames =>
            obtain ⟨happs', hframes⟩ := happs.says hmessages hrun
            generalize hp : ({ e side with
              channel := c
              encrypted := (e side).encrypted ++ [message]
              sent := (e side).sent ++ frames } : Endpoint Key T) = p at happs'
            have hinbox : p.inbox = (e side).inbox := by rw [← hp]
            have hsend : Establishment.send A s side =
                arrive
                  (Function.update s side
                    { s side with
                      phase := .established (result x side) (certs side.peer) p
                      messages := rest })
                  side.peer frames := by
              simp only [Establishment.send, hphase, hmessages, hrun, hp]
            have hat' := At.arrive (e := e)
              (hown.goes_on hestablished p rest (s side).refused) (hpeer.push frames)
            rw [Function.update_eq_self] at hat'
            rw [hsend]
            refine ⟨⟨pos, _, hat', happs'.congr (Side.forall_of_peer side ?_ ?_)⟩, .inr ?_⟩
            · simp [arrive, enter]
            · simp [arrive, enter]
            · have hpush := rankOf_push_le (s side.peer) frames
              rw [rank_arrive, rank_eq s side]
              simp only [rankOf, hphase, hmessages, List.length_cons, hinbox] at hpush ⊢
              omega
        | error exc =>
            have happs' := happs.refuses hmessages hrun
            have hsend : Establishment.send A s side =
                Function.update s side
                  { s side with
                    phase := .established (result x side) (certs side.peer)
                      { e side with channel := c }
                    messages := rest
                    refused := (s side).refused ++ [exc] } := by
              simp only [Establishment.send, hphase, hmessages, hrun]
            have hat' := At.update
              (hown.goes_on hestablished { e side with channel := c } rest
                ((s side).refused ++ [exc])) hpeer
            rw [Function.update_eq_self] at hat'
            rw [hsend]
            refine ⟨⟨pos, _, hat', happs'.congr (Side.forall_of_peer side ?_ ?_)⟩, .inr ?_⟩
            · simp
            · simp
            · rw [rank_update, rank_eq s side]
              simp only [rankOf, hphase, hmessages, List.length_cons]
              omega

/-- One step keeps the invariant, and does something or nothing. -/
theorem Inv.step (h : Inv x A replay rekey messages s) (hA : A.Correct)
    (hover : A.Overhead AEAD_TAG_LEN) (event : Event) :
    Inv x A replay rekey messages (step lib A s event) ∧
      (Establishment.step lib A s event = s ∨ rank (Establishment.step lib A s event) < rank s) := by
  cases event with
  | drive side => exact h.drive side
  | send side => exact ⟨(h.send side).1, (h.send side).2.imp_left And.left⟩
  | recv side => exact ⟨(h.recv hA hover side).1, (h.recv hA hover side).2.imp_left And.left⟩

/-- As long as something is left, some step does something: an end that waits
in the handshake waits for one that does not. -/
theorem Inv.progress (h : Inv x A replay rekey messages s) (hA : A.Correct)
    (hover : A.Overhead AEAD_TAG_LEN) (hrank : 0 < rank s) :
    ∃ event, rank (Establishment.step lib A s event) < rank s := by
  by_contra hstuck
  simp only [not_exists] at hstuck
  obtain ⟨pos, e, hat, happs⟩ := id h
  have hdrive : ∀ side, Established x (s side) side (pos side) (e side) := by
    intro side
    obtain ⟨-, hless⟩ | ⟨-, hcase⟩ := drive_cases hat happs side
    · exact absurd hless (hstuck (.drive side))
    obtain ⟨-, hless⟩ | ⟨-, hcase'⟩ := drive_cases hat happs side.peer
    · exact absurd hless (hstuck (.drive side.peer))
    obtain hestablished | ⟨hlt, hturn, hle⟩ := hcase
    · exact hestablished
    obtain hestablished' | ⟨hlt', hturn', hle'⟩ := hcase'
    · have hpos := hestablished'.1
      omega
    · -- both wait for the same message
      rw [Side.peer_peer] at hturn' hle'
      have hpos : pos side = pos side.peer := by omega
      rw [hpos, hturn'] at hturn
      exact absurd hturn (Side.ne_peer side)
  have hidle : ∀ side, rankOf (s side) = 0 := by
    intro side
    obtain ⟨-, hmessages⟩ := (h.send side).2.resolve_right (hstuck (.send side))
    obtain ⟨-, hinbox⟩ := (h.recv hA hover side).2.resolve_right (hstuck (.recv side))
    have hphase := (hdrive side).2
    simp [rankOf, hphase, hmessages _ _ _ hphase, hinbox _ _ _ hphase]
  rw [rank_eq s .initiator, hidle, hidle] at hrank
  omega

end Invariant

/-! ## What a run keeps -/

/-- The frames that an end has sent on its channel. -/
def sentBy (u : End Conn Key T) : List Bytes :=
  match u.phase with
  | .established _ _ p => p.sent
  | _ => []

/-- The messages in these frames. -/
def encryptedBy (u : End Conn Key T) : List Bytes :=
  match u.phase with
  | .established _ _ p => p.encrypted
  | _ => []

/-- What holds of an end at any time: its driver does not raise, writes the
right payloads into HANDSHAKE frames, and takes nothing but what the other
driver wrote; it returns the other's certificate when both drivers have written
everything; and then every frame of the other channel is read.  The payloads are
those on the wire (`carried`): each frame holds the message that the library
wrote for its payload, and the library of the other end reads that payload in it. -/
structure Clean (lib : NoiseLibrary Conn Key) (secret entropy : Side → Bytes) (prologue : Bytes)
    (certs : Side → Bytes) (messages : Side → List Bytes) (s : Establishment Conn Key T)
    (side : Side) : Prop where
  not_failed : ∀ exc, (s side).phase ≠ .failed exc
  payloads : (s side).written.map Prod.fst <+: payloadsOf certs side
  carried : ∃ x : IdealExchange lib secret entropy prologue (SecureWs.payloads certs),
    ∀ index payload frame, (s side).written[index]? = some (payload, frame) →
      x.Carries (IdealExchange.position side index) payload frame
  handshake_frames : ∀ w ∈ (s side).written,
    ∃ frame, decode w.2 = .ok frame ∧ frame.msgType = .handshake
  channel_frames : ∀ wire ∈ sentBy (s side), ∀ frame, decode wire = .ok frame →
    frame.msgType ≠ .handshake
  in_order : ∀ driver inbox, (s side).phase = .driving driver inbox →
    (s side).taken ++ inbox = (s side.peer).written.map Prod.snd ++ sentBy (s side.peer)
  returned : ∀ result cert p, (s side).phase = .established result cert p →
    cert = certs side.peer ∧ (s side).written.map Prod.fst = payloadsOf certs side ∧
      (s side.peer).written.map Prod.fst = payloadsOf certs side.peer ∧
      (s side).taken = (s side.peer).written.map Prod.snd
  read : ∀ result cert p, (s side).phase = .established result cert p →
    p.raised = [] ∧ p.inbox = (sentBy (s side.peer)).drop p.results.length ∧
      p.results.reduceOption <+: encryptedBy (s side.peer) ∧
      (p.inbox = [] → p.results.reduceOption = encryptedBy (s side.peer))
  accepted : Fits (messages side) →
    (s side).refused = [] ∧ encryptedBy (s side) ++ (s side).messages = messages side

section Clean

variable {lib : NoiseLibrary Conn Key} {secret entropy certs : Side → Bytes} {prologue : Bytes}
  {x : IdealExchange lib secret entropy prologue (payloads certs)} {A : Aead Key}
  {replay : Side → ReplayWindow} {rekey : Side → RekeyPolicy T} {messages : Side → List Bytes}
  {s : Establishment Conn Key T}

/-- What an end has sent is what its endpoint has sent. -/
theorem At.sentBy_eq {u : End Conn Key T} {side : Side} {n m : Nat} {p : Endpoint Key T}
    (h : At x replay rekey u side n m p) : sentBy u = p.sent ∧ encryptedBy u = p.encrypted := by
  unfold sentBy encryptedBy
  obtain ⟨-, hphase, hfresh⟩ | ⟨-, hphase⟩ := h.phase
  · rw [hphase, hfresh]
    exact ⟨rfl, rfl⟩
  · rw [hphase]
    exact ⟨rfl, rfl⟩

/-- There are three messages. -/
theorem At.pos_le {u : End Conn Key T} {side : Side} {n m : Nat} {p : Endpoint Key T}
    (h : At x replay rekey u side n m p) : n ≤ 3 := by
  obtain hdriving | hestablished := h.phase
  · exact hdriving.1
  · exact hestablished.1.le

/-- The invariant says so. -/
theorem Inv.clean (h : Inv x A replay rekey messages s) (hover : A.Overhead AEAD_TAG_LEN)
    (side : Side) : Clean lib secret entropy prologue certs messages s side := by
  obtain ⟨pos, e, hat, happs⟩ := h
  have hown := hat side
  have hpeer := hat side.peer
  have hpast := hpeer.pos_le
  have htaken := x.between_append hown.order
  obtain ⟨hsent, hencrypted⟩ := hown.sentBy_eq
  obtain ⟨hsent', hencrypted'⟩ := hpeer.sentBy_eq
  have hback := happs.flows side.peer
  rw [Side.peer_peer] at hback
  obtain ⟨c, heard, pending, hflow, -⟩ := happs.flows side
  obtain ⟨c', heard', pending', hflow', -⟩ := hback
  obtain ⟨hinbox, hprefix, hall⟩ := hflow'.delivered
  have hwritten := x.map_snd_wrote side.peer (pos side.peer)
  constructor
  · intro exc
    obtain ⟨-, hphase, -⟩ | ⟨-, hphase⟩ := hown.phase <;> simp [hphase]
  · rw [hown.written_eq]
    exact x.map_fst_wrote_prefix side hown.pos_le
  · rw [hown.written_eq]
    exact ⟨x, fun index payload frame h => IdealExchange.carries_of_wrote hown.pos_le h⟩
  · intro w hw
    rw [hown.written_eq] at hw
    obtain ⟨index, hindex⟩ := List.mem_iff_getElem?.mp hw
    exact (IdealExchange.carries_of_wrote hown.pos_le hindex).msgType
  · intro wire hwire frame hdec
    rw [hsent] at hwire
    exact hflow.msgType_ne_handshake hover hwire hdec
  · intro driver inbox hdriving
    obtain ⟨-, hphase, hfresh⟩ | ⟨-, hphase⟩ := hown.phase
    · rw [hdriving, EndPhase.driving.injEq] at hphase
      have hnone : (e side).results = [] := by
        rw [hfresh]
        rfl
      rw [hnone] at hinbox
      rw [hphase.2, hown.taken_eq, hpeer.written_eq, hwritten, hsent', ← List.append_assoc, htaken,
        hinbox]
      rfl
    · rw [hdriving] at hphase
      cases hphase
  · intro result cert p hestablished
    obtain ⟨-, hphase, -⟩ | ⟨hpos, hphase⟩ := hown.phase
    · rw [hestablished] at hphase
      cases hphase
    · rw [hestablished, EndPhase.established.injEq] at hphase
      have horder := hown.order
      rw [hpos] at htaken horder
      rw [x.between_eq_nil hpast, List.append_nil] at htaken
      refine ⟨hphase.2.1, ?_, ?_, ?_⟩
      · rw [hown.written_eq, hpos]
        exact x.map_fst_wrote_eq le_rfl fun k hk _ => hk
      · rw [hpeer.written_eq]
        exact x.map_fst_wrote_eq hpast horder
      · rw [hown.taken_eq, hpeer.written_eq, hwritten, hpos, htaken]
  · intro result cert p hestablished
    obtain ⟨-, hphase, -⟩ | ⟨-, hphase⟩ := hown.phase
    · rw [hestablished] at hphase
      cases hphase
    · rw [hestablished, EndPhase.established.injEq] at hphase
      rw [hphase.2.2, hsent', hencrypted']
      exact ⟨happs.raised side, hinbox, hprefix, hall⟩
  · intro hfits
    have hnone := happs.accepted side hfits
    rw [hencrypted]
    exact ⟨hnone, happs.sent_eq side hnone⟩

/-- The handshake that an end starts is the one at the first position. -/
theorem driver_init {hs : NoiseXXHandshake Conn} {side : Side}
    (hnew : NoiseXXHandshake.new lib (side = .initiator) (secret side) prologue (entropy side) = .ok hs) :
    Driver.init hs (certs side) = x.driver side 0 := by
  unfold NoiseXXHandshake.new at hnew
  rw [raiseIf_bind_except] at hnew
  split_ifs at hnew
  obtain rfl := Except.ok.inj hnew
  rw [← x.starts side]
  cases side <;> rfl

/-- The invariant holds before the first message. -/
theorem inv_start {hs : Side → NoiseXXHandshake Conn}
    (hnew : ∀ side, NoiseXXHandshake.new lib (side = .initiator) (secret side) prologue
      (entropy side) = .ok (hs side))
    {sizes : Side → Int} (hreplay : ∀ side, ReplayWindow.new (sizes side) = .ok (replay side)) :
    Inv x A replay rekey messages (start hs certs replay rekey messages) := by
  have hstart := Delivery.inv_start A x.keys x.hash (fun side => lib.publicKey (secret side)) rekey
    hreplay
  refine ⟨fun _ => 0, fun side => fresh x replay rekey side, fun side => ?_, ?_⟩
  · have hphase : ((start hs certs replay rekey messages : Establishment Conn Key T) side).phase =
        .driving (x.driver side 0) [] := by
      rw [← driver_init (hnew side)]
      rfl
    exact ⟨.inl ⟨Nat.zero_le 3, hphase, rfl⟩, fun k hk => absurd hk (Nat.not_lt_zero k), rfl, rfl, rfl,
      rfl⟩
  · constructor
    · intro side
      obtain ⟨heard, pending, hflow⟩ := hstart.flow side
      exact ⟨_, heard, pending, hflow, .inl rfl⟩
    · exact fun _ => rfl
    · exact fun _ => rfl
    · exact fun _ _ => List.nil_append _
    · exact fun _ => (Nat.zero_add _).le
    · exact fun _ _ => rfl

/-- An end that has nothing left is done: it has the other's certificate, has
sent everything and has read everything. -/
theorem Inv.done (h : Inv x A replay rekey messages s) (hover : A.Overhead AEAD_TAG_LEN)
    (hrank : rank s = 0) :
    (s .initiator).written.length + (s .responder).written.length = 3 ∧
      ∀ side, ∃ result p, (s side).phase = .established result (certs side.peer) p ∧
        (s side).messages = [] ∧ p.inbox = [] ∧
        p.results.reduceOption = encryptedBy (s side.peer) := by
  have hall : ∀ side, ∃ result p, (s side).phase = .established result (certs side.peer) p ∧
      (s side).messages = [] ∧ p.inbox = [] := by
    intro side
    obtain ⟨pos, e, hat, -⟩ := id h
    rw [rank_eq s side] at hrank
    simp only [rankOf] at hrank
    obtain ⟨hle, hphase, -⟩ | ⟨-, hphase⟩ := (hat side).phase
    · simp only [hphase, IdealExchange.driver] at hrank
      omega
    · simp only [hphase] at hrank
      refine ⟨_, _, hphase, ?_, ?_⟩
      · rw [← List.length_eq_zero_iff]
        omega
      · rw [← List.length_eq_zero_iff]
        omega
  refine ⟨?_, fun side => ?_⟩
  · obtain ⟨result, p, hphase, -⟩ := hall .initiator
    obtain ⟨-, hown, hpeer, -⟩ := (h.clean hover .initiator).returned _ _ _ hphase
    have hlen := congrArg List.length hown
    have hlen' := congrArg List.length hpeer
    rw [List.length_map] at hlen hlen'
    rw [hlen]
    show _ + (s Side.initiator.peer).written.length = 3
    rw [hlen']
    rfl
  · obtain ⟨result, p, hphase, hmessages, hinbox⟩ := hall side
    exact ⟨result, p, hphase, hmessages, hinbox,
      ((h.clean hover side).read _ _ _ hphase).2.2.2 hinbox⟩

variable [Sub T] [DecidableLE T]

/-- A whole run keeps the invariant. -/
theorem Inv.run (h : Inv x A replay rekey messages s) (hA : A.Correct)
    (hover : A.Overhead AEAD_TAG_LEN) (events : List Event) :
    Inv x A replay rekey messages (events.foldl (Establishment.step lib A) s) := by
  induction events generalizing s with
  | nil => exact h
  | cons event events ih => exact ih (h.step hA hover event).1

end Clean

/-- **The handshake hands over.**  With an ideal exchange, whatever the two
certificates and the messages of the two ends, and in whatever order the ends
take their steps: at any time, each end is clean; and if both keep taking steps,
both drivers return the right certificate after exactly three HANDSHAKE frames,
and everything that either end has sent is read. -/
theorem hands_over [Sub T] [DecidableLE T] (lib : NoiseLibrary Conn Key) (secret entropy : Side → Bytes)
    (prologue : Bytes) (ideal : lib.Ideal secret entropy prologue) (certs : Side → Bytes)
    (hfits : (certs .responder).length + overhead 1 ≤ MAX_PAYLOAD ∧
      (certs .initiator).length + overhead 2 ≤ MAX_PAYLOAD)
    (hs : Side → NoiseXXHandshake Conn)
    (hnew : ∀ side, NoiseXXHandshake.new lib (side = .initiator) (secret side) prologue
      (entropy side) = .ok (hs side))
    (A : Aead Key) (hA : A.Correct) (hover : A.Overhead AEAD_TAG_LEN) (sizes : Side → Int)
    (replay : Side → ReplayWindow) (hreplay : ∀ side, ReplayWindow.new (sizes side) = .ok (replay side))
    (rekey : Side → RekeyPolicy T) (messages : Side → List Bytes) :
    let s₀ : Establishment Conn Key T := start hs certs replay rekey messages
    (∀ (events : List Event) side,
      Clean lib secret entropy prologue certs messages (events.foldl (step lib A) s₀) side) ∧
    ∀ schedule : ℕ → Event, (∀ event n, ∃ m, n ≤ m ∧ schedule m = event) →
      ∃ n, let s := Runs.stateAt (step lib A) s₀ schedule n
        (s .initiator).written.length + (s .responder).written.length = 3 ∧
          ∀ side, ∃ result p, (s side).phase = .established result (certs side.peer) p ∧
            (s side).messages = [] ∧ p.inbox = [] ∧
            p.results.reduceOption = encryptedBy (s side.peer) := by
  have hpayloads : ∀ n < 3, (payloads certs n).length + overhead n ≤ MAX_PAYLOAD := by
    intro n hn
    interval_cases n
    · simp [payloads, overhead, MAX_PAYLOAD]
    · exact hfits.1
    · exact hfits.2
  obtain ⟨x⟩ := ideal (payloads certs) hpayloads
  have hinv : Inv x A replay rekey messages (start hs certs replay rekey messages) :=
    inv_start hnew hreplay
  refine ⟨fun events side => (hinv.run hA hover events).clean hover side, fun schedule fair => ?_⟩
  have hkeep : ∀ s event, Inv x A replay rekey messages s →
      Inv x A replay rekey messages (step lib A s event) := fun s event h => (h.step hA hover event).1
  obtain ⟨n, hn⟩ := Runs.reaches_zero hkeep (fun s event h => (h.step hA hover event).2)
    (fun s h => h.progress hA hover) fair hinv
  exact ⟨n, (Runs.inv_stateAt hkeep hinv schedule n).done hover hn⟩

/-- The ends take turns: all that each of them can do, over and over. -/
def inTurn (n : ℕ) : Event :=
  let side : Side := if n % 2 = 0 then .initiator else .responder
  if n % 6 < 2 then .drive side else if n % 6 < 4 then .send side else .recv side

/-- Every event comes up again and again. -/
theorem inTurn_fair (event : Event) (n : ℕ) : ∃ m, n ≤ m ∧ inTurn m = event := by
  have hturn : ∀ k < 6, inTurn (6 * n + k) = inTurn k := by
    intro k hk
    have h₂ : (6 * n + k) % 2 = k % 2 := by omega
    have h₆ : (6 * n + k) % 6 = k % 6 := by omega
    simp only [inTurn, h₂, h₆]
  cases event with
  | drive side => cases side with
    | initiator => exact ⟨6 * n + 0, by omega, (hturn 0 (by decide)).trans rfl⟩
    | responder => exact ⟨6 * n + 1, by omega, (hturn 1 (by decide)).trans rfl⟩
  | send side => cases side with
    | initiator => exact ⟨6 * n + 2, by omega, (hturn 2 (by decide)).trans rfl⟩
    | responder => exact ⟨6 * n + 3, by omega, (hturn 3 (by decide)).trans rfl⟩
  | recv side => cases side with
    | initiator => exact ⟨6 * n + 4, by omega, (hturn 4 (by decide)).trans rfl⟩
    | responder => exact ⟨6 * n + 5, by omega, (hturn 5 (by decide)).trans rfl⟩

/-- Noise XX itself, with an empty and a one-byte certificate, between ends that
take turns. -/
theorem hands_over_inTurn :
    let lib := NoiseLibrary.xx examplePrimitives [1]
    let secret : Side → Bytes := fun side => List.replicate 32 (if side = .initiator then 3 else 5)
    let entropy : Side → Bytes := fun side => List.replicate 32 (if side = .initiator then 4 else 6)
    let certs : Side → Bytes := fun side => if side = .initiator then [] else [7]
    let messages : Side → List Bytes := fun side => if side = .initiator then [[104, 105], []] else [[33]]
    let hs : Side → NoiseXXHandshake (NoiseXX.State Nat) := fun side =>
      ⟨lib.startHandshake (side = .initiator) (secret side) [] (entropy side), side = .initiator,
        lib.publicKey (secret side), none, 0⟩
    let window : ReplayWindow := ⟨1, 1, -1, 0, by decide, rfl⟩
    let policy : RekeyPolicy ℤ := ⟨1, 900, fun _ => 0, 1, 0, 0, by decide, by decide⟩
    let s₀ : Establishment (NoiseXX.State Nat) Nat ℤ :=
      start hs certs (fun _ => window) (fun _ => policy) messages
    ∃ n, let s := Runs.stateAt (step lib examplePrimitives.aead) s₀ inTurn n
      (s .initiator).written.length + (s .responder).written.length = 3 ∧
        ∀ side, ∃ result p, (s side).phase = .established result (certs side.peer) p ∧
          (s side).messages = [] ∧ p.inbox = [] ∧
          p.results.reduceOption = encryptedBy (s side.peer) := by
  intro lib secret entropy certs messages hs window policy s₀
  have hagree : NoiseXX.Agree examplePrimitives (entropy .initiator) (entropy .responder) ∧
      NoiseXX.Agree examplePrimitives (entropy .initiator) (secret .responder) ∧
      NoiseXX.Agree examplePrimitives (secret .initiator) (entropy .responder) := by
    unfold NoiseXX.Agree
    decide
  have hideal : lib.Ideal secret entropy [] :=
    ideal_xx lawful_examplePrimitives [1] [] hagree.1 hagree.2.1 hagree.2.2
  exact (hands_over lib secret entropy [] hideal certs (by decide) hs
    (Side.forall_of_peer .initiator rfl rfl) examplePrimitives.aead
    lawful_examplePrimitives.correct lawful_examplePrimitives.overhead (fun _ => 1) (fun _ => window)
    (fun _ => rfl) (fun _ => policy) messages).2 inTurn inTurn_fair

end Establishment

end SecureWs
