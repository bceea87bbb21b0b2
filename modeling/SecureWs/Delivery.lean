import SecureWs.Session

/-!
# SecureWs.Delivery

Two channels from one honest handshake over a network that delivers each
direction first-in first-out.

* `step`: a side encrypts a plaintext and its frames join the other side's
  inbox, or a side decrypts the first frame of its inbox;
* an exception is recorded in `raised` and the run goes on;
* `Flow` is the invariant of one direction: the receiver has heard the
  messages up to the ones whose frames are still in the inbox.

`never_fails`: nothing is ever raised, and what was encrypted is returned.
-/

namespace SecureWs

open Python

variable {Key T : Type} [Zero T] [LE T]

/-- One end: its channel, the plaintexts it encrypted and the frames it sent,
the frames on their way to it, and what its `decrypt` returned, one result
for each frame.  `raised` collects the exceptions of both methods. -/
structure Endpoint (Key T : Type) [Zero T] [LE T] where
  channel : SecureChannel Key T
  encrypted : List Bytes
  sent : List Bytes
  inbox : List Bytes
  results : List (Option Bytes)
  raised : List PyError

abbrev Delivery (Key T : Type) [Zero T] [LE T] := Side → Endpoint Key T

namespace Delivery

/-- What happens: a side encrypts, or the network delivers a frame to it. -/
inductive Event where
  | send (side : Side) (plaintext : Bytes)
  | deliver (side : Side)
  deriving Repr

def start (keys : Side → Key) (hash : Bytes) (static : Side → Bytes) (replay : Side → ReplayWindow)
    (rekey : Side → RekeyPolicy T) : Delivery Key T :=
  fun side => ⟨SecureChannel.init (honestHandshake keys hash static side) (replay side) (rekey side),
    [], [], [], [], []⟩

/-- A side decrypts the first frame of its inbox. -/
def deliver (A : Aead Key) (p : Endpoint Key T) : Endpoint Key T :=
  match p.inbox with
  | [] => p
  | wire :: inbox =>
      match (SecureChannel.decrypt A wire).run p.channel with
      | (.ok result, c) =>
          { p with channel := c, inbox := inbox, results := p.results ++ [result] }
      | (.error e, c) => { p with channel := c, inbox := inbox, raised := p.raised ++ [e] }

/-- Receiving takes a frame from the inbox and sends nothing. -/
theorem deliver_spec (A : Aead Key) (p : Endpoint Key T) :
    (deliver A p).inbox = p.inbox.tail ∧ (deliver A p).sent = p.sent ∧
      (deliver A p).encrypted = p.encrypted ∧
      ∀ key said, p.channel.Sends A key said → (deliver A p).channel.Sends A key said := by
  unfold deliver
  split
  · next hnil => simp [hnil]
  · next wire inbox hcons =>
    have hsends : ∀ key said, p.channel.Sends A key said →
        ((SecureChannel.decrypt A wire).run p.channel).2.Sends A key said :=
      fun key said h => h.decrypt A wire
    split <;> next hrun => simpa [hcons, hrun] using hsends

section Step

variable [Sub T] [DecidableLE T]

/-- A side encrypts; the frames join the other side's inbox. -/
def send (A : Aead Key) (s : Delivery Key T) (side : Side) (plaintext : Bytes) : Delivery Key T :=
  match (SecureChannel.encrypt A (.bytesLike plaintext)).run (s side).channel with
  | (.ok frames, c) =>
      Function.update
        (Function.update s side
          { s side with
            channel := c
            encrypted := (s side).encrypted ++ [plaintext]
            sent := (s side).sent ++ frames })
        side.peer { s side.peer with inbox := (s side.peer).inbox ++ frames }
  | (.error e, c) =>
      Function.update s side { s side with channel := c, raised := (s side).raised ++ [e] }

def step (A : Aead Key) (s : Delivery Key T) : Event → Delivery Key T
  | .send side plaintext => send A s side plaintext
  | .deliver side => Function.update s side (deliver A (s side))

/-- The steps of the honest session: plaintexts that fit, and fewer than
`2^64 - 2` frames sent before them in their direction. -/
def Allowed (s : Delivery Key T) : Event → Prop
  | .send side plaintext => plaintext.length ≤ 65519 ∧ (s side).sent.length < 2 ^ 64 - 2
  | .deliver _ => True

inductive Reachable (A : Aead Key) (s₀ : Delivery Key T) : Delivery Key T → Prop where
  | start : Reachable A s₀ s₀
  | step {s} (h : Reachable A s₀ s) (event : Event) (hallowed : Allowed s event) :
      Reachable A s₀ (step A s event)

end Step

/-! ## One direction -/

/-- Of the messages `tx` has said, `rx` has heard `heard`, and the frames of
`pending` are on their way. -/
structure Flow (A : Aead Key) (key : Key) (tx rx : Endpoint Key T) (heard pending : List Msg) :
    Prop where
  sends : tx.channel.Sends A key (heard ++ pending)
  hears : rx.channel.Hears A key heard
  inbox_eq : rx.inbox = frames A (stream.cipher A key heard) pending
  sent_eq : tx.sent = frames A (stream.cipher A key []) (heard ++ pending)
  encrypted_eq : tx.encrypted = plaintexts (heard ++ pending)
  results_eq : rx.results = heard.map Msg.delivered?
  no_close : .close ∉ heard ++ pending

structure Inv (A : Aead Key) (keys : Side → Key) (s : Delivery Key T) : Prop where
  flow : ∀ side : Side, ∃ heard pending, Flow A (keys side) (s side) (s side.peer) heard pending
  isOpen : ∀ side, (s side).channel.closed = false
  raised : ∀ side, (s side).raised = []

theorem inv_start (A : Aead Key) (keys : Side → Key) (hash : Bytes) (static : Side → Bytes)
    {sizes : Side → Int} {replay : Side → ReplayWindow} (rekey : Side → RekeyPolicy T)
    (hnew : ∀ side, ReplayWindow.new (sizes side) = .ok (replay side)) :
    Inv A keys (start keys hash static replay rekey) where
  flow side := by
    have hhears : ((start keys hash static replay rekey) side.peer).channel.Hears A (keys side) [] :=
      SecureChannel.Hears.init _ (rekey side.peer) (by simp [honestHandshake]) (hnew side.peer)
    exact ⟨[], [], .init _ _ _ rfl, hhears, rfl, rfl, rfl, rfl, by simp⟩
  isOpen _ := rfl
  raised _ := rfl

namespace Flow

variable {A : Aead Key} {key : Key} {tx tx' rx rx' : Endpoint Key T} {heard pending : List Msg}

/-- The sender says a batch. -/
theorem say (h : Flow A key tx rx heard pending) {batch : List Msg}
    (hsends : tx'.channel.Sends A key (heard ++ pending ++ batch)) (hclose : .close ∉ batch)
    (hrx : rx'.channel = rx.channel ∧ rx'.results = rx.results)
    (hinbox : rx'.inbox = rx.inbox ++ frames A tx.channel.sendCipher batch)
    (hsent : tx'.sent = tx.sent ++ frames A tx.channel.sendCipher batch)
    (henc : tx'.encrypted = tx.encrypted ++ plaintexts batch) :
    Flow A key tx' rx' heard (pending ++ batch) where
  sends := by rwa [← List.append_assoc]
  hears := hrx.1 ▸ h.hears
  inbox_eq := by rw [hinbox, h.inbox_eq, h.sends.cipher_eq, frames_append]
  sent_eq := by
    rw [hsent, h.sent_eq, h.sends.cipher_eq, ← List.append_assoc]
    exact (frames_append A key [] (heard ++ pending) batch).symm
  encrypted_eq := by rw [henc, h.encrypted_eq, ← List.append_assoc, plaintexts_append _ batch]
  results_eq := hrx.2.trans h.results_eq
  no_close := by
    rw [← List.append_assoc]
    simp only [List.mem_append (s := heard ++ pending), not_or]
    exact ⟨h.no_close, hclose⟩

/-- The sender does something else than send. -/
theorem tx_congr (h : Flow A key tx rx heard pending)
    (hsends : tx'.channel.Sends A key (heard ++ pending)) (hsent : tx'.sent = tx.sent)
    (henc : tx'.encrypted = tx.encrypted) : Flow A key tx' rx heard pending :=
  ⟨hsends, h.hears, h.inbox_eq, hsent.trans h.sent_eq, henc.trans h.encrypted_eq, h.results_eq,
    h.no_close⟩

/-- The receiver does something else than receive. -/
theorem rx_congr (h : Flow A key tx rx heard pending)
    (hrecv : rx'.channel.receiver = rx.channel.receiver) (hinbox : rx'.inbox = rx.inbox)
    (hres : rx'.results = rx.results) : Flow A key tx rx' heard pending := by
  simp only [SecureChannel.receiver, Prod.mk.injEq] at hrecv
  exact ⟨h.sends, ⟨hrecv.1 ▸ h.hears.inStep, hrecv.2 ▸ h.hears.window⟩, hinbox.trans h.inbox_eq,
    h.sent_eq, h.encrypted_eq, hres.trans h.results_eq, h.no_close⟩

/-- The receiver decrypts the first frame of its inbox: it is the frame of
the next message, and nothing is raised. -/
theorem deliver (h : Flow A key tx rx heard pending) (hA : A.Correct)
    (hover : A.Overhead AEAD_TAG_LEN) (hopen : rx.channel.closed = false) (hraised : rx.raised = []) :
    (∃ heard' pending', Flow A key tx (Delivery.deliver A rx) heard' pending') ∧
      (Delivery.deliver A rx).channel.closed = false ∧ (Delivery.deliver A rx).raised = [] := by
  cases pending with
  | nil =>
      have hnil : rx.inbox = [] := h.inbox_eq
      have hsame : Delivery.deliver A rx = rx := by simp [Delivery.deliver, hnil]
      rw [hsame]
      exact ⟨⟨heard, [], h⟩, hopen, hraised⟩
  | cons m pending =>
      have hinbox : rx.inbox = (stream.sealing A (stream.cipher A key heard) m).wire ::
          frames A (stream.cipher A key (heard ++ [m])) pending := by
        rw [h.inbox_eq, AeadStream.cipher_append_singleton]
        rfl
      have hlen := h.sends.length_le
      simp only [List.length_append, List.length_cons] at hlen
      have hclose : m ≠ .close := fun heq => h.no_close (by simp [heq])
      obtain ⟨c, hrun, hhears, hclosed⟩ := h.hears.decrypt_next hA hover hopen (by omega)
        (h.sends.fits m (by simp))
      have hres : SecureChannel.heardAs m = .ok m.delivered? := by
        cases m with
        | transport plaintext => rfl
        | rekey => rfl
        | close => contradiction
      have hdel : Delivery.deliver A rx =
          { rx with
            channel := c
            inbox := frames A (stream.cipher A key (heard ++ [m])) pending
            results := rx.results ++ [m.delivered?] } := by
        simp [Delivery.deliver, hinbox, hrun, hres]
      rw [hdel]
      refine ⟨⟨heard ++ [m], pending, ?_, hhears, rfl, ?_, ?_, ?_, ?_⟩, by simpa [hclose] using hclosed,
        hraised⟩
      · simpa using h.sends
      · simpa using h.sent_eq
      · simpa using h.encrypted_eq
      · simp [h.results_eq]
      · simpa using h.no_close

/-- A frame that was sent is the frame of its message. -/
theorem sent_spec (h : Flow A key tx rx heard pending) (hover : A.Overhead AEAD_TAG_LEN) {i : Nat}
    {wire : Bytes} (hwire : tx.sent[i]? = some wire) : ∃ m frame,
      (heard ++ pending)[i]? = some m ∧ decode wire = .ok frame ∧ frame.msgType = m.msgType := by
  rw [h.sent_eq, getElem?_frames, Option.map_eq_some_iff] at hwire
  obtain ⟨m, hm, rfl⟩ := hwire
  have hlen := h.sends.length_le
  have hlt := (List.getElem?_eq_some_iff.mp hm).1
  obtain ⟨frame, hdec, htype, -⟩ := decode_sealing hover
    (stream.cipher A key ((heard ++ pending).take i))
    (by simp only [AeadStream.nonce_cipher, List.length_take, MAX_SEQ, MAX_NONCE] at hlen ⊢; omega)
    (h.sends.fits m (List.mem_of_getElem? hm))
  exact ⟨m, frame, hm, hdec, htype⟩

/-- The results of `decrypt` are the plaintexts, and `none` for a REKEY. -/
theorem results_spec
    (h : Flow A key tx rx heard pending) (hover : A.Overhead AEAD_TAG_LEN) {i : Nat} {wire : Bytes}
    {result : Option Bytes} (hwire : tx.sent[i]? = some wire) (hres : rx.results[i]? = some result) :
    ∃ frame, decode wire = .ok frame ∧ (result = none ↔ frame.msgType = .rekey) := by
  rw [h.results_eq, List.getElem?_map] at hres
  obtain ⟨m, hm, rfl⟩ := Option.map_eq_some_iff.mp hres
  obtain ⟨hlt, -⟩ := List.getElem?_eq_some_iff.mp hm
  obtain ⟨m', frame, hm', hdec, htype⟩ := h.sent_spec hover hwire
  rw [List.getElem?_append_left hlt, hm, Option.some.injEq] at hm'
  subst hm'
  refine ⟨frame, hdec, ?_⟩
  rw [htype]
  cases m with
  | transport plaintext => simp [Msg.delivered?, Msg.msgType]
  | rekey => simp [Msg.delivered?, Msg.msgType]
  | close => exact absurd (List.mem_append_left _ (List.mem_of_getElem? hm)) h.no_close

/-- A channel sends no HANDSHAKE frame. -/
theorem msgType_ne_handshake (h : Flow A key tx rx heard pending) (hover : A.Overhead AEAD_TAG_LEN)
    {wire : Bytes} {frame : Frame} (hmem : wire ∈ tx.sent) (hdec : decode wire = .ok frame) :
    frame.msgType ≠ .handshake := by
  obtain ⟨i, hwire⟩ := List.mem_iff_getElem?.mp hmem
  obtain ⟨m, frame', -, hdec', htype⟩ := h.sent_spec hover hwire
  rw [hdec, Except.ok.injEq] at hdec'
  rw [hdec', htype]
  cases m <;> simp [Msg.msgType]

/-- What the receiver has returned, and what is on its way. -/
theorem delivered (h : Flow A key tx rx heard pending) :
    rx.inbox = tx.sent.drop rx.results.length ∧ rx.results.reduceOption <+: tx.encrypted ∧
      (rx.inbox = [] → rx.results.reduceOption = tx.encrypted) := by
  have hret : rx.results.reduceOption = plaintexts heard := by
    rw [h.results_eq, List.reduceOption, List.filterMap_map]
    rfl
  refine ⟨?_, ?_, fun hempty => ?_⟩
  · have hlen : rx.results.length = (frames A (stream.cipher A key []) heard).length := by
      rw [h.results_eq, length_frames, List.length_map]
    rw [h.inbox_eq, h.sent_eq, frames_append, hlen, List.drop_left]
    rfl
  · rw [hret, h.encrypted_eq, plaintexts_append]
    exact List.prefix_append _ _
  · have hnil : pending = [] := by
      rw [h.inbox_eq, ← List.length_eq_zero_iff, length_frames] at hempty
      exact List.length_eq_zero_iff.mp hempty
    rw [hret, h.encrypted_eq, hnil, List.append_nil]

end Flow

/-! ## Runs -/

section Run

variable {A : Aead Key} {keys : Side → Key} {s : Delivery Key T}

/-- A delivered frame is decrypted, and the invariant is kept. -/
theorem Inv.deliver (h : Inv A keys s) (hA : A.Correct) (hover : A.Overhead AEAD_TAG_LEN)
    (side : Side) : Inv A keys (Function.update s side (deliver A (s side))) := by
  obtain ⟨heard, pending, hflow⟩ := h.flow side.peer
  rw [Side.peer_peer] at hflow
  obtain ⟨⟨heard', pending', hflow'⟩, hopen, hraised⟩ :=
    hflow.deliver hA hover (h.isOpen side) (h.raised side)
  obtain ⟨heard'', pending'', hback⟩ := h.flow side
  have hspec := deliver_spec A (s side)
  have hback' : Flow A (keys side) (Delivery.deliver A (s side)) (s side.peer) heard'' pending'' :=
    hback.tx_congr (hspec.2.2.2 _ _ hback.sends) hspec.2.1 hspec.2.2.1
  constructor
  · exact Side.forall_of_peer side ⟨heard'', pending'', by simpa using hback'⟩
      ⟨heard', pending', by simpa using hflow'⟩
  · exact Side.forall_of_peer side (by simpa using hopen) (by simpa using h.isOpen side.peer)
  · exact Side.forall_of_peer side (by simpa using hraised) (by simpa using h.raised side.peer)

/-- In a state that keeps the invariant, `decrypt` succeeds on the next frame of an inbox. -/
theorem Inv.decrypt_ok (h : Inv A keys s) (hA : A.Correct) (hover : A.Overhead AEAD_TAG_LEN)
    (side : Side) {wire : Bytes} {inbox : List Bytes} (hinbox : (s side).inbox = wire :: inbox) :
    ∃ result c, (SecureChannel.decrypt A wire).run (s side).channel = (.ok result, c) := by
  have hraised := (h.deliver hA hover side).raised side
  cases hrun : (SecureChannel.decrypt A wire).run (s side).channel with
  | mk r c => cases r with
    | ok result => exact ⟨result, c, rfl⟩
    | error e => simp [Delivery.deliver, hinbox, hrun] at hraised

variable [Sub T] [DecidableLE T]

/-- A plaintext that fits is sent, and the invariant is kept. -/
theorem Inv.send (h : Inv A keys s) (side : Side) {plaintext : Bytes}
    (hlen : plaintext.length ≤ 65519) (hcount : (s side).sent.length < 2 ^ 64 - 2) :
    Inv A keys (send A s side plaintext) := by
  obtain ⟨heard, pending, hflow⟩ := h.flow side
  obtain ⟨heard', pending', hback⟩ := h.flow side.peer
  rw [Side.peer_peer] at hback
  have hkeep := SecureChannel.encrypt_keeps_receiver A (.bytesLike plaintext) (s side).channel
  cases hflow.sends.encrypt (.bytesLike plaintext) with
  | inr herr =>
      obtain ⟨-, -, -, -, hcannot⟩ := herr
      refine absurd ⟨h.isOpen side, plaintext, rfl, hlen, ?_⟩ hcannot
      rw [hflow.sent_eq, length_frames] at hcount
      rw [hflow.sends.nonce_eq, SecureChannel.length_batch]
      simp only [MAX_NONCE]
      split <;> omega
  | inl hok =>
      obtain ⟨_, heq, ⟨hopen, -⟩, hrun, hsends⟩ := hok
      rw [Arg.bytesLike.injEq] at heq
      subst heq
      rw [hrun] at hkeep
      generalize hs : Delivery.send A s side plaintext = s'
      have htx : s' side =
          ⟨((s side).channel.beforeTransport A).afterTransport A plaintext,
            (s side).encrypted ++ [plaintext],
            (s side).sent ++ frames A (s side).channel.sendCipher ((s side).channel.batch plaintext),
            (s side).inbox, (s side).results, (s side).raised⟩ := by
        rw [← hs]
        simp [Delivery.send, hrun]
      have hrx : s' side.peer =
          { s side.peer with
            inbox := (s side.peer).inbox ++
              frames A (s side).channel.sendCipher ((s side).channel.batch plaintext) } := by
        rw [← hs]
        simp [Delivery.send, hrun]
      constructor
      · refine Side.forall_of_peer side ?_ ?_
        · rw [htx, hrx]
          exact ⟨heard, _, hflow.say hsends ((s side).channel.close_notMem_batch plaintext)
            ⟨rfl, rfl⟩ rfl rfl (by simp)⟩
        · rw [Side.peer_peer, htx, hrx]
          refine ⟨heard', pending', (hback.tx_congr ?_ ?_ ?_).rx_congr hkeep rfl rfl⟩
          · exact hback.sends
          · rfl
          · rfl
      · refine Side.forall_of_peer side ?_ ?_
        · rw [htx]
          exact (SecureChannel.Sends.closed_beforeTransport A _).trans hopen
        · rw [hrx]
          exact h.isOpen side.peer
      · refine Side.forall_of_peer side ?_ ?_
        · rw [htx]
          exact h.raised side
        · rw [hrx]
          exact h.raised side.peer

/-- One allowed step keeps the invariant. -/
theorem Inv.step (h : Inv A keys s) (hA : A.Correct) (hover : A.Overhead AEAD_TAG_LEN)
    {event : Event} (hallowed : Allowed s event) : Inv A keys (step A s event) := by
  cases event with
  | send side plaintext => exact h.send side hallowed.1 hallowed.2
  | deliver side => exact h.deliver hA hover side

/-- A whole run keeps the invariant. -/
theorem Inv.reachable {s₀ : Delivery Key T} (h : Inv A keys s₀) (hA : A.Correct)
    (hover : A.Overhead AEAD_TAG_LEN) (hs : Reachable A s₀ s) : Inv A keys s := by
  induction hs with
  | start => exact h
  | step _ event hallowed ih => exact ih.step hA hover hallowed

/-- In a state that keeps the invariant, `encrypt` succeeds on a plaintext
that fits. -/
theorem Inv.encrypt_ok (h : Inv A keys s) (side : Side) {plaintext : Bytes}
    (hlen : plaintext.length ≤ 65519) (hcount : (s side).sent.length < 2 ^ 64 - 2) :
    ∃ frames c, (SecureChannel.encrypt A (.bytesLike plaintext)).run (s side).channel =
      (.ok frames, c) := by
  have hraised := (h.send side hlen hcount).raised side
  cases hrun : (SecureChannel.encrypt A (.bytesLike plaintext)).run (s side).channel with
  | mk r c => cases r with
    | ok frames => exact ⟨frames, c, rfl⟩
    | error e => simp [Delivery.send, hrun] at hraised

end Run

/-- **Honest sessions never fail.**  With a correct AEAD, whatever the rekey
policies and the window sizes, in every state that allowed steps reach:
nothing was raised, the next plaintext that fits is encrypted and the next
frame of the inbox is decrypted; every frame fits the transport; the inbox is
what was sent and not yet decrypted; a REKEY frame gave `none` and a
TRANSPORT frame a plaintext; and the plaintexts returned are those encrypted,
in order, up to the ones in the inbox. -/
theorem never_fails [Sub T] [DecidableLE T] (A : Aead Key) (hA : A.Correct)
    (hover : A.Overhead AEAD_TAG_LEN) (keys : Side → Key) (hash : Bytes) (static : Side → Bytes)
    (sizes : Side → Int) (replay : Side → ReplayWindow)
    (hnew : ∀ side, ReplayWindow.new (sizes side) = .ok (replay side))
    (rekey : Side → RekeyPolicy T) (s : Delivery Key T)
    (hs : Reachable A (start keys hash static replay rekey) s) (side : Side) :
    (s side).raised = [] ∧
    (∀ plaintext : Bytes, plaintext.length ≤ 65519 → (s side).sent.length < 2 ^ 64 - 2 →
      ∃ frames c, (SecureChannel.encrypt A (.bytesLike plaintext)).run (s side).channel =
        (.ok frames, c)) ∧
    (∀ wire inbox, (s side).inbox = wire :: inbox →
      ∃ result c, (SecureChannel.decrypt A wire).run (s side).channel = (.ok result, c)) ∧
    (∀ frame ∈ (s side).sent, frame.length ≤ 14 + 65535) ∧
    (s side).inbox = (s side.peer).sent.drop (s side).results.length ∧
    (∀ (i : Nat) wire result, (s side.peer).sent[i]? = some wire →
      (s side).results[i]? = some result →
      ∃ frame, decode wire = .ok frame ∧ (result = none ↔ frame.msgType = .rekey)) ∧
    (s side).results.reduceOption <+: (s side.peer).encrypted ∧
    ((s side).inbox = [] → (s side).results.reduceOption = (s side.peer).encrypted) := by
  have hinv := (inv_start A keys hash static rekey hnew).reachable hA hover hs
  obtain ⟨said, unheard, hout⟩ := hinv.flow side
  obtain ⟨heard, pending, hin⟩ := hinv.flow side.peer
  rw [Side.peer_peer] at hin
  obtain ⟨hinbox, hprefix, hall⟩ := hin.delivered
  refine ⟨hinv.raised side, fun _ => hinv.encrypt_ok side, fun _ _ => hinv.decrypt_ok hA hover side,
    ?_, hinbox, fun _ _ _ => hin.results_spec hover, hprefix, hall⟩
  intro frame hframe
  rw [hout.sent_eq] at hframe
  exact length_le_of_mem_frames hover hout.sends.fits hframe

/-- A policy that asks for a REKEY after every message: the second message
follows a REKEY frame, and both arrive. -/
theorem never_fails_rekey :
    let A := Aead.spelled (· + 2)
    let window : ReplayWindow := ⟨1, 1, -1, 0, by decide, rfl⟩
    let policy : RekeyPolicy ℤ := ⟨1, 900, fun _ => 0, 1, 0, 0, by decide, by decide⟩
    let s₀ : Delivery Nat ℤ := start (fun side => if side = .initiator then 0 else 1) []
      (fun _ => []) (fun _ => window) (fun _ => policy)
    let s := [Event.send .initiator [1], .deliver .responder, .send .initiator [2],
      .deliver .responder, .deliver .responder].foldl (step A) s₀
    (s .responder).results = [some [1], none, some [2]] ∧ (s .responder).raised = [] := by
  intro A window policy s₀ s
  have hs : Reachable A s₀ s :=
    ((((Reachable.start.step (.send .initiator [1]) ⟨by decide, by decide⟩).step (.deliver .responder)
      trivial).step (.send .initiator [2]) ⟨by decide, by decide⟩).step (.deliver .responder)
      trivial).step (.deliver .responder) trivial
  exact ⟨by decide, (never_fails A (Aead.correct_spelled _) (Aead.overhead_spelled _) _ [] _
    (fun _ => 1) (fun _ => window) (fun _ => rfl) (fun _ => policy) s hs .responder).1⟩

end Delivery

end SecureWs
