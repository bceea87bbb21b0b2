import SecureWs.Stream

/-!
# SecureWs.Session

Two channels from one honest handshake, with the network between them in the
hands of an attacker.

* `step`: a side calls `encrypt` or `close_frame`, or the network hands
  arbitrary bytes to a side's `decrypt`;
* the AEAD is ideal: decryption knows what the two sides really encrypted
  (`Session.log`) and nothing else;
* `Direction` is the invariant that ties a sender to the receiver at the
  other end: the receiver is in step with a prefix of what was said.
-/

namespace SecureWs

open Python

inductive Side where
  | initiator
  | responder
  deriving DecidableEq, Repr

namespace Side

/-- The other end. -/
def peer : Side → Side
  | initiator => responder
  | responder => initiator

@[simp] theorem peer_peer (side : Side) : side.peer.peer = side := by
  cases side <;> rfl

@[simp] theorem peer_ne (side : Side) : side.peer ≠ side := by
  cases side <;> simp [peer]

@[simp] theorem ne_peer (side : Side) : side ≠ side.peer := (peer_ne side).symm

/-- What holds of one side and of its peer holds of both sides. -/
theorem forall_of_peer {P : Side → Prop} (side : Side) (h : P side) (hpeer : P side.peer) :
    ∀ other, P other := by
  intro other
  cases side with
  | initiator => cases other with
    | initiator => exact h
    | responder => exact hpeer
  | responder => cases other with
    | initiator => exact hpeer
    | responder => exact h

end Side

variable {Key T : Type} [Zero T] [LE T]

/-- The result of an honest handshake: what one side sends under, the other
receives under, and both start at nonce zero. -/
def honestHandshake (keys : Side → Key) (hash : Bytes) (static : Side → Bytes) (side : Side) :
    HandshakeResult Key :=
  ⟨side = .initiator, hash, static side.peer, static side, .fresh (keys side),
    .fresh (keys side.peer)⟩

/-! ## One side -/

/-- One end of a session: its channel, the plaintexts its `encrypt` accepted,
those its `decrypt` returned, and whether `decrypt` said that the peer closed. -/
structure Party (Key T : Type) [Zero T] [LE T] where
  channel : SecureChannel Key T
  encrypted : List Bytes
  returned : List Bytes
  peerClosed : Bool

namespace Party

/-- The end of a session that has not started. -/
def init (channel : SecureChannel Key T) : Party Key T := ⟨channel, [], [], false⟩

def encrypt [Sub T] [DecidableLE T] (A : Aead Key) (arg : Arg) (p : Party Key T) : Party Key T :=
  match arg, (SecureChannel.encrypt A arg).run p.channel with
  | .bytesLike plaintext, (.ok _, c) =>
      { p with channel := c, encrypted := p.encrypted ++ [plaintext] }
  | _, (_, c) => { p with channel := c }

def closeFrame (A : Aead Key) (p : Party Key T) : Party Key T :=
  { p with channel := ((SecureChannel.closeFrame A).run p.channel).2 }

/-- The network hands `wire` to the side's `decrypt`. -/
def decrypt (A : Aead Key) (wire : Bytes) (p : Party Key T) : Party Key T :=
  match (SecureChannel.decrypt A wire).run p.channel with
  | (.ok (some plaintext), c) => { p with channel := c, returned := p.returned ++ [plaintext] }
  | (.ok none, c) => { p with channel := c }
  | (.error e, c) =>
      { p with
        channel := c
        peerClosed := p.peerClosed || e = .channelClosedError ["peer closed the channel"] }

/-- `encrypt` works on the channel and leaves the receiving record alone. -/
theorem encrypt_spec [Sub T] [DecidableLE T] (A : Aead Key) (arg : Arg) (p : Party Key T) :
    (p.encrypt A arg).channel = ((SecureChannel.encrypt A arg).run p.channel).2 ∧
      (p.encrypt A arg).returned = p.returned ∧ (p.encrypt A arg).peerClosed = p.peerClosed := by
  unfold encrypt
  split <;> simp [*]

/-- `decrypt` works on the channel and leaves the sending record alone. -/
theorem decrypt_spec (A : Aead Key) (wire : Bytes) (p : Party Key T) :
    (p.decrypt A wire).channel = ((SecureChannel.decrypt A wire).run p.channel).2 ∧
      (p.decrypt A wire).encrypted = p.encrypted := by
  unfold decrypt
  split <;> simp [*]

/-- A rejected frame changes nothing. -/
theorem decrypt_rejected {A : Aead Key} {wire : Bytes} {p : Party Key T} {e : PyError}
    (hrun : (SecureChannel.decrypt A wire).run p.channel = (.error e, p.channel))
    (he : e ≠ .channelClosedError ["peer closed the channel"]) : p.decrypt A wire = p := by
  simp [decrypt, hrun, he]

/-- A message is returned if it is one to return, and a CLOSE is noticed. -/
theorem decrypt_message {A : Aead Key} {wire : Bytes} {p : Party Key T} {m : Msg}
    {c : SecureChannel Key T}
    (hrun : (SecureChannel.decrypt A wire).run p.channel = (SecureChannel.heardAs m, c)) :
    p.decrypt A wire =
      ⟨c, p.encrypted, p.returned ++ m.delivered?.toList, p.peerClosed || m = .close⟩ := by
  cases m <;> simp [decrypt, hrun, SecureChannel.heardAs, Msg.delivered?]

end Party

/-! ## One direction -/

/-- `tx` has said `said`, and `rx` at the other end has heard `heard` of it. -/
structure Direction (A : Aead Key) (key : Key) (tx rx : Party Key T) (said heard : List Msg) :
    Prop where
  sends : tx.channel.Sends A key said
  heard_prefix : heard <+: said
  inStep : stream.InStep A key heard rx.channel.recvCipher
  encrypted_eq : tx.encrypted = plaintexts said
  returned_eq : rx.returned = plaintexts heard
  close_of_peerClosed : rx.peerClosed = true → .close ∈ heard

namespace Direction

variable {A : Aead Key} {key : Key} {tx tx' rx rx' : Party Key T} {said said' heard : List Msg}

/-- What was returned is a prefix of what was encrypted, and all of it once
the receiver was told that the peer closed. -/
theorem delivered (h : Direction A key tx rx said heard) :
    rx.returned <+: tx.encrypted ∧
      (rx.peerClosed = true → rx.returned = tx.encrypted ∧ tx.channel.closed = true) := by
  rw [h.returned_eq, h.encrypted_eq]
  refine ⟨?_, fun hclosed => ?_⟩
  · obtain ⟨rest, rfl⟩ := h.heard_prefix
    rw [plaintexts_append]
    exact List.prefix_append _ _
  · have hmem := h.close_of_peerClosed hclosed
    have hall := h.sends.eq_of_close_mem h.heard_prefix hmem
    exact ⟨by rw [hall], h.sends.closed_of_close (hall ▸ hmem)⟩

/-- The sender says more. -/
theorem say (h : Direction A key tx rx said heard) (hsends : tx'.channel.Sends A key said')
    (hpre : said <+: said') (henc : tx'.encrypted = plaintexts said') :
    Direction A key tx' rx said' heard :=
  ⟨hsends, h.heard_prefix.trans hpre, h.inStep, henc, h.returned_eq, h.close_of_peerClosed⟩

/-- The receiver does something else than receive. -/
theorem rx_congr (h : Direction A key tx rx said heard)
    (hcipher : rx'.channel.recvCipher = rx.channel.recvCipher)
    (hret : rx'.returned = rx.returned) (hclosed : rx'.peerClosed = rx.peerClosed) :
    Direction A key tx rx' said heard :=
  ⟨h.sends, h.heard_prefix, hcipher ▸ h.inStep, h.encrypted_eq, hret.trans h.returned_eq,
    hclosed ▸ h.close_of_peerClosed⟩

/-- The sender calls `encrypt`. -/
theorem encrypt [Sub T] [DecidableLE T] (h : Direction A key tx rx said heard) (arg : Arg) :
    ∃ said', Direction A key (tx.encrypt A arg) rx said' heard := by
  cases h.sends.encrypt arg with
  | inl hok =>
      obtain ⟨plaintext, rfl, -, hrun, hsends⟩ := hok
      refine ⟨said ++ tx.channel.batch plaintext, h.say ?_ (List.prefix_append _ _) ?_⟩
      · simpa [Party.encrypt, hrun] using hsends
      · simp [Party.encrypt, hrun, h.encrypted_eq]
  | inr herr =>
      obtain ⟨e, c', hrun, ⟨new, hnew, -, hsends⟩, -⟩ := herr
      have htx : tx.encrypt A arg = { tx with channel := c' } := by
        cases arg <;> simp [Party.encrypt, hrun]
      refine ⟨said ++ new, h.say (htx ▸ hsends) (List.prefix_append _ _) ?_⟩
      rw [htx, plaintexts_append, hnew, List.append_nil]
      exact h.encrypted_eq

/-- The sender calls `close_frame`. -/
theorem closeFrame (h : Direction A key tx rx said heard) :
    ∃ said', Direction A key (tx.closeFrame A) rx said' heard := by
  cases h.sends.closeFrame with
  | inl hok =>
      obtain ⟨-, hrun, hsends⟩ := hok
      refine ⟨said ++ [.close], h.say ?_ (List.prefix_append _ _) ?_⟩
      · simpa [Party.closeFrame, hrun] using hsends
      · simp [Party.closeFrame, h.encrypted_eq, Msg.delivered?]
  | inr herr =>
      obtain ⟨e, c', hrun, hsends, -⟩ := herr
      refine ⟨said, h.say ?_ (List.prefix_refl _) h.encrypted_eq⟩
      simpa [Party.closeFrame, hrun] using hsends

/-- The receiver accepted the message `m`, which comes next. -/
theorem hear (h : Direction A key tx rx said heard) {m : Msg} (hnext : heard ++ [m] <+: said)
    {c : SecureChannel Key T} (hcipher : c.recvCipher = stream.advance A rx.channel.recvCipher m) :
    Direction A key tx
      ⟨c, rx.encrypted, rx.returned ++ m.delivered?.toList, rx.peerClosed || m = .close⟩ said
      (heard ++ [m]) where
  sends := h.sends
  heard_prefix := hnext
  inStep := hcipher ▸ h.inStep.push m
  encrypted_eq := h.encrypted_eq
  returned_eq := by simp [h.returned_eq]
  close_of_peerClosed := by
    simp only [Bool.or_eq_true, decide_eq_true_eq, List.mem_append, List.mem_singleton]
    exact Or.imp h.close_of_peerClosed Eq.symm

/-- The network hands the receiver any bytes at all: it rejects them, or they
are the next message.  The AEAD is ideal, and only the sender encrypts under
the receiver's key. -/
theorem decrypt [DecidableEq Key] (h : Direction A key tx rx said heard)
    {log : List (Sealing Key)}
    (hlog : ∀ s ∈ log, s.key = rx.channel.recvCipher.key → s ∈ tx.channel.sendCipher.sealed)
    (wire : Bytes) : ∃ heard', Direction A key tx (rx.decrypt (A.ideal log) wire) said heard' := by
  have hout := SecureChannel.decrypt_outcome (A.ideal log) wire rx.channel
  generalize hrun : (SecureChannel.decrypt (A.ideal log) wire).run rx.channel = r at hout
  cases hout with
  | closed hclosed => exact ⟨heard, by rwa [Party.decrypt_rejected hrun (by simp)]⟩
  | malformed hopen hdecode =>
      have he := decode_error hdecode
      exact ⟨heard, by rwa [Party.decrypt_rejected hrun (by grind)]⟩
  | replayed hopen hdecode hcheck =>
      have he := ReplayWindow.check_error hcheck
      exact ⟨heard, by rwa [Party.decrypt_rejected hrun (by grind)]⟩
  | exhausted => exact ⟨heard, by rwa [Party.decrypt_rejected hrun (by simp)]⟩
  | tampered => exact ⟨heard, by rwa [Party.decrypt_rejected hrun (by simp)]⟩
  | @authenticated frame plaintext hopen hdecode hcheck hnonce htag =>
      rw [h.sends.cipher_eq] at hlog
      obtain ⟨m, hnext, had, rfl, -⟩ := h.inStep.next_of_ideal h.heard_prefix hlog htag
      have htype : frame.msgType = m.msgType := by
        have hlen := h.sends.length_le
        have hfits := h.sends.fits m (hnext.subset (by simp))
        have hheard := hnext.length_le
        simp only [List.length_append, List.length_singleton, MAX_NONCE] at hlen hheard
        simp only [MAX_PLAINTEXT, MAX_PAYLOAD, AEAD_TAG_LEN] at hfits
        exact (headerBytes_inj frame.seq_le (by simp only [MAX_SEQ]; omega) frame.payload_le
          (by simp only [MAX_PAYLOAD, AEAD_TAG_LEN]; omega) had).1
      obtain ⟨c, hc, hcipher, -, -⟩ := SecureChannel.run_receive (A.ideal log) m frame.seq
        (rx.channel.authenticated frame)
      rw [htype] at hrun
      refine ⟨heard ++ [m], ?_⟩
      rw [Party.decrypt_message (hrun.trans hc)]
      refine h.hear hnext (hcipher.trans ?_)
      simp [AeadStream.advance, stream, SecureChannel.authenticated, CipherState.ratchet, Aead.ideal]

end Direction

/-! ## The session -/

abbrev Session (Key T : Type) [Zero T] [LE T] := Side → Party Key T

/-- What happens: a side calls `encrypt` or `close_frame`, or the network
hands it bytes. -/
inductive Event where
  | encrypt (side : Side) (arg : Arg)
  | closeFrame (side : Side)
  | decrypt (side : Side) (wire : Bytes)
  deriving Repr

namespace Session

/-- Two fresh channels from one honest handshake. -/
def start (keys : Side → Key) (hash : Bytes) (static : Side → Bytes) (replay : Side → ReplayWindow)
    (rekey : Side → RekeyPolicy T) : Session Key T :=
  fun side => Party.init
    (SecureChannel.init (honestHandshake keys hash static side) (replay side) (rekey side))

def log (s : Session Key T) : List (Sealing Key) :=
  (s .initiator).channel.sendCipher.sealed ++ (s .responder).channel.sendCipher.sealed

/-- What every run keeps: each direction has its sender and its receiver. -/
def Inv (A : Aead Key) (keys : Side → Key) (s : Session Key T) : Prop :=
  ∀ side : Side, ∃ said heard, Direction A (keys side) (s side) (s side.peer) said heard

theorem inv_start (A : Aead Key) (keys : Side → Key) (hash : Bytes) (static : Side → Bytes)
    (replay : Side → ReplayWindow) (rekey : Side → RekeyPolicy T) :
    Inv A keys (start keys hash static replay rekey) := by
  intro side
  refine ⟨[], [], .init _ _ _ rfl, List.prefix_refl _, ?_, rfl, rfl, by simp [start, Party.init]⟩
  have hrecv : (start keys hash static replay rekey side.peer).channel.recvCipher =
      .fresh (keys side.peer.peer) := rfl
  rw [hrecv, Side.peer_peer]
  exact .fresh (keys side)

/-- A step of one side concerns the direction in which it sends and the
direction in which it receives. -/
theorem Inv.update {A : Aead Key} {keys : Side → Key} {s : Session Key T} (h : Inv A keys s)
    (side : Side) {p : Party Key T}
    (htx : ∀ said heard, Direction A (keys side) (s side) (s side.peer) said heard →
      ∃ said', Direction A (keys side) p (s side.peer) said' heard)
    (hrx : ∀ said heard, Direction A (keys side.peer) (s side.peer) (s side) said heard →
      ∃ heard', Direction A (keys side.peer) (s side.peer) p said heard') :
    Inv A keys (Function.update s side p) := by
  refine Side.forall_of_peer side ?_ ?_
  · obtain ⟨said, heard, hdir⟩ := h side
    obtain ⟨said', hdir'⟩ := htx said heard hdir
    exact ⟨said', heard, by simpa using hdir'⟩
  · obtain ⟨said, heard, hdir⟩ := h side.peer
    rw [Side.peer_peer] at hdir
    obtain ⟨heard', hdir'⟩ := hrx said heard hdir
    exact ⟨said, heard', by simpa using hdir'⟩

/-- The two directions never come to use one key. -/
def KeysDistinct (A : Aead Key) (keys : Side → Key) : Prop :=
  ∀ i j, A.rekey^[i] (keys .initiator) ≠ A.rekey^[j] (keys .responder)

theorem KeysDistinct.ne {A : Aead Key} {keys : Side → Key} (h : KeysDistinct A keys) (side : Side)
    (i j : Nat) : A.rekey^[i] (keys side) ≠ A.rekey^[j] (keys side.peer) := by
  cases side with
  | initiator => exact h i j
  | responder => exact (h j i).symm

/-- Under a receiver's key only its peer encrypts. -/
theorem Inv.mem_sealed_of_mem_log {A : Aead Key} {keys : Side → Key} {s : Session Key T}
    (h : Inv A keys s) (hkeys : KeysDistinct A keys) (side : Side) :
    ∀ e ∈ s.log, e.key = (s side).channel.recvCipher.key →
      e ∈ (s side.peer).channel.sendCipher.sealed := by
  intro e he hkey
  have hmem : e ∈ (s side).channel.sendCipher.sealed ∨
      e ∈ (s side.peer).channel.sendCipher.sealed := by
    have hlog := List.mem_append.mp he
    cases side with
    | initiator => exact hlog
    | responder => exact hlog.symm
  refine hmem.resolve_left fun hown => ?_
  -- its own encryptions are under keys of the other chain
  obtain ⟨said, heard, hdir⟩ := h side
  obtain ⟨said', heard', hdir'⟩ := h side.peer
  rw [hdir.sends.cipher_eq] at hown
  rw [Side.peer_peer] at hdir'
  have hi := stream.key_of_mem_sealed A hown
  have hj := stream.key_cipher A (keys side.peer) heard'
  exact hkeys.ne side _ _ (by rw [← hi, ← hj, hkey, hdir'.inStep.key_eq])

variable [Sub T] [DecidableLE T] [DecidableEq Key]

def step (A : Aead Key) (s : Session Key T) : Event → Session Key T
  | .encrypt side arg => Function.update s side ((s side).encrypt A arg)
  | .closeFrame side => Function.update s side ((s side).closeFrame A)
  | .decrypt side wire => Function.update s side ((s side).decrypt (A.ideal s.log) wire)

def run (A : Aead Key) (s : Session Key T) (events : List Event) : Session Key T :=
  events.foldl (step A) s

/-- One step keeps the invariant. -/
theorem Inv.step {A : Aead Key} {keys : Side → Key} {s : Session Key T} (h : Inv A keys s)
    (hkeys : KeysDistinct A keys) (event : Event) : Inv A keys (step A s event) := by
  cases event with
  | encrypt side arg =>
      have hspec := Party.encrypt_spec A arg (s side)
      have hkeep := SecureChannel.encrypt_keeps_receiver A arg (s side).channel
      simp only [SecureChannel.receiver, Prod.mk.injEq] at hkeep
      exact h.update side (fun said heard hdir => hdir.encrypt arg)
        fun said heard hdir => ⟨heard, hdir.rx_congr (by rw [hspec.1, hkeep.1]) hspec.2.1 hspec.2.2⟩
  | closeFrame side =>
      have hkeep := SecureChannel.closeFrame_keeps_receiver A (s side).channel
      simp only [SecureChannel.receiver, Prod.mk.injEq] at hkeep
      exact h.update side (fun said heard hdir => hdir.closeFrame)
        fun said heard hdir => ⟨heard, hdir.rx_congr hkeep.1 rfl rfl⟩
  | decrypt side wire =>
      have hspec := Party.decrypt_spec (A.ideal s.log) wire (s side)
      refine h.update side (fun said heard hdir => ⟨said, hdir.say ?_ (List.prefix_refl _) ?_⟩)
        fun said heard hdir => hdir.decrypt (h.mem_sealed_of_mem_log hkeys side) wire
      · rw [hspec.1]
        exact hdir.sends.decrypt _ wire
      · rw [hspec.2]
        exact hdir.encrypted_eq

/-- A whole run keeps the invariant. -/
theorem Inv.run {A : Aead Key} {keys : Side → Key} {s : Session Key T} (h : Inv A keys s)
    (hkeys : KeysDistinct A keys) (events : List Event) : Inv A keys (run A s events) := by
  induction events generalizing s with
  | nil => exact h
  | cons event events ih => exact ih (h.step hkeys event)

/-- **In-order delivery.**  Whatever the two sides do and whatever the network
hands them, what a side's `decrypt` has returned is a prefix of what the other
side's `encrypt` has accepted; and once `decrypt` has said that the peer
closed, it is all of it, and the peer encrypts no more. -/
theorem returned_prefix_encrypted (A : Aead Key) (keys : Side → Key)
    (hkeys : KeysDistinct A keys) (hash : Bytes) (static : Side → Bytes)
    (replay : Side → ReplayWindow) (rekey : Side → RekeyPolicy T) (events : List Event)
    (side : Side) :
    let s := run A (start keys hash static replay rekey) events
    (s side).returned <+: (s side.peer).encrypted ∧
      ((s side).peerClosed = true →
        (s side).returned = (s side.peer).encrypted ∧ (s side.peer).channel.closed = true) := by
  intro s
  have hinv : Inv A keys s := (inv_start A keys hash static replay rekey).run hkeys events
  obtain ⟨said, heard, hdir⟩ := hinv side.peer
  rw [Side.peer_peer] at hdir
  exact hdir.delivered

/-- The responder reads a frame of the initiator, then is handed it again,
edited, and its own frame reflected. -/
theorem returned_prefix_encrypted_replay :
    let A := Aead.spelled (· + 2)
    let window : ReplayWindow := ⟨1024, (1 <<< 1024) - 1, -1, 0, by decide, rfl⟩
    let policy : RekeyPolicy ℤ := ⟨10000, 900, fun _ => 0, 1, 0, 0, by decide, by decide⟩
    let s₀ : Session Nat ℤ := start (fun side => if side = .initiator then 0 else 1) [] (fun _ => [])
      (fun _ => window) (fun _ => policy)
    let frame := headerFor .transport 0 [104, 105] ++ A.encrypt 0 0 [] [104, 105]
    let reflected := headerFor .transport 0 [33] ++ A.encrypt 1 0 [] [33]
    let s := run A s₀ [.encrypt .initiator (.bytesLike [104, 105]), .decrypt .responder frame,
      .decrypt .responder frame, .decrypt .responder (frame.set 14 0),
      .encrypt .responder (.bytesLike [33]), .decrypt .responder reflected]
    (s .responder).returned = [[104, 105]] ∧
      (s .responder).returned <+: (s .initiator).encrypted := by
  intro A window policy s₀ frame reflected s
  have hkeys : KeysDistinct A fun side => if side = .initiator then 0 else 1 := by
    have hiter : ∀ n k : ℕ, (fun m => m + 2)^[n] k = k + 2 * n := by
      intro n k
      induction n generalizing k with
      | zero => rfl
      | succ n ih => rw [Function.iterate_succ_apply, ih]; omega
    intro i j
    simp only [A, Aead.spelled, hiter]
    simp
    omega
  exact ⟨by decide, (returned_prefix_encrypted A _ hkeys [] (fun _ => []) (fun _ => window)
    (fun _ => policy) _ .responder).1⟩

end Session

end SecureWs
