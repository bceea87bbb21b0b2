import SecureWs.Noise
import SecureWs.Session

/-!
# SecureWs.Exchange

The driver in an ideal exchange.

* `IdealExchange` is the exchange of three messages that Noise XX gives the two
  ends, one state of the library for each end and each number of messages;
  `NoiseLibrary.Ideal` says that there is one for all payloads that fit, and
  `ideal_xx` that Noise XX is such a library;
* `IdealExchange.driver` is the driver of an end after some of the messages, and
  `iterate_writes`, `iterate_reads`, `iterate_waits` and `iterate_returns` are the
  passes of its loop.
-/

namespace SecureWs

open Python

variable {Conn Key : Type}

/-! ## The ideal exchange -/

/-- The end that writes the message `n`. -/
def sender (n : Nat) : Side := if n % 2 = 0 then .initiator else .responder

/-- What the message `n` adds to its payload: an ephemeral key, an ephemeral
key, a sealed static key and a tag, a sealed static key and a tag. -/
def overhead (n : Nat) : Nat := if n = 0 then 32 else if n = 1 then 96 else 64

/-- How many messages an end has seen when it knows the other's static key. -/
def knownAfter : Side → Nat
  | .initiator => 2
  | .responder => 3

/-- Three messages, each with its payload, from the state in which the two ends
start: the end whose turn it is writes, the other reads the payload, and after
the third message both ends have finished with the same hash, each other's
static key and crossing keys. -/
structure IdealExchange (lib : NoiseLibrary Conn Key) (secret entropy : Side → Bytes)
    (prologue : Bytes) (payload : Nat → Bytes) where
  conn : Side → Nat → Conn
  message : Nat → Bytes
  hash : Bytes
  keys : Side → Key
  starts : ∀ side, conn side 0 =
    lib.startHandshake (side = .initiator) (secret side) prologue (entropy side)
  writes : ∀ n < 3, (lib.writeMessage (payload n)).run (conn (sender n) n) =
    (.ok (message n), conn (sender n) (n + 1))
  reads : ∀ n < 3, (lib.readMessage (message n)).run (conn (sender n).peer n) =
    (.ok (payload n), conn (sender n).peer (n + 1))
  fits : ∀ n, (message n).length ≤ MAX_PAYLOAD
  running : ∀ side, ∀ n < 3, lib.handshakeFinished (conn side n) = false
  finishes : ∀ side, lib.handshakeFinished (conn side 3) = true
  static_eq : ∀ side, lib.remoteStatic (conn side (knownAfter side)) =
    some (lib.publicKey (secret side.peer))
  hash_eq : ∀ side, lib.handshakeHash (conn side 3) = hash
  encrypt_eq : ∀ side, lib.cipherStateEncrypt (conn side 3) = .fresh (keys side)
  decrypt_eq : ∀ side, lib.cipherStateDecrypt (conn side 3) = .fresh (keys side.peer)

/-- Noise XX taken as an ideal exchange: there is one for all payloads that fit. -/
def NoiseLibrary.Ideal (lib : NoiseLibrary Conn Key) (secret entropy : Side → Bytes)
    (prologue : Bytes) : Prop :=
  ∀ payload : Nat → Bytes, (∀ n < 3, (payload n).length + overhead n ≤ MAX_PAYLOAD) →
    Nonempty (IdealExchange lib secret entropy prologue payload)

/-- Two ends of Noise XX whose keys agree are such a library. -/
theorem ideal_xx {P : NoiseXX.Primitives Key} (lawful : P.Lawful) (name prologue : Bytes)
    {secret entropy : Side → Bytes}
    (hee : NoiseXX.Agree P (entropy .initiator) (entropy .responder))
    (hes : NoiseXX.Agree P (entropy .initiator) (secret .responder))
    (hse : NoiseXX.Agree P (secret .initiator) (entropy .responder)) :
    (NoiseLibrary.xx P name).Ideal secret entropy prologue := by
  intro payload hfits
  have hfit₀ := hfits 0 (by decide)
  have hfit₁ := hfits 1 (by decide)
  have hfit₂ := hfits 2 (by decide)
  obtain ⟨t⟩ := NoiseXX.exchange lawful name prologue hee hes hse (payload 0) (payload 1) (payload 2)
  have hlen₀ := t.length₁
  have hlen₁ := t.length₂
  have hlen₂ := t.length₃
  simp only [overhead, if_true, Nat.one_ne_zero, OfNat.ofNat_ne_zero, if_false,
    OfNat.ofNat_ne_one] at hfit₀ hfit₁ hfit₂
  exact ⟨{
    conn := fun side n => match side with
      | .initiator => match n with
        | 0 => NoiseXX.start P name true (secret .initiator) (entropy .initiator) prologue
        | 1 => t.i₁
        | 2 => t.i₂
        | _ => t.i₃
      | .responder => match n with
        | 0 => NoiseXX.start P name false (secret .responder) (entropy .responder) prologue
        | 1 => t.r₁
        | 2 => t.r₂
        | _ => t.r₃
    message := fun n => if n = 0 then t.m₁ else if n = 1 then t.m₂ else t.m₃
    hash := t.i₃.symmetric.h
    keys := fun side => if side = .initiator then t.keys.1 else t.keys.2
    starts := fun side => by cases side <;> rfl
    writes := fun n hn => by
      interval_cases n
      · exact run_callOf_ok t.write₁
      · exact run_callOf_ok t.write₂
      · exact run_callOf_ok t.write₃
    reads := fun n hn => by
      interval_cases n
      · exact run_callOf_ok t.read₁
      · exact run_callOf_ok t.read₂
      · exact run_callOf_ok t.read₃
    fits := fun n => by
      split_ifs <;> omega
    running := fun side n hn => by
      have hopen₁ := t.open₁
      have hopen₂ := t.open₂
      cases side with
      | initiator => interval_cases n <;> simp [NoiseLibrary.xx, NoiseXX.start, hopen₁, hopen₂]
      | responder => interval_cases n <;> simp [NoiseLibrary.xx, NoiseXX.start, hopen₁, hopen₂]
    finishes := fun side => by cases side <;> simp [NoiseLibrary.xx, t.done]
    static_eq := fun side => by
      cases side with
      | initiator => exact t.static_r
      | responder => exact t.static_i
    hash_eq := fun side => by
      cases side with
      | initiator => rfl
      | responder => exact t.hash.symm
    encrypt_eq := fun side => by
      cases side <;> simp [NoiseLibrary.xx, transportKeys, t.done, t.initiators]
    decrypt_eq := fun side => by
      cases side <;> simp [NoiseLibrary.xx, transportKeys, t.done, t.initiators, Side.peer] }⟩

/-! ## The driver along the exchange -/

/-- The payloads of the handshake: nothing in the first message, and then the
certificate of the end that writes. -/
def payloads (certs : Side → Bytes) (n : Nat) : Bytes := if n = 0 then [] else certs (sender n)

namespace IdealExchange

variable {lib : NoiseLibrary Conn Key} {secret entropy certs : Side → Bytes} {prologue : Bytes}
  (x : IdealExchange lib secret entropy prologue (payloads certs))

def frame (n : Nat) : Bytes :=
  headerBytes .handshake (n / 2) (x.message n).length ++ x.message n

def captured (side : Side) : Nat → Option Bytes
  | 0 => none
  | n + 1 => if sender n = side then captured side n
      else (lib.remoteStatic (x.conn side (n + 1))).or (captured side n)

/-- The driver of an end after `n` messages. -/
def driver (side : Side) (n : Nat) : Driver Conn where
  hs := ⟨x.conn side n, side = .initiator, lib.publicKey (secret side), x.captured side n, n⟩
  localCertBytes := certs side
  peerCert := if knownAfter side ≤ n then certs side.peer else []
  writeIndex := if side = .initiator then (n + 1) / 2 else n / 2

variable {x}

/-- The turns of the driver are those of the exchange. -/
theorem nextIsWrite_driver (side : Side) (n : Nat) :
    (x.driver side n).hs.nextIsWrite = decide (sender n = side) := by
  show ((n % 2 == 0) == decide (side = .initiator)) = _
  unfold sender
  by_cases h : n % 2 = 0
  · cases side <;> simp [h]
  · cases side <;> simp [h]

/-- The driver writes the payload of the exchange. -/
theorem payload_driver {n : Nat} (hn : n < 3) : (x.driver (sender n) n).payload = payloads certs n := by
  interval_cases n <;> rfl

/-- A pass that writes. -/
theorem iterate_writes {n : Nat} (hn : n < 3) (first : Option WsMessage) :
    (x.driver (sender n) n).iterate lib first = .wrote (x.frame n) (x.driver (sender n) (n + 1)) := by
  have hturn : (x.driver (sender n) n).hs.nextIsWrite = true := by simp [nextIsWrite_driver]
  have hwrite : (lib.writeMessage (x.driver (sender n) n).payload).run
      (x.driver (sender n) n).hs.conn = (.ok (x.message n), x.conn (sender n) (n + 1)) := by
    rw [payload_driver hn]
    exact x.writes n hn
  have hindex : (x.driver (sender n) n).writeIndex = n / 2 := by
    interval_cases n <;> rfl
  have hwrote := Driver.iterate_wrote (x.running (sender n) n hn) hturn hwrite
    (by rw [hindex]; simp only [MAX_SEQ]; omega) (x.fits n) first
  rw [hwrote]
  interval_cases n <;> rfl

/-- A pass that reads. -/
theorem iterate_reads {n : Nat} (hn : n < 3) :
    (x.driver (sender n).peer n).iterate lib (some (.binary (x.frame n))) =
      .read (x.driver (sender n).peer (n + 1)) := by
  have hturn : (x.driver (sender n).peer n).hs.nextIsWrite = false := by simp [nextIsWrite_driver]
  have hindex : n / 2 ≤ MAX_SEQ := by simp only [MAX_SEQ]; omega
  have hread : (x.driver (sender n).peer n).iterate lib
      (some (.binary (Driver.frame (n / 2) (x.message n) hindex (x.fits n)).wire)) = .read _ :=
    Driver.iterate_read (x.running (sender n).peer n hn) hturn (x.reads n hn) hindex (x.fits n)
  have hcert : ∀ cert : Bytes, (if cert ≠ [] then cert else []) = cert := by
    intro cert
    by_cases h : cert = [] <;> simp [h]
  refine hread.trans ?_
  interval_cases n
  · rfl
  · simp [driver, captured, knownAfter, sender, payloads, Side.peer, hcert]
  · simp [driver, captured, knownAfter, sender, payloads, Side.peer, hcert]

/-- A pass that waits. -/
theorem iterate_waits {side : Side} {n : Nat} (hn : n < 3) (hturn : sender n ≠ side) :
    (x.driver side n).iterate lib none = .waiting :=
  Driver.iterate_waiting (x.running side n hn) (by simp [nextIsWrite_driver, hturn])

/-- The pass that leaves the loop. -/
theorem iterate_returns (side : Side) (first : Option WsMessage) :
    (x.driver side 3).iterate lib first = .returned
      (honestHandshake x.keys x.hash (fun side => lib.publicKey (secret side)) side)
      (certs side.peer) := by
  have hkey : (x.driver side 3).hs.remoteStatic = some (lib.publicKey (secret side.peer)) := by
    have hstatic := x.static_eq side
    cases side with
    | initiator => simpa [driver, captured, sender, knownAfter, Side.peer] using hstatic
    | responder =>
        rw [knownAfter] at hstatic
        simp [driver, captured, sender, hstatic]
  have hreturned := Driver.iterate_returned (x.finishes side) hkey first
  rw [hreturned]
  simp only [driver, x.hash_eq, x.encrypt_eq, x.decrypt_eq, honestHandshake]
  cases side <;> rfl

/-! ## The frames between two positions -/

variable (x)

/-- The frames of the messages from `a` up to `b` that `side` writes. -/
def between (side : Side) (a b : Nat) : List Bytes :=
  ((List.range' a (b - a)).filter fun k => sender k = side).map x.frame

/-- Which message of the exchange an end writes as its number `index`. -/
def position (side : Side) (index : Nat) : Nat :=
  if side = .initiator then 2 * index else 2 * index + 1

/-- What an end has written after `n` messages: each payload with its frame. -/
def wrote (side : Side) (n : Nat) : List (Bytes × Bytes) :=
  ((List.range' 0 n).filter fun k => sender k = side).map fun k => (payloads certs k, x.frame k)

theorem between_eq_nil {side : Side} {a b : Nat} (h : b ≤ a) : x.between side a b = [] := by
  rw [between, Nat.sub_eq_zero_of_le h]
  rfl

/-- One message less, in front. -/
theorem between_eq_cons (side : Side) {a b : Nat} (h : a < b) : x.between side a b =
    (if sender a = side then [x.frame a] else []) ++ x.between side (a + 1) b := by
  have hlen : b - a = b - (a + 1) + 1 := by omega
  rw [between, hlen, List.range'_succ, List.filter_cons]
  by_cases hside : sender a = side
  · simp [hside, between]
  · simp [hside, between]

/-- One message more, behind. -/
theorem between_succ (side : Side) {a b : Nat} (h : a ≤ b) : x.between side a (b + 1) =
    x.between side a b ++ if sender b = side then [x.frame b] else [] := by
  have hlen : b + 1 - a = b - a + 1 := by omega
  have hlast : a + (b - a) = b := by omega
  rw [between, hlen, List.range'_concat, Nat.one_mul, hlast, List.filter_append, List.map_append]
  by_cases hside : sender b = side
  · simp [hside, between]
  · simp [hside, between]

theorem wrote_succ (side : Side) (n : Nat) : x.wrote side (n + 1) =
    x.wrote side n ++ if sender n = side then [(payloads certs n, x.frame n)] else [] := by
  rw [wrote, List.range'_concat, Nat.one_mul, Nat.zero_add, List.filter_append, List.map_append]
  by_cases hside : sender n = side
  · simp [hside, wrote]
  · simp [hside, wrote]

/-- The position of the reader does not matter for a message of its own. -/
theorem between_succ_left {side : Side} {n : Nat} (h : sender n ≠ side) (m : Nat) :
    x.between side (n + 1) m = x.between side n m := by
  by_cases hlt : n < m
  · rw [between_eq_cons x side hlt, if_neg h, List.nil_append]
  · rw [between_eq_nil x (by omega), between_eq_nil x (by omega)]

/-- The position of the writer does not matter for a message of the other. -/
theorem between_succ_right {side : Side} {n : Nat} (h : sender n ≠ side) (m : Nat) :
    x.between side m (n + 1) = x.between side m n := by
  by_cases hle : m ≤ n
  · rw [between_succ x side hle, if_neg h, List.append_nil]
  · rw [between_eq_nil x (by omega), between_eq_nil x (by omega)]

/-- What an end has read and what waits for it, when it has seen no message of
the other end that was not written. -/
theorem between_append {side : Side} {a b : Nat} (h : ∀ k < a, sender k = side → k < b) :
    x.between side 0 a ++ x.between side a b = x.between side 0 b := by
  obtain hle | hle := Nat.le_total a b
  · induction b, hle using Nat.le_induction with
    | base => rw [between_eq_nil x (Nat.le_refl a), List.append_nil]
    | succ b hab ih =>
        rw [between_succ x side hab, between_succ x side (Nat.zero_le b), ← List.append_assoc,
          ih fun k hk _ => by omega]
  · rw [between_eq_nil x hle, List.append_nil]
    induction a, hle using Nat.le_induction with
    | base => rfl
    | succ a hba ih =>
        have hother : sender a ≠ side := fun hside => by
          have hlt := h a (Nat.lt_succ_self a) hside
          omega
        rw [between_succ_right x hother]
        exact ih fun k hk => h k (Nat.lt_succ_of_lt hk)

theorem map_snd_wrote (side : Side) (n : Nat) :
    (x.wrote side n).map Prod.snd = x.between side 0 n := by
  simp [wrote, between]

/-- The frame `frame` holds the message `n` of the handshake that the two ends
have started: the library of the one has written it for `payload`, and that of the
other reads `payload` in it. -/
structure Carries (n : Nat) (payload frame : Bytes) : Prop where
  encoded : encode .handshake (n / 2 : Nat) (x.message n) = .ok frame
  written : (lib.writeMessage payload).run (x.conn (sender n) n) =
    (.ok (x.message n), x.conn (sender n) (n + 1))
  readBack : (lib.readMessage (x.message n)).run (x.conn (sender n).peer n) =
    (.ok payload, x.conn (sender n).peer (n + 1))

/-- A frame of the exchange carries its payload. -/
theorem carries_frame {n : Nat} (hn : n < 3) : x.Carries n (payloads certs n) (x.frame n) where
  encoded := by
    have hindex : n / 2 ≤ MAX_SEQ := by simp only [MAX_SEQ]; omega
    exact encode_frame (Driver.frame (n / 2) (x.message n) hindex (x.fits n))
  written := x.writes n hn
  readBack := x.reads n hn

variable {x}

/-- Such a frame is a HANDSHAKE frame. -/
theorem Carries.msgType {n : Nat} {payload frame : Bytes} (h : x.Carries n payload frame) :
    ∃ f, decode frame = .ok f ∧ f.msgType = .handshake := by
  obtain ⟨f, htype, -, -, rfl⟩ := encode_eq_ok_iff.mp h.encoded
  exact ⟨f, decode_wire f, htype⟩

/-- What an end has written as its number `index` is that message of the exchange. -/
theorem carries_of_wrote {side : Side} {n : Nat} (hn : n ≤ 3) {index : Nat} {payload frame : Bytes}
    (h : (x.wrote side n)[index]? = some (payload, frame)) :
    x.Carries (position side index) payload frame := by
  have hmessage : position side index < 3 ∧ payload = payloads certs (position side index) ∧
      frame = x.frame (position side index) := by
    cases side with
    | initiator =>
        obtain _ | _ | index := index
        · interval_cases n <;> simp_all [wrote, sender, position, List.range']
        · interval_cases n <;> simp_all [wrote, sender, position, List.range']
        · interval_cases n <;> simp [wrote, sender, List.range'] at h
    | responder =>
        obtain _ | index := index
        · interval_cases n <;> simp_all [wrote, sender, position, List.range']
        · interval_cases n <;> simp [wrote, sender, List.range'] at h
  obtain ⟨hlt, rfl, rfl⟩ := hmessage
  exact x.carries_frame hlt

end IdealExchange

/-- The payloads that an end writes: the certificate goes into the initiator's
second message and into the responder's first. -/
def payloadsOf (certs : Side → Bytes) : Side → List Bytes
  | .initiator => [[], certs .initiator]
  | .responder => [certs .responder]

namespace IdealExchange

variable {lib : NoiseLibrary Conn Key} {secret entropy certs : Side → Bytes} {prologue : Bytes}
  (x : IdealExchange lib secret entropy prologue (payloads certs))

theorem map_fst_wrote_prefix (side : Side) {n : Nat} (hn : n ≤ 3) :
    (x.wrote side n).map Prod.fst <+: payloadsOf certs side := by
  cases side with
  | initiator => interval_cases n <;> simp [wrote, payloadsOf, payloads, sender, List.range']
  | responder => interval_cases n <;> simp [wrote, payloadsOf, payloads, sender, List.range']

/-- An end that the other has heard out has written everything. -/
theorem map_fst_wrote_eq {side : Side} {n : Nat} (hn : n ≤ 3)
    (hall : ∀ k < 3, sender k = side → k < n) : (x.wrote side n).map Prod.fst = payloadsOf certs side := by
  cases side with
  | initiator =>
      have hlast := hall 2 (by omega) rfl
      interval_cases n
      rfl
  | responder =>
      have hlast := hall 1 (by omega) rfl
      interval_cases n
      · rfl
      · rfl

end IdealExchange

end SecureWs
