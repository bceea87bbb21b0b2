import SecureWs.Lib.AeadStream
import SecureWs.Channel

/-!
# SecureWs.Stream

What one direction of a channel says, as a list of messages.

A channel sends TRANSPORT, REKEY and CLOSE messages; `stream` fixes how each
of them goes under the AEAD.  `Sends` says that a channel is the sender of
the messages `said`: its cipher is that of the abstract stream, its sequence
number counts them, and nothing follows a CLOSE.  `Sends.encrypt` and
`Sends.closeFrame` say how each call extends the list.
-/

namespace SecureWs

open Python

/-- A message of one direction. -/
inductive Msg where
  | transport (plaintext : Bytes)
  | rekey
  | close
  deriving DecidableEq, Repr

namespace Msg

def msgType : Msg → MessageType
  | transport _ => .transport
  | rekey => .rekey
  | close => .close

/-- The plaintext of a message; control messages have none. -/
def plaintext : Msg → Bytes
  | transport plaintext => plaintext
  | rekey => []
  | close => []

/-- What the receiving application gets to see. -/
def delivered? : Msg → Option Bytes
  | transport plaintext => some plaintext
  | rekey => none
  | close => none

end Msg

def plaintexts (said : List Msg) : List Bytes := said.filterMap Msg.delivered?

@[simp] theorem plaintexts_append (said new : List Msg) :
    plaintexts (said ++ new) = plaintexts said ++ plaintexts new := List.filterMap_append

@[simp] theorem plaintexts_cons (m : Msg) (said : List Msg) :
    plaintexts (m :: said) = m.delivered?.toList ++ plaintexts said := by
  cases m <;> rfl

@[simp] theorem plaintexts_nil : plaintexts [] = [] := rfl

/-- A message goes under the AEAD with its frame header as associated data,
and a REKEY replaces the key. -/
def stream : AeadStream Msg where
  ad seq m := headerFor m.msgType seq m.plaintext
  plaintext := Msg.plaintext
  ratchets m := m.msgType = .rekey

def frames {Key : Type} (A : Aead Key) (cs : CipherState Key) (new : List Msg) : List Bytes :=
  (stream.sealings A cs new).map Sealing.wire

/-- One frame for each message. -/
@[simp] theorem length_frames {Key : Type} (A : Aead Key) (cs : CipherState Key) (new : List Msg) :
    (frames A cs new).length = new.length := by
  simp [frames]

theorem frames_cons {Key : Type} (A : Aead Key) (cs : CipherState Key) (m : Msg) (new : List Msg) :
    frames A cs (m :: new) = (stream.sealing A cs m).wire :: frames A (stream.push A cs m) new := rfl

/-- More messages are sealed behind those before them. -/
theorem frames_append {Key : Type} (A : Aead Key) (key : Key) (said new new' : List Msg) :
    frames A (stream.cipher A key said) (new ++ new') =
      frames A (stream.cipher A key said) new ++
        frames A (stream.cipher A key (said ++ new)) new' := by
  simp [frames, AeadStream.sealings_append, AeadStream.cipher_append]

theorem frames_append_singleton {Key : Type} (A : Aead Key) (key : Key) (said : List Msg) (m : Msg) :
    frames A (stream.cipher A key []) (said ++ [m]) = frames A (stream.cipher A key []) said ++
      [(stream.sealing A (stream.cipher A key said) m).wire] :=
  frames_append A key [] said [m]

/-- The `i`-th frame is that of the `i`-th message. -/
theorem getElem?_frames {Key : Type} (A : Aead Key) (key : Key) (said : List Msg) (i : Nat) :
    (frames A (stream.cipher A key []) said)[i]? =
      said[i]?.map fun m => (stream.sealing A (stream.cipher A key (said.take i)) m).wire := by
  have h := stream.getElem?_sealed_cipher A key said i
  rw [AeadStream.sealed_cipher] at h
  rw [frames, List.getElem?_map, AeadStream.cipher_nil, h, Option.map_map]
  rfl

/-- The frame of a message decodes to that message: its type, its number, the
ciphertext, and the header that was authenticated. -/
theorem decode_sealing {Key : Type} {A : Aead Key} (hover : A.Overhead AEAD_TAG_LEN)
    (cs : CipherState Key) {m : Msg} (hseq : cs.nonce ≤ MAX_SEQ)
    (hfits : m.plaintext.length ≤ MAX_PLAINTEXT) :
    ∃ frame, decode (stream.sealing A cs m).wire = .ok frame ∧ frame.msgType = m.msgType ∧
      frame.seq = cs.nonce ∧ frame.payload = (stream.sealing A cs m).ciphertext ∧
      headerBytes frame.msgType frame.seq frame.payload.length = (stream.sealing A cs m).ad := by
  have hct : (stream.sealing A cs m).ciphertext.length = m.plaintext.length + AEAD_TAG_LEN :=
    hover _ _ _ _
  have had : (stream.sealing A cs m).ad =
      headerBytes m.msgType cs.nonce (stream.sealing A cs m).ciphertext.length := by
    rw [hct]
    rfl
  have hpay : (stream.sealing A cs m).ciphertext.length ≤ MAX_PAYLOAD := by
    rw [hct]
    simp only [MAX_PLAINTEXT, MAX_PAYLOAD, AEAD_TAG_LEN] at hfits ⊢
    omega
  refine ⟨⟨m.msgType, cs.nonce, _, hseq, hpay⟩, ?_, rfl, rfl, rfl, had.symm⟩
  rw [Sealing.wire, had]
  exact decode_wire ⟨m.msgType, cs.nonce, _, hseq, hpay⟩

/-- Every frame fits the transport's limit. -/
theorem length_le_of_mem_frames {Key : Type} {A : Aead Key} (hover : A.Overhead AEAD_TAG_LEN)
    {cs : CipherState Key} {new : List Msg} (hfits : ∀ m ∈ new, m.plaintext.length ≤ MAX_PLAINTEXT)
    {frame : Bytes} (h : frame ∈ frames A cs new) : frame.length ≤ HEADER_LEN + MAX_PAYLOAD := by
  induction new generalizing cs with
  | nil => simp [frames, AeadStream.sealings] at h
  | cons m new ih =>
      simp only [frames, AeadStream.sealings, List.map_cons, List.mem_cons] at h
      cases h with
      | inl heq =>
          have hlen := hfits m (by simp)
          have hct : (stream.sealing A cs m).ciphertext.length =
              m.plaintext.length + AEAD_TAG_LEN := hover _ _ _ _
          have had : (stream.sealing A cs m).ad.length = HEADER_LEN := length_headerBytes ..
          rw [heq, Sealing.wire, List.length_append, had, hct]
          simp only [MAX_PLAINTEXT, MAX_PAYLOAD, AEAD_TAG_LEN] at hlen ⊢
          omega
      | inr hmem => exact ih (fun m' hm' => hfits m' (List.mem_cons_of_mem _ hm')) hmem

variable {Key T : Type} [Zero T] [LE T]

namespace SecureChannel

/-- The channel `c`, which started with the send key `key`, is the sender of
the messages `said`. -/
structure Sends (A : Aead Key) (key : Key) (said : List Msg) (c : SecureChannel Key T) : Prop where
  cipher_eq : c.sendCipher = stream.cipher A key said
  /-- the sequence number counts the messages, until the nonces run out -/
  seq_eq : c.sendSeq = said.length ∨ said.length = MAX_NONCE ∧ said.length < c.sendSeq
  length_le : said.length ≤ MAX_NONCE
  fits : ∀ m ∈ said, m.plaintext.length ≤ MAX_PLAINTEXT
  close_last : ∀ m ∈ said.dropLast, m ≠ .close
  closed_of_close : .close ∈ said → c.closed = true

/-- What a successful call of `encrypt` says. -/
def batch [Sub T] [DecidableLE T] (c : SecureChannel Key T) (plaintext : Bytes) : List Msg :=
  if c.rekey.isDue = true then [.rekey, .transport plaintext] else [.transport plaintext]

@[simp] theorem plaintexts_batch [Sub T] [DecidableLE T] (c : SecureChannel Key T)
    (plaintext : Bytes) : plaintexts (c.batch plaintext) = [plaintext] := by
  unfold batch
  split <;> rfl

/-- A call of `encrypt` says one message, or two if a rekey is due. -/
theorem length_batch [Sub T] [DecidableLE T] (c : SecureChannel Key T) (plaintext : Bytes) :
    (c.batch plaintext).length = if c.rekey.isDue = true then 2 else 1 := by
  unfold batch
  split <;> rfl

/-- These are the transport message, and a REKEY before it. -/
theorem batch_cases [Sub T] [DecidableLE T] (c : SecureChannel Key T) (plaintext : Bytes) :
    c.batch plaintext = [.transport plaintext] ∨
      c.batch plaintext = [.rekey, .transport plaintext] := by
  unfold batch
  by_cases hdue : c.rekey.isDue = true
  · exact Or.inr (if_pos hdue)
  · exact Or.inl (if_neg hdue)

/-- The REKEY that is due, and the message. -/
theorem batch_eq_append [Sub T] [DecidableLE T] (c : SecureChannel Key T) (plaintext : Bytes) :
    c.batch plaintext =
      (if c.rekey.isDue = true then [.rekey] else []) ++ [.transport plaintext] := by
  unfold batch
  split <;> rfl

/-- `encrypt` never says CLOSE. -/
theorem close_notMem_batch [Sub T] [DecidableLE T] (c : SecureChannel Key T) (plaintext : Bytes) :
    .close ∉ c.batch plaintext := by
  obtain hbatch | hbatch := c.batch_cases plaintext
  · simp [hbatch]
  · simp [hbatch]

/-- `encrypt` will return: the channel is open, the argument a message, and
there are nonces left for its frames. -/
def CanEncrypt [Sub T] [DecidableLE T] (c : SecureChannel Key T) (arg : Arg) : Prop :=
  c.closed = false ∧ ∃ plaintext, arg = .bytesLike plaintext ∧ plaintext.length ≤ MAX_PLAINTEXT ∧
    c.sendCipher.nonce + (c.batch plaintext).length ≤ MAX_NONCE

/-- A call that succeeds has a nonce left. -/
theorem CanEncrypt.nonce_lt [Sub T] [DecidableLE T] {c : SecureChannel Key T} {arg : Arg}
    (h : c.CanEncrypt arg) : c.sendCipher.nonce < MAX_NONCE := by
  obtain ⟨-, plaintext, -, -, hnonces⟩ := h
  rw [length_batch] at hnonces
  split at hnonces <;> omega

namespace Sends

variable {A : Aead Key} {key : Key} {said : List Msg} {c c' : SecureChannel Key T}

/-- A fresh channel has said nothing. -/
theorem init (result : HandshakeResult Key) (replay : ReplayWindow) (rekey : RekeyPolicy T)
    (hsend : result.sendCipher = .fresh key) :
    Sends A key [] (SecureChannel.init result replay rekey) where
  cipher_eq := hsend
  seq_eq := Or.inl rfl
  length_le := Nat.zero_le _
  fits := by simp
  close_last := by simp
  closed_of_close := by simp

/-- The nonce counts the messages. -/
theorem nonce_eq (h : Sends A key said c) : c.sendCipher.nonce = said.length := by
  rw [h.cipher_eq, AeadStream.nonce_cipher]

/-- A frame can go out until the nonces are used up. -/
theorem canEmit_iff (h : Sends A key said c) : c.CanEmit ↔ said.length < MAX_NONCE := by
  have hseq := h.seq_eq
  have hle := h.length_le
  have hn := h.nonce_eq
  simp only [CanEmit, hn, MAX_SEQ, MAX_NONCE] at *
  omega

/-- While a frame can go out, the next number is the number of messages. -/
theorem seq_of_canEmit (h : Sends A key said c) (hcan : c.CanEmit) : c.sendSeq = said.length := by
  have hlt := h.canEmit_iff.mp hcan
  have hseq := h.seq_eq
  omega

/-- Whoever heard the CLOSE heard everything. -/
theorem eq_of_close_mem (h : Sends A key said c) {heard : List Msg} (hpre : heard <+: said)
    (hclose : .close ∈ heard) : heard = said := by
  obtain ⟨rest, rfl⟩ := hpre
  cases rest with
  | nil => rw [List.append_nil]
  | cons m rest =>
      have hmem : Msg.close ∈ (heard ++ m :: rest).dropLast := by
        rw [List.dropLast_append_of_ne_nil (by simp)]
        exact List.mem_append_left _ hclose
      exact absurd rfl (h.close_last _ hmem)

/-- An open channel has not said CLOSE. -/
theorem not_close_mem (h : Sends A key said c) (hopen : c.closed = false) : .close ∉ said := by
  intro hmem
  rw [h.closed_of_close hmem] at hopen
  contradiction

/-- What the invariant reads of the channel. -/
theorem congr (h : Sends A key said c) (hcipher : c'.sendCipher = c.sendCipher)
    (hseq : c'.sendSeq = c.sendSeq) (hclosed : c.closed = true → c'.closed = true) :
    Sends A key said c' :=
  ⟨hcipher.trans h.cipher_eq, hseq ▸ h.seq_eq, h.length_le, h.fits, h.close_last,
    fun hmem => hclosed (h.closed_of_close hmem)⟩

/-- One message more. -/
theorem snoc (h : Sends A key said c) (hopen : c.closed = false) (hcan : c.CanEmit) {m : Msg}
    (hlen : m.plaintext.length ≤ MAX_PLAINTEXT)
    (hcipher : c'.sendCipher = stream.push A c.sendCipher m) (hseq : c'.sendSeq = c.sendSeq + 1)
    (hclosed : m = .close → c'.closed = true) : Sends A key (said ++ [m]) c' where
  cipher_eq := by rw [hcipher, h.cipher_eq, AeadStream.cipher_append_singleton]
  seq_eq := by
    have hs := h.seq_of_canEmit hcan
    simp [hseq, hs]
  length_le := by
    have hlt := h.canEmit_iff.mp hcan
    simpa using hlt
  fits := by
    simp only [List.mem_append, List.mem_singleton]
    intro m' hmem
    obtain hm | rfl := hmem
    · exact h.fits m' hm
    · exact hlen
  close_last := by
    rw [List.dropLast_concat]
    intro m' hm heq
    exact h.not_close_mem hopen (heq ▸ hm)
  closed_of_close := by
    simp only [List.mem_append, List.mem_singleton]
    intro hcases
    obtain hm | rfl := hcases
    · exact absurd hm (h.not_close_mem hopen)
    · exact hclosed rfl

/-- A failed frame costs a sequence number and nothing else. -/
theorem skipSeq (h : Sends A key said c) (hfull : ¬ c.CanEmit) : Sends A key said c.skipSeq where
  cipher_eq := h.cipher_eq
  seq_eq := by
    have hlt := mt h.canEmit_iff.mpr hfull
    have hle := h.length_le
    have hseq := h.seq_eq
    simp only [SecureChannel.skipSeq]
    omega
  length_le := h.length_le
  fits := h.fits
  close_last := h.close_last
  closed_of_close := h.closed_of_close

/-- The frame of the next message. -/
theorem emitted_eq (h : Sends A key said c) (hcan : c.CanEmit) (m : Msg) :
    c.emitted A m.msgType m.plaintext = (stream.sealing A c.sendCipher m).wire := by
  have hn : c.sendCipher.nonce = c.sendSeq := by
    rw [h.seq_of_canEmit hcan, h.cipher_eq, AeadStream.nonce_cipher]
  simp [SecureChannel.emitted, AeadStream.sealing, stream, Sealing.wire, hn, CipherState.sealing]

/-- Encrypting under the header is the step of the abstract stream. -/
theorem push_eq (h : Sends A key said c) (hcan : c.CanEmit) {m : Msg} (hm : m.msgType ≠ .rekey) :
    c.sendCipher.afterSeal A (headerFor m.msgType c.sendSeq m.plaintext) m.plaintext =
      stream.push A c.sendCipher m := by
  have hn : c.sendCipher.nonce = c.sendSeq := by
    rw [h.seq_of_canEmit hcan, h.cipher_eq, AeadStream.nonce_cipher]
  simp [AeadStream.push, stream, hn, hm]

/-- A transport frame says its plaintext. -/
theorem afterTransport (h : Sends A key said c) (hopen : c.closed = false) (hcan : c.CanEmit)
    {plaintext : Bytes} (hlen : plaintext.length ≤ MAX_PLAINTEXT) :
    Sends A key (said ++ [.transport plaintext]) (c.afterTransport A plaintext) :=
  h.snoc hopen hcan hlen (h.push_eq hcan (m := .transport plaintext) (by simp [Msg.msgType])) rfl
    (by simp)

/-- A CLOSE frame says CLOSE. -/
theorem afterClose (h : Sends A key said c) (hopen : c.closed = false) (hcan : c.CanEmit) :
    Sends A key (said ++ [.close]) (c.afterClose A) :=
  h.snoc hopen hcan (Nat.zero_le _) (h.push_eq hcan (m := .close) (by simp [Msg.msgType])) rfl
    fun _ => rfl

/-- A REKEY frame says REKEY, and the key moves with it. -/
theorem afterRekey (h : Sends A key said c) (hopen : c.closed = false) (hcan : c.CanEmit) :
    Sends A key (said ++ [.rekey]) (c.afterRekey A) := by
  have hn : c.sendCipher.nonce = c.sendSeq := by
    rw [h.seq_of_canEmit hcan, h.cipher_eq, AeadStream.nonce_cipher]
  refine h.snoc hopen hcan (Nat.zero_le _) ?_ rfl (by simp)
  simp [SecureChannel.afterRekey, afterControl, afterEmit, AeadStream.push, stream, hn, Msg.msgType,
    Msg.plaintext]

theorem polled (h : Sends A key said c) : Sends A key said c.polled := h.congr rfl rfl id

theorem rekeyDue (h : Sends A key said c) : Sends A key said c.rekeyDue := h.congr rfl rfl id

/-! ## Calls -/

section Encrypt

variable [Sub T] [DecidableLE T]

/-- Up to the message itself, `encrypt` said a REKEY if one was due. -/
theorem beforeTransport (h : Sends A key said c) (hopen : c.closed = false)
    (hdue : c.rekey.isDue = true → c.CanEmit) :
    Sends A key (said ++ if c.rekey.isDue = true then [.rekey] else []) (c.beforeTransport A) := by
  unfold SecureChannel.beforeTransport
  by_cases hd : c.rekey.isDue = true
  · rw [if_pos hd, if_pos hd]
    exact h.rekeyDue.afterRekey hopen (hdue hd)
  · rw [if_neg hd, if_neg hd, List.append_nil]
    exact h.polled

/-- The frames before a transport frame do not close the channel. -/
theorem closed_beforeTransport (A : Aead Key) (c : SecureChannel Key T) :
    (c.beforeTransport A).closed = c.closed := by
  unfold SecureChannel.beforeTransport
  split <;> rfl

/-- The policy after `encrypt` returned. -/
theorem rekey_afterEncrypt (A : Aead Key) (c : SecureChannel Key T) (plaintext : Bytes) :
    ((c.beforeTransport A).afterTransport A plaintext).rekey = c.rekey.afterEncrypt := by
  unfold SecureChannel.beforeTransport RekeyPolicy.afterEncrypt
  split <;> rfl

/-- The frames that `encrypt` emits are those of its batch. -/
theorem rekeyFrames_append (h : Sends A key said c) (hopen : c.closed = false)
    (hdue : c.rekey.isDue = true → c.CanEmit) (hcan : (c.beforeTransport A).CanEmit)
    (plaintext : Bytes) :
    c.rekeyFrames A ++ [(c.beforeTransport A).emitted A .transport plaintext] =
      frames A c.sendCipher (c.batch plaintext) := by
  have hbefore := h.beforeTransport hopen hdue
  have hframe := hbefore.emitted_eq hcan (.transport plaintext)
  unfold rekeyFrames batch
  by_cases hd : c.rekey.isDue = true
  · have hrekey := h.emitted_eq (hdue hd) .rekey
    have hpush : (c.beforeTransport A).sendCipher = stream.push A c.sendCipher .rekey := by
      rw [hbefore.cipher_eq, if_pos hd, AeadStream.cipher_append_singleton, h.cipher_eq]
    rw [if_pos hd, if_pos hd, frames_cons, frames_cons, ← hpush, ← hframe, ← hrekey]
    rfl
  · have hsame : (c.beforeTransport A).sendCipher = c.sendCipher := by
      rw [hbefore.cipher_eq, if_neg hd, List.append_nil, h.cipher_eq]
    rw [if_neg hd, if_neg hd, frames_cons, ← hsame, ← hframe]
    rfl

/-- **A call of `encrypt`.**  It returns the frames of its batch and has said
the batch; or it raises and has said at most a REKEY under the last nonce. -/
theorem encrypt (h : Sends A key said c) (arg : Arg) :
    (∃ plaintext, arg = .bytesLike plaintext ∧ c.CanEncrypt arg ∧
      (SecureChannel.encrypt A arg).run c =
        (.ok (frames A c.sendCipher (c.batch plaintext)),
          (c.beforeTransport A).afterTransport A plaintext) ∧
      Sends A key (said ++ c.batch plaintext)
        ((c.beforeTransport A).afterTransport A plaintext)) ∨
    (∃ e c', (SecureChannel.encrypt A arg).run c = (.error e, c') ∧
      (∃ new, plaintexts new = [] ∧ (new = [] ∨ (said ++ new).length = MAX_NONCE) ∧
        Sends A key (said ++ new) c') ∧ ¬c.CanEncrypt arg) := by
  have hout := encrypt_outcome A arg c
  generalize hrun : (SecureChannel.encrypt A arg).run c = r at hout
  have hsame : ∃ new, plaintexts new = [] ∧ (new = [] ∨ (said ++ new).length = MAX_NONCE) ∧
      Sends A key (said ++ new) c :=
    ⟨[], rfl, Or.inl rfl, by rwa [List.append_nil]⟩
  cases hout with
  | closed hclosed =>
      refine Or.inr ⟨_, _, rfl, hsame, fun ⟨hopen, _⟩ => ?_⟩
      rw [hclosed] at hopen
      contradiction
  | notBytes hopen =>
      refine Or.inr ⟨_, _, rfl, hsame, fun ⟨_, _, harg, _⟩ => ?_⟩
      cases harg
  | tooLarge hopen hlen =>
      refine Or.inr ⟨_, _, rfl, hsame, fun ⟨_, _, harg, hle, _⟩ => ?_⟩
      rw [Arg.bytesLike.inj harg] at hlen
      omega
  | rekeyFailed hopen hlen hdue hfull =>
      have hfull' := mt h.canEmit_iff.mpr hfull
      refine Or.inr ⟨_, _, rfl, ⟨[], rfl, Or.inl rfl, ?_⟩, fun ⟨_, _, _, _, hnonces⟩ => ?_⟩
      · rw [List.append_nil]
        exact h.rekeyDue.skipSeq hfull
      · rw [h.nonce_eq, length_batch, if_pos hdue] at hnonces
        omega
  | transportFailed hopen hlen hdue hfull =>
      have hbefore := h.beforeTransport hopen hdue
      have hfull' := mt hbefore.canEmit_iff.mpr hfull
      have hle := hbefore.length_le
      refine Or.inr ⟨_, _, rfl, ⟨_, ?_, Or.inr (by omega), hbefore.skipSeq hfull⟩,
        fun ⟨_, _, _, _, hnonces⟩ => ?_⟩
      · split <;> rfl
      · rw [h.nonce_eq, length_batch] at hnonces
        rw [List.length_append] at hfull'
        split at hnonces <;> simp_all <;> omega
  | @sent plaintext hopen hlen hdue hcan =>
      have hbefore := h.beforeTransport hopen hdue
      have hsends := hbefore.afterTransport ((closed_beforeTransport A c).trans hopen) hcan hlen
      rw [List.append_assoc, ← c.batch_eq_append plaintext] at hsends
      have hnonces := hsends.length_le
      rw [List.length_append, ← h.nonce_eq] at hnonces
      rw [h.rekeyFrames_append hopen hdue hcan plaintext]
      exact Or.inl ⟨plaintext, rfl, ⟨hopen, plaintext, rfl, hlen, hnonces⟩, rfl, hsends⟩

end Encrypt

/-- **A call of `close_frame`.**  It returns the CLOSE frame, has said it and
closed the channel; or it raises and has said nothing. -/
theorem closeFrame (h : Sends A key said c) :
    (c.closed = false ∧ (SecureChannel.closeFrame A).run c =
        (.ok (stream.sealing A c.sendCipher .close).wire, c.afterClose A) ∧
      Sends A key (said ++ [.close]) (c.afterClose A)) ∨
    (∃ e c', (SecureChannel.closeFrame A).run c = (.error e, c') ∧ Sends A key said c' ∧
      (c.closed = true ∨ MAX_NONCE < said.length + 1)) := by
  rw [run_closeFrame]
  by_cases hc : c.closed = true
  · rw [if_pos hc]
    exact Or.inr ⟨_, _, rfl, h, Or.inl hc⟩
  · have hopen : c.closed = false := by simpa using hc
    rw [if_neg hc]
    by_cases hcan : c.CanEmit
    · rw [if_pos hcan]
      have hframe := h.emitted_eq hcan .close
      exact Or.inl ⟨hopen, by rw [← hframe]; rfl, h.afterClose hopen hcan⟩
    · rw [if_neg hcan]
      have hfull := mt h.canEmit_iff.mpr hcan
      exact Or.inr ⟨_, _, rfl, h.skipSeq hcan, Or.inr (by omega)⟩

/-- Receiving says nothing. -/
theorem decrypt (h : Sends A key said c) (A' : Aead Key) (wire : Bytes) :
    Sends A key said ((SecureChannel.decrypt A' wire).run c).2 := by
  have hkeep := decrypt_keeps_sender A' wire c
  simp only [sender, Prod.mk.injEq] at hkeep
  refine h.congr hkeep.1 hkeep.2.1 fun hclosed => ?_
  have hout := decrypt_outcome A' wire c
  generalize (SecureChannel.decrypt A' wire).run c = r at hout
  cases hout with
  | authenticated hopen =>
      rw [hclosed] at hopen
      contradiction
  | _ => exact hclosed

end Sends

/-! ## Hearing a message -/

/-- How `decrypt` ends on a message. -/
def heardAs : Msg → Except PyError (Option Bytes)
  | .transport plaintext => .ok (some plaintext)
  | .rekey => .ok none
  | .close => .error (.channelClosedError ["peer closed the channel"])

/-- What `decrypt` does with an authenticated message. -/
theorem run_receive (A : Aead Key) (m : Msg) (seq : Nat) (c : SecureChannel Key T) :
    ∃ c', (receive A m.msgType seq m.plaintext).run c = (heardAs m, c') ∧
      c'.recvCipher = (if m.msgType = .rekey then c.recvCipher.ratchet A else c.recvCipher) ∧
      c'.replay = c.replay ∧ (c'.closed = true ↔ c.closed = true ∨ m = .close) := by
  cases m with
  | transport plaintext => exact ⟨_, rfl, rfl, rfl, by simp⟩
  | rekey => exact ⟨_, rfl, rfl, rfl, by simp⟩
  | close => exact ⟨_, rfl, rfl, rfl, by simp⟩

/-- The channel `c`, which started with the receive key `key`, has heard the
messages `heard`: its cipher is in step with them, and its window has seen
their numbers. -/
structure Hears (A : Aead Key) (key : Key) (heard : List Msg) (c : SecureChannel Key T) : Prop where
  inStep : stream.InStep A key heard c.recvCipher
  window : c.replay.Tracks (Set.Ico (0 : ℤ) heard.length)

namespace Hears

variable {A : Aead Key} {key : Key} {heard : List Msg} {c : SecureChannel Key T}

/-- A fresh channel has heard nothing. -/
theorem init (result : HandshakeResult Key) {size : Int} {replay : ReplayWindow}
    (rekey : RekeyPolicy T) (hrecv : result.recvCipher = .fresh key)
    (hnew : ReplayWindow.new size = .ok replay) :
    Hears A key [] (SecureChannel.init result replay rekey) where
  inStep := by
    rw [SecureChannel.init, hrecv]
    exact .fresh key
  window := by
    have htracks := ReplayWindow.tracks_new hnew
    simpa [SecureChannel.init] using htracks

/-- The window lets the next number pass. -/
theorem check_next (h : Hears A key heard c) (hlen : heard.length ≤ MAX_SEQ) :
    ((ReplayWindow.check heard.length).run c.replay).1 = .ok () := by
  cases h.window.check_run heard.length with
  | inl href =>
      obtain ⟨hr | hm | ⟨m, hm, hle⟩, -⟩ := href
      · omega
      · simp at hm
      · have hlt := hm.1.2
        omega
  | inr hok => rw [hok.2]

/-- The window commits the next number. -/
theorem commit_next (h : Hears A key heard c) (hlen : heard.length ≤ MAX_SEQ) (m : Msg) :
    ((ReplayWindow.commit heard.length).run c.replay).2.Tracks
      (Set.Ico (0 : ℤ) (heard ++ [m]).length) := by
  have hset : Set.Ico (0 : ℤ) (heard ++ [m]).length =
      insert (heard.length : ℤ) (Set.Ico (0 : ℤ) heard.length) := by
    ext n
    simp only [Set.mem_Ico, Set.mem_insert_iff, List.length_append, List.length_singleton,
      Nat.cast_add, Nat.cast_one]
    omega
  have hsize := c.replay.size_pos
  rw [hset]
  refine h.window.commit (by omega) ?_
  cases h.window.highest_eq with
  | inl he => omega
  | inr hg =>
      have hlt := hg.1.2
      omega

/-- **The next frame.**  A receiver in step accepts the frame of the next
message, does what the message says, and is in step with one message more. -/
theorem decrypt_next (h : Hears A key heard c) (hA : A.Correct) (hover : A.Overhead AEAD_TAG_LEN)
    (hopen : c.closed = false) (hlen : heard.length < MAX_NONCE) {m : Msg}
    (hfits : m.plaintext.length ≤ MAX_PLAINTEXT) :
    ∃ c', (decrypt A (stream.sealing A (stream.cipher A key heard) m).wire).run c =
        (heardAs m, c') ∧ Hears A key (heard ++ [m]) c' ∧ (c'.closed = true ↔ m = .close) := by
  have hseq : heard.length ≤ MAX_SEQ := by
    simp only [MAX_NONCE, MAX_SEQ] at hlen ⊢
    omega
  obtain ⟨frame, hdec, htype, hnum, hpay, hhead⟩ := decode_sealing hover
    (stream.cipher A key heard) (by simpa using hseq) hfits
  rw [AeadStream.nonce_cipher] at hnum
  have htag : A.decrypt c.recvCipher.key c.recvCipher.nonce
      (headerBytes frame.msgType frame.seq frame.payload.length) frame.payload =
        some m.plaintext := by
    have hnext := h.inStep.decrypt_next hA m
    have had : stream.ad heard.length m =
        (stream.sealing A (stream.cipher A key heard) m).ad := by
      simp [AeadStream.sealing, CipherState.sealing]
    rwa [had, ← hhead, ← hpay] at hnext
  obtain ⟨c', hc', hcipher, hreplay, hclosed⟩ := run_receive A m heard.length
    (c.authenticated frame)
  have hout := decrypt_outcome A (stream.sealing A (stream.cipher A key heard) m).wire c
  generalize (decrypt A (stream.sealing A (stream.cipher A key heard) m).wire).run c = r at hout
  cases hout with
  | closed hclosed => simp [hopen] at hclosed
  | malformed _ hdecode => simp [hdec] at hdecode
  | replayed _ hdecode hcheck =>
      rw [hdec, Except.ok.injEq] at hdecode
      subst hdecode
      rw [hnum, h.check_next hseq] at hcheck
      cases hcheck
  | exhausted _ _ _ hnonce =>
      rw [h.inStep.nonce_eq] at hnonce
      omega
  | tampered _ hdecode _ _ htag' =>
      rw [hdec, Except.ok.injEq] at hdecode
      subst hdecode
      rw [htag] at htag'
      cases htag'
  | authenticated _ hdecode _ _ htag' =>
      rw [hdec, Except.ok.injEq] at hdecode
      subst hdecode
      rw [htag, Option.some.injEq] at htag'
      subst htag'
      rw [htype, hnum]
      refine ⟨c', hc', ⟨?_, ?_⟩, ?_⟩
      · have hadv : c'.recvCipher = stream.advance A c.recvCipher m := by
          rw [hcipher]
          simp [AeadStream.advance, stream, SecureChannel.authenticated]
        rw [hadv]
        exact h.inStep.push m
      · rw [hreplay, SecureChannel.authenticated, hnum]
        exact h.commit_next hseq m
      · rw [hclosed]
        simp [SecureChannel.authenticated, hopen]

end Hears

end SecureChannel

end SecureWs
