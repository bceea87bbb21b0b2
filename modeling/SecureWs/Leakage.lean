import SecureWs.Session
import SecureWs.Lib.Runs
import SecureWs.Lib.TwoRuns

/-!
# SecureWs.Leakage

What logs, errors and traffic say about the plaintexts: two runs of a session
with the same calls and the same network, but other plaintexts of the same
lengths and other keys.

* `shape` is what can be seen of a frame, and `Twin` relates two channels that
  differ in keys and contents only; the rules of `Lib.TwoRuns` show that every
  method keeps channels twins and answers alike;
* `Session.Linked` is what each run keeps under such a network: a receiver
  accepts the frame whose turn it is (`Linked.verdict_traffic`) and no forgery
  (`Linked.verdict_forged`), so that the verdict on a frame is the same;
* `Session.Matched` is the same call in two runs, with frames given by index,
  and `Session.reveals_only_lengths` says that the two runs show the same.
-/

namespace SecureWs

open Python Imp

variable {Key T : Type} [Zero T] [LE T]

/-! ## Frames of one shape -/

/-- What can be seen of a frame: its header and its length. -/
def shape (wire : Bytes) : Bytes × Nat := (wire.take HEADER_LEN, wire.length)

/-- Unpacking looks at the header only. -/
theorem headerUnpack_take (data : Bytes) : headerUnpack (data.take HEADER_LEN) = headerUnpack data := by
  simp [headerUnpack, HEADER_LEN, List.take_take, List.drop_take]

/-- Frames that decode alike: with other payloads of one length. -/
def AlikeFrames (frame frame' : Frame) : Prop :=
  frame.msgType = frame'.msgType ∧ frame.seq = frame'.seq ∧
    frame.payload.length = frame'.payload.length

/-- Frames of one shape decode alike, or are refused with the same error. -/
theorem decode_alike {wire wire' : Bytes} (h : shape wire = shape wire') :
    SameResult AlikeFrames (decode wire) (decode wire') := by
  obtain ⟨hhead, hlen⟩ := Prod.mk.inj h
  have hunpack : headerUnpack wire = headerUnpack wire' := by
    rw [← headerUnpack_take wire, hhead, headerUnpack_take]
  have hbody : (wire.drop HEADER_LEN).length = (wire'.drop HEADER_LEN).length := by
    rw [List.length_drop, List.length_drop, hlen]
  simp only [decode, raiseIf_bind_except, hunpack, hlen, hbody]
  split_ifs
  · exact .error _
  · exact .error _
  · exact .error _
  · exact .error _
  · cases MessageType.ofNat? (headerUnpack wire').2.1 with
    | none => exact .error _
    | some msgType =>
        simp only [Frame.new, hbody]
        split_ifs
        · exact .ok ⟨rfl, rfl, hbody⟩
        · exact .error _
        · exact .error _

/-! ## Twin channels -/

/-- Two encryptions with one header, of plaintexts of one length. -/
structure SameSealing (e e' : Sealing Key) : Prop where
  ad_eq : e.ad = e'.ad
  plaintext_length : e.plaintext.length = e'.plaintext.length
  ciphertext_length : e.ciphertext.length = e'.ciphertext.length

/-- Two cipher states that differ in the keys and in what was encrypted. -/
structure SameCipher (cs cs' : CipherState Key) : Prop where
  nonce_eq : cs.nonce = cs'.nonce
  sealed : List.Forall₂ SameSealing cs.sealed cs'.sealed

/-- Two channels that differ in the keys and in what was encrypted. -/
structure Twin (c c' : SecureChannel Key T) : Prop where
  send : SameCipher c.sendCipher c'.sendCipher
  recv : SameCipher c.recvCipher c'.recvCipher
  replay_eq : c.replay = c'.replay
  rekey_eq : c.rekey = c'.rekey
  sendSeq_eq : c.sendSeq = c'.sendSeq
  closed_eq : c.closed = c'.closed
  log_eq : c.log = c'.log

def SameLength (x y : Bytes) : Prop := x.length = y.length

def SameShape (wire wire' : Bytes) : Prop := shape wire = shape wire'

instance (wire wire' : Bytes) : Decidable (SameShape wire wire') :=
  inferInstanceAs (Decidable (_ = _))

/-- Ciphertexts of one length under one header have one shape. -/
theorem sameShape_append {header ciphertext ciphertext' : Bytes} (hhead : header.length = HEADER_LEN)
    (hlen : SameLength ciphertext ciphertext') :
    SameShape (header ++ ciphertext) (header ++ ciphertext') := by
  unfold SameShape shape
  rw [← hhead, List.take_left, List.take_left, List.length_append, List.length_append, hlen]

/-- Lists of frames of the same shapes show an observer the same. -/
theorem map_shape_eq {wires wires' : List Bytes} (h : List.Forall₂ SameShape wires wires') :
    wires.map shape = wires'.map shape := by
  induction h with
  | nil => rfl
  | cons hshape _ ih => exact congrArg₂ List.cons hshape ih

section Methods

variable {A : Aead Key}

/-- Two ciphers encrypt in step: the nonces and the lengths stay the same. -/
theorem CipherState.related_encryptWithAd (hover : A.Overhead AEAD_TAG_LEN) (ad : Bytes)
    {plaintext plaintext' : Bytes} (hlen : SameLength plaintext plaintext') :
    Related SameCipher SameLength SameCipher (CipherState.encryptWithAd A ad plaintext)
      (CipherState.encryptWithAd A ad plaintext') := by
  intro cs cs' h
  have hct : SameLength (cs.sealing A ad plaintext).ciphertext
      (cs'.sealing A ad plaintext').ciphertext := by
    have hfirst := hover cs.key cs.nonce ad plaintext
    have hsecond := hover cs'.key cs'.nonce ad plaintext'
    unfold SameLength at hlen ⊢
    rw [CipherState.sealing, CipherState.sealing, hfirst, hsecond, hlen]
  rw [CipherState.run_encryptWithAd, CipherState.run_encryptWithAd, h.nonce_eq]
  split_ifs
  · exact ⟨.error _, h⟩
  · exact ⟨.ok hct, congrArg (· + 1) h.nonce_eq,
      List.rel_append h.sealed (.cons ⟨rfl, hlen, hct⟩ .nil)⟩

theorem CipherState.related_rekey (A A' : Aead Key) :
    Related SameCipher Eq SameCipher (CipherState.rekey A) (CipherState.rekey A') :=
  Related.assign fun _ _ h => ⟨h.nonce_eq, h.sealed⟩

namespace SecureChannel

/-- A call on the sending cipher keeps two channels twins. -/
theorem related_onSendCipher {α β : Type} {V : α → β → Prop} {m : Imp PyError (CipherState Key) α}
    {n : Imp PyError (CipherState Key) β} (h : Related SameCipher V SameCipher m n) :
    Related Twin V Twin (onSendCipher m : Method Key T α) (onSendCipher n : Method Key T β) :=
  h.call (fun _ _ htwin => htwin.send) fun _ _ _ _ htwin hcs => { htwin with send := hcs }

/-- A call on the receiving cipher keeps two channels twins. -/
theorem related_onRecvCipher {α β : Type} {V : α → β → Prop} {m : Imp PyError (CipherState Key) α}
    {n : Imp PyError (CipherState Key) β} (h : Related SameCipher V SameCipher m n) :
    Related Twin V Twin (onRecvCipher m : Method Key T α) (onRecvCipher n : Method Key T β) :=
  h.call (fun _ _ htwin => htwin.recv) fun _ _ _ _ htwin hcs => { htwin with recv := hcs }

theorem related_onRekey {α : Type} (m : Imp PyError (RekeyPolicy T) α) :
    Related Twin Eq Twin (onRekey m : Method Key T α) (onRekey m : Method Key T α) :=
  (Related.refl m).call (fun _ _ htwin => htwin.rekey_eq)
    fun _ _ _ _ htwin heq => { htwin with rekey_eq := heq }

theorem related_onReplay {α : Type} (m : Imp PyError ReplayWindow α) :
    Related Twin Eq Twin (onReplay m : Method Key T α) (onReplay m : Method Key T α) :=
  (Related.refl m).call (fun _ _ htwin => htwin.replay_eq)
    fun _ _ _ _ htwin heq => { htwin with replay_eq := heq }

theorem related_logDebug (record : LogRecord) :
    Related Twin Eq Twin (logDebug record : Method Key T Unit) (logDebug record : Method Key T Unit) :=
  Related.assign fun _ _ htwin => { htwin with log_eq := by rw [htwin.log_eq] }

/-- One frame: its header says only its type, its number and its length. -/
theorem related_emit (hover : A.Overhead AEAD_TAG_LEN) (msgType : MessageType)
    {plaintext plaintext' : Bytes} (hlen : SameLength plaintext plaintext')
    (record : Nat → LogRecord) : Related Twin SameShape Twin
      (emit A msgType plaintext record : Method Key T Bytes)
      (emit A msgType plaintext' record : Method Key T Bytes) := by
  have hheader : ∀ seq : Nat, SameResult (fun header header' : Bytes =>
      header = header' ∧ header.length = HEADER_LEN)
      (packHeader msgType seq ((plaintext.length + AEAD_TAG_LEN : Nat) : Int))
      (packHeader msgType seq ((plaintext'.length + AEAD_TAG_LEN : Nat) : Int)) := by
    intro seq
    rw [show plaintext.length = plaintext'.length from hlen]
    simp only [packHeader, raiseIf_bind_except]
    split_ifs
    · exact .ok ⟨rfl, length_headerPack ..⟩
    · exact .error _
    · exact .error _
  have hseq : Related Twin Eq Twin (nextSendSeq : Method Key T Nat) nextSendSeq :=
    Related.assignGet fun _ _ htwin => ⟨htwin.sendSeq_eq,
      { htwin with sendSeq_eq := congrArg (· + 1) htwin.sendSeq_eq }⟩
  refine hseq.andThen fun seq seq' heq => ?_
  subst heq
  refine (Related.lift (hheader seq)).andThen fun header header' hsame => ?_
  obtain ⟨rfl, hlength⟩ := hsame
  refine (related_onSendCipher (CipherState.related_encryptWithAd hover header hlen)).andThen
    fun ciphertext ciphertext' hct => ?_
  exact (related_logDebug (record seq)).andThen fun _ _ _ => Related.ret (sameShape_append hlength hct)

/-- A control frame has the same shape on both channels. -/
theorem related_emitControl (hover : A.Overhead AEAD_TAG_LEN) (msgType : MessageType) :
    Related Twin SameShape Twin (emitControl A msgType : Method Key T Bytes) (emitControl A msgType) :=
  related_emit hover msgType rfl _

/-- A REKEY frame has the same shape on both channels. -/
theorem related_emitRekey (hover : A.Overhead AEAD_TAG_LEN) :
    Related Twin SameShape Twin (emitRekey A : Method Key T Bytes) (emitRekey A) := by
  refine Related.read.andThen fun self self' htwin => ?_
  rw [htwin.rekey_eq]
  refine (related_logDebug _).andThen fun _ _ _ => ?_
  refine (related_emitControl hover .rekey).andThen fun frame frame' hframe => ?_
  refine (related_onSendCipher (CipherState.related_rekey A A)).andThen fun _ _ _ => ?_
  exact (related_onRekey RekeyPolicy.reset).andThen fun _ _ _ => Related.ret hframe

/-- Twins are open or closed together. -/
theorem related_ensureOpen :
    Related Twin Eq Twin (ensureOpen : Method Key T Unit) ensureOpen :=
  Related.read.andThen fun _ _ htwin => Related.guard (by rw [htwin.closed_eq]) _

/-- Plaintexts that are handed to `encrypt` alike. -/
inductive AlikeArgs : Arg → Arg → Prop where
  | bytesLike {plaintext plaintext'} (hlen : SameLength plaintext plaintext') :
      AlikeArgs (.bytesLike plaintext) (.bytesLike plaintext')
  | other : AlikeArgs .other .other

/-- **`encrypt` shows lengths.** -/
theorem related_encrypt [Sub T] [DecidableLE T] (hover : A.Overhead AEAD_TAG_LEN) {arg arg' : Arg}
    (h : AlikeArgs arg arg') : Related Twin (List.Forall₂ SameShape) Twin
      (encrypt A arg : Method Key T (List Bytes)) (encrypt A arg' : Method Key T (List Bytes)) := by
  refine related_ensureOpen.andThen fun _ _ _ => ?_
  cases h with
  | other => exact Related.raise _
  | @bytesLike plaintext plaintext' hlen =>
      have hrekey : Related Twin (List.Forall₂ SameShape) Twin
          (rekeyIfDue A : Method Key T (List Bytes)) (rekeyIfDue A) := by
        refine (related_onRekey RekeyPolicy.due).andThen fun due due' hdue => ?_
        refine Related.branch (by rw [hdue]) ?_ (Related.ret .nil)
        exact (related_emitRekey hover).andThen fun _ _ hframe => Related.ret (.cons hframe .nil)
      have hlength : plaintext.length = plaintext'.length := hlen
      simp only [hlength]
      refine (Related.guard Iff.rfl _).andThen fun _ _ _ => ?_
      refine hrekey.andThen fun frames frames' hframes => ?_
      have htransport : Related Twin SameShape Twin (emitTransport A plaintext : Method Key T Bytes)
          (emitTransport A plaintext') := by
        unfold emitTransport
        rw [hlength]
        exact related_emit hover .transport hlen _
      refine htransport.andThen fun frame frame' hframe => ?_
      exact (related_onRekey RekeyPolicy.noteMessage).andThen fun _ _ _ =>
        Related.ret (List.rel_append hframes (.cons hframe .nil))

/-- **`close_frame` shows nothing.** -/
theorem related_closeFrame (hover : A.Overhead AEAD_TAG_LEN) :
    Related Twin SameShape Twin (closeFrame A : Method Key T Bytes) (closeFrame A) := by
  refine related_ensureOpen.andThen fun _ _ _ => ?_
  refine (related_emitControl hover .close).andThen fun frame frame' hframe => ?_
  exact (Related.assign fun _ _ htwin => { htwin with closed_eq := rfl }).andThen
    fun _ _ _ => Related.ret hframe

/-- Results of `decrypt` of one length. -/
def SameReturn (result result' : Option Bytes) : Prop :=
  result.map List.length = result'.map List.length

/-- What is done with an authenticated frame depends on its type and on the length. -/
theorem related_receive (A A' : Aead Key) (msgType : MessageType) (seq : Nat)
    {plaintext plaintext' : Bytes} (hlen : SameLength plaintext plaintext') :
    Related Twin SameReturn Twin (receive A msgType seq plaintext : Method Key T (Option Bytes))
      (receive A' msgType seq plaintext') := by
  have hlength : plaintext.length = plaintext'.length := hlen
  cases msgType with
  | handshake => exact Related.raise _
  | transport =>
      simp only [receive, hlength]
      exact (related_logDebug _).andThen fun _ _ _ => Related.ret (congrArg some hlength)
  | rekey =>
      refine (related_onRecvCipher (CipherState.related_rekey A A')).andThen fun _ _ _ => ?_
      exact (related_logDebug _).andThen fun _ _ _ => Related.ret rfl
  | close =>
      refine (Related.assign fun _ _ htwin => { htwin with closed_eq := rfl }).andThen fun _ _ _ => ?_
      exact (related_logDebug _).andThen fun _ _ _ => Related.raise _

/-- The verdict of the AEAD on a frame, and the length of what it protects. -/
def verdict (A : Aead Key) (c : SecureChannel Key T) (frame : Frame) : Option Nat :=
  (A.decrypt c.recvCipher.key c.recvCipher.nonce
    (headerBytes frame.msgType frame.seq frame.payload.length) frame.payload).map List.length

/-- The receive cipher moves when the AEAD accepts, as the frame's type says. -/
theorem recvCipher_decrypt (A : Aead Key) (wire : Bytes) (c : SecureChannel Key T) :
    ((decrypt A wire).run c).2.recvCipher = c.recvCipher ∨
      ∃ frame, decode wire = .ok frame ∧ verdict A c frame ≠ none ∧
        ((decrypt A wire).run c).2.recvCipher =
          if frame.msgType = .rekey then c.recvCipher.afterOpen.ratchet A
          else c.recvCipher.afterOpen := by
  have hout := decrypt_outcome A wire c
  generalize (decrypt A wire).run c = r at hout
  cases hout with
  | @authenticated frame plaintext hopen hdecode hcheck hnonce htag =>
      refine .inr ⟨frame, hdecode, by simp [verdict, htag], ?_⟩
      cases frame.msgType <;> rfl
  | _ => exact .inl rfl

/-- **`decrypt` shows lengths**, where the AEAD says the same in both runs. -/
theorem related_decrypt {A A' : Aead Key} {wire wire' : Bytes} (hshape : SameShape wire wire')
    {c c' : SecureChannel Key T} (htwin : Twin c c')
    (hverdict : ∀ frame frame', decode wire = .ok frame → decode wire' = .ok frame' →
      verdict A c frame = verdict A' c' frame') :
    SameResult SameReturn ((decrypt A wire).run c).1 ((decrypt A' wire').run c').1 ∧
      Twin ((decrypt A wire).run c).2 ((decrypt A' wire').run c').2 := by
  let Before (s t : SecureChannel Key T) : Prop :=
    Twin s t ∧ s.recvCipher = c.recvCipher ∧ t.recvCipher = c'.recvCipher
  have hweak : ∀ s t, Before s t → Twin s t := fun s t h => h.1
  have hrun : Related Before SameReturn Twin (decrypt A wire) (decrypt A' wire') := by
    refine Related.read.seq (fun self self' hself => ?_) hweak
    refine (Related.guard (by rw [hself.1.closed_eq]) _).seq (fun _ _ _ => ?_) hweak
    refine (Related.lift (decode_alike hshape).and_eq).seq (fun frame frame' hframe => ?_) hweak
    obtain ⟨⟨htype, hseq, hlen⟩, hdecode, hdecode'⟩ := hframe
    have hcheck : Related Before Eq Before (onReplay (ReplayWindow.check frame.seq))
        (onReplay (ReplayWindow.check frame'.seq)) := by
      rw [hseq]
      exact (Related.refl _).call (fun _ _ h => h.1.replay_eq)
        fun _ _ _ _ h heq => ⟨{ h.1 with replay_eq := heq }, h.2⟩
    refine hcheck.seq (fun _ _ _ => ?_) hweak
    rw [Frame.header_eq, Frame.header_eq]
    have hheader : SameResult (fun header header' =>
        header = headerBytes frame.msgType frame.seq frame.payload.length ∧
          header' = headerBytes frame'.msgType frame'.seq frame'.payload.length)
        (.ok (headerBytes frame.msgType frame.seq frame.payload.length) : Except PyError Bytes)
        (.ok (headerBytes frame'.msgType frame'.seq frame'.payload.length)) := .ok ⟨rfl, rfl⟩
    refine (Related.lift hheader).seq (fun header header' hheaders => ?_) hweak
    obtain ⟨rfl, rfl⟩ := hheaders
    have hopen : Related Before SameLength Twin
        (onRecvCipher (CipherState.decryptWithAd A
          (headerBytes frame.msgType frame.seq frame.payload.length) frame.payload))
        (onRecvCipher (CipherState.decryptWithAd A'
          (headerBytes frame'.msgType frame'.seq frame'.payload.length) frame'.payload)) := by
      intro s t h
      obtain ⟨htwin', hs, ht⟩ := h
      have hsame := hverdict frame frame' hdecode hdecode'
      have hnonce := htwin'.recv.nonce_eq
      unfold verdict at hsame
      rw [run_onRecvCipher, run_onRecvCipher, CipherState.run_decryptWithAd,
        CipherState.run_decryptWithAd, hnonce]
      rw [← hs, ← ht, hnonce] at hsame
      by_cases hmax : t.recvCipher.nonce = MAX_NONCE
      · rw [if_pos hmax, if_pos hmax]
        exact ⟨.error _, htwin'⟩
      · rw [if_neg hmax, if_neg hmax]
        generalize A.decrypt s.recvCipher.key t.recvCipher.nonce
          (headerBytes frame.msgType frame.seq frame.payload.length) frame.payload = opened at hsame ⊢
        generalize A'.decrypt t.recvCipher.key t.recvCipher.nonce
          (headerBytes frame'.msgType frame'.seq frame'.payload.length) frame'.payload = opened'
          at hsame ⊢
        cases opened with
        | none => cases opened' with
          | none => exact ⟨.error _, htwin'⟩
          | some plaintext' => cases hsame
        | some plaintext => cases opened' with
          | none => cases hsame
          | some plaintext' =>
              exact ⟨.ok (Option.some.inj hsame),
                { htwin' with recv := ⟨congrArg (· + 1) hnonce, htwin'.recv.sealed⟩ }⟩
    rw [htype, hseq] at hopen ⊢
    refine (hopen.handle fun exc => ?_).seq (fun plaintext plaintext' hlength => ?_) fun _ _ h => h
    · split <;> exact Related.raise _
    · exact (related_onReplay _).andThen fun _ _ _ => related_receive A A' _ _ hlength
  exact hrun c c' ⟨htwin, rfl, rfl⟩

end SecureChannel

end Methods

/-! ## One run -/

/-- The encryption `e` protects the message `m`, with its nonce for a number. -/
structure Protects (m : Msg) (e : Sealing Key) : Prop where
  ad_eq : e.ad = headerFor m.msgType e.nonce m.plaintext
  plaintext_eq : e.plaintext = m.plaintext
  ciphertext_length : e.ciphertext.length = m.plaintext.length + AEAD_TAG_LEN
  nonce_lt : e.nonce < MAX_NONCE
  fits : m.plaintext.length ≤ MAX_PLAINTEXT

/-- The associated data is a header. -/
theorem Protects.length_ad {m : Msg} {e : Sealing Key} (h : Protects m e) :
    e.ad.length = HEADER_LEN := by
  rw [h.ad_eq]
  exact length_headerBytes ..

/-- The header says the number. -/
theorem Protects.nonce_eq_of_ad {m m' : Msg} {e e' : Sealing Key} (h : Protects m e)
    (h' : Protects m' e') (had : e.ad = e'.ad) : e.nonce = e'.nonce := by
  have hlt := h.nonce_lt
  have hlt' := h'.nonce_lt
  have hfits := h.fits
  have hfits' := h'.fits
  simp only [MAX_NONCE, MAX_PLAINTEXT, MAX_PAYLOAD, AEAD_TAG_LEN] at hlt hlt' hfits hfits'
  rw [h.ad_eq, h'.ad_eq] at had
  exact (headerBytes_inj (by simp only [MAX_SEQ]; omega)
    (by simp only [MAX_SEQ]; omega) (by simp only [MAX_PAYLOAD, AEAD_TAG_LEN]; omega)
    (by simp only [MAX_PAYLOAD, AEAD_TAG_LEN]; omega) had).2.1

/-- The frame says what is protected. -/
theorem Protects.decode_wire {m : Msg} {e : Sealing Key} (h : Protects m e) :
    ∃ frame, decode e.wire = .ok frame ∧ frame.msgType = m.msgType ∧ frame.payload = e.ciphertext ∧
      headerBytes frame.msgType frame.seq frame.payload.length = e.ad := by
  have hlt := h.nonce_lt
  have hfits := h.fits
  have hpay : e.ciphertext.length ≤ MAX_PAYLOAD := by
    rw [h.ciphertext_length]
    simp only [MAX_PLAINTEXT, MAX_PAYLOAD, AEAD_TAG_LEN] at hfits ⊢
    omega
  have had : e.ad = headerBytes m.msgType e.nonce e.ciphertext.length := by
    rw [h.ad_eq, h.ciphertext_length]
    rfl
  let frame : Frame := ⟨m.msgType, e.nonce, e.ciphertext, Nat.le_of_lt hlt, hpay⟩
  have hwire : e.wire = frame.wire := by
    rw [Sealing.wire, had]
    rfl
  exact ⟨frame, hwire ▸ SecureWs.decode_wire frame, rfl, rfl, had.symm⟩

namespace SecureChannel.Sends

variable {A : Aead Key} {key : Key} {said : List Msg} {c : SecureChannel Key T}

/-- The `i`-th encryption protects the `i`-th message. -/
theorem protects (h : Sends A key said c) (hover : A.Overhead AEAD_TAG_LEN) {i : Nat}
    {e : Sealing Key} (he : c.sendCipher.sealed[i]? = some e) :
    ∃ m, said[i]? = some m ∧ e.key = (stream.cipher A key (said.take i)).key ∧ e.nonce = i ∧
      Protects m e := by
  rw [h.cipher_eq, AeadStream.getElem?_sealed_cipher] at he
  obtain ⟨m, hm, rfl⟩ := Option.map_eq_some_iff.mp he
  obtain ⟨hlt, hget⟩ := List.getElem?_eq_some_iff.mp hm
  have hle := h.length_le
  have hnonce : (stream.sealing A (stream.cipher A key (said.take i)) m).nonce = i := by
    simp only [AeadStream.sealing, CipherState.sealing, AeadStream.nonce_cipher, List.length_take]
    omega
  exact ⟨m, hm, rfl, hnonce, rfl, rfl, hover _ _ _ _, by omega,
    h.fits m (hget ▸ List.getElem_mem hlt)⟩

/-- `encrypt` says more, or nothing. -/
theorem encrypt_extends [Sub T] [DecidableLE T] (h : Sends A key said c) (arg : Arg) :
    ∃ new, Sends A key (said ++ new) ((SecureChannel.encrypt A arg).run c).2 := by
  obtain hok | herr := h.encrypt arg
  · obtain ⟨plaintext, -, -, hrun, hsends⟩ := hok
    exact ⟨_, by rwa [hrun]⟩
  · obtain ⟨e, c', hrun, ⟨new, -, -, hsends⟩, -⟩ := herr
    exact ⟨new, by rwa [hrun]⟩

/-- So does `close_frame`. -/
theorem closeFrame_extends (h : Sends A key said c) :
    ∃ new, Sends A key (said ++ new) ((SecureChannel.closeFrame A).run c).2 := by
  obtain hok | herr := h.closeFrame
  · obtain ⟨-, hrun, hsends⟩ := hok
    exact ⟨_, by rwa [hrun]⟩
  · obtain ⟨e, c', hrun, hsends, -⟩ := herr
    exact ⟨[], by rwa [hrun, List.append_nil]⟩

end SecureChannel.Sends

/-- `tx` has said `said`, and `rx` is where `tx` was after `heard`. -/
structure Follows (A : Aead Key) (key : Key) (tx rx : SecureChannel Key T) (said heard : List Msg) :
    Prop where
  sends : tx.Sends A key said
  heard_prefix : heard <+: said
  inStep : stream.InStep A key heard rx.recvCipher

namespace Session

/-- In both directions the receiver follows the sender. -/
def Linked (A : Aead Key) (keys : Side → Key) (s : Session Key T) : Prop :=
  ∀ side : Side, ∃ said heard, Follows A (keys side) (s side).channel (s side.peer).channel said heard

/-- The frames that `side` has encrypted, oldest first. -/
def traffic (s : Session Key T) (side : Side) : List Bytes :=
  (s side).channel.sendCipher.sealed.map Sealing.wire

/-- Nobody encrypted these bytes under the key with which `side` receives. -/
def Forged (s : Session Key T) (side : Side) (wire : Bytes) : Prop :=
  ∀ e ∈ s.log, e.key = (s side).channel.recvCipher.key → e.wire ≠ wire

instance [DecidableEq Key] (s : Session Key T) (side : Side) (wire : Bytes) :
    Decidable (s.Forged side wire) :=
  inferInstanceAs (Decidable (∀ e ∈ s.log, _))

/-- What an end has sealed is in the log. -/
theorem mem_log_of_getElem? {s : Session Key T} {side : Side} {i : Nat} {e : Sealing Key}
    (he : (s side).channel.sendCipher.sealed[i]? = some e) : e ∈ s.log := by
  have hmem := List.mem_of_getElem? he
  cases side with
  | initiator => exact List.mem_append_left _ hmem
  | responder => exact List.mem_append_right _ hmem

/-- What is in the log, one of the ends has sealed. -/
theorem exists_of_mem_log {s : Session Key T} {e : Sealing Key} (he : e ∈ s.log) :
    ∃ (side : Side) (i : Nat), (s side).channel.sendCipher.sealed[i]? = some e := by
  obtain hmem | hmem := List.mem_append.mp he
  · exact ⟨.initiator, List.mem_iff_getElem?.mp hmem⟩
  · exact ⟨.responder, List.mem_iff_getElem?.mp hmem⟩

namespace Linked

variable {A : Aead Key} {keys : Side → Key} {s : Session Key T}

/-- The invariant of a session links its ends. -/
theorem of_inv (h : Inv A keys s) : Linked A keys s := by
  intro side
  obtain ⟨said, heard, hdir⟩ := h side
  exact ⟨said, heard, hdir.sends, hdir.heard_prefix, hdir.inStep⟩

/-- The direction in which `side` receives. -/
theorem receives (h : Linked A keys s) (side : Side) : ∃ said heard,
    Follows A (keys side.peer) (s side.peer).channel (s side).channel said heard := by
  obtain ⟨said, heard, hfollows⟩ := h side.peer
  rw [Side.peer_peer] at hfollows
  exact ⟨said, heard, hfollows⟩

/-- Everything encrypted protects a message. -/
theorem protects (h : Linked A keys s) (hover : A.Overhead AEAD_TAG_LEN) {e : Sealing Key}
    (he : e ∈ s.log) : ∃ m, Protects m e := by
  obtain ⟨side, i, hi⟩ := exists_of_mem_log he
  obtain ⟨said, heard, hfollows⟩ := h side
  obtain ⟨m, -, -, -, hm⟩ := hfollows.sends.protects hover hi
  exact ⟨m, hm⟩

/-- A step of one side: it says more, and hears the next of what was said. -/
theorem update (h : Linked A keys s) (side : Side) {p : Party Key T}
    (hsay : ∀ said, (s side).channel.Sends A (keys side) said →
      ∃ new, p.channel.Sends A (keys side) (said ++ new))
    (hhear : ∀ said heard, Follows A (keys side.peer) (s side.peer).channel (s side).channel said heard →
      ∃ heard', Follows A (keys side.peer) (s side.peer).channel p.channel said heard') :
    Linked A keys (Function.update s side p) := by
  refine Side.forall_of_peer side ?_ ?_
  · obtain ⟨said, heard, hfollows⟩ := h side
    obtain ⟨new, hsends⟩ := hsay said hfollows.sends
    refine ⟨said ++ new, heard, ?_⟩
    simpa using Follows.mk hsends (hfollows.heard_prefix.trans (List.prefix_append _ _))
      hfollows.inStep
  · obtain ⟨said, heard, hfollows⟩ := h.receives side
    obtain ⟨heard', hfollows'⟩ := hhear said heard hfollows
    exact ⟨said, heard', by simpa using hfollows'⟩

variable [DecidableEq Key]

/-- **The ideal receiver.**  Of the frames that its peer encrypted it accepts
the one whose turn it is. -/
theorem verdict_traffic (h : Linked A keys s) (hover : A.Overhead AEAD_TAG_LEN) (side : Side)
    {i : Nat} {e : Sealing Key} {frame : Frame}
    (he : (s side.peer).channel.sendCipher.sealed[i]? = some e) (hdecode : decode e.wire = .ok frame) :
    SecureChannel.verdict (A.ideal s.log) (s side).channel frame =
      if i = (s side).channel.recvCipher.nonce then some e.plaintext.length else none := by
  obtain ⟨said, heard, hfollows⟩ := h.receives side
  have hlog := mem_log_of_getElem? he
  obtain ⟨m, hm, hkey, hnonce, hprot⟩ := hfollows.sends.protects hover he
  obtain ⟨frame', hdecode', -, hpay, hhead⟩ := hprot.decode_wire
  rw [hdecode', Except.ok.injEq] at hdecode
  subst hdecode
  unfold SecureChannel.verdict
  rw [hhead, hpay]
  by_cases hturn : i = (s side).channel.recvCipher.nonce
  · rw [if_pos hturn]
    rw [hturn, hfollows.inStep.take_eq hfollows.heard_prefix, ← hfollows.inStep.key_eq] at hkey
    rw [← hkey, ← hturn, ← hnonce]
    obtain ⟨plaintext, hopen⟩ := Aead.exists_decrypt_ideal (A := A) hlog
    obtain ⟨e', he', -, -, -, hct, rfl⟩ := Aead.mem_of_decrypt_ideal hopen
    obtain ⟨m', hprot'⟩ := h.protects hover he'
    have hlen := hprot.ciphertext_length
    have hlen' := hprot'.ciphertext_length
    rw [← hprot.plaintext_eq] at hlen
    rw [← hprot'.plaintext_eq, hct] at hlen'
    rw [hopen, Option.map_some]
    exact congrArg some (by omega)
  · rw [if_neg hturn, Option.map_eq_none_iff, Option.eq_none_iff_forall_ne_some]
    intro plaintext hopen
    obtain ⟨e', he', -, hnonce', had, -, -⟩ := Aead.mem_of_decrypt_ideal hopen
    obtain ⟨m', hprot'⟩ := h.protects hover he'
    have hsame := hprot'.nonce_eq_of_ad hprot had
    omega

/-- A forgery is refused. -/
theorem verdict_forged {side : Side} {wire : Bytes} {frame : Frame} (h : s.Forged side wire)
    (hdecode : decode wire = .ok frame) :
    SecureChannel.verdict (A.ideal s.log) (s side).channel frame = none := by
  unfold SecureChannel.verdict
  rw [Option.map_eq_none_iff, Option.eq_none_iff_forall_ne_some]
  intro plaintext hopen
  obtain ⟨e, he, hkey, -, had, hct, -⟩ := Aead.mem_of_decrypt_ideal hopen
  refine h e he hkey ?_
  rw [Sealing.wire, had, hct]
  exact (eq_wire_of_decode hdecode).symm

/-- A frame of the peer moves the receiver to the next message, or not at all. -/
theorem follows_traffic (h : Linked A keys s) (hover : A.Overhead AEAD_TAG_LEN) (side : Side)
    {i : Nat} {e : Sealing Key} (he : (s side.peer).channel.sendCipher.sealed[i]? = some e)
    {said heard : List Msg}
    (hfollows : Follows A (keys side.peer) (s side.peer).channel (s side).channel said heard) :
    ∃ heard', Follows A (keys side.peer) (s side.peer).channel
      ((SecureChannel.decrypt (A.ideal s.log) e.wire).run (s side).channel).2 said heard' := by
  obtain hsame | hmoved := SecureChannel.recvCipher_decrypt (A.ideal s.log) e.wire (s side).channel
  · exact ⟨heard, hfollows.sends, hfollows.heard_prefix, hsame ▸ hfollows.inStep⟩
  · obtain ⟨frame, hdecode, haccepts, hcipher⟩ := hmoved
    rw [h.verdict_traffic hover side he hdecode] at haccepts
    have hturn : i = (s side).channel.recvCipher.nonce := by
      by_contra hne
      exact haccepts (if_neg hne)
    obtain ⟨m, hm, -, -, hprot⟩ := hfollows.sends.protects hover he
    obtain ⟨frame', hdecode', htype, -⟩ := hprot.decode_wire
    rw [hdecode', Except.ok.injEq] at hdecode
    subst hdecode
    have hnext : heard ++ [m] <+: said := by
      obtain ⟨hi, hget⟩ := List.getElem?_eq_some_iff.mp hm
      rw [← hfollows.inStep.take_eq hfollows.heard_prefix, ← hturn, ← hget,
        List.take_append_getElem hi]
      exact List.take_prefix _ _
    refine ⟨heard ++ [m], hfollows.sends, hnext, ?_⟩
    have hadvance : ((SecureChannel.decrypt (A.ideal s.log) e.wire).run
        (s side).channel).2.recvCipher = stream.advance A (s side).channel.recvCipher m := by
      rw [hcipher, htype]
      simp [AeadStream.advance, stream, CipherState.ratchet, Aead.ideal]
    rw [hadvance]
    exact hfollows.inStep.push m

/-- A forgery does not move it. -/
theorem follows_forged {side : Side} {wire : Bytes} (h : s.Forged side wire)
    {said heard : List Msg}
    (hfollows : Follows A (keys side.peer) (s side.peer).channel (s side).channel said heard) :
    ∃ heard', Follows A (keys side.peer) (s side.peer).channel
      ((SecureChannel.decrypt (A.ideal s.log) wire).run (s side).channel).2 said heard' := by
  obtain hsame | hmoved := SecureChannel.recvCipher_decrypt (A.ideal s.log) wire (s side).channel
  · exact ⟨heard, hfollows.sends, hfollows.heard_prefix, hsame ▸ hfollows.inStep⟩
  · obtain ⟨frame, hdecode, haccepts, -⟩ := hmoved
    exact absurd (verdict_forged h hdecode) haccepts

end Linked

/-- **Tampering is forgery.**  Where the two directions never use one key, a
frame of the peer with another payload of the same length is a forgery. -/
theorem Inv.forged {A : Aead Key} {keys : Side → Key} {s : Session Key T} (h : Inv A keys s)
    (hkeys : KeysDistinct A keys) (hover : A.Overhead AEAD_TAG_LEN) {side : Side} {i : Nat}
    {frame wire : Bytes} (hframe : (s.traffic side.peer)[i]? = some frame)
    (hshape : SameShape frame wire) (hne : frame ≠ wire) : s.Forged side wire := by
  intro e he hkey heq
  have hmem := h.mem_sealed_of_mem_log hkeys side e he hkey
  obtain ⟨j, hj⟩ := List.mem_iff_getElem?.mp hmem
  rw [traffic, List.getElem?_map] at hframe
  obtain ⟨e', he', rfl⟩ := Option.map_eq_some_iff.mp hframe
  obtain ⟨said, heard, hfollows⟩ := (Linked.of_inv h).receives side
  obtain ⟨m, -, -, hnonce, hprot⟩ := hfollows.sends.protects hover hj
  obtain ⟨m', -, -, hnonce', hprot'⟩ := hfollows.sends.protects hover he'
  -- one header, so one number
  have had : e'.ad = e.ad := by
    have htake := (Prod.mk.inj hshape).1
    rwa [← heq, Sealing.wire, Sealing.wire, List.take_left' (hprot'.length_ad),
      List.take_left' (hprot.length_ad)] at htake
  have hsame := hprot'.nonce_eq_of_ad hprot had
  rw [hnonce, hnonce'] at hsame
  rw [← hsame, he', Option.some.injEq] at hj
  exact hne (hj ▸ heq)

/-! ## Two runs -/

/-- Two sessions that differ in the keys and in what was encrypted. -/
structure TwinSessions (A : Aead Key) (keys keys' : Side → Key) (s s' : Session Key T) : Prop where
  linked : Linked A keys s
  linked' : Linked A keys' s'
  twin : ∀ side, Twin (s side).channel (s' side).channel

namespace TwinSessions

variable {A : Aead Key} {keys keys' : Side → Key} {s s' : Session Key T}

/-- Two sessions at the start, whatever their keys, hashes and peers. -/
theorem start (A : Aead Key) (keys keys' : Side → Key) (hash hash' : Bytes)
    (static static' : Side → Bytes) (replay : Side → ReplayWindow) (rekey : Side → RekeyPolicy T) :
    TwinSessions A keys keys' (Session.start keys hash static replay rekey)
      (Session.start keys' hash' static' replay rekey) :=
  ⟨.of_inv (inv_start _ _ _ _ _ _), .of_inv (inv_start _ _ _ _ _ _), fun _ =>
    ⟨⟨rfl, .nil⟩, ⟨rfl, .nil⟩, rfl, rfl, rfl, rfl, rfl⟩⟩

/-- A step of one side in both runs. -/
theorem update (h : TwinSessions A keys keys' s s') (side : Side) {p p' : Party Key T}
    (hlinked : Linked A keys (Function.update s side p))
    (hlinked' : Linked A keys' (Function.update s' side p')) (htwin : Twin p.channel p'.channel) :
    TwinSessions A keys keys' (Function.update s side p) (Function.update s' side p') := by
  refine ⟨hlinked, hlinked', Side.forall_of_peer side ?_ ?_⟩
  · simpa using htwin
  · simpa using h.twin side.peer

/-- The same frame of the peer, in both runs. -/
theorem traffic (h : TwinSessions A keys keys' s s') (hover : A.Overhead AEAD_TAG_LEN) (side : Side)
    {i : Nat} {e e' : Sealing Key} (he : (s side.peer).channel.sendCipher.sealed[i]? = some e)
    (he' : (s' side.peer).channel.sendCipher.sealed[i]? = some e') :
    SameSealing e e' ∧ SameShape e.wire e'.wire := by
  have hsame : SameSealing e e' := by
    have hsealed := (h.twin side.peer).send.sealed
    obtain ⟨hi, rfl⟩ := List.getElem?_eq_some_iff.mp he
    obtain ⟨hi', rfl⟩ := List.getElem?_eq_some_iff.mp he'
    exact (List.forall₂_iff_get.mp hsealed).2 i hi hi'
  obtain ⟨m, hprot⟩ := h.linked.protects hover (mem_log_of_getElem? he)
  refine ⟨hsame, ?_⟩
  rw [Sealing.wire, Sealing.wire, ← hsame.ad_eq]
  exact sameShape_append hprot.length_ad hsame.ciphertext_length

end TwinSessions

variable [Sub T] [DecidableLE T] [DecidableEq Key]

namespace Linked

variable {A : Aead Key} {keys : Side → Key} {s : Session Key T}

/-- `encrypt` keeps the ends linked. -/
theorem encrypt (h : Linked A keys s) (side : Side) (arg : Arg) :
    Linked A keys (step A s (.encrypt side arg)) := by
  have hspec := (Party.encrypt_spec A arg (s side)).1
  have hkeep := SecureChannel.encrypt_keeps_receiver A arg (s side).channel
  simp only [SecureChannel.receiver, Prod.mk.injEq] at hkeep
  refine h.update side (fun said hsends => hspec ▸ hsends.encrypt_extends arg)
    fun said heard hfollows => ⟨heard, hfollows.sends, hfollows.heard_prefix, ?_⟩
  rw [hspec, hkeep.1]
  exact hfollows.inStep

/-- `close_frame` keeps the ends linked. -/
theorem closeFrame (h : Linked A keys s) (side : Side) :
    Linked A keys (step A s (.closeFrame side)) := by
  have hkeep := SecureChannel.closeFrame_keeps_receiver A (s side).channel
  simp only [SecureChannel.receiver, Prod.mk.injEq] at hkeep
  refine h.update side (fun said hsends => hsends.closeFrame_extends)
    fun said heard hfollows => ⟨heard, hfollows.sends, hfollows.heard_prefix, ?_⟩
  rw [Party.closeFrame, hkeep.1]
  exact hfollows.inStep

/-- `decrypt` does, if the receiver goes on following the sender. -/
theorem decrypt (h : Linked A keys s) (side : Side) (wire : Bytes)
    (hhear : ∀ said heard,
      Follows A (keys side.peer) (s side.peer).channel (s side).channel said heard →
      ∃ heard', Follows A (keys side.peer) (s side.peer).channel
        ((SecureChannel.decrypt (A.ideal s.log) wire).run (s side).channel).2 said heard') :
    Linked A keys (step A s (.decrypt side wire)) := by
  have hspec := (Party.decrypt_spec (A.ideal s.log) wire (s side)).1
  refine h.update side (fun said hsends => ⟨[], ?_⟩) fun said heard hfollows => ?_
  · rw [hspec, List.append_nil]
    exact hsends.decrypt _ wire
  · rw [hspec]
    exact hhear said heard hfollows

end Linked

/-- How a call ends, as it can be seen: the frames of `encrypt` and
`close_frame` by header and length, the plaintext of `decrypt` by length. -/
inductive Shown where
  | sent (result : Except PyError (List (Bytes × Nat)))
  | received (result : Except PyError (Option Nat))

/-- What the call of an event shows, with what its side has logged then. -/
def observe (A : Aead Key) (s : Session Key T) : Event → Shown × List LogRecord
  | .encrypt side arg =>
      let (result, c) := (SecureChannel.encrypt A arg).run (s side).channel
      (.sent (result.map (List.map shape)), c.log)
  | .closeFrame side =>
      let (result, c) := (SecureChannel.closeFrame A).run (s side).channel
      (.sent (result.map fun wire => [shape wire]), c.log)
  | .decrypt side wire =>
      let (result, c) := (SecureChannel.decrypt (A.ideal s.log) wire).run (s side).channel
      (.received (result.map (Option.map List.length)), c.log)

/-- The session as a machine that shows something at each event. -/
def watched (A : Aead Key) (s : Session Key T) (event : Event) :
    (Shown × List LogRecord) × Session Key T :=
  (observe A s event, step A s event)

/-- The same call in two runs.  The network delivers frames by their index
among those of the peer, early or late, once or again, and puts forgeries in
their place. -/
inductive Matched (s s' : Session Key T) : Event → Event → Prop where
  | encrypt (side) {arg arg'} (h : SecureChannel.AlikeArgs arg arg') :
      Matched s s' (.encrypt side arg) (.encrypt side arg')
  | closeFrame (side) : Matched s s' (.closeFrame side) (.closeFrame side)
  | deliver (side) (i : Nat) {wire wire'} (h : (s.traffic side.peer)[i]? = some wire)
      (h' : (s'.traffic side.peer)[i]? = some wire') :
      Matched s s' (.decrypt side wire) (.decrypt side wire')
  | corrupt (side) {wire wire'} (hshape : SameShape wire wire') (h : s.Forged side wire)
      (h' : s'.Forged side wire') : Matched s s' (.decrypt side wire) (.decrypt side wire')

namespace TwinSessions

variable {A : Aead Key} {keys keys' : Side → Key} {s s' : Session Key T}

/-- A call of `decrypt` in both runs, where the AEAD says the same. -/
theorem decrypt (h : TwinSessions A keys keys' s s') (side : Side) {wire wire' : Bytes}
    (hshape : SameShape wire wire')
    (hverdict : ∀ frame frame', decode wire = .ok frame → decode wire' = .ok frame' →
      SecureChannel.verdict (A.ideal s.log) (s side).channel frame =
        SecureChannel.verdict (A.ideal s'.log) (s' side).channel frame')
    (hlinked : Linked A keys (step A s (.decrypt side wire)))
    (hlinked' : Linked A keys' (step A s' (.decrypt side wire'))) :
    observe A s (.decrypt side wire) = observe A s' (.decrypt side wire') ∧
      TwinSessions A keys keys' (step A s (.decrypt side wire))
        (step A s' (.decrypt side wire')) := by
  obtain ⟨hresult, htwin⟩ := SecureChannel.related_decrypt hshape (h.twin side) hverdict
  refine ⟨?_, h.update side hlinked hlinked' ?_⟩
  · exact Prod.ext (congrArg Shown.received (hresult.map_eq fun _ _ hlen => hlen)) htwin.log_eq
  · rwa [(Party.decrypt_spec ..).1, (Party.decrypt_spec ..).1]

/-- **One call in two runs** shows the same, and leaves the sessions twins. -/
theorem step (h : TwinSessions A keys keys' s s') (hover : A.Overhead AEAD_TAG_LEN)
    {event event' : Event} (hmatched : Matched s s' event event') :
    observe A s event = observe A s' event' ∧
      TwinSessions A keys keys' (Session.step A s event) (Session.step A s' event') := by
  cases hmatched with
  | @encrypt side arg arg' harg =>
      obtain ⟨hresult, htwin⟩ := SecureChannel.related_encrypt hover harg _ _ (h.twin side)
      refine ⟨?_, h.update side (h.linked.encrypt side arg) (h.linked'.encrypt side arg') ?_⟩
      · exact Prod.ext (congrArg Shown.sent (hresult.map_eq fun _ _ => map_shape_eq)) htwin.log_eq
      · rwa [(Party.encrypt_spec ..).1, (Party.encrypt_spec ..).1]
  | closeFrame side =>
      obtain ⟨hresult, htwin⟩ := SecureChannel.related_closeFrame hover _ _ (h.twin side)
      refine ⟨?_, h.update side (h.linked.closeFrame side) (h.linked'.closeFrame side) htwin⟩
      exact Prod.ext (congrArg Shown.sent (hresult.map_eq fun _ _ hshape => congrArg ([·]) hshape))
        htwin.log_eq
  | @deliver side i wire wire' hwire hwire' =>
      rw [Session.traffic, List.getElem?_map] at hwire hwire'
      obtain ⟨e, he, rfl⟩ := Option.map_eq_some_iff.mp hwire
      obtain ⟨e', he', rfl⟩ := Option.map_eq_some_iff.mp hwire'
      obtain ⟨hsame, hshape⟩ := h.traffic hover side he he'
      refine h.decrypt side hshape (fun frame frame' hdecode hdecode' => ?_)
        (h.linked.decrypt side e.wire fun said heard => h.linked.follows_traffic hover side he)
        (h.linked'.decrypt side e'.wire fun said heard => h.linked'.follows_traffic hover side he')
      rw [h.linked.verdict_traffic hover side he hdecode,
        h.linked'.verdict_traffic hover side he' hdecode', (h.twin side).recv.nonce_eq,
        hsame.plaintext_length]
  | @corrupt side wire wire' hshape hforged hforged' =>
      refine h.decrypt side hshape (fun frame frame' hdecode hdecode' => ?_)
        (h.linked.decrypt side wire fun said heard => Linked.follows_forged hforged)
        (h.linked'.decrypt side wire' fun said heard => Linked.follows_forged hforged')
      rw [Linked.verdict_forged hforged hdecode, Linked.verdict_forged hforged' hdecode']

end TwinSessions

/-- **Logs and traffic reveal only lengths.**  Two runs with the same calls and
the same network, where the plaintexts have the same lengths, show the same at
each event: the records logged, the headers and lengths of the frames, the
errors with their messages, and the lengths of the plaintexts returned. -/
theorem reveals_only_lengths (A : Aead Key) (hover : A.Overhead AEAD_TAG_LEN)
    (keys keys' : Side → Key) (hash hash' : Bytes) (static static' : Side → Bytes)
    (replay : Side → ReplayWindow) (rekey : Side → RekeyPolicy T) (events events' : List Event)
    (hruns : Runs.Lockstep (step A) Matched (start keys hash static replay rekey)
      (start keys' hash' static' replay rekey) events events') :
    Runs.answers (watched A) (start keys hash static replay rekey) events =
      Runs.answers (watched A) (start keys' hash' static' replay rekey) events' := by
  have hlockstep : Runs.Lockstep (fun s event => (watched A s event).2) Matched
      (start keys hash static replay rekey) (start keys' hash' static' replay rekey) events events' :=
    hruns
  have htwin := TwinSessions.start A keys keys' hash hash' static static' replay rekey
  exact hlockstep.answers_eq htwin fun _ _ _ _ htwin hmatched => htwin.step hover hmatched

/-- The initiator sends two messages with a REKEY between them; the responder is
handed the first frame edited, then as it was, then again, and the others, and
closes.  The keys and the plaintexts of the two runs differ. -/
theorem reveals_only_lengths_edited :
    let A := Aead.spelled (· + 2)
    let window : ReplayWindow := ⟨1024, (1 <<< 1024) - 1, -1, 0, by decide, rfl⟩
    let policy : RekeyPolicy ℤ := ⟨1, 900, fun _ => 0, 1, 0, 0, by decide, by decide⟩
    let s₀ : Nat → Session Nat ℤ := fun key =>
      start (fun side => if side = .initiator then key else key + 1) [] (fun _ => [])
        (fun _ => window) (fun _ => policy)
    let first := fun (key : Nat) (plaintext : Bytes) =>
      headerFor .transport 0 plaintext ++ A.encrypt key 0 [] plaintext
    let rekey := fun (key : Nat) => headerFor .rekey 1 [] ++ A.encrypt key 1 [] []
    let second := fun (key : Nat) (plaintext : Bytes) =>
      headerFor .transport 2 plaintext ++ A.encrypt (key + 2) 2 [] plaintext
    let events := fun (key : Nat) (plaintext plaintext' : Bytes) => [
      Event.encrypt .initiator (.bytesLike plaintext),
      .decrypt .responder ((first key plaintext).set 14 0), .decrypt .responder (first key plaintext),
      .decrypt .responder (first key plaintext), .encrypt .initiator (.bytesLike plaintext'),
      .decrypt .responder (rekey key), .decrypt .responder (second key plaintext'),
      .closeFrame .responder]
    (run A (s₀ 0) (events 0 [104, 105] [33]) .responder).returned = [[104, 105], [33]] ∧
      (run A (s₀ 6) (events 6 [1, 2] [3]) .responder).returned = [[1, 2], [3]] ∧
      Runs.answers (watched A) (s₀ 0) (events 0 [104, 105] [33]) =
        Runs.answers (watched A) (s₀ 6) (events 6 [1, 2] [3]) := by
  intro A window policy s₀ first rekey second events
  refine ⟨by decide +kernel, by decide +kernel, reveals_only_lengths A (Aead.overhead_spelled _) _ _
    [] [] (fun _ => []) (fun _ => []) (fun _ => window) (fun _ => policy) _ _ ?_⟩
  refine .cons (.encrypt _ (.bytesLike rfl)) ?_
  refine .cons (.corrupt _ (by decide) (by decide +kernel) (by decide +kernel)) ?_
  refine .cons (.deliver _ 0 (by decide +kernel) (by decide +kernel)) ?_
  refine .cons (.deliver _ 0 (by decide +kernel) (by decide +kernel)) ?_
  refine .cons (.encrypt _ (.bytesLike rfl)) ?_
  refine .cons (.deliver _ 1 (by decide +kernel) (by decide +kernel)) ?_
  refine .cons (.deliver _ 2 (by decide +kernel) (by decide +kernel)) ?_
  exact .cons (.closeFrame _) .nil

end Session

end SecureWs
