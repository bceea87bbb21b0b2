import SecureWs.Stream

/-!
# SecureWs.Trace

The traces of one sender: every run of calls of `encrypt` and `close_frame`
that succeed, on a channel with a rekey policy of its own.

* `Trace` collects, for each call, the frames it returned and, for
  `encrypt`, what the policy answered, the time of that answer and the time
  since when the key of the message is in use;
* `TraceInv` ties the trace to the abstract stream and to the policy's
  counter; `under` counts the TRANSPORT frames of one key epoch.
-/

namespace SecureWs

open Python

def wireType (wire : Bytes) : Option MessageType := MessageType.ofNat? (headerUnpack wire).2.1

def wireSeq (wire : Bytes) : Nat := (headerUnpack wire).2.2.1

/-- The header of an encrypted message says its type and the nonce. -/
theorem header_sealing {Key : Type} (A : Aead Key) (cs : CipherState Key) (m : Msg)
    (hseq : cs.nonce ≤ MAX_SEQ) (hfits : m.plaintext.length ≤ MAX_PLAINTEXT) :
    wireType (stream.sealing A cs m).wire = some m.msgType ∧
      wireSeq (stream.sealing A cs m).wire = cs.nonce := by
  have hlen : m.plaintext.length + AEAD_TAG_LEN < 2 ^ 32 := by
    simp only [MAX_PLAINTEXT, MAX_PAYLOAD, AEAD_TAG_LEN] at hfits ⊢
    omega
  have hunpack : headerUnpack (stream.sealing A cs m).wire =
      (FRAME_VERSION, m.msgType.toNat, cs.nonce, m.plaintext.length + AEAD_TAG_LEN) := by
    simp only [MAX_SEQ] at hseq
    exact headerUnpack_pack_append (by decide) m.msgType.toNat_lt (by omega) hlen _
  simp [wireType, wireSeq, hunpack]

/-- The headers of a list of frames: the types of the messages, and
consecutive numbers. -/
theorem headers_frames {Key : Type} (A : Aead Key) (cs : CipherState Key) (new : List Msg)
    (hseq : cs.nonce + new.length ≤ MAX_SEQ + 1)
    (hfits : ∀ m ∈ new, m.plaintext.length ≤ MAX_PLAINTEXT) :
    (frames A cs new).map wireType = new.map (fun m => some m.msgType) ∧
      (frames A cs new).map wireSeq = List.range' cs.nonce new.length := by
  induction new generalizing cs with
  | nil => exact ⟨rfl, rfl⟩
  | cons m new ih =>
      simp only [List.length_cons] at hseq
      obtain ⟨htype, hnum⟩ := header_sealing A cs m (by omega) (hfits m (by simp))
      obtain ⟨htypes, hnums⟩ := ih (stream.push A cs m) (by simp; omega)
        fun m' hm' => hfits m' (List.mem_cons_of_mem _ hm')
      rw [frames] at htypes hnums
      simp [frames, AeadStream.sealings, htype, hnum, htypes, hnums, List.range'_succ]

/-! ## Messages under one key -/

/-- How many TRANSPORT frames were encrypted in a key epoch. -/
def under {Key : Type} (sealed : List (Sealing Key)) (epoch : Nat) : Nat :=
  sealed.countP fun s => wireType s.wire = some .transport ∧ s.epoch = epoch

/-- `count` messages were encrypted under the current key, and no key was
used for more than `limit`. -/
structure Counted {Key : Type} (cs : CipherState Key) (count : Nat) (limit : Int) : Prop where
  current : under cs.sealed cs.epoch = count
  limited : ∀ epoch, (under cs.sealed epoch : Int) ≤ limit
  epoch_le : ∀ s ∈ cs.sealed, s.epoch ≤ cs.epoch

namespace Counted

variable {Key : Type} {A : Aead Key} {cs : CipherState Key} {count : Nat} {limit : Int}

theorem fresh (key : Key) (hlimit : 0 ≤ limit) : Counted (.fresh key) 0 limit :=
  ⟨rfl, fun _ => hlimit, by simp [CipherState.fresh]⟩

/-- One message more counts where it was encrypted. -/
theorem under_push (A : Aead Key) (m : Msg) (hseq : cs.nonce ≤ MAX_SEQ)
    (hfits : m.plaintext.length ≤ MAX_PLAINTEXT) (epoch : Nat) :
    under (stream.push A cs m).sealed epoch =
      under cs.sealed epoch + if m.msgType = .transport ∧ cs.epoch = epoch then 1 else 0 := by
  have htype := (header_sealing A cs m hseq hfits).1
  have hepoch : (stream.sealing A cs m).epoch = cs.epoch := rfl
  simp [under, List.countP_append, List.countP_singleton, htype, hepoch]

/-- A frame is encrypted under the current key at the latest. -/
theorem epoch_le_push (h : Counted cs count limit) {m : Msg}
    (hle : cs.epoch ≤ (stream.push A cs m).epoch) :
    ∀ s ∈ (stream.push A cs m).sealed, s.epoch ≤ (stream.push A cs m).epoch := by
  rw [AeadStream.sealed_push]
  simp only [List.mem_append, List.mem_singleton]
  intro s hmem
  obtain hs | rfl := hmem
  · exact (h.epoch_le s hs).trans hle
  · exact hle

/-- A TRANSPORT frame, while the limit is not reached. -/
theorem transport (h : Counted cs count limit) (hseq : cs.nonce ≤ MAX_SEQ) {plaintext : Bytes}
    (hfits : plaintext.length ≤ MAX_PLAINTEXT) (hlt : (count : Int) < limit) :
    Counted (stream.push A cs (.transport plaintext)) (count + 1) limit := by
  have hunder := under_push A (.transport plaintext) hseq hfits
  have hepoch : (stream.push A cs (.transport plaintext)).epoch = cs.epoch := rfl
  constructor
  · rw [hunder, hepoch, h.current]
    simp [Msg.msgType]
  · intro epoch
    have hlim := h.limited epoch
    rw [hunder]
    by_cases he : cs.epoch = epoch
    · subst he
      rw [h.current] at hlim ⊢
      simp [Msg.msgType]
      omega
    · simpa [he] using hlim
  · exact h.epoch_le_push le_rfl

/-- A REKEY frame starts a new key. -/
theorem rekey (h : Counted cs count limit) (hseq : cs.nonce ≤ MAX_SEQ) :
    Counted (stream.push A cs .rekey) 0 limit := by
  have hunder := under_push A .rekey hseq (Nat.zero_le _)
  have hepoch : (stream.push A cs .rekey).epoch = cs.epoch + 1 := rfl
  constructor
  · -- no message was encrypted under a key to come
    rw [hunder, hepoch]
    have hnone : under cs.sealed (cs.epoch + 1) = 0 := by
      refine List.countP_eq_zero.mpr fun s hs => ?_
      have hle := h.epoch_le s hs
      simp only [decide_eq_true_eq, not_and]
      omega
    simp [hnone, Msg.msgType]
  · intro epoch
    rw [hunder]
    simpa [Msg.msgType] using h.limited epoch
  · exact h.epoch_le_push (Nat.le_succ _)

/-- A CLOSE frame does not count. -/
theorem close (h : Counted cs count limit) (hseq : cs.nonce ≤ MAX_SEQ) :
    Counted (stream.push A cs .close) count limit := by
  have hunder := under_push A .close hseq (Nat.zero_le _)
  have hepoch : (stream.push A cs .close).epoch = cs.epoch := rfl
  constructor
  · rw [hunder, hepoch]
    simpa [Msg.msgType] using h.current
  · intro epoch
    rw [hunder]
    simpa [Msg.msgType] using h.limited epoch
  · exact h.epoch_le_push le_rfl

end Counted

/-! ## Traces -/

/-- A successful call: of `encrypt`, with what the policy answered, the
clock when it was asked, the time since when the key of the message is in
use, and the frames returned; or of `close_frame`. -/
inductive CallRecord (T : Type) where
  | encrypt (due : Bool) (now keySince : T) (frames : List Bytes)
  | closeFrame (frame : Bytes)

def CallRecord.frames {T : Type} : CallRecord T → List Bytes
  | encrypt _ _ _ frames => frames
  | closeFrame frame => [frame]

/-- One REKEY frame exactly when the policy was due, then one TRANSPORT
frame; or one CLOSE frame. -/
def CallRecord.Shaped {T : Type} : CallRecord T → Prop
  | encrypt due _ _ frames =>
      frames.map wireType =
        if due = true then [some .rekey, some .transport] else [some .transport]
  | closeFrame frame => wireType frame = some .close

/-- When the policy was asked, the key of the message was younger than
`maxSeconds`. -/
def CallRecord.OnTime {T : Type} [Sub T] [LE T] (maxSeconds : T) : CallRecord T → Prop
  | encrypt _ now keySince _ => ¬ maxSeconds ≤ now - keySince
  | closeFrame _ => True

variable {Key T : Type} [Zero T] [Sub T] [Preorder T] [DecidableLE T]

/-- The runs of successful calls from `c₀`.  The last index is the time of
the last rekey: the reading `reset` took in the call that made it, and before
that the reading the policy took when it was built. -/
inductive Trace (A : Aead Key) (c₀ : SecureChannel Key T) :
    List (CallRecord T) → SecureChannel Key T → T → Prop where
  | start : Trace A c₀ [] c₀ (c₀.rekey.clock 0)
  | encrypt {calls c since arg frames c' since'} (h : Trace A c₀ calls c since)
      (hrun : (SecureChannel.encrypt A arg).run c = (.ok frames, c'))
      (hsince : since' =
        if c.rekey.isDue = true then c'.rekey.clock (c'.rekey.reads - 1) else since) :
      Trace A c₀
        (calls ++ [.encrypt c.rekey.isDue (c.rekey.clock c.rekey.reads) since' frames]) c' since'
  | closeFrame {calls c since frame c'} (h : Trace A c₀ calls c since)
      (hrun : (SecureChannel.closeFrame A).run c = (.ok frame, c')) :
      Trace A c₀ (calls ++ [.closeFrame frame]) c' since

/-- A call of `encrypt` that succeeds extends a trace by its frames. -/
theorem Trace.extend {A : Aead Key} {c₀ c : SecureChannel Key T} {calls : List (CallRecord T)}
    {since : T} (h : Trace A c₀ calls c since) {arg : Arg} {frames : List Bytes}
    (hok : ((SecureChannel.encrypt A arg).run c).1 = .ok frames) :
    ∃ calls' since', Trace A c₀ calls' ((SecureChannel.encrypt A arg).run c).2 since' ∧
      calls'.flatMap CallRecord.frames = calls.flatMap CallRecord.frames ++ frames :=
  ⟨_, _, h.encrypt (Prod.ext hok rfl) rfl, by simp [CallRecord.frames]⟩

/-- So does a call of `close_frame`. -/
theorem Trace.extend_close {A : Aead Key} {c₀ c : SecureChannel Key T}
    {calls : List (CallRecord T)} {since : T} (h : Trace A c₀ calls c since) {frame : Bytes}
    (hok : ((SecureChannel.closeFrame A).run c).1 = .ok frame) :
    ∃ calls' since', Trace A c₀ calls' ((SecureChannel.closeFrame A).run c).2 since' ∧
      calls'.flatMap CallRecord.frames = calls.flatMap CallRecord.frames ++ [frame] :=
  ⟨_, _, h.closeFrame (Prod.ext hok rfl), by simp [CallRecord.frames]⟩

/-! ## The invariant -/

/-- What a trace keeps; `said` is what the channel has said in it. -/
structure TraceInv (A : Aead Key) (key : Key) (policy : RekeyPolicy T) (said : List Msg)
    (calls : List (CallRecord T)) (c : SecureChannel Key T) (since : T) : Prop where
  sends : c.Sends A key said
  frames_eq : calls.flatMap CallRecord.frames = frames A (stream.cipher A key []) said
  shaped : ∀ call ∈ calls, call.Shaped
  onTime : ∀ call ∈ calls, call.OnTime policy.maxSeconds
  config : c.rekey.maxMessages = policy.maxMessages ∧ c.rekey.maxSeconds = policy.maxSeconds ∧
    c.rekey.clock = policy.clock
  since_eq : since = c.rekey.lastRekey
  counted : Counted c.sendCipher c.rekey.count policy.maxMessages

namespace TraceInv

variable {A : Aead Key} {key : Key} {policy : RekeyPolicy T} {said : List Msg}
  {calls : List (CallRecord T)} {c c' : SecureChannel Key T} {since since' : T}

omit [DecidableLE T] in
/-- A call of `close_frame` keeps the invariant. -/
theorem closeFrame (h : TraceInv A key policy said calls c since) {frame : Bytes}
    (hrun : (SecureChannel.closeFrame A).run c = (.ok frame, c')) :
    ∃ said', TraceInv A key policy said' (calls ++ [.closeFrame frame]) c' since := by
  cases h.sends.closeFrame with
  | inr herr =>
      obtain ⟨e, c'', hrun', -⟩ := herr
      rw [hrun'] at hrun
      simp at hrun
  | inl hok =>
      obtain ⟨-, hrun', hsends⟩ := hok
      rw [hrun', Prod.mk.injEq, Except.ok.injEq] at hrun
      obtain ⟨rfl, hc'⟩ := hrun
      have hrekey : c'.rekey = c.rekey := by rw [← hc']; rfl
      rw [hc'] at hsends
      have hlen := hsends.length_le
      have hseq : c.sendCipher.nonce ≤ MAX_SEQ := by
        rw [h.sends.cipher_eq, AeadStream.nonce_cipher]
        simp only [List.length_append, List.length_singleton, MAX_NONCE, MAX_SEQ] at hlen ⊢
        omega
      refine ⟨said ++ [.close], hsends, ?_, ?_, ?_, ?_, ?_, ?_⟩
      · rw [List.flatMap_append, h.frames_eq]
        simpa [CallRecord.frames, frames, AeadStream.sealings, h.sends.cipher_eq] using
          (frames_append A key [] said [.close]).symm
      · simp only [List.mem_append, List.mem_singleton]
        intro call hmem
        obtain hcall | rfl := hmem
        · exact h.shaped call hcall
        · exact (header_sealing A c.sendCipher .close hseq (Nat.zero_le _)).1
      · simp only [List.mem_append, List.mem_singleton]
        intro call hmem
        obtain hcall | rfl := hmem
        · exact h.onTime call hcall
        · trivial
      · rw [hrekey]
        exact h.config
      · rw [hrekey]
        exact h.since_eq
      · rw [hrekey, hsends.cipher_eq, AeadStream.cipher_append_singleton, ← h.sends.cipher_eq]
        exact h.counted.close hseq

/-- The frames of a batch: a REKEY exactly when the policy is due, and the
message. -/
theorem shaped_batch (h : c.Sends A key said) {plaintext : Bytes}
    (h' : c'.Sends A key (said ++ c.batch plaintext)) (now keySince : T) :
    (CallRecord.encrypt c.rekey.isDue now keySince
      (frames A c.sendCipher (c.batch plaintext))).Shaped := by
  have hlen := h'.length_le
  rw [List.length_append] at hlen
  have htypes := (headers_frames A c.sendCipher (c.batch plaintext)
    (by rw [h.cipher_eq, AeadStream.nonce_cipher]; simp only [MAX_NONCE, MAX_SEQ] at hlen ⊢; omega)
    fun m hm => h'.fits m (List.mem_append_right _ hm)).1
  rw [CallRecord.Shaped, htypes, SecureChannel.batch]
  split <;> rfl

/-- The messages of a batch count against the limit. -/
theorem counted_batch (h : TraceInv A key policy said calls c since) {plaintext : Bytes}
    (h' : c'.Sends A key (said ++ c.batch plaintext)) :
    Counted c'.sendCipher c.rekey.afterEncrypt.count policy.maxMessages := by
  have hlen := h'.length_le
  have hn : c.sendCipher.nonce = said.length := by
    rw [h.sends.cipher_eq, AeadStream.nonce_cipher]
  have hfits : plaintext.length ≤ MAX_PLAINTEXT :=
    h'.fits (.transport plaintext) (by unfold SecureChannel.batch; split <;> simp)
  rw [h'.cipher_eq, AeadStream.cipher_append, ← h.sends.cipher_eq]
  unfold SecureChannel.batch at hlen ⊢
  simp only [MAX_NONCE] at hlen
  by_cases hd : c.rekey.isDue = true
  · rw [if_pos hd, List.length_append] at hlen
    simp only [List.length_cons, List.length_nil] at hlen
    have hpos := policy.messages_pos
    rw [if_pos hd, (RekeyPolicy.afterEncrypt_of_due hd).1]
    exact (h.counted.rekey (by simp only [MAX_SEQ]; omega)).transport
      (by simp only [AeadStream.nonce_push, MAX_SEQ]; omega) hfits (by omega)
  · rw [if_neg hd, List.length_append] at hlen
    simp only [List.length_cons, List.length_nil] at hlen
    obtain ⟨hcount, hlt, -⟩ := RekeyPolicy.afterEncrypt_of_not_due hd
    rw [if_neg hd, hcount]
    exact h.counted.transport (by simp only [MAX_SEQ]; omega) hfits (by rw [← h.config.1]; exact hlt)

/-- When `encrypt` asks the policy, the key it will use is young enough. -/
theorem onTime_batch (h : TraceInv A key policy said calls c since) (hclock : Monotone policy.clock)
    (hsub : ∀ t t' : T, t ≤ t' → t - t' ≤ 0) :
    ¬ policy.maxSeconds ≤ c.rekey.clock c.rekey.reads - c.rekey.afterEncrypt.lastRekey := by
  by_cases hd : c.rekey.isDue = true
  · -- the key was replaced after the question
    rw [(RekeyPolicy.afterEncrypt_of_due hd).2.1, h.config.2.2]
    intro hle
    have hdiff := hsub _ _ (hclock c.rekey.reads_le_afterDue)
    exact policy.seconds_pos (hle.trans hdiff)
  · obtain ⟨-, -, hlast, htime⟩ := RekeyPolicy.afterEncrypt_of_not_due hd
    rw [hlast, ← h.config.2.1]
    exact htime

/-- A call of `encrypt` keeps the invariant. -/
theorem encrypt (h : TraceInv A key policy said calls c since) (hclock : Monotone policy.clock)
    (hsub : ∀ t t' : T, t ≤ t' → t - t' ≤ 0) {arg : Arg} {frames : List Bytes}
    (hrun : (SecureChannel.encrypt A arg).run c = (.ok frames, c'))
    (hsince : since' =
      if c.rekey.isDue = true then c'.rekey.clock (c'.rekey.reads - 1) else since) :
    ∃ said', TraceInv A key policy said'
      (calls ++ [.encrypt c.rekey.isDue (c.rekey.clock c.rekey.reads) since' frames]) c' since' := by
  cases h.sends.encrypt arg with
  | inr herr =>
      obtain ⟨e, c'', hrun', -⟩ := herr
      rw [hrun'] at hrun
      simp at hrun
  | inl hok =>
      obtain ⟨plaintext, rfl, -, hrun', hsends⟩ := hok
      rw [hrun', Prod.mk.injEq, Except.ok.injEq] at hrun
      obtain ⟨rfl, hc'⟩ := hrun
      have hrekey := SecureChannel.Sends.rekey_afterEncrypt A c plaintext
      rw [hc'] at hsends hrekey
      have hconfig := c.rekey.afterEncrypt_config
      have hsince' : since' = c.rekey.afterEncrypt.lastRekey := by
        rw [hsince, hrekey]
        by_cases hd : c.rekey.isDue = true
        · obtain ⟨-, hlast, hreads⟩ := RekeyPolicy.afterEncrypt_of_due hd
          rw [if_pos hd, hlast, hreads, hconfig.2.2, Nat.add_sub_cancel]
        · rw [if_neg hd, (RekeyPolicy.afterEncrypt_of_not_due hd).2.2.1, h.since_eq]
      refine ⟨said ++ c.batch plaintext, hsends, ?_, ?_, ?_, ?_, ?_, ?_⟩
      · rw [List.flatMap_append, h.frames_eq]
        simpa [CallRecord.frames, h.sends.cipher_eq] using
          (frames_append A key [] said (c.batch plaintext)).symm
      · simp only [List.mem_append, List.mem_singleton]
        intro call hmem
        obtain hcall | rfl := hmem
        · exact h.shaped call hcall
        · exact shaped_batch h.sends hsends _ _
      · simp only [List.mem_append, List.mem_singleton]
        intro call hmem
        obtain hcall | rfl := hmem
        · exact h.onTime call hcall
        · rw [CallRecord.OnTime, hsince']
          exact h.onTime_batch hclock hsub
      · rw [hrekey, hconfig.1, hconfig.2.1, hconfig.2.2]
        exact h.config
      · rw [hsince', hrekey]
      · rw [hrekey]
        exact h.counted_batch hsends

/-- Every trace keeps the invariant. -/
theorem of_trace {c₀ : SecureChannel Key T} (h₀ : TraceInv A key policy [] [] c₀ (c₀.rekey.clock 0))
    (hclock : Monotone policy.clock) (hsub : ∀ t t' : T, t ≤ t' → t - t' ≤ 0)
    (h : Trace A c₀ calls c since) : ∃ said, TraceInv A key policy said calls c since := by
  induction h with
  | start => exact ⟨[], h₀⟩
  | encrypt _ hrun hsince ih =>
      obtain ⟨said, hinv⟩ := ih
      exact hinv.encrypt hclock hsub hrun hsince
  | closeFrame _ hrun ih =>
      obtain ⟨said, hinv⟩ := ih
      exact hinv.closeFrame hrun

/-- A new channel with a new policy. -/
theorem init {result : HandshakeResult Key} (hsend : result.sendCipher = .fresh key)
    (replay : ReplayWindow) {maxMessages : Int} {maxSeconds : T} {clock : Nat → T}
    (hpolicy : RekeyPolicy.new maxMessages maxSeconds clock = .ok policy) :
    TraceInv A key policy [] [] (SecureChannel.init result replay policy) (policy.clock 0) := by
  have hpos := policy.messages_pos
  have hfields : policy.lastRekey = policy.clock 0 ∧ policy.count = 0 := by
    unfold RekeyPolicy.new at hpolicy
    split_ifs at hpolicy
    rw [Except.ok.injEq] at hpolicy
    subst hpolicy
    exact ⟨rfl, rfl⟩
  have hcounted : Counted (.fresh key) policy.count policy.maxMessages := by
    rw [hfields.2]
    exact .fresh key (by omega)
  exact ⟨.init _ _ _ hsend, rfl, by simp, by simp, ⟨rfl, rfl, rfl⟩, hfields.1.symm,
    by simpa [SecureChannel.init, hsend] using hcounted⟩

omit [DecidableLE T] in
/-- Every encryption of a trace: numbered by its nonce, authenticated with
its header, under the key of its epoch. -/
theorem sealed_spec (h : TraceInv A key policy said calls c since) :
    ∀ s ∈ c.sendCipher.sealed, wireSeq s.wire = s.nonce ∧ s.ad = s.wire.take HEADER_LEN ∧
      s.key = A.rekey^[s.epoch] key := by
  intro s hs
  rw [h.sends.cipher_eq] at hs
  obtain ⟨heard, m, hpre, rfl⟩ := stream.exists_of_mem_sealed A hs
  have hlen := h.sends.length_le
  have hle := hpre.length_le
  simp only [List.length_append, List.length_singleton, MAX_NONCE] at hlen hle
  have hnum := (header_sealing A (stream.cipher A key heard) m
    (by simp only [AeadStream.nonce_cipher, MAX_SEQ]; omega)
    (h.sends.fits m (hpre.subset (by simp)))).2
  refine ⟨hnum, ?_, stream.key_of_mem_sealed A hs⟩
  exact (List.take_left' (length_headerBytes ..)).symm

omit [DecidableLE T] in
/-- A CLOSE frame is the last one. -/
theorem close_last (h : TraceInv A key policy said calls c since) {i : Nat} {wire : Bytes}
    (hwire : (frames A (stream.cipher A key []) said)[i]? = some wire)
    (hclose : wireType wire = some .close) : i + 1 = said.length := by
  have hlen := h.sends.length_le
  have htypes := (headers_frames A (stream.cipher A key []) said
    (by simp only [AeadStream.cipher_nil, CipherState.fresh, MAX_NONCE, MAX_SEQ] at hlen ⊢; omega)
    h.sends.fits).1
  have hi : (said.map fun m => some m.msgType)[i]? = some (some .close) := by
    rw [← htypes, List.getElem?_map, hwire, Option.map_some, hclose]
  rw [List.getElem?_map] at hi
  obtain ⟨m, hm, htype⟩ := Option.map_eq_some_iff.mp hi
  have hmc : m = .close := by
    cases m with
    | transport plaintext => simp [Msg.msgType] at htype
    | rekey => simp [Msg.msgType] at htype
    | close => rfl
  obtain ⟨hlt, hget⟩ := List.getElem?_eq_some_iff.mp hm
  by_contra hne
  have hmem : m ∈ said.dropLast := by
    rw [← hget, ← List.getElem_dropLast (i := i) (by simp; omega)]
    exact List.getElem_mem _
  exact h.sends.close_last m hmem hmc

end TraceInv

/-- **Sender traces and rekey bounds.**  In every run of successful calls on
a new channel with a policy of its own, whose clock never goes back: the
frames are numbered `0, 1, 2, …`, each under its nonce; each `encrypt` gives
one TRANSPORT frame, after a REKEY frame exactly when the policy was due;
at most `maxMessages` TRANSPORT frames go under one key; none goes under a
key that `maxSeconds` had passed for when the policy was asked; and a CLOSE
frame is the last. -/
theorem sender_trace [DecidableEq Key] (A : Aead Key) (key : Key) (result : HandshakeResult Key)
    (hsend : result.sendCipher = .fresh key) (replay : ReplayWindow) (maxMessages : Int)
    (maxSeconds : T) (clock : Nat → T) (hclock : Monotone clock)
    (hsub : ∀ t t' : T, t ≤ t' → t - t' ≤ 0) (policy : RekeyPolicy T)
    (hpolicy : RekeyPolicy.new maxMessages maxSeconds clock = .ok policy)
    (calls : List (CallRecord T)) (c : SecureChannel Key T) (since : T)
    (h : Trace A (SecureChannel.init result replay policy) calls c since) :
    let emitted := calls.flatMap CallRecord.frames
    let sealed := c.sendCipher.sealed
    emitted = sealed.map Sealing.wire ∧
    emitted.map wireSeq = List.range emitted.length ∧
    (∀ s ∈ sealed, wireSeq s.wire = s.nonce ∧ s.ad = s.wire.take HEADER_LEN ∧
      s.key = A.rekey^[s.epoch] key) ∧
    (∀ call ∈ calls, call.Shaped ∧ call.OnTime maxSeconds) ∧
    (∀ epoch, (under sealed epoch : Int) ≤ maxMessages) ∧
    ((∀ i j, A.rekey^[i] key = A.rekey^[j] key → i = j) → ∀ k,
      ((sealed.countP fun s => wireType s.wire = some .transport ∧ s.key = k : Nat) : Int) ≤
        maxMessages) ∧
    (∀ i wire, emitted[i]? = some wire → wireType wire = some .close → i + 1 = emitted.length) := by
  intro emitted sealed
  have hfields : policy.maxMessages = maxMessages ∧ policy.maxSeconds = maxSeconds ∧
      policy.clock = clock := by
    unfold RekeyPolicy.new at hpolicy
    split_ifs at hpolicy
    rw [Except.ok.injEq] at hpolicy
    subst hpolicy
    exact ⟨rfl, rfl, rfl⟩
  obtain ⟨hmax, hsec, hclk⟩ := hfields
  obtain ⟨said, hinv⟩ := (TraceInv.init hsend replay hpolicy).of_trace (hclk ▸ hclock) hsub h
  have hlen := hinv.sends.length_le
  have hemitted : emitted = frames A (stream.cipher A key []) said := hinv.frames_eq
  have hnums := (headers_frames A (stream.cipher A key []) said
    (by simp only [AeadStream.cipher_nil, CipherState.fresh, MAX_NONCE, MAX_SEQ] at hlen ⊢; omega)
    hinv.sends.fits).2
  have hlimit : ∀ epoch, (under sealed epoch : Int) ≤ maxMessages := hmax ▸ hinv.counted.limited
  refine ⟨?_, ?_, hinv.sealed_spec, fun call hcall => ⟨hinv.shaped call hcall,
    hsec ▸ hinv.onTime call hcall⟩, hlimit, fun hinj k => ?_, fun i wire hwire hclose => ?_⟩
  · rw [hemitted, frames]
    simp only [sealed, hinv.sends.cipher_eq, AeadStream.sealed_cipher, AeadStream.cipher_nil]
  · rw [hemitted, hnums, length_frames, List.range_eq_range']
    rfl
  · by_cases hk : ∃ s ∈ sealed, s.key = k
    · -- one key is one epoch
      obtain ⟨s, hs, rfl⟩ := hk
      refine le_trans ?_ (hlimit s.epoch)
      refine Int.ofNat_le.mpr (List.countP_mono_left fun s' hs' hp => ?_)
      simp only [decide_eq_true_eq] at hp ⊢
      refine ⟨hp.1, hinj _ _ ?_⟩
      rw [← (hinv.sealed_spec s' hs').2.2, ← (hinv.sealed_spec s hs).2.2, hp.2]
    · have hzero : (sealed.countP fun s => wireType s.wire = some .transport ∧ s.key = k) = 0 := by
        refine List.countP_eq_zero.mpr fun s hs => ?_
        simp only [decide_eq_true_eq, not_and]
        exact fun _ heq => hk ⟨s, hs, heq⟩
      have hpos := policy.messages_pos
      rw [hzero]
      simp only [Nat.cast_zero]
      omega
  · rw [hemitted] at hwire ⊢
    rw [length_frames]
    exact hinv.close_last hwire hclose

/-- With a REKEY after every message, two messages and a CLOSE are the frames
`0` to `3`: TRANSPORT, REKEY, TRANSPORT, CLOSE. -/
theorem sender_trace_rekey :
    let A := Aead.spelled (· + 1)
    let result : HandshakeResult Nat := ⟨true, [], [], [], .fresh 0, .fresh 1⟩
    let window : ReplayWindow := ⟨1, 1, -1, 0, by decide, rfl⟩
    ∃ policy, RekeyPolicy.new 1 (900 : ℤ) (fun _ => 0) = .ok policy ∧
      ∃ calls c since, Trace A (SecureChannel.init result window policy) calls c since ∧
        (calls.flatMap CallRecord.frames).map wireType =
          [some .transport, some .rekey, some .transport, some .close] ∧
        (calls.flatMap CallRecord.frames).map wireSeq =
          List.range (calls.flatMap CallRecord.frames).length := by
  intro A result window
  let policy : RekeyPolicy ℤ := ⟨1, 900, fun _ => 0, 1, 0, 0, by decide, by decide⟩
  let c₀ := SecureChannel.init result window policy
  let c₁ := ((SecureChannel.encrypt A (.bytesLike [1])).run c₀).2
  let c₂ := ((SecureChannel.encrypt A (.bytesLike [2])).run c₁).2
  have hrun₁ : ((SecureChannel.encrypt A (.bytesLike [1])).run c₀).1 =
      .ok (frames A (stream.cipher A 0 []) [.transport [1]]) := by decide +kernel
  have hrun₂ : ((SecureChannel.encrypt A (.bytesLike [2])).run c₁).1 =
      .ok (frames A (stream.cipher A 0 [.transport [1]]) [.rekey, .transport [2]]) := by
    decide +kernel
  have hrun₃ : ((SecureChannel.closeFrame A).run c₂).1 =
      .ok (stream.sealing A (stream.cipher A 0 [.transport [1], .rekey, .transport [2]])
        .close).wire := by decide +kernel
  obtain ⟨calls₁, since₁, h₁, hcalls₁⟩ := Trace.start.extend hrun₁
  obtain ⟨calls₂, since₂, h₂, hcalls₂⟩ := h₁.extend hrun₂
  obtain ⟨calls₃, since₃, h₃, hcalls₃⟩ := h₂.extend_close hrun₃
  have hsub : ∀ t t' : ℤ, t ≤ t' → t - t' ≤ 0 := fun t t' h => by omega
  have htrace := sender_trace A 0 result rfl window 1 900 (fun _ => 0) monotone_const hsub policy
    rfl _ _ _ h₃
  refine ⟨policy, rfl, _, _, _, h₃, ?_, htrace.2.1⟩
  rw [hcalls₃, hcalls₂, hcalls₁]
  decide +kernel

end SecureWs
