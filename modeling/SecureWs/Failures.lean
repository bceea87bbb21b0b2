import SecureWs.Lib.Runs
import SecureWs.Session

/-!
# SecureWs.Failures

What a failing call leaves behind.

* `decrypt`: an input that is turned away before its tag was checked
  (`Rejected`) leaves the channel as it was, so leaving it out of a run
  changes nothing else (`rejected_input_invisible`);
* `encrypt` and `close_frame` number a frame before they encrypt it.
  `failed_send_clean_iff` says when a failing call of theirs is clean: when
  the nonces suffice for the frames of the call, or it never comes to them.
-/

namespace SecureWs

open Python

variable {Key T : Type} [Zero T] [LE T]

namespace SecureChannel

/-! ## Calls -/

inductive Call where
  | encrypt (arg : Arg)
  | closeFrame
  | decrypt (wire : Bytes)
  deriving Repr

inductive Answer where
  | encrypt (frames : Except PyError (List Bytes))
  | closeFrame (frame : Except PyError Bytes)
  | decrypt (plaintext : Except PyError (Option Bytes))

section Call

variable [Sub T] [DecidableLE T]

def call (A : Aead Key) (c : SecureChannel Key T) : Call → Answer × SecureChannel Key T
  | .encrypt arg => (.encrypt ((encrypt A arg).run c).1, ((encrypt A arg).run c).2)
  | .closeFrame => (.closeFrame ((closeFrame A).run c).1, ((closeFrame A).run c).2)
  | .decrypt wire => (.decrypt ((decrypt A wire).run c).1, ((decrypt A wire).run c).2)

/-- A call extends what was said, or leaves it. -/
theorem Sends.call {A : Aead Key} {key : Key} {said : List Msg} {c : SecureChannel Key T}
    (h : Sends A key said c) (op : Call) : ∃ said', Sends A key said' (c.call A op).2 := by
  cases op with
  | encrypt arg =>
      obtain hok | herr := h.encrypt arg
      · obtain ⟨plaintext, -, -, hrun, hsends⟩ := hok
        exact ⟨_, by simpa only [SecureChannel.call, hrun] using hsends⟩
      · obtain ⟨e, c', hrun, hnew, -⟩ := herr
        obtain ⟨new, -, -, hsends⟩ := hnew
        exact ⟨_, by simpa only [SecureChannel.call, hrun] using hsends⟩
  | closeFrame =>
      obtain hok | herr := h.closeFrame
      · obtain ⟨-, hrun, hsends⟩ := hok
        exact ⟨_, by simpa only [SecureChannel.call, hrun] using hsends⟩
      · obtain ⟨e, c', hrun, hsends, -⟩ := herr
        exact ⟨_, by simpa only [SecureChannel.call, hrun] using hsends⟩
  | decrypt wire => exact ⟨said, h.decrypt A wire⟩

/-- After any calls the channel is the sender of something. -/
theorem Sends.calls {A : Aead Key} {key : Key} {said : List Msg} {c : SecureChannel Key T}
    (h : Sends A key said c) (ops : List Call) :
    ∃ said', Sends A key said' (Runs.after (SecureChannel.call A) c ops) := by
  induction ops generalizing c said with
  | nil => exact ⟨said, h⟩
  | cons op ops ih =>
      obtain ⟨said', hsends⟩ := h.call op
      exact ih hsends

end Call

/-! ## Rejected input -/

/-- `decrypt` raises before the tag check succeeds: the channel is closed,
the bytes are no frame, the number is refused, the nonces are used up, or
the tag is wrong. -/
def Rejected (A : Aead Key) (c : SecureChannel Key T) (wire : Bytes) : Prop :=
  ∃ e, ((decrypt A wire).run c).1 = .error e ∧
    (e = .channelClosedError ["channel is closed"] ∨ decode wire = .error e ∨
      (∃ message, e = .replayError message) ∨ e = .noiseMaxNonceError ∨
      ∃ message, e = .decryptionError message)

/-- The tag check succeeds. -/
def Authenticates (A : Aead Key) (c : SecureChannel Key T) (wire : Bytes) : Prop :=
  c.closed = false ∧ ∃ frame plaintext, decode wire = .ok frame ∧
    ((ReplayWindow.check frame.seq).run c.replay).1 = .ok () ∧
    ((CipherState.decryptWithAd A (headerBytes frame.msgType frame.seq frame.payload.length)
      frame.payload).run c.recvCipher).1 = .ok plaintext

/-- An authenticated frame may still end in an exception, but not in one of
those of a rejected frame. -/
theorem receive_error {A : Aead Key} {msgType : MessageType} {seq : Nat} {plaintext : Bytes}
    {c : SecureChannel Key T} {e : PyError}
    (h : ((receive A msgType seq plaintext).run c).1 = .error e) :
    e = .channelClosedError ["peer closed the channel"] ∨
      e = .protocolError
        ["unexpected message type in transport phase: ", MessageType.handshake.name] := by
  cases msgType with
  | transport => cases h
  | rekey => cases h
  | close => exact Or.inl (Except.error.inj h).symm
  | handshake => exact Or.inr (Except.error.inj h).symm

/-- What is rejected is exactly what does not authenticate. -/
theorem rejected_iff (A : Aead Key) (c : SecureChannel Key T) (wire : Bytes) :
    Rejected A c wire ↔ ¬Authenticates A c wire := by
  have hout := decrypt_outcome A wire c
  unfold Rejected
  generalize (decrypt A wire).run c = r at hout
  cases hout with
  | closed hclosed => simp [Authenticates, hclosed]
  | malformed hopen hdecode => simp [Authenticates, hdecode]
  | replayed hopen hdecode hcheck =>
      obtain ⟨message, rfl⟩ := ReplayWindow.check_error hcheck
      simp [Authenticates, hdecode, hcheck]
  | exhausted hopen hdecode hcheck hnonce =>
      simp [Authenticates, hdecode, CipherState.run_decryptWithAd, hnonce]
  | tampered hopen hdecode hcheck hnonce htag =>
      simp [Authenticates, hdecode, CipherState.run_decryptWithAd, hnonce, htag]
  | @authenticated frame plaintext hopen hdecode hcheck hnonce htag =>
      have hauth : Authenticates A c wire := ⟨hopen, frame, plaintext, hdecode, hcheck, by
        simp [CipherState.run_decryptWithAd, hnonce, htag]⟩
      refine iff_of_false ?_ (not_not_intro hauth)
      intro hrejected
      obtain ⟨e, herror, hkind⟩ := hrejected
      obtain rfl | rfl := receive_error herror
      · simp [hdecode] at hkind
      · simp [hdecode] at hkind

/-- A rejected input leaves the channel as it was. -/
theorem decrypt_of_rejected {A : Aead Key} {c : SecureChannel Key T} {wire : Bytes}
    (h : Rejected A c wire) : ((decrypt A wire).run c).2 = c := by
  rw [rejected_iff] at h
  have hout := decrypt_outcome A wire c
  generalize (decrypt A wire).run c = r at hout
  cases hout with
  | @authenticated frame plaintext hopen hdecode hcheck hnonce htag =>
      refine absurd ⟨hopen, frame, plaintext, hdecode, hcheck, ?_⟩ h
      simp [CipherState.run_decryptWithAd, hnonce, htag]
  | _ => rfl

/-- **Rejected input is invisible.**  A rejected input leaves the channel as it
was; and in any run of calls, leaving out any inputs that were rejected there
changes no answer to another call, nor the channel at the end. -/
theorem rejected_input_invisible [Sub T] [DecidableLE T] (A : Aead Key) (c : SecureChannel Key T) :
    (∀ wire, Rejected A c wire → ((decrypt A wire).run c).2 = c) ∧
      ∀ marked : List (Call × Bool),
        Runs.Along (fun c m => (call A c m.1).2)
          (fun c m => m.2 = true → ∃ wire, m.1 = .decrypt wire ∧ Rejected A c wire) c marked →
        Runs.answers (call A) c (Runs.kept marked) =
            Runs.kept ((Runs.answers (call A) c (marked.map Prod.fst)).zip
              (marked.map Prod.snd)) ∧
          Runs.after (call A) c (Runs.kept marked) =
            Runs.after (call A) c (marked.map Prod.fst) := by
  refine ⟨fun wire => decrypt_of_rejected, fun marked halong => Runs.Along.kept ?_⟩
  intro before m rest hsplit hmark
  obtain ⟨wire, hcall, hrejected⟩ := halong before m rest hsplit hmark
  rw [hcall]
  exact decrypt_of_rejected hrejected

/-- A forged frame with the last sequence number does not keep the genuine
frame out. -/
theorem rejected_input_invisible_forged :
    let A := Aead.spelled (· + 2)
    let c : SecureChannel Nat ℤ := SecureChannel.init
      (honestHandshake (fun side => if side = .initiator then 0 else 1) [] (fun _ => []) .responder)
      ⟨1024, (1 <<< 1024) - 1, -1, 0, by decide, rfl⟩
      ⟨10000, 900, fun _ => 0, 1, 0, 0, by decide, by decide⟩
    let forged := headerFor .transport (2 ^ 64 - 1) [] ++ List.replicate 16 7
    let genuine := headerFor .transport 0 [104, 105] ++ A.encrypt 0 0 [] [104, 105]
    Rejected A c forged ∧
      Runs.answers (call A) c [.decrypt genuine, .encrypt (.bytesLike [33])] =
        (Runs.answers (call A) c
          [.decrypt forged, .decrypt genuine, .encrypt (.bytesLike [33])]).tail := by
  intro A c forged genuine
  have hforged : Rejected A c forged :=
    ⟨.decryptionError ["authentication failed for ", MessageType.transport.name, " seq=",
      .int (2 ^ 64 - 1 : Nat), " (tampered or truncated)"], by decide +kernel, by simp⟩
  refine ⟨hforged, ?_⟩
  have hrun := ((rejected_input_invisible A c).2 [(.decrypt forged, true),
    (.decrypt genuine, false), (.encrypt (.bytesLike [33]), false)] ?_).1
  · simpa [Runs.answers] using hrun
  · simp only [Runs.along_cons, Runs.along_nil, and_true, Bool.false_eq_true, false_implies]
    exact fun _ => ⟨forged, rfl, hforged⟩

/-! ## Failed sends -/

/-- The sending side is as it was: sequence number, key and nonce, the rekey
policy and the closed flag. -/
structure SameSender (c c' : SecureChannel Key T) : Prop where
  sendSeq_eq : c'.sendSeq = c.sendSeq
  key_eq : c'.sendCipher.key = c.sendCipher.key
  nonce_eq : c'.sendCipher.nonce = c.sendCipher.nonce
  maxMessages_eq : c'.rekey.maxMessages = c.rekey.maxMessages
  maxSeconds_eq : c'.rekey.maxSeconds = c.rekey.maxSeconds
  count_eq : c'.rekey.count = c.rekey.count
  lastRekey_eq : c'.rekey.lastRekey = c.rekey.lastRekey
  closed_eq : c'.closed = c.closed

theorem SameSender.refl (c : SecureChannel Key T) : SameSender c c :=
  ⟨rfl, rfl, rfl, rfl, rfl, rfl, rfl, rfl⟩

/-- If the method raises, it raises an error of the package and leaves the
sending side as it was. -/
def FailsCleanly {α : Type} (m : Method Key T α) (c : SecureChannel Key T) : Prop :=
  ∀ e c', m.run c = (.error e, c') → e.isSecureWebSocketError = true ∧ SameSender c c'

/-- A method that raises and costs a sequence number does not fail cleanly. -/
theorem not_failsCleanly {α : Type} {m : Method Key T α} {c c' : SecureChannel Key T} {e : PyError}
    (hrun : m.run c = (.error e, c')) (hseq : c'.sendSeq ≠ c.sendSeq) : ¬FailsCleanly m c :=
  fun h => hseq (h e c' hrun).2.sendSeq_eq

/-- A call that is refused before it did anything fails cleanly. -/
theorem failsCleanly_of_refused {α : Type} {m : Method Key T α} {c : SecureChannel Key T}
    {e : PyError} (hrun : m.run c = (.error e, c)) (he : e.isSecureWebSocketError = true) :
    FailsCleanly m c := by
  intro e' c' hrun'
  rw [hrun, Prod.mk.injEq] at hrun'
  obtain ⟨herr, rfl⟩ := hrun'
  rw [← Except.error.inj herr]
  exact ⟨he, .refl c⟩

/-- A call that returns does not fail. -/
theorem failsCleanly_of_ok {α : Type} {m : Method Key T α} {c c' : SecureChannel Key T} {a : α}
    (hrun : m.run c = (.ok a, c')) : FailsCleanly m c := by
  intro e c'' hrun'
  rw [hrun] at hrun'
  cases hrun'

/-- `close_frame` has a nonce left, or does not come to its frame. -/
def CloseFits (c : SecureChannel Key T) : Prop :=
  c.closed = false → c.sendCipher.nonce + 1 ≤ MAX_NONCE

/-- **A failing `close_frame`** is clean exactly when a nonce was left. -/
theorem Sends.closeFrame_clean_iff {A : Aead Key} {key : Key} {said : List Msg}
    {c : SecureChannel Key T} (h : Sends A key said c) :
    FailsCleanly (SecureChannel.closeFrame A) c ↔ c.CloseFits := by
  have hcan : c.CanEmit ↔ c.sendCipher.nonce + 1 ≤ MAX_NONCE := by
    rw [h.canEmit_iff, h.nonce_eq]
    exact Iff.rfl
  have hrun := run_closeFrame A c
  unfold CloseFits
  rw [← hcan]
  by_cases hc : c.closed = true
  · rw [if_pos hc] at hrun
    exact iff_of_true (failsCleanly_of_refused hrun rfl) (by simp [hc])
  · have hopen : c.closed = false := by simpa using hc
    rw [if_neg hc] at hrun
    by_cases hemit : c.CanEmit
    · rw [if_pos hemit] at hrun
      exact iff_of_true (failsCleanly_of_ok hrun) fun _ => hemit
    · rw [if_neg hemit] at hrun
      exact iff_of_false (not_failsCleanly hrun (Nat.succ_ne_self _)) fun hfits =>
        hemit (hfits hopen)

section Encrypt

variable [Sub T] [DecidableLE T]

/-- `encrypt` has a nonce left for every frame of the call, or does not come
to its frames. -/
def EncryptFits (c : SecureChannel Key T) (arg : Arg) : Prop :=
  ∀ plaintext, c.closed = false → arg = .bytesLike plaintext → plaintext.length ≤ MAX_PLAINTEXT →
    c.sendCipher.nonce + (if c.rekey.isDue = true then 2 else 1) ≤ MAX_NONCE

theorem sendSeq_beforeTransport_le (A : Aead Key) (c : SecureChannel Key T) :
    c.sendSeq ≤ (c.beforeTransport A).sendSeq := by
  unfold beforeTransport
  split
  · exact Nat.le_succ _
  · exact Nat.le_refl _

/-- **A failing `encrypt`** is clean exactly when the nonces left were enough
for its frames. -/
theorem Sends.encrypt_clean_iff {A : Aead Key} {key : Key} {said : List Msg}
    {c : SecureChannel Key T} (h : Sends A key said c) (arg : Arg) :
    FailsCleanly (SecureChannel.encrypt A arg) c ↔ c.EncryptFits arg := by
  have hout := encrypt_outcome A arg c
  have hn := h.nonce_eq
  unfold EncryptFits
  generalize hrun : (SecureChannel.encrypt A arg).run c = r at hout
  cases hout with
  | closed hclosed =>
      refine iff_of_true (failsCleanly_of_refused hrun rfl) fun _ hopen => ?_
      simp [hclosed] at hopen
  | notBytes hopen =>
      refine iff_of_true (failsCleanly_of_refused hrun rfl) fun _ _ harg => ?_
      cases harg
  | tooLarge hopen hlen =>
      refine iff_of_true (failsCleanly_of_refused hrun rfl) fun _ _ harg hle => ?_
      rw [Arg.bytesLike.inj harg] at hlen
      omega
  | rekeyFailed hopen hlen hdue hfull =>
      refine iff_of_false (not_failsCleanly hrun (Nat.succ_ne_self _)) ?_
      intro hfits
      have hnonces := hfits _ hopen rfl hlen
      rw [if_pos hdue, hn] at hnonces
      exact hfull (h.canEmit_iff.mpr (by omega))
  | transportFailed hopen hlen hdue hfull =>
      have hle := sendSeq_beforeTransport_le A c
      have hbefore := h.beforeTransport hopen hdue
      refine iff_of_false (not_failsCleanly hrun ?_) ?_
      · simp only [SecureChannel.skipSeq]
        omega
      · intro hfits
        have hnonces := hfits _ hopen rfl hlen
        rw [hn] at hnonces
        refine hfull (hbefore.canEmit_iff.mpr ?_)
        rw [List.length_append]
        split at hnonces
        · simp [*]
          omega
        · simp [*]
          omega
  | sent hopen hlen hdue hcan =>
      have hbefore := h.beforeTransport hopen hdue
      have hlt := hbefore.canEmit_iff.mp hcan
      rw [List.length_append] at hlt
      refine iff_of_true (failsCleanly_of_ok hrun) fun _ _ _ _ => ?_
      rw [hn]
      split at hlt
      · simp_all
        omega
      · simp_all

/-- **Failing sends.**  On a channel that any calls led to, a failing `encrypt`
or `close_frame` raises an error of the package and changes nothing, exactly
when the nonces that were left were enough for the frames of the call. -/
theorem failed_send_clean_iff (A : Aead Key) (key : Key) (result : HandshakeResult Key)
    (replay : ReplayWindow) (rekey : RekeyPolicy T) (ops : List Call) (arg : Arg) :
    let c := Runs.after (call A)
      (SecureChannel.init { result with sendCipher := .fresh key } replay rekey) ops
    (FailsCleanly (encrypt A arg) c ↔ c.EncryptFits arg) ∧
      (FailsCleanly (closeFrame A) c ↔ c.CloseFits) := by
  intro c
  have hinit : Sends A key []
      (SecureChannel.init { result with sendCipher := .fresh key } replay rekey) :=
    .init _ replay rekey rfl
  obtain ⟨said, hsends⟩ := hinit.calls ops
  exact ⟨hsends.encrypt_clean_iff arg, hsends.closeFrame_clean_iff⟩

/-- A message on an open channel, while no rekey is due and nonces are left. -/
theorem Sends.quiet {A : Aead Key} {key : Key} {said : List Msg} {c : SecureChannel Key T}
    (h : Sends A key said c) (hopen : c.closed = false) (hdue : c.rekey.isDue = false)
    (hlen : said.length < MAX_NONCE) :
    Sends A key (said ++ [.transport []]) (c.call A (.encrypt (.bytesLike []))).2 ∧
      (c.call A (.encrypt (.bytesLike []))).2.closed = false ∧
      (c.call A (.encrypt (.bytesLike []))).2.rekey = c.rekey.afterEncrypt := by
  have hbatch : c.batch [] = [.transport []] := by simp [batch, hdue]
  obtain hok | herr := h.encrypt (.bytesLike [])
  · obtain ⟨plaintext, harg, -, hrun, hsends⟩ := hok
    cases harg
    rw [hbatch] at hsends
    have hcall : (c.call A (.encrypt (.bytesLike []))).2 =
        (c.beforeTransport A).afterTransport A [] := by
      rw [SecureChannel.call, hrun]
    rw [hcall]
    exact ⟨hsends, (closed_beforeTransport A c).trans hopen, rekey_afterEncrypt A c []⟩
  · obtain ⟨e, c', -, -, hcannot⟩ := herr
    refine absurd ⟨hopen, [], rfl, Nat.zero_le _, ?_⟩ hcannot
    rw [hbatch, h.nonce_eq]
    exact hlen

/-- A rekey that falls due at the last nonce is lost: `encrypt` spends the
nonce on the REKEY frame, replaces the key, restarts the policy and raises. -/
theorem Sends.rekey_lost {A : Aead Key} {key : Key} {said : List Msg} {c : SecureChannel Key T}
    (h : Sends A key said c) (hopen : c.closed = false) (hdue : c.rekey.isDue = true)
    (hlen : said.length + 1 = MAX_NONCE) :
    ∃ c', (SecureChannel.encrypt A (.bytesLike [])).run c = (.error .noiseMaxNonceError, c') ∧
      c'.sendSeq = c.sendSeq + 2 ∧ c'.sendCipher.key = A.rekey c.sendCipher.key ∧
      c'.rekey.count = 0 := by
  have hcan : c.CanEmit := h.canEmit_iff.mpr (by omega)
  have hseq := h.seq_of_canEmit hcan
  have hfull : ¬(c.beforeTransport A).CanEmit := by
    rw [(h.beforeTransport hopen fun _ => hcan).canEmit_iff, if_pos hdue, List.length_append]
    simp
    omega
  have hrekeyed : c.beforeTransport A = c.rekeyDue.afterRekey A := if_pos hdue
  have herr : (c.beforeTransport A).emitError = .noiseMaxNonceError := by
    have hle : ¬MAX_SEQ < c.sendSeq + 1 := by
      simp only [MAX_NONCE, MAX_SEQ] at hlen ⊢
      omega
    rw [hrekeyed]
    exact if_neg hle
  have hout := encrypt_outcome A (.bytesLike []) c
  generalize (SecureChannel.encrypt A (.bytesLike [])).run c = r at hout
  cases hout with
  | closed hclosed => simp [hopen] at hclosed
  | tooLarge _ hlong => cases hlong
  | rekeyFailed _ _ _ hnot => exact absurd hcan hnot
  | sent _ _ _ hnot => exact absurd hnot hfull
  | transportFailed =>
      rw [herr, hrekeyed]
      exact ⟨_, rfl, rfl, rfl, rfl⟩

end Encrypt

/-- Empty messages up to the limit of the policy, under a clock that stands
still. -/
theorem Sends.quiet_run {A : Aead Key} {key : Key} {said : List Msg} {c : SecureChannel Key ℤ}
    (h : Sends A key said c) (hopen : c.closed = false)
    (hclock : c.rekey.clock = fun _ => c.rekey.lastRekey) (n : Nat)
    (hcount : (c.rekey.count + n : ℤ) ≤ c.rekey.maxMessages) (hlen : said.length + n ≤ MAX_NONCE) :
    ∃ said', said'.length = said.length + n ∧
      let c' := Runs.after (SecureChannel.call A) c (List.replicate n (.encrypt (.bytesLike [])))
      Sends A key said' c' ∧ c'.closed = false ∧ c'.rekey.count = c.rekey.count + n ∧
        c'.rekey.maxMessages = c.rekey.maxMessages := by
  induction n generalizing c said with
  | zero => exact ⟨said, rfl, h, hopen, rfl, rfl⟩
  | succ n ih =>
      have hdue : c.rekey.isDue = false := by
        have hpos := c.rekey.seconds_pos
        simp only [RekeyPolicy.isDue, hclock, sub_self, Bool.or_eq_false_iff,
          decide_eq_false_iff_not]
        omega
      obtain ⟨hsends, hopen', hrekey⟩ := h.quiet hopen hdue (by omega)
      have hnot : ¬c.rekey.isDue = true := by simp [hdue]
      obtain ⟨hcount', -, hlast', -⟩ := RekeyPolicy.afterEncrypt_of_not_due hnot
      obtain ⟨hmax', -, hclock'⟩ := c.rekey.afterEncrypt_config
      rw [← hrekey] at hcount' hlast' hmax' hclock'
      obtain ⟨said', hlen', hall⟩ := ih hsends hopen' (by rw [hclock', hlast', hclock])
        (by rw [hcount', hmax']; push_cast at hcount ⊢; omega) (by simp; omega)
      refine ⟨said', by simp at hlen'; omega, ?_⟩
      rw [hcount', hmax'] at hall
      rw [List.replicate_succ, Runs.after_cons]
      have hsum : c.rekey.count + 1 + n = c.rekey.count + (n + 1) := by omega
      rwa [hsum] at hall

/-- A run of empty messages up to the limit of the policy, when that is also
the last but one nonce: the next `encrypt` loses its REKEY. -/
theorem Sends.rekey_lost_after {A : Aead Key} {key : Key} {said : List Msg} {c : SecureChannel Key ℤ}
    (h : Sends A key said c) (hopen : c.closed = false)
    (hclock : c.rekey.clock = fun _ => c.rekey.lastRekey) (n : Nat)
    (hcount : (c.rekey.count + n : ℤ) = c.rekey.maxMessages)
    (hlen : said.length + n + 1 = MAX_NONCE) :
    let c' := Runs.after (SecureChannel.call A) c (List.replicate n (.encrypt (.bytesLike [])))
    ∃ c'', (SecureChannel.encrypt A (.bytesLike [])).run c' = (.error .noiseMaxNonceError, c'') ∧
      c''.sendSeq = c'.sendSeq + 2 ∧ c''.sendCipher.key = A.rekey c'.sendCipher.key ∧
      c''.rekey.count = 0 ∧ ¬FailsCleanly (SecureChannel.encrypt A (.bytesLike [])) c' := by
  intro c'
  obtain ⟨said', hlen', hsends, hopen', hcount', hmax'⟩ :=
    h.quiet_run hopen hclock n (by omega) (by omega)
  have hdue : c'.rekey.isDue = true := by
    rw [RekeyPolicy.isDue, hcount', hmax', ← hcount]
    simp
  obtain ⟨c'', hrun, hseq, hkey, hreset⟩ := hsends.rekey_lost hopen' hdue (by omega)
  have hadvanced : c''.sendSeq ≠ c'.sendSeq :=
    hseq.trans_ne (Nat.ne_of_gt (Nat.lt_add_of_pos_right Nat.two_pos))
  exact ⟨c'', hrun, hseq, hkey, hreset, not_failsCleanly hrun hadvanced⟩

/-- The rekey falls due at the last nonce: `encrypt` spends it on the REKEY
frame, replaces the key and restarts the policy, and raises the cipher's
`NoiseMaxNonceError`; the REKEY frame is lost. -/
theorem lost_rekey :
    let A := Aead.spelled (· + 2)
    let c₀ : SecureChannel Nat ℤ := SecureChannel.init
      (honestHandshake (fun side => if side = .initiator then 0 else 1) [] (fun _ => []) .initiator)
      ⟨1024, (1 <<< 1024) - 1, -1, 0, by decide, rfl⟩
      ⟨2 ^ 64 - 2, 900, fun _ => 0, 1, 0, 0, by norm_num, by norm_num⟩
    let c := Runs.after (call A) c₀ (List.replicate (2 ^ 64 - 2) (.encrypt (.bytesLike [])))
    ∃ c', (encrypt A (.bytesLike [])).run c = (.error .noiseMaxNonceError, c') ∧
      c'.sendSeq = c.sendSeq + 2 ∧ c'.sendCipher.key = A.rekey c.sendCipher.key ∧
      c'.rekey.count = 0 ∧ ¬FailsCleanly (encrypt A (.bytesLike [])) c := by
  intro A c₀
  have hinit : Sends A 0 [] c₀ := .init _ _ _ rfl
  have hcount : c₀.rekey.count = 0 := rfl
  have hmax : c₀.rekey.maxMessages = 2 ^ 64 - 2 := rfl
  exact hinit.rekey_lost_after rfl rfl (2 ^ 64 - 2) (by rw [hcount, hmax]; norm_num)
    (by norm_num [MAX_NONCE])

end SecureChannel

end SecureWs
