import SecureWs.Lib.Runs
import SecureWs.Connection
import SecureWs.Session

/-!
# SecureWs.Cancellation

A run of `send` calls on one `SecureConnection`, any of which may be cut off:
the task is cancelled, or `ws.send` raises, before a frame is handed over.

* `encrypt` has used the nonces of a whole batch, and replaced the key, before
  the first frame goes out, so every frame that is not handed over leaves the
  receiver one nonce behind, for good;
* `Loses` says from the state and the arguments which calls do this;
* `returned_sends_accepted_iff`: the sends that return are accepted if and
  only if none of them comes after such a call.
-/

namespace SecureWs

open Python

variable {Key T : Type} [Zero T] [LE T]

/-- A call of `send`, and the frame before which it is cut off, if it is. -/
structure SendCall where
  arg : Arg
  cutAt : Option Nat

/-- How a call of `send` ends. -/
inductive Ending where
  | returned
  | cut
  | raised (exc : PyError)
  deriving DecidableEq, Repr

/-- The sending end of a connection: its channel, and what the socket took. -/
structure Sender (Key T : Type) [Zero T] [LE T] where
  channel : SecureChannel Key T
  wire : List Bytes

/-- Both ends of a direction have the same key, are in the same epoch, and
expect the same nonce and the same sequence number next. -/
structure InSync (tx rx : SecureChannel Key T) : Prop where
  key_eq : rx.recvCipher.key = tx.sendCipher.key
  epoch_eq : rx.recvCipher.epoch = tx.sendCipher.epoch
  nonce_eq : rx.recvCipher.nonce = tx.sendCipher.nonce
  seq_eq : rx.replay.highest + 1 = tx.sendSeq

/-- A receiver that heard all that was said is in sync. -/
theorem InSync.of_hears {A : Aead Key} {key : Key} {said : List Msg} {tx rx : SecureChannel Key T}
    (hsends : tx.Sends A key said) (hhears : rx.Hears A key said)
    (hseq : tx.sendSeq = said.length) : InSync tx rx where
  key_eq := by rw [hhears.inStep.key_eq, hsends.cipher_eq]
  epoch_eq := by rw [hhears.inStep.epoch_eq, hsends.cipher_eq]
  nonce_eq := by rw [hhears.inStep.nonce_eq, hsends.nonce_eq]
  seq_eq := by
    rw [hseq]
    obtain ⟨hempty, hhighest⟩ | hgreatest := hhears.window.highest_eq
    · have hnil : (said.length : ℤ) ≤ 0 := by simpa [Set.Ico_eq_empty_iff] using hempty
      omega
    · have hlt := hgreatest.1.2
      have hle := hgreatest.2 (show (said.length : ℤ) - 1 ∈ Set.Ico (0 : ℤ) said.length by
        have hnonneg := hgreatest.1.1
        exact ⟨by omega, by omega⟩)
      omega

namespace Sender

/-- The loop of `send`, from the next frame on. -/
def handOver : Sender Key T → Option Nat → List Bytes → Ending × Sender Key T
  | s, _, [] => (.returned, s)
  | s, cutAt, frame :: frames =>
      if cutAt = some 0 then (.cut, s)
      else handOver { s with wire := s.wire ++ [frame] } (cutAt.map (· - 1)) frames

section Send

variable [Sub T] [DecidableLE T]

/-- `conn.send(data)`. -/
def send (A : Aead Key) (s : Sender Key T) (call : SendCall) : Ending × Sender Key T :=
  match (SecureChannel.encrypt A call.arg).run s.channel with
  | (.ok frames, c) => handOver { s with channel := c } call.cutAt frames
  | (.error exc, c) => (.raised exc, { s with channel := c })

def run (A : Aead Key) (s : Sender Key T) (calls : List SendCall) : Sender Key T :=
  calls.foldl (fun s call => (s.send A call).2) s

/-- The call gets its frames, and is cut off before one of them. -/
def Loses (s : Sender Key T) (call : SendCall) : Prop :=
  s.channel.CanEncrypt call.arg ∧
    ∃ i, call.cutAt = some i ∧ i < (s.channel.batch call.arg.contents).length

def Completes (s : Sender Key T) (call : SendCall) : Prop :=
  s.channel.CanEncrypt call.arg ∧
    ∀ i, call.cutAt = some i → (s.channel.batch call.arg.contents).length ≤ i

/-- No call of the run loses a frame. -/
def Lossless (A : Aead Key) (s : Sender Key T) (calls : List SendCall) : Prop :=
  Runs.Along (fun s call => (s.send A call).2) (fun s call => ¬s.Loses call) s calls

end Send

/-- What the call that led from `s` to `s'` put on the wire is accepted: the
peer, having received all that came before, returns the plaintext, and both
ends are in sync afterwards. -/
structure Accepted (A : Aead Key) (peer : SecureChannel Key T) (call : SendCall)
    (s s' : Sender Key T) : Prop where
  recv_eq : (recvAll A (s'.wire.drop s.wire.length) (recvAll A s.wire peer).2).1 =
    [.ok call.arg.contents]
  inSync : InSync s'.channel (recvAll A s'.wire peer).2

/-! ## One call -/

theorem handOver_of_not_cut (s : Sender Key T) {cutAt : Option Nat} {frames : List Bytes}
    (h : ∀ i, cutAt = some i → frames.length ≤ i) :
    s.handOver cutAt frames = (.returned, { s with wire := s.wire ++ frames }) := by
  induction frames generalizing s cutAt with
  | nil =>
      rw [List.append_nil]
      rfl
  | cons frame frames ih =>
      have hzero : cutAt ≠ some 0 := fun hcut => absurd (h 0 hcut) (by simp)
      have hrest : ∀ i, cutAt.map (· - 1) = some i → frames.length ≤ i := by
        intro i hi
        obtain ⟨j, hj, rfl⟩ := Option.map_eq_some_iff.mp hi
        have hle := h j hj
        rw [List.length_cons] at hle
        omega
      rw [handOver, if_neg hzero, ih _ hrest, List.append_assoc]
      rfl

theorem handOver_of_cut (s : Sender Key T) {i : Nat} {frames : List Bytes}
    (h : i < frames.length) :
    s.handOver (some i) frames = (.cut, { s with wire := s.wire ++ frames.take i }) := by
  induction frames generalizing s i with
  | nil => contradiction
  | cons frame frames ih =>
      cases i with
      | zero =>
          rw [handOver, if_pos rfl, List.take_zero, List.append_nil]
      | succ i =>
          have hlt : i < frames.length := by simpa using h
          rw [handOver, if_neg (by simp), Option.map_some, Nat.add_sub_cancel, ih _ hlt,
            List.take_succ_cons, List.append_assoc]
          rfl

section Send

variable [Sub T] [DecidableLE T] {A : Aead Key} {key : Key} {s : Sender Key T} {call : SendCall}

theorem Completes.not_loses (h : s.Completes call) : ¬s.Loses call := by
  intro hloses
  obtain ⟨-, i, hcut, hlt⟩ := hloses
  have hle := h.2 i hcut
  omega

/-- What a call of `send` can do, after the messages `said`. -/
inductive SendOutcome (A : Aead Key) (key : Key) (said : List Msg) (s : Sender Key T)
    (call : SendCall) : Ending × Sender Key T → Prop
  | returned (plaintext : Bytes) (c : SecureChannel Key T) (harg : call.arg = .bytesLike plaintext)
      (h : s.Completes call) (hseq : c.sendSeq = (said ++ s.channel.batch plaintext).length)
      (hsends : c.Sends A key (said ++ s.channel.batch plaintext)) :
      SendOutcome A key said s call (.returned, { s with
        channel := c
        wire := s.wire ++ frames A (stream.cipher A key said) (s.channel.batch plaintext) })
  | cut (plaintext : Bytes) (c : SecureChannel Key T) (i : Nat) (h : s.Loses call)
      (hi : i < (s.channel.batch plaintext).length)
      (hsends : c.Sends A key (said ++ s.channel.batch plaintext)) :
      SendOutcome A key said s call (.cut, { s with
        channel := c
        wire := s.wire ++
          (frames A (stream.cipher A key said) (s.channel.batch plaintext)).take i })
  | raised (exc : PyError) (c : SecureChannel Key T) (new : List Msg)
      (h : ¬s.channel.CanEncrypt call.arg)
      (hnew : new = [] ∨ (said ++ new).length = MAX_NONCE)
      (hsends : c.Sends A key (said ++ new)) :
      SendOutcome A key said s call (.raised exc, { s with channel := c })

/-- The numbers of a batch. -/
theorem sendSeq_afterEncrypt (A : Aead Key) (c : SecureChannel Key T) (plaintext : Bytes) :
    ((c.beforeTransport A).afterTransport A plaintext).sendSeq =
      c.sendSeq + (c.batch plaintext).length := by
  rw [SecureChannel.length_batch]
  unfold SecureChannel.beforeTransport
  split <;> rfl

/-- Every call of `send` ends in one of the outcomes. -/
theorem send_outcome {said : List Msg} (h : s.channel.Sends A key said) (call : SendCall) :
    SendOutcome A key said s call (s.send A call) := by
  unfold send
  obtain ⟨plaintext, harg, hcan, hrun, hsends⟩ | ⟨exc, c, hrun, ⟨new, -, hnew, hsends⟩, hcannot⟩ :=
    h.encrypt call.arg
  · have hcontents : call.arg.contents = plaintext := by rw [harg]; rfl
    have hseq : ((s.channel.beforeTransport A).afterTransport A plaintext).sendSeq =
        (said ++ s.channel.batch plaintext).length := by
      rw [sendSeq_afterEncrypt, List.length_append,
        h.seq_of_canEmit (h.canEmit_iff.mpr (h.nonce_eq ▸ hcan.nonce_lt))]
    rw [hrun]
    show SendOutcome A key said s call (handOver { s with channel := _ } call.cutAt
      (frames A s.channel.sendCipher (s.channel.batch plaintext)))
    rw [h.cipher_eq]
    by_cases hcut : ∃ i, call.cutAt = some i ∧ i < (s.channel.batch plaintext).length
    · obtain ⟨i, hi, hlt⟩ := hcut
      rw [hi, handOver_of_cut _ (by rwa [length_frames])]
      exact .cut plaintext _ i ⟨hcan, i, hi, hcontents ▸ hlt⟩ hlt hsends
    · have hnot : ∀ i, call.cutAt = some i → (s.channel.batch plaintext).length ≤ i := by
        intro i hi
        by_contra hlt
        exact hcut ⟨i, hi, by omega⟩
      rw [handOver_of_not_cut _ (by rwa [length_frames])]
      exact .returned plaintext _ harg ⟨hcan, hcontents ▸ hnot⟩ hseq hsends
  · rw [hrun]
    exact .raised exc c new hcannot hnew hsends

/-! ## Runs -/

/-- After a run that said `said`: the frames on the wire are no more than the
messages, fewer if one was lost, and the very frames of them if none was, until
the nonces are used up. -/
structure Inv (A : Aead Key) (key : Key) (s : Sender Key T) (said : List Msg) (lost : Prop) :
    Prop where
  sends : s.channel.Sends A key said
  count : s.wire.length ≤ said.length
  lagging : lost → s.wire.length < said.length
  wire_eq : ¬lost → s.wire = frames A (stream.cipher A key []) said ∨ said.length = MAX_NONCE

/-- A call keeps the invariant. -/
theorem Inv.send {said : List Msg} {lost : Prop} (h : Inv A key s said lost) (call : SendCall) :
    ∃ said', Inv A key (s.send A call).2 said' (lost ∨ s.Loses call) := by
  have hcount := h.count
  have hout := send_outcome h.sends call
  generalize s.send A call = r at hout
  cases hout with
  | returned plaintext c harg hcompletes hseq hsends =>
      refine ⟨_, hsends, ?_, fun hlost => ?_, fun hnot => Or.inl ?_⟩
      · simp only [List.length_append, length_frames]
        omega
      · have hlag := h.lagging (hlost.resolve_right hcompletes.not_loses)
        simp only [List.length_append, length_frames]
        omega
      · obtain hwire | hfull := h.wire_eq (not_or.mp hnot).1
        · show s.wire ++ _ = _
          rw [hwire]
          exact (frames_append A key [] said _).symm
        · have hlt := hcompletes.1.nonce_lt
          rw [h.sends.nonce_eq] at hlt
          omega
  | cut plaintext c i hloses hi hsends =>
      have htake : (s.wire ++ (frames A (stream.cipher A key said)
          (s.channel.batch plaintext)).take i).length <
          (said ++ s.channel.batch plaintext).length := by
        simp only [List.length_append, List.length_take, length_frames]
        omega
      exact ⟨_, hsends, htake.le, fun _ => htake, fun hnot => absurd (Or.inr hloses) hnot⟩
  | raised exc c new hcannot hnew hsends =>
      refine ⟨_, hsends, ?_, fun hlost => ?_, fun hnot => ?_⟩
      · rw [List.length_append]
        exact hcount.trans (Nat.le_add_right _ _)
      · have hlag := h.lagging (hlost.resolve_right fun hloses => hcannot hloses.1)
        rw [List.length_append]
        exact hlag.trans_le (Nat.le_add_right _ _)
      · obtain rfl | hfull := hnew
        · rw [List.append_nil]
          exact h.wire_eq (not_or.mp hnot).1
        · exact Or.inr hfull

theorem run_append_singleton (A : Aead Key) (s : Sender Key T) (calls : List SendCall)
    (call : SendCall) : run A s (calls ++ [call]) = ((run A s calls).send A call).2 := by
  unfold run
  rw [List.foldl_append]
  rfl

/-- A run in which nothing is cut off loses nothing. -/
theorem lossless_of_not_cut (A : Aead Key) (s : Sender Key T) {calls : List SendCall}
    (h : ∀ call ∈ calls, call.cutAt = none) : Lossless A s calls := by
  intro before call after hsplit hloses
  obtain ⟨-, i, hcut, -⟩ := hloses
  rw [h call (by rw [hsplit]; simp)] at hcut
  contradiction

/-- The invariant of a run from a fresh channel. -/
theorem inv_run {channel : SecureChannel Key T} (h : channel.Sends A key [])
    (calls : List SendCall) :
    ∃ said, Inv A key (run A ⟨channel, []⟩ calls) said (¬Lossless A ⟨channel, []⟩ calls) := by
  induction calls using List.reverseRecOn with
  | nil =>
      exact ⟨[], h, Nat.le_refl _, fun hlost => absurd Runs.along_nil hlost, fun _ => Or.inl rfl⟩
  | append_singleton calls call ih =>
      obtain ⟨said, hinv⟩ := ih
      have hlost : ¬Lossless A ⟨channel, []⟩ (calls ++ [call]) ↔
          ¬Lossless A ⟨channel, []⟩ calls ∨ (run A ⟨channel, []⟩ calls).Loses call := by
        unfold Lossless run
        rw [Runs.along_append_singleton, not_and_or, not_not]
      rw [run_append_singleton, hlost]
      exact hinv.send call

/-- The calls that return are those with frames to hand over and nothing in
the way. -/
theorem Inv.returned_iff {said : List Msg} {lost : Prop} (h : Inv A key s said lost) :
    (s.send A call).1 = .returned ↔ s.Completes call := by
  have hout := send_outcome h.sends call
  generalize s.send A call = r at hout
  cases hout with
  | returned plaintext c harg hcompletes => exact iff_of_true rfl hcompletes
  | cut plaintext c i hloses =>
      exact iff_of_false (by simp) fun hcompletes => hcompletes.not_loses hloses
  | raised exc c new hcannot =>
      exact iff_of_false (by simp) fun hcompletes => hcannot hcompletes.1

/-! ## Receiving -/

/-- A call that returned while nothing was lost is accepted. -/
theorem Inv.accepted {said : List Msg} {lost : Prop} (h : Inv A key s said lost) (hlost : ¬lost)
    (hA : A.Correct) (hover : A.Overhead AEAD_TAG_LEN) {peer : SecureChannel Key T}
    (hpeer : peer.Hears A key []) (hopen : peer.closed = false)
    (hreturned : (s.send A call).1 = .returned) :
    Accepted A peer call s (s.send A call).2 := by
  have hout := send_outcome h.sends call
  generalize s.send A call = r at hout hreturned
  cases hout with
  | cut => contradiction
  | raised => contradiction
  | returned plaintext c harg hcompletes hseq hsends =>
      have hlt := hcompletes.1.nonce_lt
      rw [h.sends.nonce_eq] at hlt
      have hwire : s.wire = frames A (stream.cipher A key []) said :=
        (h.wire_eq hlost).resolve_right (by omega)
      -- the peer hears all that was said before
      obtain ⟨rx, hbefore, hhears, hclosed⟩ := hpeer.recvAll hA hover hopen
        (show ([] ++ said).length ≤ MAX_NONCE from h.sends.length_le) h.sends.fits h.sends.close_last
      rw [← hwire] at hbefore
      rw [List.nil_append] at hhears
      have hopen' : rx.closed = false := by
        have hnot := mt hclosed.mp (h.sends.not_close_mem hcompletes.1.1)
        simpa using hnot
      -- and then the batch
      have hfits : ∀ m ∈ s.channel.batch plaintext, m.plaintext.length ≤ MAX_PLAINTEXT := fun m hm =>
        hsends.fits m (List.mem_append_right said hm)
      have hlast : ∀ m ∈ (s.channel.batch plaintext).dropLast, m ≠ .close := fun m hm heq =>
        s.channel.close_notMem_batch plaintext (heq ▸ List.mem_of_mem_dropLast hm)
      have hrecvAs : (s.channel.batch plaintext).filterMap recvAs = [.ok plaintext] := by
        obtain hbatch | hbatch := s.channel.batch_cases plaintext <;> rw [hbatch] <;> rfl
      obtain ⟨rx', hbatch, hhears', -⟩ := hhears.recvAll hA hover hopen' hsends.length_le hfits hlast
      constructor
      · rw [List.drop_left, hbefore, hbatch, hrecvAs, harg]
        rfl
      · rw [recvAll_append, hbefore, hbatch]
        exact .of_hears hsends hhears' hseq

/-- A call that returns after a frame was lost is not accepted. -/
theorem Inv.not_accepted {said : List Msg} {lost : Prop} (h : Inv A key s said lost) (hlost : lost)
    {peer : SecureChannel Key T} (hpeer : peer.Hears A key []) (hcompletes : s.Completes call) :
    ¬Accepted A peer call s (s.send A call).2 := by
  intro haccepted
  have hlag := h.lagging hlost
  have hout := send_outcome h.sends call
  generalize s.send A call = r at hout haccepted
  cases hout with
  | cut plaintext c i hloses => exact hcompletes.not_loses hloses
  | raised exc c new hcannot => exact hcannot hcompletes.1
  | returned plaintext c harg hcompletes' hseq hsends =>
      have hnonce := haccepted.inSync.nonce_eq
      have hle := nonce_recvAll_le A
        (s.wire ++ frames A (stream.cipher A key said) (s.channel.batch plaintext)) peer
      rw [hnonce, hsends.nonce_eq, hpeer.inStep.nonce_eq] at hle
      simp only [List.length_append, length_frames, List.length_nil] at hle
      omega

/-- **Cancelled and failed sends.**  In a run of calls of `send`, every call
that returns is accepted by the peer if and only if none of them comes after
a call that got its frames and was cut off before one of them. -/
theorem returned_sends_accepted_iff (A : Aead Key) (hA : A.Correct) (hover : A.Overhead 16)
    (keys : Side → Key) (hash : Bytes) (static : Side → Bytes) (side : Side) (size : Int)
    (window : Side → ReplayWindow) (hnew : ReplayWindow.new size = .ok (window side.peer))
    (policy : Side → RekeyPolicy T) (calls : List SendCall) :
    let channel := SecureChannel.init (honestHandshake keys hash static side) (window side)
      (policy side)
    let peer := SecureChannel.init (honestHandshake keys hash static side.peer) (window side.peer)
      (policy side.peer)
    let start : Sender Key T := ⟨channel, []⟩
    (∀ before call after, calls = before ++ call :: after →
      ((run A start before).send A call).1 = .returned →
        Accepted A peer call (run A start before) (run A start (before ++ [call]))) ↔
      ∀ before call after, calls = before ++ call :: after →
        (run A start before).Completes call → Lossless A start before := by
  intro channel peer start
  have hsends : channel.Sends A (keys side) [] := .init _ (window side) (policy side) rfl
  have hpeer : peer.Hears A (keys side) [] :=
    .init _ (policy side.peer) (by simp [honestHandshake]) hnew
  constructor
  · intro haccepted before call after hsplit hcompletes
    obtain ⟨said, hinv⟩ := inv_run (A := A) hsends before
    by_contra hlost
    refine hinv.not_accepted hlost hpeer hcompletes ?_
    rw [← run_append_singleton]
    exact haccepted before call after hsplit (hinv.returned_iff.mpr hcompletes)
  · intro hlossless before call after hsplit hreturned
    obtain ⟨said, hinv⟩ := inv_run (A := A) hsends before
    rw [run_append_singleton]
    exact hinv.accepted (not_not.mpr (hlossless before call after hsplit
      (hinv.returned_iff.mp hreturned))) hA hover hpeer rfl hreturned

end Send

/-- Two calls that are not cut off; the second replaces the key. -/
theorem returned_sends_accepted_iff_rekey :
    let A := Aead.spelled (· + 2)
    let window : ReplayWindow := ⟨1, 1, -1, 0, by decide, rfl⟩
    let policy : RekeyPolicy ℤ := ⟨1, 900, fun _ => 0, 1, 0, 0, by decide, by decide⟩
    let keys : Side → Nat := fun side => if side = .initiator then 0 else 1
    let channel : SecureChannel Nat ℤ :=
      SecureChannel.init (honestHandshake keys [] (fun _ => []) .initiator) window policy
    let peer := SecureChannel.init (honestHandshake keys [] (fun _ => []) .responder) window policy
    let first : SendCall := ⟨.bytesLike [1], none⟩
    let second : SendCall := ⟨.bytesLike [2], none⟩
    Accepted A peer second (run A ⟨channel, []⟩ [first]) (run A ⟨channel, []⟩ [first, second]) := by
  intro A window policy keys channel peer first second
  have hiff := returned_sends_accepted_iff A (Aead.correct_spelled _) (Aead.overhead_spelled _) keys
    [] (fun _ => []) .initiator 1 (fun _ => window) rfl (fun _ => policy) [first, second]
  refine hiff.mpr (fun before call after hsplit _ => lossless_of_not_cut A _ ?_) [first] second []
    rfl (by decide +kernel)
  intro call' hcall'
  have hmem : call' ∈ [first, second] := by
    rw [hsplit]
    exact List.mem_append_left _ hcall'
  simp only [List.mem_cons, List.not_mem_nil, or_false] at hmem
  obtain rfl | rfl := hmem <;> rfl

/-- The first call is cut off before its only frame.  The later calls return,
and the peer can decrypt none of their frames. -/
theorem cut_send_poisons :
    let A := Aead.spelled (· + 2)
    let window : ReplayWindow := ⟨1, 1, -1, 0, by decide, rfl⟩
    let policy : RekeyPolicy ℤ := ⟨1000, 900, fun _ => 0, 1, 0, 0, by decide, by decide⟩
    let keys : Side → Nat := fun side => if side = .initiator then 0 else 1
    let channel : SecureChannel Nat ℤ :=
      SecureChannel.init (honestHandshake keys [] (fun _ => []) .initiator) window policy
    let peer := SecureChannel.init (honestHandshake keys [] (fun _ => []) .responder) window policy
    let start : Sender Nat ℤ := ⟨channel, []⟩
    let first : SendCall := ⟨.bytesLike [1], some 0⟩
    let second : SendCall := ⟨.bytesLike [2], none⟩
    let third : SendCall := ⟨.bytesLike [3], none⟩
    ((run A start [first]).send A second).1 = .returned ∧
    ((run A start [first, second]).send A third).1 = .returned ∧
    (recvAll A (run A start [first, second, third]).wire peer).1 =
      [.error (.decryptionError ["authentication failed for ", "TRANSPORT", " seq=", .int 1,
        " (tampered or truncated)"]),
      .error (.decryptionError ["authentication failed for ", "TRANSPORT", " seq=", .int 2,
        " (tampered or truncated)"])] ∧
    ¬Accepted A peer second (run A start [first]) (run A start [first, second]) := by
  intro A window policy keys channel peer start first second third
  refine ⟨by decide +kernel, by decide +kernel, by decide +kernel, fun haccepted => ?_⟩
  have hnot : (recvAll A ((run A start [first, second]).wire.drop (run A start [first]).wire.length)
      (recvAll A (run A start [first]).wire peer).2).1 ≠ [.ok [2]] := by
    decide +kernel
  exact hnot haccepted.recv_eq

end Sender

end SecureWs
