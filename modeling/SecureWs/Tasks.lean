import SecureWs.Lib.Runs
import SecureWs.Connection
import SecureWs.Session

/-!
# SecureWs.Tasks

Several tasks on one `SecureConnection`, interleaved at their `await`s.

* A task runs from one `await ws.send(…)` to the next: `send` encrypts and
  hands over its first frame in one step, and each further frame when it is
  resumed; `close` likewise with the CLOSE frame and the socket.
* The rest of a batch waits inside its task, so another task that encrypts
  meanwhile overtakes it: `Serial` excludes just this.
* `Inv` is the invariant of a run of `Serial` steps, and
  `concurrent_sends_intact_iff` says that these are the runs in which the
  stream stays intact.
-/

namespace SecureWs

open Python

variable {Key T ι : Type} [Zero T] [LE T]

/-- A task between two of its steps: not in a call, awaiting `ws.send` in
`send` with the frames it has still to hand over, or awaiting `ws.send` in
`close`. -/
inductive TaskState where
  | idle
  | sending (plaintext : Bytes) (waiting : List Bytes)
  | closing
  deriving DecidableEq

namespace TaskState

def waiting : TaskState → List Bytes
  | sending _ waiting => waiting
  | _ => []

/-- The plaintext of a `send` that handed over its last frame and has not
returned yet. -/
def inFlight : TaskState → Multiset Bytes
  | sending plaintext [] => {plaintext}
  | _ => 0

@[simp] theorem waiting_idle : idle.waiting = [] := rfl

@[simp] theorem waiting_sending (plaintext : Bytes) (waiting : List Bytes) :
    (sending plaintext waiting).waiting = waiting := rfl

@[simp] theorem waiting_closing : closing.waiting = [] := rfl

@[simp] theorem inFlight_idle : idle.inFlight = 0 := rfl

@[simp] theorem inFlight_sending_nil (plaintext : Bytes) :
    (sending plaintext []).inFlight = {plaintext} := rfl

@[simp] theorem inFlight_sending_cons (plaintext frame : Bytes) (waiting : List Bytes) :
    (sending plaintext (frame :: waiting)).inFlight = 0 := rfl

@[simp] theorem inFlight_closing : closing.inFlight = 0 := rfl

end TaskState

/-- The tasks `ι` on one connection.  `wire` is what the socket took, and
`completed` lists the plaintexts of the calls of `send` that returned. -/
structure Tasks (Key T ι : Type) [Zero T] [LE T] where
  channel : SecureChannel Key T
  tasks : ι → TaskState
  wire : List Bytes
  socketOpen : Bool
  completed : List Bytes

namespace Tasks

/-- What happens: a task calls `send` or `close`, or goes on. -/
inductive Event (ι : Type) where
  | send (task : ι) (arg : Arg)
  | close (task : ι)
  | resume (task : ι)
  deriving Repr

def start (channel : SecureChannel Key T) : Tasks Key T ι := ⟨channel, fun _ => .idle, [], true, []⟩

section Step

variable [DecidableEq ι]

/-- The loop of `send`, from the next frame on.  `ws.send` puts the frame on
the wire and suspends the task, or raises `ConnectionClosed`; after the last
frame `send` returns. -/
def handOver (s : Tasks Key T ι) (task : ι) (plaintext : Bytes) : List Bytes → Tasks Key T ι
  | [] => { s with
      tasks := Function.update s.tasks task .idle
      completed := s.completed ++ [plaintext] }
  | frame :: waiting =>
      if s.socketOpen = true then
        { s with
          tasks := Function.update s.tasks task (.sending plaintext waiting)
          wire := s.wire ++ [frame] }
      else { s with tasks := Function.update s.tasks task .idle }

/-- `conn.close()`, up to its first `await`.  An exception of the SDK and
`ConnectionClosed` are swallowed, and `ws.close` follows. -/
def startClose (A : Aead Key) (s : Tasks Key T ι) (task : ι) : Tasks Key T ι :=
  if s.channel.closed = true then { s with socketOpen := false }
  else match (SecureChannel.closeFrame A).run s.channel with
    | (.ok frame, c) =>
        if s.socketOpen = true then
          { s with
            channel := c
            tasks := Function.update s.tasks task .closing
            wire := s.wire ++ [frame] }
        else { s with channel := c }
    | (.error exc, c) =>
        if exc.isSecureWebSocketError = true then { s with channel := c, socketOpen := false }
        else { s with channel := c }

def resume (s : Tasks Key T ι) (task : ι) : Tasks Key T ι :=
  match s.tasks task with
  | .idle => s
  | .sending plaintext waiting => s.handOver task plaintext waiting
  | .closing => { s with tasks := Function.update s.tasks task .idle, socketOpen := false }

variable [Sub T] [DecidableLE T]

/-- `conn.send(data)`, up to its first `await`. -/
def startSend (A : Aead Key) (s : Tasks Key T ι) (task : ι) (arg : Arg) : Tasks Key T ι :=
  match (SecureChannel.encrypt A arg).run s.channel with
  | (.ok frames, c) => { s with channel := c }.handOver task arg.contents frames
  | (.error _, c) => { s with channel := c }

/-- One step; a task that is in a call makes no other. -/
def step (A : Aead Key) (s : Tasks Key T ι) : Event ι → Tasks Key T ι
  | .send task arg => if s.tasks task = .idle then s.startSend A task arg else s
  | .close task => if s.tasks task = .idle then s.startClose A task else s
  | .resume task => s.resume task

def run (A : Aead Key) (s : Tasks Key T ι) (events : List (Event ι)) : Tasks Key T ι :=
  events.foldl (step A) s

end Step

section Serial

variable [Sub T] [DecidableLE T]

/-- The step gets frames from the channel and puts the first on the wire. -/
def Emits (s : Tasks Key T ι) : Event ι → Prop
  | .send task arg => s.tasks task = .idle ∧ s.socketOpen = true ∧ s.channel.CanEncrypt arg
  | .close task => s.tasks task = .idle ∧ s.socketOpen = true ∧ s.channel.closed = false ∧
      s.channel.sendCipher.nonce < MAX_NONCE
  | .resume _ => False

/-- New frames are made only while no task holds frames back. -/
def Serial (s : Tasks Key T ι) (event : Event ι) : Prop :=
  s.Emits event → ∀ task, (s.tasks task).waiting = []

end Serial

/-- The wire carries the frames in the order of their numbers, from zero on
and without a gap. -/
def InOrder (wire : List Bytes) : Prop :=
  ∀ (i : Nat) frame, wire[i]? = some frame → ∃ decoded, decode frame = .ok decoded ∧ decoded.seq = i

/-- The stream is intact: the frames are in order, and a peer that receives
them gets the plaintext of every completed `send` once, besides those of the
calls about to return, and no exception but that of a CLOSE. -/
structure Intact [Fintype ι] (A : Aead Key) (peer : SecureChannel Key T) (s : Tasks Key T ι) :
    Prop where
  in_order : InOrder s.wire
  returned_eq : (returned (recvAll A s.wire peer).1 : Multiset Bytes) =
    s.completed + ∑ task, (s.tasks task).inFlight
  raised : ∀ exc, .error exc ∈ (recvAll A s.wire peer).1 →
    exc = .channelClosedError ["peer closed the channel"]

/-! ## The invariant -/

/-- The message whose frame is held back, if there is one: the TRANSPORT that
follows a REKEY, in one task. -/
inductive Holds (A : Aead Key) (key : Key) (tasks : ι → TaskState) (handed : List Msg) :
    List Msg → Prop
  | nothing (h : ∀ task, (tasks task).waiting = []) : Holds A key tasks handed []
  | transport (task : ι) (plaintext : Bytes)
      (htask : tasks task = .sending plaintext
        (frames A (stream.cipher A key handed) [.transport plaintext]))
      (hothers : ∀ other, other ≠ task → (tasks other).waiting = []) :
      Holds A key tasks handed [.transport plaintext]

/-- Of what the channel said, the wire has `handed`, a task holds `held`, and
`lost` will never be sent: the socket is closed, or the nonces are used up. -/
structure Inv [Fintype ι] (A : Aead Key) (key : Key) (s : Tasks Key T ι)
    (handed held lost : List Msg) : Prop where
  sends : s.channel.Sends A key (handed ++ held ++ lost)
  wire_eq : s.wire = frames A (stream.cipher A key []) handed
  dead : lost = [] ∨ s.socketOpen = false ∨ (handed ++ held ++ lost).length = MAX_NONCE
  holds : Holds A key s.tasks handed held
  plaintexts_eq : (plaintexts handed : Multiset Bytes) =
    s.completed + ∑ task, (s.tasks task).inFlight

/-- The invariant holds before any task sends. -/
theorem inv_start [Fintype ι] (A : Aead Key) {key : Key} {channel : SecureChannel Key T}
    (h : channel.Sends A key []) : Inv A key (start channel : Tasks Key T ι) [] [] [] where
  sends := h
  wire_eq := rfl
  dead := Or.inl rfl
  holds := .nothing fun _ => rfl
  plaintexts_eq := by simp [start, TaskState.inFlight]

/-- An open socket takes the next frame. -/
theorem handOver_of_open [DecidableEq ι] (s : Tasks Key T ι) (h : s.socketOpen = true) {task : ι}
    {plaintext frame : Bytes} {waiting : List Bytes} :
    s.handOver task plaintext (frame :: waiting) = { s with
      tasks := Function.update s.tasks task (.sending plaintext waiting)
      wire := s.wire ++ [frame] } := if_pos h

/-- A closed one raises, and the task is done. -/
theorem handOver_of_closed [DecidableEq ι] (s : Tasks Key T ι) (h : s.socketOpen = false) {task : ι}
    {plaintext frame : Bytes} {waiting : List Bytes} :
    s.handOver task plaintext (frame :: waiting) =
      { s with tasks := Function.update s.tasks task .idle } := if_neg (by simp [h])

/-- The calls about to return, when one task moves. -/
theorem sum_inFlight_update [Fintype ι] [DecidableEq ι] (tasks : ι → TaskState) (task : ι)
    (state : TaskState) :
    (∑ other, (Function.update tasks task state other).inFlight) + (tasks task).inFlight =
      (∑ other, (tasks other).inFlight) + state.inFlight := by
  have hothers : ∀ other ∈ Finset.univ.erase task,
      (Function.update tasks task state other).inFlight = (tasks other).inFlight := by
    intro other hother
    rw [Function.update_of_ne (Finset.ne_of_mem_erase hother)]
  rw [← Finset.add_sum_erase _ _ (Finset.mem_univ task),
    ← Finset.add_sum_erase Finset.univ (fun other => (tasks other).inFlight) (Finset.mem_univ task),
    Finset.sum_congr rfl hothers, Function.update_self]
  abel

/-- The wire of a list of messages is in order. -/
theorem inOrder_frames {A : Aead Key} (hover : A.Overhead AEAD_TAG_LEN) (key : Key) {said : List Msg}
    (hlen : said.length ≤ MAX_NONCE) (hfits : ∀ m ∈ said, m.plaintext.length ≤ MAX_PLAINTEXT) :
    InOrder (frames A (stream.cipher A key []) said) := by
  intro i frame hframe
  rw [getElem?_frames] at hframe
  obtain ⟨m, hm, rfl⟩ := Option.map_eq_some_iff.mp hframe
  obtain ⟨hlt, -⟩ := List.getElem?_eq_some_iff.mp hm
  have hnonce : (stream.cipher A key (said.take i)).nonce = i := by
    rw [AeadStream.nonce_cipher, List.length_take]
    omega
  obtain ⟨decoded, hdecode, -, hseq, -⟩ := decode_sealing hover (stream.cipher A key (said.take i))
    (by rw [hnonce]; simp only [MAX_SEQ, MAX_NONCE] at hlen ⊢; omega)
    (hfits m (List.mem_of_getElem? hm))
  exact ⟨decoded, hdecode, hseq.trans hnonce⟩

namespace Inv

variable [Fintype ι] {A : Aead Key} {key : Key} {s : Tasks Key T ι} {handed held lost : List Msg}

/-- In a state that keeps the invariant the stream is intact. -/
theorem intact (h : Inv A key s handed held lost) (hA : A.Correct) (hover : A.Overhead AEAD_TAG_LEN)
    {peer : SecureChannel Key T} (hpeer : peer.Hears A key []) (hopen : peer.closed = false) :
    Intact A peer s := by
  have hpre : handed <+: handed ++ held ++ lost := by
    rw [List.append_assoc]
    exact List.prefix_append _ _
  have hlen := hpre.length_le.trans h.sends.length_le
  have hfits : ∀ m ∈ handed, m.plaintext.length ≤ MAX_PLAINTEXT := fun m hm =>
    h.sends.fits m (hpre.subset hm)
  have hlast : ∀ m ∈ handed.dropLast, m ≠ .close := by
    intro m hm
    by_cases hclose : .close ∈ handed
    · rw [h.sends.eq_of_close_mem hpre hclose] at hm
      exact h.sends.close_last m hm
    · intro heq
      rw [heq] at hm
      exact hclose (List.mem_of_mem_dropLast hm)
  obtain ⟨c', hrecv, -⟩ := hpeer.recvAll hA hover hopen
    (by rwa [List.nil_append]) hfits hlast
  rw [← h.wire_eq] at hrecv
  constructor
  · rw [h.wire_eq]
    exact inOrder_frames hover key hlen hfits
  · rw [hrecv, returned_filterMap_recvAs]
    exact h.plaintexts_eq
  · intro exc hexc
    rw [hrecv] at hexc
    obtain ⟨m, -, hm⟩ := List.mem_filterMap.mp hexc
    cases m with
    | transport plaintext => simp [recvAs] at hm
    | rekey => simp [recvAs] at hm
    | close => simpa [recvAs, eq_comm] using hm

/-- The channel says messages that no wire will carry. -/
theorem lose (h : Inv A key s handed held lost) {c : SecureChannel Key T} {new : List Msg}
    (hsends : c.Sends A key (handed ++ held ++ lost ++ new))
    (hdead : new = [] ∨ s.socketOpen = false ∨
      (handed ++ held ++ lost ++ new).length = MAX_NONCE) :
    ∃ handed held lost, Inv A key { s with channel := c } handed held lost := by
  rw [List.append_assoc] at hsends hdead
  refine ⟨handed, held, lost ++ new, hsends, h.wire_eq, ?_, h.holds, h.plaintexts_eq⟩
  have hle := hsends.length_le
  obtain rfl | hclosed | hfull := hdead
  · rw [List.append_nil]
    exact h.dead
  · exact Or.inr (Or.inl hclosed)
  · exact Or.inr (Or.inr hfull)

/-- The socket closes. -/
theorem closeSocket (h : Inv A key s handed held lost) :
    Inv A key { s with socketOpen := false } handed held lost :=
  ⟨h.sends, h.wire_eq, Or.inr (Or.inl rfl), h.holds, h.plaintexts_eq⟩

/-- While frames can be made and sent, nothing is lost. -/
theorem lost_eq_nil (h : Inv A key s handed held lost) (hopen : s.socketOpen = true)
    (hnonce : s.channel.sendCipher.nonce < MAX_NONCE) : lost = [] := by
  rw [h.sends.nonce_eq] at hnonce
  obtain hlost | hclosed | hfull := h.dead
  · exact hlost
  · rw [hopen] at hclosed
    contradiction
  · omega

/-- A task that holds no frames does nothing to the others' frames. -/
theorem held_eq_nil (h : Inv A key s handed held lost)
    (hnone : ∀ task, (s.tasks task).waiting = []) : held = [] := by
  cases h.holds with
  | nothing => rfl
  | transport task plaintext htask =>
      have hwaiting := hnone task
      rw [htask] at hwaiting
      simp [TaskState.waiting, frames, AeadStream.sealings] at hwaiting

/-- New frames are made when the wire carries all that was said. -/
theorem said_eq_handed (h : Inv A key s handed held lost) (hopen : s.socketOpen = true)
    (hnonce : s.channel.sendCipher.nonce < MAX_NONCE)
    (hnone : ∀ task, (s.tasks task).waiting = []) :
    held = [] ∧ lost = [] ∧ s.channel.Sends A key handed ∧
      s.channel.sendCipher = stream.cipher A key handed := by
  have hheld := h.held_eq_nil hnone
  have hlost := h.lost_eq_nil hopen hnonce
  have hsends := h.sends
  rw [hheld, hlost, List.append_nil, List.append_nil] at hsends
  exact ⟨hheld, hlost, hsends, hsends.cipher_eq⟩

variable [DecidableEq ι] {task : ι}

omit [Fintype ι] in
/-- When no task holds frames, one that moves to a state without frames leaves
it so. -/
theorem waiting_update {tasks : ι → TaskState} (hnone : ∀ other, (tasks other).waiting = [])
    {state : TaskState} (hstate : state.waiting = []) (other : ι) :
    (Function.update tasks task state other).waiting = [] := by
  by_cases heq : other = task
  · rw [heq, Function.update_self]
    exact hstate
  · rw [Function.update_of_ne heq]
    exact hnone other

omit [Fintype ι] in
/-- A task without frames moves to another such state. -/
theorem holds_update {tasks : ι → TaskState} (h : Holds A key tasks handed held)
    (hwaiting : (tasks task).waiting = []) {state : TaskState} (hstate : state.waiting = []) :
    Holds A key (Function.update tasks task state) handed held := by
  cases h with
  | nothing hnone => exact .nothing (waiting_update hnone hstate)
  | transport holder plaintext hholder hothers =>
      have hne : holder ≠ task := by
        intro heq
        rw [← heq, hholder, frames_cons] at hwaiting
        contradiction
      refine .transport holder plaintext ?_ ?_
      · rw [Function.update_of_ne hne]
        exact hholder
      · intro other hother
        by_cases heq : other = task
        · rw [heq, Function.update_self]
          exact hstate
        · rw [Function.update_of_ne heq]
          exact hothers other hother

/-- The calls about to return, when a task moves that is not in a call. -/
theorem plaintexts_update (h : Inv A key s handed held lost) (hidle : s.tasks task = .idle)
    (state : TaskState) :
    (plaintexts handed : Multiset Bytes) + state.inFlight =
      s.completed + ∑ other, (Function.update s.tasks task state other).inFlight := by
  have hsum := sum_inFlight_update s.tasks task state
  rw [hidle, TaskState.inFlight_idle, add_zero] at hsum
  rw [h.plaintexts_eq, hsum, add_assoc]

/-- A call puts its first frame on the wire, while no task holds frames and
nothing is lost. -/
theorem emit (h : Inv A key s handed [] []) (hidle : s.tasks task = .idle) {c : SecureChannel Key T}
    {m : Msg} {held : List Msg} {state : TaskState}
    (hsends : c.Sends A key (handed ++ ([m] ++ held)))
    (hholds : Holds A key (Function.update s.tasks task state) (handed ++ [m]) held)
    (hflight : (plaintexts [m] : Multiset Bytes) = state.inFlight) :
    Inv A key { s with
      channel := c
      tasks := Function.update s.tasks task state
      wire := s.wire ++ [(stream.sealing A (stream.cipher A key handed) m).wire] }
      (handed ++ [m]) held [] := by
  refine ⟨?_, ?_, Or.inl rfl, hholds, ?_⟩
  · rwa [List.append_nil, List.append_assoc]
  · rw [frames_append_singleton, ← h.wire_eq]
  · rw [plaintexts_append, ← Multiset.coe_add, hflight]
    exact h.plaintexts_update hidle state

section Send

variable [Sub T] [DecidableLE T]

/-- A call of `send` keeps the invariant. -/
theorem startSend (h : Inv A key s handed held lost) (hidle : s.tasks task = .idle) {arg : Arg}
    (hserial : s.Serial (.send task arg)) :
    ∃ handed held lost, Inv A key (s.startSend A task arg) handed held lost := by
  unfold Tasks.startSend
  obtain ⟨plaintext, rfl, hcan, hrun, hsends⟩ | ⟨exc, c, hrun, ⟨new, -, hnew, hsends⟩, -⟩ :=
    h.sends.encrypt arg
  · rw [hrun]
    generalize (s.channel.beforeTransport A).afterTransport A plaintext = c at hsends
    show ∃ handed held lost, Inv A key (({ s with channel := c } : Tasks Key T ι).handOver task
      plaintext (frames A s.channel.sendCipher (s.channel.batch plaintext))) handed held lost
    by_cases hopen : s.socketOpen = true
    · have hnone := hserial ⟨hidle, hopen, hcan⟩
      obtain ⟨rfl, rfl, -, hcipher⟩ := h.said_eq_handed hopen hcan.nonce_lt hnone
      rw [List.append_nil, List.append_nil] at hsends
      rw [hcipher]
      obtain hbatch | hbatch := s.channel.batch_cases plaintext
      · rw [hbatch] at hsends ⊢
        rw [frames_cons, handOver_of_open { s with channel := c } hopen]
        exact ⟨_, _, _, h.emit hidle hsends (.nothing (waiting_update hnone rfl)) rfl⟩
      · rw [hbatch] at hsends ⊢
        rw [frames_cons, handOver_of_open { s with channel := c } hopen]
        refine ⟨_, _, _, h.emit hidle hsends (.transport task plaintext ?_ ?_) rfl⟩
        · rw [AeadStream.cipher_append_singleton]
          exact Function.update_self ..
        · intro other hother
          rw [Function.update_of_ne hother]
          exact hnone other
    · have hclosed : s.socketOpen = false := by simpa using hopen
      have hend : ∃ m new, s.channel.batch plaintext = m :: new := by
        obtain hbatch | hbatch := s.channel.batch_cases plaintext
        · exact ⟨_, _, hbatch⟩
        · exact ⟨_, _, hbatch⟩
      obtain ⟨m, new, hbatch⟩ := hend
      rw [hbatch, frames_cons, handOver_of_closed { s with channel := c } hclosed]
      have hsame : Function.update s.tasks task .idle = s.tasks := by
        rw [← hidle, Function.update_eq_self]
      rw [hsame]
      exact h.lose hsends (Or.inr (Or.inl hclosed))
  · rw [hrun]
    refine h.lose hsends ?_
    obtain hnil | hfull := hnew
    · exact Or.inl hnil
    · exact Or.inr (Or.inr hfull)

/-- A call of `close` keeps the invariant. -/
theorem startClose (h : Inv A key s handed held lost) (hidle : s.tasks task = .idle)
    (hserial : s.Serial (.close task)) :
    ∃ handed held lost, Inv A key (s.startClose A task) handed held lost := by
  unfold Tasks.startClose
  by_cases hc : s.channel.closed = true
  · rw [if_pos hc]
    exact ⟨_, _, _, h.closeSocket⟩
  · rw [if_neg hc]
    obtain ⟨hopenc, hrun, hsends⟩ | ⟨exc, c, hrun, hsends, -⟩ := h.sends.closeFrame
    · rw [hrun]
      generalize s.channel.afterClose A = c at hsends
      by_cases hopen : s.socketOpen = true
      · have hnonce : s.channel.sendCipher.nonce < MAX_NONCE := by
          have hle := hsends.length_le
          rw [List.length_append, List.length_singleton, ← h.sends.nonce_eq] at hle
          omega
        have hnone := hserial ⟨hidle, hopen, hopenc, hnonce⟩
        obtain ⟨rfl, rfl, -, hcipher⟩ := h.said_eq_handed hopen hnonce hnone
        rw [List.append_nil, List.append_nil] at hsends
        rw [hcipher]
        simp only [if_pos hopen]
        exact ⟨_, _, _, h.emit hidle hsends (.nothing (waiting_update hnone rfl)) rfl⟩
      · simp only [if_neg hopen]
        exact h.lose hsends (Or.inr (Or.inl (by simpa using hopen)))
    · rw [hrun]
      rw [← List.append_nil (handed ++ held ++ lost)] at hsends
      obtain ⟨handed', held', lost', h'⟩ := h.lose hsends (Or.inl rfl)
      by_cases hsecure : exc.isSecureWebSocketError = true
      · simp only [if_pos hsecure]
        exact ⟨_, _, _, h'.closeSocket⟩
      · simp only [if_neg hsecure]
        exact ⟨_, _, _, h'⟩

end Send

/-- A task that holds no frames ends its call. -/
theorem finish (h : Inv A key s handed held lost) (task : ι)
    (hwaiting : (s.tasks task).waiting = []) (completed : List Bytes) (socketOpen : Bool)
    (hflight : (completed : Multiset Bytes) = s.completed + (s.tasks task).inFlight)
    (hsocket : s.socketOpen = false → socketOpen = false) :
    Inv A key { s with
      tasks := Function.update s.tasks task .idle
      socketOpen := socketOpen
      completed := completed } handed held lost := by
  refine ⟨h.sends, h.wire_eq, ?_, holds_update h.holds hwaiting rfl, ?_⟩
  · obtain hlost | hclosed | hfull := h.dead
    · exact Or.inl hlost
    · exact Or.inr (Or.inl (hsocket hclosed))
    · exact Or.inr (Or.inr hfull)
  · have hsum := sum_inFlight_update s.tasks task .idle
    rw [TaskState.inFlight_idle, add_zero] at hsum
    rw [h.plaintexts_eq, ← hsum, hflight]
    abel

/-- A task that holds frames holds the one frame held back. -/
theorem eq_transport_of_waiting (h : Inv A key s handed held lost) {plaintext frame : Bytes}
    {waiting : List Bytes} (hstate : s.tasks task = .sending plaintext (frame :: waiting)) :
    held = [.transport plaintext] ∧ waiting = [] ∧
      frame = (stream.sealing A (stream.cipher A key handed) (.transport plaintext)).wire ∧
      ∀ other, other ≠ task → (s.tasks other).waiting = [] := by
  cases h.holds with
  | nothing hnone =>
      have hwaiting := hnone task
      rw [hstate, TaskState.waiting_sending] at hwaiting
      contradiction
  | transport holder plaintext' hholder hothers =>
      have heq : task = holder := by
        by_contra hne
        have hwaiting := hothers task hne
        rw [hstate, TaskState.waiting_sending] at hwaiting
        contradiction
      subst heq
      rw [hstate, frames_cons, TaskState.sending.injEq, List.cons.injEq] at hholder
      obtain ⟨rfl, hframe, hwaiting⟩ := hholder
      exact ⟨rfl, hwaiting, hframe, hothers⟩

/-- A task that goes on keeps the invariant. -/
theorem resume (h : Inv A key s handed held lost) (task : ι) :
    ∃ handed held lost, Inv A key (s.resume task) handed held lost := by
  unfold Tasks.resume
  cases hstate : s.tasks task with
  | idle => exact ⟨_, _, _, h⟩
  | closing =>
      refine ⟨_, _, _, h.finish task ?_ s.completed false ?_ fun _ => rfl⟩
      · rw [hstate, TaskState.waiting_closing]
      · rw [hstate, TaskState.inFlight_closing, add_zero]
  | sending plaintext waiting =>
      cases waiting with
      | nil =>
          refine ⟨_, _, _, h.finish task ?_ (s.completed ++ [plaintext]) s.socketOpen ?_ id⟩
          · rw [hstate, TaskState.waiting_sending]
          · rw [hstate, TaskState.inFlight_sending_nil, ← Multiset.coe_add]
            rfl
      | cons frame waiting =>
          obtain ⟨rfl, rfl, rfl, hothers⟩ := h.eq_transport_of_waiting hstate
          have hnone : ∀ state : TaskState, state.waiting = [] →
              ∀ other, (Function.update s.tasks task state other).waiting = [] := by
            intro state hwaiting other
            by_cases heq : other = task
            · rw [heq, Function.update_self]
              exact hwaiting
            · rw [Function.update_of_ne heq]
              exact hothers other heq
          show ∃ handed held lost, Inv A key (s.handOver task plaintext [_]) handed held lost
          by_cases hopen : s.socketOpen = true
          · rw [handOver_of_open s hopen]
            refine ⟨handed ++ [.transport plaintext], [], lost, ?_, ?_, ?_,
              .nothing (hnone _ rfl), ?_⟩
            · rw [List.append_nil]
              exact h.sends
            · rw [frames_append_singleton, ← h.wire_eq]
            · rw [List.append_nil]
              exact h.dead
            · have hsum := sum_inFlight_update s.tasks task (.sending plaintext [])
              rw [hstate, TaskState.inFlight_sending_cons, add_zero] at hsum
              rw [plaintexts_append, ← Multiset.coe_add, h.plaintexts_eq, hsum, add_assoc]
              rfl
          · have hclosed : s.socketOpen = false := by simpa using hopen
            rw [handOver_of_closed s hclosed]
            refine ⟨handed, [], [.transport plaintext] ++ lost, ?_, h.wire_eq,
              Or.inr (Or.inl hclosed), .nothing (hnone _ rfl), ?_⟩
            · rw [List.append_nil, ← List.append_assoc]
              exact h.sends
            · have hsum := sum_inFlight_update s.tasks task .idle
              rw [hstate, TaskState.inFlight_sending_cons, TaskState.inFlight_idle, add_zero,
                add_zero] at hsum
              rw [h.plaintexts_eq, hsum]

/-- A step that makes frames while none is held back keeps the invariant. -/
theorem step [Sub T] [DecidableLE T] (h : Inv A key s handed held lost) {event : Event ι}
    (hserial : s.Serial event) :
    ∃ handed held lost, Inv A key (Tasks.step A s event) handed held lost := by
  cases event with
  | send task arg =>
      show ∃ handed held lost,
        Inv A key (if s.tasks task = .idle then s.startSend A task arg else s) handed held lost
      by_cases hidle : s.tasks task = .idle
      · rw [if_pos hidle]
        exact h.startSend hidle hserial
      · rw [if_neg hidle]
        exact ⟨_, _, _, h⟩
  | close task =>
      show ∃ handed held lost,
        Inv A key (if s.tasks task = .idle then s.startClose A task else s) handed held lost
      by_cases hidle : s.tasks task = .idle
      · rw [if_pos hidle]
        exact h.startClose hidle hserial
      · rw [if_neg hidle]
        exact ⟨_, _, _, h⟩
  | resume task => exact h.resume task

end Inv

/-! ## Runs -/

section Run

variable [DecidableEq ι] [Sub T] [DecidableLE T] {A : Aead Key} {key : Key}

/-- A step that makes frames puts the one with the next number on the wire. -/
theorem wire_step_of_emits {s : Tasks Key T ι} {said : List Msg} (h : s.channel.Sends A key said)
    {event : Event ι} (hemits : s.Emits event) :
    ∃ m : Msg, m.plaintext.length ≤ MAX_PLAINTEXT ∧ said.length < MAX_NONCE ∧
      (step A s event).wire = s.wire ++ [(stream.sealing A s.channel.sendCipher m).wire] := by
  cases event with
  | resume task => exact absurd hemits id
  | send task arg =>
      obtain ⟨hidle, hopen, hcan⟩ := hemits
      have hnonce := hcan.nonce_lt
      rw [h.nonce_eq] at hnonce
      have hstep : step A s (.send task arg) = s.startSend A task arg := if_pos hidle
      rw [hstep]
      unfold startSend
      obtain ⟨plaintext, rfl, ⟨-, _, harg, hlen, -⟩, hrun, -⟩ | ⟨-, -, -, -, hcannot⟩ :=
        h.encrypt arg
      · obtain rfl := Arg.bytesLike.inj harg
        rw [hrun]
        generalize (s.channel.beforeTransport A).afterTransport A plaintext = c
        show ∃ m : Msg, m.plaintext.length ≤ MAX_PLAINTEXT ∧ said.length < MAX_NONCE ∧
          (({ s with channel := c } : Tasks Key T ι).handOver task plaintext
            (frames A s.channel.sendCipher (s.channel.batch plaintext))).wire = _
        obtain hbatch | hbatch := s.channel.batch_cases plaintext
        · rw [hbatch, frames_cons, handOver_of_open { s with channel := c } hopen]
          exact ⟨.transport plaintext, hlen, hnonce, rfl⟩
        · rw [hbatch, frames_cons, handOver_of_open { s with channel := c } hopen]
          exact ⟨.rekey, Nat.zero_le _, hnonce, rfl⟩
      · exact absurd hcan hcannot
  | close task =>
      obtain ⟨hidle, hopen, hopenc, hnonce⟩ := hemits
      rw [h.nonce_eq] at hnonce
      have hstep : step A s (.close task) = s.startClose A task := if_pos hidle
      rw [hstep]
      unfold startClose
      obtain ⟨-, hrun, -⟩ | ⟨-, -, -, -, hclosed | hfull⟩ := h.closeFrame
      · rw [if_neg (by simp [hopenc]), hrun]
        simp only [if_pos hopen]
        exact ⟨.close, Nat.zero_le _, hnonce, rfl⟩
      · rw [hopenc] at hclosed
        contradiction
      · omega

variable [Fintype ι]

/-- Frames made while one is held back overtake it. -/
theorem not_inOrder_of_not_serial {s : Tasks Key T ι} {handed held lost : List Msg}
    (h : Inv A key s handed held lost) (hover : A.Overhead AEAD_TAG_LEN) {event : Event ι}
    (hserial : ¬s.Serial event) : ¬InOrder (step A s event).wire := by
  intro horder
  unfold Serial at hserial
  rw [Classical.not_imp, not_forall] at hserial
  obtain ⟨hemits, task, hwaiting⟩ := hserial
  have hheld : 0 < held.length := by
    cases h.holds with
    | nothing hnone => exact absurd (hnone task) hwaiting
    | transport => exact Nat.one_pos
  obtain ⟨m, hfits, hlt, hwire⟩ := wire_step_of_emits h.sends hemits
  have hnonce := h.sends.nonce_eq
  obtain ⟨decoded, hdecode, -, hseq, -⟩ := decode_sealing hover s.channel.sendCipher (m := m)
    (by rw [hnonce]; simp only [MAX_SEQ, MAX_NONCE] at hlt ⊢; omega) hfits
  obtain ⟨decoded', hdecode', hseq'⟩ := horder s.wire.length
    (stream.sealing A s.channel.sendCipher m).wire (by rw [hwire, List.getElem?_concat_length])
  rw [hdecode, Except.ok.injEq] at hdecode'
  rw [← hdecode', hseq, hnonce, h.wire_eq, length_frames] at hseq'
  simp only [List.length_append] at hseq'
  omega

/-- A run of serial steps keeps the invariant. -/
theorem inv_run {s : Tasks Key T ι} (hinit : Inv A key s [] [] []) {events : List (Event ι)}
    (hserial : Runs.Along (step A) Serial s events) :
    ∃ handed held lost, Inv A key (run A s events) handed held lost := by
  refine hserial.invariant (fun s => ∃ handed held lost, Inv A key s handed held lost)
    ⟨[], [], [], hinit⟩ fun s event hinv hstep => ?_
  obtain ⟨handed, held, lost, h⟩ := hinv
  exact h.step hstep

/-- A run whose wire stays in order is a run of serial steps. -/
theorem serial_of_inOrder {s : Tasks Key T ι} (hinit : Inv A key s [] [] [])
    (hover : A.Overhead AEAD_TAG_LEN) {events : List (Event ι)}
    (horder : ∀ before after, events = before ++ after → InOrder (run A s before).wire) :
    Runs.Along (step A) Serial s events := by
  induction events using List.reverseRecOn with
  | nil => exact Runs.along_nil
  | append_singleton events last ih =>
      have hserial := ih fun before after hsplit =>
        horder before (after ++ [last]) (by rw [hsplit, List.append_assoc])
      -- the invariant holds when the last step is taken
      obtain ⟨handed, held, lost, h⟩ := inv_run hinit hserial
      refine Runs.along_append_singleton.mpr ⟨hserial, ?_⟩
      by_contra hnot
      have hwire := horder (events ++ [last]) [] (by rw [List.append_nil])
      unfold run at hwire
      rw [List.foldl_append] at hwire
      exact not_inOrder_of_not_serial h hover hnot hwire

/-- **Concurrent senders.**  Over a run of any number of tasks the stream is
intact in every state if and only if new frames are made only while no task
holds frames back. -/
theorem concurrent_sends_intact_iff (A : Aead Key) (hA : A.Correct) (hover : A.Overhead 16)
    (keys : Side → Key) (hash : Bytes) (static : Side → Bytes) (side : Side) (size : Int)
    (window : Side → ReplayWindow) (hnew : ReplayWindow.new size = .ok (window side.peer))
    (policy : Side → RekeyPolicy T) (events : List (Event ι)) :
    let channel := SecureChannel.init (honestHandshake keys hash static side) (window side)
      (policy side)
    let peer := SecureChannel.init (honestHandshake keys hash static side.peer) (window side.peer)
      (policy side.peer)
    (∀ before after, events = before ++ after → Intact A peer (run A (start channel) before)) ↔
      ∀ before event after, events = before ++ event :: after →
        (run A (start channel) before).Serial event := by
  intro channel peer
  have hinit : Inv A (keys side) (start channel : Tasks Key T ι) [] [] [] :=
    inv_start A (.init _ (window side) (policy side) rfl)
  have hpeer : peer.Hears A (keys side) [] :=
    .init _ (policy side.peer) (by simp [honestHandshake]) hnew
  constructor
  · intro hintact
    exact serial_of_inOrder hinit hover fun before after hsplit =>
      (hintact before after hsplit).in_order
  · intro hserial before after hsplit
    have halong : Runs.Along (step A) Serial (start channel) (before ++ after) := hsplit ▸ hserial
    obtain ⟨handed, held, lost, h⟩ := inv_run hinit halong.of_append
    exact h.intact hA hover hpeer rfl

end Run

/-- Two tasks whose sends overlap, before any rekey is due. -/
theorem concurrent_sends_intact_iff_overlap :
    let A := Aead.spelled (· + 2)
    let window : ReplayWindow := ⟨1, 1, -1, 0, by decide, rfl⟩
    let policy : RekeyPolicy ℤ := ⟨1000, 900, fun _ => 0, 1, 0, 0, by decide, by decide⟩
    let keys : Side → Nat := fun side => if side = .initiator then 0 else 1
    let channel : SecureChannel Nat ℤ :=
      SecureChannel.init (honestHandshake keys [] (fun _ => []) .initiator) window policy
    let peer := SecureChannel.init (honestHandshake keys [] (fun _ => []) .responder) window policy
    Intact A peer (run A (start channel) [.send true (.bytesLike [1]), .send false (.bytesLike [2])])
    := by
  intro A window policy keys channel peer
  have hiff := concurrent_sends_intact_iff A (Aead.correct_spelled _) (Aead.overhead_spelled _)
    keys [] (fun _ => []) .initiator 1 (fun _ => window) rfl (fun _ => policy)
    [.send true (.bytesLike [1]), .send false (.bytesLike [2])]
  refine hiff.mpr ?_ _ [] rfl
  intro before event after hsplit hemits
  have hprefix : before = [] ∨ before = [.send true (.bytesLike [1])] := by
    cases before with
    | nil => exact Or.inl rfl
    | cons first rest =>
        obtain ⟨rfl, hrest⟩ := List.cons.inj hsplit
        cases rest with
        | nil => exact Or.inr rfl
        | cons second rest =>
            have hlen := congrArg List.length hrest
            simp at hlen
  obtain rfl | rfl := hprefix
  · decide +kernel
  · decide +kernel

/-- A second task encrypts between the REKEY and the TRANSPORT of the first:
its frames overtake, the peer cannot decrypt, and a completed `send` is lost. -/
theorem overtaken_rekey :
    let A := Aead.spelled (· + 2)
    let window : ReplayWindow := ⟨1, 1, -1, 0, by decide, rfl⟩
    let policy : RekeyPolicy ℤ := ⟨1, 900, fun _ => 0, 1, 0, 0, by decide, by decide⟩
    let keys : Side → Nat := fun side => if side = .initiator then 0 else 1
    let channel : SecureChannel Nat ℤ :=
      SecureChannel.init (honestHandshake keys [] (fun _ => []) .initiator) window policy
    let peer := SecureChannel.init (honestHandshake keys [] (fun _ => []) .responder) window policy
    let s := run A (start channel) [.send true (.bytesLike [1]), .resume true,
      .send true (.bytesLike [2]), .send false (.bytesLike [3]), .resume true, .resume true,
      .resume false, .resume false]
    s.completed = [[1], [2], [3]] ∧
    (s.wire.map fun wire => (decode wire).map (·.seq)) = [.ok 0, .ok 1, .ok 3, .ok 2, .ok 4] ∧
    (recvAll A s.wire peer).1 = [.ok [1],
      .error (.decryptionError ["authentication failed for ", "REKEY", " seq=", .int 3,
        " (tampered or truncated)"]),
      .ok [2],
      .error (.decryptionError ["authentication failed for ", "TRANSPORT", " seq=", .int 4,
        " (tampered or truncated)"])] := by
  decide +kernel

end Tasks

end SecureWs
