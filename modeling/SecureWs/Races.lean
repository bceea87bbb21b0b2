import SecureWs.Attempts

/-!
# SecureWs.Races

Connection attempts that share one pin store and overlap in time, mixed with
direct calls of `trust_or_verify`.

* `Phase` is where an attempt waits: for the WebSocket, for the handshake,
  for the close or the handler; `step` runs one task from one `await` to the
  next;
* `step_alone` ties this to `Attempt.run`: a task that nobody interrupts does
  what `connect` or `serve` does;
* every event is one `PinsFirst` on the store, so the pins are stable over
  whole runs (`pins_stable`).
-/

namespace SecureWs

open Python World

variable {Key T : Type} [Zero T] [LE T] {ι : Type} [DecidableEq ι]

/-- Where an attempt waits. -/
inductive Phase (Key T : Type) [Zero T] [LE T] where
  | idle
  | opening (attempt : Attempt Key T)
  | handshaking (attempt : Attempt Key T)
  | ending (attempt : Attempt Key T) (outcome : Except PyError (SecureChannel Key T))
  | finished

/-- The shared world and the tasks. -/
structure Races (Key T ι : Type) [Zero T] [LE T] where
  world : World Key T
  tasks : ι → Phase Key T

/-- What happens: a task begins an attempt, a task runs on to its next
`await`, or somebody calls `trust_or_verify`. -/
inductive RaceEvent (Key T ι : Type) [Zero T] [LE T] where
  | begin (task : ι) (attempt : Attempt Key T)
  | resume (task : ι)
  | trustOrVerify (label : Str) (publicKey : Bytes)

namespace Attempt

/-- The argument checks, before the first `await`. -/
def checkArgs (attempt : Attempt Key T) : Except PyError Unit :=
  match attempt.path with
  | .connect tls => checkConnect attempt.config tls
  | .serve _ _ => checkServe attempt.config

/-- What is checked when the WebSocket is open, before the handshake. -/
def checkOpened (env : Env) (attempt : Attempt Key T) : Except PyError Unit :=
  match attempt.path with
  | .connect tls => checkCertPin env tls
  | .serve _ _ => return ()

/-- From the end of the handshake to the next `await`. -/
def gate (env : Env) (attempt : Attempt Key T) : Action Key T (SecureChannel Key T) := do
  let peer ← Imp.ofExcept attempt.handshake
  authenticate env attempt.config attempt.clock peer
  return peer.channel attempt.replayWindow attempt.rekeyPolicy

/-- The rest: hand the connection on, or close it. -/
def settle (attempt : Attempt Key T) (outcome : Except PyError (SecureChannel Key T)) :
    Action Key T Unit :=
  match attempt.path with
  | .connect _ => tryCatch (do let _ ← Imp.ofExcept outcome) fun exc => do
      closeWs none
      throw exc
  | .serve remoteAddress handler => tryCatch
      (do
        let channel ← Imp.ofExcept outcome
        callHandler handler channel)
      (rejectClient remoteAddress)

end Attempt

namespace Races

def store (s : Races Key T ι) : KnownPeers := s.world.knownPeers

def resume (env : Env) (world : World Key T) : Phase Key T → World Key T × Phase Key T
  | .idle => (world, .idle)
  | .opening attempt => match attempt.checkOpened env with
      | .ok () => (world, .handshaking attempt)
      | .error exc => (world, .ending attempt (.error exc))
  | .handshaking attempt =>
      (((attempt.gate env).run world).2, .ending attempt ((attempt.gate env).run world).1)
  | .ending attempt outcome => (((attempt.settle outcome).run world).2, .finished)
  | .finished => (world, .finished)

def step (env : Env) (s : Races Key T ι) : RaceEvent Key T ι → Races Key T ι
  | .begin task attempt => match s.tasks task, attempt.checkArgs with
      | .idle, .ok () => { s with tasks := Function.update s.tasks task (.opening attempt) }
      | .idle, .error _ => { s with tasks := Function.update s.tasks task .finished }
      | _, _ => s
  | .resume task =>
      ⟨(resume env s.world (s.tasks task)).1,
        Function.update s.tasks task (resume env s.world (s.tasks task)).2⟩
  | .trustOrVerify label publicKey =>
      { s with world :=
          ((onKnownPeers (KnownPeers.trustOrVerify env.sha256 label publicKey)).run s.world).2 }

def run (env : Env) (s : Races Key T ι) (events : List (RaceEvent Key T ι)) : Races Key T ι :=
  events.foldl (step env) s

/-- How an attempt settles after its gate. -/
theorem settle_connect {attempt : Attempt Key T} {tls : Tls} (hpath : attempt.path = .connect tls)
    (m : Action Key T (SecureChannel Key T)) (world : World Key T) :
    ((attempt.settle (m.run world).1).run (m.run world).2).2 =
      ((tryCatch m fun exc => do
        closeWs none
        throw exc).run world).2 := by
  unfold Attempt.settle
  rw [hpath, Imp.run_tryCatch m]
  generalize m.run world = r
  obtain ⟨outcome, world'⟩ := r
  cases outcome with
  | ok channel => rfl
  | error exc => rfl

theorem settle_serve {attempt : Attempt Key T} {remoteAddress : Str}
    {handler : SecureChannel Key T → Except PyError Unit}
    (hpath : attempt.path = .serve remoteAddress handler)
    (m : Action Key T (SecureChannel Key T)) (world : World Key T) :
    ((attempt.settle (m.run world).1).run (m.run world).2).2 =
      ((tryCatch
        (do
          let channel ← m
          callHandler handler channel)
        (rejectClient remoteAddress)).run world).2 := by
  unfold Attempt.settle
  rw [hpath, Imp.run_tryCatch (m >>= _), Imp.run_bind m]
  generalize m.run world = r
  obtain ⟨outcome, world'⟩ := r
  cases outcome with
  | ok channel => rfl
  | error exc => rfl

/-- A task that nobody interrupts makes the attempt as a whole. -/
theorem step_alone (env : Env) (s : Races Key T ι) {task : ι} (hidle : s.tasks task = .idle)
    (attempt : Attempt Key T) :
    (run env s [.begin task attempt, .resume task, .resume task, .resume task]).world =
      (attempt.run env s.world).2 := by
  simp only [run, List.foldl, step, hidle]
  cases hpath : attempt.path with
  | connect tls =>
      have hrun : (attempt.run env s.world).2 = ((connect env attempt.config tls attempt.clock
          attempt.handshake attempt.replayWindow attempt.rekeyPolicy).run s.world).2 := by
        unfold Attempt.run
        rw [hpath]
      have hargs : attempt.checkArgs = checkConnect attempt.config tls := by
        unfold Attempt.checkArgs
        rw [hpath]
      have hopened : attempt.checkOpened env = checkCertPin env tls := by
        unfold Attempt.checkOpened
        rw [hpath]
      rw [hrun, connect, hargs]
      cases checkConnect attempt.config tls with
      | error exc => simp [resume]
      | ok u =>
          rw [Imp.run_ofExcept_ok_bind]
          simp only [Function.update_self, resume, hopened]
          cases checkCertPin env tls with
          | error exc =>
              exact settle_connect hpath (throw exc) s.world
          | ok u => exact settle_connect hpath (attempt.gate env) s.world
  | serve remoteAddress handler =>
      have hrun : (attempt.run env s.world).2 = ((serve env attempt.config remoteAddress
          attempt.clock attempt.handshake attempt.replayWindow attempt.rekeyPolicy handler).run
            s.world).2 := by
        unfold Attempt.run
        rw [hpath]
      have hargs : attempt.checkArgs = checkServe attempt.config := by
        unfold Attempt.checkArgs
        rw [hpath]
      have hopened : attempt.checkOpened env = .ok () := by
        unfold Attempt.checkOpened
        rw [hpath]
        rfl
      rw [hrun, serve, hargs]
      cases checkServe attempt.config with
      | error exc => simp [resume]
      | ok u =>
          rw [Imp.run_ofExcept_ok_bind, onConnection]
          simp only [Function.update_self, resume, hopened]
          have hbody : (attempt.gate env >>= callHandler handler).run s.world = (do
              let peer ← Imp.ofExcept attempt.handshake
              authenticate env attempt.config attempt.clock peer
              callHandler handler (peer.channel attempt.replayWindow attempt.rekeyPolicy) :
                Action Key T Unit).run s.world := by
            rw [Attempt.gate]
            cases attempt.handshake with
            | error exc => rfl
            | ok peer =>
                simp only [Imp.run_bind, Imp.run_ofExcept]
                generalize (authenticate env attempt.config attempt.clock peer).run s.world = r
                obtain ⟨outcome, world'⟩ := r
                cases outcome with
                | ok u => rfl
                | error exc => rfl
          rw [settle_serve hpath (attempt.gate env) s.world, Imp.run_tryCatch, Imp.run_tryCatch,
            hbody]

/-! ## What an event does to the store -/

/-- The label whose pin an event looks at. -/
def labelOf (s : Races Key T ι) : RaceEvent Key T ι → Option Str
  | .begin _ _ => none
  | .resume task => match s.tasks task with
      | .handshaking attempt => attempt.config.pinLabel
      | _ => none
  | .trustOrVerify label _ => some label

/-- The pin check that an event makes for a label passes for a key: an
attempt's `_authenticate_peer` returns, or a `trust_or_verify` does. -/
inductive Passes (env : Env) (s : Races Key T ι) : RaceEvent Key T ι → Str → Bytes → Prop
  | attempt {task : ι} {attempt : Attempt Key T} {peer : Peer Key} {label : Str} {verified : Bool}
      (htask : s.tasks task = .handshaking attempt) (hhandshake : attempt.handshake = .ok peer)
      (hlabel : attempt.config.pinLabel = some label)
      (hrevoked : enforceNotRevoked env peer.result.remoteStatic attempt.config.revocation = .ok ())
      (hpasses : ((authenticatePeer env attempt.config peer.result.remoteStatic).run
        s.world).1 = .ok verified) :
      Passes env s (.resume task) label peer.result.remoteStatic
  | call {label : Str} {publicKey : Bytes} {first : Bool}
      (hpasses : ((KnownPeers.trustOrVerify env.sha256 label publicKey).run s.store).1 =
        .ok first) :
      Passes env s (.trustOrVerify label publicKey) label publicKey

/-- `_authenticate_peer` writes a pin once. -/
theorem pinsFirst_storeAfter {config : Config} {label : Str} (hlabel : config.pinLabel = some label)
    (store : KnownPeers) (remoteStatic : Bytes) :
    KnownPeers.PinsFirst label remoteStatic store (storeAfter config store remoteStatic) := by
  unfold storeAfter
  rw [hlabel]
  by_cases hfirst : store.isKnown label = false ∧ config.require = false
  · exact .inr ⟨KnownPeers.isKnown_eq_false_iff.mp hfirst.1, if_pos hfirst⟩
  · exact .inl (if_neg hfirst)

/-- The gate leaves the store alone or does what `_authenticate_peer` does. -/
theorem store_gate (env : Env) (attempt : Attempt Key T) (world : World Key T) :
    (((attempt.gate env).run world).2.knownPeers = world.knownPeers) ∨
      ∃ peer, attempt.handshake = .ok peer ∧ ((attempt.gate env).run world).2.knownPeers =
        storeAfter attempt.config world.knownPeers peer.result.remoteStatic := by
  unfold Attempt.gate
  cases hhandshake : attempt.handshake with
  | error exc => exact .inl rfl
  | ok peer =>
      have hout := authenticate_outcome env attempt.config attempt.clock peer world
      rw [Imp.run_ofExcept_ok_bind, Imp.run_bind]
      generalize (authenticate env attempt.config attempt.clock peer).run world = r at hout
      cases hout with
      | keyRefused => exact .inl rfl
      | certificateRefused => exact .inr ⟨peer, rfl, rfl⟩
      | unverified => exact .inl rfl
      | admitted => exact .inr ⟨peer, rfl, rfl⟩

/-- Settling leaves the store alone. -/
theorem store_settle (attempt : Attempt Key T)
    (outcome : Except PyError (SecureChannel Key T)) (world : World Key T) :
    ((attempt.settle outcome).run world).2.knownPeers = world.knownPeers := by
  unfold Attempt.settle
  cases attempt.path with
  | connect tls => cases outcome <;> rfl
  | serve remoteAddress handler =>
      have hreject : ∀ exc world', ((rejectClient remoteAddress exc).run world' :
          Except PyError Unit × World Key T).2.knownPeers = world'.knownPeers := by
        intro exc world'
        obtain ⟨result, closes, log, hrun⟩ := run_rejectClient remoteAddress exc world'
        rw [hrun]
      cases outcome with
      | error exc => exact hreject exc world
      | ok channel =>
          show ((tryCatch (callHandler handler channel) (rejectClient remoteAddress)).run
            world).2.knownPeers = _
          rw [Imp.run_tryCatch, callHandler, Imp.run_bind_of_ok (Imp.run_modify _ world),
            Imp.run_ofExcept]
          cases handler channel with
          | error exc => exact hreject exc _
          | ok u => rfl

/-- **One event** leaves the store alone or, for the label it is about, writes
a pin that was not there. -/
theorem store_step (env : Env) (s : Races Key T ι) (event : RaceEvent Key T ι) :
    (step env s event).store = s.store ∨ ∃ label publicKey, labelOf s event = some label ∧
      KnownPeers.PinsFirst label publicKey s.store (step env s event).store := by
  cases event with
  | begin task attempt =>
      refine .inl ?_
      simp only [step, store]
      split <;> rfl
  | resume task =>
      simp only [step, store, labelOf]
      cases s.tasks task with
      | idle => exact .inl rfl
      | opening attempt =>
          refine .inl ?_
          simp only [resume]
          split <;> rfl
      | handshaking attempt =>
          obtain hsame | ⟨peer, -, hstore⟩ := store_gate env attempt s.world
          · exact .inl hsame
          · cases hlabel : attempt.config.pinLabel with
            | none =>
                refine .inl ?_
                simp only [resume, hstore, storeAfter, hlabel]
            | some label =>
                refine .inr ⟨label, peer.result.remoteStatic, hlabel, ?_⟩
                simp only [resume, hstore]
                exact pinsFirst_storeAfter hlabel _ _
      | ending attempt outcome => exact .inl (store_settle attempt outcome s.world)
      | finished => exact .inl rfl
  | trustOrVerify label publicKey =>
      refine .inr ⟨label, publicKey, rfl, ?_⟩
      simp only [step, store, onKnownPeers, Imp.run_onField]
      obtain ⟨exc, hrun⟩ | ⟨hrun, -⟩ | ⟨hrun, hfree, -⟩ :=
        KnownPeers.trustOrVerify_cases env.sha256 label publicKey s.world.knownPeers
      · rw [hrun]
        exact .inl rfl
      · rw [hrun]
        exact .inl rfl
      · rw [hrun]
        exact .inr ⟨hfree, rfl⟩

/-- A pin survives an event. -/
theorem pinned_step {env : Env} {s : Races Key T ι} {label : Str} {key : Bytes}
    (h : s.store.pinned label = some key) (event : RaceEvent Key T ι) :
    (step env s event).store.pinned label = some key := by
  obtain hsame | ⟨label', publicKey, -, hfirst⟩ := store_step env s event
  · rwa [hsame]
  · exact hfirst.pinned_of_pinned h

/-- A pin survives a run. -/
theorem pinned_run {env : Env} {s : Races Key T ι} {label : Str} {key : Bytes}
    (h : s.store.pinned label = some key) (events : List (RaceEvent Key T ι)) :
    (run env s events).store.pinned label = some key := by
  induction events generalizing s with
  | nil => exact h
  | cons event events ih => exact ih (pinned_step h event)

/-- An event does not touch the pins of other labels. -/
theorem pinned_step_of_ne (env : Env) (s : Races Key T ι) (event : RaceEvent Key T ι)
    {label : Str} (h : labelOf s event ≠ some label) :
    (step env s event).store.pinned label = s.store.pinned label := by
  obtain hsame | ⟨label', publicKey, hlabel, hfirst⟩ := store_step env s event
  · rw [hsame]
  · refine hfirst.pinned_of_ne fun heq => h ?_
    rw [hlabel, heq]

/-- **Who passes holds the pin**: after an event whose check passes for a label
and a key, the label is pinned to no other key. -/
theorem Passes.pinned_eq {env : Env} {s : Races Key T ι} {event : RaceEvent Key T ι} {label : Str}
    {publicKey pinned : Bytes} (h : Passes env s event label publicKey)
    (hpinned : (step env s event).store.pinned label = some pinned) : pinned = publicKey := by
  cases h with
  | @attempt task attempt peer label verified htask hhandshake hlabel hrevoked hpasses =>
      have hkey : AcceptsKey attempt.config s.store peer.result.remoteStatic := by
        have hout := authenticatePeer_outcome env attempt.config peer.result.remoteStatic s.world
          peer.remoteStatic_length (enforceNotRevoked_eq_ok_iff.mp hrevoked)
        generalize (authenticatePeer env attempt.config peer.result.remoteStatic).run s.world = r
          at hout hpasses
        cases hout with
        | refused => cases hpasses
        | returned verified log hkey _ => exact hkey
      have hfirst : KnownPeers.PinsFirst label peer.result.remoteStatic s.store
          (step env s (.resume task)).store := by
        simp only [step, store, htask, resume]
        obtain hsame | ⟨peer', hpeer', hstore⟩ := store_gate env attempt s.world
        · exact .inl hsame
        · obtain rfl := Except.ok.inj (hhandshake.symm.trans hpeer')
          rw [hstore]
          exact pinsFirst_storeAfter hlabel _ _
      obtain hsame | ⟨-, hinsert⟩ := hfirst
      · rw [hsame] at hpinned
        exact hkey.pinned label hlabel pinned hpinned
      · rw [hinsert, KnownPeers.pinned_insert, if_pos rfl] at hpinned
        exact (Option.some.inj hpinned).symm
  | @call label publicKey first hpasses =>
      obtain ⟨exc, hrun⟩ | ⟨hrun, hkey⟩ | ⟨hrun, -⟩ :=
        KnownPeers.trustOrVerify_cases env.sha256 label publicKey s.store
      · rw [hrun] at hpasses
        cases hpasses
      · simp only [step, store, onKnownPeers, Imp.run_onField] at hpinned hrun hkey
        rw [hrun, hkey] at hpinned
        exact (Option.some.inj hpinned).symm
      · simp only [step, store, onKnownPeers, Imp.run_onField] at hpinned hrun
        rw [hrun, KnownPeers.pinned_insert, if_pos rfl] at hpinned
        exact (Option.some.inj hpinned).symm

/-- `_authenticate_peer`, with require off and no expected key, goes as
`trust_or_verify`. -/
theorem authenticatePeer_eq_trustOrVerify (env : Env) {config : Config} {label : Str}
    (hlabel : config.pinLabel = some label) (hrequire : config.require = false)
    (hexpected : config.expectedPeerKey = none) (remoteStatic : Bytes) (world : World Key T) :
    let r := (authenticatePeer env config remoteStatic).run world
    let r' := (KnownPeers.trustOrVerify env.sha256 label remoteStatic).run world.knownPeers
    r.2.knownPeers = r'.2 ∧ ∀ exc, r.1 = .error exc ↔ r'.1 = .error exc := by
  intro r r'
  simp only [r, r', authenticatePeer, matchExpectedKey, matchKnownPeers, hlabel, hexpected, matchPin,
    hrequire, KnownPeers.trustOrVerify, Imp.run_bind, Imp.run_pure, Imp.run_get, Imp.run_ite,
    Imp.run_ofExcept]
  by_cases hknown : world.knownPeers.isKnown label = true
  · rw [if_pos hknown, if_pos hknown]
    cases world.knownPeers.verify env.sha256 label remoteStatic with
    | error exc => exact ⟨rfl, fun _ => Iff.rfl⟩
    | ok u => exact ⟨rfl, by simp [emitLog]⟩
  · rw [if_neg hknown, if_neg hknown, if_pos trivial]
    simp only [onKnownPeers, Imp.run_onField]
    generalize (KnownPeers.pin label remoteStatic).run world.knownPeers = p
    obtain ⟨result, store⟩ := p
    cases result with
    | error exc => exact ⟨rfl, fun _ => Iff.rfl⟩
    | ok u => exact ⟨rfl, by simp [emitLog]⟩

/-- **Pins are stable.**  Take any run of overlapping attempts and direct calls
of `trust_or_verify` on any store, and any event in it.  What was pinned
before the event is pinned, to the same key, at the end.  If the event's check
passes and its label is then pinned, it was made with the pinned key, which
is still pinned at the end.  The event touches no label but its own.  And
`_authenticate_peer`, with require off and no expected key, refuses and stores
what `trust_or_verify` does. -/
theorem pins_stable (env : Env) (s : Races Key T ι) (before after : List (RaceEvent Key T ι))
    (event : RaceEvent Key T ι) :
    let s₁ := run env s before
    let s₂ := step env s₁ event
    let s₃ := run env s (before ++ event :: after)
    (∀ label key, s₁.store.pinned label = some key → s₃.store.pinned label = some key) ∧
    (∀ label publicKey, Passes env s₁ event label publicKey →
      ∀ pinned, s₂.store.pinned label = some pinned →
        pinned = publicKey ∧ s₃.store.pinned label = some publicKey) ∧
    (∀ label, labelOf s₁ event ≠ some label → s₂.store.pinned label = s₁.store.pinned label) ∧
    ∀ (config : Config) (label : Str) (publicKey : Bytes) (world : World Key T),
      config.pinLabel = some label → config.require = false → config.expectedPeerKey = none →
      let r := (authenticatePeer env config publicKey).run world
      let r' := (KnownPeers.trustOrVerify env.sha256 label publicKey).run world.knownPeers
      r.2.knownPeers = r'.2 ∧ ∀ exc, r.1 = .error exc ↔ r'.1 = .error exc := by
  intro s₁ s₂ s₃
  have hend : s₃ = run env s₂ after := by
    simp only [s₃, s₂, s₁, run, List.foldl_append, List.foldl_cons]
  refine ⟨fun label key h => ?_, fun label publicKey hpasses pinned hpinned => ?_,
    fun label h => pinned_step_of_ne env s₁ event h,
    fun config label publicKey world hlabel hrequire hexpected =>
      authenticatePeer_eq_trustOrVerify env hlabel hrequire hexpected publicKey world⟩
  · rw [hend]
    exact pinned_run (pinned_step h event) after
  · have heq := hpasses.pinned_eq hpinned
    rw [hend]
    exact ⟨heq, pinned_run (heq ▸ hpinned) after⟩

/-- Two clients race for one label: both wait for their handshake, the first
to get it is pinned, and the other is refused. -/
theorem pins_stable_race :
    let env := exampleEnv (fun _ => .ok .null) (SignatureScheme.stamp 64)
    let label := Str.ofString "alice"
    let config : Config := ⟨true, some label, none, false, none, none, none, false, none⟩
    let window : ReplayWindow := ⟨1, 1, -1, 0, by decide, rfl⟩
    let policy : RekeyPolicy ℤ := ⟨1, 900, fun _ => 0, 1, 0, 0, by decide, by decide⟩
    let peer (n : UInt8) : Peer Nat := ⟨{ (examplePeer []).result with
      remoteStatic := List.replicate 32 n }, [], by simp [X25519_KEY_LEN]⟩
    let client (n : UInt8) : Attempt Nat ℤ :=
      ⟨.connect ⟨none, none, none⟩, config, 1500, .ok (peer n), window, policy⟩
    let s : Races Nat ℤ Bool := ⟨⟨KnownPeers.empty, [], [], []⟩, fun _ => .idle⟩
    let before := [.begin true (client 5), .begin false (client 6), .resume true, .resume false]
    let after := [.resume false, .trustOrVerify label (List.replicate 32 6), .resume false]
    (run env s before).store.pinned label = none ∧
      (run env s (before ++ .resume true :: after)).store.pinned label =
        some (List.replicate 32 5) := by
  intro env label config window policy peer client s before after
  have hfirst : ((authenticatePeer env config (peer 5).result.remoteStatic).run
      (run env s before).world).1 = .ok false := by decide +kernel
  have hpasses : Passes env (run env s before) (.resume true) label (peer 5).result.remoteStatic :=
    .attempt rfl rfl rfl rfl hfirst
  have hstable := (pins_stable env s before after (.resume true)).2.1 label _ hpasses
    (List.replicate 32 5) (by decide +kernel)
  exact ⟨by decide +kernel, hstable.2⟩

end Races

end SecureWs
