import SecureWs.Races
import SecureWs.Durability

/-!
# SecureWs.Revocation

Revocation lists that change while connection attempts wait.

* `Revocations` adds to the tasks of `Races` the lists that their configurations
  refer to, and calls of `revoke_key` and `revoke_subject` between their steps;
  a task looks at its list when it runs, not when it began;
* `Peer.names` is what a list can name a peer by (`admits_revocation_iff`);
* `revocation_takes_effect`: what is revoked before a task leaves its handshake
  counts, and nothing else does.
-/

namespace SecureWs

open Python World

variable {Key T : Type} [Zero T] [LE T] {ι ρ : Type} [DecidableEq ι] [DecidableEq ρ]

/-! ## What a list says of a peer -/

namespace RevocationList

/-- What a call asks to revoke. -/
def Call.item : Call → Bytes ⊕ Str
  | .revokeKey publicKey => .inl publicKey
  | .revokeSubject subject => .inr subject

/-- What can be revoked: any subject, and a key of the right length. -/
def Revocable : Bytes ⊕ Str → Prop
  | .inl publicKey => publicKey.length = X25519_KEY_LEN
  | .inr _ => True

@[simp] theorem inl_mem_facts {self : RevocationList} {publicKey : Bytes} :
    .inl publicKey ∈ self.facts ↔ publicKey ∈ self.keys := decide_eq_true_iff

@[simp] theorem inr_mem_facts {self : RevocationList} {subject : Str} :
    .inr subject ∈ self.facts ↔ subject ∈ self.subjects := decide_eq_true_iff

/-- A call revokes what it is asked to, and nothing else. -/
theorem mem_facts_call {self : RevocationList} {event : Call} {item : Bytes ⊕ Str}
    (hitem : Revocable item) :
    item ∈ (self.call event).2.facts ↔ item ∈ self.facts ∨ event.item = item := by
  cases event with
  | revokeSubject subject =>
      have hcall : (self.call (.revokeSubject subject)).2 =
          { self with subjects := insert subject self.subjects } := rfl
      rw [hcall]
      cases item with
      | inl key => simp [Call.item]
      | inr other => simp [Call.item, or_comm, eq_comm]
  | revokeKey publicKey =>
      by_cases hkey : publicKey.length = X25519_KEY_LEN
      · have hcall : (self.call (.revokeKey publicKey)).2 =
            { self with keys := insert publicKey self.keys } :=
          congrArg Prod.snd (run_revokeKey hkey self)
        rw [hcall]
        cases item with
        | inl key => simp [Call.item, or_comm, eq_comm]
        | inr subject => simp [Call.item]
      · obtain ⟨exc, hrun⟩ := run_revokeKey_of_length_ne hkey self
        have hcall : (self.call (.revokeKey publicKey)).2 = self := congrArg Prod.snd hrun
        have hne : Call.item (.revokeKey publicKey) ≠ item := by
          rintro rfl
          exact hkey hitem
        rw [hcall, or_iff_left hne]

end RevocationList

/-- What a revocation list can name a peer by: its static key and, where a
certificate is asked for, the subject of its certificate. -/
def Peer.names (env : Env) (config : Config) (peer : Peer Key) : Set (Bytes ⊕ Str) :=
  {item | item = .inl peer.result.remoteStatic ∨ config.trustedIssuer.isSome = true ∧
    ∃ cert, IdentityCertificate.fromBytes env peer.certBytes = .ok cert ∧
      item = .inr cert.subject}

theorem Peer.revocable_of_mem_names {env : Env} {config : Config} {peer : Peer Key}
    {item : Bytes ⊕ Str} (h : item ∈ peer.names env config) : RevocationList.Revocable item := by
  obtain rfl | ⟨-, cert, -, rfl⟩ := h
  · exact peer.remoteStatic_length
  · trivial

/-- The same configuration, with another value of `revocation`. -/
def Config.under (config : Config) (revocation : Option RevocationList) : Config :=
  { config with revocation := revocation }

/-- Under a list, just those are admitted that are admitted under none and that
the list does not name. -/
theorem admits_revocation_iff {env : Env} {config : Config} {revocation : Option RevocationList}
    {clock : ℚ} {store : KnownPeers} {peer : Peer Key} :
    Admits env (config.under revocation) clock store peer ↔
      Admits env (config.under none) clock store peer ∧
        ∀ list, revocation = some list → ∀ item ∈ peer.names env config, item ∉ list.facts := by
  constructor
  · intro h
    refine ⟨⟨⟨by simp [Config.under], h.key.expected, h.key.pinned⟩, ?_, h.authenticated⟩, ?_⟩
    · intro trustedIssuer hissuer
      obtain ⟨cert, hcert⟩ := h.certificate trustedIssuer hissuer
      have hverified := hcert.verified
      exact ⟨cert, hcert.presented, hcert.parses,
        { hverified with not_revoked := by simp [Config.under] }, hcert.key_eq, hcert.subject_eq⟩
    · intro list hlist item hitem hfacts
      obtain rfl | ⟨hissuer, cert, hparses, rfl⟩ := hitem
      · have hopen := h.key.not_revoked list hlist
        exact of_decide_eq_false hopen (RevocationList.inl_mem_facts.mp hfacts)
      · obtain ⟨trustedIssuer, hissuer⟩ := Option.isSome_iff_exists.mp hissuer
        obtain ⟨cert', hcert⟩ := h.certificate trustedIssuer hissuer
        obtain rfl := Except.ok.inj (hcert.parses.symm.trans hparses)
        have hopen := hcert.verified.not_revoked list hlist
        rw [RevocationList.isRevoked, Bool.or_eq_false_iff] at hopen
        exact of_decide_eq_false hopen.2 (RevocationList.inr_mem_facts.mp hfacts)
  · intro hboth
    obtain ⟨h, hunnamed⟩ := hboth
    have hopen : ∀ list, revocation = some list →
        list.isRevokedKey peer.result.remoteStatic = false := by
      intro list hlist
      exact decide_eq_false (hunnamed list hlist _ (.inl rfl) ∘ RevocationList.inl_mem_facts.mpr)
    refine ⟨⟨hopen, h.key.expected, h.key.pinned⟩, ?_, h.authenticated⟩
    intro trustedIssuer hissuer
    obtain ⟨cert, hcert⟩ := h.certificate trustedIssuer hissuer
    have hverified := hcert.verified
    refine ⟨cert, hcert.presented, hcert.parses, { hverified with not_revoked := ?_ },
      hcert.key_eq, hcert.subject_eq⟩
    intro list hlist
    have hsubject := hunnamed list hlist (.inr cert.subject)
      (.inr ⟨Option.isSome_iff_exists.mpr ⟨trustedIssuer, hissuer⟩, cert, hcert.parses, rfl⟩)
    rw [RevocationList.isRevoked, hcert.key_eq, hopen list hlist, Bool.false_or]
    exact decide_eq_false (hsubject ∘ RevocationList.inr_mem_facts.mpr)

/-! ## The gate under a list -/

/-- The store after the checks: the key is pinned on first use where it is
acceptable. -/
theorem knownPeers_authenticate (env : Env) (config : Config) (clock : ℚ) (peer : Peer Key)
    (world : World Key T) :
    (AcceptsKey config world.knownPeers peer.result.remoteStatic →
      ((authenticate env config clock peer).run world).2.knownPeers =
        storeAfter config world.knownPeers peer.result.remoteStatic) ∧
    (¬AcceptsKey config world.knownPeers peer.result.remoteStatic →
      ((authenticate env config clock peer).run world).2.knownPeers = world.knownPeers) := by
  have hout := authenticate_outcome env config clock peer world
  generalize (authenticate env config clock peer).run world = r at hout
  cases hout with
  | keyRefused exc log h => exact ⟨fun hkey => absurd hkey h, fun _ => rfl⟩
  | certificateRefused exc log hkey h => exact ⟨fun _ => rfl, fun h => absurd hkey h⟩
  | admitted log h => exact ⟨fun _ => rfl, fun hkey => absurd h.key hkey⟩
  | unverified exc log hcert hrequire h =>
      have hunused : ∀ label, ¬FirstUse config world.knownPeers label := by
        intro label huse
        simp [huse.optional] at hrequire
      exact ⟨fun _ => (storeAfter_of_not_firstUse hunused _).symm, fun _ => rfl⟩

namespace Attempt

/-- The same attempt, with another value of `revocation`. -/
def under (attempt : Attempt Key T) (revocation : Option RevocationList) : Attempt Key T :=
  { attempt with config := attempt.config.under revocation }

variable (env : Env) (attempt : Attempt Key T) {peer : Peer Key} (world : World Key T)

/-- The gate opens to the peers that the configuration admits. -/
theorem gate_isOk_iff (hhandshake : attempt.handshake = .ok peer) :
    (((attempt.gate env).run world).1.isOk = true) ↔
      Admits env attempt.config attempt.clock world.knownPeers peer := by
  rw [← authenticate_eq_ok_iff, gate, hhandshake, Imp.run_ofExcept_ok_bind, Imp.run_bind]
  generalize (authenticate env attempt.config attempt.clock peer).run world = r
  obtain ⟨result, world'⟩ := r
  cases result with
  | ok u => simp [Except.isOk, Except.toBool]
  | error exc => simp [Except.isOk, Except.toBool]

theorem knownPeers_gate (hhandshake : attempt.handshake = .ok peer) :
    ((attempt.gate env).run world).2.knownPeers =
      ((authenticate env attempt.config attempt.clock peer).run world).2.knownPeers := by
  rw [gate, hhandshake, Imp.run_ofExcept_ok_bind, Imp.run_bind]
  generalize (authenticate env attempt.config attempt.clock peer).run world = r
  obtain ⟨result, world'⟩ := r
  cases result with
  | ok u => rfl
  | error exc => rfl

/-- The gate under a list. -/
theorem gate_under_isOk_iff (hhandshake : attempt.handshake = .ok peer)
    {revocation : Option RevocationList} :
    ((((attempt.under revocation).gate env).run world).1.isOk = true) ↔
      (((attempt.under none).gate env).run world).1.isOk = true ∧
        ∀ list, revocation = some list →
          ∀ item ∈ peer.names env attempt.config, item ∉ list.facts := by
  rw [gate_isOk_iff env (attempt.under revocation) world hhandshake,
    gate_isOk_iff env (attempt.under none) world hhandshake]
  exact admits_revocation_iff

/-- A key on the list is not pinned. -/
theorem knownPeers_gate_of_revoked (hhandshake : attempt.handshake = .ok peer)
    {list : RevocationList} (hrevoked : list.isRevokedKey peer.result.remoteStatic = true) :
    (((attempt.under (some list)).gate env).run world).2.knownPeers = world.knownPeers := by
  rw [knownPeers_gate env (attempt.under (some list)) world hhandshake]
  refine (knownPeers_authenticate env _ _ peer world).2 fun hkey => ?_
  have hopen := hkey.not_revoked list rfl
  rw [hrevoked] at hopen
  contradiction

/-- For any other key the store goes as without a list. -/
theorem knownPeers_gate_of_not_revoked (hhandshake : attempt.handshake = .ok peer)
    {revocation : Option RevocationList}
    (hopen : ∀ list, revocation = some list →
      list.isRevokedKey peer.result.remoteStatic = false) :
    (((attempt.under revocation).gate env).run world).2.knownPeers =
      (((attempt.under none).gate env).run world).2.knownPeers := by
  rw [knownPeers_gate env (attempt.under revocation) world hhandshake,
    knownPeers_gate env (attempt.under none) world hhandshake]
  have hkey : AcceptsKey (attempt.config.under revocation) world.knownPeers
      peer.result.remoteStatic ↔
      AcceptsKey (attempt.config.under none) world.knownPeers peer.result.remoteStatic :=
    ⟨fun h => ⟨by simp [Config.under], h.expected, h.pinned⟩,
      fun h => ⟨hopen, h.expected, h.pinned⟩⟩
  obtain ⟨haccepted, hrefused⟩ := knownPeers_authenticate env (attempt.config.under revocation)
    attempt.clock peer world
  obtain ⟨haccepted', hrefused'⟩ := knownPeers_authenticate env (attempt.config.under none)
    attempt.clock peer world
  by_cases h : AcceptsKey (attempt.config.under none) world.knownPeers peer.result.remoteStatic
  · exact (haccepted (hkey.mpr h)).trans (haccepted' h).symm
  · exact (hrefused (mt hkey.mp h)).trans (hrefused' h).symm

end Attempt

/-! ## Lists that change -/

/-- A waiting attempt, which sees that list now. -/
def Phase.under (phase : Phase Key T) (revocation : Option RevocationList) : Phase Key T :=
  match phase with
  | .opening attempt => .opening (attempt.under revocation)
  | .handshaking attempt => .handshaking (attempt.under revocation)
  | .ending attempt outcome => .ending (attempt.under revocation) outcome
  | phase => phase

/-- The races, and the `RevocationList` objects of the program. -/
structure Revocations (Key T ι ρ : Type) [Zero T] [LE T] where
  races : Races Key T ι
  lists : ρ → RevocationList

/-- What happens: an event of the races, or a call of `revoke_key` or
`revoke_subject` on a list. -/
inductive RevocationEvent (Key T ι ρ : Type) [Zero T] [LE T] where
  | race (event : RaceEvent Key T ι)
  | call (list : ρ) (event : RevocationList.Call)

namespace Revocations

variable (env : Env) (listOf : ι → Option ρ)

/-- What the tasks see: the list that a task's `revocation` argument refers to, as it
is now. -/
def current (s : Revocations Key T ι ρ) : Races Key T ι :=
  { s.races with tasks := fun task => (s.races.tasks task).under ((listOf task).map s.lists) }

def step (s : Revocations Key T ι ρ) : RevocationEvent Key T ι ρ → Revocations Key T ι ρ
  | .race event => { s with races := Races.step env (s.current listOf) event }
  | .call list event =>
      { s with lists := Function.update s.lists list ((s.lists list).call event).2 }

def run (s : Revocations Key T ι ρ) (events : List (RevocationEvent Key T ι ρ)) :
    Revocations Key T ι ρ :=
  events.foldl (step env listOf) s

/-- What is revoked on the list of a task, from the start or by a call. -/
def Revoked (s : Revocations Key T ι ρ) (events : List (RevocationEvent Key T ι ρ)) (task : ι)
    (item : Bytes ⊕ Str) : Prop :=
  ∃ list, listOf task = some list ∧ (item ∈ (s.lists list).facts ∨
    ∃ event : RevocationList.Call, .call list event ∈ events ∧ event.item = item)

/-- The task has let its peer through: it is on to hand the channel on. -/
def LetThrough (s : Revocations Key T ι ρ) (task : ι) : Prop :=
  ∃ attempt channel, s.races.tasks task = .ending attempt (.ok channel)

/-- One event: a list grows by what it is asked to revoke. -/
theorem mem_facts_step {s : Revocations Key T ι ρ} {event : RevocationEvent Key T ι ρ} {list : ρ}
    {item : Bytes ⊕ Str} (hitem : RevocationList.Revocable item) :
    item ∈ ((step env listOf s event).lists list).facts ↔ item ∈ (s.lists list).facts ∨
      ∃ call : RevocationList.Call, .call list call = event ∧ call.item = item := by
  cases event with
  | race event => simp [step]
  | call other call =>
      by_cases hlist : list = other
      · subst hlist
        simp [step, RevocationList.mem_facts_call hitem]
      · have hcall : ∀ call' : RevocationList.Call,
            (RevocationEvent.call list call' : RevocationEvent Key T ι ρ) ≠ .call other call := by
          simp [hlist]
        simp [step, Function.update_of_ne hlist, hcall]

/-- A run: a list holds what it held, and what it was asked to revoke. -/
theorem mem_facts_run {s : Revocations Key T ι ρ} {events : List (RevocationEvent Key T ι ρ)}
    {list : ρ} {item : Bytes ⊕ Str} (hitem : RevocationList.Revocable item) :
    item ∈ ((run env listOf s events).lists list).facts ↔ item ∈ (s.lists list).facts ∨
      ∃ call : RevocationList.Call, .call list call ∈ events ∧ call.item = item := by
  induction events generalizing s with
  | nil => simp [run]
  | cons event events ih =>
      have hrest : item ∈ ((run env listOf s (event :: events)).lists list).facts ↔ _ :=
        @ih (step env listOf s event)
      rw [hrest, mem_facts_step env listOf hitem, or_assoc]
      refine or_congr_right ?_
      simp only [List.mem_cons, or_and_right, exists_or]

/-- A list names a peer just when something of it was revoked. -/
theorem unnamed_iff {s : Revocations Key T ι ρ} {events : List (RevocationEvent Key T ι ρ)}
    {task : ι} {items : Set (Bytes ⊕ Str)} (hitems : ∀ item ∈ items, RevocationList.Revocable item) :
    (∀ list, (listOf task).map (run env listOf s events).lists = some list →
      ∀ item ∈ items, item ∉ list.facts) ↔
    ∀ item ∈ items, ¬Revoked listOf s events task item := by
  simp only [Option.map_eq_some_iff, forall_exists_index, and_imp, Revoked, not_exists, not_and]
  constructor
  · intro h item hitem list hlist hrevoked
    exact h _ list hlist rfl item hitem
      ((mem_facts_run env listOf (hitems item hitem)).mpr hrevoked)
  · intro h _ list hlist hlists item hitem hfacts
    subst hlists
    exact h item hitem list hlist ((mem_facts_run env listOf (hitems item hitem)).mp hfacts)

/-- A task leaves its handshake by the gate, under its list as it is now. -/
theorem step_resume {s : Revocations Key T ι ρ} {task : ι} {attempt : Attempt Key T}
    (hwaits : s.races.tasks task = .handshaking attempt) :
    let gate := ((attempt.under ((listOf task).map s.lists)).gate env).run s.races.world
    ((step env listOf s (.race (.resume task))).LetThrough task ↔ gate.1.isOk = true) ∧
      (step env listOf s (.race (.resume task))).races.store = gate.2.knownPeers := by
  intro gate
  have hsees : (s.current listOf).tasks task =
      .handshaking (attempt.under ((listOf task).map s.lists)) := by
    simp only [current, hwaits, Phase.under]
  have hstep : (step env listOf s (.race (.resume task))).races =
      ⟨gate.2, Function.update (s.current listOf).tasks task
        (.ending (attempt.under ((listOf task).map s.lists)) gate.1)⟩ := by
    simp only [step, Races.step, hsees, Races.resume]
    rfl
  refine ⟨?_, by rw [hstep]; rfl⟩
  unfold LetThrough
  rw [hstep]
  simp only [Function.update_self]
  cases gate.1 with
  | ok channel => simp [Except.isOk, Except.toBool]
  | error exc => simp [Except.isOk, Except.toBool]

/-- **Revocation takes effect at once.**  Take any run of overlapping attempts,
with calls of `revoke_key` and `revoke_subject` between their steps, on lists
that tasks share as they like.  A task that leaves its handshake lets the peer
through exactly if it would without a list and nothing that the peer is named by
has been revoked on its list, before the attempt began or since.  A revoked key is
not pinned; a key that is not revoked is pinned just when it would be without a
list. -/
theorem revocation_takes_effect (env : Env) (listOf : ι → Option ρ) (s : Revocations Key T ι ρ)
    (events : List (RevocationEvent Key T ι ρ)) {task : ι} {attempt : Attempt Key T}
    {peer : Peer Key}
    (hwaits : (run env listOf s events).races.tasks task = .handshaking attempt)
    (hhandshake : attempt.handshake = .ok peer) :
    let s₁ := run env listOf s events
    let s₂ := step env listOf s₁ (.race (.resume task))
    let unlisted := ((attempt.under none).gate env).run s₁.races.world
    (s₂.LetThrough task ↔ unlisted.1.isOk = true ∧
      ∀ item ∈ peer.names env attempt.config, ¬Revoked listOf s events task item) ∧
    (Revoked listOf s events task (.inl peer.result.remoteStatic) →
      s₂.races.store = s₁.races.store) ∧
    (¬Revoked listOf s events task (.inl peer.result.remoteStatic) →
      s₂.races.store = unlisted.2.knownPeers) := by
  intro s₁ s₂ unlisted
  obtain ⟨hthrough, hstore⟩ := step_resume env listOf hwaits
  have hkey : RevocationList.Revocable (.inl peer.result.remoteStatic) := peer.remoteStatic_length
  refine ⟨?_, fun hrevoked => ?_, fun hopen => ?_⟩
  · rw [hthrough, Attempt.gate_under_isOk_iff env attempt _ hhandshake]
    exact and_congr_right fun _ =>
      unnamed_iff env listOf fun item => Peer.revocable_of_mem_names
  · obtain ⟨list, hlist, hrevoked⟩ := hrevoked
    have hfacts := (mem_facts_run env listOf hkey).mpr hrevoked
    rw [hstore, hlist]
    exact Attempt.knownPeers_gate_of_revoked env attempt _ hhandshake hfacts
  · rw [hstore]
    refine Attempt.knownPeers_gate_of_not_revoked env attempt _ hhandshake fun list' hlist' => ?_
    obtain ⟨list, hlist, rfl⟩ := Option.map_eq_some_iff.mp hlist'
    refine decide_eq_false fun hrevoked => hopen ⟨list, hlist, ?_⟩
    exact (mem_facts_run env listOf hkey).mp (RevocationList.inl_mem_facts.mpr hrevoked)

/-- A key is revoked while its handshake is under way: it is refused and not
pinned, where it would be let through without the list. -/
theorem revocation_takes_effect_race :
    let env := exampleEnv (fun _ => .ok .null) (SignatureScheme.stamp 64)
    let config : Config :=
      ⟨true, some (Str.ofString "alice"), none, false, none, none, none, false, none⟩
    let window : ReplayWindow := ⟨2, 3, -1, 0, by decide, rfl⟩
    let policy : RekeyPolicy ℤ := ⟨2, 900, fun _ => 0, 1, 0, 0, by decide, by decide⟩
    let client : Attempt Nat ℤ :=
      ⟨.connect ⟨none, none, none⟩, config, 1500, .ok (examplePeer []), window, policy⟩
    let s : Revocations Nat ℤ Bool Bool :=
      ⟨⟨⟨KnownPeers.empty, [], [], []⟩, fun _ => .idle⟩, fun _ => ⟨∅, ∅⟩⟩
    let s₁ := run env some s [.race (.begin true client), .race (.resume true),
      .call true (.revokeKey (List.replicate 32 5))]
    let s₂ := step env some s₁ (.race (.resume true))
    (((client.under none).gate env).run s₁.races.world).1.isOk = true ∧ ¬s₂.LetThrough true ∧
      s₂.races.store = s₁.races.store := by
  intro env config window policy client s s₁ s₂
  have hwaits : s₁.races.tasks true = .handshaking (client.under (some ⟨∅, ∅⟩)) := rfl
  obtain ⟨hthrough, hrefused, -⟩ := revocation_takes_effect env some s _ hwaits rfl
  have hrevoked : Revoked some s [.race (.begin true client), .race (.resume true),
      .call true (.revokeKey (List.replicate 32 5))] true (.inl (List.replicate 32 5)) :=
    ⟨true, rfl, .inr ⟨.revokeKey (List.replicate 32 5), by simp, rfl⟩⟩
  exact ⟨by decide +kernel, fun h => (hthrough.mp h).2 _ (.inl rfl) hrevoked, hrefused hrevoked⟩

end Revocations

end SecureWs
