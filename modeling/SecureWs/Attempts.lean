import SecureWs.Lib.Runs
import SecureWs.Transport

/-!
# SecureWs.Attempts

Runs of connection attempts over one pin store: what a refused peer leaves
behind.

* `Outcome`: an attempt is accepted, or refused with the store as it
  was, or refused after its key was pinned;
* `LeavesPin` says from the inputs when the last happens: the key is pinned on
  first use before the certificate is looked at;
* over a run in which it never happens, new pins belong to accepted peers.
-/

namespace SecureWs

open Python

variable {Key T : Type} [Zero T] [LE T]

/-- The path of an attempt: a call of `connect`, or a connection to `serve`. -/
inductive Path (Key T : Type) [Zero T] [LE T] where
  | connect (tls : Tls)
  | serve (remoteAddress : Str) (handler : SecureChannel Key T → Except PyError Unit)

/-- One attempt, with all its inputs. -/
structure Attempt (Key T : Type) [Zero T] [LE T] where
  path : Path Key T
  config : Config
  clock : ℚ
  handshake : Except PyError (Peer Key)
  replayWindow : ReplayWindow
  rekeyPolicy : RekeyPolicy T

namespace Attempt

/-- Make the attempt: whether the peer was accepted, and the world after it.
`connect` accepts by returning, `serve` by calling the handler. -/
def run (env : Env) (attempt : Attempt Key T) (world : World Key T) : Bool × World Key T :=
  match attempt.path with
  | .connect tls =>
      let r := (connect env attempt.config tls attempt.clock attempt.handshake
        attempt.replayWindow attempt.rekeyPolicy).run world
      (r.1.isOk, r.2)
  | .serve remoteAddress handler =>
      let r := (serve env attempt.config remoteAddress attempt.clock attempt.handshake
        attempt.replayWindow attempt.rekeyPolicy handler).run world
      (decide (world.handled.length < r.2.handled.length), r.2)

def runAll (env : Env) (attempts : List (Attempt Key T)) (world : World Key T) : World Key T :=
  attempts.foldl (fun world attempt => (attempt.run env world).2) world

/-- The attempt gets as far as the handshake. -/
def Starts (env : Env) (attempt : Attempt Key T) : Prop :=
  match attempt.path with
  | .connect tls => checkConnect attempt.config tls = .ok () ∧ checkCertPin env tls = .ok ()
  | .serve _ _ => checkServe attempt.config = .ok ()

/-- The peer's key is about to be pinned on first use, and then its certificate
refused. -/
structure LeavesPin (env : Env) (attempt : Attempt Key T) (store : KnownPeers) (peer : Peer Key)
    (label : Str) : Prop where
  starts : attempt.Starts env
  handshake : attempt.handshake = .ok peer
  key : AcceptsKey attempt.config store peer.result.remoteStatic
  firstUse : FirstUse attempt.config store label
  certificate : ¬AcceptsCertificate env attempt.config attempt.clock peer.result.remoteStatic
    peer.certBytes

inductive Outcome (env : Env) (attempt : Attempt Key T) (world : World Key T) :
    Bool × World Key T → Prop
  | refused (world' : World Key T) (hstore : world'.knownPeers = world.knownPeers)
      (h : ∀ peer label, ¬attempt.LeavesPin env world.knownPeers peer label) :
      Outcome env attempt world (false, world')
  | pinned (peer : Peer Key) (label : Str) (world' : World Key T)
      (hstore : world'.knownPeers = world.knownPeers.insert label peer.result.remoteStatic)
      (h : attempt.LeavesPin env world.knownPeers peer label) :
      Outcome env attempt world (false, world')
  | accepted (peer : Peer Key) (world' : World Key T)
      (hstore : world'.knownPeers =
        storeAfter attempt.config world.knownPeers peer.result.remoteStatic)
      (handshake : attempt.handshake = .ok peer)
      (h : Admits env attempt.config attempt.clock world.knownPeers peer) :
      Outcome env attempt world (true, world')

variable {env : Env} {attempt : Attempt Key T} {world : World Key T}

/-- An attempt that reaches the checks goes as they do. -/
theorem outcome_of_authenticate {peer : Peer Key} (hstarts : attempt.Starts env)
    (hhandshake : attempt.handshake = .ok peer) {accepted : Bool} {world' : World Key T}
    (haccepted : accepted = true ↔
      ((authenticate env attempt.config attempt.clock peer).run world).1 = .ok ())
    (hstore : world'.knownPeers =
      ((authenticate env attempt.config attempt.clock peer).run world).2.knownPeers) :
    Outcome env attempt world (accepted, world') := by
  have hpeer : ∀ peer' label, attempt.LeavesPin env world.knownPeers peer' label → peer' = peer := by
    intro peer' label h
    exact Except.ok.inj (h.handshake.symm.trans hhandshake)
  have hout := authenticate_outcome env attempt.config attempt.clock peer world
  generalize (authenticate env attempt.config attempt.clock peer).run world = r
    at hout haccepted hstore
  cases hout with
  | keyRefused exc log hkey =>
      obtain rfl : accepted = false := by simpa using haccepted
      refine .refused world' hstore fun peer' label h => hkey ?_
      rw [← hpeer peer' label h]
      exact h.key
  | certificateRefused exc log hkey hcert =>
      obtain rfl : accepted = false := by simpa using haccepted
      by_cases huse : ∃ label, FirstUse attempt.config world.knownPeers label
      · obtain ⟨label, huse⟩ := huse
        refine .pinned peer label world' ?_ ⟨hstarts, hhandshake, hkey, huse, hcert⟩
        rw [hstore]
        exact storeAfter_of_firstUse huse _
      · refine .refused world' ?_ fun peer' label h => huse ⟨label, h.firstUse⟩
        rw [hstore]
        exact storeAfter_of_not_firstUse (not_exists.mp huse) _
  | unverified exc log hcert hrequire h =>
      obtain rfl : accepted = false := by simpa using haccepted
      refine .refused world' hstore fun peer' label hpin => hpin.certificate ?_
      rw [hpeer peer' label hpin]
      exact hcert
  | admitted log h =>
      obtain rfl : accepted = true := by simpa using haccepted
      exact .accepted peer world' hstore hhandshake h

/-- An attempt that does not reach the checks pins nothing. -/
theorem refused_of_not_reached (hreach : ¬(attempt.Starts env ∧ ∃ peer, attempt.handshake = .ok peer))
    {world' : World Key T} (hstore : world'.knownPeers = world.knownPeers) :
    Outcome env attempt world (false, world') :=
  .refused world' hstore fun peer _ h => hreach ⟨h.starts, peer, h.handshake⟩

/-- An attempt by `connect`. -/
theorem connect_outcome {tls : Tls} (hpath : attempt.path = .connect tls) {r}
    (hr : (connect env attempt.config tls attempt.clock attempt.handshake attempt.replayWindow
      attempt.rekeyPolicy).run world = r) :
    Outcome env attempt world (r.1.isOk, r.2) := by
  have hstarts : attempt.Starts env ↔
      checkConnect attempt.config tls = .ok () ∧ checkCertPin env tls = .ok () := by
    unfold Starts
    rw [hpath]
  cases hargs : checkConnect attempt.config tls with
  | error exc =>
      unfold connect at hr
      rw [hargs, Imp.run_ofExcept_error_bind] at hr
      subst hr
      exact refused_of_not_reached (fun hreach => by simp [hstarts, hargs] at hreach) rfl
  | ok u =>
      cases hpin : checkCertPin env tls with
      | error exc =>
          unfold connect at hr
          rw [hargs, hpin, Imp.run_ofExcept_ok_bind, Imp.run_tryCatch] at hr
          subst hr
          exact refused_of_not_reached (fun hreach => by simp [hstarts, hpin] at hreach) rfl
      | ok u =>
          cases hhandshake : attempt.handshake with
          | error exc =>
              unfold connect at hr
              rw [hargs, hpin, hhandshake, Imp.run_ofExcept_ok_bind, Imp.run_tryCatch] at hr
              subst hr
              exact refused_of_not_reached (fun hreach => by simp [hhandshake] at hreach) rfl
          | ok peer =>
              rw [hhandshake, run_connect _ _ hargs hpin] at hr
              subst hr
              apply outcome_of_authenticate (hstarts.mpr ⟨hargs, hpin⟩) hhandshake
              all_goals
                generalize (authenticate env attempt.config attempt.clock peer).run world = r
                obtain ⟨result, world'⟩ := r
                cases result with
                | ok u => simp [Except.isOk, Except.toBool]
                | error exc => simp [Except.isOk, Except.toBool]

/-- An attempt by a connection to `serve`. -/
theorem serve_outcome {remoteAddress : Str} {handler : SecureChannel Key T → Except PyError Unit}
    (hpath : attempt.path = .serve remoteAddress handler) {r}
    (hr : (serve env attempt.config remoteAddress attempt.clock attempt.handshake
      attempt.replayWindow attempt.rekeyPolicy handler).run world = r) :
    Outcome env attempt world (decide (world.handled.length < r.2.handled.length), r.2) := by
  have hstarts : attempt.Starts env ↔ checkServe attempt.config = .ok () := by
    unfold Starts
    rw [hpath]
  unfold serve at hr
  cases hargs : checkServe attempt.config with
  | error exc =>
      rw [hargs, Imp.run_ofExcept_error_bind] at hr
      subst hr
      rw [decide_eq_false (lt_irrefl _)]
      exact refused_of_not_reached (fun hreach => by simp [hstarts, hargs] at hreach) rfl
  | ok u =>
      rw [hargs, Imp.run_ofExcept_ok_bind] at hr
      cases hhandshake : attempt.handshake with
      | error exc =>
          obtain ⟨result, closes, log, hreject⟩ := run_rejectClient remoteAddress exc world
          rw [hhandshake, onConnection, Imp.run_tryCatch, Imp.run_ofExcept_error_bind] at hr
          obtain rfl := hreject.symm.trans hr
          rw [decide_eq_false (lt_irrefl _)]
          exact refused_of_not_reached (fun hreach => by simp [hhandshake] at hreach) rfl
      | ok peer =>
          have hkept := authenticate_keeps_handled env attempt.config attempt.clock peer world
          rw [hhandshake] at hr
          refine outcome_of_authenticate (hstarts.mpr hargs) hhandshake ?_ ?_
          all_goals
            cases hrun : (authenticate env attempt.config attempt.clock peer).run world with
            | mk result world' =>
                replace hkept : world'.handled = world.handled := by simpa [hrun] using hkept
                cases result with
                | ok u =>
                    obtain ⟨result, closes, log, hcall⟩ := run_onConnection_of_ok remoteAddress
                      attempt.replayWindow attempt.rekeyPolicy handler hrun
                    obtain rfl := hcall.symm.trans hr
                    simp [hkept]
                | error exc =>
                    obtain ⟨result, closes, log, hcall⟩ := run_onConnection_of_error remoteAddress
                      attempt.replayWindow attempt.rekeyPolicy handler hrun
                    obtain rfl := hcall.symm.trans hr
                    simp [hkept]

/-- The specification of an attempt. -/
theorem run_outcome (env : Env) (attempt : Attempt Key T) (world : World Key T) :
    Outcome env attempt world (attempt.run env world) := by
  unfold run
  cases hpath : attempt.path with
  | connect tls => exact connect_outcome hpath rfl
  | serve remoteAddress handler => exact serve_outcome hpath rfl

/-! ## What a refusal leaves behind -/

/-- An accepted attempt, whose peer has this key and whose label is this one. -/
def AcceptedAs (env : Env) (attempt : Attempt Key T) (world : World Key T) (label : Str)
    (key : Bytes) : Prop :=
  (attempt.run env world).1 = true ∧ attempt.config.pinLabel = some label ∧
    ∃ peer, attempt.handshake = .ok peer ∧ peer.result.remoteStatic = key

/-- A refused attempt leaves the store alone just when it does not pin first. -/
theorem refused_keeps_store_iff (env : Env) (attempt : Attempt Key T) (world : World Key T) :
    ((attempt.run env world).1 = false →
      (attempt.run env world).2.knownPeers = world.knownPeers) ↔
    ¬∃ peer label, attempt.LeavesPin env world.knownPeers peer label := by
  have hout := run_outcome env attempt world
  generalize attempt.run env world = r at hout
  cases hout with
  | refused world' hstore h =>
      refine iff_of_true (fun _ => hstore) ?_
      intro hleaves
      obtain ⟨peer, label, hpin⟩ := hleaves
      exact h peer label hpin
  | pinned peer label world' hstore h =>
      refine iff_of_false ?_ fun hnot => hnot ⟨peer, label, h⟩
      intro hkept
      have hpinned := h.firstUse.unpinned
      rw [← hkept rfl, hstore, KnownPeers.pinned_insert, if_pos rfl] at hpinned
      contradiction
  | accepted peer world' hstore hhandshake h =>
      refine iff_of_true (fun hfalse => nomatch hfalse) ?_
      intro hleaves
      obtain ⟨peer', label, hpin⟩ := hleaves
      obtain rfl := Except.ok.inj (hhandshake.symm.trans hpin.handshake)
      exact hpin.certificate h.certificate

/-- One attempt that leaves no pin behind: a new pin is the accepted peer's. -/
theorem pinned_of_step (h : ¬∃ peer label, attempt.LeavesPin env world.knownPeers peer label)
    {label : Str} {key : Bytes}
    (hpinned : (attempt.run env world).2.knownPeers.pinned label = some key) :
    world.knownPeers.pinned label = some key ∨ attempt.AcceptedAs env world label key := by
  have hout := run_outcome env attempt world
  unfold AcceptedAs
  generalize attempt.run env world = r at hout hpinned
  cases hout with
  | refused world' hstore _ =>
      rw [hstore] at hpinned
      exact .inl hpinned
  | pinned peer label' world' _ hpin => exact absurd ⟨peer, label', hpin⟩ h
  | accepted peer world' hstore hhandshake _ =>
      rw [hstore] at hpinned
      by_cases huse : ∃ label', FirstUse attempt.config world.knownPeers label'
      · obtain ⟨label', huse⟩ := huse
        rw [storeAfter_of_firstUse huse, KnownPeers.pinned_insert] at hpinned
        by_cases heq : label = label'
        · rw [if_pos heq] at hpinned
          rw [heq]
          exact .inr ⟨rfl, huse.label_eq, peer, hhandshake, Option.some.inj hpinned⟩
        · rw [if_neg heq] at hpinned
          exact .inl hpinned
      · rw [storeAfter_of_not_firstUse (not_exists.mp huse)] at hpinned
        exact .inl hpinned

/-- Over a run in which no attempt leaves a pin behind: a new pin is that of
an accepted peer. -/
theorem pinned_of_run {attempts : List (Attempt Key T)}
    (hcareful : Runs.Along (fun world (attempt : Attempt Key T) => (attempt.run env world).2)
      (fun world attempt => ¬∃ peer label, attempt.LeavesPin env world.knownPeers peer label)
      world attempts)
    {label : Str} {key : Bytes}
    (hpinned : (runAll env attempts world).knownPeers.pinned label = some key) :
    world.knownPeers.pinned label = some key ∨
      ∃ before attempt after, attempts = before ++ attempt :: after ∧
        attempt.AcceptedAs env (runAll env before world) label key := by
  induction attempts using List.reverseRecOn with
  | nil => exact .inl hpinned
  | append_singleton attempts last ih =>
      obtain ⟨hbefore, hlast⟩ := Runs.along_append_singleton.mp hcareful
      unfold runAll at hpinned
      rw [List.foldl_append] at hpinned
      obtain hpinned | haccepted := pinned_of_step hlast hpinned
      · obtain hold | ⟨before, attempt, after, hsplit, haccepted⟩ := ih hbefore hpinned
        · exact .inl hold
        · exact .inr ⟨before, attempt, after ++ [last], by rw [hsplit]; simp, haccepted⟩
      · exact .inr ⟨attempts, last, [], rfl, haccepted⟩

/-- **A refused peer leaves no trust behind** unless its key is pinned on first
use before its certificate is refused: an attempt keeps the store on a refusal
exactly when that does not happen, and over a run in which it never happens,
every new pin is the key of an accepted peer. -/
theorem new_pins_accepted (env : Env) (world : World Key T) (attempts : List (Attempt Key T)) :
    (∀ (attempt : Attempt Key T) (world : World Key T),
      ((attempt.run env world).1 = false →
        (attempt.run env world).2.knownPeers = world.knownPeers) ↔
      ¬∃ peer label, attempt.LeavesPin env world.knownPeers peer label) ∧
    ((∀ before attempt after, attempts = before ++ attempt :: after →
        ¬∃ peer label, attempt.LeavesPin env (runAll env before world).knownPeers peer label) →
      (∀ before attempt after, attempts = before ++ attempt :: after →
        (attempt.run env (runAll env before world)).1 = false →
        (runAll env (before ++ [attempt]) world).knownPeers =
          (runAll env before world).knownPeers) ∧
      ∀ label key, (runAll env attempts world).knownPeers.pinned label = some key →
        world.knownPeers.pinned label = some key ∨
        ∃ before attempt after, attempts = before ++ attempt :: after ∧
          attempt.AcceptedAs env (runAll env before world) label key) := by
  refine ⟨refused_keeps_store_iff env, fun hcareful => ⟨?_, ?_⟩⟩
  · intro before attempt after hsplit hrefused
    have hkept := (refused_keeps_store_iff env attempt _).mpr
      (hcareful before attempt after hsplit) hrefused
    unfold runAll at hkept ⊢
    rw [List.foldl_append]
    exact hkept
  · intro label key hpinned
    exact pinned_of_run hcareful hpinned

/-- No certificate is checked.  An attempt that expects another key is refused and
leaves the store as it is; then a first use is accepted, and the pin is its peer's. -/
theorem new_pins_accepted_firstUse :
    let env := exampleEnv (fun _ => .ok .null) (SignatureScheme.stamp 64)
    let label := Str.ofString "alice"
    let config : Config := ⟨true, some label, none, false, none, none, none, false, none⟩
    let window : ReplayWindow := ⟨1, 1, -1, 0, by decide, rfl⟩
    let policy : RekeyPolicy ℤ := ⟨1, 900, fun _ => 0, 1, 0, 0, by decide, by decide⟩
    let client : Attempt Nat ℤ :=
      ⟨.connect ⟨none, none, none⟩, config, 1500, .ok (examplePeer []), window, policy⟩
    let misled : Attempt Nat ℤ :=
      { client with config := { config with expectedPeerKey := some (List.replicate 32 6) } }
    let world : World Nat ℤ := ⟨KnownPeers.empty, [], [], []⟩
    (misled.run env world).1 = false ∧
      (runAll env [misled] world).knownPeers = world.knownPeers ∧
      ∃ before attempt after, [misled, client] = before ++ attempt :: after ∧
        attempt.AcceptedAs env (runAll env before world) label (List.replicate 32 5) := by
  intro env label config window policy client misled world
  have hcareful : ∀ before attempt after, [misled, client] = before ++ attempt :: after →
      ¬∃ peer label, attempt.LeavesPin env (runAll env before world).knownPeers peer label := by
    intro before attempt after hsplit hleaves
    obtain ⟨peer, label, hpin⟩ := hleaves
    have hnone : ∀ attempt ∈ [misled, client], attempt.config.trustedIssuer = none :=
      List.forall_mem_cons.mpr ⟨rfl, List.forall_mem_singleton.mpr rfl⟩
    refine hpin.certificate fun trustedIssuer hissuer => ?_
    rw [hnone attempt (by simp [hsplit])] at hissuer
    cases hissuer
  obtain ⟨hkept, hpins⟩ := (new_pins_accepted env world [misled, client]).2 hcareful
  have hrefused : (misled.run env world).1 = false := by decide +kernel
  exact ⟨hrefused, hkept [] misled [client] rfl hrefused,
    (hpins label (List.replicate 32 5) (by decide +kernel)).resolve_left (by decide +kernel)⟩

/-- A peer without a certificate, refused on both paths, and pinned. -/
theorem refused_peer_pinned :
    let env := exampleEnv (fun _ => .ok .null) (SignatureScheme.stamp 64)
    let label := Str.ofString "alice"
    let config : Config := ⟨true, some label, none, false, some (List.replicate 32 7),
      some .anySubject, none, false, none⟩
    let window : ReplayWindow := ⟨1, 1, -1, 0, by decide, rfl⟩
    let policy : RekeyPolicy ℤ := ⟨1, 900, fun _ => 0, 1, 0, 0, by decide, by decide⟩
    let client : Attempt Nat ℤ :=
      ⟨.connect ⟨none, none, none⟩, config, 1500, .ok (examplePeer []), window, policy⟩
    let server : Attempt Nat ℤ := { client with path := .serve [] fun _ => .ok () }
    let world : World Nat ℤ := ⟨KnownPeers.empty, [], [], []⟩
    world.knownPeers.pinned label = none ∧
    (client.run env world).1 = false ∧
    (client.run env world).2.knownPeers.pinned label = some (List.replicate 32 5) ∧
    (server.run env world).1 = false ∧
    (server.run env world).2.knownPeers.pinned label = some (List.replicate 32 5) := by
  decide +kernel

end Attempt

end SecureWs
