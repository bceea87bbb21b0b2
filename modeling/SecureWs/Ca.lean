import SecureWs.Lib.Json
import SecureWs.Lib.Signature
import SecureWs.Crypto

/-!
# SecureWs.Ca

The certificate authority of `ca.py`: identity certificates, their canonical
form, their verification and their issuing, and revocation lists.

* the canonical form is a newline-separated record in which the subject may
  itself hold newlines; the fields after it cannot, so the record can still
  be read back (`canonical_inj`);
* Ed25519, the parser of `json` and the clock are parameters.
-/

namespace SecureWs

open Python

def CERT_VERSION : Int := 1

def ED25519_KEY_LEN : Nat := 32

def ED25519_SIG_LEN : Nat := 64

/-- The longest integer that `str` converts, in digits. -/
def MAX_STR_DIGITS : Nat := 4300

/-- `str(n)`, with the limit on its length. -/
def strOfInt (n : Int) : Except PyError Str := do
  raiseIf (MAX_STR_DIGITS < (Nat.toDigits 10 n.natAbs).length) (.valueError [])
  return decimal n

/-- `s.encode()`. -/
def encodeStr (s : Str) : Except PyError Bytes :=
  match s.encode with
  | some bytes => .ok bytes
  | none => .error (.valueError [])

/-- No two strings share an encoding. -/
theorem encodeStr_inj {s s' : Str} {bytes : Bytes} (h : encodeStr s = .ok bytes)
    (h' : encodeStr s' = .ok bytes) : s = s' := by
  unfold encodeStr at h h'
  cases hs : s.encode with
  | none => simp [hs] at h
  | some b => cases hs' : s'.encode with
    | none => simp [hs'] at h'
    | some b' =>
        simp only [hs, hs', Except.ok.injEq] at h h'
        subst h h'
        exact Str.encode_inj hs hs'

/-- The text of the canonical form. -/
def canonicalText (subject : Str) (publicKey : Bytes) (number : Str) (issuer : Bytes) : Str :=
  Str.ofString "securews-cert/v" ++ decimal CERT_VERSION ++ newline :: subject ++
    newline :: hex publicKey ++ newline :: number ++ newline :: hex issuer

/-- `_canonical(subject, public_key, not_after, issuer)`. -/
def canonical (subject : Str) (publicKey : Bytes) (notAfter : Int) (issuer : Bytes) :
    Except PyError Bytes := do
  let number ← strOfInt notAfter
  encodeStr (canonicalText subject publicKey number issuer)

theorem newline_notMem_of_strOfInt {n : Int} {number : Str} (h : strOfInt n = .ok number) :
    newline ∉ number := by
  simp only [strOfInt, raiseIf_bind_except] at h
  split at h
  · contradiction
  · obtain rfl := Except.ok.inj h
    exact newline_notMem_decimal n

theorem strOfInt_inj {n n' : Int} {number : Str} (h : strOfInt n = .ok number)
    (h' : strOfInt n' = .ok number) : n = n' := by
  simp only [strOfInt, raiseIf_bind_except] at h h'
  split at h
  · contradiction
  · split at h'
    · contradiction
    · exact decimal_injective ((Except.ok.inj h).trans (Except.ok.inj h').symm)

/-- The text of the canonical form can be read back, last field first. -/
theorem canonicalText_inj {subject subject' number number' : Str} {key key' issuer issuer' : Bytes}
    (hnumber : newline ∉ number) (hnumber' : newline ∉ number')
    (h : canonicalText subject key number issuer = canonicalText subject' key' number' issuer') :
    subject = subject' ∧ key = key' ∧ number = number' ∧ issuer = issuer' := by
  unfold canonicalText at h
  obtain ⟨h₁, hissuer⟩ := eq_of_append_newline (newline_notMem_hex _) (newline_notMem_hex _) h
  obtain ⟨h₂, hnum⟩ := eq_of_append_newline hnumber hnumber' h₁
  obtain ⟨h₃, hkey⟩ := eq_of_append_newline (newline_notMem_hex _) (newline_notMem_hex _) h₂
  have hsubject := List.append_cancel_left h₃
  exact ⟨List.tail_eq_of_cons_eq hsubject, hex_injective hkey, hnum, hex_injective hissuer⟩

/-- **The canonical form is unambiguous.** -/
theorem canonical_inj {subject subject' : Str} {key key' issuer issuer' message : Bytes}
    {notAfter notAfter' : Int} (h : canonical subject key notAfter issuer = .ok message)
    (h' : canonical subject' key' notAfter' issuer' = .ok message) :
    subject = subject' ∧ key = key' ∧ notAfter = notAfter' ∧ issuer = issuer' := by
  obtain ⟨number, hnumber, henc⟩ := bind_eq_ok_iff.mp h
  obtain ⟨number', hnumber', henc'⟩ := bind_eq_ok_iff.mp h'
  have htext := encodeStr_inj henc henc'
  obtain ⟨hs, hk, hn, hi⟩ := canonicalText_inj (newline_notMem_of_strOfInt hnumber)
    (newline_notMem_of_strOfInt hnumber') htext
  subst hn
  exact ⟨hs, hk, strOfInt_inj hnumber hnumber', hi⟩

/-! ## Certificates -/

/-- An `IdentityCertificate`. -/
structure IdentityCertificate where
  subject : Str
  publicKey : Bytes
  notAfter : Int
  issuer : Bytes
  signature : Bytes
  deriving DecidableEq, Repr

/-- A `RevocationList`. -/
structure RevocationList where
  keys : Finset Bytes
  subjects : Finset Str

namespace RevocationList

def isRevokedKey (self : RevocationList) (publicKey : Bytes) : Bool := publicKey ∈ self.keys

def isRevokedSubject (self : RevocationList) (subject : Str) : Bool := subject ∈ self.subjects

def isRevoked (self : RevocationList) (cert : IdentityCertificate) : Bool :=
  self.isRevokedKey cert.publicKey || self.isRevokedSubject cert.subject

end RevocationList

/-- What the program takes from outside: `json.loads`, `repr` of a value that
is no string, `int` of a string (`none` is its `ValueError`), SHA-256 and
Ed25519. -/
structure Env where
  loads : Bytes → Except PyError Json
  repr : Json → Str
  intOfStr : Str → Option Int
  sha256 : Bytes → Bytes
  ed25519 : SignatureScheme

namespace Env

variable (env : Env)

/-- `str(value)`. -/
def str : Json → Str
  | .str s => s
  | value => env.repr value

/-- `int(value)`. -/
def int : Json → Except PyError Int
  | .int n => .ok n
  | .bool b => .ok (if b then 1 else 0)
  | .float (.finite q) => .ok (truncate q)
  | .float (.infinity _) => .error (.overflowError [])
  | .float .nan => .error (.valueError [])
  | .str s => match env.intOfStr s with
      | some n => .ok n
      | none => .error (.valueError [])
  | _ => .error (.typeError [])

end Env

def exampleEnv (loads : Bytes → Except PyError Json) (ed25519 : SignatureScheme) : Env where
  loads := loads
  repr _ := []
  intOfStr _ := none
  sha256 bytes := bytes
  ed25519 := ed25519

/-- `bytes.fromhex(value)`. -/
def bytesFromHex : Json → Except PyError Bytes
  | .str s => match fromHex s with
      | some bytes => .ok bytes
      | none => .error (.valueError [])
  | _ => .error (.typeError [])

/-- `fields[key]`. -/
def getItem (entries : List (Str × Json)) (key : String) : Except PyError Json :=
  match Json.lookup (Str.ofString key) entries with
  | some value => .ok value
  | none => .error (.keyError (Str.ofString key))

namespace IdentityCertificate

/-- The `try` block of `from_bytes`. -/
def parse (env : Env) (data : Bytes) : Except PyError IdentityCertificate := do
  match ← env.loads data with
  | .dict fields => do
      let version := (Json.lookup (Str.ofString "v") fields).getD .null
      raiseIf (version.eqInt CERT_VERSION = false) (.identityError
        ["unsupported certificate version: ", .str (env.repr version)])
      let subject ← getItem fields "sub"
      let key ← bytesFromHex (← getItem fields "key")
      let exp ← env.int (← getItem fields "exp")
      let iss ← bytesFromHex (← getItem fields "iss")
      let sig ← bytesFromHex (← getItem fields "sig")
      return ⟨env.str subject, key, exp, iss, sig⟩
  | _ => throw (.attributeError [])

/-- `IdentityCertificate.from_bytes(data)`. -/
def fromBytes (env : Env) (data : Bytes) : Except PyError IdentityCertificate :=
  match parse env data with
  | .ok cert => .ok cert
  | .error exc => match exc with
      | .valueError _ | .keyError _ | .typeError _ =>
          .error (.identityError ("malformed identity certificate: " :: exc.str))
      | exc => .error exc

/-- `cert.verify(trusted_issuer, now=…, revocation=…)`; `clock` is what
`time.time()` returns. -/
def verify (env : Env) (self : IdentityCertificate) (trustedIssuer : Bytes) (clock : ℚ)
    (now : Option ℚ) (revocation : Option RevocationList) : Except PyError Unit := do
  validatePublicKey self.publicKey
  raiseIf (self.issuer.length ≠ ED25519_KEY_LEN ∨
      constantTimeEqual self.issuer trustedIssuer = false)
    (.identityError ["certificate issued by an untrusted authority"])
  raiseIf (self.signature.length ≠ ED25519_SIG_LEN)
    (.identityError ["certificate signature has the wrong length"])
  raiseIf (self.notAfter ≤ 0) (.identityError ["identity certificate has no valid expiry"])
  let current := now.getD clock
  raiseIf (current > self.notAfter) (.identityError ["identity certificate has expired"])
  let message ← canonical self.subject self.publicKey self.notAfter self.issuer
  raiseIf (env.ed25519.loads self.issuer = false) (.valueError [])
  raiseIf (env.ed25519.verify self.issuer self.signature message = false)
    (.identityError ["invalid certificate signature"])
  raiseIf (revocation.any (·.isRevoked self) = true)
    (.identityError ["identity certificate has been revoked"])

/-- What `verify` demands of a certificate at the time `current`. -/
structure Verified (env : Env) (cert : IdentityCertificate) (trustedIssuer : Bytes) (current : ℚ)
    (revocation : Option RevocationList) : Prop where
  publicKey_length : cert.publicKey.length = X25519_KEY_LEN
  issuer_length : cert.issuer.length = ED25519_KEY_LEN
  issuer_eq : cert.issuer = trustedIssuer
  signature_length : cert.signature.length = ED25519_SIG_LEN
  notAfter_pos : 0 < cert.notAfter
  not_expired : current ≤ cert.notAfter
  signed : ∃ message, canonical cert.subject cert.publicKey cert.notAfter cert.issuer = .ok message ∧
    env.ed25519.loads cert.issuer = true ∧
    env.ed25519.verify cert.issuer cert.signature message = true
  not_revoked : ∀ list, revocation = some list → list.isRevoked cert = false

/-- **`verify` returns exactly when the certificate is good.** -/
theorem verify_eq_ok_iff {env : Env} {cert : IdentityCertificate} {trustedIssuer : Bytes}
    {clock : ℚ} {now : Option ℚ} {revocation : Option RevocationList} {u : Unit} :
    cert.verify env trustedIssuer clock now revocation = .ok u ↔
      cert.Verified env trustedIssuer (now.getD clock) revocation := by
  unfold verify
  simp only [bind_eq_ok_iff, validatePublicKey_eq_ok_iff, raiseIf_eq_ok_iff, exists_const, not_or,
    not_le, not_lt, ne_eq, not_not, Bool.not_eq_false, Bool.not_eq_true,
    constantTimeEqual_eq_true_iff, Option.any_eq_false]
  constructor
  · intro h
    obtain ⟨hkey, ⟨hlen, hissuer⟩, hsig, hpos, hpast, message, hmessage, hloads, hverify, hrev⟩ := h
    exact ⟨hkey, hlen, hissuer, hsig, hpos, hpast, ⟨message, hmessage, hloads, hverify⟩,
      fun list hlist => by simpa using hrev list hlist⟩
  · intro h
    obtain ⟨message, hmessage, hloads, hverify⟩ := h.signed
    exact ⟨h.publicKey_length, ⟨h.issuer_length, h.issuer_eq⟩, h.signature_length, h.notAfter_pos,
      h.not_expired, message, hmessage, hloads, hverify,
      fun list hlist => by simpa using h.not_revoked list hlist⟩

end IdentityCertificate

/-! ## Issuing -/

/-- A `lifetime` argument: its length in microseconds, and the float
`time.time() + lifetime.total_seconds()` at the time of the call. -/
structure Lifetime where
  delta : Int
  expiry : ℚ

/-- A `CertificateAuthority`.  `signed` is a history variable: every message
its key has signed. -/
structure CertificateAuthority where
  signingKey : Bytes
  signed : List Bytes

namespace CertificateAuthority

/-- The expiry that `issue` takes from its arguments. -/
def expiryOf (notAfter : Option Int) (lifetime : Option Lifetime) : Except PyError Int :=
  match notAfter, lifetime with
  | some _, some _ => .error (.valueError ["issue() takes not_after= or lifetime=, not both"])
  | _, some lifetime => do
      raiseIf (lifetime.delta ≤ 0) (.valueError ["lifetime must be positive"])
      return truncate lifetime.expiry
  | some notAfter, none => .ok notAfter
  | none, none => .error (.valueError
      ["issue() requires an expiry: pass not_after= (absolute Unix time) ",
        "or lifetime= (a datetime.timedelta)"])

/-- `ca.public_key`. -/
def publicKey (env : Env) (self : CertificateAuthority) : Bytes :=
  env.ed25519.publicKey self.signingKey

/-- `self._signing_key.sign(message)`. -/
def sign (env : Env) (message : Bytes) : Imp PyError CertificateAuthority Bytes :=
  modifyGet fun self =>
    (env.ed25519.sign self.signingKey message, { self with signed := self.signed ++ [message] })

/-- `ca.issue(subject, public_key, not_after=…, lifetime=…)`. -/
def issue (env : Env) (subject : Str) (publicKey : Bytes) (notAfter : Option Int)
    (lifetime : Option Lifetime) : Imp PyError CertificateAuthority IdentityCertificate := do
  Imp.ofExcept (validatePublicKey publicKey)
  let expiry ← Imp.ofExcept (expiryOf notAfter lifetime)
  raiseIf (expiry ≤ 0) (.valueError ["not_after must be a positive Unix timestamp"])
  let self ← get
  let issuer := self.publicKey env
  let message ← Imp.ofExcept (canonical subject publicKey expiry issuer)
  let signature ← sign env message
  return ⟨subject, publicKey, expiry, issuer, signature⟩

structure IssueCall where
  subject : Str
  publicKey : Bytes
  notAfter : Option Int
  lifetime : Option Lifetime

/-- One call in a run, which also records the calls that returned a
certificate, with the certificate. -/
def IssueCall.step (env : Env) (s : CertificateAuthority × List (IssueCall × IdentityCertificate))
    (call : IssueCall) : CertificateAuthority × List (IssueCall × IdentityCertificate) :=
  match (issue env call.subject call.publicKey call.notAfter call.lifetime).run s.1 with
  | (.ok cert, ca) => (ca, s.2 ++ [(call, cert)])
  | (.error _, ca) => (ca, s.2)

def runIssues (env : Env) (signingKey : Bytes) (calls : List IssueCall) :
    CertificateAuthority × List (IssueCall × IdentityCertificate) :=
  calls.foldl (IssueCall.step env) (⟨signingKey, []⟩, [])

/-- What a call of `issue` can do: raise before anything is signed, or sign
the canonical form of the certificate it returns. -/
inductive IssueOutcome (env : Env) (self : CertificateAuthority) (call : IssueCall) :
    Except PyError IdentityCertificate × CertificateAuthority → Prop
  | refused (exc : PyError) : IssueOutcome env self call (.error exc, self)
  | issued (expiry : Int) (message : Bytes)
      (key_length : call.publicKey.length = X25519_KEY_LEN)
      (hexpiry : expiryOf call.notAfter call.lifetime = .ok expiry) (pos : 0 < expiry)
      (hmessage : canonical call.subject call.publicKey expiry (self.publicKey env) = .ok message) :
      IssueOutcome env self call
        (.ok ⟨call.subject, call.publicKey, expiry, self.publicKey env,
            env.ed25519.sign self.signingKey message⟩,
          { self with signed := self.signed ++ [message] })

/-- The specification of `issue`. -/
theorem issue_outcome (env : Env) (self : CertificateAuthority) (call : IssueCall) :
    IssueOutcome env self call
      ((issue env call.subject call.publicKey call.notAfter call.lifetime).run self) := by
  unfold issue
  rw [Imp.run_bind, Imp.run_ofExcept]
  cases hkey : validatePublicKey call.publicKey with
  | error exc => exact .refused exc
  | ok u =>
      show IssueOutcome env self call (Imp.run (_ >>= _) self)
      rw [Imp.run_bind, Imp.run_ofExcept]
      cases hexpiry : expiryOf call.notAfter call.lifetime with
      | error exc => exact .refused exc
      | ok expiry =>
          show IssueOutcome env self call (Imp.run (_ >>= _) self)
          rw [Imp.run_raiseIf_bind]
          by_cases hpos : expiry ≤ 0
          · rw [if_pos hpos]
            exact .refused _
          · rw [if_neg hpos, Imp.run_bind, Imp.run_get]
            show IssueOutcome env self call (Imp.run (_ >>= _) self)
            rw [Imp.run_bind, Imp.run_ofExcept]
            cases hmessage : canonical call.subject call.publicKey expiry (self.publicKey env) with
            | error exc => exact .refused exc
            | ok message =>
                exact .issued expiry message (validatePublicKey_eq_ok_iff.mp hkey) hexpiry
                  (not_le.mp hpos) hmessage

/-- What holds after a run: every signed message is the canonical form of a
certificate that was issued to one of the calls. -/
structure Recorded (env : Env) (signingKey : Bytes) (calls : List IssueCall)
    (s : CertificateAuthority × List (IssueCall × IdentityCertificate)) : Prop where
  signingKey_eq : s.1.signingKey = signingKey
  issued : ∀ message ∈ s.1.signed, ∃ call cert, (call, cert) ∈ s.2 ∧ call ∈ calls ∧
    expiryOf call.notAfter call.lifetime = .ok cert.notAfter ∧
    cert.subject = call.subject ∧ cert.publicKey = call.publicKey ∧
    canonical cert.subject cert.publicKey cert.notAfter cert.issuer = .ok message

theorem Recorded.step {env : Env} {signingKey : Bytes} {calls : List IssueCall}
    {s : CertificateAuthority × List (IssueCall × IdentityCertificate)}
    (h : Recorded env signingKey calls s) (call : IssueCall) :
    Recorded env signingKey (calls ++ [call]) (IssueCall.step env s call) := by
  -- the messages signed so far stay recorded
  have hold : ∀ issued', s.2 ⊆ issued' → ∀ message ∈ s.1.signed,
      ∃ call' cert, (call', cert) ∈ issued' ∧ call' ∈ calls ++ [call] ∧
        expiryOf call'.notAfter call'.lifetime = .ok cert.notAfter ∧
        cert.subject = call'.subject ∧ cert.publicKey = call'.publicKey ∧
        canonical cert.subject cert.publicKey cert.notAfter cert.issuer = .ok message := by
    intro issued' hsub message hmem
    obtain ⟨call', cert, hcert, hcall, hrest⟩ := h.issued message hmem
    exact ⟨call', cert, hsub hcert, List.mem_append_left _ hcall, hrest⟩
  have hout := issue_outcome env s.1 call
  unfold IssueCall.step
  generalize (issue env call.subject call.publicKey call.notAfter call.lifetime).run s.1 = r at hout
  cases hout with
  | refused exc => exact ⟨h.signingKey_eq, hold s.2 (List.Subset.refl _)⟩
  | issued expiry message hkey hexpiry hpos hmessage =>
      constructor
      · exact h.signingKey_eq
      · intro message' hmem
        obtain hmem | hmem := List.mem_append.mp hmem
        · exact hold _ (List.subset_append_left _ _) message' hmem
        · obtain rfl := List.mem_singleton.mp hmem
          exact ⟨call, _, List.mem_append_right _ (List.mem_singleton_self _),
            List.mem_append_right _ (List.mem_singleton_self _), hexpiry, rfl, rfl, hmessage⟩

theorem recorded_runIssues (env : Env) (signingKey : Bytes) (calls : List IssueCall) :
    Recorded env signingKey calls (runIssues env signingKey calls) := by
  induction calls using List.reverseRecOn with
  | nil => exact ⟨rfl, fun _ hmem => nomatch hmem⟩
  | append_singleton calls call ih =>
      unfold runIssues at ih ⊢
      rw [List.foldl_append]
      exact ih.step call

/-- **Certificate soundness.**  When nothing verifies under the authority's
key but what it signed, a certificate that `verify` accepts against that key
carries the subject, the key and the expiry of a call of `issue` that returned
a certificate; and the canonical form determines the fields. -/
theorem verified_was_issued (env : Env) (signingKey : Bytes) (calls : List IssueCall) :
    (env.ed25519.Unforgeable (env.ed25519.publicKey signingKey)
        (runIssues env signingKey calls).1.signed →
      ∀ (cert : IdentityCertificate) (clock : ℚ) (now : Option ℚ)
        (revocation : Option RevocationList),
        cert.verify env (env.ed25519.publicKey signingKey) clock now revocation = .ok () →
          ∃ call issued, (call, issued) ∈ (runIssues env signingKey calls).2 ∧ call ∈ calls ∧
            call.subject = cert.subject ∧ call.publicKey = cert.publicKey ∧
            expiryOf call.notAfter call.lifetime = .ok cert.notAfter) ∧
    ∀ (subject subject' : Str) (key key' issuer issuer' message : Bytes) (notAfter notAfter' : Int),
      canonical subject key notAfter issuer = .ok message →
      canonical subject' key' notAfter' issuer' = .ok message →
      (subject, key, notAfter, issuer) = (subject', key', notAfter', issuer') := by
  constructor
  · intro unforgeable cert clock now revocation h
    have hv := IdentityCertificate.verify_eq_ok_iff.mp h
    obtain ⟨message, hmessage, -, hverify⟩ := hv.signed
    rw [hv.issuer_eq] at hverify
    obtain ⟨call, issued, hissued, hcall, hexpiry, hsubject, hkey, hcanonical⟩ :=
      (recorded_runIssues env signingKey calls).issued message (unforgeable _ _ hverify)
    obtain ⟨hs, hk, hn, -⟩ := canonical_inj hcanonical hmessage
    rw [hn] at hexpiry
    exact ⟨call, issued, hissued, hcall, hsubject.symm.trans hs, hkey.symm.trans hk, hexpiry⟩
  · intro subject subject' key key' issuer issuer' message notAfter notAfter' hm hm'
    obtain ⟨rfl, rfl, rfl, rfl⟩ := canonical_inj hm hm'
    rfl

/-- Issuing does not look at what verifies. -/
theorem runIssues_ideal (loads : Bytes → Except PyError Json) (S : SignatureScheme) (key : Bytes)
    (signed : List Bytes) (signingKey : Bytes) (calls : List IssueCall) :
    runIssues (exampleEnv loads (S.ideal key signed)) signingKey calls =
      runIssues (exampleEnv loads S) signingKey calls := rfl

/-- A subject that imitates the fields after it. -/
def lookalike : IssueCall := ⟨Str.ofString "alice\n00\n1", List.replicate 32 5, some 2000, none⟩

theorem verified_was_issued_lookalike :
    let env := exampleEnv (fun _ => .ok .null) (SignatureScheme.stamp 64)
    ∃ call issued, (call, issued) ∈ (runIssues env (List.replicate 32 7) [lookalike]).2 ∧
      call.subject = lookalike.subject := by
  let loads : Bytes → Except PyError Json := fun _ => .ok .null
  let S := SignatureScheme.stamp 64
  let key : Bytes := List.replicate 32 7
  let signed := (runIssues (exampleEnv loads S) key [lookalike]).1.signed
  have hrun := runIssues_ideal loads S key signed key [lookalike]
  have hunforgeable := SignatureScheme.unforgeable_ideal S key signed
  have h := (verified_was_issued (exampleEnv loads (S.ideal key signed)) key [lookalike]).1
  rw [hrun] at h
  obtain ⟨call, issued, hissued, -, hsubject, -⟩ := h hunforgeable
    ⟨lookalike.subject, lookalike.publicKey, 2000, key, List.replicate 64 0⟩ 1500 none none
    (by decide +kernel)
  exact ⟨call, issued, hissued, hsubject⟩

end CertificateAuthority

end SecureWs
