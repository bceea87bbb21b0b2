import SecureWs.Lib.JsonDumps
import SecureWs.Transport

/-!
# SecureWs.Certificates

Identity certificates on the wire: `to_bytes`, and `from_bytes` over Python's
own `json`.

* `issued_survives`: what `issue` returns is read back as it was, and verifies
  under the key of its authority;
* `fromBytes_refuses_iff`: the byte strings on which `from_bytes` returns a
  certificate or raises `IdentityError`, and no other exception;
* `verification_refuses_iff`: the same for `verify` and `_verify_certificate`.
-/

namespace SecureWs

open Python

/-- `json.loads(data)`, with `limit` levels of recursion. -/
def loadsJson (limit : Nat) (data : Bytes) : Except PyError Json :=
  match Json.loads limit data with
  | .ok value => .ok value
  | .error .value => .error (.valueError [])
  | .error .recursion => .error .recursionError

/-- The environment in which `json` is Python's. -/
def Env.json (env : Env) (limit : Nat) : Env := { env with loads := loadsJson limit }

/-! ## What has an encoding -/

/-- A string without surrogates. -/
def Plain (s : Str) : Prop := ∀ c ∈ s, Json.isSurrogate c = false

/-- A character of Lean is no surrogate. -/
theorem isSurrogate_ofChar (c : Char) : Json.isSurrogate (CodePoint.ofChar c) = false := by
  have hvalid : c.val.toNat < 0xD800 ∨ 0xDFFF < c.val.toNat ∧ c.val.toNat < 0x110000 := c.valid
  have hval : (CodePoint.ofChar c).val = c.val.toNat := rfl
  rw [Json.isSurrogate, decide_eq_false_iff_not, hval]
  omega

/-- A string literal of the source has no surrogates. -/
theorem plain_ofString (s : String) : Plain (Str.ofString s) := by
  intro c hc
  obtain ⟨d, -, rfl⟩ := List.mem_map.mp hc
  exact isSurrogate_ofChar d

theorem plain_append {s t : Str} : Plain (s ++ t) ↔ Plain s ∧ Plain t := List.forall_mem_append

theorem plain_cons {c : CodePoint} {s : Str} :
    Plain (c :: s) ↔ Json.isSurrogate c = false ∧ Plain s := List.forall_mem_cons

/-- The output of `bytes.hex()` has no surrogates. -/
theorem plain_hex (bytes : Bytes) : Plain (hex bytes) := by
  intro c hc
  obtain ⟨b, -, hc⟩ := List.mem_flatMap.mp hc
  obtain rfl | rfl : c = hexDigit (b.toNat / 16) ∨ c = hexDigit (b.toNat % 16) := by
    simpa using hc
  · exact isSurrogate_ofChar _
  · exact isSurrogate_ofChar _

/-- The code points without an encoding are the surrogates. -/
theorem toChar?_eq_none_iff {c : CodePoint} : c.toChar? = none ↔ Json.isSurrogate c = true := by
  have hc := c.isLt
  simp only [CodePoint.toChar?, ite_eq_right_iff, reduceCtorEq, imp_false, Nat.isValidChar,
    Json.isSurrogate, decide_eq_true_eq]
  omega

/-- The strings with an encoding are those without surrogates. -/
theorem isSome_encode_iff {s : Str} : (Str.encode s).isSome = true ↔ Plain s := by
  unfold Plain
  induction s with
  | nil => simp [Str.encode]
  | cons c s ih =>
      rw [List.forall_mem_cons, ← ih]
      have hchar := toChar?_eq_none_iff (c := c)
      cases hc : c.toChar? with
      | none => simp [Str.encode, hc, hchar.mp hc]
      | some ch =>
          rw [hc] at hchar
          cases hs : Str.encode s with
          | none => simp [Str.encode, hc, hs]
          | some bytes => simpa [Str.encode, hc, hs] using hchar

/-- Of the canonical text, only the subject can have surrogates. -/
theorem plain_canonicalText (subject : Str) (publicKey issuer : Bytes) (notAfter : Int) :
    Plain (canonicalText subject publicKey (decimal notAfter) issuer) ↔ Plain subject := by
  have hnewline : Json.isSurrogate newline = false := isSurrogate_ofChar _
  have hdecimal : ∀ n, Plain (decimal n) := fun n => plain_ofString _
  simp only [canonicalText, plain_append, plain_cons, hnewline, hdecimal, plain_ofString, plain_hex,
    true_and, and_true]

/-- `str` of an integer raises beyond 4300 digits, and writes it in decimal up to there. -/
theorem strOfInt_eq_ok_iff {n : Int} {number : Str} : strOfInt n = .ok number ↔
    (Nat.toDigits 10 n.natAbs).length ≤ MAX_STR_DIGITS ∧ decimal n = number := by
  unfold strOfInt
  rw [bind_eq_ok_iff]
  simp only [raiseIf_eq_ok_iff, not_lt, exists_const]
  refine and_congr_right fun _ => ?_
  show Except.ok (decimal n) = Except.ok number ↔ decimal n = number
  rw [Except.ok.injEq]

/-- `encode("utf-8")` raises exactly on surrogates. -/
theorem encodeStr_ok_iff {s : Str} : (∃ bytes, encodeStr s = .ok bytes) ↔ Plain s := by
  rw [← isSome_encode_iff]
  unfold encodeStr
  cases Str.encode s with
  | none => simp
  | some bytes => simp

/-- `_canonical` refuses an expiry with too many digits, and a subject with a
surrogate. -/
theorem canonical_ok_iff {subject : Str} {publicKey issuer : Bytes} {notAfter : Int} :
    (∃ message, canonical subject publicKey notAfter issuer = .ok message) ↔
      (Nat.toDigits 10 notAfter.natAbs).length ≤ MAX_STR_DIGITS ∧ Plain subject := by
  rw [← plain_canonicalText subject publicKey issuer notAfter, ← encodeStr_ok_iff]
  simp only [canonical, bind_eq_ok_iff, strOfInt_eq_ok_iff, and_assoc, exists_and_left]
  constructor
  · intro h
    obtain ⟨hdigits, message, number, rfl, hencode⟩ := h
    exact ⟨hdigits, message, hencode⟩
  · intro h
    obtain ⟨hdigits, message, hencode⟩ := h
    exact ⟨hdigits, message, _, rfl, hencode⟩

/-! ## On the wire -/

/-- `bytes.fromhex` reads each digit that `bytes.hex` writes. -/
theorem fromHex_hexDigit : ∀ n < 16, isSpace (hexDigit n) = false ∧
    hexValue? (hexDigit n) = some n := by
  decide

/-- Hexadecimal digits are read back. -/
theorem fromHex_hex (bytes : Bytes) : fromHex (hex bytes) = some bytes := by
  induction bytes with
  | nil => rfl
  | cons b bytes ih =>
      have hb := b.toNat_lt
      obtain ⟨hspace, hhigh⟩ := fromHex_hexDigit (b.toNat / 16) (by omega)
      obtain ⟨-, hlow⟩ := fromHex_hexDigit (b.toNat % 16) (by omega)
      have hbyte : UInt8.ofNat (16 * (b.toNat / 16) + b.toNat % 16) = b := by
        rw [Nat.div_add_mod]
        exact UInt8.ofNat_toNat
      show fromHex (hexDigit (b.toNat / 16) :: hexDigit (b.toNat % 16) :: hex bytes) = _
      rw [fromHex, hspace]
      simp only [Bool.false_eq_true, if_false, hhigh, hlow, ih, Option.bind_eq_bind, Option.bind_some,
        hbyte]
      rfl

/-- `bytes.fromhex` gives back what `bytes.hex` was given. -/
theorem bytesFromHex_hex (bytes : Bytes) : bytesFromHex (.str (hex bytes)) = .ok bytes := by
  simp only [bytesFromHex, fromHex_hex]

namespace IdentityCertificate

/-- The dictionary that `to_bytes` writes. -/
def fields (self : IdentityCertificate) : List (Str × Json.Scalar) :=
  [(Str.ofString "v", .int CERT_VERSION), (Str.ofString "sub", .str self.subject),
    (Str.ofString "key", .str (hex self.publicKey)), (Str.ofString "exp", .int self.notAfter),
    (Str.ofString "iss", .str (hex self.issuer)), (Str.ofString "sig", .str (hex self.signature))]

def toBytes (self : IdentityCertificate) : Except PyError Bytes :=
  match Json.dumps self.fields with
  | some text => encodeStr text
  | none => .error (.valueError [])

/-- The fields of a certificate in the order of `sort_keys=True`. -/
theorem sortKeys_fields (self : IdentityCertificate) : Json.sortKeys self.fields =
    [(Str.ofString "exp", .int self.notAfter), (Str.ofString "iss", .str (hex self.issuer)),
      (Str.ofString "key", .str (hex self.publicKey)), (Str.ofString "sig", .str (hex self.signature)),
      (Str.ofString "sub", .str self.subject), (Str.ofString "v", .int CERT_VERSION)] := by
  rfl

theorem nodup_fields (self : IdentityCertificate) : (self.fields.map Prod.fst).Nodup := by
  show List.Nodup [Str.ofString "v", Str.ofString "sub", Str.ofString "key", Str.ofString "exp",
    Str.ofString "iss", Str.ofString "sig"]
  decide

/-- A certificate whose subject has an encoding can be dumped. -/
theorem plainEntries_fields {self : IdentityCertificate} (h : Plain self.subject) :
    Json.PlainEntries self.fields := by
  simp only [Json.PlainEntries, fields, List.forall_mem_cons]
  exact ⟨⟨plain_ofString _, trivial⟩, ⟨plain_ofString _, h⟩, ⟨plain_ofString _, plain_hex _⟩,
    ⟨plain_ofString _, trivial⟩, ⟨plain_ofString _, plain_hex _⟩, ⟨plain_ofString _, plain_hex _⟩,
    fun _ hmem => nomatch hmem⟩

/-- `to_bytes` refuses nothing but an expiry with too many digits. -/
theorem exists_dumps_fields {self : IdentityCertificate}
    (h : (Nat.toDigits 10 self.notAfter.natAbs).length ≤ MAX_STR_DIGITS) :
    ∃ text, Json.dumps self.fields = some text := by
  have hexp : (Json.Scalar.int self.notAfter).dump = some (decimal self.notAfter) := by
    refine if_neg ?_
    rw [Json.digitsOf, List.length_map]
    exact Nat.not_lt.mpr h
  have hversion : (Json.Scalar.int CERT_VERSION).dump = some (decimal CERT_VERSION) := by decide
  refine Json.exists_dumps ?_
  simp only [fields, List.forall_mem_cons]
  exact ⟨⟨_, hversion⟩, ⟨_, rfl⟩, ⟨_, rfl⟩, ⟨_, hexp⟩, ⟨_, rfl⟩, ⟨_, rfl⟩, List.forall_mem_nil _⟩

/-- **The round trip** of a certificate. -/
theorem fromBytes_toBytes (env : Env) {limit : Nat} (hlimit : 1 ≤ limit) (self : IdentityCertificate)
    (hdigits : (Nat.toDigits 10 self.notAfter.natAbs).length ≤ MAX_STR_DIGITS)
    (hplain : Plain self.subject) :
    ∃ data, self.toBytes = .ok data ∧ fromBytes (env.json limit) data = .ok self := by
  obtain ⟨text, htext⟩ := exists_dumps_fields hdigits
  obtain ⟨data, hencode, hloads⟩ := Json.loads_dumps hlimit self.nodup_fields
    (plainEntries_fields hplain) htext
  refine ⟨data, ?_, ?_⟩
  · unfold toBytes encodeStr
    simp only [htext, hencode]
  · have hparse : parse (env.json limit) data = .ok self := by
      have hjson : (env.json limit).loads data = .ok (.dict
          (self.fields |> Json.sortKeys |>.map fun entry => (entry.1, entry.2.toJson))) := by
        show loadsJson limit data = _
        unfold loadsJson
        rw [hloads]
      unfold parse
      rw [hjson, sortKeys_fields]
      show (bytesFromHex (.str (hex self.publicKey)) >>= fun key => Except.ok self.notAfter >>= fun exp =>
        bytesFromHex (.str (hex self.issuer)) >>= fun iss =>
          bytesFromHex (.str (hex self.signature)) >>= fun sig =>
            Except.ok (IdentityCertificate.mk self.subject key exp iss sig)) = _
      rw [bytesFromHex_hex, bytesFromHex_hex, bytesFromHex_hex]
      rfl
    unfold fromBytes
    rw [hparse]

end IdentityCertificate

/-! ## What is refused, and how -/

/-- `isinstance(exc, IdentityError)`. -/
def IsIdentityError (exc : PyError) : Prop := ∃ message, exc = .identityError message

@[simp] theorem isIdentityError_identityError (message : Text) :
    IsIdentityError (.identityError message) := ⟨message, rfl⟩

/-- What the `except` clauses of `from_bytes` turn into an `IdentityError`. -/
def Caught (exc : PyError) : Prop :=
  IsIdentityError exc ∨ (∃ message, exc = .valueError message) ∨ (∃ key, exc = .keyError key) ∨
    ∃ message, exc = .typeError message

namespace IdentityCertificate

/-- The bytes on which another exception leaves `from_bytes`: nested too
deeply, no object, or an object that is in order up to an infinite expiry. -/
inductive Escapes (limit : Nat) (data : Bytes) : Prop
  | tooDeep (loads : Json.loads limit data = .error .recursion)
  | noObject (value : Json) (loads : Json.loads limit data = .ok value)
      (not_dict : ∀ fields, value ≠ .dict fields)
  | infiniteExpiry (fields : List (Str × Json)) (loads : Json.loads limit data = .ok (.dict fields))
      (version : ((Json.lookup (Str.ofString "v") fields).getD .null).eqInt CERT_VERSION = true)
      (subject : (Json.lookup (Str.ofString "sub") fields).isSome = true) (key : Str)
      (lookup_key : Json.lookup (Str.ofString "key") fields = some (.str key))
      (key_hex : (fromHex key).isSome = true) (negative : Bool)
      (expiry : Json.lookup (Str.ofString "exp") fields = some (.float (.infinity negative)))

/-- A missing field is a `KeyError`, which `from_bytes` catches. -/
theorem onlyRaises_getItem (fields : List (Str × Json)) (key : String) :
    OnlyRaises Caught (getItem fields key) := by
  unfold getItem
  cases Json.lookup (Str.ofString key) fields with
  | none => simp [Caught]
  | some value => simp

/-- A field that is no hex is a `TypeError` or a `ValueError`, which `from_bytes` catches. -/
theorem onlyRaises_bytesFromHex (value : Json) : OnlyRaises Caught (bytesFromHex value) := by
  cases value with
  | str s =>
      unfold bytesFromHex
      cases h : fromHex s with
      | none => simp [h, Caught]
      | some bytes => simp [h]
  | _ => simp [bytesFromHex, Caught]

/-- `int` of an infinite float is not caught. -/
theorem onlyRaises_int_iff (env : Env) (value : Json) :
    OnlyRaises Caught (env.int value) ↔ ∀ negative, value ≠ .float (.infinity negative) := by
  cases value with
  | float x => cases x with
    | infinity negative => simp [Env.int, Caught, IsIdentityError]
    | finite q => simp [Env.int]
    | nan => simp [Env.int, Caught]
  | str s =>
      unfold Env.int
      cases h : env.intOfStr s with
      | none => simp [h, Caught]
      | some n => simp [h]
  | _ => simp [Env.int, Caught]

/-- `data[key]` is the value under this key, if there is one. -/
theorem getItem_eq_ok_iff {fields : List (Str × Json)} {key : String} {value : Json} :
    getItem fields key = .ok value ↔ Json.lookup (Str.ofString key) fields = some value := by
  unfold getItem
  cases h : Json.lookup (Str.ofString key) fields with
  | none => simp
  | some value' => simp

/-- `bytes.fromhex` accepts strings of hex digits, and no other value. -/
theorem bytesFromHex_ok_iff {value : Json} :
    (∃ bytes, bytesFromHex value = .ok bytes) ↔
      ∃ s, value = .str s ∧ (fromHex s).isSome = true := by
  cases value with
  | str s =>
      unfold bytesFromHex
      cases h : fromHex s with
      | none => simp [h]
      | some bytes => simp [h]
  | _ => simp [bytesFromHex]

/-- An `IdentityError` is one of them. -/
theorem caught_identityError (message : Text) : Caught (.identityError message) := .inl ⟨message, rfl⟩

/-- What leaves the `try` block and is not caught, for an object. -/
theorem onlyRaises_parse_dict (env : Env) {data : Bytes} {fields : List (Str × Json)}
    (h : env.loads data = .ok (.dict fields)) :
    OnlyRaises Caught (parse env data) ↔
      (((Json.lookup (Str.ofString "v") fields).getD .null).eqInt CERT_VERSION = true →
        ∀ subject, Json.lookup (Str.ofString "sub") fields = some subject →
        ∀ key, Json.lookup (Str.ofString "key") fields = some key →
        (∃ bytes, bytesFromHex key = .ok bytes) →
        ∀ exp, Json.lookup (Str.ofString "exp") fields = some exp →
          ∀ negative, exp ≠ .float (.infinity negative)) := by
  unfold parse
  rw [h]
  simp only [onlyRaises_bind, onlyRaises_ok, Except.ok.injEq, forall_eq', onlyRaises_raiseIf,
    onlyRaises_getItem, onlyRaises_bytesFromHex, onlyRaises_int_iff, getItem_eq_ok_iff, true_and,
    caught_identityError, raiseIf_eq_ok_iff, Bool.not_eq_false, onlyRaises_pure, implies_true,
    and_true, forall_const, forall_exists_index]

/-- `from_bytes` raises nothing but `IdentityError` as long as `parse` raises nothing
that is not caught. -/
theorem onlyRaises_fromBytes_iff (env : Env) (data : Bytes) :
    OnlyRaises IsIdentityError (fromBytes env data) ↔ OnlyRaises Caught (parse env data) := by
  unfold fromBytes
  cases parse env data with
  | ok cert => simp
  | error exc => cases exc with
    | _ => simp [Caught, IsIdentityError]

/-- The bytes that do not escape are those on which all is caught. -/
theorem onlyRaises_parse_iff (env : Env) (limit : Nat) (data : Bytes) :
    OnlyRaises Caught (parse (env.json limit) data) ↔ ¬Escapes limit data := by
  have hjson : (env.json limit).loads data = loadsJson limit data := rfl
  cases hloads : Json.loads limit data with
  | error e =>
      have hparse : ∀ exc, loadsJson limit data = .error exc →
          parse (env.json limit) data = .error exc := by
        intro exc hexc
        unfold parse
        rw [hjson, hexc]
        rfl
      cases e with
      | value =>
          rw [hparse (.valueError []) (by rw [loadsJson, hloads])]
          refine iff_of_true (by simp [Caught]) fun h => ?_
          cases h <;> simp_all
      | recursion =>
          rw [hparse .recursionError (by rw [loadsJson, hloads])]
          refine iff_of_false (by simp [Caught, IsIdentityError]) fun h => h (.tooDeep hloads)
  | ok value =>
      have hok : (env.json limit).loads data = .ok value := by rw [hjson, loadsJson, hloads]
      cases value with
      | dict fields =>
          rw [onlyRaises_parse_dict _ hok]
          constructor
          · intro h hescapes
            cases hescapes with
            | tooDeep loads =>
                rw [hloads] at loads
                cases loads
            | noObject value loads not_dict =>
                rw [hloads] at loads
                exact not_dict fields (Except.ok.inj loads).symm
            | infiniteExpiry fields' loads version subject key lookup_key key_hex negative expiry =>
                rw [hloads] at loads
                obtain rfl := Json.dict.inj (Except.ok.inj loads)
                obtain ⟨subject, hsubject⟩ := Option.isSome_iff_exists.mp subject
                exact h version subject hsubject _ lookup_key
                  (bytesFromHex_ok_iff.mpr ⟨key, rfl, key_hex⟩) _ expiry negative rfl
          · intro h version subject hsubject key hkey hbytes exp hexp negative hinfinity
            obtain ⟨s, rfl, hs⟩ := bytesFromHex_ok_iff.mp hbytes
            rw [hinfinity] at hexp
            exact h (.infiniteExpiry fields hloads version (Option.isSome_iff_exists.mpr
              ⟨subject, hsubject⟩) s hkey hs negative hexp)
      | _ =>
          have hparse : parse (env.json limit) data = .error (.attributeError []) := by
            unfold parse
            rw [hok]
            rfl
          rw [hparse]
          refine iff_of_false (by simp [Caught, IsIdentityError]) fun h => h (.noObject _ hloads ?_)
          intro fields heq
          cases heq

/-- **Which certificates are refused as they should be.**  `from_bytes`
returns a certificate or raises `IdentityError`, and nothing else, exactly on
the bytes that do not escape. -/
theorem fromBytes_refuses_iff (env : Env) (limit : Nat) (data : Bytes) :
    ((∃ cert, fromBytes (env.json limit) data = .ok cert) ∨
      ∃ message, fromBytes (env.json limit) data = .error (.identityError message)) ↔
        ¬Escapes limit data := by
  rw [← onlyRaises_parse_iff env, ← onlyRaises_fromBytes_iff]
  cases fromBytes (env.json limit) data with
  | ok cert => simp
  | error exc => simp [IsIdentityError]

/-- The top level is no object. -/
theorem fromBytes_escapes_array :
    let env := exampleEnv (fun _ => .ok .null) (SignatureScheme.stamp 64)
    fromBytes (env.json 10) "[]".toUTF8.toList = .error (.attributeError []) ∧
      ¬((∃ cert, fromBytes (env.json 10) "[]".toUTF8.toList = .ok cert) ∨
        ∃ message, fromBytes (env.json 10) "[]".toUTF8.toList = .error (.identityError message)) := by
  have h : fromBytes ((exampleEnv (fun _ => .ok .null) (SignatureScheme.stamp 64)).json 10)
      "[]".toUTF8.toList = .error (.attributeError []) := by
    decide +kernel
  refine ⟨h, fun hends => ?_⟩
  rw [h] at hends
  obtain ⟨cert, hcert⟩ | ⟨message, hmessage⟩ := hends
  · cases hcert
  · cases hmessage

/-- `validate_public_key` raises a `ValueError` for any other length. -/
theorem onlyRaises_validatePublicKey_iff (raw : Bytes) :
    OnlyRaises IsIdentityError (validatePublicKey raw) ↔ raw.length = X25519_KEY_LEN := by
  unfold validatePublicKey
  rw [onlyRaises_raiseIf]
  simp [IsIdentityError]

/-- `_canonical` fails with a plain `ValueError`. -/
theorem onlyRaises_canonical (subject : Str) (publicKey issuer : Bytes) (notAfter : Int) :
    OnlyRaises (· = .valueError []) (canonical subject publicKey notAfter issuer) := by
  have hencode : ∀ s, OnlyRaises (· = .valueError []) (encodeStr s) := by
    intro s
    unfold encodeStr
    cases Str.encode s <;> simp
  unfold canonical strOfInt
  simp only [onlyRaises_bind, onlyRaises_raiseIf, onlyRaises_pure, hencode, implies_true, and_self]

/-- The canonical text raises on an expiry with too many digits and on surrogates
in the subject. -/
theorem onlyRaises_canonical_iff (subject : Str) (publicKey issuer : Bytes) (notAfter : Int) :
    OnlyRaises IsIdentityError (canonical subject publicKey notAfter issuer) ↔
      (Nat.toDigits 10 notAfter.natAbs).length ≤ MAX_STR_DIGITS ∧ Plain subject := by
  have hvalue := onlyRaises_canonical subject publicKey issuer notAfter
  have hok := @canonical_ok_iff subject publicKey issuer notAfter
  cases h : canonical subject publicKey notAfter issuer with
  | ok message =>
      rw [h] at hok
      simpa using hok
  | error exc =>
      rw [h] at hok hvalue
      rw [onlyRaises_error] at hvalue
      simpa [hvalue, IsIdentityError] using hok

/-- `verify` refuses what it refuses as an identity error exactly when the key
has the right length and, once the checks before the signature have passed,
the canonical form exists and the issuer is an Ed25519 key. -/
theorem onlyRaises_verify_iff (env : Env) (self : IdentityCertificate) (trustedIssuer : Bytes)
    (clock : ℚ) (now : Option ℚ) (revocation : Option RevocationList) :
    OnlyRaises IsIdentityError (self.verify env trustedIssuer clock now revocation) ↔
      self.publicKey.length = X25519_KEY_LEN ∧
        (self.issuer.length = ED25519_KEY_LEN → self.issuer = trustedIssuer →
          self.signature.length = ED25519_SIG_LEN → 0 < self.notAfter →
            now.getD clock ≤ self.notAfter →
              (Nat.toDigits 10 self.notAfter.natAbs).length ≤ MAX_STR_DIGITS ∧
                Plain self.subject ∧ env.ed25519.loads self.issuer = true) := by
  unfold verify
  simp only [onlyRaises_bind, onlyRaises_raiseIf, raiseIf_eq_ok_iff, validatePublicKey_eq_ok_iff,
    isIdentityError_identityError, implies_true, true_and, forall_const, not_or, not_not, ne_eq]
  rw [onlyRaises_validatePublicKey_iff]
  constructor
  · intro h
    obtain ⟨hkey, h⟩ := h
    refine ⟨hkey, fun hlength hissuer hsignature hpos hpast => ?_⟩
    obtain ⟨hcanonical, hloads⟩ := h hkey ⟨hlength, by simp [hissuer, constantTimeEqual]⟩ hsignature
      (not_le.mpr hpos) (not_lt.mpr hpast)
    obtain ⟨hdigits, hplain⟩ := (onlyRaises_canonical_iff _ _ _ _).mp hcanonical
    obtain ⟨message, hmessage⟩ := canonical_ok_iff.mpr ⟨hdigits, hplain⟩
    refine ⟨hdigits, hplain, ?_⟩
    by_contra hnot
    obtain ⟨text, htext⟩ := (hloads message hmessage).1 (by simpa using hnot)
    cases htext
  · intro h
    obtain ⟨hkey, h⟩ := h
    refine ⟨hkey, fun _ hissuer hsignature hpos hpast => ?_⟩
    have hequal : self.issuer = trustedIssuer :=
      constantTimeEqual_eq_true_iff.mp (by simpa using hissuer.2)
    obtain ⟨hdigits, hplain, hloads⟩ := h hissuer.1 hequal hsignature (not_le.mp hpos) (not_lt.mp hpast)
    refine ⟨(onlyRaises_canonical_iff _ _ _ _).mpr ⟨hdigits, hplain⟩, fun _ _ => ⟨?_, trivial⟩⟩
    simp [hloads]

/-- What a parsed certificate must meet for its verification to end in
acceptance or in `IdentityError`: a key of the right length, and, when the
checks before the signature pass, a canonical form. -/
def VerifiesCleanly (self : IdentityCertificate) (trustedIssuer : Bytes) (current : ℚ) : Prop :=
  self.publicKey.length = X25519_KEY_LEN ∧
    (self.issuer = trustedIssuer → self.signature.length = ED25519_SIG_LEN → 0 < self.notAfter →
      current ≤ self.notAfter →
        (Nat.toDigits 10 self.notAfter.natAbs).length ≤ MAX_STR_DIGITS ∧ Plain self.subject)

end IdentityCertificate

open IdentityCertificate

/-- With the certificate parsed, `_verify_certificate` raises what `verify`
raises, or an identity error of its own. -/
theorem onlyRaises_checkCertificate_iff {env : Env} {certBytes : Bytes} {cert : IdentityCertificate}
    (hne : certBytes ≠ []) (hparse : fromBytes env certBytes = .ok cert) (config : Config) (clock : ℚ)
    (trustedIssuer remoteStatic : Bytes) :
    OnlyRaises IsIdentityError
        (checkCertificate env config clock trustedIssuer remoteStatic certBytes) ↔
      OnlyRaises IsIdentityError (cert.verify env trustedIssuer clock none config.revocation) := by
  have hsubject : ∀ subject, OnlyRaises IsIdentityError (matchSubject config.expectedSubject subject) := by
    intro subject
    unfold matchSubject
    split
    · exact onlyRaises_pure.mpr trivial
    · simp
    · rw [onlyRaises_raiseIf]
      simp
  unfold checkCertificate
  simp only [onlyRaises_bind, onlyRaises_raiseIf, hparse, hne, onlyRaises_ok, Except.ok.injEq,
    forall_eq', isIdentityError_identityError, raiseIf_eq_ok_iff, hsubject, onlyRaises_pure,
    implies_true, true_and, and_true, not_false_eq_true, forall_const]

/-- `_verify_certificate` raises what its checks raise. -/
theorem onlyRaises_verifyCertificate_iff {Key T : Type} [Zero T] [LE T] (env : Env) {config : Config}
    {trustedIssuer : Bytes} (htrusted : config.trustedIssuer = some trustedIssuer) (clock : ℚ)
    (remoteStatic certBytes : Bytes) (world : World Key T) (p : PyError → Prop) :
    OnlyRaises p ((verifyCertificate env config clock remoteStatic certBytes).run world).1 ↔
      OnlyRaises p (checkCertificate env config clock trustedIssuer remoteStatic certBytes) := by
  unfold verifyCertificate
  rw [htrusted]
  simp only [Imp.run_bind, Imp.run_ofExcept]
  cases checkCertificate env config clock trustedIssuer remoteStatic certBytes with
  | ok cert => simp [World.emitLog]
  | error exc => simp

/-- No certificate is empty. -/
theorem ne_nil_of_fromBytes {env : Env} {limit : Nat} {certBytes : Bytes} {cert : IdentityCertificate}
    (h : fromBytes (env.json limit) certBytes = .ok cert) : certBytes ≠ [] := by
  intro hnil
  have hloads : ∀ limit, Json.loads limit [] = .error .value := by
    intro limit
    cases limit <;> rfl
  have hparse : parse (env.json limit) [] = .error (.valueError []) := by
    show loadsJson limit [] >>= _ = _
    rw [loadsJson, hloads]
    rfl
  rw [hnil, fromBytes, hparse] at h
  cases h

/-- **Which verifications end in acceptance or in `IdentityError`**, of
`verify` and of `_verify_certificate`, under a trusted issuer that is an
Ed25519 key. -/
theorem verification_refuses_iff (env : Env) (limit : Nat) (cert : IdentityCertificate)
    {trustedIssuer : Bytes} (length_issuer : trustedIssuer.length = ED25519_KEY_LEN)
    (loads_issuer : env.ed25519.loads trustedIssuer = true) (clock : ℚ)
    (revocation : Option RevocationList) :
    (∀ now, OnlyRaises IsIdentityError (cert.verify env trustedIssuer clock now revocation) ↔
      cert.VerifiesCleanly trustedIssuer (now.getD clock)) ∧
    ∀ {Key T : Type} [Zero T] [LE T] (config : Config) (remoteStatic certBytes : Bytes)
      (world : World Key T), config.trustedIssuer = some trustedIssuer →
        config.revocation = revocation → fromBytes (env.json limit) certBytes = .ok cert →
          (OnlyRaises IsIdentityError
              ((verifyCertificate (env.json limit) config clock remoteStatic certBytes).run world).1 ↔
            cert.VerifiesCleanly trustedIssuer clock) := by
  have hverify : ∀ now, OnlyRaises IsIdentityError
      (cert.verify env trustedIssuer clock now revocation) ↔
        cert.VerifiesCleanly trustedIssuer (now.getD clock) := by
    intro now
    rw [onlyRaises_verify_iff, VerifiesCleanly]
    refine and_congr_right fun _ => ⟨fun h hissuer => ?_, fun h _ hissuer => ?_⟩
    · intro hsignature hpos hpast
      obtain ⟨hdigits, hplain, -⟩ := h (by rw [hissuer, length_issuer]) hissuer hsignature hpos hpast
      exact ⟨hdigits, hplain⟩
    · intro hsignature hpos hpast
      obtain ⟨hdigits, hplain⟩ := h hissuer hsignature hpos hpast
      exact ⟨hdigits, hplain, by rw [hissuer, loads_issuer]⟩
  refine ⟨hverify, ?_⟩
  intro Key T _ _ config remoteStatic certBytes world htrusted hrevocation hparse
  rw [onlyRaises_verifyCertificate_iff _ htrusted,
    onlyRaises_checkCertificate_iff (ne_nil_of_fromBytes hparse) hparse, hrevocation]
  exact hverify none

/-- A certificate that the trusted issuer did sign, for a lone surrogate. -/
def surrogateCertificate : IdentityCertificate :=
  ⟨[⟨0xD800, by decide⟩], List.replicate 32 5, 2000, List.replicate 32 7, List.replicate 64 0⟩

def surrogateBytes : Bytes := surrogateCertificate.toBytes.toOption.getD []

/-- The JSON escape of a lone surrogate is read without complaint. -/
theorem fromBytes_surrogateBytes :
    fromBytes ((exampleEnv (fun _ => .ok .null) (SignatureScheme.stamp 64)).json 10)
      surrogateBytes = .ok surrogateCertificate := by
  decide +kernel

/-- The subject has no encoding. -/
theorem verification_escapes_surrogate :
    let env := (exampleEnv (fun _ => .ok .null) (SignatureScheme.stamp 64)).json 10
    let trustedIssuer : Bytes := List.replicate 32 7
    fromBytes env surrogateBytes = .ok surrogateCertificate ∧
      surrogateCertificate.verify env trustedIssuer 1500 none none = .error (.valueError []) ∧
      ¬OnlyRaises IsIdentityError
        (surrogateCertificate.verify env trustedIssuer 1500 none none) := by
  have hverify : surrogateCertificate.verify
      ((exampleEnv (fun _ => .ok .null) (SignatureScheme.stamp 64)).json 10)
      (List.replicate 32 7) 1500 none none = .error (.valueError []) := by
    decide +kernel
  refine ⟨fromBytes_surrogateBytes, hverify, ?_⟩
  rw [hverify, onlyRaises_error]
  simp [IsIdentityError]

/-- A certificate whose subject is a lone surrogate. -/
theorem verification_refuses_iff_surrogate :
    let env := exampleEnv (fun _ => .ok .null) (SignatureScheme.stamp 64)
    let config : Config :=
      ⟨false, none, none, false, some (List.replicate 32 7), some .anySubject, none, false, none⟩
    let world : World Nat ℤ := ⟨KnownPeers.empty, [], [], []⟩
    (OnlyRaises IsIdentityError ((verifyCertificate (env.json 10) config 1500 (List.replicate 32 5)
        surrogateBytes).run world).1 ↔
      surrogateCertificate.VerifiesCleanly (List.replicate 32 7) 1500) :=
  have length_issuer : (List.replicate 32 7 : Bytes).length = ED25519_KEY_LEN := by decide
  (verification_refuses_iff (exampleEnv (fun _ => .ok .null) (SignatureScheme.stamp 64)) 10
    surrogateCertificate length_issuer rfl 1500 none).2 _ _ _ _ rfl rfl fromBytes_surrogateBytes

/-! ## What is issued -/

namespace CertificateAuthority

/-- **Issued certificates survive the wire and verify.**  They are read back
as they were; under the key of the authority, before they expire and while
they are on no list, they verify; otherwise they are refused as an identity
error. -/
theorem issued_survives (env : Env)
    (correct : env.ed25519.Correct ED25519_KEY_LEN ED25519_SIG_LEN) {limit : Nat}
    (hlimit : 1 ≤ limit) (self : CertificateAuthority)
    (length_key : self.signingKey.length = ED25519_KEY_LEN) (call : IssueCall)
    {cert : IdentityCertificate} {self' : CertificateAuthority}
    (h : (issue env call.subject call.publicKey call.notAfter call.lifetime).run self =
      (.ok cert, self')) :
    ∃ data parsed, cert.toBytes = .ok data ∧ fromBytes (env.json limit) data = .ok parsed ∧
      parsed = cert ∧
      ∀ (trustedIssuer : Bytes) (clock : ℚ) (now : Option ℚ) (revocation : Option RevocationList),
        (trustedIssuer = self.publicKey env → now.getD clock ≤ parsed.notAfter →
          (∀ list, revocation = some list →
            parsed.publicKey ∉ list.keys ∧ parsed.subject ∉ list.subjects) →
          parsed.verify (env.json limit) trustedIssuer clock now revocation = .ok ()) ∧
        (trustedIssuer ≠ self.publicKey env ∨ parsed.notAfter < now.getD clock ∨
          (∃ list, revocation = some list ∧
            (parsed.publicKey ∈ list.keys ∨ parsed.subject ∈ list.subjects)) →
          ∃ message, parsed.verify (env.json limit) trustedIssuer clock now revocation =
            .error (.identityError message)) := by
  have hout := issue_outcome env self call
  rw [h] at hout
  cases hout with
  | issued expiry message key_length hexpiry pos hmessage =>
  obtain ⟨hdigits, hplain⟩ := canonical_ok_iff.mp ⟨message, hmessage⟩
  have hloads := correct.loads_publicKey self.signingKey length_key
  obtain ⟨data, hdata, hparse⟩ := fromBytes_toBytes env hlimit ⟨call.subject, call.publicKey, expiry,
    self.publicKey env, env.ed25519.sign self.signingKey message⟩ hdigits hplain
  refine ⟨data, _, hdata, hparse, rfl, fun trustedIssuer clock now revocation => ⟨?_, ?_⟩⟩
  · intro hissuer hpast hlists
    refine verify_eq_ok_iff.mpr ⟨key_length, correct.length_publicKey _ length_key, hissuer.symm,
      correct.length_sign _ message length_key, pos, hpast,
      ⟨message, hmessage, hloads, correct.verify_sign _ message length_key⟩, ?_⟩
    intro list hlist
    obtain ⟨hkey, hsubject⟩ := hlists list hlist
    simp [RevocationList.isRevoked, RevocationList.isRevokedKey, RevocationList.isRevokedSubject,
      hkey, hsubject]
  · intro hbad
    have hnot : ∀ u, IdentityCertificate.verify (env.json limit) ⟨call.subject, call.publicKey, expiry,
        self.publicKey env, env.ed25519.sign self.signingKey message⟩ trustedIssuer clock now
        revocation ≠ .ok u := by
      intro u hok
      have hverified := verify_eq_ok_iff.mp hok
      obtain hissuer | hpast | ⟨list, hlist, hrevoked⟩ := hbad
      · exact hissuer hverified.issuer_eq.symm
      · exact absurd hverified.not_expired (not_le.mpr hpast)
      · have hgood := hverified.not_revoked list hlist
        simp only [RevocationList.isRevoked, RevocationList.isRevokedKey,
          RevocationList.isRevokedSubject, Bool.or_eq_false_iff, decide_eq_false_iff_not] at hgood
        exact hrevoked.elim hgood.1 hgood.2
    have hclean := (onlyRaises_verify_iff (env.json limit) ⟨call.subject, call.publicKey, expiry,
      self.publicKey env, env.ed25519.sign self.signingKey message⟩ trustedIssuer clock now
      revocation).mpr ⟨key_length, fun _ _ _ _ _ => ⟨hdigits, hplain, hloads⟩⟩
    revert hnot hclean
    generalize IdentityCertificate.verify (env.json limit) _ trustedIssuer clock now revocation = result
    intro hnot hclean
    cases result with
    | ok u => exact absurd rfl (hnot u)
    | error exc =>
        obtain ⟨text, rfl⟩ := hclean exc rfl
        exact ⟨text, rfl⟩

/-- A subject that looks like the fields around it is issued, sent and read back as it was. -/
theorem issued_survives_lookalike :
    let env := exampleEnv (fun _ => .ok .null) (SignatureScheme.stamp 64)
    ∃ data parsed, fromBytes (env.json 10) data = .ok parsed ∧
      parsed.subject = lookalike.subject ∧
      parsed.verify (env.json 10) (List.replicate 32 7) 1500 none none = .ok () := by
  let env := exampleEnv (fun _ => .ok .null) (SignatureScheme.stamp 64)
  have hrun : ((issue env lookalike.subject lookalike.publicKey lookalike.notAfter
      lookalike.lifetime).run ⟨List.replicate 32 7, []⟩).1 = .ok ⟨lookalike.subject,
        lookalike.publicKey, 2000, List.replicate 32 7, List.replicate 64 0⟩ := by
    decide +kernel
  generalize hissue : (issue env lookalike.subject lookalike.publicKey lookalike.notAfter
    lookalike.lifetime).run ⟨List.replicate 32 7, []⟩ = r at hrun
  obtain ⟨result, self'⟩ := r
  obtain rfl : result = _ := hrun
  have hlimit : 1 ≤ 10 := by decide
  have length_key : (List.replicate 32 7 : Bytes).length = ED25519_KEY_LEN := by decide
  obtain ⟨data, parsed, -, hparse, rfl, hverify⟩ := issued_survives env
    (SignatureScheme.correct_stamp _ _) hlimit ⟨List.replicate 32 7, []⟩ length_key lookalike
    hissue
  refine ⟨data, _, hparse, rfl, (hverify _ 1500 none none).1 rfl ?_ ?_⟩
  · show (1500 : ℚ) ≤ ((2000 : ℤ) : ℚ)
    norm_num
  · intro list hlist
    cases hlist

end CertificateAuthority

end SecureWs
