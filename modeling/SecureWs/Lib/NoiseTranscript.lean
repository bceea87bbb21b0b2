import SecureWs.Lib.NoiseXX

/-!
# SecureWs.Lib.NoiseTranscript

The handshake hash of Noise XX as a hash of everything that was exchanged.

* `parts` cuts a message where it is mixed into the hash: behind every key, and
  behind the payload;
* `transcriptHash` mixes in the prologue and then the parts of every message;
* `Advances` is what a message does to a state, the same for the end that
  writes it (`advances_of_write`) and the end that reads it
  (`advances_of_read`);
* `transcriptHash_inj`: where the hash does not collide on what was hashed,
  equal hashes come from equal prologues and equal messages.
-/

namespace NoiseXX

variable {Key : Type}

/-! ## Hashing part by part -/

section Absorb

variable (P : Primitives Key)

/-- Mix in the parts, one after the other. -/
def absorb (h : List UInt8) (parts : List (List UInt8)) : List UInt8 :=
  parts.foldl (fun h part => P.hash (h ++ part)) h

/-- What is hashed on the way. -/
def hashed : List UInt8 → List (List UInt8) → List (List UInt8)
  | _, [] => []
  | h, part :: parts => (h ++ part) :: hashed (P.hash (h ++ part)) parts

/-- The hash has outputs of this length. -/
def Primitives.HashLength (n : Nat) : Prop := ∀ data, (P.hash data).length = n

/-- The hash does not collide on these inputs. -/
def Primitives.Distinct (inputs inputs' : List (List UInt8)) : Prop :=
  ∀ x ∈ inputs, ∀ y ∈ inputs', P.hash x = P.hash y → x = y

instance (inputs inputs' : List (List UInt8)) : Decidable (P.Distinct inputs inputs') :=
  inferInstanceAs (Decidable (∀ x ∈ inputs, ∀ y ∈ inputs', P.hash x = P.hash y → x = y))

variable {P}

theorem absorb_append (h : List UInt8) (parts parts' : List (List UInt8)) :
    absorb P h (parts ++ parts') = absorb P (absorb P h parts) parts' :=
  List.foldl_append

/-- Once anything is mixed in, the hash has the length of its outputs. -/
theorem length_absorb {n : Nat} (hlen : P.HashLength n) {h : List UInt8} {parts : List (List UInt8)}
    (hne : parts ≠ []) : (absorb P h parts).length = n := by
  obtain rfl | ⟨init, last, rfl⟩ := List.eq_nil_or_concat parts
  · contradiction
  · rw [List.concat_eq_append, absorb_append]
    exact hlen _

/-- **Equal hashes, equal parts**, for as many parts on either side. -/
theorem absorb_inj {n : Nat} (hlen : P.HashLength n) {h h' : List UInt8}
    {parts parts' : List (List UInt8)} (hstart : h.length = h'.length)
    (hcount : parts.length = parts'.length)
    (hdistinct : P.Distinct (hashed P h parts) (hashed P h' parts'))
    (heq : absorb P h parts = absorb P h' parts') : h = h' ∧ parts = parts' := by
  induction parts generalizing h h' parts' with
  | nil =>
      obtain rfl := List.eq_nil_of_length_eq_zero hcount.symm
      exact ⟨heq, rfl⟩
  | cons part parts ih =>
      cases parts' with
      | nil => simp at hcount
      | cons part' parts' =>
          -- the later parts first: they leave the hashes after this one equal
          obtain ⟨hhash, rfl⟩ := ih ((hlen _).trans (hlen _).symm) (Nat.succ.inj hcount)
            (fun x hx y hy => hdistinct x (List.mem_cons_of_mem _ hx) y (List.mem_cons_of_mem _ hy)) heq
          have hinput := hdistinct _ List.mem_cons_self _ List.mem_cons_self hhash
          obtain ⟨rfl, rfl⟩ := List.append_inj hinput hstart
          exact ⟨rfl, rfl⟩

end Absorb

/-! ## The parts of a message -/

/-- The length of a static key on the wire. -/
def sealedLength (key : Bool) : Nat := keyLength + if key = true then tagLength else 0

/-- A message, cut where it is mixed into the hash. -/
def parts : List Token → Bool → List UInt8 → List (List UInt8)
  | [], _, data => [data]
  | .e :: tokens, key, data => data.take keyLength :: parts tokens key (data.drop keyLength)
  | .s :: tokens, key, data =>
      data.take (sealedLength key) :: parts tokens key (data.drop (sealedLength key))
  | _ :: tokens, _, data => parts tokens true data

/-- Whether there is a cipher key after the tokens. -/
def keyed : List Token → Bool → Bool
  | [], key => key
  | .e :: tokens, key => keyed tokens key
  | .s :: tokens, key => keyed tokens key
  | _ :: tokens, _ => keyed tokens true

/-- The parts of the messages of a handshake. -/
def transcript : List (List Token) → Bool → List (List UInt8) → List (List UInt8)
  | tokens :: remaining, key, message :: messages =>
      parts tokens key message ++ transcript remaining (keyed tokens key) messages
  | _, _, _ => []

def transcriptHash (P : Primitives Key) (name prologue : List UInt8)
    (messages : List (List UInt8)) : List UInt8 :=
  absorb P name (prologue :: transcript pattern false messages)

def transcriptInputs (P : Primitives Key) (name prologue : List UInt8)
    (messages : List (List UInt8)) : List (List UInt8) :=
  hashed P name (prologue :: transcript pattern false messages)

/-- The parts make up the message. -/
theorem flatten_parts (tokens : List Token) (key : Bool) (data : List UInt8) :
    (parts tokens key data).flatten = data := by
  induction tokens generalizing key data with
  | nil => simp [parts]
  | cons token tokens ih => cases token <;> simp [parts, ih]

/-- How many parts there are depends on the tokens only. -/
theorem length_parts (tokens : List Token) (key : Bool) (data data' : List UInt8) :
    (parts tokens key data).length = (parts tokens key data').length := by
  induction tokens generalizing key data data' with
  | nil => rfl
  | cons token tokens ih => cases token <;> simp [parts, ih _ _ data']

/-- How many parts a handshake has depends on the number of its messages only. -/
theorem length_transcript {remaining : List (List Token)} {messages messages' : List (List UInt8)}
    (key : Bool) (hcount : messages.length = messages'.length) :
    (transcript remaining key messages).length = (transcript remaining key messages').length := by
  induction remaining generalizing key messages messages' with
  | nil => rfl
  | cons tokens remaining ih =>
      cases messages with
      | nil =>
          obtain rfl := List.eq_nil_of_length_eq_zero hcount.symm
          rfl
      | cons message messages =>
          cases messages' with
          | nil => simp at hcount
          | cons message' messages' =>
              simp only [transcript, List.length_append]
              rw [length_parts tokens key message message', ih _ (Nat.succ.inj hcount)]

/-- The parts give the messages back. -/
theorem transcript_inj {remaining : List (List Token)} {messages messages' : List (List UInt8)}
    {key : Bool} (hcount : messages.length = messages'.length)
    (hfits : messages.length ≤ remaining.length)
    (heq : transcript remaining key messages = transcript remaining key messages') :
    messages = messages' := by
  induction remaining generalizing key messages messages' with
  | nil =>
      obtain rfl := List.eq_nil_of_length_eq_zero (Nat.le_zero.mp hfits)
      exact (List.eq_nil_of_length_eq_zero hcount.symm).symm
  | cons tokens remaining ih =>
      cases messages with
      | nil => exact (List.eq_nil_of_length_eq_zero hcount.symm).symm
      | cons message messages =>
          cases messages' with
          | nil => simp at hcount
          | cons message' messages' =>
              obtain ⟨hfirst, hrest⟩ :=
                List.append_inj heq (length_parts tokens key message message')
              have hmessage : message = message' := by
                rw [← flatten_parts tokens key message, hfirst, flatten_parts]
              rw [hmessage, ih (Nat.succ.inj hcount) (Nat.succ_le_succ_iff.mp hfits) hrest]

/-- **The hash binds the transcript.**  Where the hash does not collide on what
the two handshakes hash, equal hashes come from equal prologues and equal
messages. -/
theorem transcriptHash_inj {P : Primitives Key} {n : Nat} (hlen : P.HashLength n)
    {name name' prologue prologue' : List UInt8} {messages messages' : List (List UInt8)}
    (hname : name.length = name'.length) (hcount : messages.length = messages'.length)
    (hfits : messages.length ≤ pattern.length)
    (hdistinct : P.Distinct (transcriptInputs P name prologue messages)
      (transcriptInputs P name' prologue' messages'))
    (heq : transcriptHash P name prologue messages = transcriptHash P name' prologue' messages') :
    name = name' ∧ prologue = prologue' ∧ messages = messages' := by
  have hparts : (prologue :: transcript pattern false messages).length =
      (prologue' :: transcript pattern false messages').length := by
    rw [List.length_cons, List.length_cons, length_transcript false hcount]
  obtain ⟨hstart, hall⟩ := absorb_inj hlen hname hparts hdistinct heq
  obtain ⟨hprologue, hmessages⟩ := List.cons.inj hall
  exact ⟨hstart, hprologue, transcript_inj hcount hfits hmessages⟩

/-! ## What a message does to a state -/

/-- Whether there is a cipher key. -/
def State.key (self : State Key) : Bool := self.symmetric.cipher.isSome

/-- A state before a message with these tokens, and after it: the message is
mixed into the hash part by part. -/
structure Advances (P : Primitives Key) (tokens : List Token) (before : State Key)
    (message : List UInt8) (after : State Key) : Prop where
  remaining : before.remaining = tokens :: after.remaining
  hash : after.symmetric.h = absorb P before.symmetric.h (parts tokens before.key message)
  key : after.key = keyed tokens before.key
  finished : after.transport.isSome = true ↔ after.remaining = []

section States

variable {P : Primitives Key} {self self' : State Key}

/-- A Diffie-Hellman token leaves everything but the key alone. -/
theorem mixDh_frame {token : Token} (h : self.mixDh P token = .ok self') :
    self'.symmetric.h = self.symmetric.h ∧ self'.key = true ∧ self'.remaining = self.remaining := by
  unfold State.mixDh at h
  cases hexchange : self.exchange token with
  | none => simp [hexchange] at h
  | some keys =>
      simp only [hexchange] at h
      by_cases hzero : P.dh keys.1 keys.2 = zeroSecret
      · simp [hzero] at h
      · rw [if_neg hzero, Except.ok.injEq] at h
        subst h
        exact ⟨rfl, rfl, rfl⟩

/-- A Diffie-Hellman token, with the message it leaves alone. -/
theorem mixDh_of_map {token : Token} {data data' : List UInt8}
    (h : (self.mixDh P token).map (fun self => (data, self)) = .ok (data', self')) :
    data' = data ∧ self.mixDh P token = .ok self' := by
  cases hmix : self.mixDh P token with
  | error failure => simp [hmix, Except.map] at h
  | ok mixed =>
      simp only [hmix, Except.map, Except.ok.injEq, Prod.mk.injEq] at h
      exact ⟨h.1.symm, congrArg _ h.2⟩

/-- Encrypting does not make or drop a cipher key. -/
theorem key_encryptAndHash (symmetric : Symmetric Key) (plaintext : List UInt8) :
    (symmetric.encryptAndHash P plaintext).2.cipher.isSome = symmetric.cipher.isSome := by
  unfold Symmetric.encryptAndHash
  cases hcipher : symmetric.cipher with
  | none => simp [Symmetric.mixHash, hcipher]
  | some key => rfl

/-- What is encrypted goes into the hash as it is on the wire. -/
theorem hash_encryptAndHash (symmetric : Symmetric Key) (plaintext : List UInt8) :
    (symmetric.encryptAndHash P plaintext).2.h =
      P.hash (symmetric.h ++ (symmetric.encryptAndHash P plaintext).1) := by
  unfold Symmetric.encryptAndHash
  cases symmetric.cipher <;> rfl

/-- What is decrypted goes into the hash as it was on the wire, and the key stays. -/
theorem decryptAndHash_frame {symmetric symmetric' : Symmetric Key} {data plaintext : List UInt8}
    (h : symmetric.decryptAndHash P data = some (plaintext, symmetric')) :
    symmetric'.h = P.hash (symmetric.h ++ data) ∧
      symmetric'.cipher.isSome = symmetric.cipher.isSome := by
  unfold Symmetric.decryptAndHash at h
  cases hcipher : symmetric.cipher with
  | none =>
      simp only [hcipher, Option.some.injEq, Prod.mk.injEq] at h
      rw [← h.2]
      simp [Symmetric.mixHash, hcipher]
  | some key =>
      simp only [hcipher, Option.map_eq_some_iff, Prod.mk.injEq] at h
      obtain ⟨-, -, -, hsymmetric⟩ := h
      rw [← hsymmetric]
      exact ⟨rfl, rfl⟩

variable (P) in
/-- Where the hash, the key and the pattern will be after these tokens and the
payload, if this is what is left of the message. -/
def State.ahead (self : State Key) (tokens : List Token) (data : List UInt8) :
    List UInt8 × Bool × List (List Token) :=
  (absorb P self.symmetric.h (parts tokens self.key data), keyed tokens self.key, self.remaining)

/-- A Diffie-Hellman token adds nothing to the message. -/
theorem ahead_mixDh {token : Token} (h : self.mixDh P token = .ok self')
    (hparts : ∀ tokens data, parts (token :: tokens) self.key data = parts tokens true data)
    (hkeyed : ∀ tokens, keyed (token :: tokens) self.key = keyed tokens true)
    (tokens : List Token) (data : List UInt8) :
    self.ahead P (token :: tokens) data = self'.ahead P tokens data := by
  obtain ⟨hhash, hkey, hremaining⟩ := mixDh_frame h
  rw [State.ahead, State.ahead, hparts, hkeyed, hhash, hkey, hremaining]

/-- A token that is mixed into the hash. -/
theorem ahead_mixHash {part : List UInt8}
    (hhash : self'.symmetric.h = P.hash (self.symmetric.h ++ part)) (hkey : self'.key = self.key)
    (hremaining : self'.remaining = self.remaining) {token : Token} {tokens : List Token}
    {data rest : List UInt8}
    (hparts : parts (token :: tokens) self.key data = part :: parts tokens self.key rest)
    (hkeyed : keyed (token :: tokens) self.key = keyed tokens self.key) :
    self.ahead P (token :: tokens) data = self'.ahead P tokens rest := by
  rw [State.ahead, State.ahead, hkey, hremaining, hparts, hkeyed, hhash]
  rfl

/-- A token that is written. -/
theorem ahead_writeToken (lawful : P.Lawful) {token : Token} {bytes : List UInt8}
    (h : self.writeToken P token = .ok (bytes, self')) (tokens : List Token) (rest : List UInt8) :
    self.ahead P (token :: tokens) (bytes ++ rest) = self'.ahead P tokens rest := by
  cases token with
  | e =>
      simp only [State.writeToken, Except.ok.injEq, Prod.mk.injEq] at h
      obtain ⟨rfl, rfl⟩ := h
      have hparts : parts (.e :: tokens) self.key (P.publicKey self.e ++ rest) =
          P.publicKey self.e :: parts tokens self.key rest := by
        simp [parts, ← lawful.length_publicKey self.e]
      apply ahead_mixHash _ _ _ hparts
      all_goals rfl
  | s =>
      simp only [State.writeToken, Except.ok.injEq, Prod.mk.injEq] at h
      obtain ⟨rfl, rfl⟩ := h
      have hlen : (self.symmetric.encryptAndHash P (P.publicKey self.s)).1.length =
          sealedLength self.key := by
        rw [Symmetric.length_encryptAndHash lawful.overhead, lawful.length_publicKey]
        rfl
      have hparts : parts (.s :: tokens) self.key
          ((self.symmetric.encryptAndHash P (P.publicKey self.s)).1 ++ rest) =
          (self.symmetric.encryptAndHash P (P.publicKey self.s)).1 :: parts tokens self.key rest := by
        simp [parts, ← hlen]
      apply ahead_mixHash _ _ _ hparts
      · rfl
      · exact hash_encryptAndHash _ _
      · exact key_encryptAndHash _ _
      · rfl
  | ee =>
      obtain ⟨rfl, hmix⟩ := mixDh_of_map h
      exact ahead_mixDh hmix (fun _ _ => rfl) (fun _ => rfl) tokens rest
  | es =>
      obtain ⟨rfl, hmix⟩ := mixDh_of_map h
      exact ahead_mixDh hmix (fun _ _ => rfl) (fun _ => rfl) tokens rest
  | se =>
      obtain ⟨rfl, hmix⟩ := mixDh_of_map h
      exact ahead_mixDh hmix (fun _ _ => rfl) (fun _ => rfl) tokens rest

/-- A token that is read. -/
theorem ahead_readToken {token : Token} {data rest : List UInt8}
    (h : self.readToken P data token = .ok (rest, self')) (tokens : List Token) :
    self.ahead P (token :: tokens) data = self'.ahead P tokens rest := by
  cases token with
  | e =>
      simp only [State.readToken] at h
      by_cases hshort : data.length < keyLength
      · simp [hshort] at h
      · rw [if_neg hshort, Except.ok.injEq, Prod.mk.injEq] at h
        obtain ⟨rfl, rfl⟩ := h
        apply ahead_mixHash
        all_goals rfl
  | s =>
      simp only [State.readToken] at h
      by_cases hshort : data.length < keyLength + self.symmetric.overhead
      · simp [hshort] at h
      rw [if_neg hshort] at h
      cases hopen : self.symmetric.decryptAndHash P
          (data.take (keyLength + self.symmetric.overhead)) with
      | none => simp [hopen] at h
      | some opened =>
          simp only [hopen, Except.ok.injEq, Prod.mk.injEq] at h
          obtain ⟨rfl, rfl⟩ := h
          obtain ⟨hhash, hkey⟩ := decryptAndHash_frame hopen
          apply ahead_mixHash hhash
          · exact hkey
          all_goals rfl
  | ee =>
      obtain ⟨rfl, hmix⟩ := mixDh_of_map h
      exact ahead_mixDh hmix (fun _ _ => rfl) (fun _ => rfl) tokens rest
  | es =>
      obtain ⟨rfl, hmix⟩ := mixDh_of_map h
      exact ahead_mixDh hmix (fun _ _ => rfl) (fun _ => rfl) tokens rest
  | se =>
      obtain ⟨rfl, hmix⟩ := mixDh_of_map h
      exact ahead_mixDh hmix (fun _ _ => rfl) (fun _ => rfl) tokens rest

/-- The tokens of a message that is written. -/
theorem ahead_writeTokens (lawful : P.Lawful) {tokens : List Token} {bytes : List UInt8}
    (h : self.writeTokens P tokens = .ok (bytes, self')) (rest : List UInt8) :
    self.ahead P tokens (bytes ++ rest) = self'.ahead P [] rest := by
  induction tokens generalizing self bytes with
  | nil =>
      simp only [State.writeTokens, Except.ok.injEq, Prod.mk.injEq] at h
      obtain ⟨rfl, rfl⟩ := h
      rfl
  | cons token tokens ih =>
      obtain ⟨⟨first, between⟩, hfirst, hrest⟩ := bind_eq_ok_iff.mp h
      obtain ⟨⟨more, last⟩, hmore, hpure⟩ := bind_eq_ok_iff.mp hrest
      simp only [pure, Except.pure, Except.ok.injEq, Prod.mk.injEq] at hpure
      obtain ⟨rfl, rfl⟩ := hpure
      rw [List.append_assoc, ahead_writeToken lawful hfirst tokens (more ++ rest), ih hmore]

/-- The tokens of a message that is read. -/
theorem ahead_readTokens {tokens : List Token} {data rest : List UInt8}
    (h : self.readTokens P tokens data = .ok (rest, self')) :
    self.ahead P tokens data = self'.ahead P [] rest := by
  induction tokens generalizing self data with
  | nil =>
      simp only [State.readTokens, Except.ok.injEq, Prod.mk.injEq] at h
      obtain ⟨rfl, rfl⟩ := h
      rfl
  | cons token tokens ih =>
      obtain ⟨⟨between, mid⟩, hfirst, hrest⟩ := bind_eq_ok_iff.mp h
      rw [ahead_readToken hfirst tokens, ih hrest]

/-- After the payload. -/
theorem advances_of_ahead {tokens : List Token} {remaining : List (List Token)}
    {message payload : List UInt8} {symmetric : Symmetric Key} {between : State Key}
    (hremaining : self.remaining = tokens :: remaining)
    (hahead : self.ahead P tokens message = between.ahead P [] payload)
    (hhash : symmetric.h = P.hash (between.symmetric.h ++ payload))
    (hkey : symmetric.cipher.isSome = between.symmetric.cipher.isSome)
    (hself' : self' = State.finish P { between with symmetric := symmetric } remaining) :
    Advances P tokens self message self' := by
  simp only [State.ahead, Prod.mk.injEq] at hahead
  obtain ⟨hparts, hkeyed, -⟩ := hahead
  subst hself'
  refine ⟨hremaining, ?_, hkey.trans hkeyed.symm, ?_⟩
  · rw [hparts]
    exact hhash
  · by_cases hlast : remaining = [] <;> simp [State.finish, hlast]

/-- **A message that is written** goes into the hash part by part. -/
theorem advances_of_write (lawful : P.Lawful) {payload message : List UInt8}
    (h : self.writeMessage P payload = .ok (message, self')) :
    ∃ tokens, Advances P tokens self message self' := by
  unfold State.writeMessage at h
  cases hremaining : self.remaining with
  | nil => simp [hremaining] at h
  | cons tokens remaining =>
      simp only [hremaining, raiseIf_bind_except] at h
      by_cases hturn : self.writesNext = false
      · simp [hturn] at h
      rw [if_neg hturn] at h
      obtain ⟨⟨bytes, between⟩, htokens, hrest⟩ := bind_eq_ok_iff.mp h
      simp only [pure, Except.pure, Except.ok.injEq, Prod.mk.injEq] at hrest
      obtain ⟨rfl, hself'⟩ := hrest
      exact ⟨tokens, advances_of_ahead hremaining (ahead_writeTokens lawful htokens _)
        (hash_encryptAndHash _ _) (key_encryptAndHash _ _) hself'.symm⟩

/-- **A message that is read** goes into the hash part by part. -/
theorem advances_of_read {payload message : List UInt8}
    (h : self.readMessage P message = .ok (payload, self')) :
    ∃ tokens, Advances P tokens self message self' := by
  unfold State.readMessage at h
  cases hremaining : self.remaining with
  | nil => simp [hremaining] at h
  | cons tokens remaining =>
      simp only [hremaining, raiseIf_bind_except] at h
      by_cases hturn : self.writesNext = true
      · simp [hturn] at h
      rw [if_neg hturn] at h
      obtain ⟨⟨rest, between⟩, htokens, hrest⟩ := bind_eq_ok_iff.mp h
      simp only at hrest
      cases hopen : between.symmetric.decryptAndHash P rest with
      | none => simp [hopen] at hrest
      | some opened =>
          simp only [hopen, pure, Except.pure, Except.ok.injEq, Prod.mk.injEq] at hrest
          obtain ⟨hhash, hkey⟩ := decryptAndHash_frame hopen
          exact ⟨tokens, advances_of_ahead hremaining (ahead_readTokens htokens) hhash hkey
            hrest.2.symm⟩

/-! ## The length of a message -/

def tokensLength : List Token → Bool → Nat
  | [], _ => 0
  | .e :: tokens, key => keyLength + tokensLength tokens key
  | .s :: tokens, key => sealedLength key + tokensLength tokens key
  | _ :: tokens, _ => tokensLength tokens true

/-- The length of a message with an empty payload. -/
def messageOverhead (tokens : List Token) (key : Bool) : Nat :=
  tokensLength tokens key + if keyed tokens key = true then tagLength else 0

/-- A token adds its length to the message. -/
theorem length_writeToken (lawful : P.Lawful) {token : Token} {bytes : List UInt8}
    (h : self.writeToken P token = .ok (bytes, self')) (tokens : List Token) :
    tokensLength (token :: tokens) self.key = bytes.length + tokensLength tokens self'.key := by
  cases token with
  | e =>
      simp only [State.writeToken, Except.ok.injEq, Prod.mk.injEq] at h
      obtain ⟨rfl, rfl⟩ := h
      rw [lawful.length_publicKey]
      rfl
  | s =>
      simp only [State.writeToken, Except.ok.injEq, Prod.mk.injEq] at h
      obtain ⟨rfl, rfl⟩ := h
      have hkey := key_encryptAndHash (P := P) self.symmetric (P.publicKey self.s)
      unfold State.key
      rw [Symmetric.length_encryptAndHash lawful.overhead, lawful.length_publicKey, hkey]
      rfl
  | ee =>
      obtain ⟨rfl, hmix⟩ := mixDh_of_map h
      rw [(mixDh_frame hmix).2.1, List.length_nil, Nat.zero_add]
      rfl
  | es =>
      obtain ⟨rfl, hmix⟩ := mixDh_of_map h
      rw [(mixDh_frame hmix).2.1, List.length_nil, Nat.zero_add]
      rfl
  | se =>
      obtain ⟨rfl, hmix⟩ := mixDh_of_map h
      rw [(mixDh_frame hmix).2.1, List.length_nil, Nat.zero_add]
      rfl

/-- The tokens of a message have a fixed length. -/
theorem length_writeTokens (lawful : P.Lawful) {tokens : List Token} {bytes : List UInt8}
    (h : self.writeTokens P tokens = .ok (bytes, self')) :
    bytes.length = tokensLength tokens self.key := by
  induction tokens generalizing self bytes with
  | nil =>
      simp only [State.writeTokens, Except.ok.injEq, Prod.mk.injEq] at h
      rw [← h.1]
      rfl
  | cons token tokens ih =>
      obtain ⟨⟨first, between⟩, hfirst, hrest⟩ := bind_eq_ok_iff.mp h
      obtain ⟨⟨more, last⟩, hmore, hpure⟩ := bind_eq_ok_iff.mp hrest
      simp only [pure, Except.pure, Except.ok.injEq, Prod.mk.injEq] at hpure
      obtain ⟨rfl, rfl⟩ := hpure
      rw [List.length_append, ih hmore, length_writeToken lawful hfirst]

/-- How much longer a message is than its payload. -/
theorem length_of_write (lawful : P.Lawful) {payload message : List UInt8} {tokens : List Token}
    {remaining : List (List Token)} (hremaining : self.remaining = tokens :: remaining)
    (h : self.writeMessage P payload = .ok (message, self')) :
    message.length = payload.length + messageOverhead tokens self.key := by
  unfold State.writeMessage at h
  simp only [hremaining, raiseIf_bind_except] at h
  by_cases hturn : self.writesNext = false
  · simp [hturn] at h
  rw [if_neg hturn] at h
  obtain ⟨⟨bytes, between⟩, htokens, hrest⟩ := bind_eq_ok_iff.mp h
  simp only [pure, Except.pure, Except.ok.injEq, Prod.mk.injEq] at hrest
  obtain ⟨rfl, -⟩ := hrest
  have hbytes := length_writeTokens lawful htokens
  have hkeyed : between.key = keyed tokens self.key := by
    have hahead := ahead_writeTokens lawful htokens []
    simp only [State.ahead, Prod.mk.injEq] at hahead
    exact hahead.2.1.symm
  rw [State.key] at hkeyed
  rw [List.length_append, Symmetric.length_encryptAndHash lawful.overhead, hbytes,
    Symmetric.overhead, hkeyed, messageOverhead]
  omega

end States

end NoiseXX
