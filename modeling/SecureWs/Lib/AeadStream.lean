import SecureWs.Lib.Aead

/-!
# SecureWs.Lib.AeadStream

A stream of messages under an AEAD with an implicit nonce counter, where
some messages replace the key once they are sent.

The sender of a list of messages is a function of that list: `cipher` is its
cipher state and `sealings` the encryptions it made.  A receiver `InStep`
with a list has the key and the counter that the sender had after it.

* `InStep.next_of_ideal`: under the ideal scheme, whatever such a receiver
  accepts is the very next message of the stream;
* `InStep.decrypt_next`: under a correct scheme it accepts that message;
* `InStep.push`: having accepted it, it is in step with one message more.
-/

/-- How messages of type `M` go under the AEAD. -/
structure AeadStream (M : Type) where
  /-- the associated data of the `n`-th message -/
  ad : Nat → M → List UInt8
  plaintext : M → List UInt8
  /-- whether the key is replaced after this message -/
  ratchets : M → Bool

namespace AeadStream

variable {Key M : Type} (F : AeadStream M) (A : Aead Key)

/-! ## Sending -/

def sealing (cs : CipherState Key) (m : M) : Sealing Key :=
  cs.sealing A (F.ad cs.nonce m) (F.plaintext m)

def push (cs : CipherState Key) (m : M) : CipherState Key :=
  let cs' := cs.afterSeal A (F.ad cs.nonce m) (F.plaintext m)
  if F.ratchets m then cs'.ratchet A else cs'

def sealings (cs : CipherState Key) : List M → List (Sealing Key)
  | [] => []
  | m :: ms => F.sealing A cs m :: sealings (F.push A cs m) ms

/-- The sender that started with `key`, after the messages `said`. -/
def cipher (key : Key) (said : List M) : CipherState Key :=
  said.foldl (F.push A) (.fresh key)

@[simp] theorem nonce_push (cs : CipherState Key) (m : M) :
    (F.push A cs m).nonce = cs.nonce + 1 := by
  simp only [push]
  split <;> rfl

@[simp] theorem sealed_push (cs : CipherState Key) (m : M) :
    (F.push A cs m).sealed = cs.sealed ++ [F.sealing A cs m] := by
  simp only [push]
  split <;> rfl

@[simp] theorem cipher_nil (key : Key) : F.cipher A key [] = .fresh key := rfl

@[simp] theorem cipher_append_singleton (key : Key) (said : List M) (m : M) :
    F.cipher A key (said ++ [m]) = F.push A (F.cipher A key said) m := by
  simp [cipher]

theorem cipher_append (key : Key) (said new : List M) :
    F.cipher A key (said ++ new) = new.foldl (F.push A) (F.cipher A key said) := by
  simp [cipher]

theorem sealings_append (cs : CipherState Key) (new new' : List M) :
    F.sealings A cs (new ++ new') =
      F.sealings A cs new ++ F.sealings A (new.foldl (F.push A) cs) new' := by
  induction new generalizing cs with
  | nil => rfl
  | cons m new ih => simp [sealings, ih]

@[simp] theorem length_sealings (cs : CipherState Key) (new : List M) :
    (F.sealings A cs new).length = new.length := by
  induction new generalizing cs with
  | nil => rfl
  | cons m new ih => simp [sealings, ih]

/-- The history of a sender is the list of its encryptions. -/
theorem sealed_cipher (key : Key) (said : List M) :
    (F.cipher A key said).sealed = F.sealings A (.fresh key) said := by
  induction said using List.reverseRecOn with
  | nil => rfl
  | append_singleton said m ih =>
      rw [cipher_append_singleton, sealed_push, sealings_append, ih]
      simp [sealings, cipher]

/-- The counter is the number of messages. -/
@[simp] theorem nonce_cipher (key : Key) (said : List M) :
    (F.cipher A key said).nonce = said.length := by
  induction said using List.reverseRecOn with
  | nil => rfl
  | append_singleton said m ih => simp [ih]

/-- Every key of the stream comes from the first one. -/
theorem key_cipher (key : Key) (said : List M) :
    (F.cipher A key said).key = A.rekey^[(F.cipher A key said).epoch] key := by
  induction said using List.reverseRecOn with
  | nil => rfl
  | append_singleton said m ih =>
      rw [cipher_append_singleton]
      simp only [push]
      split
      · simp only [CipherState.ratchet, CipherState.afterSeal]
        rw [Function.iterate_succ_apply', ← ih]
      · exact ih

/-- The `i`-th encryption is that of the `i`-th message, made where the
sender was after the messages before it. -/
theorem getElem?_sealed_cipher (key : Key) (said : List M) (i : Nat) :
    (F.cipher A key said).sealed[i]? =
      said[i]?.map (F.sealing A (F.cipher A key (said.take i))) := by
  by_cases hi : i < said.length
  · obtain ⟨m, rest, hrest⟩ : ∃ m rest, said.drop i = m :: rest :=
      ⟨_, _, (List.drop_eq_getElem_cons hi)⟩
    have hsplit : said = said.take i ++ m :: rest := by rw [← hrest, List.take_append_drop]
    have hlen : (said.take i).length = i := by simp; omega
    rw [sealed_cipher]
    generalize said.take i = pre at hsplit hlen
    subst hsplit
    rw [sealings_append, List.getElem?_append_right (by simp; omega),
      List.getElem?_append_right (by omega)]
    simp [hlen, sealings, cipher]
  · have hsaid : said[i]? = none := List.getElem?_eq_none (by omega)
    rw [hsaid, sealed_cipher]
    exact List.getElem?_eq_none (by rw [length_sealings]; omega)

/-- What the sender encrypted is one of its messages. -/
theorem exists_of_mem_sealed {key : Key} {said : List M} {s : Sealing Key}
    (h : s ∈ (F.cipher A key said).sealed) :
    ∃ heard m, heard ++ [m] <+: said ∧ s = F.sealing A (F.cipher A key heard) m := by
  obtain ⟨i, hi⟩ := List.mem_iff_getElem?.mp h
  rw [getElem?_sealed_cipher] at hi
  obtain ⟨m, hm, hs⟩ := Option.map_eq_some_iff.mp hi
  obtain ⟨hlt, hget⟩ := List.getElem?_eq_some_iff.mp hm
  refine ⟨said.take i, m, ?_, hs.symm⟩
  rw [← hget, List.take_append_getElem hlt]
  exact List.take_prefix _ _

/-- So does the key of every encryption. -/
theorem key_of_mem_sealed {key : Key} {said : List M} {s : Sealing Key}
    (h : s ∈ (F.cipher A key said).sealed) : s.key = A.rekey^[s.epoch] key := by
  obtain ⟨heard, m, -, rfl⟩ := F.exists_of_mem_sealed A h
  exact F.key_cipher A key heard

/-! ## Receiving -/

/-- The receiver after the next message. -/
def advance (cs : CipherState Key) (m : M) : CipherState Key :=
  if F.ratchets m then cs.afterOpen.ratchet A else cs.afterOpen

/-- The receiver `cs` is where the sender was after `heard`. -/
structure InStep (key : Key) (heard : List M) (cs : CipherState Key) : Prop where
  key_eq : cs.key = (F.cipher A key heard).key
  epoch_eq : cs.epoch = (F.cipher A key heard).epoch
  nonce_eq : cs.nonce = heard.length

namespace InStep

variable {F A} {key : Key} {heard said : List M} {cs : CipherState Key} {m : M}

theorem fresh (key : Key) : F.InStep A key [] (.fresh key) := ⟨rfl, rfl, rfl⟩

/-- The counter says what was heard. -/
theorem take_eq (h : F.InStep A key heard cs) (hpre : heard <+: said) :
    said.take cs.nonce = heard := by
  rw [h.nonce_eq]
  exact (List.prefix_iff_eq_take.mp hpre).symm

/-- Having accepted the next message, the receiver is in step with it. -/
theorem push (h : F.InStep A key heard cs) (m : M) :
    F.InStep A key (heard ++ [m]) (F.advance A cs m) := by
  obtain ⟨hkey, hepoch, hnonce⟩ := h
  by_cases hr : F.ratchets m = true
  · constructor
    · simp [AeadStream.push, advance, hr, CipherState.ratchet, CipherState.afterSeal,
        CipherState.afterOpen, hkey]
    · simp [AeadStream.push, advance, hr, CipherState.ratchet, CipherState.afterSeal,
        CipherState.afterOpen, hepoch]
    · simp [advance, hr, CipherState.ratchet, CipherState.afterOpen, hnonce]
  · constructor
    · simp [AeadStream.push, advance, hr, CipherState.afterSeal, CipherState.afterOpen, hkey]
    · simp [AeadStream.push, advance, hr, CipherState.afterSeal, CipherState.afterOpen, hepoch]
    · simp [advance, hr, CipherState.afterOpen, hnonce]

/-- **Ideal acceptance.**  Under the ideal scheme, where the sender's
encryptions are the only ones under the receiver's key, what the receiver
accepts is the next message of the stream. -/
theorem next_of_ideal [DecidableEq Key] (h : F.InStep A key heard cs) (hpre : heard <+: said)
    {log : List (Sealing Key)}
    (hlog : ∀ s ∈ log, s.key = cs.key → s ∈ (F.cipher A key said).sealed)
    {ad ciphertext plaintext : List UInt8}
    (hdec : (A.ideal log).decrypt cs.key cs.nonce ad ciphertext = some plaintext) :
    ∃ m, heard ++ [m] <+: said ∧ ad = F.ad heard.length m ∧ plaintext = F.plaintext m ∧
      ciphertext = (F.sealing A (F.cipher A key heard) m).ciphertext := by
  obtain ⟨s, hs, hkey, hnonce, rfl, rfl, rfl⟩ := Aead.mem_of_decrypt_ideal hdec
  obtain ⟨heard', m, hpre', rfl⟩ := F.exists_of_mem_sealed A (hlog s hs hkey)
  have hlen : heard'.length = heard.length := by
    simpa [sealing, CipherState.sealing, h.nonce_eq] using hnonce
  have hheard : heard' = heard :=
    (List.prefix_of_prefix_length_le ((List.prefix_append _ _).trans hpre') hpre hlen.le).eq_of_length
      hlen
  subst hheard
  exact ⟨m, hpre', by simp [sealing, CipherState.sealing], rfl, rfl⟩

/-- Under a correct scheme the receiver accepts the next message. -/
theorem decrypt_next (h : F.InStep A key heard cs) (hA : A.Correct) (m : M) :
    A.decrypt cs.key cs.nonce (F.ad heard.length m)
      (F.sealing A (F.cipher A key heard) m).ciphertext = some (F.plaintext m) := by
  rw [h.key_eq, h.nonce_eq]
  simp only [sealing, CipherState.sealing, nonce_cipher]
  exact hA _ _ _ _

end InStep

end AeadStream
