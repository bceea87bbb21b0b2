import SecureWs.Stream

/-!
# SecureWs.Connection

The receiving end of a `SecureConnection`: a peer that calls `recv` again and
again while frames arrive.

`Hears.recvAll` evaluates it on the frames of a stream it is in step with:
the plaintexts come out in order, and the one exception is that of a CLOSE.
-/

namespace SecureWs

open Python

variable {Key T : Type} [Zero T] [LE T]

/-- What the peer's successive calls of `recv` return or raise while these
frames arrive, and its channel afterwards.  On a REKEY frame `recv` goes on to
the next one. -/
def recvAll (A : Aead Key) :
    List Bytes → SecureChannel Key T → List (Except PyError Bytes) × SecureChannel Key T
  | [], c => ([], c)
  | wire :: wires, c =>
      match (SecureChannel.decrypt A wire).run c with
      | (.ok (some plaintext), c') =>
          (.ok plaintext :: (recvAll A wires c').1, (recvAll A wires c').2)
      | (.ok none, c') => recvAll A wires c'
      | (.error exc, c') => (.error exc :: (recvAll A wires c').1, (recvAll A wires c').2)

/-- The results of the calls that returned. -/
def returned (results : List (Except PyError Bytes)) : List Bytes :=
  results.filterMap Except.toOption

/-- How `recv` ends on a message; a REKEY does not end it. -/
def recvAs : Msg → Option (Except PyError Bytes)
  | .transport plaintext => some (.ok plaintext)
  | .rekey => none
  | .close => some (.error (.channelClosedError ["peer closed the channel"]))

theorem recvAll_append (A : Aead Key) (wires wires' : List Bytes) (c : SecureChannel Key T) :
    recvAll A (wires ++ wires') c =
      ((recvAll A wires c).1 ++ (recvAll A wires' (recvAll A wires c).2).1,
        (recvAll A wires' (recvAll A wires c).2).2) := by
  induction wires generalizing c with
  | nil => rfl
  | cons wire wires ih =>
      simp only [List.cons_append, recvAll]
      cases (SecureChannel.decrypt A wire).run c with
      | mk result c' => cases result with
        | error exc => simp [ih]
        | ok plaintext? => cases plaintext? with
          | none => exact ih c'
          | some plaintext => simp [ih]

/-- The channel after one frame more. -/
theorem snd_recvAll_cons (A : Aead Key) (wire : Bytes) (wires : List Bytes)
    (c : SecureChannel Key T) :
    (recvAll A (wire :: wires) c).2 =
      (recvAll A wires ((SecureChannel.decrypt A wire).run c).2).2 := by
  rw [recvAll]
  cases (SecureChannel.decrypt A wire).run c with
  | mk result c' => cases result with
    | error exc => rfl
    | ok plaintext? => cases plaintext? with
      | none => rfl
      | some plaintext => rfl

/-- A receiver counts no more frames than arrived. -/
theorem nonce_recvAll_le (A : Aead Key) (wires : List Bytes) (c : SecureChannel Key T) :
    (recvAll A wires c).2.recvCipher.nonce ≤ c.recvCipher.nonce + wires.length := by
  induction wires generalizing c with
  | nil => exact Nat.le_refl _
  | cons wire wires ih =>
      have hone := SecureChannel.nonce_decrypt_le A wire c
      have hrest := ih ((SecureChannel.decrypt A wire).run c).2
      rw [snd_recvAll_cons, List.length_cons]
      omega

/-- The next frame, heard as a message. -/
theorem recvAll_cons {A : Aead Key} {wire : Bytes} {c c' : SecureChannel Key T} {m : Msg}
    (h : (SecureChannel.decrypt A wire).run c = (SecureChannel.heardAs m, c'))
    (wires : List Bytes) :
    recvAll A (wire :: wires) c =
      ((recvAs m).toList ++ (recvAll A wires c').1, (recvAll A wires c').2) := by
  rw [recvAll, h]
  cases m with
  | transport plaintext => rfl
  | rekey => rfl
  | close => rfl

theorem returned_filterMap_recvAs (said : List Msg) :
    returned (said.filterMap recvAs) = plaintexts said := by
  unfold returned plaintexts
  rw [List.filterMap_filterMap]
  congr 1
  funext m
  cases m with
  | transport plaintext => rfl
  | rekey => rfl
  | close => rfl

/-- **The frames of the next messages.**  A receiver in step returns their
plaintexts in order, raises on a CLOSE alone, and is then in step with them. -/
theorem SecureChannel.Hears.recvAll {A : Aead Key} {key : Key} {heard : List Msg}
    {c : SecureChannel Key T} (h : c.Hears A key heard) (hA : A.Correct)
    (hover : A.Overhead AEAD_TAG_LEN) (hopen : c.closed = false) {new : List Msg}
    (hlen : (heard ++ new).length ≤ MAX_NONCE) (hfits : ∀ m ∈ new, m.plaintext.length ≤ MAX_PLAINTEXT)
    (hlast : ∀ m ∈ new.dropLast, m ≠ .close) :
    ∃ c', SecureWs.recvAll A (frames A (stream.cipher A key heard) new) c =
        (new.filterMap recvAs, c') ∧
      c'.Hears A key (heard ++ new) ∧ (c'.closed = true ↔ .close ∈ new) := by
  induction new generalizing heard c with
  | nil => exact ⟨c, rfl, by rwa [List.append_nil], by simp [hopen]⟩
  | cons m new ih =>
      have hwires : frames A (stream.cipher A key heard) (m :: new) =
          (stream.sealing A (stream.cipher A key heard) m).wire ::
            frames A (stream.cipher A key (heard ++ [m])) new := by
        rw [AeadStream.cipher_append_singleton]
        rfl
      rw [List.append_cons] at hlen ⊢
      obtain ⟨c', hrun, hhears, hclosed⟩ := h.decrypt_next hA hover hopen
        (by simp only [List.length_append, List.length_singleton] at hlen; omega)
        (hfits m (by simp))
      rw [hwires, recvAll_cons hrun]
      by_cases hm : m = .close
      · have hnew : new = [] := by
          cases new with
          | nil => rfl
          | cons m' new => exact absurd hm (hlast m (by simp))
        subst hnew
        rw [List.append_nil]
        exact ⟨c', by rw [hm]; rfl, hhears, by simp [hclosed, hm]⟩
      · have hopen' : c'.closed = false := by simpa [hm] using hclosed
        have hlast' : ∀ m' ∈ new.dropLast, m' ≠ .close := by
          intro m' hm'
          cases new with
          | nil => contradiction
          | cons m'' new => exact hlast m' (List.mem_cons_of_mem m hm')
        obtain ⟨c'', hrecv, hhears', hclosed'⟩ := ih hhears hopen' hlen
          (fun m' hm' => hfits m' (List.mem_cons_of_mem m hm')) hlast'
        rw [hrecv]
        refine ⟨c'', ?_, hhears', ?_⟩
        · cases m with
          | transport plaintext => rfl
          | rekey => rfl
          | close => contradiction
        · rw [hclosed', List.mem_cons, or_iff_right (Ne.symm hm)]

end SecureWs
