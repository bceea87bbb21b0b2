import SecureWs.Noise

/-!
# SecureWs.HandshakeErrors

How the handshake fails.  `handshake_errors_iff`: whatever the peer sends, every
call of the library ends in a `HandshakeError` at worst, and the driver in a
`SecureWebSocketError`, exactly as long as no Diffie-Hellman exchange has an
all-zero shared secret.
-/

namespace SecureWs

open Python

variable {Conn Key : Type}

/-- The driver sees what the library returns, with its errors raised again. -/
theorem NoiseCall.fst_made (lib : NoiseLibrary Conn Key) (call : NoiseCall) (hs : NoiseXXHandshake Conn) :
    ∃ context, ((call.made lib).run hs).1 =
      ((call.run lib).run hs.conn).1.mapError (·.raised context) := by
  cases call with
  | write payload =>
      refine ⟨"failed to write handshake message: ", ?_⟩
      show ((NoiseXXHandshake.writeMessage lib payload).run hs).1 =
        ((lib.writeMessage payload).run hs.conn).1.mapError _
      rw [NoiseXXHandshake.writeMessage, Imp.run_bind, NoiseXXHandshake.onConn, Imp.run_onField,
        Imp.run_mapError]
      cases ((lib.writeMessage payload).run hs.conn).1 <;> rfl
  | read data =>
      refine ⟨"handshake message rejected: ", ?_⟩
      show ((NoiseXXHandshake.readMessage lib data).run hs).1 =
        ((lib.readMessage data).run hs.conn).1.mapError _
      rw [NoiseXXHandshake.readMessage, Imp.run_bind, NoiseXXHandshake.onConn, Imp.run_onField,
        Imp.run_mapError]
      cases ((lib.readMessage data).run hs.conn).1 <;> rfl

variable {lib : NoiseLibrary Conn Key}

/-- A call ends in a `HandshakeError` at worst exactly when no exchange that it
makes has an all-zero shared secret. -/
theorem onlyRaises_made_iff {x25519 : Bytes → Bytes → Bytes}
    {exchanges : Conn → NoiseCall → List (Bytes × Bytes)} (doc : lib.Documented x25519 exchanges)
    (call : NoiseCall) (hs : NoiseXXHandshake Conn) :
    OnlyRaises IsHandshakeError ((call.made lib).run hs).1 ↔
      ∀ exchange ∈ exchanges hs.conn call, x25519 exchange.1 exchange.2 ≠ List.replicate 32 0 := by
  have hother := doc.other_iff hs.conn call
  obtain ⟨context, hmade⟩ := NoiseCall.fst_made lib call hs
  rw [hmade]
  cases hrun : ((call.run lib).run hs.conn).1 with
  | ok data =>
      simpa [hrun, Except.mapError] using hother
  | error exc =>
      rw [hrun] at hother
      rw [Except.mapError, onlyRaises_error, isHandshakeError_raised_iff]
      cases exc with
      | listed cls text => simpa using hother
      | other e =>
          obtain ⟨exchange, hmem, hzero⟩ := hother.mp ⟨e, rfl⟩
          obtain ⟨text, rfl⟩ := doc.valueError hs.conn call e hrun
          refine iff_of_false (fun h => ?_) fun h => h exchange hmem hzero
          obtain ⟨message, hmessage⟩ := h _ rfl
          cases hmessage

/-- What `connect` and `serve` handle. -/
def Handled (exc : PyError) : Prop := exc.isSecureWebSocketError = true

theorem IsHandshakeError.handled {exc : PyError} (h : IsHandshakeError exc) : Handled exc := by
  obtain ⟨message, rfl⟩ := h
  rfl

theorem onlyRaises_encode (msgType : MessageType) (seq : Int) (payload : Bytes) :
    OnlyRaises Handled (encode msgType seq payload) := by
  have hnew : OnlyRaises Handled (Frame.new msgType seq payload) := by
    intro exc h
    unfold Frame.new at h
    split_ifs at h
    · obtain rfl := Except.error.inj h
      rfl
    · obtain rfl := Except.error.inj h
      rfl
  simp only [encode, onlyRaises_bind, hnew, Frame.encode_eq, onlyRaises_ok, implies_true, and_self]

theorem onlyRaises_handshakePayload (message : WsMessage) :
    OnlyRaises Handled (Driver.handshakePayload message) := by
  have hdecode : ∀ data, OnlyRaises Handled (decode data) := by
    intro data exc h
    obtain ⟨m, rfl⟩ | ⟨m, rfl⟩ := decode_error h
    · rfl
    · rfl
  cases message with
  | text s => simp [Driver.handshakePayload, asBytes, onlyRaises_bind, Handled,
      PyError.isSecureWebSocketError]
  | binary data =>
      simp only [Driver.handshakePayload, asBytes, onlyRaises_bind, onlyRaises_ok, hdecode,
        onlyRaises_raiseIf, onlyRaises_pure, Handled, PyError.isSecureWebSocketError, implies_true,
        and_self]

theorem onlyRaises_returned (lib : NoiseLibrary Conn Key) (self : Driver Conn) :
    OnlyRaises Handled (self.returned lib) := by
  have hresult : OnlyRaises Handled (self.hs.result lib) := by
    unfold NoiseXXHandshake.result
    rw [onlyRaises_bind, onlyRaises_raiseIf]
    refine ⟨fun _ => rfl, fun _ _ => ?_⟩
    cases self.hs.remoteStatic with
    | none => exact onlyRaises_error.mpr rfl
    | some key => exact onlyRaises_pure.mpr trivial
  unfold Driver.returned
  rw [onlyRaises_bind]
  exact ⟨hresult, fun _ _ => onlyRaises_pure.mpr trivial⟩

/-- What leaves one pass of the loop is handled, if its call ends as it should. -/
theorem handled_of_iterate {self : Driver Conn} {first : Option WsMessage} {exc : PyError}
    (h : self.iterate lib first = .raised exc)
    (hcall : ∀ call, self.call? lib first = some call →
      OnlyRaises IsHandshakeError ((call.made lib).run self.hs).1) : Handled exc := by
  unfold Driver.iterate at h
  unfold Driver.call? at hcall
  by_cases hcomplete : self.hs.isComplete lib = true
  · rw [if_pos hcomplete] at h
    have hreturned := onlyRaises_returned lib self
    cases hr : self.returned lib with
    | ok r => simp [hr] at h
    | error e =>
        simp only [hr, Iteration.raised.injEq] at h
        rw [← h]
        exact hreturned e hr
  · rw [if_neg hcomplete] at h hcall
    by_cases hwrite : self.hs.nextIsWrite = true
    · rw [if_pos hwrite, Driver.run_write] at h
      rw [if_pos hwrite] at hcall
      have hmade : OnlyRaises IsHandshakeError
          ((NoiseXXHandshake.writeMessage lib self.payload).run self.hs).1 := hcall _ rfl
      cases hrun : (NoiseXXHandshake.writeMessage lib self.payload).run self.hs with
      | mk result hs => cases result with
        | error e =>
            rw [hrun, onlyRaises_error] at hmade
            simp only [hrun, Iteration.raised.injEq] at h
            rw [← h]
            exact hmade.handled
        | ok msg =>
            have hencode := onlyRaises_encode .handshake self.writeIndex msg
            simp only [hrun] at h
            cases hframe : encode .handshake self.writeIndex msg with
            | ok frame => simp [hframe] at h
            | error e =>
                simp only [hframe, Iteration.raised.injEq] at h
                rw [← h]
                exact hencode e hframe
    · rw [if_neg hwrite] at h hcall
      cases first with
      | none => simp at h
      | some message =>
          simp only [Driver.run_read] at h
          have hpayload := onlyRaises_handshakePayload message
          cases hdata : Driver.handshakePayload message with
          | error e =>
              simp only [hdata, Iteration.raised.injEq] at h
              rw [← h]
              exact hpayload e hdata
          | ok data =>
              have hmade : OnlyRaises IsHandshakeError
                  ((NoiseXXHandshake.readMessage lib data).run self.hs).1 :=
                hcall (.read data) (by simp [hdata, Except.toOption])
              cases hrun : (NoiseXXHandshake.readMessage lib data).run self.hs with
              | mk result hs => cases result with
                | ok received => simp [hdata, hrun] at h
                | error e =>
                    rw [hrun, onlyRaises_error] at hmade
                    simp only [hdata, hrun, Iteration.raised.injEq] at h
                    rw [← h]
                    exact hmade.handled

/-- What leaves the driver is handled, if its calls end as they should. -/
theorem handled_of_drive {n : Nat} {messages : List WsMessage} {self : Driver Conn} {exc : PyError}
    (h : self.drive lib n messages = .raised exc)
    (hcalls : ∀ c ∈ self.calls lib n messages,
      OnlyRaises IsHandshakeError ((c.2.made lib).run c.1).1) : Handled exc := by
  induction n generalizing messages self with
  | zero => cases h
  | succ n ih =>
      rw [Driver.drive] at h
      simp only [Driver.calls, List.forall_mem_append] at hcalls
      obtain ⟨hfirst, hrest⟩ := hcalls
      cases hiterate : self.iterate lib messages.head? with
      | returned result peerCert => simp [hiterate] at h
      | waiting => simp [hiterate] at h
      | wrote frame driver =>
          simp only [hiterate] at h hrest
          exact ih h hrest
      | read driver =>
          simp only [hiterate] at h hrest
          exact ih h hrest
      | raised e =>
          simp only [hiterate, Iteration.raised.injEq] at h
          rw [← h]
          refine handled_of_iterate hiterate fun call hcall => hfirst (self.hs, call) ?_
          simp [hcall]

/-- **Bad handshake messages end in a `HandshakeError`**, in either role and
whatever arrives, exactly as long as no exchange has an all-zero shared
secret: then every call of the driver returns or raises `HandshakeError`, and
what leaves the driver is a `SecureWebSocketError`. -/
theorem handshake_errors_iff (lib : NoiseLibrary Conn Key) {x25519 : Bytes → Bytes → Bytes}
    {exchanges : Conn → NoiseCall → List (Bytes × Bytes)} (doc : lib.Documented x25519 exchanges)
    (self : Driver Conn) (n : Nat) (messages : List WsMessage) :
    ((∀ c ∈ self.calls lib n messages,
        OnlyRaises IsHandshakeError ((c.2.made lib).run c.1).1) ∧
      ∀ exc, self.drive lib n messages = .raised exc → exc.isSecureWebSocketError = true) ↔
    ∀ c ∈ self.calls lib n messages, ∀ exchange ∈ exchanges c.1.conn c.2,
      x25519 exchange.1 exchange.2 ≠ List.replicate 32 0 := by
  have hcalls : (∀ c ∈ self.calls lib n messages,
      OnlyRaises IsHandshakeError ((c.2.made lib).run c.1).1) ↔
        ∀ c ∈ self.calls lib n messages, ∀ exchange ∈ exchanges c.1.conn c.2,
          x25519 exchange.1 exchange.2 ≠ List.replicate 32 0 :=
    forall₂_congr fun c _ => onlyRaises_made_iff doc c.2 c.1
  rw [← hcalls]
  exact ⟨And.left, fun h => ⟨h, fun exc hexc => handled_of_drive hexc h⟩⟩

/-- The driver of a responder, before the first message. -/
def exampleResponder : Driver (NoiseXX.State Nat) :=
  .init ⟨NoiseXX.start examplePrimitives [] false (List.replicate 32 3) (List.replicate 32 4) [], false,
    List.replicate 32 3, none, 0⟩ []

/-- A first message whose ephemeral key is zero. -/
def zeroEphemeral : WsMessage :=
  .binary ((encode .handshake 0 (List.replicate 32 0)).toOption.getD [])

/-- The message is read, and the `ValueError` comes out of the answer. -/
theorem drive_zeroEphemeral :
    exampleResponder.drive (NoiseLibrary.xx examplePrimitives []) 2 [zeroEphemeral] =
      .raised (.valueError ["Error computing shared key."]) := rfl

theorem handshake_errors_iff_zero :
    ¬∀ c ∈ exampleResponder.calls (NoiseLibrary.xx examplePrimitives []) 2 [zeroEphemeral],
      ∀ exchange ∈ exchangesOf examplePrimitives c.1.conn c.2,
        examplePrimitives.dh exchange.1 exchange.2 ≠ List.replicate 32 0 := by
  intro h
  have hends := (handshake_errors_iff (NoiseLibrary.xx examplePrimitives [])
    (documented_xx examplePrimitives []) exampleResponder 2 [zeroEphemeral]).mpr h
  cases hends.2 _ drive_zeroEphemeral

theorem zero_ephemeral_escapes :
    let lib := NoiseLibrary.xx examplePrimitives []
    exampleResponder.drive lib 2 [zeroEphemeral] =
        .raised (.valueError ["Error computing shared key."]) ∧
      ¬((∀ c ∈ exampleResponder.calls lib 2 [zeroEphemeral],
          OnlyRaises IsHandshakeError ((c.2.made lib).run c.1).1) ∧
        ∀ exc, exampleResponder.drive lib 2 [zeroEphemeral] = .raised exc →
          exc.isSecureWebSocketError = true) := by
  refine ⟨drive_zeroEphemeral, fun h => ?_⟩
  cases h.2 _ drive_zeroEphemeral

end SecureWs
