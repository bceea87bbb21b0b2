import SecureWs.Lib.Python

/-!
# SecureWs.Errors

The exceptions of `errors.py`, and those of Python and of the libraries that
can pass through the modelled code.  A message is kept as `Text`: the pieces
of the f-string it was raised with.
-/

namespace SecureWs

open Python

/-- An exception, by class.  The first block derives from
`SecureWebSocketError`; `InvalidTag` and `InvalidSignature` are raised by
`cryptography`, `NoiseMaxNonceError` by `noiseprotocol`, `ConnectionClosed`
by `websockets`, and the rest are Python built-ins. -/
inductive PyError where
  | frameError (message : Text)
  | protocolError (message : Text)
  | handshakeError (message : Text)
  | replayError (message : Text)
  | decryptionError (message : Text)
  | identityError (message : Text)
  | channelClosedError (message : Text)
  | invalidTag
  | invalidSignature
  | noiseMaxNonceError
  | connectionClosed
  | valueError (message : Text)
  | keyError (key : Str)
  | typeError (message : Text)
  | attributeError (message : Text)
  | overflowError (message : Text)
  | recursionError
  deriving DecidableEq, Repr

/-- `str(exc)`.  The texts of the exceptions that Python itself or a library
raises are not part of this program: they are left empty. -/
def PyError.str : PyError → Text
  | .frameError message | .protocolError message | .handshakeError message
  | .replayError message | .decryptionError message | .identityError message
  | .channelClosedError message | .valueError message | .typeError message
  | .attributeError message | .overflowError message => message
  | .keyError key => [.repr key]
  | _ => []

/-- `isinstance(exc, SecureWebSocketError)`. -/
def PyError.isSecureWebSocketError : PyError → Bool
  | .frameError _ | .protocolError _ | .handshakeError _ | .replayError _
  | .decryptionError _ | .identityError _ | .channelClosedError _ => true
  | _ => false

/-- `type(exc).__name__`. -/
def PyError.typeName : PyError → String
  | .frameError _ => "FrameError"
  | .protocolError _ => "ProtocolError"
  | .handshakeError _ => "HandshakeError"
  | .replayError _ => "ReplayError"
  | .decryptionError _ => "DecryptionError"
  | .identityError _ => "IdentityError"
  | .channelClosedError _ => "ChannelClosedError"
  | .invalidTag => "InvalidTag"
  | .invalidSignature => "InvalidSignature"
  | .noiseMaxNonceError => "NoiseMaxNonceError"
  | .connectionClosed => "ConnectionClosed"
  | .valueError _ => "ValueError"
  | .keyError _ => "KeyError"
  | .typeError _ => "TypeError"
  | .attributeError _ => "AttributeError"
  | .overflowError _ => "OverflowError"
  | .recursionError => "RecursionError"

/-- A `LogRecord` handed to the package's logger: the level, the format and
the arguments, not yet merged. -/
structure LogRecord where
  level : Nat
  format : String
  args : Text
  deriving DecidableEq, Repr

/-- `logger.debug(format, *args)`. -/
def debug (format : String) (args : Text) : LogRecord := ⟨10, format, args⟩

/-- `logger.warning(format, *args)`. -/
def warning (format : String) (args : Text) : LogRecord := ⟨30, format, args⟩

end SecureWs
