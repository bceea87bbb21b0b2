import SecureWs.Lib.BigEndian
import SecureWs.Lib.Imp
import SecureWs.Errors
import SecureWs.Protocol
import Mathlib.Data.List.Basic
import Mathlib.Tactic.NormNum

/-!
# SecureWs.Framing

The wire frame of `framing.py`: a 14-byte header `>BBQI` (version, message
type, sequence number, payload length) followed by the payload.

```
frame  =  version ‖ type ‖ seq (8 bytes) ‖ length (4 bytes) ‖ payload
```

`decode` accepts exactly the image of `encode` and inverts it
(`encode_eq_ok_iff`, `decode_wire`, `eq_wire_of_decode`).  The header a receiver recomputes
from a decoded frame is the header it received (`header_of_decode`): it is
the associated data of the AEAD, so this is what makes the two sides
authenticate the same bytes.
-/

namespace SecureWs

open Python

def FRAME_VERSION : Nat := PROTOCOL_VERSION

def HEADER_LEN : Nat := 14

def MAX_PAYLOAD : Nat := 65535

def MAX_PLAINTEXT : Nat := MAX_PAYLOAD - AEAD_TAG_LEN

def MAX_SEQ : Nat := 2 ^ 64 - 1

/-! ## The header layout -/

/-- `_HEADER.pack(version, raw_type, seq, length)`. -/
def headerPack (version rawType seq length : Nat) : Bytes :=
  BigEndian.encode 1 version ++ BigEndian.encode 1 rawType ++ BigEndian.encode 8 seq ++
    BigEndian.encode 4 length

/-- `_HEADER.unpack_from(data)`. -/
def headerUnpack (data : Bytes) : Nat × Nat × Nat × Nat :=
  (BigEndian.decode (data.take 1), BigEndian.decode ((data.drop 1).take 1),
    BigEndian.decode ((data.drop 2).take 8), BigEndian.decode ((data.drop 10).take 4))

@[simp] theorem length_headerPack (version rawType seq length : Nat) :
    (headerPack version rawType seq length).length = HEADER_LEN := by
  simp [headerPack, HEADER_LEN]

/-- A packed header reads back from the front of any buffer. -/
theorem headerUnpack_pack_append {version rawType seq length : Nat} (hv : version < 256)
    (ht : rawType < 256) (hs : seq < 2 ^ 64) (hl : length < 2 ^ 32) (rest : Bytes) :
    headerUnpack (headerPack version rawType seq length ++ rest) =
      (version, rawType, seq, length) := by
  have h₁ := BigEndian.decode_encode (w := 1) (n := version) (by simpa using hv)
  have h₂ := BigEndian.decode_encode (w := 1) (n := rawType) (by simpa using ht)
  have h₃ := BigEndian.decode_encode (w := 8) (n := seq) (by norm_num; omega)
  have h₄ := BigEndian.decode_encode (w := 4) (n := length) (by norm_num; omega)
  generalize hA : BigEndian.encode 1 version = A at h₁
  generalize hB : BigEndian.encode 1 rawType = B at h₂
  generalize hC : BigEndian.encode 8 seq = C at h₃
  generalize hD : BigEndian.encode 4 length = D at h₄
  have hAl : A.length = 1 := by rw [← hA, BigEndian.length_encode]
  have hBl : B.length = 1 := by rw [← hB, BigEndian.length_encode]
  have hCl : C.length = 8 := by rw [← hC, BigEndian.length_encode]
  have hDl : D.length = 4 := by rw [← hD, BigEndian.length_encode]
  have hdrop₂ : (A ++ B ++ C ++ D ++ rest).drop 2 = C ++ (D ++ rest) := by
    rw [List.append_assoc, List.append_assoc (A ++ B)]
    exact List.drop_left' (by simp [hAl, hBl])
  have hdrop₁₀ : (A ++ B ++ C ++ D ++ rest).drop 10 = D ++ rest := by
    rw [List.append_assoc]
    exact List.drop_left' (by simp [hAl, hBl, hCl])
  simp only [headerUnpack, headerPack, hA, hB, hC, hD, hdrop₂, hdrop₁₀, List.take_left' hCl,
    List.take_left' hDl, h₃, h₄]
  simp only [List.append_assoc, List.take_left' hAl, List.drop_left' hAl, List.take_left' hBl,
    h₁, h₂]

/-- Packing what was unpacked gives back the first 14 bytes. -/
theorem headerPack_unpack {data : Bytes} (h : HEADER_LEN ≤ data.length) :
    headerPack (headerUnpack data).1 (headerUnpack data).2.1 (headerUnpack data).2.2.1
      (headerUnpack data).2.2.2 = data.take HEADER_LEN := by
  unfold HEADER_LEN at h ⊢
  simp only [headerPack, headerUnpack]
  rw [BigEndian.encode_decode 1 _ (by simp; omega), BigEndian.encode_decode 1 _ (by simp; omega),
    BigEndian.encode_decode 8 _ (by simp; omega), BigEndian.encode_decode 4 _ (by simp; omega)]
  have h₁ : data.take 2 = data.take 1 ++ (data.drop 1).take 1 := List.take_add (i := 1) (j := 1)
  have h₂ : data.take 10 = data.take 2 ++ (data.drop 2).take 8 := List.take_add (i := 2) (j := 8)
  have h₃ : data.take 14 = data.take 10 ++ (data.drop 10).take 4 :=
    List.take_add (i := 10) (j := 4)
  rw [h₃, h₂, h₁]

/-! ## Frames -/

/-- A `Frame`; the last two fields are what `__post_init__` checks. -/
structure Frame where
  msgType : MessageType
  seq : Nat
  payload : Bytes
  seq_le : seq ≤ MAX_SEQ
  payload_le : payload.length ≤ MAX_PAYLOAD
  deriving DecidableEq, Repr

/-- `Frame(msg_type, seq, payload)`. -/
def Frame.new (msgType : MessageType) (seq : Int) (payload : Bytes) : Except PyError Frame :=
  if hs : 0 ≤ seq ∧ seq ≤ MAX_SEQ then
    if hp : payload.length ≤ MAX_PAYLOAD then
      .ok ⟨msgType, seq.toNat, payload, by omega, hp⟩
    else
      .error (.frameError
        ["payload too large: ", .int payload.length, " > ", .int MAX_PAYLOAD])
  else
    .error (.protocolError ["seq out of range: ", .int seq])

/-- `pack_header(msg_type, seq, length)`. -/
def packHeader (msgType : MessageType) (seq length : Int) : Except PyError Bytes := do
  raiseIf (¬ (0 ≤ seq ∧ seq ≤ MAX_SEQ)) (.protocolError ["seq out of range: ", .int seq])
  raiseIf (¬ (0 ≤ length ∧ length ≤ MAX_PAYLOAD))
    (.frameError ["length out of range: ", .int length])
  return headerPack FRAME_VERSION msgType.toNat seq.toNat length.toNat

/-- `frame.header()`. -/
def Frame.header (frame : Frame) : Except PyError Bytes :=
  packHeader frame.msgType frame.seq frame.payload.length

def Frame.encode (frame : Frame) : Except PyError Bytes := do
  return (← frame.header) ++ frame.payload

def encode (msgType : MessageType) (seq : Int) (payload : Bytes) : Except PyError Bytes := do
  (← Frame.new msgType seq payload).encode

/-- `decode(data)`. -/
def decode (data : Bytes) : Except PyError Frame := do
  raiseIf (data.length < HEADER_LEN) (.frameError
    ["frame shorter than header: ", .int data.length, " < ", .int HEADER_LEN])
  let (version, rawType, seq, length) := headerUnpack data
  raiseIf (version ≠ FRAME_VERSION) (.protocolError
    ["unsupported frame version: ", .int version, " (expected ", .int FRAME_VERSION, ")"])
  raiseIf (length > MAX_PAYLOAD) (.frameError
    ["declared length ", .int length, " exceeds MAX_PAYLOAD ", .int MAX_PAYLOAD])
  let body := data.drop HEADER_LEN
  raiseIf (body.length ≠ length) (.frameError
    ["length mismatch: header says ", .int length, ", ", .int body.length,
      " bytes present (truncated or trailing data)"])
  match MessageType.ofNat? rawType with
  | none => throw (.protocolError ["unknown message type byte: ", .int rawType])
  | some msgType => Frame.new msgType seq body

/-! ## Encoding -/

/-- The 14 header bytes of a frame. -/
def headerBytes (msgType : MessageType) (seq length : Nat) : Bytes :=
  headerPack FRAME_VERSION msgType.toNat seq length

@[simp] theorem length_headerBytes (msgType : MessageType) (seq length : Nat) :
    (headerBytes msgType seq length).length = HEADER_LEN := length_headerPack ..

/-- The associated data of a frame: its header, which announces the length
of the ciphertext. -/
def headerFor (msgType : MessageType) (seq : Nat) (plaintext : Bytes) : Bytes :=
  headerBytes msgType seq (plaintext.length + AEAD_TAG_LEN)

/-- `pack_header` on arguments in range. -/
theorem packHeader_of_le {seq length : Nat} (msgType : MessageType) (hs : seq ≤ MAX_SEQ)
    (hl : length ≤ MAX_PAYLOAD) :
    packHeader msgType seq length = .ok (headerBytes msgType seq length) := by
  have hs' : ¬ ¬ ((0 : Int) ≤ seq ∧ (seq : Int) ≤ MAX_SEQ) := by omega
  have hl' : ¬ ¬ ((0 : Int) ≤ length ∧ (length : Int) ≤ MAX_PAYLOAD) := by omega
  simp only [packHeader, raiseIf_bind_except, if_neg hs', if_neg hl']
  rfl

/-- `pack_header` past the last sequence number. -/
theorem packHeader_of_lt {seq : Nat} (msgType : MessageType) (length : Int)
    (hs : MAX_SEQ < seq) :
    packHeader msgType seq length = .error (.protocolError ["seq out of range: ", .int seq]) := by
  have hs' : ¬ ((0 : Int) ≤ seq ∧ (seq : Int) ≤ MAX_SEQ) := by omega
  simp only [packHeader, raiseIf_bind_except, if_pos hs']

/-- A valid frame always has its header. -/
@[simp] theorem Frame.header_eq (f : Frame) :
    f.header = .ok (headerBytes f.msgType f.seq f.payload.length) :=
  packHeader_of_le f.msgType f.seq_le f.payload_le

@[simp] theorem Frame.encode_eq (f : Frame) :
    f.encode = .ok (headerBytes f.msgType f.seq f.payload.length ++ f.payload) := by
  simp only [Frame.encode, Frame.header_eq]
  rfl

/-! ## The decoder is the inverse of the encoder -/

/-- `Frame(...)` succeeds exactly on a sequence number and a payload in
range, and then stores its arguments. -/
theorem Frame.new_eq_ok_iff {t : MessageType} {s : Int} {p : Bytes} {f : Frame} :
    Frame.new t s p = .ok f ↔ f.msgType = t ∧ (f.seq : Int) = s ∧ f.payload = p := by
  unfold Frame.new
  constructor
  · intro h
    split at h
    · next hs =>
      split at h
      · rw [Except.ok.injEq] at h
        subst h
        exact ⟨rfl, by simp only; omega, rfl⟩
      · contradiction
    · contradiction
  · intro hexists
    obtain ⟨rfl, rfl, rfl⟩ := hexists
    have hs := f.seq_le
    rw [dif_pos (by omega), dif_pos f.payload_le]
    simp

/-- The wire form of a frame, as one equation. -/
def Frame.wire (f : Frame) : Bytes := headerBytes f.msgType f.seq f.payload.length ++ f.payload

/-- `encode` succeeds exactly when its arguments make a frame, and writes
that frame's wire form. -/
theorem encode_eq_ok_iff {t : MessageType} {s : Int} {p d : Bytes} :
    encode t s p = .ok d ↔
      ∃ f : Frame, f.msgType = t ∧ (f.seq : Int) = s ∧ f.payload = p ∧ d = f.wire := by
  simp only [encode, bind, Except.bind]
  constructor
  · intro h
    split at h
    · contradiction
    · next f hf =>
      obtain ⟨h₁, h₂, h₃⟩ := Frame.new_eq_ok_iff.mp hf
      rw [Frame.encode_eq, Except.ok.injEq] at h
      exact ⟨f, h₁, h₂, h₃, h.symm⟩
  · intro hexists
    obtain ⟨f, h₁, h₂, h₃, rfl⟩ := hexists
    rw [Frame.new_eq_ok_iff.mpr ⟨h₁, h₂, h₃⟩]
    exact f.encode_eq

theorem encode_frame (f : Frame) : encode f.msgType f.seq f.payload = .ok f.wire :=
  encode_eq_ok_iff.mpr ⟨f, rfl, rfl, rfl, rfl⟩

/-- `encode` succeeds exactly on the sequence numbers and payload lengths
of the format. -/
theorem encode_ok_iff {t : MessageType} {s : Int} {p : Bytes} :
    (∃ d, encode t s p = .ok d) ↔ (0 ≤ s ∧ s ≤ MAX_SEQ) ∧ p.length ≤ MAX_PAYLOAD := by
  constructor
  · intro hexists
    obtain ⟨d, h⟩ := hexists
    obtain ⟨f, -, hs, rfl, -⟩ := encode_eq_ok_iff.mp h
    have hle := f.seq_le
    exact ⟨by omega, f.payload_le⟩
  · intro hexists
    obtain ⟨hs, hp⟩ := hexists
    refine ⟨_, encode_eq_ok_iff.mpr ⟨⟨t, s.toNat, p, by omega, hp⟩, rfl, ?_, rfl, rfl⟩⟩
    simp only
    omega

theorem take_wire (f : Frame) :
    f.wire.take HEADER_LEN = headerBytes f.msgType f.seq f.payload.length :=
  List.take_left' (length_headerBytes ..)

theorem drop_wire (f : Frame) : f.wire.drop HEADER_LEN = f.payload :=
  List.drop_left' (length_headerBytes ..)

theorem length_wire (f : Frame) : f.wire.length = HEADER_LEN + f.payload.length := by
  simp [Frame.wire]

theorem headerUnpack_wire (f : Frame) :
    headerUnpack f.wire = (FRAME_VERSION, f.msgType.toNat, f.seq, f.payload.length) := by
  have hs := f.seq_le
  have hp := f.payload_le
  unfold MAX_SEQ at hs
  unfold MAX_PAYLOAD at hp
  exact headerUnpack_pack_append (by decide) f.msgType.toNat_lt (by omega) (by omega) f.payload

/-- Decoding the wire form of a frame gives the frame back. -/
theorem decode_wire (f : Frame) : decode f.wire = .ok f := by
  have hlen : ¬ f.wire.length < HEADER_LEN := by rw [length_wire]; omega
  have hp : ¬ f.payload.length > MAX_PAYLOAD := Nat.not_lt.mpr f.payload_le
  simp only [decode, raiseIf_bind_except, headerUnpack_wire, drop_wire, if_neg hlen, if_neg hp,
    ne_eq, not_true_eq_false, if_false, MessageType.ofNat?_toNat]
  exact Frame.new_eq_ok_iff.mpr ⟨rfl, rfl, rfl⟩

/-- Whatever `decode` accepts is the wire form of the frame it returns. -/
theorem eq_wire_of_decode {d : Bytes} {f : Frame} (h : decode d = .ok f) : d = f.wire := by
  simp only [decode, raiseIf_bind_except] at h
  by_cases hlen : d.length < HEADER_LEN
  · rw [if_pos hlen] at h; contradiction
  rw [if_neg hlen] at h
  by_cases hver : (headerUnpack d).1 ≠ FRAME_VERSION
  · rw [if_pos hver] at h; contradiction
  rw [if_neg hver] at h
  by_cases hmax : (headerUnpack d).2.2.2 > MAX_PAYLOAD
  · rw [if_pos hmax] at h; contradiction
  rw [if_neg hmax] at h
  by_cases hbody : (d.drop HEADER_LEN).length ≠ (headerUnpack d).2.2.2
  · rw [if_pos hbody] at h; contradiction
  rw [if_neg hbody] at h
  cases ht : MessageType.ofNat? (headerUnpack d).2.1 with
  | none => simp only [ht] at h; contradiction
  | some t =>
      simp only [ht] at h
      obtain ⟨rfl, hs, hp⟩ := Frame.new_eq_ok_iff.mp h
      have hhead := headerPack_unpack (Nat.not_lt.mp hlen)
      rw [Nat.cast_inj] at hs
      rw [MessageType.ofNat?_eq_some_iff] at ht
      rw [not_not] at hver hbody
      calc
        d = d.take HEADER_LEN ++ d.drop HEADER_LEN := (List.take_append_drop _ _).symm
        _ = f.wire := by rw [← hhead, hver, ht, ← hs, ← hbody, ← hp]; rfl

/-- The only exceptions `decode` raises are `FrameError` and `ProtocolError`. -/
theorem decode_error {d : Bytes} {e : PyError} (h : decode d = .error e) :
    (∃ m, e = .frameError m) ∨ (∃ m, e = .protocolError m) := by
  simp only [decode, raiseIf_bind_except, throw_except, Frame.new] at h
  grind

/-- The header recomputed from a decoded frame is the header on the wire. -/
theorem header_of_decode {d : Bytes} {f : Frame} (h : decode d = .ok f) :
    f.header = .ok (d.take HEADER_LEN) := by
  rw [eq_wire_of_decode h, take_wire, Frame.header_eq]

/-- Two headers in range are equal only if they say the same. -/
theorem headerBytes_inj {t t' : MessageType} {s s' l l' : Nat} (hs : s ≤ MAX_SEQ)
    (hs' : s' ≤ MAX_SEQ) (hl : l ≤ MAX_PAYLOAD) (hl' : l' ≤ MAX_PAYLOAD)
    (h : headerBytes t s l = headerBytes t' s' l') : t = t' ∧ s = s' ∧ l = l' := by
  unfold MAX_SEQ at hs hs'
  unfold MAX_PAYLOAD at hl hl'
  have h₁ : headerUnpack (headerBytes t s l ++ []) = (FRAME_VERSION, t.toNat, s, l) :=
    headerUnpack_pack_append (by decide) t.toNat_lt (by omega) (by omega) []
  have h₂ : headerUnpack (headerBytes t' s' l' ++ []) = (FRAME_VERSION, t'.toNat, s', l') :=
    headerUnpack_pack_append (by decide) t'.toNat_lt (by omega) (by omega) []
  rw [h, h₂] at h₁
  simp only [Prod.mk.injEq, true_and] at h₁
  exact ⟨MessageType.toNat_injective h₁.1.symm, h₁.2.1.symm, h₁.2.2.symm⟩

/-- **The frame codec**: `decode` accepts exactly the image of `encode` and
inverts it, recomputes the header it read, and otherwise raises `FrameError`
or `ProtocolError`; `encode` succeeds exactly on the arguments in range, and
`decode` gives them back. -/
theorem decode_inverts_encode :
    (∀ (d : Bytes) (f : Frame), decode d = .ok f ↔
      ∃ (t : MessageType) (s : Int) (p : Bytes), (0 ≤ s ∧ s ≤ MAX_SEQ) ∧
        p.length ≤ MAX_PAYLOAD ∧ encode t s p = .ok d ∧
        f.msgType = t ∧ (f.seq : Int) = s ∧ f.payload = p) ∧
    (∀ (d : Bytes) (f : Frame), decode d = .ok f →
      f.encode = .ok d ∧ f.header = .ok (d.take HEADER_LEN)) ∧
    (∀ (d : Bytes) (e : PyError), decode d = .error e →
      (∃ m, e = .frameError m) ∨ (∃ m, e = .protocolError m)) ∧
    (∀ (t : MessageType) (s : Int) (p : Bytes),
      ((∃ d, encode t s p = .ok d) ↔ (0 ≤ s ∧ s ≤ MAX_SEQ) ∧ p.length ≤ MAX_PAYLOAD) ∧
      ∀ d, encode t s p = .ok d → ∃ f, decode d = .ok f ∧
        f.msgType = t ∧ (f.seq : Int) = s ∧ f.payload = p) := by
  refine ⟨fun d f => ⟨fun h => ?_, ?_⟩, fun d f h => ?_, fun d e => decode_error,
    fun t s p => ⟨encode_ok_iff, fun d h => ?_⟩⟩
  · have henc : encode f.msgType f.seq f.payload = .ok d := eq_wire_of_decode h ▸ encode_frame f
    obtain ⟨hs, hp⟩ := encode_ok_iff.mp ⟨d, henc⟩
    exact ⟨f.msgType, f.seq, f.payload, hs, hp, henc, rfl, rfl, rfl⟩
  · intro hexists
    obtain ⟨t, s, p, -, -, henc, rfl, rfl, rfl⟩ := hexists
    rw [encode_frame, Except.ok.injEq] at henc
    exact henc ▸ decode_wire f
  · exact ⟨eq_wire_of_decode h ▸ f.encode_eq, header_of_decode h⟩
  · obtain ⟨f, h₁, h₂, h₃, rfl⟩ := encode_eq_ok_iff.mp h
    exact ⟨f, decode_wire f, h₁, h₂, h₃⟩

end SecureWs
