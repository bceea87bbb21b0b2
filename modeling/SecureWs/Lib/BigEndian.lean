import Mathlib.Tactic.NormNum

/-!
# SecureWs.Lib.BigEndian

Fixed-width big-endian integers as byte lists: `encode w n` writes the low
`w` bytes of `n`, most significant first, and `decode` reads a byte list
back.  The two are inverse on numbers below `256 ^ w` and on byte lists of
length `w`.
-/

namespace BigEndian

/-- The `w` low bytes of `n`, most significant byte first. -/
def encode : Nat → Nat → List UInt8
  | 0, _ => []
  | w + 1, n => encode w (n / 256) ++ [UInt8.ofNat (n % 256)]

/-- The number a byte list denotes, most significant byte first. -/
def decode (bs : List UInt8) : Nat := bs.foldl (fun acc b => acc * 256 + b.toNat) 0

@[simp] theorem length_encode (w n : Nat) : (encode w n).length = w := by
  induction w generalizing n with
  | zero => rfl
  | succ w ih => simp [encode, ih]

@[simp] theorem decode_nil : decode [] = 0 := rfl

/-- The last byte is the least significant one. -/
theorem decode_append_singleton (bs : List UInt8) (b : UInt8) :
    decode (bs ++ [b]) = decode bs * 256 + b.toNat := by
  simp [decode]

/-- **Roundtrip**: a number that fits its width reads back. -/
theorem decode_encode {w n : Nat} (h : n < 256 ^ w) : decode (encode w n) = n := by
  induction w generalizing n with
  | zero =>
      have hn : n = 0 := by simpa using h
      simp [encode, hn]
  | succ w ih =>
      have hdiv : n / 256 < 256 ^ w := by
        rw [Nat.div_lt_iff_lt_mul (by decide : 0 < 256)]
        simpa [Nat.pow_succ] using h
      have hmod : (UInt8.ofNat (n % 256)).toNat = n % 256 := by
        simp [UInt8.toNat_ofNat']
      rw [encode, decode_append_singleton, ih hdiv, hmod]
      omega

/-- **Roundtrip**: every byte list is the encoding of what it denotes. -/
theorem encode_decode (w : Nat) (bs : List UInt8) (h : bs.length = w) :
    encode w (decode bs) = bs := by
  induction w generalizing bs with
  | zero => rw [List.length_eq_zero_iff.mp h]; rfl
  | succ w ih =>
      have hne : bs ≠ [] := fun he => by simp [he] at h
      have hsplit := List.dropLast_concat_getLast hne
      have hlen : bs.dropLast.length = w := by simp [h]
      have hlast := (bs.getLast hne).toNat_lt
      have hdiv : (decode bs.dropLast * 256 + (bs.getLast hne).toNat) / 256 =
          decode bs.dropLast := by omega
      have hmod : (decode bs.dropLast * 256 + (bs.getLast hne).toNat) % 256 =
          (bs.getLast hne).toNat := by omega
      calc
        encode (w + 1) (decode bs)
            = encode (w + 1) (decode (bs.dropLast ++ [bs.getLast hne])) := by rw [hsplit]
        _ = bs.dropLast ++ [bs.getLast hne] := by
            rw [decode_append_singleton, encode, hdiv, hmod, ih _ hlen, UInt8.ofNat_toNat]
        _ = bs := hsplit

end BigEndian
