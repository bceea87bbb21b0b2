import SecureWs.Lib.Python

/-!
# SecureWs.Lib.Json

The values that `json.loads` returns, and what Python's built-ins do with
them: `==` with an integer, the lookup of a key, truncation of a float and
`bytes.fromhex`.
-/

namespace Python

/-- A Python `float`, by value. -/
inductive PyFloat where
  | finite (q : ℚ)
  | infinity (negative : Bool)
  | nan
  deriving DecidableEq, Repr

/-- A value that `json.loads` returns. -/
inductive Json where
  | null
  | bool (b : Bool)
  | int (n : Int)
  | float (x : PyFloat)
  | str (s : Str)
  | list (items : List Json)
  | dict (entries : List (Str × Json))

/-- Truncation towards zero, `int(x)` of a finite float. -/
def truncate (q : ℚ) : Int := q.num.tdiv q.den

namespace Json

/-- `value == n`: a float and a bool compare by value. -/
def eqInt (n : Int) : Json → Bool
  | .int m => m = n
  | .bool b => (if b then 1 else 0) = n
  | .float (.finite q) => q = n
  | _ => false

def lookup (key : Str) (entries : List (Str × Json)) : Option Json :=
  (entries.find? fun entry => entry.1 = key).map Prod.snd

end Json

/-- ASCII white space, which `bytes.fromhex` skips between the bytes. -/
def isSpace (c : CodePoint) : Bool := c.val = 32 ∨ 9 ≤ c.val ∧ c.val ≤ 13

/-- The value of a hexadecimal digit of either case. -/
def hexValue? (c : CodePoint) : Option Nat :=
  if 48 ≤ c.val ∧ c.val ≤ 57 then some (c.val - 48)
  else if 65 ≤ c.val ∧ c.val ≤ 70 then some (c.val - 55)
  else if 97 ≤ c.val ∧ c.val ≤ 102 then some (c.val - 87)
  else none

/-- `bytes.fromhex(s)`; `none` is its `ValueError`. -/
def fromHex : Str → Option Bytes
  | [] => some []
  | c :: s =>
      if isSpace c then fromHex s
      else match s with
        | [] => none
        | d :: s => do
            let high ← hexValue? c
            let low ← hexValue? d
            let rest ← fromHex s
            return UInt8.ofNat (16 * high + low) :: rest

end Python
