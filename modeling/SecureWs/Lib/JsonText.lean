import SecureWs.Lib.Imp
import SecureWs.Lib.Json

/-!
# SecureWs.Lib.JsonText

`json.loads` of Python, on the bytes.

* `decodeText` finds out the encoding of the bytes and decodes them, letting
  surrogates pass;
* `scanOnce limit` is the scanner with `limit` levels of recursion left: an
  array or an object one level deeper raises `RecursionError`, everything
  else that is wrong raises a `ValueError`;
* `progresses_scanOnce`: what the scanner reads gets shorter, so that its fuel
  never runs out (`scanItems_fuel`, `scanMembers_fuel`).
-/

namespace Python

namespace Json

/-- How `json.loads` fails: `ValueError` (that includes `JSONDecodeError` and
`UnicodeDecodeError`), or `RecursionError`. -/
inductive LoadsError where
  | value
  | recursion
  deriving DecidableEq, Repr

/-! ## From bytes to text -/

/-- The encodings that `json.detect_encoding` tells apart. -/
inductive Encoding where
  | utf8
  | utf16 (bigEndian : Bool)
  | utf32 (bigEndian : Bool)
  deriving DecidableEq, Repr

/-- `json.detect_encoding(b)`, with the bytes after a byte order mark. -/
def detectEncoding (b : Bytes) : Encoding × Bytes :=
  if b.take 4 = [0x00, 0x00, 0xFE, 0xFF] then (.utf32 true, b.drop 4)
  else if b.take 4 = [0xFF, 0xFE, 0x00, 0x00] then (.utf32 false, b.drop 4)
  else if b.take 2 = [0xFE, 0xFF] then (.utf16 true, b.drop 2)
  else if b.take 2 = [0xFF, 0xFE] then (.utf16 false, b.drop 2)
  else if b.take 3 = [0xEF, 0xBB, 0xBF] then (.utf8, b.drop 3)
  else match b with
    | b₀ :: b₁ :: b₂ :: b₃ :: _ =>
        if b₀ = 0 then (if b₁ = 0 then .utf32 true else .utf16 true, b)
        else if b₁ = 0 then (if b₂ = 0 ∧ b₃ = 0 then .utf32 false else .utf16 false, b)
        else (.utf8, b)
    | [b₀, b₁] =>
        if b₀ = 0 then (.utf16 true, b) else if b₁ = 0 then (.utf16 false, b) else (.utf8, b)
    | _ => (.utf8, b)

/-- `chr(n)`. -/
def chr (n : Nat) : Option CodePoint := if h : n < 0x110000 then some ⟨n, h⟩ else none

/-- The six bits of a continuation byte. -/
def continuation (b : UInt8) : Option Nat :=
  if 0x80 ≤ b.toNat ∧ b.toNat < 0xC0 then some (b.toNat - 0x80) else none

/-- `b.decode("utf-8", "surrogatepass")`. -/
def decodeUtf8 : Bytes → Option Str
  | [] => some []
  | b₀ :: b =>
      if b₀.toNat < 0x80 then do return (← chr b₀.toNat) :: (← decodeUtf8 b)
      else match b with
        | [] => none
        | b₁ :: b =>
            if 0xC2 ≤ b₀.toNat ∧ b₀.toNat < 0xE0 then do
              let n := (b₀.toNat - 0xC0) * 0x40 + (← continuation b₁)
              return (← chr n) :: (← decodeUtf8 b)
            else match b with
              | [] => none
              | b₂ :: b =>
                  if 0xE0 ≤ b₀.toNat ∧ b₀.toNat < 0xF0 then do
                    let n := ((b₀.toNat - 0xE0) * 0x40 + (← continuation b₁)) * 0x40 +
                      (← continuation b₂)
                    if n < 0x800 then none else return (← chr n) :: (← decodeUtf8 b)
                  else match b with
                    | [] => none
                    | b₃ :: b =>
                        if 0xF0 ≤ b₀.toNat then do
                          let n := (((b₀.toNat - 0xF0) * 0x40 + (← continuation b₁)) * 0x40 +
                            (← continuation b₂)) * 0x40 + (← continuation b₃)
                          if n < 0x10000 then none else return (← chr n) :: (← decodeUtf8 b)
                        else none

/-- An ASCII byte stands for itself. -/
theorem decodeUtf8_cons {b₀ : UInt8} (h : b₀.toNat < 0x80) (b : Bytes) :
    decodeUtf8 (b₀ :: b) = do return (← chr b₀.toNat) :: (← decodeUtf8 b) := by
  rw [decodeUtf8.eq_def]
  exact if_pos h

/-- Bytes without NUL and without the bytes that start a byte order mark. -/
theorem detectEncoding_eq_utf8 {b : Bytes} (h0 : 0 ∉ b) (hFE : 0xFE ∉ b) (hFF : 0xFF ∉ b)
    (hEF : 0xEF ∉ b) : detectEncoding b = (.utf8, b) := by
  have htake : ∀ (n : Nat) (mark : Bytes), (∃ x ∈ mark, x ∉ b) → b.take n ≠ mark := by
    intro n mark hmark heq
    obtain ⟨x, hx, hnot⟩ := hmark
    rw [← heq] at hx
    exact hnot (List.mem_of_mem_take hx)
  unfold detectEncoding
  rw [if_neg (htake 4 _ ⟨0xFE, by simp, hFE⟩), if_neg (htake 4 _ ⟨0xFE, by simp, hFE⟩),
    if_neg (htake 2 _ ⟨0xFE, by simp, hFE⟩), if_neg (htake 2 _ ⟨0xFE, by simp, hFE⟩),
    if_neg (htake 3 _ ⟨0xEF, by simp, hEF⟩)]
  split
  · next b₀ b₁ b₂ b₃ b' =>
    simp only [List.mem_cons, not_or] at h0
    rw [if_neg (Ne.symm h0.1), if_neg (Ne.symm h0.2.1)]
  · next b₀ b₁ =>
    simp only [List.mem_cons, not_or] at h0
    rw [if_neg (Ne.symm h0.1), if_neg (Ne.symm h0.2.1)]
  · rfl

def isHighSurrogate (n : Nat) : Bool := 0xD800 ≤ n ∧ n < 0xDC00

def isLowSurrogate (n : Nat) : Bool := 0xDC00 ≤ n ∧ n < 0xE000

/-- The code point of a surrogate pair. -/
def joinSurrogates (high low : Nat) : Nat := 0x10000 + (high - 0xD800) * 0x400 + (low - 0xDC00)

/-- The 16-bit units of an UTF-16 text. -/
def units (bigEndian : Bool) : Bytes → Option (List Nat)
  | [] => some []
  | [_] => none
  | b₀ :: b₁ :: b => do
      let n := if bigEndian = true then b₀.toNat * 0x100 + b₁.toNat
        else b₁.toNat * 0x100 + b₀.toNat
      return n :: (← units bigEndian b)

/-- The code points of 16-bit units; a surrogate without its partner passes. -/
def joinUnits : List Nat → Option Str
  | [] => some []
  | n :: ns => match ns with
      | [] => do return [← chr n]
      | n' :: ns' =>
          if isHighSurrogate n = true ∧ isLowSurrogate n' = true then do
            return (← chr (joinSurrogates n n')) :: (← joinUnits ns')
          else do
            return (← chr n) :: (← joinUnits (n' :: ns'))

/-- The code points of an UTF-32 text. -/
def decodeUtf32 (bigEndian : Bool) : Bytes → Option Str
  | [] => some []
  | b₀ :: b₁ :: b₂ :: b₃ :: b => do
      let n := if bigEndian = true then
          ((b₀.toNat * 0x100 + b₁.toNat) * 0x100 + b₂.toNat) * 0x100 + b₃.toNat
        else ((b₃.toNat * 0x100 + b₂.toNat) * 0x100 + b₁.toNat) * 0x100 + b₀.toNat
      return (← chr n) :: (← decodeUtf32 bigEndian b)
  | _ => none

/-- `b.decode(detect_encoding(b), "surrogatepass")`; `none` is its
`UnicodeDecodeError`. -/
def decodeText (b : Bytes) : Option Str :=
  match detectEncoding b with
  | (.utf8, b) => decodeUtf8 b
  | (.utf16 bigEndian, b) => units bigEndian b >>= joinUnits
  | (.utf32 bigEndian, b) => decodeUtf32 bigEndian b

/-! ## Strings and numbers -/

def isWhitespace (c : CodePoint) : Bool := c.val = 32 ∨ c.val = 9 ∨ c.val = 10 ∨ c.val = 13

def skipSpace (s : Str) : Str := s.dropWhile isWhitespace

def quotationMark : CodePoint := CodePoint.ofChar '"'

def backslash : CodePoint := CodePoint.ofChar '\\'

/-- The escapes of one letter. -/
def simpleEscape (e : CodePoint) : Option CodePoint :=
  if e = quotationMark ∨ e = backslash ∨ e = CodePoint.ofChar '/' then some e
  else if e = CodePoint.ofChar 'b' then some (CodePoint.ofChar '\x08')
  else if e = CodePoint.ofChar 'f' then some (CodePoint.ofChar '\x0c')
  else if e = CodePoint.ofChar 'n' then some (CodePoint.ofChar '\n')
  else if e = CodePoint.ofChar 'r' then some (CodePoint.ofChar '\r')
  else if e = CodePoint.ofChar 't' then some (CodePoint.ofChar '\t')
  else none

/-- The value of four hexadecimal digits. -/
def hex4 (a b c d : CodePoint) : Option CodePoint := do
  chr ((((← hexValue? a) * 16 + (← hexValue? b)) * 16 + (← hexValue? c)) * 16 + (← hexValue? d))

/-- One character more in front of the contents. -/
def prepend (c : CodePoint) (scanned : Option (Str × Str)) : Option (Str × Str) :=
  scanned.map fun r => (c :: r.1, r.2)

/-- `scanstring`, after the opening quotation mark: the contents of the string
and the text after it. -/
def scanString : Str → Option (Str × Str)
  | [] => none
  | c :: s =>
      if c = quotationMark then some ([], s)
      else if c = backslash then match s with
        | [] => none
        | e :: s =>
            if e = CodePoint.ofChar 'u' then match s with
              | a :: b :: c :: d :: s => match hex4 a b c d with
                  | none => none
                  | some x =>
                      if isHighSurrogate x.val = true then match s with
                        | e₁ :: e₂ :: a :: b :: c :: d :: s' =>
                            if e₁ = backslash ∧ e₂ = CodePoint.ofChar 'u' then
                              match hex4 a b c d with
                              | none => none
                              | some y =>
                                  if isLowSurrogate y.val = true then do
                                    let z ← chr (joinSurrogates x.val y.val)
                                    prepend z (scanString s')
                                  else prepend x (scanString (e₁ :: e₂ :: a :: b :: c :: d :: s'))
                            else prepend x (scanString (e₁ :: e₂ :: a :: b :: c :: d :: s'))
                        | s => prepend x (scanString s)
                      else prepend x (scanString s)
              | _ => none
            else match simpleEscape e with
              | none => none
              | some x => prepend x (scanString s)
      else if c.val < 32 then none
      else prepend c (scanString s)

/-- The closing quotation mark. -/
theorem scanString_quotationMark (s : Str) : scanString (quotationMark :: s) = some ([], s) := by
  rw [scanString.eq_def]
  exact if_pos rfl

/-- A character that stands for itself. -/
theorem scanString_plain {c : CodePoint} (hq : c ≠ quotationMark) (hb : c ≠ backslash)
    (h : ¬c.val < 32) (s : Str) : scanString (c :: s) = prepend c (scanString s) := by
  rw [scanString.eq_def]
  simp only [if_neg hq, if_neg hb, if_neg h]

/-- An escape of one letter. -/
theorem scanString_simpleEscape {e x : CodePoint} (hu : e ≠ CodePoint.ofChar 'u')
    (hx : simpleEscape e = some x) (s : Str) :
    scanString (backslash :: e :: s) = prepend x (scanString s) := by
  have hb : backslash ≠ quotationMark := by decide
  rw [scanString.eq_def]
  simp only [if_neg hb, if_true, if_neg hu, hx]

/-- An escape of four digits that is no half of a surrogate pair. -/
theorem scanString_hex4 {a b c d x : CodePoint} (hx : hex4 a b c d = some x)
    (hhigh : isHighSurrogate x.val = false) (s : Str) :
    scanString (backslash :: CodePoint.ofChar 'u' :: a :: b :: c :: d :: s) =
      prepend x (scanString s) := by
  have hb : backslash ≠ quotationMark := by decide
  rw [scanString.eq_def]
  simp only [if_neg hb, if_true, hx, hhigh, Bool.false_eq_true, if_false]

/-- Two escapes of four digits that make a surrogate pair. -/
theorem scanString_pair {a b c d a' b' c' d' x y z : CodePoint} (hx : hex4 a b c d = some x)
    (hy : hex4 a' b' c' d' = some y) (hhigh : isHighSurrogate x.val = true)
    (hlow : isLowSurrogate y.val = true) (hz : chr (joinSurrogates x.val y.val) = some z) (s : Str) :
    scanString (backslash :: CodePoint.ofChar 'u' :: a :: b :: c :: d ::
      backslash :: CodePoint.ofChar 'u' :: a' :: b' :: c' :: d' :: s) =
        prepend z (scanString s) := by
  have hb : backslash ≠ quotationMark := by decide
  rw [scanString.eq_def]
  simp only [if_neg hb, if_true, hx, hhigh, and_self, hy, hlow, hz, Option.bind_eq_bind,
    Option.bind_some]

def isDigit (c : CodePoint) : Bool := 48 ≤ c.val ∧ c.val ≤ 57

def digitsValue (digits : Str) : Nat := digits.foldl (fun n c => 10 * n + (c.val - 48)) 0

/-- A number with its sign. -/
def signed (negative : Bool) (n : Nat) : Int := if negative = true then -n else n

/-- Round a rational to an integer, ties to even. -/
def roundHalfEven (q : ℚ) : Int :=
  if q - ⌊q⌋ < 1 / 2 then ⌊q⌋
  else if 1 / 2 < q - ⌊q⌋ then ⌊q⌋ + 1
  else if ⌊q⌋ % 2 = 0 then ⌊q⌋ else ⌊q⌋ + 1

/-- The binary64 float nearest to a rational: 53 bits of precision, the least
exponent -1074, and infinity from 2 ^ 1024 on. -/
def toFloat (q : ℚ) : PyFloat :=
  let exponent := max (Int.log 2 |q| - 52) (-1074)
  let rounded : ℚ := roundHalfEven (q / 2 ^ exponent) * 2 ^ exponent
  if 2 ^ 1024 ≤ |rounded| then .infinity (q < 0) else .finite rounded

/-- The fraction of a number: its digits, and the text after it. -/
def scanFraction : Str → Option (Str × Str)
  | c :: d :: s =>
      if c = CodePoint.ofChar '.' ∧ isDigit d = true then
        some (d :: s.takeWhile isDigit, s.dropWhile isDigit)
      else none
  | _ => none

def scanSign : Str → Bool × Str
  | c :: s =>
      if c = CodePoint.ofChar '-' then (true, s)
      else if c = CodePoint.ofChar '+' then (false, s)
      else (false, c :: s)
  | [] => (false, [])

/-- The exponent of a number; without a digit there is none. -/
def scanExponent : Str → Option (Int × Str)
  | c :: s =>
      if c = CodePoint.ofChar 'e' ∨ c = CodePoint.ofChar 'E' then
        if (scanSign s).2.takeWhile isDigit = [] then none
        else some (signed (scanSign s).1 (digitsValue ((scanSign s).2.takeWhile isDigit)),
          (scanSign s).2.dropWhile isDigit)
      else none
  | [] => none

/-- The integer part of a number, without its sign. -/
def scanInteger : Str → Option (Str × Str)
  | c :: s =>
      if c = CodePoint.ofChar '0' then some ([c], s)
      else if isDigit c = true then some (c :: s.takeWhile isDigit, s.dropWhile isDigit)
      else none
  | [] => none

/-- The most digits that `int` converts. -/
def maxStrDigits : Nat := 4300

/-- A number after its sign. -/
def scanUnsigned (negative : Bool) (s : Str) : Except LoadsError (Json × Str) :=
  match scanInteger s with
  | none => .error .value
  | some (digits, s) =>
      match scanFraction s, scanExponent ((scanFraction s).elim s Prod.snd) with
      | none, none =>
          if maxStrDigits < digits.length then .error .value
          else .ok (.int (signed negative (digitsValue digits)), s)
      | fraction, exponent =>
          let places := fraction.elim [] Prod.fst
          let power := exponent.elim 0 Prod.fst - places.length
          let q : ℚ := digitsValue (digits ++ places) * 10 ^ power
          .ok (.float (toFloat (if negative = true then -q else q)),
            exponent.elim (fraction.elim s Prod.snd) Prod.snd)

/-- `_match_number`. -/
def scanNumber (s : Str) : Except LoadsError (Json × Str) :=
  if s.head? = some (CodePoint.ofChar '-') then scanUnsigned true s.tail else scanUnsigned false s

/-! ## Values -/

/-- The words that are values. -/
def words : List (String × Json) :=
  [("null", .null), ("true", .bool true), ("false", .bool false), ("NaN", .float .nan),
    ("Infinity", .float (.infinity false)), ("-Infinity", .float (.infinity true))]

/-- A word at the start of the text. -/
def scanWord (s : Str) : Option (Json × Str) :=
  words.findSome? fun word =>
    if (Str.ofString word.1).isPrefixOf s = true then some (word.2, s.drop word.1.length) else none

/-- `d[key] = value` on the entries of a dictionary. -/
def setItem (entries : List (Str × Json)) (key : Str) (value : Json) : List (Str × Json) :=
  if entries.any (fun entry => entry.1 = key) = true then
    entries.map fun entry => if entry.1 = key then (key, value) else entry
  else entries ++ [(key, value)]

section

variable (scan : Str → Except LoadsError (Json × Str))

/-- The items of an array from the first on, where `fuel` exceeds the length
of the text. -/
def scanItems : Nat → Str → Except LoadsError (List Json × Str)
  | 0, _ => .error .value
  | fuel + 1, s => do
      let (item, s) ← scan s
      match skipSpace s with
      | [] => .error .value
      | c :: s =>
          if c = CodePoint.ofChar ']' then return ([item], s)
          else if c = CodePoint.ofChar ',' then do
            let (items, s) ← scanItems fuel (skipSpace s)
            return (item :: items, s)
          else .error .value

/-- `_parse_array`, after the bracket. -/
def scanArray (s : Str) : Except LoadsError (Json × Str) :=
  match skipSpace s with
  | [] => .error .value
  | c :: s =>
      if c = CodePoint.ofChar ']' then .ok (.list [], s)
      else do
        let (items, s) ← scanItems scan (s.length + 2) (c :: s)
        return (.list items, s)

def scanMember (s : Str) : Except LoadsError (Json × Str) :=
  match skipSpace s with
  | [] => .error .value
  | c :: s => if c = CodePoint.ofChar ':' then scan (skipSpace s) else .error .value

/-- The members of an object from the first on. -/
def scanMembers : Nat → Str → Except LoadsError (List (Str × Json) × Str)
  | 0, _ => .error .value
  | fuel + 1, s => match s with
      | [] => .error .value
      | c :: s =>
          if c = quotationMark then match scanString s with
            | none => .error .value
            | some (key, s) => do
                let (value, s) ← scanMember scan s
                match skipSpace s with
                | [] => .error .value
                | c :: s =>
                    if c = CodePoint.ofChar '}' then return ([(key, value)], s)
                    else if c = CodePoint.ofChar ',' then do
                      let (members, s) ← scanMembers fuel (skipSpace s)
                      return ((key, value) :: members, s)
                    else .error .value
          else .error .value

/-- `_parse_object`, after the brace.  Of members with one key the last wins. -/
def scanObject (s : Str) : Except LoadsError (Json × Str) :=
  match skipSpace s with
  | [] => .error .value
  | c :: s =>
      if c = CodePoint.ofChar '}' then .ok (.dict [], s)
      else do
        let (members, s) ← scanMembers scan (s.length + 2) (c :: s)
        return (.dict (members.foldl (fun entries m => setItem entries m.1 m.2) []), s)

end

/-- A value; `array` and `object` go on after an opening bracket or brace. -/
def scanValue (array object : Str → Except LoadsError (Json × Str)) (s : Str) :
    Except LoadsError (Json × Str) :=
  match s with
  | [] => .error .value
  | c :: t =>
      if c = quotationMark then match scanString t with
        | none => .error .value
        | some (contents, rest) => .ok (.str contents, rest)
      else if c = CodePoint.ofChar '{' then object t
      else if c = CodePoint.ofChar '[' then array t
      else match scanWord s with
        | some scanned => .ok scanned
        | none => scanNumber s

/-- `scan_once`, with `limit` levels of recursion left. -/
def scanOnce : Nat → Str → Except LoadsError (Json × Str)
  | 0 => scanValue (fun _ => .error .recursion) (fun _ => .error .recursion)
  | limit + 1 => scanValue (scanArray (scanOnce limit)) (scanObject (scanOnce limit))

/-- `json.loads(data)`. -/
def loads (limit : Nat) (data : Bytes) : Except LoadsError Json :=
  match decodeText data with
  | none => .error .value
  | some text => do
      let (value, rest) ← scanOnce limit (skipSpace text)
      if skipSpace rest = [] then return value else .error .value

/-! ## The scanner gets on

Every value takes at least one character, so the fuel of `scanItems` and
`scanMembers` never runs out. -/

theorem prepend_eq_some {c : CodePoint} {scanned : Option (Str × Str)} {contents rest : Str}
    (h : prepend c scanned = some (contents, rest)) : ∃ contents', scanned = some (contents', rest) := by
  obtain ⟨r, hr, heq⟩ := Option.map_eq_some_iff.mp h
  obtain ⟨-, rfl⟩ := Prod.mk.inj heq
  exact ⟨r.1, hr⟩

/-- A string takes at least its closing quotation mark. -/
theorem length_lt_of_scanString {s contents rest : Str} (h : scanString s = some (contents, rest)) :
    rest.length < s.length := by
  fun_induction scanString s generalizing contents
  case case2 =>
    obtain ⟨-, rfl⟩ := Prod.mk.inj (Option.some.inj h)
    exact Nat.lt_succ_self _
  case case6 ih =>
    -- a surrogate pair
    obtain ⟨z, -, hscan⟩ := Option.bind_eq_some_iff.mp h
    obtain ⟨contents', hcontents⟩ := prepend_eq_some hscan
    have hlt := ih hcontents
    simp only [List.length_cons]
    omega
  case case7 ih | case8 ih | case9 ih | case10 ih | case13 ih | case15 ih =>
    obtain ⟨contents', hcontents⟩ := prepend_eq_some h
    have hlt := ih hcontents
    simp only [List.length_cons] at hlt ⊢
    omega
  all_goals cases h

theorem length_dropWhile_le (p : CodePoint → Bool) (s : Str) : (s.dropWhile p).length ≤ s.length :=
  (List.dropWhile_suffix p).length_le

theorem length_lt_of_scanInteger {s digits rest : Str} (h : scanInteger s = some (digits, rest)) :
    rest.length < s.length := by
  unfold scanInteger at h
  split at h
  · next c s =>
    have hle := length_dropWhile_le isDigit s
    split_ifs at h
    · obtain ⟨-, rfl⟩ := Prod.mk.inj (Option.some.inj h)
      exact Nat.lt_succ_self _
    · obtain ⟨-, rfl⟩ := Prod.mk.inj (Option.some.inj h)
      exact Nat.lt_succ_of_le hle
  · cases h

theorem length_le_of_scanFraction (s : Str) : ((scanFraction s).elim s Prod.snd).length ≤ s.length := by
  unfold scanFraction
  split
  · next c d s =>
    have hle := length_dropWhile_le isDigit s
    split_ifs
    · simp only [Option.elim_some, List.length_cons]
      omega
    · exact Nat.le_refl _
  · exact Nat.le_refl _

theorem length_scanSign_le (s : Str) : (scanSign s).2.length ≤ s.length := by
  unfold scanSign
  split
  · split_ifs
    · exact Nat.le_succ _
    · exact Nat.le_succ _
    · exact Nat.le_refl _
  · exact Nat.le_refl _

theorem length_le_of_scanExponent {s rest : Str} {power : Int}
    (h : scanExponent s = some (power, rest)) : rest.length ≤ s.length := by
  unfold scanExponent at h
  split at h
  · next c s =>
    have hsign := length_scanSign_le s
    have hdrop := length_dropWhile_le isDigit (scanSign s).2
    split_ifs at h
    obtain ⟨-, rfl⟩ := Prod.mk.inj (Option.some.inj h)
    simp only [List.length_cons]
    omega
  · cases h

theorem length_lt_of_scanUnsigned {negative : Bool} {s rest : Str} {value : Json}
    (h : scanUnsigned negative s = .ok (value, rest)) : rest.length < s.length := by
  unfold scanUnsigned at h
  cases hinteger : scanInteger s with
  | none =>
      rw [hinteger] at h
      cases h
  | some r =>
      obtain ⟨digits, s'⟩ := r
      have hlt := length_lt_of_scanInteger hinteger
      have hfraction := length_le_of_scanFraction s'
      rw [hinteger] at h
      simp only at h
      cases hexponent : scanExponent ((scanFraction s').elim s' Prod.snd) with
      | none =>
          have hrest : rest.length ≤ s'.length := by
            rw [hexponent] at h
            cases hf : scanFraction s' with
            | none =>
                simp only [hf] at h
                split_ifs at h
                obtain ⟨-, rfl⟩ := Prod.mk.inj (Except.ok.inj h)
                exact Nat.le_refl _
            | some f =>
                simp only [hf, Option.elim_none, Option.elim_some] at h hfraction
                obtain ⟨-, rfl⟩ := Prod.mk.inj (Except.ok.inj h)
                exact hfraction
          omega
      | some e =>
          obtain ⟨power, s''⟩ := e
          have hle := length_le_of_scanExponent hexponent
          have hrest : rest = s'' := by
            rw [hexponent] at h
            cases hf : scanFraction s' with
            | none =>
                simp only [hf, Option.elim_some] at h
                exact (Prod.mk.inj (Except.ok.inj h)).2.symm
            | some f =>
                simp only [hf, Option.elim_some] at h
                exact (Prod.mk.inj (Except.ok.inj h)).2.symm
          rw [hrest]
          omega

theorem length_lt_of_scanNumber {s rest : Str} {value : Json}
    (h : scanNumber s = .ok (value, rest)) : rest.length < s.length := by
  unfold scanNumber at h
  split_ifs at h
  · have hlt := length_lt_of_scanUnsigned h
    rw [List.length_tail] at hlt
    omega
  · exact length_lt_of_scanUnsigned h

theorem length_lt_of_scanWord {a : CodePoint} {s rest : Str} {value : Json}
    (h : scanWord (a :: s) = some (value, rest)) : rest.length < (a :: s).length := by
  obtain ⟨word, hmem, hword⟩ := List.exists_of_findSome?_eq_some h
  have hpos : ∀ word ∈ words, 0 < word.1.length := by
    simp only [words, List.forall_mem_cons]
    decide
  split_ifs at hword
  obtain ⟨-, rfl⟩ := Prod.mk.inj (Option.some.inj hword)
  have hlen := hpos word hmem
  simp only [List.length_drop, List.length_cons]
  omega

/-- A scanner that takes at least one character. -/
def Progresses (scan : Str → Except LoadsError (Json × Str)) : Prop :=
  ∀ s value rest, scan s = .ok (value, rest) → rest.length < s.length

section

variable {scan : Str → Except LoadsError (Json × Str)}

theorem length_skipSpace_le (s : Str) : (skipSpace s).length ≤ s.length :=
  length_dropWhile_le isWhitespace s

theorem length_lt_of_scanItems (hscan : Progresses scan) {fuel : Nat} {s rest : Str}
    {items : List Json} (h : scanItems scan fuel s = .ok (items, rest)) : rest.length < s.length := by
  induction fuel generalizing s items with
  | zero => cases h
  | succ fuel ih =>
      unfold scanItems at h
      obtain ⟨⟨item, s₁⟩, hitem, h⟩ := bind_eq_ok_iff.mp h
      have hlt := hscan s item s₁ hitem
      have hskip := length_skipSpace_le s₁
      simp only at h
      cases hs₁ : skipSpace s₁ with
      | nil => simp [hs₁] at h
      | cons c t =>
          rw [hs₁, List.length_cons] at hskip
          simp only [hs₁] at h
          split_ifs at h
          · obtain ⟨-, rfl⟩ := Prod.mk.inj (Except.ok.inj h)
            omega
          · obtain ⟨⟨items', s₂⟩, hitems, h⟩ := bind_eq_ok_iff.mp h
            obtain ⟨-, rfl⟩ := Prod.mk.inj (Except.ok.inj h)
            have hlt' := ih hitems
            have hskip' := length_skipSpace_le t
            omega

theorem length_lt_of_scanMember (hscan : Progresses scan) {s rest : Str} {value : Json}
    (h : scanMember scan s = .ok (value, rest)) : rest.length < s.length := by
  have hskip := length_skipSpace_le s
  unfold scanMember at h
  cases hs : skipSpace s with
  | nil => simp [hs] at h
  | cons c t =>
      rw [hs, List.length_cons] at hskip
      simp only [hs] at h
      split_ifs at h
      have hlt := hscan _ value rest h
      have hskip' := length_skipSpace_le t
      omega

theorem length_lt_of_scanMembers (hscan : Progresses scan) {fuel : Nat} {s rest : Str}
    {members : List (Str × Json)} (h : scanMembers scan fuel s = .ok (members, rest)) :
    rest.length < s.length := by
  induction fuel generalizing s members with
  | zero => cases h
  | succ fuel ih =>
      cases s with
      | nil => cases h
      | cons c s =>
          unfold scanMembers at h
          simp only at h
          split_ifs at h
          cases hkey : scanString s with
          | none => simp [hkey] at h
          | some r =>
              obtain ⟨key, s₁⟩ := r
              have hstring := length_lt_of_scanString hkey
              simp only [hkey] at h
              obtain ⟨⟨value, s₂⟩, hvalue, h⟩ := bind_eq_ok_iff.mp h
              have hmember := length_lt_of_scanMember hscan hvalue
              have hskip := length_skipSpace_le s₂
              simp only at h
              cases hs₂ : skipSpace s₂ with
              | nil => simp [hs₂] at h
              | cons c' t =>
                  rw [hs₂, List.length_cons] at hskip
                  simp only [hs₂] at h
                  split_ifs at h
                  · obtain ⟨-, rfl⟩ := Prod.mk.inj (Except.ok.inj h)
                    simp only [List.length_cons]
                    omega
                  · obtain ⟨⟨members', s₃⟩, hmembers, h⟩ := bind_eq_ok_iff.mp h
                    obtain ⟨-, rfl⟩ := Prod.mk.inj (Except.ok.inj h)
                    have hlt' : s₃.length < (skipSpace t).length := ih hmembers
                    have hskip' := length_skipSpace_le t
                    show s₃.length < s.length + 1
                    omega

/-- More fuel than characters is enough for the items of an array. -/
theorem scanItems_fuel (hscan : Progresses scan) {fuel fuel' : Nat} {s : Str}
    (h : s.length < fuel) (h' : s.length < fuel') : scanItems scan fuel s = scanItems scan fuel' s := by
  induction fuel generalizing fuel' s with
  | zero => cases h
  | succ fuel ih =>
      obtain ⟨fuel', rfl⟩ : ∃ n, fuel' = n + 1 := ⟨fuel' - 1, by omega⟩
      unfold scanItems
      cases hitem : scan s with
      | error e => rfl
      | ok r =>
          have hlt := hscan s r.1 r.2 hitem
          have hskip := length_skipSpace_le r.2
          simp only [bind, Except.bind]
          cases hrest : skipSpace r.2 with
          | nil => rfl
          | cons c t =>
              have hskip' := length_skipSpace_le t
              rw [hrest, List.length_cons] at hskip
              have heq : scanItems scan fuel (skipSpace t) = scanItems scan fuel' (skipSpace t) :=
                ih (by omega) (by omega)
              simp only [heq]

/-- More fuel than characters is enough for the members of an object. -/
theorem scanMembers_fuel (hscan : Progresses scan) {fuel fuel' : Nat} {s : Str}
    (h : s.length < fuel) (h' : s.length < fuel') :
    scanMembers scan fuel s = scanMembers scan fuel' s := by
  induction fuel generalizing fuel' s with
  | zero => cases h
  | succ fuel ih =>
      obtain ⟨fuel', rfl⟩ : ∃ n, fuel' = n + 1 := ⟨fuel' - 1, by omega⟩
      cases s with
      | nil => rfl
      | cons c s =>
          unfold scanMembers
          by_cases hquote : c = quotationMark
          case neg => simp only [if_neg hquote]
          simp only [if_pos hquote]
          cases hkey : scanString s with
          | none => rfl
          | some r =>
              have hstring := length_lt_of_scanString hkey
              cases hvalue : scanMember scan r.2 with
              | error e =>
                  simp only [hvalue]
                  rfl
              | ok v =>
                  have hmember := length_lt_of_scanMember hscan hvalue
                  have hskip := length_skipSpace_le v.2
                  simp only [hvalue, bind, Except.bind]
                  cases hrest : skipSpace v.2 with
                  | nil => rfl
                  | cons c' t =>
                      have hskip' := length_skipSpace_le t
                      rw [hrest, List.length_cons] at hskip
                      simp only [List.length_cons] at h h'
                      have heq : scanMembers scan fuel (skipSpace t) =
                          scanMembers scan fuel' (skipSpace t) := ih (by omega) (by omega)
                      simp only [heq]

theorem progresses_scanArray (hscan : Progresses scan) : Progresses (scanArray scan) := by
  intro s value rest h
  have hskip := length_skipSpace_le s
  unfold scanArray at h
  cases hs : skipSpace s with
  | nil => simp [hs] at h
  | cons c t =>
      rw [hs, List.length_cons] at hskip
      simp only [hs] at h
      split_ifs at h
      · obtain ⟨-, rfl⟩ := Prod.mk.inj (Except.ok.inj h)
        omega
      · obtain ⟨⟨items, s₁⟩, hitems, h⟩ := bind_eq_ok_iff.mp h
        obtain ⟨-, rfl⟩ := Prod.mk.inj (Except.ok.inj h)
        have hlt : s₁.length < t.length + 1 := length_lt_of_scanItems hscan hitems
        show s₁.length < s.length
        omega

theorem progresses_scanObject (hscan : Progresses scan) : Progresses (scanObject scan) := by
  intro s value rest h
  have hskip := length_skipSpace_le s
  unfold scanObject at h
  cases hs : skipSpace s with
  | nil => simp [hs] at h
  | cons c t =>
      rw [hs, List.length_cons] at hskip
      simp only [hs] at h
      split_ifs at h
      · obtain ⟨-, rfl⟩ := Prod.mk.inj (Except.ok.inj h)
        omega
      · obtain ⟨⟨members, s₁⟩, hmembers, h⟩ := bind_eq_ok_iff.mp h
        obtain ⟨-, rfl⟩ := Prod.mk.inj (Except.ok.inj h)
        have hlt : s₁.length < t.length + 1 := length_lt_of_scanMembers hscan hmembers
        show s₁.length < s.length
        omega

theorem progresses_scanValue {array object : Str → Except LoadsError (Json × Str)}
    (harray : Progresses array) (hobject : Progresses object) :
    Progresses (scanValue array object) := by
  intro s value rest h
  cases s with
  | nil => cases h
  | cons c t =>
      unfold scanValue at h
      simp only at h
      split_ifs at h
      · cases hstring : scanString t with
        | none => simp [hstring] at h
        | some r =>
            simp only [hstring] at h
            obtain ⟨-, rfl⟩ := Prod.mk.inj (Except.ok.inj h)
            exact Nat.lt_succ_of_lt (length_lt_of_scanString hstring)
      · exact Nat.lt_succ_of_lt (hobject t value rest h)
      · exact Nat.lt_succ_of_lt (harray t value rest h)
      · cases hword : scanWord (c :: t) with
        | none =>
            simp only [hword] at h
            exact length_lt_of_scanNumber h
        | some r =>
            simp only [hword] at h
            rw [Except.ok.inj h] at hword
            exact length_lt_of_scanWord hword

end

/-- **The scanner gets on**, at every depth. -/
theorem progresses_scanOnce (limit : Nat) : Progresses (scanOnce limit) := by
  have hnever : Progresses fun _ => .error .recursion := by
    intro s value rest h
    cases h
  induction limit with
  | zero => exact progresses_scanValue hnever hnever
  | succ limit ih => exact progresses_scanValue (progresses_scanArray ih) (progresses_scanObject ih)

end Json

end Python
