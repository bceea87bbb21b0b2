import SecureWs.Lib.JsonText

/-!
# SecureWs.Lib.JsonDumps

`json.dumps` of an object of strings and integers, with its keys sorted and in
ASCII, and the round trip through `json.loads`.

* `scanString_quote`: every string without surrogates survives its escapes,
  characters beyond the basic plane as a surrogate pair;
* `scanNumber_decimal`: every integer that `str` converts survives;
* `loads_dumps`: so does the object.
-/

namespace Python

namespace Json

/-! ## Strings -/

/-- `"\\u{0:04x}".format(n)`. -/
def unicodeEscape (n : Nat) : Str :=
  [backslash, CodePoint.ofChar 'u', hexDigit (n / 0x1000 % 16), hexDigit (n / 0x100 % 16),
    hexDigit (n / 0x10 % 16), hexDigit (n % 16)]

/-- One character of a string, escaped to ASCII. -/
def escapeChar (c : CodePoint) : Str :=
  if c = quotationMark ∨ c = backslash then [backslash, c]
  else if c = CodePoint.ofChar '\x08' then [backslash, CodePoint.ofChar 'b']
  else if c = CodePoint.ofChar '\x0c' then [backslash, CodePoint.ofChar 'f']
  else if c = CodePoint.ofChar '\n' then [backslash, CodePoint.ofChar 'n']
  else if c = CodePoint.ofChar '\r' then [backslash, CodePoint.ofChar 'r']
  else if c = CodePoint.ofChar '\t' then [backslash, CodePoint.ofChar 't']
  else if 32 ≤ c.val ∧ c.val < 127 then [c]
  else if c.val < 0x10000 then unicodeEscape c.val
  else unicodeEscape (0xD800 + (c.val - 0x10000) / 0x400) ++
    unicodeEscape (0xDC00 + (c.val - 0x10000) % 0x400)

/-- `py_encode_basestring_ascii(s)`. -/
def quote (s : Str) : Str := quotationMark :: s.flatMap escapeChar ++ [quotationMark]

theorem hexValue?_hexDigit : ∀ n < 16, hexValue? (hexDigit n) = some n := by
  decide

theorem chr_of_lt {n : Nat} (h : n < 0x110000) : chr n = some ⟨n, h⟩ := dif_pos h

/-- Four digits of a number below 65536 give it back. -/
theorem hex4_hexDigit {n : Nat} (h : n < 0x10000) :
    hex4 (hexDigit (n / 0x1000 % 16)) (hexDigit (n / 0x100 % 16)) (hexDigit (n / 0x10 % 16))
      (hexDigit (n % 16)) = some ⟨n, by omega⟩ := by
  have hdigit : ∀ m, hexValue? (hexDigit (m % 16)) = some (m % 16) :=
    fun m => hexValue?_hexDigit _ (Nat.mod_lt _ (by decide))
  have hvalue : ((n / 0x1000 % 16 * 16 + n / 0x100 % 16) * 16 + n / 0x10 % 16) * 16 + n % 16 = n := by
    omega
  simp only [hex4, hdigit, Option.bind_eq_bind, Option.bind_some, hvalue]
  exact chr_of_lt (by omega)

/-- A surrogate: half of a pair. -/
def isSurrogate (c : CodePoint) : Bool := 0xD800 ≤ c.val ∧ c.val < 0xE000

/-- Every other character survives its escape. -/
theorem scanString_escapeChar {c : CodePoint} (h : isSurrogate c = false) (s : Str) :
    scanString (escapeChar c ++ s) = prepend c (scanString s) := by
  unfold escapeChar
  split_ifs with hq h8 h12 h10 h13 h9 hprint hbmp
  · obtain rfl | rfl := hq
    · exact scanString_simpleEscape (by decide) (by decide) s
    · exact scanString_simpleEscape (by decide) (by decide) s
  · rw [h8]
    exact scanString_simpleEscape (by decide) (by decide) s
  · rw [h12]
    exact scanString_simpleEscape (by decide) (by decide) s
  · rw [h10]
    exact scanString_simpleEscape (by decide) (by decide) s
  · rw [h13]
    exact scanString_simpleEscape (by decide) (by decide) s
  · rw [h9]
    exact scanString_simpleEscape (by decide) (by decide) s
  · obtain ⟨hnq, hnb⟩ := not_or.mp hq
    exact scanString_plain hnq hnb (by omega) s
  · have hhigh : isHighSurrogate c.val = false := by
      simp only [isSurrogate, decide_eq_false_iff_not] at h
      simp only [isHighSurrogate, decide_eq_false_iff_not]
      omega
    have hx := hex4_hexDigit hbmp
    rw [Fin.eta] at hx
    exact scanString_hex4 hx hhigh s
  · have hc := c.isLt
    have hhigh : 0xD800 + (c.val - 0x10000) / 0x400 < 0xDC00 := by omega
    have hlow : 0xDC00 + (c.val - 0x10000) % 0x400 < 0xE000 := by omega
    have hjoin : joinSurrogates (0xD800 + (c.val - 0x10000) / 0x400)
        (0xDC00 + (c.val - 0x10000) % 0x400) = c.val := by
      unfold joinSurrogates
      rw [Nat.add_sub_cancel_left, Nat.add_sub_cancel_left]
      omega
    refine scanString_pair (hex4_hexDigit (by omega)) (hex4_hexDigit (by omega)) ?_ ?_ ?_ s
    · simpa [isHighSurrogate] using hhigh
    · simpa [isLowSurrogate] using hlow
    · simp only [hjoin]
      exact chr_of_lt hc

/-- **Strings survive.** -/
theorem scanString_quote {s : Str} (h : ∀ c ∈ s, isSurrogate c = false) (rest : Str) :
    scanString (s.flatMap escapeChar ++ quotationMark :: rest) = some (s, rest) := by
  induction s with
  | nil => exact scanString_quotationMark rest
  | cons c s ih =>
      rw [List.flatMap_cons, List.append_assoc, scanString_escapeChar (h c (by simp)),
        ih fun d hd => h d (List.mem_cons_of_mem c hd)]
      rfl

/-! ## Integers -/

def digitsOf (n : Nat) : Str := (Nat.toDigits 10 n).map CodePoint.ofChar

theorem decimal_eq (n : Int) :
    decimal n = if n < 0 then CodePoint.ofChar '-' :: digitsOf n.natAbs else digitsOf n.natAbs := by
  unfold decimal digitsOf Str.ofString
  rw [Int.repr_eq_if]
  by_cases h : n < 0
  · have hneg : ¬0 ≤ n := by omega
    have habs : (-n).toNat = n.natAbs := by omega
    rw [if_pos h, if_neg hneg, habs]
    simp [Nat.toList_repr]
  · have hpos : 0 ≤ n := by omega
    have habs : n.toNat = n.natAbs := by omega
    rw [if_neg h, if_pos hpos, habs, Nat.toList_repr]

theorem digitsValue_digitsOf (n : Nat) : digitsValue (digitsOf n) = n := by
  unfold digitsValue digitsOf
  rw [List.foldl_map]
  have h := Nat.ofDigitChars_ten_toDigits (n := n)
  rw [Nat.ofDigitChars_eq_foldl] at h
  exact h

theorem isDigit_of_mem_digitsOf {n : Nat} {c : CodePoint} (h : c ∈ digitsOf n) :
    isDigit c = true := by
  obtain ⟨d, hd, rfl⟩ := List.mem_map.mp h
  have hdigit := Nat.isDigit_of_mem_toDigits (by decide) (by decide) hd
  simp only [Char.isDigit, Bool.and_eq_true, decide_eq_true_eq] at hdigit
  unfold isDigit
  rw [CodePoint.val_ofChar, decide_eq_true_eq]
  exact hdigit

/-- The first digit of a positive number is not zero. -/
theorem toDigits_eq_cons {n : Nat} (h : 0 < n) :
    ∃ c cs, Nat.toDigits 10 n = c :: cs ∧ c ≠ '0' := by
  induction n using Nat.strongRecOn with
  | _ n ih =>
      by_cases hlt : n < 10
      · refine ⟨Nat.digitChar n, [], Nat.toDigits_of_lt_base hlt, ?_⟩
        interval_cases n <;> decide
      · obtain ⟨c, cs, hdigits, hc⟩ := ih (n / 10) (by omega) (by omega)
        refine ⟨c, cs ++ [(n % 10).digitChar], ?_, hc⟩
        rw [Nat.toDigits_of_base_le (by decide) (by omega), hdigits]
        rfl

/-- What may follow a number. -/
def NumberEnds (rest : Str) : Prop :=
  ∀ c s, rest = c :: s → isDigit c = false ∧ c ≠ CodePoint.ofChar '.' ∧ c ≠ CodePoint.ofChar 'e' ∧
    c ≠ CodePoint.ofChar 'E'

theorem takeWhile_of_numberEnds {rest : Str} (h : NumberEnds rest) :
    rest.takeWhile isDigit = [] ∧ rest.dropWhile isDigit = rest := by
  cases rest with
  | nil => exact ⟨rfl, rfl⟩
  | cons c s => simp [(h c s rfl).1]

theorem scanInteger_digitsOf (n : Nat) {rest : Str} (h : NumberEnds rest) :
    scanInteger (digitsOf n ++ rest) = some (digitsOf n, rest) := by
  by_cases hn : n = 0
  · subst hn
    rfl
  · obtain ⟨c, cs, hdigits, hc⟩ := toDigits_eq_cons (Nat.pos_of_ne_zero hn)
    have heq : digitsOf n = CodePoint.ofChar c :: cs.map CodePoint.ofChar := by
      rw [digitsOf, hdigits, List.map_cons]
    have hall : ∀ d ∈ digitsOf n, isDigit d = true := fun d => isDigit_of_mem_digitsOf
    rw [heq] at hall ⊢
    obtain ⟨hfirst, hrest⟩ := List.forall_mem_cons.mp hall
    obtain ⟨htake, hdrop⟩ := takeWhile_of_numberEnds h
    rw [List.cons_append, scanInteger, if_neg fun h0 => hc (CodePoint.ofChar_injective h0),
      if_pos hfirst, List.takeWhile_append_of_pos hrest, List.dropWhile_append_of_pos hrest, htake,
      hdrop, List.append_nil]

theorem scanFraction_of_numberEnds {rest : Str} (h : NumberEnds rest) : scanFraction rest = none := by
  unfold scanFraction
  split
  · next c d s => exact if_neg fun hc => (h c (d :: s) rfl).2.1 hc.1
  · rfl

theorem scanExponent_of_numberEnds {rest : Str} (h : NumberEnds rest) : scanExponent rest = none := by
  unfold scanExponent
  split
  · next c s =>
    obtain ⟨-, -, he, hE⟩ := h c s rfl
    exact if_neg (not_or.mpr ⟨he, hE⟩)
  · rfl

/-- A number without a sign does not start with one. -/
theorem head?_digitsOf_append (n : Nat) (rest : Str) :
    (digitsOf n ++ rest).head? ≠ some (CodePoint.ofChar '-') := by
  cases hn : digitsOf n with
  | nil =>
      have hne : Nat.toDigits 10 n ≠ [] := Nat.toDigits_ne_nil
      exact absurd (List.map_eq_nil_iff.mp hn) hne
  | cons c cs =>
      have hdigit : isDigit c = true := isDigit_of_mem_digitsOf (n := n) (by rw [hn]; simp)
      intro hhead
      rw [Option.some.inj hhead] at hdigit
      exact absurd hdigit (by decide)

theorem scanUnsigned_digitsOf (negative : Bool) {n : Nat}
    (hdigits : (digitsOf n).length ≤ maxStrDigits) {rest : Str} (h : NumberEnds rest) :
    scanUnsigned negative (digitsOf n ++ rest) =
      .ok (.int (signed negative n), rest) := by
  simp only [scanUnsigned, scanInteger_digitsOf n h, scanFraction_of_numberEnds h, Option.elim_none,
    scanExponent_of_numberEnds h, if_neg (Nat.not_lt.mpr hdigits), digitsValue_digitsOf]

/-- **Integers survive**, as far as `str` converts them. -/
theorem scanNumber_decimal {n : Int} (hdigits : (digitsOf n.natAbs).length ≤ maxStrDigits)
    {rest : Str} (h : NumberEnds rest) :
    scanNumber (decimal n ++ rest) = .ok (.int n, rest) := by
  rw [decimal_eq, scanNumber]
  by_cases hn : n < 0
  · have habs : -(n.natAbs : Int) = n := by omega
    rw [if_pos hn, List.cons_append, List.head?_cons, if_pos rfl, List.tail_cons,
      scanUnsigned_digitsOf true hdigits h, signed, if_pos rfl, habs]
  · have habs : (n.natAbs : Int) = n := by omega
    rw [if_neg hn, if_neg (head?_digitsOf_append _ rest), scanUnsigned_digitsOf false hdigits h,
      signed, if_neg Bool.false_ne_true, habs]

/-! ## Objects of strings and integers -/

/-- A value that `dumps` writes here. -/
inductive Scalar where
  | int (n : Int)
  | str (s : Str)
  deriving DecidableEq, Repr

namespace Scalar

/-- The same value, as `loads` returns it. -/
def toJson : Scalar → Json
  | int n => .int n
  | str s => .str s

/-- The text of a value; `none` is the `ValueError` of a too long integer. -/
def dump : Scalar → Option Str
  | int n => if maxStrDigits < (digitsOf n.natAbs).length then none else some (decimal n)
  | str s => some (quote s)

/-- A string without surrogates, or any integer. -/
def Plain : Scalar → Prop
  | int _ => True
  | str s => ∀ c ∈ s, isSurrogate c = false

end Scalar

/-- The members of an object, separated by a comma and a space. -/
def dumpMembers : List (Str × Scalar) → Option Str
  | [] => some []
  | (key, value) :: members => do
      let text ← value.dump
      let more ← dumpMembers members
      return quote key ++ CodePoint.ofChar ':' :: CodePoint.ofChar ' ' :: text ++
        if members = [] then [] else CodePoint.ofChar ',' :: CodePoint.ofChar ' ' :: more

/-- `sorted(d.items())`, for distinct keys. -/
def sortKeys (entries : List (Str × Scalar)) : List (Str × Scalar) :=
  entries.insertionSort fun a b => a.1 ≤ b.1

theorem perm_sortKeys (entries : List (Str × Scalar)) : (sortKeys entries).Perm entries :=
  List.perm_insertionSort _ _

/-- `json.dumps(d, sort_keys=True)`. -/
def dumps (entries : List (Str × Scalar)) : Option Str := do
  let members ← dumpMembers (sortKeys entries)
  return CodePoint.ofChar '{' :: members ++ [CodePoint.ofChar '}']

/-- Nothing is refused but a value. -/
theorem exists_dumpMembers {entries : List (Str × Scalar)}
    (h : ∀ entry ∈ entries, ∃ text, entry.2.dump = some text) :
    ∃ text, dumpMembers entries = some text := by
  induction entries with
  | nil => exact ⟨[], rfl⟩
  | cons entry entries ih =>
      obtain ⟨⟨text, htext⟩, hentries⟩ := List.forall_mem_cons.mp h
      obtain ⟨more, hmore⟩ := ih hentries
      simp only [dumpMembers, htext, hmore, Option.bind_eq_bind, Option.bind_some]
      exact ⟨_, rfl⟩

theorem exists_dumps {entries : List (Str × Scalar)}
    (h : ∀ entry ∈ entries, ∃ text, entry.2.dump = some text) : ∃ text, dumps entries = some text := by
  have hperm := perm_sortKeys entries
  obtain ⟨members, hmembers⟩ := exists_dumpMembers fun entry hmem => h entry (hperm.mem_iff.mp hmem)
  simp only [dumps, hmembers, Option.bind_eq_bind, Option.bind_some]
  exact ⟨_, rfl⟩

/-! ## The object survives -/

/-- A text that has a digit among its first two characters is no word. -/
theorem scanWord_of_isDigit {a : CodePoint} {s : Str}
    (h : isDigit a = true ∨ ∃ b t, s = b :: t ∧ isDigit b = true) : scanWord (a :: s) = none := by
  have hwords : ∀ word ∈ words, ∃ x y t, Str.ofString word.1 = x :: y :: t ∧ isDigit x = false ∧
      isDigit y = false := by
    intro word hmem
    have hall : (words.all fun word => (Str.ofString word.1).length.ble 1 = false &&
        ((Str.ofString word.1).take 2).all (!isDigit ·)) = true := by decide
    have hword := List.all_eq_true.mp hall word hmem
    rw [Bool.and_eq_true] at hword
    cases hw : Str.ofString word.1 with
    | nil => simp [hw] at hword
    | cons x t => cases t with
      | nil => simp [hw] at hword
      | cons y t => exact ⟨x, y, t, rfl, by simpa [hw] using hword.2⟩
  unfold scanWord
  rw [List.findSome?_eq_none_iff]
  intro word hmem
  obtain ⟨x, y, t, hw, hx, hy⟩ := hwords word hmem
  rw [hw]
  refine if_neg fun hprefix => ?_
  obtain ⟨rest, heq⟩ := List.isPrefixOf_iff_prefix.mp hprefix
  rw [List.cons_append, List.cons_append, List.cons.injEq] at heq
  obtain ⟨rfl, rfl⟩ := heq
  obtain ha | ⟨b, t', hb, hdigit⟩ := h
  · rw [hx] at ha
    cases ha
  · rw [← (List.cons.inj hb).1, hy] at hdigit
    cases hdigit

/-- `scan_once` on a value that no bracket opens does not recurse. -/
theorem scanOnce_eq (limit : Nat) : ∃ array object, scanOnce limit = scanValue array object := by
  cases limit with
  | zero => exact ⟨_, _, rfl⟩
  | succ limit => exact ⟨_, _, rfl⟩

theorem quote_append (s rest : Str) :
    quote s ++ rest = quotationMark :: (s.flatMap escapeChar ++ quotationMark :: rest) := by
  simp [quote]

theorem scanOnce_quote (limit : Nat) {s : Str} (h : ∀ c ∈ s, isSurrogate c = false) (rest : Str) :
    scanOnce limit (quote s ++ rest) = .ok (.str s, rest) := by
  obtain ⟨array, object, heq⟩ := scanOnce_eq limit
  rw [heq, quote_append, scanValue, if_pos rfl, scanString_quote h]

/-- The start of a decimal. -/
theorem decimal_eq_cons (n : Int) (rest : Str) :
    ∃ a s, decimal n ++ rest = a :: s ∧ (isDigit a = true ∨ a = CodePoint.ofChar '-') ∧
      (isDigit a = true ∨ ∃ b t, s = b :: t ∧ isDigit b = true) := by
  have hdigits : ∃ c cs, digitsOf n.natAbs = c :: cs ∧ isDigit c = true := by
    cases hd : digitsOf n.natAbs with
    | nil =>
        have hne : Nat.toDigits 10 n.natAbs ≠ [] := Nat.toDigits_ne_nil
        exact absurd (List.map_eq_nil_iff.mp hd) hne
    | cons c cs => exact ⟨c, cs, rfl, isDigit_of_mem_digitsOf (n := n.natAbs) (by rw [hd]; simp)⟩
  obtain ⟨c, cs, hc, hdigit⟩ := hdigits
  rw [decimal_eq, hc]
  by_cases hn : n < 0
  · rw [if_pos hn]
    exact ⟨_, _, rfl, Or.inr rfl, Or.inr ⟨c, cs ++ rest, rfl, hdigit⟩⟩
  · rw [if_neg hn]
    exact ⟨c, cs ++ rest, rfl, Or.inl hdigit, Or.inl hdigit⟩

theorem scanOnce_decimal (limit : Nat) {n : Int}
    (hdigits : (digitsOf n.natAbs).length ≤ maxStrDigits) {rest : Str} (h : NumberEnds rest) :
    scanOnce limit (decimal n ++ rest) = .ok (.int n, rest) := by
  obtain ⟨array, object, heq⟩ := scanOnce_eq limit
  obtain ⟨a, s, htext, hhead, hdigit⟩ := decimal_eq_cons n rest
  have hscan := scanNumber_decimal hdigits h
  rw [htext] at hscan ⊢
  have hne : a ≠ quotationMark ∧ a ≠ CodePoint.ofChar '{' ∧ a ≠ CodePoint.ofChar '[' := by
    obtain ha | rfl := hhead
    · refine ⟨?_, ?_, ?_⟩ <;> (rintro rfl; exact absurd ha (by decide))
    · decide
  rw [heq, scanValue, if_neg hne.1, if_neg hne.2.1, if_neg hne.2.2, scanWord_of_isDigit hdigit]
  exact hscan

/-- A scalar survives. -/
theorem scanOnce_dump (limit : Nat) {value : Scalar} {text : Str} (hdump : value.dump = some text)
    (hplain : value.Plain) {rest : Str} (h : NumberEnds rest) :
    scanOnce limit (text ++ rest) = .ok (value.toJson, rest) := by
  cases value with
  | int n =>
      simp only [Scalar.dump] at hdump
      split at hdump
      · cases hdump
      · next hdigits =>
        obtain rfl := Option.some.inj hdump
        exact scanOnce_decimal limit (Nat.not_lt.mp hdigits) h
  | str s =>
      obtain rfl := Option.some.inj hdump
      exact scanOnce_quote limit hplain rest

/-- A quoted string or a number does not start with white space. -/
theorem skipSpace_dump {value : Scalar} {text : Str} (hdump : value.dump = some text) (rest : Str) :
    skipSpace (text ++ rest) = text ++ rest := by
  have hskip : ∀ (c : CodePoint) (s : Str), isWhitespace c = false → skipSpace (c :: s) = c :: s := by
    intro c s hc
    simp [skipSpace, hc]
  cases value with
  | int n =>
      simp only [Scalar.dump] at hdump
      split at hdump
      · cases hdump
      · obtain rfl := Option.some.inj hdump
        obtain ⟨a, s, htext, hhead, -⟩ := decimal_eq_cons n rest
        rw [htext]
        refine hskip a s ?_
        obtain ha | rfl := hhead
        · simp only [isDigit, decide_eq_true_eq] at ha
          simp only [isWhitespace, decide_eq_false_iff_not]
          omega
        · decide
  | str s =>
      obtain rfl := Option.some.inj hdump
      rw [quote_append]
      exact hskip _ _ (by decide)

theorem numberEnds_comma (s : Str) : NumberEnds (CodePoint.ofChar ',' :: s) := by
  intro c t h
  obtain ⟨rfl, -⟩ := List.cons.inj h
  decide

theorem numberEnds_brace (s : Str) : NumberEnds (CodePoint.ofChar '}' :: s) := by
  intro c t h
  obtain ⟨rfl, -⟩ := List.cons.inj h
  decide

/-- The value of a member, behind the colon and a space. -/
theorem scanMember_colon (scan : Str → Except LoadsError (Json × Str)) {s : Str}
    (h : skipSpace s = s) :
    scanMember scan (CodePoint.ofChar ':' :: CodePoint.ofChar ' ' :: s) = scan s := by
  have hcolon : skipSpace (CodePoint.ofChar ':' :: CodePoint.ofChar ' ' :: s) =
      CodePoint.ofChar ':' :: CodePoint.ofChar ' ' :: s := by
    simp [skipSpace, show isWhitespace (CodePoint.ofChar ':') = false by decide]
  have hspace : skipSpace (CodePoint.ofChar ' ' :: s) = s := by
    rw [skipSpace] at h ⊢
    rw [List.dropWhile_cons_of_pos (by decide), h]
  rw [scanMember, hcolon]
  simp only [if_true, hspace]

/-- A member that is scanned, when the text goes on with `tail`. -/
theorem scanMembers_cons {scan : Str → Except LoadsError (Json × Str)} {key : Str}
    (hkey : ∀ c ∈ key, isSurrogate c = false) {text tail : Str} {value : Json}
    (hskip : skipSpace (text ++ tail) = text ++ tail) (hscan : scan (text ++ tail) = .ok (value, tail))
    (fuel : Nat) :
    scanMembers scan (fuel + 1)
        (quote key ++ CodePoint.ofChar ':' :: CodePoint.ofChar ' ' :: text ++ tail) =
      match skipSpace tail with
      | [] => .error .value
      | c :: s =>
          if c = CodePoint.ofChar '}' then .ok ([(key, value)], s)
          else if c = CodePoint.ofChar ',' then do
            let (members, s) ← scanMembers scan fuel (skipSpace s)
            return ((key, value) :: members, s)
          else .error .value := by
  rw [List.append_assoc, quote_append, scanMembers]
  simp only [if_true, List.cons_append, scanString_quote hkey, scanMember_colon scan hskip, hscan]
  rfl

/-- The strings of an object, its keys among them, have no surrogates. -/
def PlainEntries (entries : List (Str × Scalar)) : Prop :=
  ∀ entry ∈ entries, (∀ c ∈ entry.1, isSurrogate c = false) ∧ entry.2.Plain

/-- The members start with a quotation mark. -/
theorem dumpMembers_eq_cons {entries : List (Str × Scalar)} (hne : entries ≠ []) {text : Str}
    (hdump : dumpMembers entries = some text) : ∃ s, text = quotationMark :: s := by
  cases entries with
  | nil => exact absurd rfl hne
  | cons entry entries =>
      obtain ⟨key, value⟩ := entry
      simp only [dumpMembers, Option.bind_eq_bind, Option.bind_eq_some_iff, Option.pure_def,
        Option.some.injEq] at hdump
      obtain ⟨valueText, -, more, -, rfl⟩ := hdump
      exact ⟨_, rfl⟩

/-- A member takes at least one character. -/
theorem length_le_of_dumpMembers {entries : List (Str × Scalar)} {text : Str}
    (hdump : dumpMembers entries = some text) : entries.length ≤ text.length := by
  induction entries generalizing text with
  | nil => simp
  | cons entry entries ih =>
      obtain ⟨key, value⟩ := entry
      simp only [dumpMembers, Option.bind_eq_bind, Option.bind_eq_some_iff, Option.pure_def,
        Option.some.injEq] at hdump
      obtain ⟨valueText, -, more, hmore, rfl⟩ := hdump
      have hlen := ih hmore
      cases entries with
      | nil => simp [quote]
      | cons entry entries =>
          simp only [List.length_cons] at hlen
          simp [quote]
          omega

/-- **Members survive**, in their order. -/
theorem scanMembers_dump (limit : Nat) {entries : List (Str × Scalar)} (hne : entries ≠ [])
    (hplain : PlainEntries entries) {text : Str} (hdump : dumpMembers entries = some text)
    {fuel : Nat} (hfuel : entries.length ≤ fuel) (rest : Str) :
    scanMembers (scanOnce limit) fuel (text ++ CodePoint.ofChar '}' :: rest) =
      .ok (entries.map fun entry => (entry.1, entry.2.toJson), rest) := by
  induction entries generalizing text fuel with
  | nil => exact absurd rfl hne
  | cons entry entries ih =>
      obtain ⟨key, value⟩ := entry
      obtain ⟨hfirst, hrest⟩ := List.forall_mem_cons.mp hplain
      simp only [dumpMembers, Option.bind_eq_bind, Option.bind_eq_some_iff, Option.pure_def,
        Option.some.injEq] at hdump
      obtain ⟨valueText, hvalue, more, hmore, rfl⟩ := hdump
      obtain ⟨fuel, rfl⟩ : ∃ n, fuel = n + 1 := ⟨fuel - 1, by simp at hfuel; omega⟩
      cases entries with
      | nil =>
          have hbrace : skipSpace (CodePoint.ofChar '}' :: rest) = CodePoint.ofChar '}' :: rest :=
            List.dropWhile_cons_of_neg (by decide)
          rw [if_pos rfl, List.append_nil,
            scanMembers_cons hfirst.1 (skipSpace_dump hvalue _)
              (scanOnce_dump limit hvalue hfirst.2 (numberEnds_brace rest)) fuel, hbrace]
          simp
      | cons entry entries =>
          have hcomma : ∀ s, skipSpace (CodePoint.ofChar ',' :: s) = CodePoint.ofChar ',' :: s :=
            fun s => List.dropWhile_cons_of_neg (by decide)
          have hspace : skipSpace (CodePoint.ofChar ' ' :: (more ++ CodePoint.ofChar '}' :: rest)) =
              more ++ CodePoint.ofChar '}' :: rest := by
            obtain ⟨s, rfl⟩ := dumpMembers_eq_cons (by simp) hmore
            rw [skipSpace, List.dropWhile_cons_of_pos (by decide), List.cons_append]
            exact List.dropWhile_cons_of_neg (by decide)
          have hscan := ih (by simp) hrest hmore (by simpa using hfuel)
          rw [if_neg (by simp), List.append_assoc, List.cons_append, List.cons_append,
            scanMembers_cons hfirst.1 (skipSpace_dump hvalue _)
              (scanOnce_dump limit hvalue hfirst.2 (numberEnds_comma _)) fuel, hcomma]
          simp only [hspace, hscan]
          rw [if_neg (by decide), if_pos trivial]
          rfl

/-- Distinct keys make a dictionary of all the members. -/
theorem foldl_setItem {entries : List (Str × Json)} (hkeys : (entries.map Prod.fst).Nodup) :
    entries.foldl (fun entries m => setItem entries m.1 m.2) [] = entries := by
  induction entries using List.reverseRecOn with
  | nil => rfl
  | append_singleton entries m ih =>
      rw [List.map_append, List.nodup_append] at hkeys
      obtain ⟨hbefore, -, hnew⟩ := hkeys
      have hfresh : ¬entries.any (fun entry => entry.1 = m.1) = true := by
        simp only [List.any_eq_true, decide_eq_true_eq, not_exists, not_and]
        intro entry hmem heq
        exact hnew entry.1 (List.mem_map_of_mem hmem) m.1 (by simp) heq
      rw [List.foldl_append, ih hbefore]
      exact if_neg hfresh

/-- **Objects survive**, with their keys sorted. -/
theorem scanOnce_dumps {limit : Nat} (hlimit : 1 ≤ limit) {entries : List (Str × Scalar)}
    (hkeys : (entries.map Prod.fst).Nodup) (hplain : PlainEntries entries) {text : Str}
    (hdump : dumps entries = some text) :
    scanOnce limit text =
      .ok (.dict ((sortKeys entries).map fun entry => (entry.1, entry.2.toJson)), []) := by
  obtain ⟨limit, rfl⟩ : ∃ n, limit = n + 1 := ⟨limit - 1, by omega⟩
  simp only [dumps, Option.bind_eq_bind, Option.bind_eq_some_iff, Option.pure_def,
    Option.some.injEq] at hdump
  obtain ⟨members, hmembers, rfl⟩ := hdump
  have hperm := perm_sortKeys entries
  have hplain' : PlainEntries (sortKeys entries) := fun entry hmem =>
    hplain entry (hperm.mem_iff.mp hmem)
  have hkeys' : (((sortKeys entries).map fun entry => (entry.1, entry.2.toJson)).map
      Prod.fst).Nodup := by
    rw [List.map_map]
    exact ((hperm.map Prod.fst).nodup_iff).mpr hkeys
  rw [scanOnce, List.cons_append, scanValue, if_neg (by decide), if_pos rfl, scanObject]
  generalize hsorted : sortKeys entries = sorted at *
  cases sorted with
  | nil =>
      obtain rfl := Option.some.inj hmembers
      rfl
  | cons entry sorted =>
      obtain ⟨s, rfl⟩ := dumpMembers_eq_cons (by simp) hmembers
      have hskip : skipSpace (quotationMark :: s ++ [CodePoint.ofChar '}']) =
          quotationMark :: (s ++ [CodePoint.ofChar '}']) :=
        List.dropWhile_cons_of_neg (by decide)
      have hfuel : (entry :: sorted).length ≤ (s ++ [CodePoint.ofChar '}']).length + 2 := by
        have hlen := length_le_of_dumpMembers hmembers
        simp only [List.length_cons, List.length_append] at hlen ⊢
        omega
      have hscan := scanMembers_dump limit (by simp) hplain' hmembers hfuel []
      rw [List.cons_append] at hscan
      rw [hskip]
      simp only [hscan]
      rw [if_neg (by decide)]
      show Except.ok (Json.dict (List.foldl _ [] _), ([] : Str)) = _
      rw [foldl_setItem hkeys']

/-! ## ASCII text -/

/-- A character that ASCII encodes, other than NUL. -/
def isAscii (c : CodePoint) : Bool := 0 < c.val ∧ c.val < 128

def asciiByte (c : CodePoint) : UInt8 := UInt8.ofNat c.val

theorem toNat_asciiByte {c : CodePoint} (h : isAscii c = true) : (asciiByte c).toNat = c.val := by
  simp only [isAscii, decide_eq_true_eq] at h
  simp only [asciiByte, UInt8.toNat_ofNat']
  omega

theorem encode_ascii {s : Str} (h : ∀ c ∈ s, isAscii c = true) :
    s.encode = some (s.map asciiByte) := by
  induction s with
  | nil => rfl
  | cons c s ih =>
      obtain ⟨hc, hs⟩ := List.forall_mem_cons.mp h
      simp only [isAscii, decide_eq_true_eq] at hc
      have hvalid : c.val.isValidChar := Or.inl (by omega)
      have hchar : c.toChar? = some (Char.ofNat c.val) := by
        unfold CodePoint.toChar?
        rw [if_pos hvalid]
      have hval : (Char.ofNat c.val).val.toNat = c.val := by
        have htoNat := Char.toNat_ofNat c.val
        rwa [if_pos hvalid] at htoNat
      have hbyte : String.utf8EncodeChar (Char.ofNat c.val) = [asciiByte c] := by
        unfold String.utf8EncodeChar
        simp only [hval]
        exact if_pos (Nat.le_of_lt_succ hc.2)
      simp [Str.encode, hchar, ih hs, hbyte]

theorem decodeUtf8_ascii {s : Str} (h : ∀ c ∈ s, isAscii c = true) :
    decodeUtf8 (s.map asciiByte) = some s := by
  induction s with
  | nil => rfl
  | cons c s ih =>
      obtain ⟨hc, hs⟩ := List.forall_mem_cons.mp h
      have hbyte := toNat_asciiByte hc
      simp only [isAscii, decide_eq_true_eq] at hc
      rw [List.map_cons, decodeUtf8_cons (by omega), hbyte, ih hs, chr_of_lt c.isLt]
      rfl

/-- ASCII bytes are taken for UTF-8 and decode to the text. -/
theorem decodeText_ascii {s : Str} (h : ∀ c ∈ s, isAscii c = true) :
    decodeText (s.map asciiByte) = some s := by
  have hnot : ∀ x : UInt8, x.toNat = 0 ∨ 128 ≤ x.toNat → x ∉ s.map asciiByte := by
    intro x hx hmem
    obtain ⟨c, hc, rfl⟩ := List.mem_map.mp hmem
    have hascii := h c hc
    rw [toNat_asciiByte hascii] at hx
    simp only [isAscii, decide_eq_true_eq] at hascii
    omega
  have hutf8 := detectEncoding_eq_utf8 (hnot 0 (by decide)) (hnot 0xFE (by decide))
    (hnot 0xFF (by decide)) (hnot 0xEF (by decide))
  unfold decodeText
  rw [hutf8]
  exact decodeUtf8_ascii h

def isPrintable (c : CodePoint) : Bool := 32 ≤ c.val ∧ c.val < 127

theorem isAscii_of_isPrintable {c : CodePoint} (h : isPrintable c = true) : isAscii c = true := by
  simp only [isPrintable, decide_eq_true_eq] at h
  simp only [isAscii, decide_eq_true_eq]
  omega

theorem isPrintable_hexDigit : ∀ n < 16, isPrintable (hexDigit n) = true := by
  decide

theorem isPrintable_unicodeEscape (n : Nat) : ∀ c ∈ unicodeEscape n, isPrintable c = true := by
  have hdigit : ∀ m, isPrintable (hexDigit (m % 16)) = true :=
    fun m => isPrintable_hexDigit _ (Nat.mod_lt _ (by decide))
  have hb : isPrintable backslash = true := by decide
  have hu : isPrintable (CodePoint.ofChar 'u') = true := by decide
  simp [unicodeEscape, hdigit, hb, hu]

/-- Escapes are printable. -/
theorem isPrintable_escapeChar (c : CodePoint) : ∀ d ∈ escapeChar c, isPrintable d = true := by
  have hpair : ∀ e, isPrintable e = true → ∀ d ∈ [backslash, e], isPrintable d = true := by
    intro e he
    rw [List.forall_mem_cons, List.forall_mem_singleton]
    exact ⟨by decide, he⟩
  unfold escapeChar
  split_ifs with hq h8 h12 h10 h13 h9 hprint hbmp
  · refine hpair c ?_
    obtain rfl | rfl := hq
    · decide
    · decide
  · exact hpair _ (by decide)
  · exact hpair _ (by decide)
  · exact hpair _ (by decide)
  · exact hpair _ (by decide)
  · exact hpair _ (by decide)
  · simpa [isPrintable] using hprint
  · exact isPrintable_unicodeEscape _
  · rw [List.forall_mem_append]
    exact ⟨isPrintable_unicodeEscape _, isPrintable_unicodeEscape _⟩

theorem isPrintable_quote (s : Str) : ∀ c ∈ quote s, isPrintable c = true := by
  have hq : isPrintable quotationMark = true := by decide
  simp only [quote, List.forall_mem_append, List.forall_mem_cons, List.forall_mem_flatMap]
  exact ⟨⟨hq, fun c _ => isPrintable_escapeChar c⟩, hq, by simp⟩

theorem isAscii_quote (s : Str) : ∀ c ∈ quote s, isAscii c = true := fun c hc =>
  isAscii_of_isPrintable (isPrintable_quote s c hc)

theorem isAscii_dump {value : Scalar} {text : Str} (h : value.dump = some text) :
    ∀ c ∈ text, isAscii c = true := by
  have hdigits : ∀ n, ∀ c ∈ digitsOf n, isAscii c = true := by
    intro n c hc
    have hdigit := isDigit_of_mem_digitsOf hc
    simp only [isDigit, decide_eq_true_eq] at hdigit
    simp only [isAscii, decide_eq_true_eq]
    omega
  cases value with
  | int n =>
      simp only [Scalar.dump] at h
      split at h
      · cases h
      · rw [← Option.some.inj h, decimal_eq]
        split
        · exact List.forall_mem_cons.mpr ⟨by decide, hdigits _⟩
        · exact hdigits _
  | str s =>
      rw [← Option.some.inj h]
      exact isAscii_quote s

theorem isAscii_dumpMembers {entries : List (Str × Scalar)} {text : Str}
    (h : dumpMembers entries = some text) : ∀ c ∈ text, isAscii c = true := by
  induction entries generalizing text with
  | nil =>
      rw [← Option.some.inj h]
      simp
  | cons entry entries ih =>
      obtain ⟨key, value⟩ := entry
      simp only [dumpMembers, Option.bind_eq_bind, Option.bind_eq_some_iff, Option.pure_def,
        Option.some.injEq] at h
      obtain ⟨valueText, hvalue, more, hmore, rfl⟩ := h
      have hspace : isAscii (CodePoint.ofChar ' ') = true := by decide
      have hcolon : isAscii (CodePoint.ofChar ':') = true := by decide
      have hcomma : isAscii (CodePoint.ofChar ',') = true := by decide
      simp only [List.forall_mem_append, List.forall_mem_cons]
      refine ⟨⟨isAscii_quote key, hcolon, hspace, isAscii_dump hvalue⟩, ?_⟩
      split
      · simp
      · exact List.forall_mem_cons.mpr ⟨hcomma, List.forall_mem_cons.mpr ⟨hspace, ih hmore⟩⟩

/-- **The round trip.**  What `dumps` writes, encoded, is read back by `loads`
as the dictionary with its keys sorted. -/
theorem loads_dumps {limit : Nat} (hlimit : 1 ≤ limit) {entries : List (Str × Scalar)}
    (hkeys : (entries.map Prod.fst).Nodup) (hplain : PlainEntries entries) {text : Str}
    (hdump : dumps entries = some text) :
    ∃ data, text.encode = some data ∧ loads limit data =
      .ok (.dict ((sortKeys entries).map fun entry => (entry.1, entry.2.toJson))) := by
  have hscan := scanOnce_dumps hlimit hkeys hplain hdump
  simp only [dumps, Option.bind_eq_bind, Option.bind_eq_some_iff, Option.pure_def,
    Option.some.injEq] at hdump
  obtain ⟨members, hmembers, rfl⟩ := hdump
  have hascii : ∀ c ∈ CodePoint.ofChar '{' :: members ++ [CodePoint.ofChar '}'],
      isAscii c = true := by
    simp only [List.cons_append, List.forall_mem_cons, List.forall_mem_append]
    exact ⟨by decide, isAscii_dumpMembers hmembers, by decide, by simp⟩
  refine ⟨_, encode_ascii hascii, ?_⟩
  have hskip : skipSpace (CodePoint.ofChar '{' :: members ++ [CodePoint.ofChar '}']) =
      CodePoint.ofChar '{' :: members ++ [CodePoint.ofChar '}'] :=
    List.dropWhile_cons_of_neg (by decide)
  rw [loads, decodeText_ascii hascii]
  simp only [hskip, hscan]
  rfl

end Json

end Python
