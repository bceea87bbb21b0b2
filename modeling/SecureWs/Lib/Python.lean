import Mathlib

/-!
# SecureWs.Lib.Python

The built-in values of Python the program works on, and the conversions
between them.

* `Bytes` is `bytes`; `Str` is `str`, a list of *code points*: unlike Lean's
  `Char`, a code point may be a surrogate, and such a string has no UTF-8
  encoding (`Str.encode` is then `none`, Python's `UnicodeEncodeError`);
* `Str.encode`, `hex` and `decimal` are injective, and the last two never
  produce a newline, so a newline-separated record whose last fields are
  numbers and hex strings can be read back (`eq_of_append_newline`);
* `sorted` forgets the order of what it sorts (`sorted_eq_of_perm`);
* `Text` is formatted text kept as data: an f-string or a logger call with
  its arguments not yet rendered.
-/

namespace Python

/-! ## bytes and str -/

/-- Python `bytes`. -/
abbrev Bytes := List UInt8

/-- An argument as `isinstance(arg, (bytes, bytearray, memoryview))` sees it. -/
inductive Arg where
  | bytesLike (contents : Bytes)
  | other
  deriving DecidableEq, Repr

/-- `bytes(arg)`, where `arg` is bytes-like. -/
def Arg.contents : Arg → Bytes
  | .bytesLike contents => contents
  | .other => []

/-- A Unicode code point, surrogates included. -/
abbrev CodePoint := Fin 0x110000

/-- Python `str`. -/
abbrev Str := List CodePoint

/-- The code point of a character. -/
def CodePoint.ofChar (c : Char) : CodePoint :=
  ⟨c.toNat, by
    have h := c.valid
    simp only [UInt32.isValidChar, Nat.isValidChar] at h
    have hc : c.toNat = c.val.toNat := rfl
    omega⟩

/-- The character of a code point; a surrogate has none. -/
def CodePoint.toChar? (c : CodePoint) : Option Char :=
  if c.val.isValidChar then some (Char.ofNat c.val) else none

theorem CodePoint.val_ofChar (c : Char) : (CodePoint.ofChar c).val = c.toNat := rfl

theorem CodePoint.ofChar_injective : Function.Injective CodePoint.ofChar := by
  intro a b h
  have hn : (CodePoint.ofChar a).val = (CodePoint.ofChar b).val := congrArg Fin.val h
  exact Char.toNat_inj.mp hn

/-- A code point has a character exactly when it is that character's. -/
theorem CodePoint.toChar?_eq_some_iff {c : CodePoint} {ch : Char} :
    c.toChar? = some ch ↔ c = CodePoint.ofChar ch := by
  unfold CodePoint.toChar?
  constructor
  · intro h
    split at h
    · next hv =>
      rw [Option.some.injEq] at h
      subst h
      exact Fin.ext (by rw [CodePoint.val_ofChar, Char.toNat_ofNat, if_pos hv])
    · contradiction
  · rintro rfl
    have hv : ch.toNat.isValidChar := ch.valid
    rw [CodePoint.val_ofChar, if_pos hv, Char.ofNat_toNat]

/-- A Lean string as a Python one. -/
def Str.ofString (s : String) : Str := s.toList.map CodePoint.ofChar

theorem Str.ofString_injective : Function.Injective Str.ofString := by
  intro a b h
  exact String.toList_injective (List.map_injective_iff.mpr CodePoint.ofChar_injective h)

/-! ## UTF-8 -/

/-- `s.encode()`: the UTF-8 encoding, `none` when a surrogate has none. -/
def Str.encode : Str → Option Bytes
  | [] => some []
  | c :: cs => do
      let ch ← c.toChar?
      let bs ← Str.encode cs
      return String.utf8EncodeChar ch ++ bs

/-- The strings with an encoding are the sequences of characters. -/
theorem Str.encode_eq_some_iff {s : Str} {bs : Bytes} :
    s.encode = some bs ↔
      ∃ cs : List Char, s = cs.map CodePoint.ofChar ∧ bs = cs.flatMap String.utf8EncodeChar := by
  induction s generalizing bs with
  | nil =>
      constructor
      · intro h
        exact ⟨[], rfl, by simpa [Str.encode, eq_comm] using h⟩
      · intro hexists
        obtain ⟨cs, hs, rfl⟩ := hexists
        rw [List.map_eq_nil_iff.mp hs.symm]
        rfl
  | cons c s ih =>
      simp only [Str.encode, Option.bind_eq_bind, Option.bind_eq_some_iff, Option.pure_def,
        Option.some.injEq, CodePoint.toChar?_eq_some_iff, ih]
      constructor
      · intro hexists
        obtain ⟨ch, rfl, _, ⟨cs, rfl, rfl⟩, rfl⟩ := hexists
        exact ⟨ch :: cs, rfl, rfl⟩
      · intro hexists
        obtain ⟨_ | ⟨ch, cs⟩, hs, rfl⟩ := hexists
        · contradiction
        · obtain ⟨rfl, rfl⟩ := List.cons.inj hs
          exact ⟨ch, rfl, _, ⟨cs, rfl, rfl⟩, rfl⟩

private theorem flatMap_utf8EncodeChar_injective :
    Function.Injective fun cs : List Char => cs.flatMap String.utf8EncodeChar := by
  intro a b h
  have hb : (String.ofList a).toByteArray = (String.ofList b).toByteArray := by
    simpa [List.utf8Encode] using congrArg List.toByteArray h
  exact String.ofList_injective (String.toByteArray_inj.mp hb)

/-- No two strings share a UTF-8 encoding. -/
theorem Str.encode_inj {a b : Str} {bs : Bytes} (ha : a.encode = some bs)
    (hb : b.encode = some bs) : a = b := by
  obtain ⟨cs, rfl, hcs⟩ := Str.encode_eq_some_iff.mp ha
  obtain ⟨ds, rfl, hds⟩ := Str.encode_eq_some_iff.mp hb
  rw [flatMap_utf8EncodeChar_injective (hcs.symm.trans hds)]

/-! ## str(int) and bytes.hex() -/

def newline : CodePoint := CodePoint.ofChar '\n'

/-- `str(n)` of an integer. -/
def decimal (n : Int) : Str := Str.ofString n.repr

/-- One lower-case hexadecimal digit. -/
def hexDigit (n : Nat) : CodePoint := CodePoint.ofChar (Nat.digitChar n)

/-- `bs.hex()`: two lower-case digits for each byte. -/
def hex (bs : Bytes) : Str := bs.flatMap fun b => [hexDigit (b.toNat / 16), hexDigit (b.toNat % 16)]

theorem decimal_injective : Function.Injective decimal := fun _ _ h =>
  Int.repr_injective (Str.ofString_injective h)

private theorem digitChar_inj : ∀ a < 16, ∀ b < 16, Nat.digitChar a = Nat.digitChar b → a = b := by
  decide

private theorem digitChar_ne_newline : ∀ a < 16, Nat.digitChar a ≠ '\n' := by
  decide

theorem hexDigit_inj {a b : Nat} (ha : a < 16) (hb : b < 16) (h : hexDigit a = hexDigit b) :
    a = b :=
  digitChar_inj a ha b hb (CodePoint.ofChar_injective h)

theorem hexDigit_ne_newline {a : Nat} (ha : a < 16) : hexDigit a ≠ newline := fun h =>
  digitChar_ne_newline a ha (CodePoint.ofChar_injective h)

private theorem nibble_lt (b : UInt8) : b.toNat / 16 < 16 := by
  have h := b.toNat_lt
  omega

theorem hex_injective : Function.Injective hex := by
  intro a b h
  induction a generalizing b with
  | nil => cases b with
    | nil => rfl
    | cons y ys => simp [hex] at h
  | cons x xs ih => cases b with
    | nil => simp [hex] at h
    | cons y ys =>
        simp only [hex, List.flatMap_cons, List.cons_append, List.nil_append, List.cons.injEq] at h
        obtain ⟨hhi, hlo, htl⟩ := h
        have h₁ := hexDigit_inj (nibble_lt x) (nibble_lt y) hhi
        have h₂ := hexDigit_inj (Nat.mod_lt _ (by decide)) (Nat.mod_lt _ (by decide)) hlo
        have hxy : x = y := UInt8.toNat_inj.mp (by omega)
        rw [hxy, ih htl]

theorem newline_notMem_hex (bs : Bytes) : newline ∉ hex bs := by
  simp only [hex, List.mem_flatMap, List.mem_cons, List.not_mem_nil, or_false, not_exists, not_and]
  intro b _ hmem
  obtain h | h := hmem
  · exact hexDigit_ne_newline (nibble_lt b) h.symm
  · exact hexDigit_ne_newline (Nat.mod_lt _ (by decide)) h.symm

theorem newline_notMem_decimal (n : Int) : newline ∉ decimal n := by
  have hnat : ∀ k : Nat, '\n' ∉ Nat.toDigits 10 k := fun k hk => by
    have hdig := Nat.isDigit_of_mem_toDigits (by decide) (by decide) hk
    simp at hdig
  have hrepr : '\n' ∉ n.repr.toList := by
    rw [Int.repr_eq_if]
    split
    · rw [Nat.toList_repr]
      exact hnat _
    · simp [Nat.toList_repr, hnat]
  intro h
  obtain ⟨c, hc, hn⟩ := List.mem_map.mp h
  exact hrepr (CodePoint.ofChar_injective hn ▸ hc)

/-! ## Newline-separated records -/

/-- The last field of a newline-separated record, when it has no newline
itself, is determined by the whole, and so is everything before it. -/
theorem eq_of_append_newline {a b x y : Str} (hx : newline ∉ x) (hy : newline ∉ y)
    (h : a ++ newline :: x = b ++ newline :: y) : a = b ∧ x = y := by
  obtain ⟨c, rfl, hc⟩ | ⟨c, rfl, hc⟩ := List.append_eq_append_iff.mp h
  all_goals
    cases c with
    | nil => simp_all
    | cons d ds =>
        -- a longer prefix would put a newline inside the last field
        simp only [List.cons_append, List.cons.injEq] at hc
        simp_all

/-! ## sorted -/

/-- `sorted(texts)`. -/
def sorted (texts : List Str) : List Str := texts.insertionSort (· ≤ ·)

theorem perm_sorted (texts : List Str) : (sorted texts).Perm texts := List.perm_insertionSort _ _

theorem mem_sorted {texts : List Str} {text : Str} : text ∈ sorted texts ↔ text ∈ texts :=
  (perm_sorted texts).mem_iff

/-- Sorting forgets the order. -/
theorem sorted_eq_of_perm {texts texts' : List Str} (h : texts.Perm texts') :
    sorted texts = sorted texts' :=
  (((perm_sorted texts).trans h).trans (perm_sorted texts').symm).eq_of_pairwise'
    (List.pairwise_insertionSort _ _) (List.pairwise_insertionSort _ _)

/-- Another order of written items is what another order of the items is
written as. -/
theorem exists_perm_map {α β : Type} {write : α → β} (hwrite : Function.Injective write)
    {texts : List β} {items : List α} (h : texts.Perm (items.map write)) :
    ∃ items' : List α, items'.map write = texts ∧ items'.Perm items := by
  have hrange : texts ∈ Set.range (List.map write) := by
    rw [Set.range_list_map]
    intro text hmem
    obtain ⟨item, -, hitem⟩ := List.mem_map.mp (h.mem_iff.mp hmem)
    exact ⟨item, hitem⟩
  obtain ⟨items', rfl⟩ := hrange
  exact ⟨items', rfl, (List.map_perm_map_iff hwrite).mp h⟩

/-! ## Formatted text -/

/-- A piece of formatted text: literal text, an integer, a string, or the
`repr` of a string (`{s!r}`). -/
inductive Piece where
  | lit (s : String)
  | int (n : Int)
  | str (s : Str)
  | repr (s : Str)
  deriving DecidableEq, Repr

instance : Coe String Piece := ⟨.lit⟩

/-- Formatted text, not yet rendered. -/
abbrev Text := List Piece

end Python
