import SecureWs.Lib.JsonDumps

/-!
# SecureWs.Lib.Decimal

Decimal text of a fixed width, cut into groups: `str.zfill`, a list of slices
and `str.join`.

* `zfill_digitsOf`: a number that fits is padded to digits of the full width,
  which still denote it;
* `flatten_slices`: the slices of a text, put together again, are the text;
* `filter_join`: so is what `join` makes of them, without the separators.
-/

namespace Python

open Json

/-! ## Padding -/

/-- `s.zfill(width)`: zeros on the left, behind a sign. -/
def zfill (width : Nat) (s : Str) : Str :=
  let zeros := List.replicate (width - s.length) (CodePoint.ofChar '0')
  match s with
  | [] => zeros
  | c :: t =>
      if c = CodePoint.ofChar '+' ∨ c = CodePoint.ofChar '-' then c :: zeros ++ t
      else zeros ++ c :: t

/-- Leading zeros count for nothing. -/
theorem digitsValue_replicate_zero (n : Nat) (s : Str) :
    digitsValue (List.replicate n (CodePoint.ofChar '0') ++ s) = digitsValue s := by
  induction n with
  | zero => rfl
  | succ n ih =>
      rw [List.replicate_succ, List.cons_append, ← ih]
      rfl

/-- Without a sign the zeros come first. -/
theorem zfill_of_isDigit {s : Str} (h : ∀ c ∈ s, isDigit c = true) (width : Nat) :
    zfill width s = List.replicate (width - s.length) (CodePoint.ofChar '0') ++ s := by
  cases s with
  | nil => simp [zfill]
  | cons c t =>
      have hc := h c (by simp)
      have hsign : ¬(c = CodePoint.ofChar '+' ∨ c = CodePoint.ofChar '-') := by
        intro heq
        obtain rfl | rfl := heq
        · exact absurd hc (by decide)
        · exact absurd hc (by decide)
      exact if_neg hsign

/-- **Padding.**  A number of at most `width` digits is padded to `width`
digits, which denote it. -/
theorem zfill_digitsOf {width n : Nat} (hwidth : 0 < width) (h : n < 10 ^ width) :
    (zfill width (digitsOf n)).length = width ∧ (∀ c ∈ zfill width (digitsOf n), isDigit c = true) ∧
      digitsValue (zfill width (digitsOf n)) = n := by
  have hdigits : ∀ c ∈ digitsOf n, isDigit c = true := fun c => isDigit_of_mem_digitsOf
  have hlen : (digitsOf n).length ≤ width := by
    rw [digitsOf, List.length_map]
    exact (Nat.length_toDigits_le_iff (by decide) hwidth).mpr h
  rw [zfill_of_isDigit hdigits]
  refine ⟨?_, ?_, ?_⟩
  · rw [List.length_append, List.length_replicate]
    omega
  · rw [List.forall_mem_append]
    refine ⟨fun c hc => ?_, hdigits⟩
    rw [List.eq_of_mem_replicate hc]
    decide
  · rw [digitsValue_replicate_zero, digitsValue_digitsOf]

/-! ## Groups -/

/-- `range(start, stop, step)`. -/
def range (start stop step : Nat) : List Nat :=
  List.range' start ((stop - start + step - 1) / step) step

/-- `s[i:j]`. -/
def slice (i j : Nat) (s : Str) : Str := (s.drop i).take (j - i)

/-- `[s[i : i + size] for i in range(0, total, size)]`. -/
def slices (total size : Nat) (s : Str) : List Str :=
  (range 0 total size).map fun i => slice i (i + size) s

/-- `sep.join(parts)`. -/
def join (sep : Str) (parts : List Str) : Str := List.intercalate sep parts

theorem range_mul (n : Nat) {size : Nat} (hsize : 0 < size) :
    range 0 (n * size) size = List.range' 0 n size := by
  have hcount : (n * size - 0 + size - 1) / size = n := by
    rw [Nat.sub_zero, Nat.add_sub_assoc hsize, Nat.mul_comm, Nat.mul_add_div hsize,
      Nat.div_eq_of_lt (by omega), Nat.add_zero]
  rw [range, hcount]

/-- The slices, put together, are the text. -/
theorem flatten_slices {n size : Nat} (hsize : 0 < size) {s : Str} (h : s.length = n * size) :
    (slices (n * size) size s).flatten = s := by
  have htake : ∀ m, ((List.range' 0 m size).map fun i => slice i (i + size) s).flatten =
      s.take (m * size) := by
    intro m
    induction m with
    | zero => simp
    | succ m ih =>
        rw [List.range'_concat, List.map_append, List.flatten_append, ih, Nat.succ_mul,
          List.take_add]
        simp [slice, Nat.mul_comm]
  rw [slices, range_mul n hsize, htake, ← h, List.take_length]

theorem length_slices (n : Nat) {size : Nat} (hsize : 0 < size) (s : Str) :
    (slices (n * size) size s).length = n := by
  rw [slices, range_mul n hsize, List.length_map, List.length_range']

/-- Every slice is full. -/
theorem length_of_mem_slices {n size : Nat} (hsize : 0 < size) {s : Str} (h : s.length = n * size) :
    ∀ part ∈ slices (n * size) size s, part.length = size := by
  intro part hpart
  rw [slices, range_mul n hsize] at hpart
  obtain ⟨i, hi, rfl⟩ := List.mem_map.mp hpart
  obtain ⟨k, hk, rfl⟩ := List.mem_range'.mp hi
  have hlt : (k + 1) * size ≤ n * size := Nat.mul_le_mul_right size hk
  rw [Nat.succ_mul, Nat.mul_comm] at hlt
  rw [slice, List.length_take, List.length_drop]
  omega

/-- Without the separators, joined parts are the parts put together. -/
theorem filter_join {sep : CodePoint} {parts : List Str} (h : ∀ part ∈ parts, sep ∉ part) :
    (join [sep] parts).filter (· ≠ sep) = parts.flatten := by
  have hpart : ∀ part : Str, sep ∉ part → part.filter (· ≠ sep) = part := by
    intro part hnot
    rw [List.filter_eq_self]
    intro c hc
    exact decide_eq_true fun heq => hnot (heq ▸ hc)
  induction parts with
  | nil => rfl
  | cons part parts ih =>
      obtain ⟨hfirst, hrest⟩ := List.forall_mem_cons.mp h
      cases parts with
      | nil =>
          rw [join, List.intercalate_singleton, hpart part hfirst]
          exact (List.append_nil part).symm
      | cons part' parts =>
          rw [join, List.intercalate_cons_cons, List.filter_append, List.filter_append,
            hpart part hfirst, ← join, ih hrest]
          simp

end Python
