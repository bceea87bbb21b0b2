import Mathlib.Order.Bounds.Basic
import Mathlib.Data.Set.Insert
import Mathlib.Data.Int.Order.Basic
import Mathlib.Data.Nat.Bitwise
import Mathlib.Tactic.Cases

/-!
# SecureWs.Lib.SlidingWindow

Sliding-window duplicate detection.  The specification is a set: the numbers
accepted so far.  The implementation keeps the greatest of them and a bitmap
of the `size` numbers up to it; `Represents` relates the two.

* `Refused` is the set-based policy: a number is refused when it is out of
  range, was accepted before, or has fallen out of the window;
* `Represents.singleton`, `.advance`, `.jump` and `.mark` are the four ways
  a bitmap follows the insertion of a new number;
* `Represents.refused_iff` reads the policy off the bitmap.
-/

namespace SlidingWindow

variable {size : ℕ} {accepted : Set ℤ} {highest n : ℤ} {bitmap : ℕ}

/-- The policy: `n` is refused by a window of `size` numbers over
`0 … limit` in which exactly `accepted` were accepted. -/
def Refused (limit : ℤ) (size : ℕ) (accepted : Set ℤ) (n : ℤ) : Prop :=
  ¬ (0 ≤ n ∧ n ≤ limit) ∨ n ∈ accepted ∨ ∃ m, IsGreatest accepted m ∧ n ≤ m - size

/-- `highest` and `bitmap` represent a nonempty set of accepted numbers: bit
`i` stands for `highest - i`. -/
structure Represents (size : ℕ) (accepted : Set ℤ) (highest : ℤ) (bitmap : ℕ) : Prop where
  greatest : IsGreatest accepted highest
  fits : bitmap < 2 ^ size
  bit : ∀ i < size, bitmap.testBit i = true ↔ highest - i ∈ accepted

/-! ## Bitmaps -/

/-- Testing a bit with a mask, as in `bitmap & (1 << i)`. -/
theorem and_one_shiftLeft_ne_zero_iff (bitmap i : ℕ) :
    bitmap &&& (1 <<< i) ≠ 0 ↔ bitmap.testBit i = true := by
  rw [Nat.one_shiftLeft, Nat.and_two_pow]
  cases bitmap.testBit i <;> simp

/-! ## Following an insertion -/

/-- The first number accepted. -/
theorem Represents.singleton (hsize : 1 ≤ size) (n : ℤ) : Represents size {n} n 1 where
  greatest := isGreatest_singleton
  fits := Nat.one_lt_two_pow (by omega)
  bit i _ := by
    rw [Nat.testBit_one_eq_true_iff_self_eq_zero, Set.mem_singleton_iff]
    omega

/-- A new greatest number becomes the greatest of the enlarged set. -/
theorem isGreatest_insert_of_lt (h : IsGreatest accepted highest) (hn : highest < n) :
    IsGreatest (insert n accepted) n := by
  refine ⟨Set.mem_insert _ _, ?_⟩
  intro m hmem
  obtain rfl | hm := hmem
  · exact le_refl _
  · exact le_of_lt (lt_of_le_of_lt (h.2 hm) hn)

/-- A forward step: shift the bitmap, mark bit 0 and drop what left the window. -/
theorem Represents.advance (h : Represents size accepted highest bitmap) {shift : ℕ}
    (hn : n = highest + shift) (hpos : 0 < shift) :
    Represents size (insert n accepted) n (((bitmap <<< shift) ||| 1) &&& (2 ^ size - 1)) where
  greatest := isGreatest_insert_of_lt h.greatest (by omega)
  fits := by
    rw [Nat.and_two_pow_sub_one_eq_mod]
    exact Nat.mod_lt _ (Nat.two_pow_pos size)
  bit i hi := by
    rw [Nat.testBit_and, Nat.testBit_two_pow_sub_one, decide_eq_true hi, Bool.and_true,
      Nat.testBit_or, Bool.or_eq_true, Nat.testBit_one_eq_true_iff_self_eq_zero,
      Nat.testBit_shiftLeft, Bool.and_eq_true, decide_eq_true_eq, Set.mem_insert_iff]
    by_cases hs : shift ≤ i
    · -- an old number, moved up by `shift`
      have hbit := h.bit (i - shift) (by omega)
      have hsub : highest - ((i - shift : ℕ) : ℤ) = n - i := by omega
      rw [hsub] at hbit
      constructor
      · intro hcases
        obtain ⟨-, hb⟩ | rfl := hcases
        · exact Or.inr (hbit.mp hb)
        · omega
      · intro hcases
        obtain he | hm := hcases
        · omega
        · exact Or.inl ⟨hs, hbit.mpr hm⟩
    · -- above the old greatest only `n` itself was accepted
      have hnot : n - i ∉ accepted := fun hm => by
        have hle := h.greatest.2 hm
        omega
      constructor
      · intro hcases
        obtain ⟨hle, -⟩ | rfl := hcases
        · exact absurd hle hs
        · exact Or.inl (by omega)
      · intro hcases
        obtain he | hm := hcases
        · exact Or.inr (by omega)
        · exact absurd hm hnot

/-- A forward step past the window leaves only the new number's bit. -/
theorem Represents.jump (h : Represents size accepted highest bitmap) (hsize : 1 ≤ size)
    (hn : highest + size ≤ n) : Represents size (insert n accepted) n 1 where
  greatest := isGreatest_insert_of_lt h.greatest (by omega)
  fits := Nat.one_lt_two_pow (by omega)
  bit i hi := by
    rw [Nat.testBit_one_eq_true_iff_self_eq_zero, Set.mem_insert_iff]
    constructor
    · rintro rfl
      exact Or.inl (by omega)
    · intro hcases
      obtain he | hm := hcases
      · omega
      · have hle := h.greatest.2 hm
        omega

/-- A late arrival inside the window: set its bit. -/
theorem Represents.mark (h : Represents size accepted highest bitmap) {offset : ℕ}
    (hn : n = highest - offset) (hlt : offset < size) :
    Represents size (insert n accepted) highest (bitmap ||| (1 <<< offset)) where
  greatest := by
    refine ⟨Set.mem_insert_of_mem _ h.greatest.1, ?_⟩
    intro m hmem
    obtain rfl | hm := hmem
    · omega
    · exact h.greatest.2 hm
  fits := by
    rw [Nat.one_shiftLeft]
    exact Nat.or_lt_two_pow h.fits (Nat.pow_lt_pow_right (by decide) hlt)
  bit i hi := by
    rw [Nat.testBit_or, Nat.one_shiftLeft, Nat.testBit_two_pow, Bool.or_eq_true, h.bit i hi,
      decide_eq_true_eq, Set.mem_insert_iff]
    constructor
    · intro hcases
      obtain hm | rfl := hcases
      · exact Or.inr hm
      · exact Or.inl hn.symm
    · intro hcases
      obtain he | hm := hcases
      · exact Or.inr (by omega)
      · exact Or.inl hm

/-! ## Reading the policy -/

/-- Above the greatest accepted number nothing in range is refused. -/
theorem Represents.not_refused_of_lt (h : Represents size accepted highest bitmap) {limit : ℤ}
    (hr : 0 ≤ n ∧ n ≤ limit) (hn : highest < n) : ¬ Refused limit size accepted n := by
  intro hcases
  obtain hr' | hm | ⟨m, hm, hle⟩ := hcases
  · exact hr' hr
  · have hle := h.greatest.2 hm
    omega
  · rw [hm.unique h.greatest] at hle
    omega

/-- At or below the greatest accepted number, what is refused is what is too
old for the window or has its bit set. -/
theorem Represents.refused_iff (h : Represents size accepted highest bitmap) {limit : ℤ}
    (hr : 0 ≤ n ∧ n ≤ limit) {offset : ℕ} (hn : n = highest - offset) :
    Refused limit size accepted n ↔ size ≤ offset ∨ bitmap.testBit offset = true := by
  by_cases hlt : offset < size
  · have hbit := h.bit offset hlt
    rw [← hn] at hbit
    rw [hbit]
    constructor
    · intro hcases
      obtain hr' | hm | ⟨m, hm, hle⟩ := hcases
      · exact absurd hr hr'
      · exact Or.inr hm
      · rw [hm.unique h.greatest] at hle
        omega
    · intro hcases
      obtain hle | hm := hcases
      · omega
      · exact Or.inr (Or.inl hm)
  · have hge : size ≤ offset := Nat.not_lt.mp hlt
    exact iff_of_true (Or.inr (Or.inr ⟨highest, h.greatest, by omega⟩)) (Or.inl hge)

end SlidingWindow
