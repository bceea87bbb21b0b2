import Mathlib

/-!
# SecureWs.Lib.RegexSearch

Searching a text for a match of a regular expression, over the expressions and
the derivatives of Mathlib.

* `oneOf`, `optional` and `atLeast` are `[...]`, `(?:r)?` and `r{n,}`;
* `search` tries every position in turn, and `search_iff` says what it finds: a
  factor of the text that is in the language;
* `search_append_cons`: a character that no match contains cuts the text in two
  (`avoids_atLeast_oneOf` gives such characters);
* `search_optional_mul`: what may be missing in front does not matter.
-/

namespace RegularExpression

variable {α : Type}

/-- One of these characters. -/
def oneOf : List α → RegularExpression α
  | [] => 0
  | a :: as => char a + oneOf as

def optional (r : RegularExpression α) : RegularExpression α := 1 + r

def atLeast (n : ℕ) (r : RegularExpression α) : RegularExpression α := r ^ n * star r

theorem mem_oneOf {as text : List α} : text ∈ (oneOf as).matches' ↔ ∃ a ∈ as, text = [a] := by
  induction as with
  | nil => simp [oneOf, Language.notMem_zero]
  | cons a as ih =>
      rw [oneOf, matches'_add, Language.mem_add, ih, List.exists_mem_cons_iff]
      rfl

/-- A number of characters, each one of these. -/
theorem mem_pow_oneOf {as : List α} {n : ℕ} {text : List α} :
    text ∈ ((oneOf as) ^ n).matches' ↔ text.length = n ∧ ∀ a ∈ text, a ∈ as := by
  induction n generalizing text with
  | zero =>
      rw [matches'_pow, pow_zero, Language.mem_one]
      exact ⟨fun h => by simp [h], fun h => List.length_eq_zero_iff.mp h.1⟩
  | succ n ih =>
      rw [matches'_pow] at ih ⊢
      rw [pow_succ', Language.mem_mul]
      constructor
      · intro h
        obtain ⟨first, hfirst, rest, hrest, rfl⟩ := h
        obtain ⟨a, ha, rfl⟩ := mem_oneOf.mp hfirst
        obtain ⟨hlength, hall⟩ := ih.mp hrest
        exact ⟨by simp [hlength], by simpa using ⟨ha, hall⟩⟩
      · intro h
        obtain ⟨hlength, hall⟩ := h
        cases text with
        | nil => simp at hlength
        | cons a rest =>
            obtain ⟨ha, hrest⟩ := List.forall_mem_cons.mp hall
            exact ⟨[a], mem_oneOf.mpr ⟨a, ha, rfl⟩, rest,
              ih.mpr ⟨Nat.succ.inj hlength, hrest⟩, rfl⟩

theorem mem_star_oneOf {as text : List α} :
    text ∈ (star (oneOf as)).matches' ↔ ∀ a ∈ text, a ∈ as := by
  rw [matches'_star, Language.kstar_eq_iSup_pow, Language.mem_iSup]
  constructor
  · intro h
    obtain ⟨n, h⟩ := h
    rw [← matches'_pow] at h
    exact (mem_pow_oneOf.mp h).2
  · intro h
    refine ⟨text.length, ?_⟩
    rw [← matches'_pow]
    exact mem_pow_oneOf.mpr ⟨rfl, h⟩

/-- At least so many characters, each one of these. -/
theorem mem_atLeast_oneOf {as : List α} {n : ℕ} {text : List α} :
    text ∈ (atLeast n (oneOf as)).matches' ↔ n ≤ text.length ∧ ∀ a ∈ text, a ∈ as := by
  rw [atLeast, matches'_mul, Language.mem_mul]
  constructor
  · intro h
    obtain ⟨first, hfirst, rest, hrest, rfl⟩ := h
    obtain ⟨hlength, hall⟩ := mem_pow_oneOf.mp hfirst
    have hrest := mem_star_oneOf.mp hrest
    refine ⟨by simp [hlength], fun a ha => ?_⟩
    obtain h | h := List.mem_append.mp ha
    · exact hall a h
    · exact hrest a h
  · intro h
    obtain ⟨hlength, hall⟩ := h
    refine ⟨text.take n, mem_pow_oneOf.mpr ⟨List.length_take_of_le hlength, ?_⟩, text.drop n,
      mem_star_oneOf.mpr ?_, List.take_append_drop n text⟩
    · exact fun a ha => hall a (List.mem_of_mem_take ha)
    · exact fun a ha => hall a (List.mem_of_mem_drop ha)

variable [DecidableEq α]

/-- Some prefix of the text matches. -/
def matchesFrom (r : RegularExpression α) : List α → Bool
  | [] => r.matchEpsilon
  | a :: text => r.matchEpsilon || (r.deriv a).matchesFrom text

/-- Some prefix of the text, or of what follows in it, matches. -/
def search (r : RegularExpression α) : List α → Bool
  | [] => r.matchesFrom []
  | a :: text => r.matchesFrom (a :: text) || r.search text

theorem nil_mem_matches' {r : RegularExpression α} : [] ∈ r.matches' ↔ r.matchEpsilon = true := by
  rw [← rmatch_iff_matches']
  rfl

theorem cons_mem_matches' {r : RegularExpression α} {a : α} {text : List α} :
    a :: text ∈ r.matches' ↔ text ∈ (r.deriv a).matches' := by
  rw [← rmatch_iff_matches', ← rmatch_iff_matches']
  rfl

theorem matchesFrom_iff {r : RegularExpression α} {text : List α} :
    r.matchesFrom text = true ↔ ∃ found ∈ r.matches', found <+: text := by
  induction text generalizing r with
  | nil => simp [matchesFrom, nil_mem_matches', List.prefix_nil]
  | cons a text ih =>
      rw [matchesFrom, Bool.or_eq_true, ih]
      simp only [List.prefix_cons_iff]
      constructor
      · intro h
        obtain h | ⟨found, hfound, hpre⟩ := h
        · exact ⟨[], nil_mem_matches'.mpr h, .inl rfl⟩
        · exact ⟨a :: found, cons_mem_matches'.mpr hfound, .inr ⟨found, rfl, hpre⟩⟩
      · intro h
        obtain ⟨found, hfound, rfl | ⟨rest, rfl, hpre⟩⟩ := h
        · exact .inl (nil_mem_matches'.mp hfound)
        · exact .inr ⟨rest, cons_mem_matches'.mp hfound, hpre⟩

/-- **What a search finds.** -/
theorem search_iff {r : RegularExpression α} {text : List α} :
    r.search text = true ↔ ∃ found ∈ r.matches', found <:+: text := by
  induction text with
  | nil => simp [search, matchesFrom_iff, List.prefix_nil, List.infix_nil]
  | cons a text ih =>
      rw [search, Bool.or_eq_true, matchesFrom_iff, ih, ← exists_or]
      simp only [List.infix_cons_iff, ← and_or_left]

/-- What is found in a part is found in the whole. -/
theorem search_mono {r : RegularExpression α} {text text' : List α}
    (h : r.search text = true) (hpart : text <:+: text') : r.search text' = true := by
  obtain ⟨found, hfound, hin⟩ := search_iff.mp h
  exact search_iff.mpr ⟨found, hfound, hin.trans hpart⟩

/-- What may be missing in front of a match does not matter. -/
theorem search_optional_mul (r r' : RegularExpression α) (text : List α) :
    (optional r * r').search text = r'.search text := by
  rw [Bool.eq_iff_iff, search_iff, search_iff]
  constructor
  · intro h
    obtain ⟨found, hfound, hin⟩ := h
    obtain ⟨first, -, rest, hrest, rfl⟩ := Language.mem_mul.mp hfound
    exact ⟨rest, hrest, (List.suffix_append first rest).isInfix.trans hin⟩
  · intro h
    obtain ⟨found, hfound, hin⟩ := h
    refine ⟨found, Language.mem_mul.mpr ⟨[], ?_, found, hfound, rfl⟩, hin⟩
    exact (Language.mem_add _ _ _).mpr (.inl (Language.nil_mem_one))

/-! ## Cutting the text -/

/-- No match contains the character. -/
def Avoids (r : RegularExpression α) (c : α) : Prop := ∀ found ∈ r.matches', c ∉ found

omit [DecidableEq α] in
theorem avoids_atLeast_oneOf {as : List α} {n : ℕ} {c : α} (h : c ∉ as) :
    (atLeast n (oneOf as)).Avoids c := fun _ hfound hmem =>
  h ((mem_atLeast_oneOf.mp hfound).2 c hmem)

/-- A search stops at a character that no match contains, and starts again. -/
theorem search_append_cons {r : RegularExpression α} {c : α} (hc : r.Avoids c)
    (hempty : r.matchEpsilon = false) (before after : List α) :
    r.search (before ++ c :: after) = (r.search before || r.search after) := by
  rw [Bool.eq_iff_iff, Bool.or_eq_true]
  constructor
  · intro h
    obtain ⟨found, hfound, hin⟩ := search_iff.mp h
    have hne : found ≠ [] := by
      intro hnil
      simp [nil_mem_matches'.mp (hnil ▸ hfound)] at hempty
    obtain hleft | hright | ⟨first, rest, rfl, hsuffix, hpre⟩ := List.infix_append_iff.mp hin
    · exact .inl (search_iff.mpr ⟨found, hfound, hleft⟩)
    · obtain hpre | hrest := List.infix_cons_iff.mp hright
      · obtain rfl | ⟨rest, rfl, -⟩ := List.prefix_cons_iff.mp hpre
        · exact absurd rfl hne
        · exact absurd List.mem_cons_self (hc _ hfound)
      · exact .inr (search_iff.mpr ⟨found, hfound, hrest⟩)
    · obtain rfl | ⟨rest, rfl, -⟩ := List.prefix_cons_iff.mp hpre
      · rw [List.append_nil] at hfound
        exact .inl (search_iff.mpr ⟨first, hfound, hsuffix.isInfix⟩)
      · exact absurd (by simp) (hc _ hfound)
  · intro h
    obtain h | h := h
    · exact search_mono h (List.prefix_append before _).isInfix
    · exact search_mono h
        ((List.suffix_cons c after).isInfix.trans (List.suffix_append before _).isInfix)

end RegularExpression
