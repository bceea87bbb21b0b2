import SecureWs.Lib.JsonIndent

/-!
# SecureWs.Lib.JsonTorn

A JSON text that is cut short.

* `Extends`: what a scanner has read off a text, it reads off every longer text,
  as long as it is plain where the value ends;
* `scanOnce_object_append`: the text of an object is always that plain;
* `loadsStr_torn`: no text of an object is the beginning of another one, so that
  one that is cut short is refused.
-/

namespace Python

namespace Json

/-! ## Strings -/

/-- An escape of four digits that is half of a surrogate pair, without the other
half. -/
theorem scanString_lone {a b c d x : CodePoint} (hx : hex4 a b c d = some x) {s : Str}
    (hs : ∀ a b c d y s', s = backslash :: CodePoint.ofChar 'u' :: a :: b :: c :: d :: s' →
      hex4 a b c d = some y → isLowSurrogate y.val = false) :
    scanString (backslash :: CodePoint.ofChar 'u' :: a :: b :: c :: d :: s) =
      prepend x (scanString s) := by
  have hb : backslash ≠ quotationMark := by decide
  rw [scanString.eq_def]
  simp only [if_neg hb, if_true, hx]
  split
  · split
    · next e₁ e₂ a b c d s' =>
      split_ifs with hescape
      · obtain ⟨rfl, rfl⟩ := hescape
        cases hy : hex4 a b c d with
        | none =>
            have hnone : scanString
                (backslash :: CodePoint.ofChar 'u' :: a :: b :: c :: d :: s') = none := by
              rw [scanString.eq_def]
              simp only [if_neg hb, if_true, hy]
            rw [hnone]
            rfl
        | some y =>
            have hlow := hs a b c d y s' rfl hy
            simp [hlow]
      · rfl
    · rfl
  · rfl

/-- The beginning of an escape is no end of a string. -/
theorem scanString_of_escape {s u : Str} {a b c d : CodePoint} {t : Str} (hshort : s.length < 6)
    (h : s ++ u = backslash :: CodePoint.ofChar 'u' :: a :: b :: c :: d :: t) :
    scanString s = none := by
  have hb : backslash ≠ quotationMark := by decide
  have hs : s = (backslash :: CodePoint.ofChar 'u' :: a :: b :: c :: d :: t).take s.length := by
    rw [← h, List.take_left]
  rw [hs]
  generalize s.length = n at hshort
  interval_cases n
  all_goals
    rw [scanString.eq_def]
    simp [hb]

/-- A character of a string, in front of what both scans find. -/
theorem prepend_congr {x : CodePoint} {scanned scanned' : Option (Str × Str)}
    {contents rest rest' : Str}
    (himp : ∀ contents, scanned = some (contents, rest) → scanned' = some (contents, rest'))
    (h : prepend x scanned = some (contents, rest)) :
    prepend x scanned' = some (contents, rest') := by
  obtain ⟨r, hr, heq⟩ := Option.map_eq_some_iff.mp h
  obtain ⟨rfl, rfl⟩ := Prod.mk.inj heq
  rw [prepend, himp r.1 hr]
  rfl

/-- **A string ends where it ends**, whatever follows. -/
theorem scanString_append {s contents rest : Str} (h : scanString s = some (contents, rest))
    (u : Str) : scanString (s ++ u) = some (contents, rest ++ u) := by
  fun_induction scanString s generalizing contents
  case case2 s =>
    obtain ⟨rfl, rfl⟩ := Prod.mk.inj (Option.some.inj h)
    exact scanString_quotationMark (s ++ u)
  case case6 hx hhigh e₁ e₂ a' b' c' d' s' hescape y hy hlow hb ih =>
    -- a surrogate pair
    obtain ⟨rfl, rfl⟩ := hescape
    obtain ⟨z, hz, hscan⟩ := Option.bind_eq_some_iff.mp h
    exact (scanString_pair hx hy hhigh hlow hz (s' ++ u)).trans (prepend_congr (fun _ => ih) hscan)
  case case7 hx hhigh e₁ e₂ a' b' c' d' s' hescape y hy hlow hb ih =>
    refine (scanString_lone hx fun a b c d y' t heq hy' => ?_).trans (prepend_congr (fun _ => ih) h)
    change e₁ :: e₂ :: a' :: b' :: c' :: d' :: (s' ++ u) = _ at heq
    simp only [List.cons.injEq] at heq
    obtain ⟨-, -, rfl, rfl, rfl, rfl, -⟩ := heq
    rw [← Option.some.inj (hy.symm.trans hy')]
    simpa using hlow
  case case8 hx hhigh e₁ e₂ a' b' c' d' s' hescape hb ih =>
    refine (scanString_lone hx fun a b c d y' t heq hy' => ?_).trans (prepend_congr (fun _ => ih) h)
    change e₁ :: e₂ :: a' :: b' :: c' :: d' :: (s' ++ u) = _ at heq
    simp only [List.cons.injEq] at heq
    exact absurd ⟨heq.1, heq.2.1⟩ hescape
  case case9 hx hhigh s hshort hb ih =>
    -- too little is left for the other half, and what follows cannot make it one
    refine (scanString_lone hx fun a b c d y' t heq hy' => ?_).trans (prepend_congr (fun _ => ih) h)
    have hlen : s.length < 6 := by
      rcases s with _ | ⟨e₁, _ | ⟨e₂, _ | ⟨a, _ | ⟨b, _ | ⟨c, _ | ⟨d, s'⟩⟩⟩⟩⟩⟩
      case cons.cons.cons.cons.cons.cons => exact (hshort e₁ e₂ a b c d s' rfl).elim
      all_goals simp
    rw [scanString_of_escape hlen heq] at h
    cases h
  case case10 hx hhigh hb ih =>
    exact (scanString_hex4 hx (by simpa using hhigh) _).trans (prepend_congr (fun _ => ih) h)
  case case13 hu x hx hb ih =>
    exact (scanString_simpleEscape hu hx _).trans (prepend_congr (fun _ => ih) h)
  case case15 hq hb hctl ih =>
    exact (scanString_plain hq hb hctl _).trans (prepend_congr (fun _ => ih) h)
  all_goals cases h

/-! ## Numbers and words -/

/-- The text goes on, with a character that ends a number. -/
def Delimits (rest : Str) : Prop := rest ≠ [] ∧ NumberEnds rest

/-- What ends a number still ends it when more follows. -/
theorem Delimits.append {rest : Str} (h : Delimits rest) (u : Str) : Delimits (rest ++ u) := by
  obtain ⟨hne, hends⟩ := h
  obtain ⟨c, s, rfl⟩ := List.exists_cons_of_ne_nil hne
  refine ⟨by simp, fun c' s' heq => ?_⟩
  rw [List.cons_append] at heq
  obtain ⟨rfl, -⟩ := List.cons.inj heq
  exact hends c s rfl

/-- A character that stops the loop is found before what is appended. -/
theorem dropWhile_append_of_ne_nil {p : CodePoint → Bool} {s : Str} (h : s.dropWhile p ≠ [])
    (u : Str) : (s ++ u).dropWhile p = s.dropWhile p ++ u := by
  rw [List.dropWhile_append, if_neg (by simpa using h)]

/-- And what is taken before it is the same. -/
theorem takeWhile_append_of_ne_nil {p : CodePoint → Bool} {s : Str} (h : s.dropWhile p ≠ [])
    (u : Str) : (s ++ u).takeWhile p = s.takeWhile p := by
  have hsplit := congrArg List.length (List.takeWhile_append_dropWhile (p := p) (l := s))
  have hpos := List.length_pos_of_ne_nil h
  rw [List.length_append] at hsplit
  rw [List.takeWhile_append, if_neg (by omega)]

/-- The integer part ends where something else begins. -/
theorem scanInteger_append {s digits rest : Str} (h : scanInteger s = some (digits, rest))
    (hrest : rest ≠ []) (u : Str) : scanInteger (s ++ u) = some (digits, rest ++ u) := by
  cases s with
  | nil => cases h
  | cons c s =>
      simp only [List.cons_append, scanInteger] at h ⊢
      split_ifs at h ⊢
      · obtain ⟨rfl, rfl⟩ := Prod.mk.inj (Option.some.inj h)
        rfl
      · obtain ⟨rfl, rfl⟩ := Prod.mk.inj (Option.some.inj h)
        rw [takeWhile_append_of_ne_nil hrest, dropWhile_append_of_ne_nil hrest]

/-- So does the fraction. -/
theorem scanFraction_append {s digits rest : Str} (h : scanFraction s = some (digits, rest))
    (hrest : rest ≠ []) (u : Str) : scanFraction (s ++ u) = some (digits, rest ++ u) := by
  unfold scanFraction at h
  split at h
  · next c d s =>
    split_ifs at h with hpoint
    obtain ⟨rfl, rfl⟩ := Prod.mk.inj (Option.some.inj h)
    rw [List.cons_append, List.cons_append, scanFraction, if_pos hpoint,
      takeWhile_append_of_ne_nil hrest, dropWhile_append_of_ne_nil hrest]
  · cases h

/-- A sign is the first character. -/
theorem scanSign_append {s : Str} (h : s ≠ []) (u : Str) :
    scanSign (s ++ u) = ((scanSign s).1, (scanSign s).2 ++ u) := by
  obtain ⟨c, s, rfl⟩ := List.exists_cons_of_ne_nil h
  simp only [List.cons_append, scanSign]
  split_ifs <;> rfl

/-- The exponent ends where something else begins. -/
theorem scanExponent_append {s rest : Str} {power : Int} (h : scanExponent s = some (power, rest))
    (hrest : rest ≠ []) (u : Str) : scanExponent (s ++ u) = some (power, rest ++ u) := by
  cases s with
  | nil => cases h
  | cons c s =>
      simp only [List.cons_append, scanExponent] at h ⊢
      split_ifs at h with he hdigits
      obtain ⟨rfl, rfl⟩ := Prod.mk.inj (Option.some.inj h)
      have hne : s ≠ [] := by
        rintro rfl
        exact hdigits rfl
      rw [if_pos he, scanSign_append hne, takeWhile_append_of_ne_nil hrest, if_neg hdigits,
        dropWhile_append_of_ne_nil hrest]

/-- Where an exponent starts, there is no fraction. -/
theorem scanFraction_of_scanExponent {s rest : Str} {power : Int}
    (h : scanExponent s = some (power, rest)) (u : Str) : scanFraction (s ++ u) = none := by
  cases s with
  | nil => cases h
  | cons c s =>
      simp only [scanExponent] at h
      split_ifs at h with he
      have hpoint : c ≠ CodePoint.ofChar '.' := by
        rintro rfl
        exact absurd he (by decide)
      cases hs : s ++ u with
      | nil => rw [List.cons_append, hs, scanFraction.eq_def]
      | cons d t => rw [List.cons_append, hs, scanFraction, if_neg fun hc => hpoint hc.1]

/-- A number that is delimited is scanned alike with more behind it. -/
theorem scanUnsigned_append {negative : Bool} {s rest : Str} {value : Json}
    (h : scanUnsigned negative s = .ok (value, rest)) (hrest : Delimits rest) (u : Str) :
    scanUnsigned negative (s ++ u) = .ok (value, rest ++ u) := by
  have hends := hrest.append u
  unfold scanUnsigned at h ⊢
  cases hinteger : scanInteger s with
  | none => simp [hinteger] at h
  | some r =>
      obtain ⟨digits, s₁⟩ := r
      simp only [hinteger] at h
      have hinteger' := scanInteger_append hinteger (u := u)
      cases hfraction : scanFraction s₁ with
      | none => cases hexponent : scanExponent s₁ with
        | none =>
            simp only [hfraction, Option.elim_none, hexponent] at h
            split_ifs at h with hlong
            obtain ⟨rfl, rfl⟩ := Prod.mk.inj (Except.ok.inj h)
            simp only [hinteger' hrest.1, scanFraction_of_numberEnds hends.2, Option.elim_none,
              scanExponent_of_numberEnds hends.2, if_neg hlong]
        | some e =>
            obtain ⟨power, s₂⟩ := e
            simp only [hfraction, Option.elim_none, hexponent, Option.elim_some] at h
            obtain ⟨rfl, rfl⟩ := Prod.mk.inj (Except.ok.inj h)
            have hne : s₁ ≠ [] := by
              rintro rfl
              cases hexponent
            simp only [hinteger' hne, scanFraction_of_scanExponent hexponent u, Option.elim_none,
              scanExponent_append hexponent hrest.1 u, Option.elim_some]
      | some f =>
          obtain ⟨places, s₂⟩ := f
          have hne : s₁ ≠ [] := by
            rintro rfl
            cases hfraction
          cases hexponent : scanExponent s₂ with
          | none =>
              simp only [hfraction, Option.elim_some, hexponent, Option.elim_none] at h
              obtain ⟨rfl, rfl⟩ := Prod.mk.inj (Except.ok.inj h)
              simp only [hinteger' hne, scanFraction_append hfraction hrest.1 u, Option.elim_some,
                scanExponent_of_numberEnds hends.2, Option.elim_none]
          | some e =>
              obtain ⟨power, s₃⟩ := e
              simp only [hfraction, Option.elim_some, hexponent] at h
              obtain ⟨rfl, rfl⟩ := Prod.mk.inj (Except.ok.inj h)
              have hne' : s₂ ≠ [] := by
                rintro rfl
                cases hexponent
              simp only [hinteger' hne, scanFraction_append hfraction hne' u, Option.elim_some,
                scanExponent_append hexponent hrest.1 u]

/-- **A number ends before a character that ends it**, whatever follows. -/
theorem scanNumber_append {s rest : Str} {value : Json} (h : scanNumber s = .ok (value, rest))
    (hrest : Delimits rest) (u : Str) : scanNumber (s ++ u) = .ok (value, rest ++ u) := by
  cases s with
  | nil => cases h
  | cons c s =>
      by_cases hsign : (c :: s).head? = some (CodePoint.ofChar '-')
      · rw [scanNumber, if_pos hsign] at h
        rw [List.cons_append, scanNumber, if_pos (by simpa using hsign)]
        exact scanUnsigned_append h hrest u
      · rw [scanNumber, if_neg hsign] at h
        rw [List.cons_append, scanNumber, if_neg (by simpa using hsign)]
        exact scanUnsigned_append h hrest u

/-- A number has a digit among its first two characters. -/
theorem isDigit_of_scanNumber {c : CodePoint} {s rest : Str} {value : Json}
    (h : scanNumber (c :: s) = .ok (value, rest)) :
    isDigit c = true ∨ ∃ b t, s = b :: t ∧ isDigit b = true := by
  have hdigit : ∀ {negative : Bool} {s : Str}, scanUnsigned negative s = .ok (value, rest) →
      ∃ b t, s = b :: t ∧ isDigit b = true := by
    intro negative s hscan
    unfold scanUnsigned at hscan
    cases hinteger : scanInteger s with
    | none => simp [hinteger] at hscan
    | some r => cases s with
      | nil => cases hinteger
      | cons b t =>
          refine ⟨b, t, rfl, ?_⟩
          simp only [scanInteger] at hinteger
          split_ifs at hinteger with hzero hb
          · rw [hzero]
            decide
          · exact hb
  by_cases hsign : (c :: s).head? = some (CodePoint.ofChar '-')
  · rw [scanNumber, if_pos hsign] at h
    exact .inr (hdigit h)
  · rw [scanNumber, if_neg hsign] at h
    obtain ⟨b, t, heq, hb⟩ := hdigit h
    rw [(List.cons.inj heq).1]
    exact .inl hb

/-- A word is read off every text that starts with it. -/
theorem scanWord_word : ∀ word ∈ words, ∀ t : Str,
    scanWord (Str.ofString word.1 ++ t) = some (word.2, t) := by
  simp only [words, List.forall_mem_cons]
  refine ⟨fun t => rfl, fun t => rfl, fun t => rfl, fun t => rfl, fun t => rfl, fun t => rfl, ?_⟩
  simp

/-- `null`, `true`, `false` and the three special numbers are whole words. -/
theorem scanWord_append {s rest : Str} {value : Json} (h : scanWord s = some (value, rest))
    (u : Str) : scanWord (s ++ u) = some (value, rest ++ u) := by
  obtain ⟨word, hmem, hword⟩ := List.exists_of_findSome?_eq_some h
  split_ifs at hword with hstarts
  obtain ⟨t, rfl⟩ := List.isPrefixOf_iff_prefix.mp hstarts
  rw [scanWord_word word hmem t] at h
  obtain ⟨rfl, rfl⟩ := Prod.mk.inj (Option.some.inj h)
  rw [List.append_assoc]
  exact scanWord_word word hmem (t ++ u)

/-! ## Values -/

/-- What the scanner has read off a text, it reads off every longer text, where
the value is followed by a character that ends it. -/
def Extends (scan : Str → Except LoadsError (Json × Str)) : Prop :=
  ∀ s value rest, scan s = .ok (value, rest) → Delimits rest →
    ∀ u, scan (s ++ u) = .ok (value, rest ++ u)

/-- What the scanner has read off a text, it reads off every longer text. -/
def Closes (scan : Str → Except LoadsError (Json × Str)) : Prop :=
  ∀ s value rest, scan s = .ok (value, rest) → ∀ u, scan (s ++ u) = .ok (value, rest ++ u)

/-- White space ends at the first other character. -/
theorem skipSpace_append {s : Str} (h : skipSpace s ≠ []) (u : Str) :
    skipSpace (s ++ u) = skipSpace s ++ u := dropWhile_append_of_ne_nil h u

theorem skipSpace_append_of_eq_cons {s t : Str} {c : CodePoint} (h : skipSpace s = c :: t)
    (u : Str) : skipSpace (s ++ u) = c :: (t ++ u) := by
  rw [skipSpace_append (by simp [h]), h, List.cons_append]

/-- A bracket ends a number. -/
theorem numberEnds_bracket (s : Str) : NumberEnds (CodePoint.ofChar ']' :: s) := by
  intro c t h
  obtain ⟨rfl, -⟩ := List.cons.inj h
  decide

/-- White space and what follows a value in an array or an object end it. -/
theorem delimits_of_skipSpace {s t : Str} {c : CodePoint} (h : skipSpace s = c :: t)
    (hc : NumberEnds (c :: t)) : Delimits s := by
  cases s with
  | nil => cases h
  | cons d s =>
      refine ⟨by simp, fun d' s' heq => ?_⟩
      obtain ⟨rfl, rfl⟩ := List.cons.inj heq
      by_cases hspace : isWhitespace d = true
      · have hval : d.val = 32 ∨ d.val = 9 ∨ d.val = 10 ∨ d.val = 13 := by
          simpa [isWhitespace] using hspace
        refine ⟨?_, ?_, ?_, ?_⟩
        · simp only [isDigit, decide_eq_false_iff_not]
          omega
        all_goals
          rintro rfl
          revert hspace
          decide
      · rw [skipSpace_of_not_isWhitespace (by simpa using hspace)] at h
        exact hc d s h.symm

section

variable {scan : Str → Except LoadsError (Json × Str)}

/-- The items of an array, by induction on the fuel: each is followed by a comma or a bracket. -/
theorem scanItems_append (hscan : Extends scan) (hprogress : Progresses scan) {fuel fuel' : Nat}
    (hfuel : fuel ≤ fuel') {s rest : Str} {items : List Json}
    (h : scanItems scan fuel s = .ok (items, rest)) (u : Str) :
    scanItems scan fuel' (s ++ u) = .ok (items, rest ++ u) := by
  induction fuel generalizing fuel' s items with
  | zero => cases h
  | succ fuel ih =>
      obtain ⟨fuel', rfl⟩ : ∃ n, fuel' = n + 1 := ⟨fuel' - 1, by omega⟩
      unfold scanItems at h ⊢
      obtain ⟨⟨item, s₁⟩, hitem, h⟩ := bind_eq_ok_iff.mp h
      simp only at h
      cases hs₁ : skipSpace s₁ with
      | nil => simp [hs₁] at h
      | cons c t =>
          simp only [hs₁] at h
          by_cases hclose : c = CodePoint.ofChar ']'
          · subst hclose
            obtain ⟨rfl, rfl⟩ := Prod.mk.inj (Except.ok.inj h)
            have hdelimits := delimits_of_skipSpace hs₁ (numberEnds_bracket t)
            refine bind_eq_ok_iff.mpr ⟨_, hscan s item s₁ hitem hdelimits u, ?_⟩
            simp only [skipSpace_append_of_eq_cons hs₁ u]
            rfl
          · rw [if_neg hclose] at h
            by_cases hcomma : c = CodePoint.ofChar ','
            · subst hcomma
              obtain ⟨⟨items', s₂⟩, hitems, h⟩ := bind_eq_ok_iff.mp h
              obtain ⟨rfl, rfl⟩ := Prod.mk.inj (Except.ok.inj h)
              have hdelimits := delimits_of_skipSpace hs₁ (numberEnds_comma t)
              have hne : skipSpace t ≠ [] := by
                have hlt := length_lt_of_scanItems hprogress hitems
                exact List.ne_nil_of_length_pos (by omega)
              refine bind_eq_ok_iff.mpr ⟨_, hscan s item s₁ hitem hdelimits u, ?_⟩
              simp only [skipSpace_append_of_eq_cons hs₁ u, if_neg hclose]
              refine bind_eq_ok_iff.mpr ⟨(items', s₂ ++ u), ?_, rfl⟩
              rw [skipSpace_append hne u]
              exact ih (by omega) hitems
            · rw [if_neg hcomma] at h
              cases h

/-- An array is scanned up to its bracket. -/
theorem closes_scanArray (hscan : Extends scan) (hprogress : Progresses scan) :
    Closes (scanArray scan) := by
  intro s value rest h u
  unfold scanArray at h ⊢
  cases hs : skipSpace s with
  | nil => simp [hs] at h
  | cons c t =>
      simp only [hs, skipSpace_append_of_eq_cons hs u] at h ⊢
      by_cases hclose : c = CodePoint.ofChar ']'
      · rw [if_pos hclose] at h ⊢
        obtain ⟨rfl, rfl⟩ := Prod.mk.inj (Except.ok.inj h)
        rfl
      · rw [if_neg hclose] at h ⊢
        obtain ⟨⟨items, s₁⟩, hitems, h⟩ := bind_eq_ok_iff.mp h
        obtain ⟨rfl, rfl⟩ := Prod.mk.inj (Except.ok.inj h)
        refine bind_eq_ok_iff.mpr ⟨(items, s₁ ++ u), ?_, rfl⟩
        exact scanItems_append hscan hprogress (by simp) hitems u

/-- A member of an object: its name, a colon and its value. -/
theorem scanMember_append (hscan : Extends scan) (hprogress : Progresses scan) {s rest : Str}
    {value : Json} (h : scanMember scan s = .ok (value, rest)) (hrest : Delimits rest) (u : Str) :
    scanMember scan (s ++ u) = .ok (value, rest ++ u) := by
  unfold scanMember at h ⊢
  cases hs : skipSpace s with
  | nil => simp [hs] at h
  | cons c t =>
      simp only [hs, skipSpace_append_of_eq_cons hs u] at h ⊢
      by_cases hcolon : c = CodePoint.ofChar ':'
      · rw [if_pos hcolon] at h ⊢
        have hne : skipSpace t ≠ [] := by
          have hlt := hprogress _ value rest h
          exact List.ne_nil_of_length_pos (by omega)
        rw [skipSpace_append hne u]
        exact hscan _ value rest h hrest u
      · rw [if_neg hcolon] at h
        cases h

/-- The members of an object, by induction on the fuel. -/
theorem scanMembers_append (hscan : Extends scan) (hprogress : Progresses scan) {fuel fuel' : Nat}
    (hfuel : fuel ≤ fuel') {s rest : Str} {members : List (Str × Json)}
    (h : scanMembers scan fuel s = .ok (members, rest)) (u : Str) :
    scanMembers scan fuel' (s ++ u) = .ok (members, rest ++ u) := by
  induction fuel generalizing fuel' s members with
  | zero => cases h
  | succ fuel ih =>
      obtain ⟨fuel', rfl⟩ : ∃ n, fuel' = n + 1 := ⟨fuel' - 1, by omega⟩
      cases s with
      | nil => cases h
      | cons c s =>
          rw [List.cons_append]
          unfold scanMembers at h ⊢
          simp only at h ⊢
          by_cases hquote : c = quotationMark
          case neg =>
            rw [if_neg hquote] at h
            cases h
          rw [if_pos hquote] at h ⊢
          cases hkey : scanString s with
          | none => simp [hkey] at h
          | some r =>
              obtain ⟨key, s₁⟩ := r
              simp only [hkey, scanString_append hkey u] at h ⊢
              obtain ⟨⟨value, s₂⟩, hvalue, h⟩ := bind_eq_ok_iff.mp h
              simp only at h
              cases hs₂ : skipSpace s₂ with
              | nil => simp [hs₂] at h
              | cons c' t =>
                  simp only [hs₂] at h
                  by_cases hclose : c' = CodePoint.ofChar '}'
                  · subst hclose
                    obtain ⟨rfl, rfl⟩ := Prod.mk.inj (Except.ok.inj h)
                    have hdelimits := delimits_of_skipSpace hs₂ (numberEnds_brace t)
                    refine bind_eq_ok_iff.mpr
                      ⟨_, scanMember_append hscan hprogress hvalue hdelimits u, ?_⟩
                    simp only [skipSpace_append_of_eq_cons hs₂ u]
                    rfl
                  · rw [if_neg hclose] at h
                    by_cases hcomma : c' = CodePoint.ofChar ','
                    · subst hcomma
                      obtain ⟨⟨members', s₃⟩, hmembers, h⟩ := bind_eq_ok_iff.mp h
                      obtain ⟨rfl, rfl⟩ := Prod.mk.inj (Except.ok.inj h)
                      have hdelimits := delimits_of_skipSpace hs₂ (numberEnds_comma t)
                      have hne : skipSpace t ≠ [] := by
                        have hlt := length_lt_of_scanMembers hprogress hmembers
                        exact List.ne_nil_of_length_pos (by omega)
                      refine bind_eq_ok_iff.mpr
                        ⟨_, scanMember_append hscan hprogress hvalue hdelimits u, ?_⟩
                      simp only [skipSpace_append_of_eq_cons hs₂ u, if_neg hclose]
                      refine bind_eq_ok_iff.mpr ⟨(members', s₃ ++ u), ?_, rfl⟩
                      rw [skipSpace_append hne u]
                      exact ih (by omega) hmembers
                    · rw [if_neg hcomma] at h
                      cases h

/-- An object is scanned up to its brace. -/
theorem closes_scanObject (hscan : Extends scan) (hprogress : Progresses scan) :
    Closes (scanObject scan) := by
  intro s value rest h u
  unfold scanObject at h ⊢
  cases hs : skipSpace s with
  | nil => simp [hs] at h
  | cons c t =>
      simp only [hs, skipSpace_append_of_eq_cons hs u] at h ⊢
      by_cases hclose : c = CodePoint.ofChar '}'
      · rw [if_pos hclose] at h ⊢
        obtain ⟨rfl, rfl⟩ := Prod.mk.inj (Except.ok.inj h)
        rfl
      · rw [if_neg hclose] at h ⊢
        obtain ⟨⟨members, s₁⟩, hmembers, h⟩ := bind_eq_ok_iff.mp h
        obtain ⟨rfl, rfl⟩ := Prod.mk.inj (Except.ok.inj h)
        refine bind_eq_ok_iff.mpr ⟨(members, s₁ ++ u), ?_, rfl⟩
        exact scanMembers_append hscan hprogress (by simp) hmembers u

end

/-- Any value, if arrays and objects are closed by their brackets. -/
theorem extends_scanValue {array object : Str → Except LoadsError (Json × Str)}
    (harray : Closes array) (hobject : Closes object) : Extends (scanValue array object) := by
  intro s value rest h hrest u
  cases s with
  | nil => cases h
  | cons c t =>
      rw [List.cons_append]
      unfold scanValue at h ⊢
      simp only at h ⊢
      by_cases hquote : c = quotationMark
      · rw [if_pos hquote] at h ⊢
        cases hstring : scanString t with
        | none => simp [hstring] at h
        | some r =>
            obtain ⟨contents, s₁⟩ := r
            simp only [hstring, scanString_append hstring u] at h ⊢
            obtain ⟨rfl, rfl⟩ := Prod.mk.inj (Except.ok.inj h)
            rfl
      rw [if_neg hquote] at h ⊢
      by_cases hbrace : c = CodePoint.ofChar '{'
      · rw [if_pos hbrace] at h ⊢
        exact hobject t value rest h u
      rw [if_neg hbrace] at h ⊢
      by_cases hbracket : c = CodePoint.ofChar '['
      · rw [if_pos hbracket] at h ⊢
        exact harray t value rest h u
      rw [if_neg hbracket] at h ⊢
      cases hword : scanWord (c :: t) with
      | some scanned =>
          simp only [hword] at h
          obtain rfl := Except.ok.inj h
          have hword' := scanWord_append hword u
          rw [List.cons_append] at hword'
          simp only [hword']
      | none =>
          simp only [hword] at h
          have hnumber := scanNumber_append h hrest u
          have hnone : scanWord (c :: (t ++ u)) = none := by
            refine scanWord_of_isDigit ((isDigit_of_scanNumber h).imp id ?_)
            rintro ⟨b, t', rfl, hb⟩
            exact ⟨b, t' ++ u, rfl, hb⟩
          rw [List.cons_append] at hnumber
          simp only [hnone, hnumber]

/-- **The scanner does not look behind a value**, at any depth. -/
theorem extends_scanOnce (limit : Nat) : Extends (scanOnce limit) := by
  induction limit with
  | zero => exact extends_scanValue (fun _ _ _ h => by cases h) (fun _ _ _ h => by cases h)
  | succ limit ih =>
      exact extends_scanValue (closes_scanArray ih (progresses_scanOnce limit))
        (closes_scanObject ih (progresses_scanOnce limit))

/-- **An object ends where it ends**, whatever follows. -/
theorem scanOnce_object_append {limit : Nat} {t rest : Str} {value : Json}
    (h : scanOnce limit (CodePoint.ofChar '{' :: t) = .ok (value, rest)) (u : Str) :
    scanOnce limit (CodePoint.ofChar '{' :: t ++ u) = .ok (value, rest ++ u) := by
  cases limit with
  | zero => cases h
  | succ limit =>
      have hcloses := closes_scanObject (extends_scanOnce limit) (progresses_scanOnce limit)
      rw [scanOnce, scanValue, if_neg (by decide), if_pos rfl] at h
      rw [List.cons_append, scanOnce, scanValue, if_neg (by decide), if_pos rfl]
      exact hcloses t value rest h u

/-- The last character of an array or object is its bracket. -/
theorem getLast?_block (opening closing : CodePoint) (level : Nat) (parts : List Str) :
    (block opening closing level parts).getLast? = some closing := by
  unfold block
  split_ifs
  · rfl
  · exact List.getLast?_concat

/-- **A text that is cut short is refused.**  No text of an object is the
beginning of another one. -/
theorem loadsStr_torn {limit : Nat} {t torn u : Str} {value : Json}
    (h : scanOnce limit (CodePoint.ofChar '{' :: t) = .ok (value, []))
    (hsplit : torn ++ u = CodePoint.ofChar '{' :: t) (hu : u ≠ []) :
    ∃ e, loadsStr limit torn = .error e := by
  cases hloads : loadsStr limit torn with
  | error e => exact ⟨e, rfl⟩
  | ok value' =>
      unfold loadsStr at hloads
      split_ifs at hloads
      obtain ⟨⟨scanned, rest⟩, hscan, -⟩ := bind_eq_ok_iff.mp hloads
      cases torn with
      | nil => cases limit <;> cases hscan
      | cons c torn =>
          rw [List.cons_append] at hsplit
          obtain ⟨rfl, rfl⟩ := List.cons.inj hsplit
          rw [skipSpace_of_not_isWhitespace (by decide)] at hscan
          have hwhole := scanOnce_object_append hscan u
          rw [List.cons_append, h] at hwhole
          have hnil := (Prod.mk.inj (Except.ok.inj hwhole)).2
          exact absurd (List.append_eq_nil_iff.mp hnil.symm).2 hu

end Json

end Python
