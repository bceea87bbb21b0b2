import SecureWs.Lib.Imp

/-!
# SecureWs.Lib.TwoRuns

Two runs of imperative code side by side: relational rules for `Imp`.

`SameResult V` says that two results are alike: both return, with values that
`V` relates, or both raise the same exception.  `Related R V R' m n` says that
the programs `m` and `n`, from states that `R` relates, end alike and in states
that `R'` relates.  There is a rule for each way to build a program, so that
the proof of a two-run property follows the text of the program.
-/

namespace Imp

variable {ε σ τ α β γ δ : Type} {R R' R₁ : σ → τ → Prop} {V : α → β → Prop} {W : γ → δ → Prop}

/-- Both return related values, or both raise the same exception. -/
inductive SameResult (V : α → β → Prop) : Except ε α → Except ε β → Prop where
  | ok {a b} (h : V a b) : SameResult V (.ok a) (.ok b)
  | error (e) : SameResult V (.error e) (.error e)

namespace SameResult

theorem of_eq {x : Except ε α} : SameResult Eq x x := by
  cases x with
  | ok a => exact .ok rfl
  | error e => exact .error e

/-- The values that alike results return. -/
theorem and_eq {x : Except ε α} {y : Except ε β} (h : SameResult V x y) :
    SameResult (fun a b => V a b ∧ x = .ok a ∧ y = .ok b) x y := by
  cases h with
  | ok hv => exact .ok ⟨hv, rfl, rfl⟩
  | error e => exact .error e

/-- What is computed from alike results is the same, if it is the same for
related values. -/
theorem map_eq {κ : Type} {x : Except ε α} {y : Except ε β} (h : SameResult V x y) {f : α → κ}
    {g : β → κ} (heq : ∀ a b, V a b → f a = g b) : x.map f = y.map g := by
  cases h with
  | ok hv => exact congrArg Except.ok (heq _ _ hv)
  | error e => rfl

end SameResult

/-- From states that `R` relates, the programs end alike, and in states that
`R'` relates. -/
def Related (R : σ → τ → Prop) (V : α → β → Prop) (R' : σ → τ → Prop) (m : Imp ε σ α)
    (n : Imp ε τ β) : Prop :=
  ∀ s t, R s t → SameResult V (m.run s).1 (n.run t).1 ∧ R' (m.run s).2 (n.run t).2

namespace Related

/-- `return`. -/
theorem ret {a : α} {b : β} (h : V a b) :
    Related R V R (pure a : Imp ε σ α) (pure b : Imp ε τ β) :=
  fun _ _ hst => ⟨.ok h, hst⟩

/-- `raise`. -/
theorem raise (e : ε) : Related R V R (throw e : Imp ε σ α) (throw e : Imp ε τ β) :=
  fun _ _ hst => ⟨.error e, hst⟩

/-- Reading the state gives related states. -/
theorem read : Related R R R (get : Imp ε σ σ) (get : Imp ε τ τ) :=
  fun _ _ hst => ⟨.ok hst, hst⟩

/-- An assignment. -/
theorem assign {f : σ → σ} {g : τ → τ} (h : ∀ s t, R s t → R' (f s) (g t)) :
    Related R Eq R' (modify f : Imp ε σ PUnit) (modify g : Imp ε τ PUnit) :=
  fun s t hst => ⟨.ok rfl, h s t hst⟩

/-- An assignment that returns a value. -/
theorem assignGet {f : σ → α × σ} {g : τ → β × τ}
    (h : ∀ s t, R s t → V (f s).1 (g t).1 ∧ R' (f s).2 (g t).2) :
    Related R V R' (modifyGet f : Imp ε σ α) (modifyGet g : Imp ε τ β) :=
  fun s t hst => ⟨.ok (h s t hst).1, (h s t hst).2⟩

/-- A fallible computation that does not touch the state. -/
theorem lift {x : Except ε α} {y : Except ε β} (h : SameResult V x y) :
    Related R V R (ofExcept x : Imp ε σ α) (ofExcept y : Imp ε τ β) := by
  intro s t hst
  rw [run_ofExcept, run_ofExcept]
  exact ⟨h, hst⟩

/-- A sequence. -/
theorem seq {m : Imp ε σ α} {n : Imp ε τ β} {f : α → Imp ε σ γ} {g : β → Imp ε τ δ}
    (h : Related R V R' m n) (hnext : ∀ a b, V a b → Related R' W R₁ (f a) (g b))
    (herror : ∀ s t, R' s t → R₁ s t) : Related R W R₁ (m >>= f) (n >>= g) := by
  intro s t hst
  obtain ⟨hresult, hstate⟩ := h s t hst
  rw [run_bind, run_bind]
  generalize m.run s = x at hresult hstate
  generalize n.run t = y at hresult hstate
  obtain ⟨result, s'⟩ := x
  obtain ⟨result', t'⟩ := y
  cases hresult with
  | ok hv => exact hnext _ _ hv s' t' hstate
  | error e => exact ⟨.error e, herror s' t' hstate⟩

/-- A program, beside itself. -/
theorem refl (m : Imp ε σ α) : Related Eq Eq Eq m m := by
  intro s t hst
  rw [hst]
  exact ⟨.of_eq, rfl⟩

/-- A sequence of programs that keep a relation. -/
theorem andThen {m : Imp ε σ α} {n : Imp ε τ β} {f : α → Imp ε σ γ} {g : β → Imp ε τ δ}
    (h : Related R V R m n) (hnext : ∀ a b, V a b → Related R W R (f a) (g b)) :
    Related R W R (m >>= f) (n >>= g) :=
  h.seq hnext fun _ _ hst => hst

/-- A guard, under conditions that agree. -/
theorem guard {c d : Prop} [Decidable c] [Decidable d] (h : c ↔ d) (e : ε) :
    Related R Eq R (raiseIf c e : Imp ε σ Unit) (raiseIf d e : Imp ε τ Unit) := by
  unfold raiseIf
  by_cases hc : c
  · rw [if_pos hc, if_pos (h.mp hc)]
    exact raise e
  · rw [if_neg hc, if_neg (mt h.mpr hc)]
    exact ret rfl

/-- A branch, under conditions that agree. -/
theorem branch {c d : Prop} [Decidable c] [Decidable d] (h : c ↔ d) {m m' : Imp ε σ α}
    {n n' : Imp ε τ β} (hthen : Related R V R' m n) (helse : Related R V R' m' n') :
    Related R V R' (if c then m else m') (if d then n else n') := by
  by_cases hc : c
  · rw [if_pos hc, if_pos (h.mp hc)]
    exact hthen
  · rw [if_neg hc, if_neg (mt h.mpr hc)]
    exact helse

/-- A protected block. -/
theorem handle {m : Imp ε σ α} {n : Imp ε τ β} {f : ε → Imp ε σ α} {g : ε → Imp ε τ β}
    (h : Related R V R' m n) (hhandler : ∀ e, Related R' V R' (f e) (g e)) :
    Related R V R' (tryCatch m f) (tryCatch n g) := by
  intro s t hst
  obtain ⟨hresult, hstate⟩ := h s t hst
  rw [run_tryCatch, run_tryCatch]
  generalize m.run s = x at hresult hstate
  generalize n.run t = y at hresult hstate
  obtain ⟨result, s'⟩ := x
  obtain ⟨result', t'⟩ := y
  cases hresult with
  | ok hv => exact ⟨.ok hv, hstate⟩
  | error e => exact hhandler e s' t' hstate

/-- A call on an object held in a field. -/
theorem call {σ' τ' : Type} {P P' : σ' → τ' → Prop} {part : σ → σ'} {put : σ → σ' → σ}
    {part' : τ → τ'} {put' : τ → τ' → τ} {m : Imp ε σ' α} {n : Imp ε τ' β} (h : Related P V P' m n)
    (hpart : ∀ s t, R s t → P (part s) (part' t))
    (hput : ∀ s t x y, R s t → P' x y → R' (put s x) (put' t y)) :
    Related R V R' (onField part put m) (onField part' put' n) := by
  intro s t hst
  obtain ⟨hresult, hstate⟩ := h _ _ (hpart s t hst)
  exact ⟨hresult, hput s t _ _ hst hstate⟩

end Related

end Imp
