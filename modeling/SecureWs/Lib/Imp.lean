/-!
# SecureWs.Lib.Imp

Imperative code with exceptions, as a state monad in which a raised
exception does *not* roll the state back: what a statement assigned before
the `raise` stays assigned.  This is the semantics of a Python method that
mutates `self` and then raises, so a failing call is a pair of the
exception and the state it leaves behind.

* `Imp.run` executes a program; the `run_*` lemmas are its evaluation rules;
* `raiseIf c e` is the guard `if c: raise e`, in `Imp` and in `Except`: a
  chain of guards evaluates to a chain of `if … then … else`;
* `OnlyRaises` says which exceptions a computation may raise, with a rule for
  each way to build one;
* `mapError` is an `except` clause that raises another exception instead;
* `onField` is a method call on an object held in a field;
* `run_bind_of_ok` / `run_bind_of_error` run a sequence whose first
  statement is already known;
* `Keeps` is the frame condition: the program leaves an observation of the
  state alone, on every exit.

This module depends only on the Lean 4 core library.
-/

/-- A program over the mutable state `σ` that returns an `α` or raises an
`ε`.  Both outcomes carry the state that was reached. -/
def Imp (ε σ α : Type) : Type := σ → Except ε α × σ

/-- The guard `if c: raise e`. -/
def raiseIf {ε : Type} {m : Type → Type} [Monad m] [MonadExcept ε m] (c : Prop) [Decidable c]
    (e : ε) : m Unit :=
  if c then throw e else pure ()

/-- The guard `if c: raise e`, where building the exception may itself raise. -/
def raiseWith {ε : Type} (c : Prop) [Decidable c] (e : Except ε ε) : Except ε Unit :=
  if c then e >>= throw else pure ()

@[simp] theorem throw_except {ε α : Type} (e : ε) : (throw e : Except ε α) = .error e := rfl

@[simp] theorem raiseIf_bind_except {ε α : Type} (c : Prop) [Decidable c] (e : ε)
    (k : Unit → Except ε α) :
    ((raiseIf c e : Except ε Unit) >>= k) = if c then .error e else k () := by
  unfold raiseIf
  split <;> rfl

/-- A sequence of fallible computations returns when both return. -/
theorem bind_eq_ok_iff {ε α β : Type} {x : Except ε α} {f : α → Except ε β} {b : β} :
    (x >>= f) = .ok b ↔ ∃ a, x = .ok a ∧ f a = .ok b := by
  cases x with
  | ok a =>
      constructor
      · intro h
        exact ⟨a, rfl, h⟩
      · intro hexists
        obtain ⟨a', ha, h⟩ := hexists
        rw [Except.ok.inj ha]
        exact h
  | error e =>
      constructor
      · intro h
        contradiction
      · intro hexists
        obtain ⟨a', ha, h⟩ := hexists
        contradiction

/-- A comprehension that reads back what was written. -/
theorem mapM_eq_ok_of_forall {ε α β : Type} {f : β → Except ε α} {write : α → β} {items : List α}
    (h : ∀ item ∈ items, f (write item) = .ok item) : (items.map write).mapM f = .ok items := by
  induction items with
  | nil => rfl
  | cons item items ih =>
      obtain ⟨hfirst, hrest⟩ := List.forall_mem_cons.mp h
      rw [List.map_cons, List.mapM_cons, hfirst, ih hrest]
      rfl

/-- A loop over checks that all pass. -/
theorem forM_eq_ok_of_forall {ε α : Type} {check : α → Except ε Unit} {items : List α}
    (h : ∀ item ∈ items, check item = .ok ()) : forM items check = .ok () := by
  induction items with
  | nil => rfl
  | cons item items ih =>
      obtain ⟨hfirst, hrest⟩ := List.forall_mem_cons.mp h
      rw [List.forM_cons, hfirst]
      exact ih hrest

/-- Every exception that the computation raises meets `p`. -/
def OnlyRaises {ε α : Type} (p : ε → Prop) (x : Except ε α) : Prop := ∀ e, x = .error e → p e

@[simp] theorem onlyRaises_ok {ε α : Type} {p : ε → Prop} {a : α} :
    OnlyRaises p (.ok a : Except ε α) ↔ True :=
  ⟨fun _ => trivial, fun _ _ h => nomatch h⟩

@[simp] theorem onlyRaises_pure {ε α : Type} {p : ε → Prop} {a : α} :
    OnlyRaises p (pure a : Except ε α) ↔ True := onlyRaises_ok

@[simp] theorem onlyRaises_error {ε α : Type} {p : ε → Prop} {e : ε} :
    OnlyRaises p (.error e : Except ε α) ↔ p e := by
  constructor
  · intro h
    exact h e rfl
  · intro h e' heq
    rw [← Except.error.inj heq]
    exact h

/-- A guard raises its exception under its condition. -/
theorem onlyRaises_raiseIf {ε : Type} {p : ε → Prop} {c : Prop} [Decidable c] {e : ε} :
    OnlyRaises p (raiseIf c e : Except ε Unit) ↔ (c → p e) := by
  unfold raiseIf
  by_cases h : c
  · rw [if_pos h]
    simp [h]
  · rw [if_neg h]
    show OnlyRaises p (.ok ()) ↔ _
    simp [h]

/-- A sequence raises what its parts raise. -/
theorem onlyRaises_bind {ε α β : Type} {p : ε → Prop} {x : Except ε α} {f : α → Except ε β} :
    OnlyRaises p (x >>= f) ↔ OnlyRaises p x ∧ ∀ a, x = .ok a → OnlyRaises p (f a) := by
  cases x with
  | ok a =>
      show OnlyRaises p (f a) ↔ _
      simp
  | error e =>
      show OnlyRaises p (.error e) ↔ _
      simp

/-- A guard lets through what does not meet its condition. -/
theorem raiseIf_eq_ok_iff {ε : Type} {c : Prop} [Decidable c] {e : ε} {u : Unit} :
    (raiseIf c e : Except ε Unit) = .ok u ↔ ¬c := by
  unfold raiseIf
  by_cases h : c
  · simp [h]
  · simp [h, pure, Except.pure]

theorem raiseWith_eq_ok_iff {ε : Type} {c : Prop} [Decidable c] {e : Except ε ε} {u : Unit} :
    raiseWith c e = .ok u ↔ ¬c := by
  unfold raiseWith
  by_cases h : c
  · simp [h, bind_eq_ok_iff]
  · simp [h, pure, Except.pure]

namespace Imp

variable {ε σ α β γ : Type}

/-- Execute a program from a given state. -/
def run (m : Imp ε σ α) (s : σ) : Except ε α × σ := m s

/- A sequence stops at the first exception and keeps its state; `tryCatch`
runs the handler from the state the protected block left behind. -/

instance : Monad (Imp ε σ) where
  pure a := fun s => (.ok a, s)
  bind m f := fun s => match m s with
    | (.ok a, t) => (f a).run t
    | (.error e, t) => (.error e, t)

instance : MonadStateOf σ (Imp ε σ) where
  get := fun s => (.ok s, s)
  set t := fun _ => (.ok (), t)
  modifyGet f := fun s => (.ok (f s).1, (f s).2)

instance : MonadExceptOf ε (Imp ε σ) where
  throw e := fun s => (.error e, s)
  tryCatch m h := fun s => match m s with
    | (.ok a, t) => (.ok a, t)
    | (.error e, t) => (h e).run t

/-- A computation that does not touch the state, as a statement. -/
def ofExcept : Except ε α → Imp ε σ α
  | .ok a => pure a
  | .error e => throw e

/-- Run a program on the part of the state that `part` reads and `put`
writes: a method call on an object held in a field. -/
def onField {τ : Type} (part : σ → τ) (put : σ → τ → σ) (m : Imp ε τ α) : Imp ε σ α := fun s =>
  ((m.run (part s)).1, put s (m.run (part s)).2)

/-- Run a program and translate its exception: `except E as exc: raise f(exc)`. -/
def mapError {ε' : Type} (f : ε → ε') (m : Imp ε σ α) : Imp ε' σ α := fun s =>
  ((m.run s).1.mapError f, (m.run s).2)

/-! ## Evaluation rules -/

@[simp] theorem run_pure (a : α) (s : σ) : (pure a : Imp ε σ α).run s = (.ok a, s) := rfl

theorem run_bind (m : Imp ε σ α) (f : α → Imp ε σ β) (s : σ) :
    (m >>= f).run s = match m.run s with
      | (.ok a, t) => (f a).run t
      | (.error e, t) => (.error e, t) := rfl

@[simp] theorem run_get (s : σ) : (get : Imp ε σ σ).run s = (.ok s, s) := rfl

@[simp] theorem run_set (s t : σ) : (set t : Imp ε σ PUnit).run s = (.ok (), t) := rfl

@[simp] theorem run_modify (f : σ → σ) (s : σ) :
    (modify f : Imp ε σ PUnit).run s = (.ok (), f s) := rfl

@[simp] theorem run_modifyGet (f : σ → α × σ) (s : σ) :
    (modifyGet f : Imp ε σ α).run s = (.ok (f s).1, (f s).2) := rfl

@[simp] theorem run_throw (e : ε) (s : σ) : (throw e : Imp ε σ α).run s = (.error e, s) := rfl

@[simp] theorem run_ite (c : Prop) [Decidable c] (m n : Imp ε σ α) (s : σ) :
    (if c then m else n).run s = if c then m.run s else n.run s := by
  split <;> rfl

@[simp] theorem run_ofExcept (x : Except ε α) (s : σ) :
    (ofExcept x : Imp ε σ α).run s = (x, s) := by
  cases x <;> rfl

theorem run_tryCatch (m : Imp ε σ α) (h : ε → Imp ε σ α) (s : σ) :
    (tryCatch m h).run s = match m.run s with
      | (.ok a, t) => (.ok a, t)
      | (.error e, t) => (h e).run t := rfl

theorem run_onField {τ : Type} (part : σ → τ) (put : σ → τ → σ) (m : Imp ε τ α) (s : σ) :
    (onField part put m).run s = ((m.run (part s)).1, put s (m.run (part s)).2) := rfl

theorem run_mapError {ε' : Type} (f : ε → ε') (m : Imp ε σ α) (s : σ) :
    (mapError f m).run s = ((m.run s).1.mapError f, (m.run s).2) := rfl

@[simp] theorem run_raiseIf_bind (c : Prop) [Decidable c] (e : ε) (k : Unit → Imp ε σ α) (s : σ) :
    ((raiseIf c e : Imp ε σ Unit) >>= k).run s = if c then (.error e, s) else (k ()).run s := by
  unfold raiseIf
  split <;> rfl

@[simp] theorem run_ofExcept_ok_bind (a : α) (f : α → Imp ε σ β) (s : σ) :
    ((ofExcept (.ok a) : Imp ε σ α) >>= f).run s = (f a).run s := rfl

@[simp] theorem run_ofExcept_error_bind (e : ε) (f : α → Imp ε σ β) (s : σ) :
    ((ofExcept (.error e) : Imp ε σ α) >>= f).run s = (.error e, s) := rfl

/-- A sequence whose first statement returns goes on from the state it left. -/
theorem run_bind_of_ok {m : Imp ε σ α} {s t : σ} {a : α} (h : m.run s = (.ok a, t))
    (f : α → Imp ε σ β) : (m >>= f).run s = (f a).run t := by
  rw [run_bind, h]

/-- A sequence whose first statement raises stops there. -/
theorem run_bind_of_error {m : Imp ε σ α} {s t : σ} {e : ε} (h : m.run s = (.error e, t))
    (f : α → Imp ε σ β) : (m >>= f).run s = (.error e, t) := by
  rw [run_bind, h]

/-! ## Frames -/

/-- The program leaves the observation `obs` of the state alone, whether it
returns or raises. -/
def Keeps (obs : σ → γ) (m : Imp ε σ α) : Prop := ∀ s, obs (m.run s).2 = obs s

end Imp
