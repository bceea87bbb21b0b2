import SecureWs.Lib.Imp
import SecureWs.Lib.SlidingWindow
import SecureWs.Framing

/-!
# SecureWs.Replay

The anti-replay window of `replay.py`: the highest sequence number accepted
so far and a bitmap of the window below it.

`ReplayWindow` is the sliding window of `SecureWs.Lib.SlidingWindow` over
`0 … MAX_SEQ`: `Tracks` says that a window represents a set of accepted
numbers, `check` refuses exactly what the set-based policy refuses
(`check_run`) and `check_and_update` inserts what it accepts
(`checkAndUpdate_run`).
-/

namespace SecureWs

open Python

def DEFAULT_WINDOW_SIZE : Int := 1024

/-- A `ReplayWindow`; `_size` and `_mask` never change after `__init__`. -/
structure ReplayWindow where
  size : Nat
  mask : Nat
  highest : Int
  bitmap : Nat
  size_pos : 1 ≤ size
  mask_eq : mask = (1 <<< size) - 1
  deriving DecidableEq, Repr

namespace ReplayWindow

/-- `ReplayWindow(size)`. -/
def new (size : Int) : Except PyError ReplayWindow :=
  if h : size < 1 then
    .error (.valueError ["window size must be >= 1"])
  else
    .ok ⟨size.toNat, (1 <<< size.toNat) - 1, -1, 0, by omega, rfl⟩

/-- `window.check(seq)`. -/
def check (seq : Int) : Imp PyError ReplayWindow Unit := do
  raiseIf (¬ (0 ≤ seq ∧ seq ≤ MAX_SEQ))
    (.replayError ["sequence number out of range: ", .int seq])
  let self ← get
  if self.highest < 0 ∨ seq > self.highest then
    return ()
  else do
    let offset := (self.highest - seq).toNat
    raiseIf (offset ≥ self.size)
      (.replayError ["sequence number ", .int seq, " is too old (window=", .int self.size, ")"])
    raiseIf (self.bitmap &&& (1 <<< offset) ≠ 0)
      (.replayError ["replayed sequence number: ", .int seq])
    return ()

/-- `window.commit(seq)`. -/
def commit (seq : Int) : Imp PyError ReplayWindow Unit :=
  modify fun self =>
    if self.highest < 0 then
      { self with highest := seq, bitmap := 1 }
    else if seq > self.highest then
      let shift := (seq - self.highest).toNat
      if shift ≥ self.size then
        { self with bitmap := 1, highest := seq }
      else
        { self with bitmap := ((self.bitmap <<< shift) ||| 1) &&& self.mask, highest := seq }
    else
      let offset := (self.highest - seq).toNat
      if offset < self.size then
        { self with bitmap := self.bitmap ||| (1 <<< offset) }
      else
        self

/-- `window.check_and_update(seq)`. -/
def checkAndUpdate (seq : Int) : Imp PyError ReplayWindow Unit := do
  check seq
  commit seq

/-! ## The window represents a set -/

/-- The window `w` stands for the set of accepted numbers: `_highest` is the
greatest of them (`-1` when there is none), and the bitmap fits the window
and has bit `i` set exactly when `_highest - i` was accepted. -/
structure Tracks (w : ReplayWindow) (accepted : Set ℤ) : Prop where
  inRange : ∀ n ∈ accepted, 0 ≤ n ∧ n ≤ MAX_SEQ
  represents : (accepted = ∅ ∧ w.highest = -1 ∧ w.bitmap = 0) ∨
    SlidingWindow.Represents w.size accepted w.highest w.bitmap

/-- The set-based policy at this window's size. -/
abbrev Refuses (w : ReplayWindow) (accepted : Set ℤ) (n : ℤ) : Prop :=
  SlidingWindow.Refused MAX_SEQ w.size accepted n

/-- A new window stands for the empty set. -/
theorem tracks_new {size : Int} {w : ReplayWindow} (h : new size = .ok w) : w.Tracks ∅ := by
  unfold new at h
  split at h
  · contradiction
  · rw [Except.ok.injEq] at h
    subst h
    exact ⟨fun n hn => absurd hn (Set.notMem_empty n), Or.inl ⟨rfl, rfl, rfl⟩⟩

theorem new_eq_ok_iff {size : Int} : (∃ w, new size = .ok w) ↔ 1 ≤ size := by
  unfold new
  split
  · simp; omega
  · simp; omega

/-- The default size is one. -/
theorem new_default : ∃ w, new DEFAULT_WINDOW_SIZE = .ok w := new_eq_ok_iff.mpr (by decide)

theorem size_new {size : Int} {w : ReplayWindow} (h : new size = .ok w) : (w.size : Int) = size := by
  unfold new at h
  split at h
  · contradiction
  · rw [Except.ok.injEq] at h
    subst h
    simp only
    omega

/-- `check`, evaluated: it answers and leaves the window as it is. -/
theorem run_check (seq : Int) (w : ReplayWindow) :
    (check seq).run w =
      (if ¬ (0 ≤ seq ∧ seq ≤ MAX_SEQ) then
        .error (.replayError ["sequence number out of range: ", .int seq])
      else if w.highest < 0 ∨ seq > w.highest then .ok ()
      else if (w.highest - seq).toNat ≥ w.size then
        .error (.replayError
          ["sequence number ", .int seq, " is too old (window=", .int w.size, ")"])
      else if w.bitmap &&& (1 <<< (w.highest - seq).toNat) ≠ 0 then
        .error (.replayError ["replayed sequence number: ", .int seq])
      else .ok (), w) := by
  rw [check, Imp.run_raiseIf_bind, Imp.run_bind_of_ok (Imp.run_get w)]
  simp only [Imp.run_ite, Imp.run_raiseIf_bind, Imp.run_pure]
  split_ifs <;> rfl

/-- All that `check` raises is `ReplayError`. -/
theorem check_error {w : ReplayWindow} {seq : Int} {e : PyError}
    (h : ((check seq).run w).1 = .error e) : ∃ m, e = .replayError m := by
  rw [run_check] at h
  grind

theorem commit_size (w : ReplayWindow) (seq : Int) :
    ((ReplayWindow.commit seq).run w).2.size = w.size := by
  simp only [ReplayWindow.commit, Imp.run_modify]
  split_ifs <;> rfl

namespace Tracks

variable {w : ReplayWindow} {accepted : Set ℤ}

/-- Once a number was accepted, `_highest` is not negative. -/
theorem highest_nonneg (h : w.Tracks accepted)
    (hr : SlidingWindow.Represents w.size accepted w.highest w.bitmap) : 0 ≤ w.highest :=
  (h.inRange _ hr.greatest.1).1

/-- `check` raises `ReplayError` exactly on what the policy refuses. -/
theorem check_run (h : w.Tracks accepted) (seq : Int) :
    (w.Refuses accepted seq ∧ ∃ m, (check seq).run w = (.error (.replayError m), w)) ∨
    (¬ w.Refuses accepted seq ∧ (check seq).run w = (.ok (), w)) := by
  rw [run_check]
  by_cases hr : 0 ≤ seq ∧ seq ≤ MAX_SEQ
  · rw [if_neg (not_not.mpr hr)]
    obtain ⟨rfl, hh, -⟩ | hrep := h.represents
    · -- nothing was accepted yet
      refine Or.inr ⟨?_, by rw [if_pos (Or.inl (by omega))]⟩
      intro hcases
      obtain hr' | hm | ⟨m, hm, -⟩ := hcases
      · exact hr' hr
      · exact absurd hm (Set.notMem_empty _)
      · exact absurd hm.1 (Set.notMem_empty _)
    · have hpos := h.highest_nonneg hrep
      by_cases hlt : w.highest < seq
      · exact Or.inr ⟨hrep.not_refused_of_lt hr hlt, by rw [if_pos (Or.inr hlt)]⟩
      · have hoff : seq = w.highest - ((w.highest - seq).toNat : ℕ) := by omega
        rw [if_neg (by omega), Refuses, hrep.refused_iff hr hoff]
        simp only [SlidingWindow.and_one_shiftLeft_ne_zero_iff]
        by_cases hold : (w.highest - seq).toNat ≥ w.size
        · rw [if_pos hold]
          exact Or.inl ⟨Or.inl hold, _, rfl⟩
        · rw [if_neg hold]
          by_cases hbit : w.bitmap.testBit (w.highest - seq).toNat = true
          · rw [if_pos hbit]
            exact Or.inl ⟨Or.inr hbit, _, rfl⟩
          · rw [if_neg hbit]
            exact Or.inr ⟨not_or.mpr ⟨hold, hbit⟩, rfl⟩
  · rw [if_pos hr]
    exact Or.inl ⟨Or.inl hr, _, rfl⟩

/-- Committing a number that is not too old inserts it in the set. -/
theorem commit (h : w.Tracks accepted) {seq : Int} (hr : 0 ≤ seq ∧ seq ≤ MAX_SEQ)
    (hnew : w.highest - seq < w.size) :
    ((ReplayWindow.commit seq).run w).2.Tracks (insert seq accepted) := by
  refine ⟨?_, Or.inr ?_⟩
  · intro n hmem
    obtain rfl | hn := hmem
    · exact hr
    · exact h.inRange n hn
  have hmask : w.mask = 2 ^ w.size - 1 := by rw [w.mask_eq, Nat.one_shiftLeft]
  simp only [ReplayWindow.commit, Imp.run_modify]
  obtain ⟨rfl, hh, -⟩ | hrep := h.represents
  · rw [if_pos (by omega), insert_empty_eq]
    exact SlidingWindow.Represents.singleton w.size_pos seq
  · have hpos := h.highest_nonneg hrep
    rw [if_neg (by omega)]
    by_cases hlt : seq > w.highest
    · rw [if_pos hlt]
      by_cases hjump : (seq - w.highest).toNat ≥ w.size
      · rw [if_pos hjump]
        exact hrep.jump w.size_pos (by omega)
      · rw [if_neg hjump]
        have hadv : SlidingWindow.Represents w.size (insert seq accepted) seq
            (((w.bitmap <<< (seq - w.highest).toNat) ||| 1) &&& (2 ^ w.size - 1)) :=
          hrep.advance (by omega) (by omega)
        rwa [← hmask] at hadv
    · rw [if_neg hlt, if_pos (by omega)]
      exact hrep.mark (by omega) (by omega)

/-- `check_and_update` raises `ReplayError` and changes nothing on what the
policy refuses, and inserts every other number. -/
theorem checkAndUpdate_run (h : w.Tracks accepted) (seq : Int) :
    (w.Refuses accepted seq ∧
      ∃ m, (checkAndUpdate seq).run w = (.error (.replayError m), w)) ∨
    (¬ w.Refuses accepted seq ∧ ∃ w', (checkAndUpdate seq).run w = (.ok (), w') ∧
      w'.size = w.size ∧ w'.Tracks (insert seq accepted)) := by
  obtain ⟨href, m, hrun⟩ | ⟨href, hrun⟩ := h.check_run seq
  · exact Or.inl ⟨href, m, Imp.run_bind_of_error hrun _⟩
  · refine Or.inr ⟨href, _, Imp.run_bind_of_ok hrun _, commit_size w seq, ?_⟩
    have hr : 0 ≤ seq ∧ seq ≤ MAX_SEQ := not_not.mp fun hn => href (Or.inl hn)
    refine h.commit hr ?_
    by_contra hold
    obtain ⟨-, hh, -⟩ | hrep := h.represents
    · have hpos := w.size_pos
      omega
    · exact href (Or.inr (Or.inr ⟨w.highest, hrep.greatest, by omega⟩))

/-- `_highest` is the greatest accepted number, or `-1`. -/
theorem highest_eq (h : w.Tracks accepted) :
    (accepted = ∅ ∧ w.highest = -1) ∨ IsGreatest accepted w.highest :=
  h.represents.imp (fun he => ⟨he.1, he.2.1⟩) fun hr => hr.greatest

/-- The bitmap fits the window and says which of its numbers were accepted. -/
theorem bitmap_spec (h : w.Tracks accepted) :
    w.bitmap < 2 ^ w.size ∧
      ∀ i < w.size, w.bitmap.testBit i = true ↔ w.highest - i ∈ accepted := by
  obtain ⟨rfl, -, hb⟩ | hr := h.represents
  · rw [hb]
    exact ⟨Nat.two_pow_pos _, by simp⟩
  · exact ⟨hr.fits, hr.bit⟩

end Tracks

/-! ## Runs -/

inductive Call where
  | check (seq : Int)
  | checkAndUpdate (seq : Int)
  deriving DecidableEq, Repr

/-- The number a call is about. -/
def Call.seq : Call → Int
  | .check seq => seq
  | .checkAndUpdate seq => seq

/-- The method a call invokes. -/
def Call.method : Call → Imp PyError ReplayWindow Unit
  | .check seq => ReplayWindow.check seq
  | .checkAndUpdate seq => ReplayWindow.checkAndUpdate seq

/-- A call raises `ReplayError` exactly on what the policy refuses, and
otherwise returns. -/
theorem Tracks.method_run {w : ReplayWindow} {accepted : Set ℤ} (h : w.Tracks accepted)
    (call : Call) :
    ((∃ m, (call.method.run w).1 = .error (.replayError m)) ↔ w.Refuses accepted call.seq) ∧
    ((call.method.run w).1 = .ok () ∨ ∃ m, (call.method.run w).1 = .error (.replayError m)) := by
  cases call with
  | check seq =>
      obtain ⟨href, m, hrun⟩ | ⟨href, hrun⟩ := h.check_run seq
      · exact ⟨iff_of_true ⟨m, by rw [Call.method, hrun]⟩ href,
          Or.inr ⟨m, by rw [Call.method, hrun]⟩⟩
      · exact ⟨iff_of_false (by simp [Call.method, hrun]) href,
          Or.inl (by rw [Call.method, hrun])⟩
  | checkAndUpdate seq =>
      obtain ⟨href, m, hrun⟩ | ⟨href, w', hrun, -⟩ := h.checkAndUpdate_run seq
      · exact ⟨iff_of_true ⟨m, by rw [Call.method, hrun]⟩ href,
          Or.inr ⟨m, by rw [Call.method, hrun]⟩⟩
      · exact ⟨iff_of_false (by simp [Call.method, hrun]) href,
          Or.inl (by rw [Call.method, hrun])⟩

/-- One call in a run, which also records the numbers that a
`check_and_update` accepted, latest first. -/
def Call.step (s : ReplayWindow × List Int) (call : Call) : ReplayWindow × List Int :=
  match call, call.method.run s.1 with
  | .checkAndUpdate seq, (.ok (), w) => (w, seq :: s.2)
  | _, (_, w) => (w, s.2)

def runCalls (w : ReplayWindow) (calls : List Call) : ReplayWindow × List Int :=
  calls.foldl Call.step (w, [])

/-- What a run keeps: the window stands for the numbers recorded, none of
them recorded twice. -/
structure RunInv (size : Nat) (s : ReplayWindow × List Int) : Prop where
  size_eq : s.1.size = size
  tracks : s.1.Tracks {n | n ∈ s.2}
  nodup : s.2.Nodup

/-- One call keeps the invariant. -/
theorem RunInv.step {size : Nat} {s : ReplayWindow × List Int} (h : RunInv size s) (call : Call) :
    RunInv size (call.step s) := by
  obtain ⟨w, accepted⟩ := s
  cases call with
  | check seq =>
      obtain ⟨-, m, hrun⟩ | ⟨-, hrun⟩ := h.tracks.check_run seq
      · simp only [Call.step, Call.method, hrun]
        exact h
      · simp only [Call.step, Call.method, hrun]
        exact h
  | checkAndUpdate seq =>
      obtain ⟨-, m, hrun⟩ | ⟨href, w', hrun, hsize, htr⟩ := h.tracks.checkAndUpdate_run seq
      · simp only [Call.step, Call.method, hrun]
        exact h
      · simp only [Call.step, Call.method, hrun]
        refine ⟨hsize.trans h.size_eq, ?_, ?_⟩
        · have hset : {n | n ∈ seq :: accepted} = insert seq {n | n ∈ accepted} := by
            ext n
            simp
          rw [hset]
          exact htr
        · exact List.nodup_cons.mpr ⟨fun hm => href (Or.inr (Or.inl hm)), h.nodup⟩

/-- A whole run keeps the invariant. -/
theorem RunInv.run {size : Nat} {s : ReplayWindow × List Int} (h : RunInv size s)
    (calls : List Call) : RunInv size (calls.foldl Call.step s) := by
  induction calls generalizing s with
  | nil => exact h
  | cons call calls ih => exact ih (h.step call)

theorem runInv_new {size : Int} {w : ReplayWindow} (h : new size = .ok w) :
    RunInv w.size (w, []) :=
  ⟨rfl, by simpa using tracks_new h, List.nodup_nil⟩

/-- **Refinement of the set-based policy.**  After any run of calls on a new
window of size at least one, with `accepted` the numbers accepted so far: a
further call raises `ReplayError` exactly when the policy refuses its number
and otherwise returns; `check` leaves the window as it is; `_highest` is the
greatest accepted number or `-1`; the bitmap fits `size` bits, bit `i` being
set exactly when `_highest - i` was accepted; nothing was accepted twice;
and a number in range, above `_highest - size` and not yet accepted is still
accepted. -/
theorem replayWindow_refines_policy (size : Int) (hsize : 1 ≤ size) :
    ∃ w₀, new size = .ok w₀ ∧ (w₀.size : Int) = size ∧ ∀ calls : List Call,
      let w := (runCalls w₀ calls).1
      let accepted := (runCalls w₀ calls).2
      (∀ call : Call,
        ((∃ m, (call.method.run w).1 = .error (.replayError m)) ↔
          ¬ (0 ≤ call.seq ∧ call.seq ≤ MAX_SEQ) ∨ call.seq ∈ accepted ∨
            ∃ m, IsGreatest {n | n ∈ accepted} m ∧ call.seq ≤ m - size) ∧
        ((call.method.run w).1 = .ok () ∨ ∃ m, (call.method.run w).1 = .error (.replayError m))) ∧
      (∀ seq, ((check seq).run w).2 = w) ∧
      ((accepted = [] ∧ w.highest = -1) ∨ IsGreatest {n | n ∈ accepted} w.highest) ∧
      w.bitmap < 2 ^ w₀.size ∧
      (∀ i < w₀.size, w.bitmap.testBit i = true ↔ w.highest - (i : Int) ∈ accepted) ∧
      accepted.Nodup ∧
      (∀ seq : Int, 0 ≤ seq ∧ seq ≤ MAX_SEQ → w.highest - size < seq → seq ∉ accepted →
        ((checkAndUpdate seq).run w).1 = .ok ()) := by
  obtain ⟨w₀, hnew⟩ := new_eq_ok_iff.mpr hsize
  have hsz := size_new hnew
  refine ⟨w₀, hnew, hsz, fun calls => ?_⟩
  have hinv : RunInv w₀.size (runCalls w₀ calls) := (runInv_new hnew).run calls
  obtain ⟨hsize', htr, hnodup⟩ := hinv
  generalize runCalls w₀ calls = s at hsize' htr hnodup ⊢
  obtain ⟨w, accepted⟩ := s
  simp only at hsize' htr hnodup ⊢
  have hcall : ∀ call : Call,
      ((∃ m, (call.method.run w).1 = .error (.replayError m)) ↔
        ¬ (0 ≤ call.seq ∧ call.seq ≤ MAX_SEQ) ∨ call.seq ∈ accepted ∨
          ∃ m, IsGreatest {n | n ∈ accepted} m ∧ call.seq ≤ m - size) ∧
      ((call.method.run w).1 = .ok () ∨ ∃ m, (call.method.run w).1 = .error (.replayError m)) := by
    intro call
    have hres := htr.method_run call
    rw [Refuses, hsize', SlidingWindow.Refused, hsz] at hres
    exact hres
  refine ⟨hcall, fun seq => ?_, ?_, ?_, ?_, hnodup, fun seq hr hnew hmem => ?_⟩
  · obtain ⟨-, m, hrun⟩ | ⟨-, hrun⟩ := htr.check_run seq <;> rw [hrun]
  · refine htr.highest_eq.imp (fun h => ⟨?_, h.2⟩) id
    exact List.eq_nil_iff_forall_not_mem.mpr fun n hn => (h.1 ▸ hn : n ∈ (∅ : Set ℤ))
  · exact hsize' ▸ htr.bitmap_spec.1
  · exact hsize' ▸ htr.bitmap_spec.2
  · obtain ⟨hiff, hres⟩ := hcall (.checkAndUpdate seq)
    refine hres.resolve_right fun herr => ?_
    obtain hr' | hm | ⟨m, hm, hle⟩ := hiff.mp herr
    · exact hr' hr
    · exact hmem hm
    · obtain ⟨he, -⟩ | hg := htr.highest_eq
      · exact (he ▸ hm.1 : m ∈ (∅ : Set ℤ))
      · rw [hm.unique hg] at hle
        simp only [Call.seq] at hle
        omega

/-- In a window of 64 numbers, after `10, 12, 11, 9, 13` the number 11 is a
duplicate. -/
theorem replayWindow_refines_policy_duplicate :
    ∃ w₀, new 64 = .ok w₀ ∧ ∃ m, ((checkAndUpdate 11).run (runCalls w₀
      ([10, 12, 11, 9, 13].map Call.checkAndUpdate)).1).1 = .error (.replayError m) := by
  obtain ⟨w₀, hnew, -, hrun⟩ := replayWindow_refines_policy 64 (by decide)
  refine ⟨w₀, hnew, ((hrun _).1 (.checkAndUpdate 11)).1.mpr (Or.inr (Or.inl ?_))⟩
  obtain rfl := Except.ok.inj hnew
  decide

end ReplayWindow

end SecureWs
