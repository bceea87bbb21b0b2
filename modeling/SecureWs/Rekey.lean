import SecureWs.Lib.Imp
import SecureWs.Errors

/-!
# SecureWs.Rekey

The rekey policy of `rekey.py`: a rekey is due after `max_messages` messages
or once `max_seconds` have passed since the last one.

Times are any type `T` with the subtraction and the comparison the code
uses, and the clock is the sequence of its readings: each call of
`self._clock()` takes the next one.
-/

namespace SecureWs

open Python

variable {T : Type} [Zero T] [LE T]

/-- A `RekeyPolicy`; the last two fields are what `__init__` checks. -/
structure RekeyPolicy (T : Type) [Zero T] [LE T] where
  maxMessages : Int
  maxSeconds : T
  /-- the successive readings of the clock -/
  clock : Nat → T
  /-- how many readings were taken -/
  reads : Nat
  count : Nat
  lastRekey : T
  messages_pos : ¬ maxMessages < 1
  seconds_pos : ¬ maxSeconds ≤ 0

namespace RekeyPolicy

/-- `RekeyPolicy(max_messages, max_seconds, clock)`. -/
def new [DecidableLE T] (maxMessages : Int) (maxSeconds : T) (clock : Nat → T) :
    Except PyError (RekeyPolicy T) :=
  if hm : maxMessages < 1 then
    .error (.valueError ["max_messages must be >= 1"])
  else if hs : maxSeconds ≤ 0 then
    .error (.valueError ["max_seconds must be > 0"])
  else
    .ok ⟨maxMessages, maxSeconds, clock, 1, 0, clock 0, hm, hs⟩

/-- `self._clock()`. -/
def readClock : Imp PyError (RekeyPolicy T) T :=
  modifyGet fun self => (self.clock self.reads, { self with reads := self.reads + 1 })

/-- `policy.note_message()`. -/
def noteMessage : Imp PyError (RekeyPolicy T) Unit :=
  modify fun self => { self with count := self.count + 1 }

/-- `policy.reset()`. -/
def reset : Imp PyError (RekeyPolicy T) Unit := do
  modify fun self => { self with count := 0 }
  let now ← readClock
  modify fun self => { self with lastRekey := now }

def afterReset (self : RekeyPolicy T) : RekeyPolicy T :=
  { self with count := 0, reads := self.reads + 1, lastRekey := self.clock self.reads }

def afterNote (self : RekeyPolicy T) : RekeyPolicy T := { self with count := self.count + 1 }

@[simp] theorem run_noteMessage (self : RekeyPolicy T) :
    noteMessage.run self = (.ok (), self.afterNote) := rfl

@[simp] theorem run_reset (self : RekeyPolicy T) :
    reset.run self = (.ok (), self.afterReset) := rfl

/-- The policy after `due` looked at the clock, which it does only when the
message count does not settle the answer. -/
def afterDue (self : RekeyPolicy T) : RekeyPolicy T :=
  if (self.count : Int) ≥ self.maxMessages then self
  else { self with reads := self.reads + 1 }

theorem reads_le_afterDue (self : RekeyPolicy T) : self.reads ≤ self.afterDue.reads := by
  unfold afterDue
  split
  · exact le_refl _
  · exact Nat.le_succ _

variable [Sub T] [DecidableLE T]

/-- `policy.due()`. -/
def due : Imp PyError (RekeyPolicy T) Bool := do
  let self ← get
  if (self.count : Int) ≥ self.maxMessages then
    return true
  else do
    let now ← readClock
    return decide (now - self.lastRekey ≥ self.maxSeconds)

/-- What `due` answers in this state. -/
def isDue (self : RekeyPolicy T) : Bool :=
  decide ((self.count : Int) ≥ self.maxMessages) ||
    decide (self.clock self.reads - self.lastRekey ≥ self.maxSeconds)

@[simp] theorem run_due (self : RekeyPolicy T) :
    due.run self = (.ok self.isDue, self.afterDue) := by
  rw [due, Imp.run_bind_of_ok (Imp.run_get self), Imp.run_ite]
  by_cases hc : (self.count : Int) ≥ self.maxMessages
  · rw [if_pos hc]
    simp [isDue, afterDue, hc]
  · rw [if_neg hc]
    simp [isDue, afterDue, hc, readClock, Imp.run_bind]

/-- The policy after a call of `encrypt`: it is asked, restarted if a rekey
is due, and told of the message. -/
def afterEncrypt (self : RekeyPolicy T) : RekeyPolicy T :=
  if self.isDue = true then self.afterDue.afterReset.afterNote else self.afterDue.afterNote

/-- A policy that is due counts from one again, from the reading it takes now. -/
theorem afterEncrypt_of_due {self : RekeyPolicy T} (h : self.isDue = true) :
    self.afterEncrypt.count = 1 ∧
      self.afterEncrypt.lastRekey = self.clock self.afterDue.reads ∧
      self.afterEncrypt.reads = self.afterDue.reads + 1 := by
  have hclock : self.afterDue.clock = self.clock := by
    unfold afterDue
    split <;> rfl
  simp [afterEncrypt, h, afterNote, afterReset, hclock]

/-- A policy that is not due counts on, and stays within both limits. -/
theorem afterEncrypt_of_not_due {self : RekeyPolicy T} (h : ¬ self.isDue = true) :
    self.afterEncrypt.count = self.count + 1 ∧ (self.count : Int) < self.maxMessages ∧
      self.afterEncrypt.lastRekey = self.lastRekey ∧
      ¬ self.maxSeconds ≤ self.clock self.reads - self.lastRekey := by
  have hcount : ¬ (self.count : Int) ≥ self.maxMessages := fun hc => h (by simp [isDue, hc])
  have htime : ¬ self.clock self.reads - self.lastRekey ≥ self.maxSeconds :=
    fun ht => h (by simp [isDue, ht])
  simp only [afterEncrypt, if_neg h, afterDue, if_neg hcount, afterNote]
  exact ⟨trivial, Int.not_le.mp hcount, trivial, htime⟩

/-- What never changes. -/
theorem afterEncrypt_config (self : RekeyPolicy T) :
    self.afterEncrypt.maxMessages = self.maxMessages ∧
      self.afterEncrypt.maxSeconds = self.maxSeconds ∧ self.afterEncrypt.clock = self.clock := by
  unfold afterEncrypt afterDue
  split_ifs <;> exact ⟨rfl, rfl, rfl⟩

end RekeyPolicy

end SecureWs
