import SecureWs.Lib.Runs

/-!
# SecureWs.Lib.Durable

A store in the memory of a process that can die at any time, and its copy on disk.

* `Machine`: calls change the store, `save` overwrites the copy, and `tear` is
  what is on disk after a `save` that was cut short; `step` and `run` are the life
  of the process over its restarts;
* `Sound` is what is asked of the store and of the disk;
* `saved_survives`: what a store says when it is saved, every later store says;
* `memory_of_torn`: where a crash leaves a copy that cannot be read, the process
  stays down.
-/

namespace Durable

/-- A store with its calls, and how it is written and read. -/
structure Machine (S D C : Type) where
  call : S → C → S
  save : S → D → D
  /-- what is on disk when a `save` was cut short after that much -/
  tear : Nat → D → D
  load : D → Option S

/-- The store, while the process runs, and the disk. -/
structure State (S D : Type) where
  memory : Option S
  disk : D

/-- What happens to the process.  It dies of a crash in the middle of a `save`, or
it stops between two calls; when it starts again, it loads the copy. -/
inductive Event (C : Type) where
  | call (c : C)
  | save
  | crash (count : Nat)
  | stop
  | restart

variable {S D C A : Type}

/-- One event.  Without a process, nothing is called and nothing is saved; and a
process that cannot load the copy does not start. -/
def step (M : Machine S D C) (s : State S D) : Event C → State S D
  | .call c => { s with memory := s.memory.map fun store => M.call store c }
  | .save => match s.memory with
      | some store => { s with disk := M.save store s.disk }
      | none => s
  | .crash count => match s.memory with
      | some store => ⟨none, M.tear count (M.save store s.disk)⟩
      | none => s
  | .stop => { s with memory := none }
  | .restart => { s with memory := M.load s.disk }

def run (M : Machine S D C) (s : State S D) (events : List (Event C)) : State S D :=
  events.foldl (step M) s

/-- The calls of an event satisfy `P`. -/
def Event.Calls (P : C → Prop) : Event C → Prop
  | .call c => P c
  | _ => True

/-- What is asked of a machine whose calls satisfy `P`: they keep stores valid, and
keep what `facts` lists of them; a valid store is read back from its copy; and a
copy that was cut short is the whole copy, or cannot be read. -/
structure Machine.Sound (M : Machine S D C) (Valid : S → Prop) (P : C → Prop) (facts : S → Set A) :
    Prop where
  valid_call : ∀ store c, Valid store → P c → Valid (M.call store c)
  facts_call : ∀ store c, P c → facts store ⊆ facts (M.call store c)
  load_save : ∀ store disk, Valid store → M.load (M.save store disk) = some store
  load_tear : ∀ store disk count, Valid store →
    M.load (M.tear count (M.save store disk)) = some store ∨
      M.load (M.tear count (M.save store disk)) = none

/-- The store in memory and the one on disk, as far as there are any, are valid and
say at least `known`. -/
structure Holds (M : Machine S D C) (Valid : S → Prop) (facts : S → Set A) (known : Set A)
    (s : State S D) : Prop where
  memory : ∀ store, s.memory = some store → Valid store ∧ known ⊆ facts store
  disk : ∀ store, M.load s.disk = some store → Valid store ∧ known ⊆ facts store

namespace Holds

variable {M : Machine S D C} {Valid : S → Prop} {P : C → Prop} {facts : S → Set A} {known : Set A}
  {s : State S D}

/-- One event keeps what both stores say. -/
theorem step (h : Holds M Valid facts known s) (hM : M.Sound Valid P facts) {event : Event C}
    (hevent : event.Calls P) : Holds M Valid facts known (step M s event) := by
  cases event with
  | call c =>
      refine ⟨fun store hstore => ?_, h.disk⟩
      obtain ⟨before, hbefore, rfl⟩ := Option.map_eq_some_iff.mp hstore
      obtain ⟨hvalid, hknown⟩ := h.memory before hbefore
      exact ⟨hM.valid_call before c hvalid hevent, hknown.trans (hM.facts_call before c hevent)⟩
  | save =>
      unfold Durable.step
      cases hmemory : s.memory with
      | none => exact h
      | some store =>
          obtain ⟨hvalid, hknown⟩ := h.memory store hmemory
          refine ⟨fun other hother => h.memory other (hmemory.trans hother), fun other hother => ?_⟩
          obtain rfl := Option.some.inj ((hM.load_save store s.disk hvalid).symm.trans hother)
          exact ⟨hvalid, hknown⟩
  | crash count =>
      unfold Durable.step
      cases hmemory : s.memory with
      | none => exact h
      | some store =>
          obtain ⟨hvalid, hknown⟩ := h.memory store hmemory
          refine ⟨fun other hother => (by cases hother), fun other hother => ?_⟩
          obtain hwhole | htorn := hM.load_tear store s.disk count hvalid
          · obtain rfl := Option.some.inj (hwhole.symm.trans hother)
            exact ⟨hvalid, hknown⟩
          · cases htorn.symm.trans hother
  | stop => exact ⟨fun store hstore => (by cases hstore), h.disk⟩
  | restart => exact ⟨h.disk, h.disk⟩

theorem run (h : Holds M Valid facts known s) (hM : M.Sound Valid P facts) {events : List (Event C)}
    (hevents : ∀ event ∈ events, event.Calls P) :
    Holds M Valid facts known (run M s events) := by
  induction events generalizing s with
  | nil => exact h
  | cons event events ih =>
      obtain ⟨hevent, hrest⟩ := List.forall_mem_cons.mp hevents
      exact ih (h.step hM hevent) hrest

/-- After a `save`, both stores say all that the store in memory says. -/
theorem save (h : Holds M Valid facts known s) (hM : M.Sound Valid P facts) {store : S}
    (hmemory : s.memory = some store) :
    Holds M Valid facts (facts store) (Durable.step M s .save) := by
  have hvalid := (h.memory store hmemory).1
  simp only [Durable.step, hmemory]
  constructor
  · intro other hother
    obtain rfl := Option.some.inj hother
    exact ⟨hvalid, subset_rfl⟩
  · intro other hother
    obtain rfl := Option.some.inj ((hM.load_save store s.disk hvalid).symm.trans hother)
    exact ⟨hvalid, subset_rfl⟩

end Holds

section

variable {M : Machine S D C} {Valid : S → Prop} {P : C → Prop} {facts : S → Set A} {s : State S D}

/-- **What is saved survives.**  Whatever a store says when it is saved, the store
of every later process says, after any number of calls, crashes and restarts. -/
theorem saved_survives (hM : M.Sound Valid P facts) (hmemory : s.memory = none)
    (hdisk : ∀ store, M.load s.disk = some store → Valid store) {before after : List (Event C)}
    (hbefore : ∀ event ∈ before, event.Calls P) (hafter : ∀ event ∈ after, event.Calls P)
    {store later : S} (hstore : (run M s before).memory = some store)
    (hlater : (run M s (before ++ .save :: after)).memory = some later) :
    facts store ⊆ facts later := by
  have hstart : Holds M Valid facts ∅ s := by
    refine ⟨fun other hother => ?_, fun other hother => ⟨hdisk other hother, Set.empty_subset _⟩⟩
    cases hmemory.symm.trans hother
  have hsaved := ((hstart.run hM hbefore).save hM hstore).run hM hafter
  rw [run, List.foldl_append, List.foldl_cons] at hlater
  exact (hsaved.memory later hlater).2

/-- A process that has no copy to load does not start again. -/
theorem memory_of_down (hmemory : s.memory = none) (hdisk : M.load s.disk = none)
    (events : List (Event C)) : (run M s events).memory = none := by
  suffices hdown : (run M s events).memory = none ∧ M.load (run M s events).disk = none from hdown.1
  induction events generalizing s with
  | nil => exact ⟨hmemory, hdisk⟩
  | cons event events ih =>
      refine ih ?_ ?_
      · cases event with
        | call c => simp [step, hmemory]
        | restart => exact hdisk
        | _ => simp [step, hmemory]
      · cases event with
        | save => simpa [step, hmemory] using hdisk
        | crash count => simpa [step, hmemory] using hdisk
        | _ => exact hdisk

/-- **A torn copy is never taken for another**: when a crash has left a copy on
which the process does not start, it never starts again. -/
theorem memory_of_torn {before : List (Event C)} {store : S} {count : Nat}
    (hstore : (run M s before).memory = some store)
    (hdown : (run M s (before ++ [.crash count, .restart])).memory = none) (after : List (Event C)) :
    (run M s (before ++ .crash count :: after)).memory = none := by
  rw [run, List.foldl_append] at hdown ⊢
  rw [run] at hstore
  generalize List.foldl _ _ before = u at hstore hdown
  simp only [List.foldl_cons, List.foldl_nil, step, hstore] at hdown ⊢
  exact memory_of_down rfl hdown after

end

end Durable
