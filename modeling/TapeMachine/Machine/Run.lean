/-
**Running a machine until it halts.**

A run takes one round after another: a round fails when the program has a cap on its transitions,
the cap is reached and a further rule would apply; otherwise it takes a step, and the run ends
with it unless the step continues.  Since a machine need not halt, a run is described by the
number of rounds it may take, and what is left undone is carried on with further rounds
(`runFor_add`).

Main definitions:

* `TapeMachine.Progress` — where a run stands: still running, or ended with a result;
* `TapeMachine.Machine.round` — one round;
* `TapeMachine.Machine.runFor` — a run of at most so many rounds;
* `TapeMachine.Machine.Ends` — the result and last machine of a run, if it ends at all;
* `TapeMachine.Machine.runEventsFor` — what is reported in a run of at most so many rounds.

Main results:

* `TapeMachine.Progress.map_eq_ended_iff` — a run in another form ends where the run does;
* `TapeMachine.Machine.runFor_add` — a run can be interrupted and carried on;
* `TapeMachine.Machine.Ends.unique` — a run ends in one way only.
-/

import TapeMachine.Machine

set_option relaxedAutoImplicit false
set_option autoImplicit false

namespace TapeMachine

/-- Where a run stands. -/
inductive Progress (α : Type) where
  /-- The run goes on from the machine. -/
  | running (m : Machine)
  /-- The run has ended with the result and left the machine. -/
  | ended (result : Except Error α) (m : Machine)
  deriving Repr

namespace Progress

variable {α β : Type}

/-- The progress with another form of the result. -/
def map (f : α → β) : Progress α → Progress β
  | running m => running m
  | ended result m => ended (result.map f) m

/-- The machine where the run stands. -/
def machine : Progress α → Machine
  | running m => m
  | ended _ m => m

/-- A run in another form has ended exactly where the run has. -/
theorem map_eq_ended_iff {f : α → β} {progress : Progress α} {result : Except Error β}
    {m : Machine} :
    progress.map f = .ended result m ↔
      ∃ result', progress = .ended result' m ∧ result = result'.map f := by
  cases progress with
  | running m₁ =>
      constructor
      · intro h
        exact nomatch h
      · rintro ⟨result', h, -⟩
        exact nomatch h
  | ended result₁ m₁ =>
      constructor
      · intro h
        obtain ⟨rfl, rfl⟩ := Progress.ended.inj h
        exact ⟨result₁, rfl, rfl⟩
      · rintro ⟨result', h, rfl⟩
        obtain ⟨rfl, rfl⟩ := Progress.ended.inj h
        rfl

end Progress

namespace Machine

/-! ### Rounds -/

/-- The cap on transitions, if it is reached and a further rule would apply. -/
def exceeded? (m : Machine) : Option Nat :=
  match m.program.maxSteps with
  | none => none
  | some limit => if limit ≤ m.steps ∧ m.hasTransition = true then some limit else none

/-- One round of a run. -/
def round (m : Machine) : Progress Outcome :=
  match m.exceeded? with
  | some limit => .ended (.error (.stepLimitExceeded limit)) m
  | none =>
      match m.step with
      | (.error e, m') => .ended (.error e) m'
      | (.ok .continue, m') => .running m'
      | (.ok (.halt verdict), m') => .ended (.ok (m'.outcome verdict)) m'

/-- A run of at most `n` rounds. -/
def runFor : Nat → Machine → Progress Outcome
  | 0, m => .running m
  | n + 1, m =>
      match m.round with
      | .running m' => runFor n m'
      | .ended result m' => .ended result m'

/-- The tape that a run of at most `n` rounds leaves. -/
def simulateFor (n : Nat) (m : Machine) : Progress String := (m.runFor n).map Outcome.tape

/-- The tape and the state that a run of at most `n` rounds leaves. -/
def executeFor (n : Nat) (m : Machine) : Progress (String × String) :=
  (m.runFor n).map fun outcome => (outcome.tape, outcome.state)

/-- A run from `m` ends with the result and leaves `m'`. -/
def Ends (m : Machine) (result : Except Error Outcome) (m' : Machine) : Prop :=
  ∃ n, m.runFor n = .ended result m'

/-! ### Reports -/

/-- What is reported in one round. -/
def roundEvents (m : Machine) : List Event :=
  match m.exceeded? with
  | some limit => [.limitExceeded m.program.name limit]
  | none =>
      m.stepEvents ++
        match m.step with
        | (.ok (.halt verdict), m') => [.halted m'.program.name verdict m'.state m'.steps]
        | _ => []

/-- What is reported in a run of at most `n` rounds. -/
def runEventsFor : Nat → Machine → List Event
  | 0, _ => []
  | n + 1, m =>
      m.roundEvents ++
        match m.round with
        | .running m' => runEventsFor n m'
        | .ended _ _ => []

/-! ### Carrying on -/

/-- The run carried on for at most `n` further rounds. -/
def resume (n : Nat) : Progress Outcome → Progress Outcome
  | .running m => m.runFor n
  | .ended result m => .ended result m

@[simp] theorem runFor_zero (m : Machine) : m.runFor 0 = .running m := rfl

theorem runFor_succ (n : Nat) (m : Machine) : m.runFor (n + 1) = resume n m.round := by
  rw [runFor]
  cases m.round <;> rfl

/-- **A run can be interrupted and carried on.** -/
theorem runFor_add (n k : Nat) (m : Machine) : m.runFor (n + k) = resume k (m.runFor n) := by
  induction n generalizing m with
  | zero => rw [Nat.zero_add, runFor_zero, resume]
  | succ n ih =>
      rw [Nat.add_right_comm, runFor_succ, runFor_succ]
      cases m.round with
      | running m' => exact ih m'
      | ended result m' => rfl

/-- A run that has ended stays as it is. -/
theorem runFor_of_le {n k : Nat} {m m' : Machine} {result : Except Error Outcome}
    (h : m.runFor n = .ended result m') (hle : n ≤ k) : m.runFor k = .ended result m' := by
  obtain ⟨d, rfl⟩ := Nat.exists_eq_add_of_le hle
  rw [runFor_add, h, resume]

/-- **A run ends in one way only.** -/
theorem Ends.unique {m m₁ m₂ : Machine} {r₁ r₂ : Except Error Outcome} (h₁ : m.Ends r₁ m₁)
    (h₂ : m.Ends r₂ m₂) : r₁ = r₂ ∧ m₁ = m₂ := by
  obtain ⟨n₁, h₁⟩ := h₁
  obtain ⟨n₂, h₂⟩ := h₂
  have h := (runFor_of_le h₁ (Nat.le_max_left n₁ n₂)).symm.trans
    (runFor_of_le h₂ (Nat.le_max_right n₁ n₂))
  exact ⟨(Progress.ended.inj h).1, (Progress.ended.inj h).2⟩

end Machine

end TapeMachine
