/-
**Two machines in lock step.**

Sometimes two machines go side by side: one has other names, or more blanks at the end of its tape,
or its rules in another order, and a relation between the two is kept by every step.  If the related
machines have one cap and one count, and a step comes to the same in both, then a run of the one is
a run of the other.  Neither ends before the other does, and in the end they are related still, so
that what one of them leaves to see can be told from the other.

Main definitions:

* `TapeMachine.Machine.LockStep` — a relation that is kept by steps which come to the same;
* `TapeMachine.Progress.Paired` — two runs that stand in the same place, or have ended alike.

Main results:

* `TapeMachine.Machine.LockStep.after` — any number of steps keeps the relation;
* `TapeMachine.Machine.LockStep.round`, `TapeMachine.Machine.LockStep.runFor` — **a run of the one
  is a run of the other**.
-/

import TapeMachine.Proofs.Reachable

set_option relaxedAutoImplicit false
set_option autoImplicit false

namespace TapeMachine

/-- The two runs stand at related machines, or they have ended there, with one error or with one
verdict. -/
inductive Progress.Paired (R : Machine → Machine → Prop) :
    Progress Outcome → Progress Outcome → Prop
  | running {m m' : Machine} : R m m' → Progress.Paired R (.running m) (.running m')
  | failed {m m' : Machine} (e : Error) :
      R m m' → Progress.Paired R (.ended (.error e) m) (.ended (.error e) m')
  | halted {m m' : Machine} (verdict : Halt) :
      R m m' → Progress.Paired R (.ended (.ok (m.outcome verdict)) m)
        (.ended (.ok (m'.outcome verdict)) m')

namespace Machine

/-- Related machines have one cap and one count, and a step comes to the same in both and keeps the
relation. -/
structure LockStep (R : Machine → Machine → Prop) : Prop where
  cap : ∀ {m m'}, R m m' → m'.program.maxSteps = m.program.maxSteps
  steps : ∀ {m m'}, R m m' → m'.steps = m.steps
  step_fst : ∀ {m m'}, R m m' → m'.step.1 = m.step.1
  step_snd : ∀ {m m'}, R m m' → R m.step.2 m'.step.2

namespace LockStep

variable {R : Machine → Machine → Prop} {m m' : Machine}

/-- Any number of steps keeps the relation. -/
theorem after (hR : LockStep R) (h : R m m') (n : Nat) : R (m.after n) (m'.after n) := by
  induction n with
  | zero => exact h
  | succ n ih => exact hR.step_snd ih

/-- **A round of the one is a round of the other.** -/
theorem round (hR : LockStep R) (h : R m m') : Progress.Paired R m.round m'.round := by
  have hstep := hR.step_fst h
  have hnext := hR.step_snd h
  -- the cap is found to be reached in both or in neither
  have hexceeded : m'.exceeded? = m.exceeded? :=
    exceeded?_congr (hR.cap h) (hR.steps h) (by rw [hstep])
  rcases round_cases m with ⟨limit, hlimit, hround⟩ | ⟨hnone, hgo, hround⟩ |
    ⟨verdict, hnone, hhalt, hround⟩ | ⟨e, hnone, hfail, hround⟩
  · rw [hround, round_of_exceeded (hexceeded.trans hlimit)]
    exact .failed _ h
  · rw [hround, round_of_continue (hexceeded.trans hnone) (hstep.trans hgo)]
    exact .running hnext
  · rw [hround, round_of_halt (hexceeded.trans hnone) (hstep.trans hhalt)]
    exact .halted verdict hnext
  · rw [hround, round_of_error (hexceeded.trans hnone) (hstep.trans hfail)]
    exact .failed e hnext

/-- **A run of the one is a run of the other**, by induction on the rounds. -/
theorem runFor (hR : LockStep R) (h : R m m') (n : Nat) :
    Progress.Paired R (m.runFor n) (m'.runFor n) := by
  induction n generalizing m m' with
  | zero => exact .running h
  | succ n ih =>
      have hpaired := hR.round h
      rw [runFor_succ, runFor_succ]
      generalize m.round = progress, m'.round = progress' at hpaired ⊢
      cases hpaired with
      | running hnext => exact ih hnext
      | failed e hlast => exact .failed e hlast
      | halted verdict hlast => exact .halted verdict hlast

end LockStep

end Machine

end TapeMachine
