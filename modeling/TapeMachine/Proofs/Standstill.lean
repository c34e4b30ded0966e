/-
**Where a machine comes to a standstill, and how it gets there.**

A machine can come to a standstill in three ways: it has halted, its head is off its tape, or a run
of it has found the cap reached.  In the first two neither a step nor a run does anything any more.
A run consults the cap before it takes a step, but it gives up there only where the step would go on,
so the cap has no say in them.  In the third the machine would still step, and only a run does
nothing.  In each of them the answers are repeated for ever (`Machine.Repeats`).

What all three share is that a round that ends a run leaves a machine whose next round ends in the
same way (`Machine.round_of_ended`).  For the same reason it does not matter whether a machine is run
at once or first told to take some steps, whatever these come to, provided that they do not go past
the cap: a step that goes on is a round of the run, and one that does not go on is its last round,
which the run then takes once more (`Machine.ends_step_iff`).

Main definitions:

* `TapeMachine.Machine.Repeats` — the machine repeats its answers and stays as it is;
* `TapeMachine.Machine.Rests` — neither a step nor a round of a run changes the machine.

Main results:

* `TapeMachine.Machine.round_of_ended` — where a run has ended it ends again;
* `TapeMachine.Machine.Rests.repeats` — a machine at rest repeats its answers;
* `TapeMachine.Machine.terminal_absorbs` — **a machine at a standstill stays there**;
* `TapeMachine.Machine.steps_then_run` — **stepping first and running then comes to the same**.
-/

import TapeMachine.Catalogue
import TapeMachine.Proofs.Session
import TapeMachine.Proofs.StepCap

set_option relaxedAutoImplicit false
set_option autoImplicit false

namespace TapeMachine

namespace Machine

variable {m f : Machine}

/-! ### Machines that stay as they are -/

/-- Told to do the given operations, as often as one likes and in whatever order, the machine
repeats its answer to each of them and stays as it is. -/
def Repeats (m : Machine) (allowed : List Operation) (answer : Operation → Answer) : Prop :=
  ∀ ops : List Operation, (∀ op ∈ ops, op ∈ allowed) → ∀ log f,
    m.Performs ops log f ↔ f = m ∧ log = ops.map fun op => (answer op, m.view)

/-- A step comes to `stepped`, a run ends in its first round with `ran`, and the machine stays as it
is. -/
structure Rests (m : Machine) (stepped : Except Error Step) (ran : Except Error Outcome) :
    Prop where
  step : m.step = (stepped, m)
  round : m.round = .ended ran m

theorem repeats_of_answers {allowed : List Operation} {answer : Operation → Answer}
    (h : ∀ op ∈ allowed, m.Answers op (answer op) m) : m.Repeats allowed answer := by
  intro ops hops log f
  refine performs_iff_of_stays ?_
  intro op hop
  exact h op (hops op hop)

/-- Where a round ends the run and leaves the machine as it is, a run in any form does. -/
theorem answers_of_round {ran : Except Error Outcome} (h : m.round = .ended ran m)
    (stepped : Except Error Step) {op : Operation} (hop : op ∈ [.run, .simulate, .execute]) :
    m.Answers op (op.answer stepped ran) m := by
  have hrun : m.runFor 1 = .ended ran m := by rw [runFor_succ, h, resume]
  cases op with
  | run => exact .run hrun
  | simulate => exact .simulate (Progress.map_eq_ended_iff.2 ⟨ran, hrun, rfl⟩)
  | execute => exact .execute (Progress.map_eq_ended_iff.2 ⟨ran, hrun, rfl⟩)
  | step | reset => exact absurd hop (by decide)

namespace Rests

variable {stepped : Except Error Step} {ran : Except Error Outcome}

theorem answers_step (h : m.Rests stepped ran) : m.Answers .step (.stepped stepped) m := by
  have hanswers := Answers.step (m := m)
  rwa [h.step] at hanswers

/-- **A machine at rest repeats its answers.** -/
theorem repeats (h : m.Rests stepped ran) :
    m.Repeats [.step, .run, .simulate, .execute] (Operation.answer stepped ran) := by
  refine repeats_of_answers ?_
  intro op hop
  rcases List.mem_cons.1 hop with rfl | hform
  · exact h.answers_step
  · exact answers_of_round h.round stepped hform

end Rests

/-- A machine that has halted is at rest, wherever its count stands in relation to the cap. -/
theorem rests_of_halted {verdict : Halt} (h : m.halted = some verdict) :
    m.Rests (.ok (.halt verdict)) (.ok (m.outcome verdict)) :=
  ⟨step_of_halted h, round_of_halted h⟩

/-- A machine off its tape is at rest. -/
theorem rests_of_error {e : Error} (h : m.step.1 = .error e) :
    m.Rests (.error e) (.error e) := by
  obtain ⟨-, hsame⟩ := step_of_error h
  have hround := round_of_error (exceeded?_of_not_continue (by simp [h])) h
  rw [hsame] at hround
  exact ⟨Prod.ext h hsame, hround⟩

/-! ### Where a run has ended -/

/-- **Where a run has ended it ends again**, at once and in the same way. -/
theorem round_of_ended {result : Except Error Outcome} (h : m.round = .ended result f) :
    f.round = .ended result f := by
  cases result with
  | ok o =>
      obtain ⟨hhalted, ho⟩ := halted_of_round h
      have hround := round_of_halted hhalted
      rwa [← ho] at hround
  | error e =>
      -- it is the round that failed once more
      obtain rfl := eq_of_round_error h
      exact h

theorem Ends.round {result : Except Error Outcome} (h : m.Ends result f) :
    f.round = .ended result f := by
  obtain ⟨n, hrun⟩ := h
  obtain ⟨k, -, -, hround⟩ := exists_round_of_runFor hrun
  exact round_of_ended hround

/-- **A machine at a standstill stays there.**  Let it be told to step and to run in any form, as
often as one likes.  If it has halted, each step gives its verdict and each run what there is to
see of it; if a step has failed since the head is off the tape, each step and each run fails in the
same way; and if a run has given up at the cap, each run gives up there at once.  Nothing of the
machine is changed. -/
theorem terminal_absorbs (m : Machine) :
    (∀ verdict, m.halted = some verdict →
        m.Repeats [.step, .run, .simulate, .execute]
          (Operation.answer (.ok (.halt verdict)) (.ok (m.outcome verdict)))) ∧
      (∀ index length, m.step.1 = .error (.indexOutOfRange index length) →
        m.step.2 = m ∧
          m.Repeats [.step, .run, .simulate, .execute]
            (Operation.answer (.error (.indexOutOfRange index length))
              (.error (.indexOutOfRange index length)))) ∧
      ∀ limit f, m.Ends (.error (.stepLimitExceeded limit)) f →
        f.runFor 1 = .ended (.error (.stepLimitExceeded limit)) f ∧
          f.Repeats [.run, .simulate, .execute]
            (Operation.answer (.ok .continue) (.error (.stepLimitExceeded limit))) := by
  refine ⟨?_, ?_, ?_⟩
  · intro verdict hhalted
    exact (rests_of_halted hhalted).repeats
  · intro index length hfail
    exact ⟨(step_of_error hfail).2, (rests_of_error hfail).repeats⟩
  · intro limit f hends
    have hround := hends.round
    refine ⟨by rw [runFor_succ, hround, resume], repeats_of_answers ?_⟩
    intro op hop
    exact answers_of_round hround _ hop

/-- Three steps have accepted two ones past a cap of one, a head is off its tape to the left, and a
run is cut off after the first cell: what each of these machines is told does nothing any more. -/
theorem terminal_absorbs_past_the_cap :
    (∃ past m, Reaches ((Catalogue.evenOnes.withInput "11").withMaxSteps 1) past m ∧
      m.halted = some .accept ∧ m.steps = 3 ∧
      m.Performs [.run, .step]
        [(.ran (.ok ⟨.accept, "accept", "11", 3⟩), m.view),
          (.stepped (.ok (.halt .accept)), m.view)] m) ∧
    (∃ past m, Reaches (Description.build
        ⟨"left", ["q", "accept", "reject"], [], [⟨"q", '_', "q", '_', .left⟩], "q", "accept",
          "reject", '_', none⟩ "") past m ∧
      m.step.1 = .error (.indexOutOfRange (-1) 2) ∧
      m.Performs [.step, .execute]
        [(.stepped (.error (.indexOutOfRange (-1) 2)), m.view),
          (.executed (.error (.indexOutOfRange (-1) 2)), m.view)] m) ∧
    ∃ m f, Machine.new ((Catalogue.invert.withInput "1").withMaxSteps 1) = .ok m ∧
      m.Ends (.error (.stepLimitExceeded 1)) f ∧
      f.Performs [.simulate, .run]
        [(.simulated (.error (.stepLimitExceeded 1)), f.view),
          (.ran (.error (.stepLimitExceeded 1)), f.view)] f := by
  refine ⟨?_, ?_, ?_⟩
  · have hmade : Machine.new ((Catalogue.evenOnes.withInput "11").withMaxSteps 1) =
        .ok (initial ((Catalogue.evenOnes.withInput "11").withMaxSteps 1) "even") := rfl
    have hpassed : Reaches ((Catalogue.evenOnes.withInput "11").withMaxSteps 1) _ _ :=
      .made hmade (.step (.step (.step .refl)))
    refine ⟨_, _, hpassed, rfl, rfl, ?_⟩
    refine ((terminal_absorbs _).1 .accept ?_ [.run, .step] (by decide) _ _).2 ⟨rfl, rfl⟩
    rfl
  · have hmade : Machine.new (Description.build
        ⟨"left", ["q", "accept", "reject"], [], [⟨"q", '_', "q", '_', .left⟩], "q", "accept",
          "reject", '_', none⟩ "") = .ok (initial _ "q") := rfl
    have hoff : Reaches _ _ _ := .made hmade (.step (.step .refl))
    refine ⟨_, _, hoff, rfl, ?_⟩
    refine (((terminal_absorbs _).2.1 (-1) 2 ?_).2 [.step, .execute] (by decide) _ _).2 ⟨rfl, rfl⟩
    rfl
  · have hmade : Machine.new ((Catalogue.invert.withInput "1").withMaxSteps 1) =
        .ok (initial ((Catalogue.invert.withInput "1").withMaxSteps 1) "scan") := rfl
    have hcut : (initial ((Catalogue.invert.withInput "1").withMaxSteps 1) "scan").Ends
        (.error (.stepLimitExceeded 1)) _ := ⟨2, rfl⟩
    obtain ⟨-, hrepeats⟩ := (terminal_absorbs _).2.2 1 _ hcut
    exact ⟨_, _, hmade, hcut, (hrepeats [.simulate, .run] (by decide) _ _).2 ⟨rfl, rfl⟩⟩

/-! ### Steps before a run -/

/-- **A step first, and then the run, comes to the same as the run**, unless the cap is reached. -/
theorem ends_step_iff (hcap : ∀ limit, m.program.maxSteps = some limit → m.steps < limit)
    {result : Except Error Outcome} : m.Ends result f ↔ m.step.2.Ends result f := by
  by_cases hgo : m.step.1 = .ok .continue
  · -- the step is the first round of the run
    have hround := round_of_continue (exceeded?_of_cap hcap) hgo
    constructor
    · rintro ⟨n, hrun⟩
      cases n with
      | zero => exact nomatch hrun
      | succ n =>
          rw [runFor_succ, hround] at hrun
          exact ⟨n, hrun⟩
    · rintro ⟨n, hrun⟩
      refine ⟨n + 1, ?_⟩
      rw [runFor_succ, hround]
      exact hrun
  · -- the step is the only round of the run, and where it leads it ends once more
    obtain ⟨result', hround, -⟩ := round_of_stop hgo none
    have hends : m.Ends result' m.step.2 := ⟨1, by rw [runFor_succ, hround, resume]⟩
    have hagain : m.step.2.Ends result' m.step.2 :=
      ⟨1, by rw [runFor_succ, round_of_ended hround, resume]⟩
    constructor
    · intro h
      obtain ⟨rfl, rfl⟩ := h.unique hends
      exact hagain
    · intro h
      obtain ⟨rfl, rfl⟩ := h.unique hagain
      exact hends

theorem program_after (m : Machine) (n : Nat) : (m.after n).program = m.program := by
  induction n with
  | zero => rfl
  | succ n ih => rw [after_succ, (step_frame _).1, ih]

theorem steps_after_le (m : Machine) (n : Nat) : (m.after n).steps ≤ m.steps + n := by
  induction n with
  | zero => exact Nat.le_refl _
  | succ n ih =>
      rw [after_succ]
      by_cases hgo : (m.after n).step.1 = .ok .continue
      · have hcount := steps_step_of_continue hgo
        omega
      · have hcount := (step_idle hgo).2.2
        omega

/-- **Stepping first and running then comes to the same as running at once**, whatever the steps
come to, if there are not more of them than the cap leaves: one of the two runs ends exactly where
the other does, with the same result, and leaves the same machine. -/
theorem steps_then_run (m : Machine) {k : Nat}
    (hcap : ∀ limit, m.program.maxSteps = some limit → m.steps + k ≤ limit) {j : Nat} (hj : j ≤ k)
    (result : Except Error Outcome) (f : Machine) :
    m.Ends result f ↔ (m.after j).Ends result f := by
  induction j with
  | zero => rw [after_zero]
  | succ j ih =>
      rw [ih (by omega), after_succ]
      refine ends_step_iff ?_
      intro limit hlimit
      rw [program_after] at hlimit
      have hleft := hcap limit hlimit
      have hcount := steps_after_le m j
      omega

/-- The second step rejects an odd number of ones and the third one finds them rejected, and a run
comes to the same with the three and without them; and it is cut off in the same place with the
step that the cap leaves and without it. -/
theorem steps_then_run_past_the_end :
    (∃ m f, Machine.new ((Catalogue.evenOnes.withInput "1").withMaxSteps 3) = .ok m ∧
      (m.after 1).step.1 = .ok (.halt .reject) ∧ (m.after 2).step.1 = .ok (.halt .reject) ∧
      m.Ends (.ok ⟨.reject, "reject", "1", 1⟩) f ∧
      (m.after 3).Ends (.ok ⟨.reject, "reject", "1", 1⟩) f) ∧
    ∃ m f, Machine.new ((Catalogue.invert.withInput "1").withMaxSteps 1) = .ok m ∧
      m.Ends (.error (.stepLimitExceeded 1)) f ∧
      (m.after 1).Ends (.error (.stepLimitExceeded 1)) f := by
  constructor
  · have hmade : Machine.new ((Catalogue.evenOnes.withInput "1").withMaxSteps 3) =
        .ok (initial ((Catalogue.evenOnes.withInput "1").withMaxSteps 3) "even") := rfl
    have hends : (initial ((Catalogue.evenOnes.withInput "1").withMaxSteps 3) "even").Ends
        (.ok ⟨.reject, "reject", "1", 1⟩) _ := ⟨2, rfl⟩
    have hcap : ∀ limit, some 3 = some limit → 0 + 3 ≤ limit := by
      rintro limit ⟨rfl⟩
      exact Nat.le_refl 3
    exact ⟨_, _, hmade, rfl, rfl, hends,
      (steps_then_run _ hcap (Nat.le_refl 3) _ _).1 hends⟩
  · have hmade : Machine.new ((Catalogue.invert.withInput "1").withMaxSteps 1) =
        .ok (initial ((Catalogue.invert.withInput "1").withMaxSteps 1) "scan") := rfl
    have hcut : (initial ((Catalogue.invert.withInput "1").withMaxSteps 1) "scan").Ends
        (.error (.stepLimitExceeded 1)) _ := ⟨2, rfl⟩
    have hcap : ∀ limit, some 1 = some limit → 0 + 1 ≤ limit := by
      rintro limit ⟨rfl⟩
      exact Nat.le_refl 1
    exact ⟨_, _, hmade, hcut, (steps_then_run _ hcap (Nat.le_refl 1) _ _).1 hcut⟩

-- with a step past the cap it is another run: this one accepts
example :
    let m := initial ((Catalogue.invert.withInput "1").withMaxSteps 1) "scan"
    m.Ends (.error (.stepLimitExceeded 1)) (m.after 1) ∧
      (m.after 2).Ends (.ok ⟨.accept, "done", "0__", 2⟩) (m.after 2) :=
  ⟨⟨2, rfl⟩, ⟨1, rfl⟩⟩

end Machine

end TapeMachine
