/-
**The machines that can be reached.**

A machine is made for a program and then told to step, to run in one of three forms, or to begin
anew.  What is reached in this way is described in two layers: `Advances` says where stepping and
running lead from a given machine, and `Reaches` lets the machine begin anew any number of times.
Both keep the machines in which a rule was carried out, from the first to the last, since the
machine was made or last began anew.  A run that does not end leads nowhere, but its machines are
reached all the same, step by step.

A run only ever steps, so a property of the trail and the machine that one step keeps is kept by
whatever a machine is told (`Advances.induction`); and since beginning anew gives back the fresh
machine (`Reaches.new_reset`), nothing is reached that is not reached from the fresh machine
without beginning anew (`Reaches.exists_advances`).

Main definitions:

* `TapeMachine.Machine.after` — the machine after a number of steps, whatever they come to;
* `TapeMachine.Machine.stepTrail`, `TapeMachine.Machine.runTrail` — the machines in which a step,
  or a run, carries out a rule;
* `TapeMachine.Machine.Advances`, `TapeMachine.Machine.Reaches` — where a machine can get to.

Main results:

* `TapeMachine.Machine.round_cases` — the four things a round of a run can be;
* `TapeMachine.Machine.stepFor_cases` — several steps at once are steps in a row;
* `TapeMachine.Machine.Advances.induction` — what a step keeps is kept;
* `TapeMachine.Machine.Reaches.new_reset`, `TapeMachine.Machine.Reaches.exists_advances` —
  beginning anew adds nothing;
* `TapeMachine.Machine.Reaches.induction` — what a step keeps holds of whatever is reached.
-/

import TapeMachine.Machine.Run
import TapeMachine.Proofs.Transition

set_option relaxedAutoImplicit false
set_option autoImplicit false

namespace TapeMachine

namespace Machine

/-! ### Steps in a row -/

/-- The machine after `n` steps, whatever each of them comes to. -/
def after (m : Machine) : Nat → Machine
  | 0 => m
  | n + 1 => (m.after n).step.2

@[simp] theorem after_zero (m : Machine) : m.after 0 = m := rfl

theorem after_succ (m : Machine) (n : Nat) : m.after (n + 1) = (m.after n).step.2 := rfl

/-- The first step can be split off as well as the last. -/
theorem after_step (m : Machine) (n : Nat) : m.step.2.after n = m.after (n + 1) := by
  induction n with
  | zero => rfl
  | succ n ih => rw [after_succ, ih, after_succ m (n + 1)]

/-- Steps in a row can be taken in two parts. -/
theorem after_add (m : Machine) (n k : Nat) : (m.after n).after k = m.after (n + k) := by
  induction k with
  | zero => rfl
  | succ k ih => rw [after_succ, ih, ← Nat.add_assoc, after_succ]

/-! ### Rounds -/

theorem exceeded?_eq_some_iff {m : Machine} {limit : Nat} :
    m.exceeded? = some limit ↔
      m.program.maxSteps = some limit ∧ limit ≤ m.steps ∧ m.step.1 = .ok .continue := by
  rw [exceeded?]
  cases hcap : m.program.maxSteps with
  | none => simp
  | some cap =>
      simp only [hasTransition_iff, Option.ite_none_right_eq_some, Option.some.injEq]
      constructor
      · rintro ⟨⟨hle, hgo⟩, rfl⟩
        exact ⟨rfl, hle, hgo⟩
      · rintro ⟨rfl, hle, hgo⟩
        exact ⟨⟨hle, hgo⟩, rfl⟩

/-- Whether the cap is found to be reached depends on the cap, the count and the next step. -/
theorem exceeded?_congr {m m' : Machine} (hcap : m'.program.maxSteps = m.program.maxSteps)
    (hsteps : m'.steps = m.steps)
    (hstep : m'.step.1 = .ok .continue ↔ m.step.1 = .ok .continue) :
    m'.exceeded? = m.exceeded? := by
  refine Option.ext ?_
  intro limit
  rw [exceeded?_eq_some_iff, exceeded?_eq_some_iff, hcap, hsteps, hstep]

/-- A run gives up only where the step would go on. -/
theorem exceeded?_of_not_continue {m : Machine} (h : m.step.1 ≠ .ok .continue) :
    m.exceeded? = none := by
  cases hexceeded : m.exceeded? with
  | none => rfl
  | some limit => exact absurd (exceeded?_eq_some_iff.1 hexceeded).2.2 h

theorem round_of_exceeded {m : Machine} {limit : Nat} (h : m.exceeded? = some limit) :
    m.round = .ended (.error (.stepLimitExceeded limit)) m := by
  rw [round, h]

theorem round_of_continue {m : Machine} (h : m.exceeded? = none)
    (hstep : m.step.1 = .ok .continue) : m.round = .running m.step.2 := by
  rcases hpair : m.step with ⟨result, m'⟩
  rw [hpair] at hstep
  obtain rfl : result = .ok .continue := hstep
  rw [round, h, hpair]

theorem round_of_halt {m : Machine} {verdict : Halt} (h : m.exceeded? = none)
    (hstep : m.step.1 = .ok (.halt verdict)) :
    m.round = .ended (.ok (m.step.2.outcome verdict)) m.step.2 := by
  rcases hpair : m.step with ⟨result, m'⟩
  rw [hpair] at hstep
  obtain rfl : result = .ok (.halt verdict) := hstep
  rw [round, h, hpair]

theorem round_of_error {m : Machine} {e : Error} (h : m.exceeded? = none)
    (hstep : m.step.1 = .error e) : m.round = .ended (.error e) m.step.2 := by
  rcases hpair : m.step with ⟨result, m'⟩
  rw [hpair] at hstep
  obtain rfl : result = .error e := hstep
  rw [round, h, hpair]

/-- **A round is one of four things**: the cap is found to be reached, or a step is taken that
goes on, halts, or fails. -/
theorem round_cases (m : Machine) :
    (∃ limit, m.exceeded? = some limit ∧
        m.round = .ended (.error (.stepLimitExceeded limit)) m) ∨
      (m.exceeded? = none ∧ m.step.1 = .ok .continue ∧ m.round = .running m.step.2) ∨
      (∃ verdict, m.exceeded? = none ∧ m.step.1 = .ok (.halt verdict) ∧
        m.round = .ended (.ok (m.step.2.outcome verdict)) m.step.2) ∨
      ∃ e, m.exceeded? = none ∧ m.step.1 = .error e ∧ m.round = .ended (.error e) m.step.2 := by
  cases hexceeded : m.exceeded? with
  | some limit => exact Or.inl ⟨limit, rfl, round_of_exceeded hexceeded⟩
  | none =>
      right
      rcases hstep : m.step.1 with e | (_ | verdict)
      · exact Or.inr (Or.inr ⟨e, rfl, rfl, round_of_error hexceeded hstep⟩)
      · exact Or.inl ⟨rfl, rfl, round_of_continue hexceeded hstep⟩
      · exact Or.inr (Or.inl ⟨verdict, rfl, rfl, round_of_halt hexceeded hstep⟩)

/-- A round of a machine that has halted ends the run with its verdict. -/
theorem round_of_halted {m : Machine} {verdict : Halt} (h : m.halted = some verdict) :
    m.round = .ended (.ok (m.outcome verdict)) m := by
  have hstep := step_of_halted h
  have hhalt : m.step.1 = .ok (.halt verdict) := by rw [hstep]
  have hround := round_of_halt (exceeded?_of_not_continue (by simp [hhalt])) hhalt
  rwa [hstep] at hround

/-- A round of a machine without a rule ends the run with its rejection. -/
theorem round_of_no_transition {m : Machine} {symbol : Char} (hhalted : m.halted = none)
    (hsymbol : m.symbol? = some symbol) (hrule : m.transition symbol = none) :
    m.round = .ended (.ok (m.rejected.outcome .reject)) m.rejected := by
  have hstep := step_of_no_transition hhalted hsymbol hrule
  have hhalt : m.step.1 = .ok (.halt .reject) := by rw [hstep]
  have hround := round_of_halt (exceeded?_of_not_continue (by simp [hhalt])) hhalt
  rwa [hstep] at hround

/-- **A round ends with an outcome in two ways only**: the machine has halted, or it has no rule. -/
theorem round_outcome_cases {m f : Machine} {o : Outcome} (h : m.round = .ended (.ok o) f) :
    (m.halted = some o.halt ∧ f = m ∧ o = m.outcome o.halt) ∨
      ∃ symbol, m.halted = none ∧ m.symbol? = some symbol ∧ m.transition symbol = none ∧
        f = m.rejected ∧ o = m.rejected.outcome .reject := by
  rcases step_cases m with ⟨verdict, hhalted, -⟩ | ⟨-, -, hstep⟩ |
    ⟨symbol, hhalted, hsymbol, hrule, -⟩ | ⟨symbol, rule, -, -, -, -, hstep⟩
  · rw [round_of_halted hhalted] at h
    obtain ⟨ho, rfl⟩ := Progress.ended.inj h
    obtain rfl := Except.ok.inj ho
    exact Or.inl ⟨hhalted, rfl, rfl⟩
  · have hfail : m.step.1 = .error (.indexOutOfRange m.head m.tape.length) := by rw [hstep]
    rw [round_of_error (exceeded?_of_not_continue (by simp [hfail])) hfail] at h
    exact nomatch (Progress.ended.inj h).1
  · rw [round_of_no_transition hhalted hsymbol hrule] at h
    obtain ⟨ho, rfl⟩ := Progress.ended.inj h
    exact Or.inr ⟨symbol, hhalted, hsymbol, hrule, rfl, (Except.ok.inj ho).symm⟩
  · have hgo : m.step.1 = .ok .continue := by rw [hstep]
    cases hexceeded : m.exceeded? with
    | none =>
        rw [round_of_continue hexceeded hgo] at h
        exact nomatch h
    | some limit =>
        rw [round_of_exceeded hexceeded] at h
        exact nomatch (Progress.ended.inj h).1

/-- A round that ends with an outcome leaves a machine that has halted, and shows what there is to
see of it. -/
theorem halted_of_round {m f : Machine} {o : Outcome} (h : m.round = .ended (.ok o) f) :
    f.halted = some o.halt ∧ o = f.outcome o.halt := by
  rcases round_outcome_cases h with ⟨hhalted, rfl, ho⟩ | ⟨symbol, -, -, -, rfl, rfl⟩
  · exact ⟨hhalted, ho⟩
  · exact ⟨halted_of_halt (halt_rejected m), rfl⟩

/-- A round that fails changes nothing. -/
theorem eq_of_round_error {m f : Machine} {e : Error} (h : m.round = .ended (.error e) f) :
    f = m := by
  rcases round_cases m with ⟨limit, -, hround⟩ | ⟨-, -, hround⟩ | ⟨verdict, -, -, hround⟩ |
    ⟨e', -, hfail, hround⟩
  · rw [hround] at h
    exact (Progress.ended.inj h).2.symm
  · rw [hround] at h
    exact nomatch h
  · rw [hround] at h
    exact nomatch (Progress.ended.inj h).1
  · rw [hround] at h
    exact (Progress.ended.inj h).2.symm.trans (step_of_error hfail).2

/-- A round that leaves the run going takes a step that goes on. -/
theorem continue_of_running {m m₁ : Machine} (h : m.round = .running m₁) :
    m.exceeded? = none ∧ m.step.1 = .ok .continue ∧ m₁ = m.step.2 := by
  rcases round_cases m with ⟨limit, -, hround⟩ | ⟨hexceeded, hgo, hround⟩ |
    ⟨verdict, -, -, hround⟩ | ⟨e, -, -, hround⟩
  · rw [hround] at h
    exact nomatch h
  · rw [hround] at h
    exact ⟨hexceeded, hgo, (Progress.running.inj h).symm⟩
  · rw [hround] at h
    exact nomatch h
  · rw [hround] at h
    exact nomatch h

/-- `n` steps in a row go on. -/
def Moves (m : Machine) (n : Nat) : Prop := ∀ i < n, (m.after i).step.1 = .ok .continue

theorem Moves.of_le {m : Machine} {n k : Nat} (h : m.Moves n) (hle : k ≤ n) : m.Moves k := by
  intro i hi
  exact h i (by omega)

theorem moves_succ_iff {m : Machine} {n : Nat} :
    m.Moves (n + 1) ↔ m.step.1 = .ok .continue ∧ m.step.2.Moves n := by
  constructor
  · intro h
    refine ⟨h 0 (by omega), ?_⟩
    intro i hi
    rw [after_step]
    exact h (i + 1) (by omega)
  · rintro ⟨hgo, hmoves⟩ i hi
    cases i with
    | zero => exact hgo
    | succ i =>
        rw [← after_step]
        exact hmoves i (by omega)

/-! ### Several steps at once -/

theorem stepFor_one (m : Machine) : m.stepFor 1 = (some m.step.1, m.step.2) := by
  rw [stepFor]
  rcases m.step with ⟨e | (_ | verdict), m'⟩ <;> rfl

theorem stepFor_of_continue {m : Machine} (h : m.step.1 = .ok .continue) (n : Nat) :
    m.stepFor (n + 2) = m.step.2.stepFor (n + 1) := by
  have hpair : m.step = (.ok .continue, m.step.2) := Prod.ext h rfl
  rw [stepFor, hpair]

theorem stepFor_of_not_continue {m : Machine} (h : m.step.1 ≠ .ok .continue) (n : Nat) :
    m.stepFor (n + 1) = (some m.step.1, m.step.2) := by
  rw [stepFor]
  rcases hpair : m.step with ⟨e | (_ | verdict), m'⟩
  · rfl
  · rw [hpair] at h
    exact absurd rfl h
  · rfl

/-- **Several steps at once are steps in a row**, all of them if they go on, and otherwise those up
to the first that does not. -/
theorem stepFor_cases (m : Machine) (n : Nat) :
    (m.Moves n ∧ m.stepFor n = (if n = 0 then none else some (.ok .continue), m.after n)) ∨
      ∃ k < n, m.Moves k ∧ (m.after k).step.1 ≠ .ok .continue ∧
        m.stepFor n = (some (m.after k).step.1, m.after (k + 1)) := by
  induction n generalizing m with
  | zero => exact Or.inl ⟨fun i hi => absurd hi (by omega), rfl⟩
  | succ n ih =>
      by_cases hgo : m.step.1 = .ok .continue
      · cases n with
        | zero =>
            have hmoves : m.step.2.Moves 0 := fun i hi => absurd hi (by omega)
            refine Or.inl ⟨moves_succ_iff.2 ⟨hgo, hmoves⟩, ?_⟩
            rw [stepFor_one, hgo]
            rfl
        | succ n =>
            rw [stepFor_of_continue hgo]
            rcases ih m.step.2 with ⟨hmoves, hall⟩ | ⟨k, hk, hmoves, hstop, hlast⟩
            · rw [hall, after_step]
              exact Or.inl ⟨moves_succ_iff.2 ⟨hgo, hmoves⟩, rfl⟩
            · rw [after_step] at hstop hlast
              rw [after_step] at hlast
              exact Or.inr ⟨k + 1, by omega, moves_succ_iff.2 ⟨hgo, hmoves⟩, hstop, hlast⟩
      · exact Or.inr ⟨0, by omega, fun i hi => absurd hi (by omega), hgo,
          stepFor_of_not_continue hgo n⟩

/-- **A run that ends is a row of steps that go on and one last round.** -/
theorem exists_round_of_runFor {n : Nat} {m m' : Machine} {result : Except Error Outcome}
    (h : m.runFor n = .ended result m') :
    ∃ k < n, m.Moves k ∧ (m.after k).round = .ended result m' := by
  induction n generalizing m with
  | zero => exact nomatch h
  | succ n ih =>
      rw [runFor_succ] at h
      cases hround : m.round with
      | ended result₁ m₁ =>
          rw [hround] at h
          exact ⟨0, by omega, fun i hi => absurd hi (by omega), hround.trans h⟩
      | running m₁ =>
          obtain ⟨-, hgo, rfl⟩ := continue_of_running hround
          rw [hround] at h
          obtain ⟨k, hk, hmoves, hlast⟩ := ih h
          refine ⟨k + 1, by omega, moves_succ_iff.2 ⟨hgo, hmoves⟩, ?_⟩
          rwa [← after_step]

/-- A run that has come to its last round ends with it. -/
theorem ends_of_round {k : Nat} {m m₁ f : Machine} {result : Except Error Outcome}
    (hrun : m.runFor k = .running m₁) (hround : m₁.round = .ended result f) : m.Ends result f := by
  refine ⟨k + 1, ?_⟩
  rw [runFor_add, hrun, resume, runFor_succ, hround, resume]

/-! ### Trails -/

/-- The machine itself if a step carries out a rule in it, and nothing otherwise. -/
def stepTrail (m : Machine) : List Machine :=
  match m.action with
  | .apply _ _ => [m]
  | _ => []

/-- The machines in which a run of at most `n` rounds carries out a rule, in their order. -/
def runTrail : Nat → Machine → List Machine
  | 0, _ => []
  | n + 1, m =>
      match m.round with
      | .running m' => m :: runTrail n m'
      | .ended _ _ => []

theorem stepTrail_of_continue {m : Machine} (h : m.step.1 = .ok .continue) : m.stepTrail = [m] := by
  obtain ⟨symbol, rule, haction⟩ := step_continue_iff.1 h
  rw [stepTrail, haction]

theorem stepTrail_of_not_continue {m : Machine} (h : m.step.1 ≠ .ok .continue) :
    m.stepTrail = [] := by
  rw [stepTrail]
  split
  · rename_i symbol rule haction
    exact absurd (step_continue_iff.2 ⟨symbol, rule, haction⟩) h
  · rfl

theorem runTrail_of_running {m m' : Machine} (n : Nat) (h : m.round = .running m') :
    m.runTrail (n + 1) = m :: m'.runTrail n := by
  rw [runTrail, h]

theorem runTrail_of_ended {m m' : Machine} {result : Except Error Outcome} (n : Nat)
    (h : m.round = .ended result m') : m.runTrail (n + 1) = [] := by
  rw [runTrail, h]

/-! ### What can be reached -/

/-- Stepping and running lead from `m` to another machine, and rules are carried out in the
machines of the list on the way. -/
inductive Advances (m : Machine) : List Machine → Machine → Prop
  | refl : Advances m [] m
  | step {past : List Machine} {m₁ : Machine} :
      Advances m past m₁ → Advances m (past ++ m₁.stepTrail) m₁.step.2
  | run {past : List Machine} {m₁ m₂ : Machine} {n : Nat} {result : Except Error Outcome} :
      Advances m past m₁ → m₁.runFor n = .ended result m₂ →
      Advances m (past ++ m₁.runTrail n) m₂
  | simulate {past : List Machine} {m₁ m₂ : Machine} {n : Nat} {result : Except Error String} :
      Advances m past m₁ → m₁.simulateFor n = .ended result m₂ →
      Advances m (past ++ m₁.runTrail n) m₂
  | execute {past : List Machine} {m₁ m₂ : Machine} {n : Nat}
      {result : Except Error (String × String)} :
      Advances m past m₁ → m₁.executeFor n = .ended result m₂ →
      Advances m (past ++ m₁.runTrail n) m₂

/-- Stepping, running and beginning anew lead from the machine made for `p` to another machine,
and since that machine was made or last began anew rules were carried out in the machines of the
list. -/
inductive Reaches (p : Program) : List Machine → Machine → Prop
  | made {m : Machine} {past : List Machine} {m' : Machine} :
      Machine.new p = .ok m → m.Advances past m' → Reaches p past m'
  | reset {past : List Machine} {m : Machine} {past' : List Machine} {m' : Machine} :
      Reaches p past m → m.reset.Advances past' m' → Reaches p past' m'

/-! ### What one step keeps is kept -/

section Induction

variable {P : List Machine → Machine → Prop}

/-- What one step keeps, a run keeps. -/
theorem runFor_induction
    (hstep : ∀ past m, P past m → P (past ++ m.stepTrail) m.step.2) :
    ∀ (n : Nat) {past : List Machine} {m m' : Machine} {result : Except Error Outcome},
      P past m → m.runFor n = .ended result m' → P (past ++ m.runTrail n) m' := by
  intro n
  induction n with
  | zero => intro past m m' result _ hrun; exact nomatch hrun
  | succ n ih =>
      intro past m m' result hP hrun
      rw [runFor_succ] at hrun
      have hnext := hstep past m hP
      rcases round_cases m with ⟨limit, -, hround⟩ | ⟨-, hgo, hround⟩ |
        ⟨verdict, -, hhalt, hround⟩ | ⟨e, -, hfail, hround⟩
      · -- the cap ends the run before anything is done
        rw [hround] at hrun
        obtain ⟨-, rfl⟩ := Progress.ended.inj hrun
        rw [runTrail_of_ended n hround, List.append_nil]
        exact hP
      · rw [hround] at hrun
        rw [stepTrail_of_continue hgo] at hnext
        rw [runTrail_of_running n hround, List.append_cons]
        exact ih hnext hrun
      · -- the last step of a run carries out no rule and adds nothing to the trail
        rw [hround] at hrun
        obtain ⟨-, rfl⟩ := Progress.ended.inj hrun
        rw [stepTrail_of_not_continue (by simp [hhalt])] at hnext
        rwa [runTrail_of_ended n hround]
      · rw [hround] at hrun
        obtain ⟨-, rfl⟩ := Progress.ended.inj hrun
        rw [stepTrail_of_not_continue (by simp [hfail])] at hnext
        rwa [runTrail_of_ended n hround]

/-- **What holds of a machine and is kept by one step holds wherever it gets to.** -/
theorem Advances.induction {m : Machine} (hrefl : P [] m)
    (hstep : ∀ past m₁, P past m₁ → P (past ++ m₁.stepTrail) m₁.step.2)
    {past : List Machine} {m' : Machine} (h : m.Advances past m') : P past m' := by
  induction h with
  | refl => exact hrefl
  | step _ ih => exact hstep _ _ ih
  | run _ hrun ih => exact runFor_induction hstep _ ih hrun
  | simulate _ hrun ih =>
      obtain ⟨result, hrun, -⟩ := Progress.map_eq_ended_iff.1 hrun
      exact runFor_induction hstep _ ih hrun
  | execute _ hrun ih =>
      obtain ⟨result, hrun, -⟩ := Progress.map_eq_ended_iff.1 hrun
      exact runFor_induction hstep _ ih hrun

end Induction

/-- Wherever a machine gets to, it is made from the same things. -/
theorem Advances.frame {m m' : Machine} {past : List Machine} (h : m.Advances past m') :
    m'.program = m.program ∧ m'.start = m.start ∧ m'.accepting = m.accepting := by
  refine Advances.induction (P := fun _ m₁ => m₁.program = m.program ∧ m₁.start = m.start ∧
    m₁.accepting = m.accepting) ⟨rfl, rfl, rfl⟩ ?_ h
  intro past m₁ ih
  obtain ⟨hprogram, hstart, haccepting⟩ := step_frame m₁
  exact ⟨hprogram.trans ih.1, hstart.trans ih.2.1, haccepting.trans ih.2.2⟩

/-- A machine made from the same things as a fresh one begins anew as that one. -/
theorem reset_eq_of_frame {p : Program} {m m' : Machine} (hm : Machine.new p = .ok m)
    (hframe : m'.program = m.program ∧ m'.start = m.start ∧ m'.accepting = m.accepting) :
    m'.reset = m := by
  obtain ⟨-, start, -, rfl⟩ := new_eq_ok_iff.1 hm
  obtain ⟨hprogram, hstart, haccepting⟩ := hframe
  simp only [reset, hprogram, hstart, haccepting]
  rfl

/-- **Nothing is reached that is not reached from the fresh machine without beginning anew.** -/
theorem Reaches.exists_advances {p : Program} {past : List Machine} {m : Machine}
    (h : Reaches p past m) : ∃ m₀, Machine.new p = .ok m₀ ∧ m₀.Advances past m := by
  induction h with
  | made hnew hadvances => exact ⟨_, hnew, hadvances⟩
  | reset _ hadvances ih =>
      obtain ⟨m₀, hnew, hpast⟩ := ih
      -- whatever was done before, it is the first machine that begins anew
      rw [reset_eq_of_frame hnew hpast.frame] at hadvances
      exact ⟨m₀, hnew, hadvances⟩

/-- **A machine that begins anew is the fresh machine.** -/
theorem Reaches.new_reset {p : Program} {past : List Machine} {m : Machine}
    (h : Reaches p past m) : Machine.new p = .ok m.reset := by
  obtain ⟨m₀, hnew, hadvances⟩ := h.exists_advances
  rwa [reset_eq_of_frame hnew hadvances.frame]

/-- **What holds of the fresh machine and is kept by one step holds of whatever is reached.** -/
theorem Reaches.induction {p : Program} {P : List Machine → Machine → Prop}
    (hnew : ∀ m, Machine.new p = .ok m → P [] m)
    (hstep : ∀ past m, P past m → P (past ++ m.stepTrail) m.step.2)
    {past : List Machine} {m : Machine} (h : Reaches p past m) : P past m := by
  obtain ⟨m₀, hmade, hadvances⟩ := h.exists_advances
  exact hadvances.induction (hnew m₀ hmade) hstep

/-- Nothing is reached for a program that does not pass its check. -/
theorem Reaches.check_eq_ok {p : Program} {past : List Machine} {m : Machine}
    (h : Reaches p past m) : p.check = .ok () := by
  obtain ⟨m₀, hnew, -⟩ := h.exists_advances
  exact (new_eq_ok_iff.1 hnew).1

/-- The count of rules is the length of the trail. -/
theorem Reaches.steps_eq {p : Program} {past : List Machine} {m : Machine}
    (h : Reaches p past m) : m.steps = past.length := by
  refine Reaches.induction (P := fun past m₁ => m₁.steps = past.length) ?_ ?_ h
  · intro m₀ hnew
    obtain ⟨-, start, -, rfl⟩ := new_eq_ok_iff.1 hnew
    rfl
  · intro past m₁ ih
    by_cases hgo : m₁.step.1 = .ok .continue
    · obtain ⟨symbol, rule, -, hnext⟩ := exists_apply_of_continue hgo
      rw [stepTrail_of_continue hgo, hnext, steps_apply, ih, List.length_append,
        List.length_singleton]
    · rw [stepTrail_of_not_continue hgo, (step_idle hgo).2.2, ih, List.append_nil]

theorem Reaches.program_eq {p : Program} {past : List Machine} {m : Machine}
    (h : Reaches p past m) : m.program = p := by
  obtain ⟨m₀, hnew, hadvances⟩ := h.exists_advances
  obtain ⟨-, start, -, rfl⟩ := new_eq_ok_iff.1 hnew
  exact hadvances.frame.1

/-- What can be reached stays so step by step. -/
theorem Reaches.step {p : Program} {past : List Machine} {m : Machine} (h : Reaches p past m) :
    Reaches p (past ++ m.stepTrail) m.step.2 := by
  cases h with
  | made hnew hadvances => exact .made hnew hadvances.step
  | reset hreaches hadvances => exact .reset hreaches hadvances.step

/-- What can be reached stays so run by run. -/
theorem Reaches.ends {p : Program} {past : List Machine} {m f : Machine}
    {result : Except Error Outcome} (h : Reaches p past m) (hends : m.Ends result f) :
    ∃ past', Reaches p past' f := by
  obtain ⟨n, hrun⟩ := hends
  cases h with
  | made hnew hadvances => exact ⟨_, .made hnew (hadvances.run hrun)⟩
  | reset hreaches hadvances => exact ⟨_, .reset hreaches (hadvances.run hrun)⟩

theorem Reaches.exists_after {p : Program} {past : List Machine} {m : Machine}
    (h : Reaches p past m) (n : Nat) : ∃ past', Reaches p past' (m.after n) := by
  induction n with
  | zero => exact ⟨past, h⟩
  | succ n ih =>
      obtain ⟨past', h'⟩ := ih
      exact ⟨_, h'.step⟩

end Machine

end TapeMachine
