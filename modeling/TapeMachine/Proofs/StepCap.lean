/-
**The cap on transitions.**

A step does not look at the cap, so machines that differ in their caps only go through the same
states step by step (`after_recap`), and a run follows them as long as the cap allows another
transition (`runFor_of_moves`).  In a machine whose next step does not go on the cap has no say
either, since a run looks ahead before it gives up: such a machine ends in the same way under any
cap (`round_of_stop`).  So a cap cuts a run off after exactly so many transitions, if it has not
come to its end by then, and changes nothing otherwise.

That a capped run ends at all is seen from what is left of the cap, which every round that goes on
makes less; the same measure bounds the transitions from wherever the machine has got to.

Main definitions:

* `TapeMachine.Program.recap`, `TapeMachine.Machine.recap` — the same under another cap, or none;
* `TapeMachine.Machine.StopsWithin` — a step that does not go on comes within so many transitions.

Main results:

* `TapeMachine.Machine.runFor_of_moves` — a run takes the steps that go on while the cap lasts;
* `TapeMachine.Machine.exists_ended_of_capped` — a capped run ends;
* `TapeMachine.Machine.length_runTrail_le` — it makes no more transitions than are left;
* `TapeMachine.Machine.not_stopsWithin_iff` — it reports the cap when it does not stop within it;
* `TapeMachine.Machine.capped_run` — **what a cap does to a run**.
-/

import TapeMachine.Catalogue
import TapeMachine.Proofs.Reachable

set_option relaxedAutoImplicit false
set_option autoImplicit false

namespace TapeMachine

/-! ### The same under another cap -/

namespace Program

/-- The program under another cap, or none. -/
def recap (p : Program) (cap : Option Nat) : Program := { p with maxSteps := cap }

/-- No check looks at the cap. -/
theorem check_recap (p : Program) (cap : Option Nat) : (p.recap cap).check = p.check := rfl

end Program

namespace Machine

/-- The machine under another cap, or none. -/
def recap (m : Machine) (cap : Option Nat) : Machine := { m with program := m.program.recap cap }

@[simp] theorem steps_recap (m : Machine) (cap : Option Nat) :
    (m.recap cap).steps = m.steps := rfl

theorem new_recap {p : Program} {m : Machine} (hm : Machine.new p = .ok m) (cap : Option Nat) :
    Machine.new (p.recap cap) = .ok (m.recap cap) := by
  obtain ⟨hcheck, start, hstart, rfl⟩ := new_eq_ok_iff.1 hm
  exact new_eq_ok_iff.2 ⟨(Program.check_recap p cap).trans hcheck, start, hstart, rfl⟩

theorem action_recap (m : Machine) (cap : Option Nat) : (m.recap cap).action = m.action := rfl

theorem apply_recap (m : Machine) (cap : Option Nat) (r : Rule) :
    (m.recap cap).apply r = (m.apply r).recap cap := rfl

theorem rejected_recap (m : Machine) (cap : Option Nat) :
    (m.recap cap).rejected = m.rejected.recap cap := by
  cases hprofile : m.program.profile with
  | unbounded => simp [rejected, recap, Program.recap, hprofile]
  | bounded bounds => simp [rejected, recap, Program.recap, hprofile]

theorem outcome_recap (m : Machine) (cap : Option Nat) (verdict : Halt) :
    (m.recap cap).outcome verdict = m.outcome verdict := rfl

/-- **No step looks at the cap.** -/
theorem step_recap (m : Machine) (cap : Option Nat) :
    (m.recap cap).step = (m.step.1, m.step.2.recap cap) := by
  have haction := action_recap m cap
  rcases action_cases m with ⟨verdict, -, hposition⟩ | ⟨-, -, hposition⟩ |
    ⟨symbol, -, -, -, hposition⟩ | ⟨symbol, rule, -, -, -, hposition⟩
  · rw [step_of_rest hposition, step_of_rest (haction.trans hposition)]
  · rw [step_of_offTape hposition, step_of_offTape (haction.trans hposition)]
    rfl
  · rw [step_of_refuse hposition, step_of_refuse (haction.trans hposition), rejected_recap]
  · rw [step_of_apply hposition, step_of_apply (haction.trans hposition), apply_recap]

theorem after_recap (m : Machine) (cap : Option Nat) (n : Nat) :
    (m.recap cap).after n = (m.after n).recap cap := by
  induction n with
  | zero => rfl
  | succ n ih => rw [after_succ, after_succ, ih, step_recap]

theorem Moves.recap {m : Machine} {n : Nat} (h : m.Moves n) (cap : Option Nat) :
    (m.recap cap).Moves n := by
  intro i hi
  rw [after_recap, step_recap]
  exact h i hi

/-! ### Rows of steps under a cap -/

/-- Every step that goes on counts. -/
theorem steps_step_of_continue {m : Machine} (h : m.step.1 = .ok .continue) :
    m.step.2.steps = m.steps + 1 := by
  obtain ⟨symbol, rule, -, hnext⟩ := exists_apply_of_continue h
  rw [hnext, steps_apply]

theorem Moves.steps_after {m : Machine} {n : Nat} (h : m.Moves n) :
    (m.after n).steps = m.steps + n := by
  induction n with
  | zero => rfl
  | succ n ih =>
      rw [after_succ, steps_step_of_continue (h n (by omega)), ih (h.of_le (by omega)),
        Nat.add_assoc]

theorem exceeded?_of_cap {m : Machine}
    (h : ∀ limit, m.program.maxSteps = some limit → m.steps < limit) : m.exceeded? = none := by
  cases hexceeded : m.exceeded? with
  | none => rfl
  | some limit =>
      obtain ⟨hcap, hle, -⟩ := exceeded?_eq_some_iff.1 hexceeded
      exact absurd (h limit hcap) (by omega)

/-- **A run takes the steps that go on, while the cap lasts.** -/
theorem runFor_of_moves {m : Machine} {k : Nat} (hmoves : m.Moves k)
    (hcap : ∀ limit, m.program.maxSteps = some limit → m.steps + k ≤ limit) (n : Nat) :
    m.runFor (k + n) = (m.after k).runFor n := by
  induction k generalizing m with
  | zero => rw [Nat.zero_add, after_zero]
  | succ k ih =>
      obtain ⟨hgo, hrest⟩ := moves_succ_iff.1 hmoves
      -- with a transition still to come the count has not got to the cap
      have hnone : m.exceeded? = none := by
        refine exceeded?_of_cap ?_
        intro limit hlimit
        have := hcap limit hlimit
        omega
      have hround := round_of_continue hnone hgo
      have hcount := steps_step_of_continue hgo
      rw [Nat.add_right_comm, runFor_succ, hround, ← after_step]
      refine ih hrest ?_
      intro limit hlimit
      rw [(step_frame m).1] at hlimit
      have := hcap limit hlimit
      omega

/-- The run under a cap takes the same steps, as many as the cap leaves. -/
theorem runFor_recap_of_moves {m : Machine} {k limit : Nat} (hmoves : m.Moves k)
    (hle : m.steps + k ≤ limit) (n : Nat) :
    (m.recap (some limit)).runFor (k + n) = ((m.after k).recap (some limit)).runFor n := by
  rw [← after_recap]
  refine runFor_of_moves (hmoves.recap (some limit)) ?_ n
  intro cap heq
  obtain rfl : limit = cap := Option.some.inj heq
  exact hle

/-- A round in which the step does not go on ends the run in the same way under any cap: with what
there is to see, or with the failure of the step. -/
theorem round_of_stop {m : Machine} (h : m.step.1 ≠ .ok .continue) (cap : Option Nat) :
    ∃ result, m.round = .ended result m.step.2 ∧
      (m.recap cap).round = .ended result (m.step.2.recap cap) ∧
      ((∃ o, result = .ok o) ∨
        ∃ index length, result = .error (.indexOutOfRange index length)) := by
  have hstep := step_recap m cap
  have hnone := exceeded?_of_not_continue h
  have hnone' : (m.recap cap).exceeded? = none := by
    refine exceeded?_of_not_continue ?_
    rwa [hstep]
  rcases hresult : m.step.1 with e | (_ | verdict)
  · have hfail : (m.recap cap).step.1 = .error e := by rw [hstep, hresult]
    have hround := round_of_error hnone' hfail
    rw [hstep] at hround
    exact ⟨_, round_of_error hnone hresult, hround, Or.inr ⟨_, _, by rw [(step_of_error hresult).1]⟩⟩
  · exact absurd hresult h
  · have hhalt : (m.recap cap).step.1 = .ok (.halt verdict) := by rw [hstep, hresult]
    have hround := round_of_halt hnone' hhalt
    rw [hstep, outcome_recap] at hround
    exact ⟨_, round_of_halt hnone hresult, hround, Or.inl ⟨_, rfl⟩⟩

/-! ### What is left of the cap -/

/-- A run goes on only while something of the cap is left. -/
theorem steps_lt_of_running {m m₁ : Machine} {limit : Nat} (h : m.program.maxSteps = some limit)
    (hround : m.round = .running m₁) : m.steps < limit := by
  obtain ⟨hnone, hgo, -⟩ := continue_of_running hround
  refine Nat.lt_of_not_le ?_
  intro hle
  rw [exceeded?_eq_some_iff.2 ⟨h, hle, hgo⟩] at hnone
  exact nomatch hnone

/-- **A capped run ends.**  Every round that goes on leaves less of the cap. -/
theorem exists_ended_of_capped {m : Machine} {limit : Nat} (h : m.program.maxSteps = some limit) :
    ∃ result f, m.runFor (limit - m.steps + 1) = .ended result f := by
  induction hleft : limit - m.steps generalizing m with
  | zero =>
      rw [runFor_succ]
      cases hround : m.round with
      | ended result f => exact ⟨result, f, rfl⟩
      | running m₁ =>
          -- nothing is left, so the run cannot go on
          have hlt := steps_lt_of_running h hround
          omega
  | succ left ih =>
      rw [runFor_succ]
      cases hround : m.round with
      | ended result f => exact ⟨result, f, rfl⟩
      | running m₁ =>
          obtain ⟨-, hgo, rfl⟩ := continue_of_running hround
          have hcount := steps_step_of_continue hgo
          exact ih (by rw [(step_frame m).1, h]) (by omega)

/-- A capped run makes no more transitions than are left. -/
theorem length_runTrail_le {m : Machine} {limit : Nat} (h : m.program.maxSteps = some limit)
    (n : Nat) : (m.runTrail n).length ≤ limit - m.steps := by
  induction n generalizing m with
  | zero => exact Nat.zero_le _
  | succ n ih =>
      cases hround : m.round with
      | ended result f =>
          rw [runTrail_of_ended n hround]
          exact Nat.zero_le _
      | running m₁ =>
          obtain ⟨hnone, hgo, rfl⟩ := continue_of_running hround
          have hrest := ih (m := m.step.2) (by rw [(step_frame m).1, h])
          have hcount := steps_step_of_continue hgo
          have hlt := steps_lt_of_running h hround
          rw [runTrail_of_running n hround, List.length_cons]
          omega

/-- The transitions of a run are those that it adds to the count. -/
theorem steps_runFor (m : Machine) (n : Nat) :
    (m.runFor n).machine.steps = m.steps + (m.runTrail n).length := by
  induction n generalizing m with
  | zero => rfl
  | succ n ih =>
      rw [runFor_succ]
      rcases round_cases m with ⟨limit, -, hround⟩ | ⟨-, hgo, hround⟩ |
        ⟨verdict, -, hhalt, hround⟩ | ⟨e, -, hfail, hround⟩
      · rw [runTrail_of_ended n hround, hround]
        rfl
      · have hcount := steps_step_of_continue hgo
        rw [runTrail_of_running n hround, hround, List.length_cons]
        change (m.step.2.runFor n).machine.steps = _
        rw [ih]
        omega
      · rw [runTrail_of_ended n hround, hround]
        exact (step_idle (by simp [hhalt])).2.2
      · rw [runTrail_of_ended n hround, hround]
        exact (step_idle (by simp [hfail])).2.2

/-! ### What a cap does to a run -/

/-- A step that does not go on comes after at most `limit` transitions. -/
def StopsWithin (m : Machine) (limit : Nat) : Prop :=
  ∃ k ≤ limit, m.Moves k ∧ (m.after k).step.1 ≠ .ok .continue

/-- A machine that does not stop makes one transition more than that. -/
theorem moves_of_not_stopsWithin {m : Machine} {limit : Nat} (h : ¬ m.StopsWithin limit) :
    m.Moves (limit + 1) := by
  intro i
  induction i using Nat.strongRecOn with
  | ind i ih =>
      intro hi
      refine Classical.byContradiction ?_
      intro hstop
      exact h ⟨i, by omega, fun j hj => ih j hj (by omega), hstop⟩

/-- A machine that stops within the cap ends in the same way under the cap and without one. -/
theorem ends_of_stopsWithin {m : Machine} {limit : Nat} (hcap : m.program.maxSteps = none)
    (hsteps : m.steps = 0) (h : m.StopsWithin limit) :
    ∃ result f, m.Ends result f ∧ (m.recap (some limit)).Ends result (f.recap (some limit)) ∧
      ((∃ o, result = .ok o) ∨
        ∃ index length, result = .error (.indexOutOfRange index length)) := by
  obtain ⟨k, hle, hmoves, hstop⟩ := h
  obtain ⟨result, hround, hround', hresult⟩ := round_of_stop hstop (some limit)
  refine ⟨result, (m.after k).step.2, ⟨k + 1, ?_⟩, ⟨k + 1, ?_⟩, hresult⟩
  · rw [runFor_of_moves hmoves (by simp [hcap]), runFor_succ, hround, resume]
  · rw [runFor_recap_of_moves hmoves (by omega), runFor_succ, hround', resume]

/-- A machine that does not stop within the cap is cut off where the cap is reached. -/
theorem ends_of_not_stopsWithin {m : Machine} {limit : Nat} (hsteps : m.steps = 0)
    (h : ¬ m.StopsWithin limit) :
    (m.recap (some limit)).Ends (.error (.stepLimitExceeded limit))
      ((m.after limit).recap (some limit)) := by
  have hmoves := moves_of_not_stopsWithin h
  have hbefore : m.Moves limit := hmoves.of_le (by omega)
  have hgo := hmoves limit (by omega)
  have hcount := hbefore.steps_after
  have hexceeded : ((m.after limit).recap (some limit)).exceeded? = some limit := by
    rw [exceeded?_eq_some_iff, step_recap, steps_recap]
    exact ⟨rfl, by omega, hgo⟩
  refine ⟨limit + 1, ?_⟩
  rw [runFor_recap_of_moves hbefore (by omega), runFor_succ, round_of_exceeded hexceeded, resume]

/-- **A run reports the cap exactly when the machine does not stop within it.** -/
theorem not_stopsWithin_iff {m : Machine} {limit : Nat} (hcap : m.program.maxSteps = none)
    (hsteps : m.steps = 0) :
    ¬ m.StopsWithin limit ↔
      ∃ f, (m.recap (some limit)).Ends (.error (.stepLimitExceeded limit)) f := by
  constructor
  · intro hstops
    exact ⟨_, ends_of_not_stopsWithin hsteps hstops⟩
  · rintro ⟨f, hends⟩ hstops
    -- a machine that stops has an outcome or leaves its tape, and a run ends in one way only
    obtain ⟨result, f', -, hends', hresult⟩ := ends_of_stopsWithin hcap hsteps hstops
    obtain ⟨heq, -⟩ := Ends.unique hends hends'
    rcases hresult with ⟨o, rfl⟩ | ⟨index, length, rfl⟩
    · exact nomatch heq
    · exact nomatch heq

/-- **What a cap does to a run.**  The capped run ends.  If without the cap the machine comes to a
step that does not go on after at most as many transitions, then both runs end there, with the
same result and in the same configuration; otherwise the cap is reported, in the configuration
after so many transitions.  And wherever the capped machine has got to, a run from there ends, and
makes at most as many transitions as are left. -/
theorem capped_run {p : Program} {m : Machine} (hm : Machine.new p = .ok m) (limit : Nat) :
    ∃ capped free, Machine.new (p.withMaxSteps limit) = .ok capped ∧
      Machine.new (p.recap none) = .ok free ∧
      (∃ result f, capped.Ends result f) ∧
      (free.StopsWithin limit →
        ∃ result f, free.Ends result f ∧ capped.Ends result (f.recap (some limit)) ∧
          ((∃ o, result = .ok o) ∨
            ∃ index length, result = .error (.indexOutOfRange index length))) ∧
      (¬ free.StopsWithin limit →
        free.Moves limit ∧ (free.after limit).steps = limit ∧
          capped.Ends (.error (.stepLimitExceeded limit))
            ((free.after limit).recap (some limit))) ∧
      ∀ past m', Reaches (p.withMaxSteps limit) past m' →
        (∃ result f, m'.Ends result f) ∧
          ∀ n, (m'.runFor n).machine.steps = m'.steps + (m'.runTrail n).length ∧
            (m'.runTrail n).length ≤ limit - m'.steps := by
  have hfree := new_recap hm none
  have hcapped := new_recap hm (some limit)
  obtain ⟨-, start, -, rfl⟩ := new_eq_ok_iff.1 hm
  refine ⟨_, _, hcapped, hfree, ?_, ?_, ?_, ?_⟩
  · have hcap : ((initial p start).recap (some limit)).program.maxSteps = some limit := rfl
    obtain ⟨result, f, hrun⟩ := exists_ended_of_capped hcap
    exact ⟨result, f, _, hrun⟩
  · intro hstops
    exact ends_of_stopsWithin (m := (initial p start).recap none) rfl rfl hstops
  · intro hstops
    have hmoves := (moves_of_not_stopsWithin hstops).of_le (Nat.le_succ limit)
    have hcount := hmoves.steps_after
    refine ⟨hmoves, hcount.trans (Nat.zero_add limit), ?_⟩
    exact ends_of_not_stopsWithin (m := (initial p start).recap none) rfl hstops
  · intro past m' hreaches
    have hcap : m'.program.maxSteps = some limit := by
      rw [hreaches.program_eq]
      rfl
    obtain ⟨result, f, hrun⟩ := exists_ended_of_capped hcap
    refine ⟨⟨result, f, _, hrun⟩, ?_⟩
    intro n
    exact ⟨steps_runFor m' n, length_runTrail_le hcap n⟩

/-- Inverting a one takes two transitions: under a cap of one the run is cut off, and under a cap of
two it accepts as it does without one. -/
theorem capped_run_invert :
    (∃ m f : Machine, Machine.new ((Catalogue.invert.withInput "1").withMaxSteps 1) = .ok m ∧
      m.Ends (.error (.stepLimitExceeded 1)) f ∧ f.tape.text = "0_" ∧ f.steps = 1) ∧
    ∃ m f : Machine, Machine.new ((Catalogue.invert.withInput "1").withMaxSteps 2) = .ok m ∧
      (initial (Catalogue.invert.withInput "1") "scan").Ends
        (.ok ⟨.accept, "done", "0__", 2⟩) f ∧
      m.Ends (.ok ⟨.accept, "done", "0__", 2⟩) (f.recap (some 2)) := by
  have hmade : Machine.new (Catalogue.invert.withInput "1") =
      .ok (initial (Catalogue.invert.withInput "1") "scan") := rfl
  have hmoves : (initial (Catalogue.invert.withInput "1") "scan").Moves 2 := by
    intro i hi
    match i, hi with
    | 0, _ => rfl
    | 1, _ => rfl
  constructor
  · obtain ⟨capped, free, hcapped, hfree, -, -, hcut, -⟩ := capped_run hmade 1
    obtain rfl : _ = free := Except.ok.inj hfree
    have hstops : ¬ (initial (Catalogue.invert.withInput "1") "scan").StopsWithin 1 := by
      rintro ⟨k, hk, -, hstop⟩
      exact hstop (hmoves k (by omega))
    exact ⟨capped, _, hcapped, (hcut hstops).2.2, rfl, rfl⟩
  · obtain ⟨capped, free, hcapped, hfree, -, hsame, -, -⟩ := capped_run hmade 2
    obtain rfl : _ = free := Except.ok.inj hfree
    have hstops : (initial (Catalogue.invert.withInput "1") "scan").StopsWithin 2 := by
      refine ⟨2, Nat.le_refl 2, hmoves, ?_⟩
      intro hgo
      exact nomatch hgo
    obtain ⟨result, f, hends, hends', -⟩ := hsame hstops
    have haccepts : (initial (Catalogue.invert.withInput "1") "scan").Ends
        (.ok ⟨.accept, "done", "0__", 2⟩)
        ((initial (Catalogue.invert.withInput "1") "scan").after 2) := ⟨3, rfl⟩
    obtain ⟨rfl, -⟩ := Ends.unique hends haccepts
    exact ⟨capped, f, hcapped, hends, hends'⟩

end Machine

end TapeMachine
