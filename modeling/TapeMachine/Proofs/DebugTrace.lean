/-
**Showing the steps changes nothing else.**

With its steps shown a program is run twice: first the command takes the steps itself, looking at
the cap on its own and showing where the machine stands, and then it runs the machine that has come
out of this.  Without them the program is run once.  Both come to the same, since the loop of the
command is the loop of a run: at the cap of the program it stops exactly where a round of a run
gives up (`exhausted_eq_isSome`), and what it leaves is a machine whose next round ends the run in
the same way, or else the failure of the step, which is that of the run (`Leaves`).  So the two need
the same number of rounds, and what is shown differs by a block of lines that goes before
(`exists_debugFor_of_ended`).

Main definitions:

* `TapeMachine.CommandLine.Shows` — the run of a program ends, and what it shows;
* `TapeMachine.CommandLine.traceLines` — the block of lines for so many transitions.

Main results:

* `TapeMachine.CommandLine.exists_traceFor_of_ended` — the loop of the command follows the run;
* `TapeMachine.CommandLine.exists_debugFor_of_ended` — with as many rounds the same is shown after
  the block of lines;
* `TapeMachine.CommandLine.debug_adds_trace` — **showing the steps adds lines and changes nothing
  else**.
-/

import TapeMachine.CommandLine.Command
import TapeMachine.Proofs.Standstill

set_option relaxedAutoImplicit false
set_option autoImplicit false

namespace TapeMachine

namespace CommandLine

/-- The run of the program under the options ends and shows this. -/
def Shows (o : Options) (p : Program) (shown : Shown) : Prop := ∃ n, runFor n o p = some shown

/-! ### The block of lines -/

/-- That the machine has halted, if that is what a step came to. -/
def verdictLines : Except Error Step → List String
  | .ok (.halt verdict) => [haltLine verdict]
  | .ok .continue => []
  | .error _ => []

/-- Where the machine stands at first and after each of `k` transitions, and then that it has halted
if the next step says so. -/
def traceLines (m : Machine) (k : Nat) : List String :=
  (List.range (k + 1)).map (fun i => stateLine (m.after i)) ++ verdictLines (m.after k).step.1

theorem traceLines_zero (m : Machine) :
    traceLines m 0 = stateLine m :: verdictLines m.step.1 := rfl

theorem traceLines_succ (m : Machine) (k : Nat) :
    traceLines m (k + 1) = stateLine m :: traceLines m.step.2 k := by
  have hlines : (fun i => stateLine (m.step.2.after i)) = fun i => stateLine (m.after (i + 1)) := by
    funext i
    rw [Machine.after_step]
  rw [traceLines, traceLines, hlines, Machine.after_step, List.range_succ_eq_map, List.map_cons,
    List.map_map]
  rfl

/-! ### The loop of the command -/

variable {m f : Machine} {result : Except Error Outcome}

/-- **The command stops at the cap where a round of a run gives up.** -/
theorem exhausted_eq_isSome (m : Machine) :
    exhausted m.program.maxSteps m = m.exceeded?.isSome := by
  rw [exhausted, Machine.exceeded?]
  cases m.program.maxSteps with
  | none => rfl
  | some limit =>
      by_cases hreached : limit ≤ m.steps
      · cases m.hasTransition <;> simp [hreached]
      · simp [hreached]

theorem traceFor_of_exceeded {limit : Nat} (n : Nat) (h : m.exceeded? = some limit) :
    traceFor m.program.maxSteps (n + 1) m = some ([], .ok m) := by
  simp [traceFor, exhausted_eq_isSome, h]

theorem traceFor_of_halt {verdict : Halt} (n : Nat) (h : m.exceeded? = none)
    (hstep : m.step.1 = .ok (.halt verdict)) :
    traceFor m.program.maxSteps (n + 1) m = some ([haltLine verdict], .ok m.step.2) := by
  rcases hpair : m.step with ⟨result, m'⟩
  rw [hpair] at hstep
  obtain rfl : result = .ok (.halt verdict) := hstep
  simp [traceFor, exhausted_eq_isSome, h, hpair]

theorem traceFor_of_error {e : Error} (n : Nat) (h : m.exceeded? = none)
    (hstep : m.step.1 = .error e) :
    traceFor m.program.maxSteps (n + 1) m = some ([], .error e) := by
  rcases hpair : m.step with ⟨result, m'⟩
  rw [hpair] at hstep
  obtain rfl : result = .error e := hstep
  simp [traceFor, exhausted_eq_isSome, h, hpair]

theorem traceFor_of_continue (n : Nat) (h : m.exceeded? = none)
    (hstep : m.step.1 = .ok .continue) :
    traceFor m.program.maxSteps (n + 1) m =
      (traceFor m.step.2.program.maxSteps n m.step.2).map fun traced =>
        (stateLine m.step.2 :: traced.1, traced.2) := by
  rw [(Machine.step_frame m).1]
  rcases hpair : m.step with ⟨result, m'⟩
  rw [hpair] at hstep
  obtain rfl : result = .ok .continue := hstep
  simp [traceFor, exhausted_eq_isSome, h, hpair]

/-- What the loop of the command leaves where a run ends with the result and leaves `f`: a machine
whose next round ends the run so, or the error that is the result. -/
def Leaves (result : Except Error Outcome) (f : Machine) : Except Error Machine → Prop
  | .ok m' => m'.round = .ended result f
  | .error e => result = .error e

/-- The loop of the command does not end before the run does. -/
theorem traceFor_of_running {n : Nat} (h : m.runFor n = .running f) :
    traceFor m.program.maxSteps n m = none := by
  induction n generalizing m with
  | zero => rfl
  | succ n ih =>
      rw [Machine.runFor_succ] at h
      cases hround : m.round with
      | ended result m₁ =>
          rw [hround] at h
          exact nomatch h
      | running m₁ =>
          obtain ⟨hnone, hgo, rfl⟩ := Machine.continue_of_running hround
          rw [hround] at h
          rw [traceFor_of_continue n hnone hgo, ih h, Option.map_none]

/-- **The loop of the command follows the run**: it makes the same transitions, shows each of them,
and leaves what ends the run. -/
theorem exists_traceFor_of_ended {n : Nat} (h : m.runFor n = .ended result f) :
    ∃ k lines left, m.Moves k ∧ f.steps = m.steps + k ∧ stateLine m :: lines = traceLines m k ∧
      traceFor m.program.maxSteps n m = some (lines, left) ∧ Leaves result f left := by
  induction n generalizing m with
  | zero => exact nomatch h
  | succ n ih =>
      rw [Machine.runFor_succ] at h
      have hstill : m.Moves 0 := fun i hi => absurd hi (Nat.not_lt_zero i)
      rcases Machine.round_cases m with ⟨limit, hexceeded, hround⟩ | ⟨hnone, hgo, hround⟩ |
        ⟨verdict, hnone, hhalt, hround⟩ | ⟨e, hnone, hfail, hround⟩
      · -- the cap is reached, and the run that follows finds it reached as well
        have hgo := (Machine.exceeded?_eq_some_iff.1 hexceeded).2.2
        rw [hround] at h
        obtain ⟨rfl, rfl⟩ := Progress.ended.inj h
        refine ⟨0, [], .ok m, hstill, rfl, ?_, traceFor_of_exceeded n hexceeded, hround⟩
        rw [traceLines_zero, hgo, verdictLines]
      · rw [hround] at h
        obtain ⟨k, lines, left, hmoves, hsteps, hlines, htrace, hleaves⟩ := ih h
        have hcount := Machine.steps_step_of_continue hgo
        refine ⟨k + 1, stateLine m.step.2 :: lines, left, Machine.moves_succ_iff.2 ⟨hgo, hmoves⟩,
          by omega, ?_, ?_, hleaves⟩
        · rw [traceLines_succ, hlines]
        · rw [traceFor_of_continue n hnone hgo, htrace, Option.map_some]
      · -- the machine has halted, and the run that follows finds it so
        rw [hround] at h
        obtain ⟨rfl, rfl⟩ := Progress.ended.inj h
        have hidle := (Machine.step_idle (m := m) (by simp [hhalt])).2.2
        refine ⟨0, [haltLine verdict], .ok m.step.2, hstill, hidle, ?_,
          traceFor_of_halt n hnone hhalt, Machine.round_of_ended hround⟩
        rw [traceLines_zero, hhalt, verdictLines]
      · rw [hround] at h
        obtain ⟨rfl, rfl⟩ := Progress.ended.inj h
        have hidle := (Machine.step_idle (m := m) (by simp [hfail])).2.2
        refine ⟨0, [], .error e, hstill, hidle, ?_, traceFor_of_error n hnone hfail, rfl⟩
        rw [traceLines_zero, hfail, verdictLines]

/-! ### The run that follows -/

/-- What is shown at the end of a run with the result. -/
def ending (json : Bool) (p : Program) : Except Error Outcome → Shown
  | .ok outcome => ⟨outcomeLines json p outcome, none⟩
  | .error e => ⟨[], some e⟩

theorem finishFor_of_ended {n : Nat} {o : Options} {p : Program}
    (h : m.runFor n = .ended result f) : finishFor n o p m = some (ending o.json p result) := by
  rw [finishFor, h]
  cases result <;> rfl

theorem finishFor_of_running {n : Nat} {o : Options} {p : Program} (h : m.runFor n = .running f) :
    finishFor n o p m = none := by
  rw [finishFor, h]

/-- What is shown with lines before it. -/
def Shown.after (lines : List String) (shown : Shown) : Shown := ⟨lines ++ shown.lines, shown.error⟩

/-- Where the run has not come to its end, neither has the one with its steps shown. -/
theorem debugFor_of_running {n : Nat} {o : Options} {p : Program}
    (hcap : m.program.maxSteps = o.maxSteps) (h : m.runFor n = .running f) :
    debugFor n o p m = none := by
  rw [debugFor, ← hcap, traceFor_of_running h]

/-- **Where the run ends, the one with its steps shown ends in the same way**, with the block of lines
before it. -/
theorem exists_debugFor_of_ended {n : Nat} {o : Options} {p : Program}
    (hcap : m.program.maxSteps = o.maxSteps) (h : m.runFor n = .ended result f) :
    ∃ k, m.Moves k ∧ f.steps = m.steps + k ∧
      debugFor n o p m = some ((ending o.json p result).after (traceLines m k)) := by
  obtain ⟨k, lines, left, hmoves, hsteps, hlines, htrace, hleaves⟩ := exists_traceFor_of_ended h
  refine ⟨k, hmoves, hsteps, ?_⟩
  rw [← hlines]
  cases n with
  | zero => exact nomatch h
  | succ n =>
      rw [debugFor, ← hcap, htrace]
      cases left with
      | error e =>
          obtain rfl : result = .error e := hleaves
          simp [ending, Shown.after]
      | ok m' =>
          -- one round is enough for what is left
          have hround : m'.round = .ended result f := hleaves
          have hrest : m'.runFor (n + 1) = .ended result f := by
            rw [Machine.runFor_succ, hround, Machine.resume]
          simp only [finishFor_of_ended hrest, Option.map_some]
          rfl

/-- What is shown without the steps is what a run ends with. -/
theorem shows_iff_of_not_debug {o : Options} {p : Program} (hdebug : o.debug = false)
    (hm : Machine.new p = .ok m) {shown : Shown} :
    Shows o p shown ↔ ∃ result f, m.Ends result f ∧ shown = ending o.json p result := by
  have hrunFor (n : Nat) : runFor n o p = finishFor n o p m := by simp [runFor, hm, hdebug]
  constructor
  · rintro ⟨n, hshown⟩
    rw [hrunFor] at hshown
    cases hrun : m.runFor n with
    | running m' =>
        rw [finishFor_of_running hrun] at hshown
        exact nomatch hshown
    | ended result f =>
        rw [finishFor_of_ended hrun] at hshown
        exact ⟨result, f, ⟨n, hrun⟩, (Option.some.inj hshown).symm⟩
  · rintro ⟨result, f, ⟨n, hrun⟩, rfl⟩
    exact ⟨n, (hrunFor n).trans (finishFor_of_ended hrun)⟩

/-- What is shown with the steps is the block of lines, and then what a run ends with. -/
theorem shows_iff_of_debug {o : Options} {p : Program} (hdebug : o.debug = true)
    (hcap : p.maxSteps = o.maxSteps) (hm : Machine.new p = .ok m) {shown : Shown} :
    Shows o p shown ↔
      ∃ k result f, m.Ends result f ∧ m.Moves k ∧ f.steps = m.steps + k ∧
        shown = (ending o.json p result).after (traceLines m k) := by
  have hmade : m.program.maxSteps = o.maxSteps := by
    obtain ⟨-, start, -, rfl⟩ := Machine.new_eq_ok_iff.1 hm
    exact hcap
  have hrunFor (n : Nat) : runFor n o p = debugFor n o p m := by simp [runFor, hm, hdebug]
  constructor
  · rintro ⟨n, hshown⟩
    rw [hrunFor] at hshown
    cases hrun : m.runFor n with
    | running m' =>
        rw [debugFor_of_running hmade hrun] at hshown
        exact nomatch hshown
    | ended result f =>
        obtain ⟨k, hmoves, hsteps, hshows⟩ := exists_debugFor_of_ended hmade hrun
        rw [hshows] at hshown
        exact ⟨k, result, f, ⟨n, hrun⟩, hmoves, hsteps, (Option.some.inj hshown).symm⟩
  · rintro ⟨k, result, f, ⟨n, hrun⟩, -, hsteps, rfl⟩
    obtain ⟨k', -, hsteps', hshows⟩ := exists_debugFor_of_ended hmade hrun
    obtain rfl : k' = k := by omega
    exact ⟨n, (hrunFor n).trans hshows⟩

/-- A program that no machine is made for shows nothing and fails for that reason, with its steps
shown or without. -/
theorem shows_iff_of_new_eq_error {o : Options} {p : Program} {e : Error}
    (h : Machine.new p = .error e) {shown : Shown} : Shows o p shown ↔ shown = ⟨[], some e⟩ := by
  constructor
  · rintro ⟨n, hshown⟩
    rw [runFor, h] at hshown
    exact (Option.some.inj hshown).symm
  · rintro rfl
    refine ⟨0, ?_⟩
    rw [runFor, h]

/-- What the options make of a program of the catalogue has the cap of the options. -/
theorem maxSteps_configure (o : Options) {p : Program} (hp : p ∈ Catalogue.programs) :
    (configure o p).maxSteps = o.maxSteps := by
  have hcatalogue : ∀ q ∈ Catalogue.programs, q.maxSteps = none := by decide
  rw [configure]
  cases o.maxSteps with
  | none =>
      -- a new input leaves the cap alone
      cases o.input with
      | none => exact hcatalogue p hp
      | some input => exact hcatalogue p hp
  | some limit => rfl

/-- **Showing the steps adds lines and changes nothing else.**  Take a program with the cap of the
options, as every program of the catalogue has it once the options have been put into effect.  If no
machine is made for it, it fails for that reason and shows nothing, with its steps shown or without.
Otherwise it comes to an end with its steps shown exactly if it does without them; both fail with the
same error or succeed; and what it shows with its steps is where the machine stands at first and after
each of the transitions of the run, then that the machine has halted if it has, and then what it shows
without them. -/
theorem debug_adds_trace (o : Options) :
    (∀ p ∈ Catalogue.programs, (configure o p).maxSteps = o.maxSteps) ∧
    ∀ p : Program, p.maxSteps = o.maxSteps →
      (∀ e, Machine.new p = .error e → ∀ debug shown,
        Shows { o with debug := debug } p shown ↔ shown = ⟨[], some e⟩) ∧
      ∀ m, Machine.new p = .ok m →
        ((∃ loud, Shows { o with debug := true } p loud) ↔
          ∃ quiet, Shows { o with debug := false } p quiet) ∧
        ∀ loud quiet, Shows { o with debug := true } p loud →
          Shows { o with debug := false } p quiet →
          loud.error = quiet.error ∧
            ∃ result f, m.Ends result f ∧ m.Moves f.steps ∧
              loud.lines = traceLines m f.steps ++ quiet.lines := by
  refine ⟨fun p hp => maxSteps_configure o hp, ?_⟩
  intro p hcap
  refine ⟨fun e he debug shown => shows_iff_of_new_eq_error he, ?_⟩
  intro m hm
  have hfresh : m.steps = 0 := by
    obtain ⟨-, start, -, rfl⟩ := Machine.new_eq_ok_iff.1 hm
    rfl
  have hquiet_iff {quiet : Shown} : Shows { o with debug := false } p quiet ↔
      ∃ result f, m.Ends result f ∧ quiet = ending o.json p result :=
    shows_iff_of_not_debug rfl hm
  have hcap' : p.maxSteps = ({ o with debug := true } : Options).maxSteps := hcap
  have hloud_iff {loud : Shown} : Shows { o with debug := true } p loud ↔
      ∃ k result f, m.Ends result f ∧ m.Moves k ∧ f.steps = m.steps + k ∧
        loud = (ending o.json p result).after (traceLines m k) :=
    shows_iff_of_debug rfl hcap' hm
  refine ⟨⟨?_, ?_⟩, ?_⟩
  · rintro ⟨loud, hloud⟩
    obtain ⟨k, result, f, hends, -⟩ := hloud_iff.1 hloud
    exact ⟨_, hquiet_iff.2 ⟨result, f, hends, rfl⟩⟩
  · rintro ⟨quiet, hquiet⟩
    obtain ⟨result, f, ⟨n, hrun⟩, -⟩ := hquiet_iff.1 hquiet
    obtain ⟨k, lines, left, hmoves, hsteps, -⟩ := exists_traceFor_of_ended hrun
    exact ⟨_, hloud_iff.2 ⟨k, result, f, ⟨n, hrun⟩, hmoves, hsteps, rfl⟩⟩
  · intro loud quiet hloud hquiet
    obtain ⟨k, result, f, hends, hmoves, hsteps, rfl⟩ := hloud_iff.1 hloud
    obtain ⟨result', f', hends', rfl⟩ := hquiet_iff.1 hquiet
    obtain ⟨rfl, rfl⟩ := hends.unique hends'
    obtain rfl : f.steps = k := by omega
    exact ⟨rfl, result, f, hends, hmoves, rfl⟩

/-- A single one as the input, and a cap of one transition. -/
def Options.single : Options := ⟨.none, some "1", some 1, false, false, false⟩

/-- The single one is odd, which is rejected for want of a rule just where the cap is reached; and it
takes two transitions to invert it, so that this is cut off.  Both come to the same with their steps
shown. -/
theorem debug_adds_trace_at_the_cap :
    (∃ loud quiet,
      Shows { Options.single with debug := true } (configure .single Catalogue.evenOnes) loud ∧
      Shows { Options.single with debug := false } (configure .single Catalogue.evenOnes) quiet ∧
      quiet = ⟨["Original tape: 1", "Result: 1", "Final State: reject"], none⟩ ∧
      loud.error = none ∧
      loud.lines = ["Step: 0, State: even, Tape: _1_, Head: 1",
        "Step: 1, State: odd, Tape: _1_, Head: 2", "Machine halted: reject"] ++ quiet.lines) ∧
    ∃ loud quiet,
      Shows { Options.single with debug := true } (configure .single Catalogue.invert) loud ∧
      Shows { Options.single with debug := false } (configure .single Catalogue.invert) quiet ∧
      quiet = ⟨[], some (.stepLimitExceeded 1)⟩ ∧
      loud.error = some (.stepLimitExceeded 1) ∧
      loud.lines = ["Step: 0, State: scan, Tape: 1, Head: 0",
        "Step: 1, State: scan, Tape: 0_, Head: 1"] ++ quiet.lines := by
  obtain ⟨hcaps, hprograms⟩ := debug_adds_trace .single
  constructor
  · have hmade : Machine.new (configure .single Catalogue.evenOnes) =
        .ok (Machine.initial (configure .single Catalogue.evenOnes) "even") := rfl
    obtain ⟨-, hsame⟩ := hprograms _ (hcaps Catalogue.evenOnes (by decide))
    obtain ⟨hends, hshows⟩ := hsame _ hmade
    have hquiet : Shows { Options.single with debug := false }
        (configure .single Catalogue.evenOnes)
        ⟨["Original tape: 1", "Result: 1", "Final State: reject"], none⟩ := ⟨2, rfl⟩
    obtain ⟨loud, hloud⟩ := hends.2 ⟨_, hquiet⟩
    obtain ⟨herror, result, f, hlast, -, hlines⟩ := hshows _ _ hloud hquiet
    obtain ⟨-, rfl⟩ := hlast.unique ⟨2, rfl⟩
    exact ⟨loud, _, hloud, hquiet, rfl, herror, hlines⟩
  · have hmade : Machine.new (configure .single Catalogue.invert) =
        .ok (Machine.initial (configure .single Catalogue.invert) "scan") := rfl
    obtain ⟨-, hsame⟩ := hprograms _ (hcaps Catalogue.invert (by decide))
    obtain ⟨hends, hshows⟩ := hsame _ hmade
    have hquiet : Shows { Options.single with debug := false } (configure .single Catalogue.invert)
        ⟨[], some (.stepLimitExceeded 1)⟩ := ⟨2, rfl⟩
    obtain ⟨loud, hloud⟩ := hends.2 ⟨_, hquiet⟩
    obtain ⟨herror, result, f, hlast, -, hlines⟩ := hshows _ _ hloud hquiet
    obtain ⟨-, rfl⟩ := hlast.unique ⟨2, rfl⟩
    exact ⟨loud, _, hloud, hquiet, rfl, herror, hlines⟩

end CommandLine

end TapeMachine
