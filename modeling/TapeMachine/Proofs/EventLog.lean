/-
**The log can be trusted.**

A machine reports every rule that it applies, every rejection for want of a rule, and how a run ends.
A report is made when the machine has changed already, with values from before and from afterwards:
the symbol is the one that was read, the head is where it is when the ends of the tape are in order
again.  So it is a question whether the reports tell what happened.

They do.  Whoever knows the machine at the beginning and has the reports can do again what they say
and check each of them meanwhile (`Move.replay`), and has the tape and the head of the machine in the
end.  What a log has to satisfy for that is put down in `Machine.Trace`, in which one log can follow
the other (`Machine.Trace.trans`), so that it is enough to see what one step reports
(`Machine.trace_step`).  What closes the report of a run is told by its result (`Call.closing`).

Main definitions:

* `TapeMachine.Move`, `TapeMachine.Refusal` — a transition and a rejection as they are reported;
* `TapeMachine.Move.replay` — a reported transition made again and checked;
* `TapeMachine.Machine.Recorded` — steps and runs in a row, with what was reported in each;
* `TapeMachine.Machine.Trace` — a log that tells what happened between two machines;
* `TapeMachine.Entry.Shaped` — the reports of one call are those, in that order, that go with its
  result.

Main results:

* `TapeMachine.Machine.trace_step`, `TapeMachine.Machine.trace_stepFor`,
  `TapeMachine.Machine.trace_run` — the log of a step, of several at once and of a run;
* `TapeMachine.Machine.log_faithful` — **the log tells what happened**.
-/

import TapeMachine.Catalogue
import TapeMachine.Proofs.Reachable

set_option relaxedAutoImplicit false
set_option autoImplicit false

namespace TapeMachine

/-! ### What is in a log -/

/-- A transition as it is reported. -/
structure Move where
  /-- Which transition it is, counted from the start of the machine. -/
  step : Nat
  /-- The symbol that was read. -/
  read : Char
  /-- The symbol that was written. -/
  write : Char
  /-- Where the head went. -/
  direction : Direction
  /-- The state that followed. -/
  state : String
  /-- The position of the head that followed. -/
  head : Int
  deriving DecidableEq, Repr

/-- A rejection for want of a rule as it is reported. -/
structure Refusal where
  /-- The state for which there is no rule. -/
  state : String
  /-- The symbol for which there is no rule. -/
  symbol : Char
  /-- The position of the head. -/
  head : Int
  deriving DecidableEq, Repr

/-- The report of a transition. -/
def Move.event (move : Move) : Event :=
  .transition move.step move.read move.write move.direction move.state move.head

/-- The report of a rejection. -/
def Refusal.event (refusal : Refusal) : Event :=
  .noRule refusal.state refusal.symbol refusal.head

namespace Event

/-- The transition, if the event reports one. -/
def move? : Event → Option Move
  | transition step read write direction state head =>
      some ⟨step, read, write, direction, state, head⟩
  | _ => none

/-- The rejection, if the event reports one. -/
def refusal? : Event → Option Refusal
  | noRule state symbol head => some ⟨state, symbol, head⟩
  | _ => none

end Event

/-- The transitions in a log. -/
def moves (events : List Event) : List Move := events.filterMap Event.move?

/-- The rejections in a log. -/
def refusals (events : List Event) : List Refusal := events.filterMap Event.refusal?

@[simp] theorem moves_append (events events' : List Event) :
    moves (events ++ events') = moves events ++ moves events' := List.filterMap_append

@[simp] theorem refusals_append (events events' : List Event) :
    refusals (events ++ events') = refusals events ++ refusals events' := List.filterMap_append

@[simp] theorem refusals_map_move (ms : List Move) : refusals (ms.map Move.event) = [] := by
  refine List.filterMap_eq_nil_iff.2 ?_
  intro event hevent
  obtain ⟨move, -, rfl⟩ := List.mem_map.1 hevent
  rfl

/-! ### Replaying it -/

/-- The tape and the head after a transition, if it can be made there as it was reported: the symbol
that was read is under the head, and when it has been replaced, the head has moved and the ends of the
tape are in order, the head is where it was reported. -/
def Move.replay (move : Move) (profile : Profile) (blank : Char) (place : Tape × Int) :
    Option (Tape × Int) :=
  if 0 ≤ place.2 ∧ place.1.get? place.2.toNat = some move.read then
    let settled := profile.settle blank (place.1.set place.2.toNat move.write)
      (place.2 + move.direction.offset)
    if settled.2 = move.head then some settled else none
  else none

/-- The tape and the head after transitions in a row, if all of them can be made as reported. -/
def replay (profile : Profile) (blank : Char) (place : Tape × Int) (ms : List Move) :
    Option (Tape × Int) :=
  ms.foldlM (fun place move => move.replay profile blank place) place

theorem replay_singleton (profile : Profile) (blank : Char) (place : Tape × Int) (move : Move) :
    replay profile blank place [move] = move.replay profile blank place := by
  rw [replay, List.foldlM_cons]
  cases move.replay profile blank place <;> rfl

theorem replay_append {profile : Profile} {blank : Char} {place place₁ : Tape × Int}
    {ms : List Move} (h : replay profile blank place ms = some place₁) (ms' : List Move) :
    replay profile blank place (ms ++ ms') = replay profile blank place₁ ms' := by
  rw [replay, List.foldlM_append, ← replay, h]
  rfl

/-- The state that a row of transitions leads to from the given one. -/
def lastState (state : String) (ms : List Move) : String :=
  (ms.getLast?.map Move.state).getD state

theorem lastState_append (state : String) (ms ms' : List Move) :
    lastState state (ms ++ ms') = lastState (lastState state ms) ms' := by
  rw [lastState, lastState, List.getLast?_append]
  cases ms'.getLast? <;> rfl

namespace Machine

variable {m m₁ f : Machine} {events events' : List Event}

/-- Whether the machine has been forced into the rejecting state of a bounded program. -/
def Forced (m : Machine) : Prop :=
  m.program.profile.isBounded = true ∧ m.halt = some .reject

/-- The log tells what happened between the machines `m` and `f`. -/
structure Trace (m f : Machine) (events : List Event) : Prop where
  /-- Both are at work on the same program. -/
  program : f.program = m.program
  /-- There is a report for each transition. -/
  steps : f.steps = m.steps + (moves events).length
  /-- They are numbered without a gap. -/
  numbers : (moves events).map Move.step = List.range' (m.steps + 1) (moves events).length
  /-- Made again one after the other, and checked, they give the tape and the head. -/
  replayed : replay m.program.profile m.program.blank (m.tape, m.head) (moves events) =
    some (f.tape, f.head)
  /-- The last of them gives the state, unless the machine is forced. -/
  state : ¬ f.Forced → f.state = lastState m.state (moves events)
  /-- Where the machine has rejected for want of a rule there is one report of it, with the state
  and the symbol that have no rule; and a bounded program is then in its rejecting state. -/
  refused : m.halt = none → f.halt ≠ none → ∃ symbol,
    refusals events = [⟨lastState m.state (moves events), symbol, f.head⟩] ∧
      f.halt = some .reject ∧ f.symbol? = some symbol ∧
      (∀ r ∈ m.program.rules, ¬ r.appliesTo (lastState m.state (moves events)) symbol) ∧
      ∀ bounds, m.program.profile = .bounded bounds → f.state = bounds.reject
  /-- Otherwise there is none. -/
  silent : (m.halt = none → f.halt = none) → refusals events = []
  /-- A machine that had rejected for want of a rule has stayed as it was. -/
  stays : m.halt ≠ none → f = m ∧ moves events = []

/-! ### Logs in a row -/

theorem not_forced_of_halt (h : m.halt = none) : ¬ m.Forced := by
  rintro ⟨-, hhalt⟩
  rw [h] at hhalt
  exact absurd hhalt.symm (Option.some_ne_none _)

/-- Where nothing happens nothing need be told. -/
theorem Trace.of_nil (hmoves : moves events = []) (hrefusals : refusals events = []) :
    m.Trace m events where
  program := rfl
  steps := by rw [hmoves]; rfl
  numbers := by rw [hmoves]; rfl
  replayed := by rw [hmoves]; rfl
  state _ := by rw [hmoves]; rfl
  refused hnone hsome := absurd hnone hsome
  silent _ := hrefusals
  stays _ := ⟨rfl, hmoves⟩

/-- Reports of anything else can follow. -/
theorem Trace.append_quiet (h : m.Trace f events) (hmoves : moves events' = [])
    (hrefusals : refusals events' = []) : m.Trace f (events ++ events') := by
  have hsame : moves (events ++ events') = moves events := by
    rw [moves_append, hmoves, List.append_nil]
  have hsame' : refusals (events ++ events') = refusals events := by
    rw [refusals_append, hrefusals, List.append_nil]
  constructor
  · exact h.program
  · rw [hsame]
    exact h.steps
  · rw [hsame]
    exact h.numbers
  · rw [hsame]
    exact h.replayed
  · rw [hsame]
    exact h.state
  · rw [hsame, hsame']
    exact h.refused
  · rw [hsame']
    exact h.silent
  · rw [hsame]
    exact h.stays

/-- A log can follow that of a machine that has not rejected. -/
theorem Trace.trans_of_halt (h : m.Trace m₁ events) (h' : m₁.Trace f events')
    (hhalt : m₁.halt = none) : m.Trace f (events ++ events') := by
  have hm : m.halt = none := by
    by_cases hm : m.halt = none
    · exact hm
    · obtain ⟨rfl, -⟩ := h.stays hm
      exact absurd hhalt hm
  have hlast : lastState m.state (moves (events ++ events')) =
      lastState m₁.state (moves events') := by
    rw [moves_append, lastState_append, ← h.state (not_forced_of_halt hhalt)]
  have hrefusals : refusals (events ++ events') = refusals events' := by
    rw [refusals_append, h.silent fun _ => hhalt, List.nil_append]
  constructor
  · exact h'.program.trans h.program
  · rw [h'.steps, h.steps, moves_append, List.length_append, Nat.add_assoc]
  · rw [moves_append, List.map_append, h.numbers, h'.numbers, h.steps, List.length_append,
      ← List.range'_append_1, Nat.add_right_comm]
  · rw [moves_append, replay_append h.replayed, ← h.program]
    exact h'.replayed
  · rw [hlast]
    exact h'.state
  · intro _ hsome
    rw [hlast, hrefusals, ← h.program]
    exact h'.refused hhalt hsome
  · intro hf
    rw [hrefusals]
    exact h'.silent fun _ => hf hm
  · exact absurd hm

/-- **One log can follow the other.** -/
theorem Trace.trans (h : m.Trace m₁ events) (h' : m₁.Trace f events') :
    m.Trace f (events ++ events') := by
  by_cases hhalt : m₁.halt = none
  · exact h.trans_of_halt h' hhalt
  · -- nothing happens any more, so nothing is told that matters
    obtain ⟨rfl, hmoves⟩ := h'.stays hhalt
    exact h.append_quiet hmoves (h'.silent fun hnone => absurd hnone hhalt)

/-! ### The log of a step -/

/-- A rule that is carried out can be made again as it is reported. -/
theorem replay_apply {symbol : Char} (hsymbol : m.symbol? = some symbol) (rule : Rule) :
    Move.replay
      ⟨m.steps + 1, symbol, rule.write, rule.direction, rule.next.name, (m.apply rule).head⟩
      m.program.profile m.program.blank (m.tape, m.head) =
      some ((m.apply rule).tape, (m.apply rule).head) := by
  rw [Move.replay, if_pos (symbol?_eq_some_iff.1 hsymbol)]
  exact if_pos rfl

theorem trace_apply {symbol : Char} (hhalt : m.halt = none) (hsymbol : m.symbol? = some symbol)
    (rule : Rule) :
    m.Trace (m.apply rule) [.transition (m.steps + 1) symbol rule.write rule.direction
      rule.next.name (m.apply rule).head] where
  program := rfl
  steps := rfl
  numbers := rfl
  replayed := (replay_singleton _ _ _ _).trans (replay_apply hsymbol rule)
  state _ := rfl
  refused _ hsome := absurd hhalt hsome
  silent _ := rfl
  stays hsome := absurd hhalt hsome

theorem trace_rejected {symbol : Char} (hhalt : m.halt = none) (hsymbol : m.symbol? = some symbol)
    (hrule : m.transition symbol = none) :
    m.Trace m.rejected [.noRule m.state symbol m.head] where
  program := program_rejected m
  steps := steps_rejected m
  numbers := rfl
  replayed := by
    rw [tape_rejected, head_rejected]
    rfl
  state := by
    intro hforced
    cases hp : m.program.profile with
    | unbounded => exact state_rejected_of_unbounded hp
    | bounded bounds =>
        refine absurd ⟨?_, halt_rejected m⟩ hforced
        rw [program_rejected, hp]
        rfl
  refused _ _ := by
    refine ⟨symbol, ?_, halt_rejected m, ?_, ?_, fun _ hp => state_rejected_of_bounded hp⟩
    · rw [head_rejected]
      rfl
    · rw [symbol?, tape_rejected, head_rejected]
      exact hsymbol
    · exact List.find?_eq_none.1 hrule
  silent hnone := by
    have hrejected := hnone hhalt
    rw [halt_rejected] at hrejected
    exact absurd hrejected (Option.some_ne_none _)
  stays hsome := absurd hhalt hsome

/-- **What a step reports** is nothing where nothing happens, and otherwise the one thing that
happens. -/
theorem stepEvents_cases (m : Machine) :
    (m.stepEvents = [] ∧ m.step.2 = m ∧ m.step.1 ≠ .ok .continue) ∨
      (∃ symbol, m.stepEvents = [.noRule m.state symbol m.head] ∧ m.halted = none ∧
        m.symbol? = some symbol ∧ m.transition symbol = none ∧
        m.step = (.ok (.halt .reject), m.rejected)) ∨
      ∃ symbol rule, m.stepEvents = [.transition (m.steps + 1) symbol rule.write rule.direction
          rule.next.name (m.apply rule).head] ∧ m.halted = none ∧ m.symbol? = some symbol ∧
        m.step = (.ok .continue, m.apply rule) := by
  rcases action_cases m with ⟨verdict, -, haction⟩ | ⟨-, -, haction⟩ |
    ⟨symbol, hhalted, hsymbol, hrule, haction⟩ | ⟨symbol, rule, hhalted, hsymbol, -, haction⟩
  · refine Or.inl ⟨by rw [stepEvents, haction], ?_, ?_⟩ <;> simp [step_of_rest haction]
  · refine Or.inl ⟨by rw [stepEvents, haction], ?_, ?_⟩ <;> simp [step_of_offTape haction]
  · exact Or.inr (Or.inl ⟨symbol, by rw [stepEvents, haction], hhalted, hsymbol, hrule,
      step_of_refuse haction⟩)
  · exact Or.inr (Or.inr ⟨symbol, rule, by rw [stepEvents, haction]; rfl, hhalted, hsymbol,
      step_of_apply haction⟩)

/-- **The log of a step tells what it did.** -/
theorem trace_step (m : Machine) : m.Trace m.step.2 m.stepEvents := by
  rcases stepEvents_cases m with ⟨hevents, hstep, -⟩ |
    ⟨symbol, hevents, hhalted, hsymbol, hrule, hstep⟩ |
    ⟨symbol, rule, hevents, hhalted, hsymbol, hstep⟩
  · rw [hevents, hstep]
    exact .of_nil rfl rfl
  · rw [hevents, hstep]
    exact trace_rejected (halt_eq_none_of_halted hhalted) hsymbol hrule
  · rw [hevents, hstep]
    exact trace_apply (halt_eq_none_of_halted hhalted) hsymbol rule

/-- **The log of several steps at once tells what they did.** -/
theorem trace_stepFor (n : Nat) (m : Machine) :
    m.Trace (m.stepFor n).2 (m.stepForEvents n) := by
  induction n generalizing m with
  | zero => exact .of_nil rfl rfl
  | succ n ih =>
      rw [stepForEvents]
      split
      · rename_i m₁ hstep
        have hgo : m.step.1 = .ok .continue := by rw [hstep]
        obtain rfl : m.step.2 = m₁ := by rw [hstep]
        have hlast : (m.stepFor (n + 1)).2 = (m.step.2.stepFor n).2 := by
          cases n with
          | zero =>
              rw [stepFor_one]
              rfl
          | succ n => rw [stepFor_of_continue hgo]
        rw [hlast]
        exact (trace_step m).trans (ih m.step.2)
      · rename_i hstop
        have hgo : m.step.1 ≠ .ok .continue := fun h => hstop m.step.2 (Prod.ext h rfl)
        rw [stepFor_of_not_continue hgo, List.append_nil]
        exact trace_step m

end Machine

/-! ### Calls -/

/-- What came of a call. -/
inductive Call where
  /-- A step came to the result. -/
  | stepped (result : Except Error Step)
  /-- A run came to the result. -/
  | ran (result : Except Error Outcome)
  /-- A run has not ended yet. -/
  | running

/-- A call with what was reported in it. -/
structure Entry where
  /-- What came of the call. -/
  call : Call
  /-- What was reported. -/
  events : List Event

/-- What closes the reports of a call: how a run has ended, if it has not failed otherwise than by
the cap. -/
def Call.closing (program : String) : Call → List Event
  | stepped _ | running => []
  | ran (.ok outcome) => [.halted program outcome.halt outcome.state outcome.steps]
  | ran (.error (.stepLimitExceeded limit)) => [.limitExceeded program limit]
  | ran (.error _) => []

/-- The reports are those of transitions, then that of a rejection if there is one, and then what
closes the call. -/
def Call.Ordered (program : String) (call : Call) (events : List Event) : Prop :=
  events = (moves events).map Move.event ++
    ((refusals events).map Refusal.event ++ call.closing program)

/-- The reports have their order, and a step reports one thing at most, which is a transition if it
goes on. -/
structure Entry.Shaped (program : String) (entry : Entry) : Prop where
  ordered : entry.call.Ordered program entry.events
  step : ∀ result, entry.call = .stepped result → entry.events.length ≤ 1 ∧
    (moves entry.events ≠ [] ↔ result = .ok .continue)

@[simp] theorem moves_closing (program : String) (call : Call) :
    moves (call.closing program) = [] := by
  fun_cases Call.closing program call <;> rfl

@[simp] theorem refusals_closing (program : String) (call : Call) :
    refusals (call.closing program) = [] := by
  fun_cases Call.closing program call <;> rfl

theorem Call.ordered_closing (program : String) (call : Call) :
    call.Ordered program (call.closing program) := by
  rw [Call.Ordered, moves_closing, refusals_closing]
  rfl

/-- Reports of transitions can come before. -/
theorem Call.Ordered.prepend {program : String} {call : Call} {told events : List Event}
    (h : call.Ordered program events) (htold : told = (moves told).map Move.event) :
    call.Ordered program (told ++ events) := by
  have hrefusals : refusals told = [] := by
    rw [htold]
    exact refusals_map_move _
  rw [Call.Ordered] at h ⊢
  rw [moves_append, refusals_append, hrefusals, List.nil_append, List.map_append,
    List.append_assoc, ← htold, ← h]

/-- The reports of a step can be closed as those of a run. -/
theorem Call.Ordered.close {program : String} {result : Except Error Step} {events : List Event}
    (h : (Call.stepped result).Ordered program events) (call : Call) :
    call.Ordered program (events ++ call.closing program) := by
  rw [Call.Ordered] at h ⊢
  rw [moves_append, refusals_append, moves_closing, refusals_closing, List.append_nil,
    List.append_nil, ← List.append_assoc]
  congr 1
  simpa [Call.closing] using h

/-- What a run that stands there has come to. -/
def Progress.call : Progress Outcome → Call
  | running _ => .running
  | ended result _ => .ran result

namespace Machine

variable {m m₁ f : Machine} {events events' : List Event}

/-- Told to step and to run, the machine comes to what the log says, reports what it says and
becomes another machine.  The last run may not have ended yet. -/
inductive Recorded : Machine → List Entry → Machine → Prop
  | nil {m : Machine} : Recorded m [] m
  | step {m f : Machine} {log : List Entry} :
      Recorded m.step.2 log f → Recorded m (⟨.stepped m.step.1, m.stepEvents⟩ :: log) f
  | run {m m₁ f : Machine} {n : Nat} {result : Except Error Outcome} {log : List Entry} :
      m.runFor n = .ended result m₁ → Recorded m₁ log f →
      Recorded m (⟨.ran result, m.runEventsFor n⟩ :: log) f
  | running {m f : Machine} {n : Nat} :
      m.runFor n = .running f → Recorded m [⟨.running, m.runEventsFor n⟩] f

/-! ### The log of a run -/

/-- A round that leaves the run going reports its transition. -/
theorem roundEvents_of_running (h : m.round = .running m₁) :
    m₁ = m.step.2 ∧ m.roundEvents = m.stepEvents ∧
      m.stepEvents = (moves m.stepEvents).map Move.event := by
  obtain ⟨hnone, hgo, rfl⟩ := continue_of_running h
  obtain ⟨symbol, rule, haction⟩ := step_continue_iff.1 hgo
  have hstep := step_of_apply haction
  refine ⟨rfl, ?_, by rw [stepEvents, haction]; rfl⟩
  rw [roundEvents, hnone, hstep]
  exact List.append_nil _

/-- **What a last round reports** is what its step reports, if it takes one, and then what closes
the run. -/
theorem roundEvents_of_ended {result : Except Error Outcome} (h : m.round = .ended result f) :
    m.roundEvents = (Call.ran result).closing m.program.name ∧ f = m ∨
      m.roundEvents = m.stepEvents ++ (Call.ran result).closing m.program.name ∧
        f = m.step.2 := by
  rcases round_cases m with ⟨limit, hexceeded, hround⟩ | ⟨-, -, hround⟩ |
    ⟨verdict, hnone, hhalt, hround⟩ | ⟨e, hnone, hfail, hround⟩
  · rw [hround] at h
    obtain ⟨rfl, rfl⟩ := Progress.ended.inj h
    rw [roundEvents, hexceeded]
    exact Or.inl ⟨rfl, rfl⟩
  · rw [hround] at h
    exact nomatch h
  · rw [hround] at h
    obtain ⟨rfl, rfl⟩ := Progress.ended.inj h
    have hpair : m.step = (.ok (.halt verdict), m.step.2) := Prod.ext hhalt rfl
    rw [roundEvents, hnone, hpair, ← (step_frame m).1]
    exact Or.inr ⟨rfl, rfl⟩
  · rw [hround] at h
    obtain ⟨rfl, rfl⟩ := Progress.ended.inj h
    have hpair : m.step = (.error e, m.step.2) := Prod.ext hfail rfl
    rw [roundEvents, hnone, hpair, (step_of_error hfail).1]
    exact Or.inr ⟨rfl, rfl⟩

/-- **The log of a round tells what it did.** -/
theorem trace_round (m : Machine) : m.Trace m.round.machine m.roundEvents := by
  cases hround : m.round with
  | running m₁ =>
      obtain ⟨rfl, hevents, -⟩ := roundEvents_of_running hround
      rw [hevents]
      exact trace_step m
  | ended result f =>
      have hmoves := moves_closing m.program.name (.ran result)
      have hrefusals := refusals_closing m.program.name (.ran result)
      rcases roundEvents_of_ended hround with ⟨hevents, rfl⟩ | ⟨hevents, rfl⟩
      · rw [hevents]
        exact .of_nil hmoves hrefusals
      · rw [hevents]
        exact (trace_step m).append_quiet hmoves hrefusals

/-- **The log of a run tells what it did**, also of one that has not ended. -/
theorem trace_run (n : Nat) (m : Machine) : m.Trace (m.runFor n).machine (m.runEventsFor n) := by
  induction n generalizing m with
  | zero => exact .of_nil rfl rfl
  | succ n ih =>
      have hfirst := trace_round m
      rw [runFor_succ, runEventsFor]
      cases hround : m.round with
      | running m₁ =>
          rw [hround] at hfirst
          exact hfirst.trans (ih m₁)
      | ended result f =>
          rw [hround] at hfirst
          rw [List.append_nil]
          exact hfirst

theorem trace_of_runFor {n : Nat} {progress : Progress Outcome} (h : m.runFor n = progress) :
    m.Trace progress.machine (m.runEventsFor n) := by
  rw [← h]
  exact trace_run n m

/-- A step reports its transition or its rejection and nothing else. -/
theorem ordered_step (m : Machine) :
    (Call.stepped m.step.1).Ordered m.program.name m.stepEvents := by
  rcases stepEvents_cases m with ⟨hevents, -, -⟩ | ⟨symbol, hevents, -, -, -, -⟩ |
    ⟨symbol, rule, hevents, -, -, -⟩
  · rw [hevents]
    rfl
  · rw [hevents]
    rfl
  · rw [hevents]
    rfl

/-- **A run reports its transitions, then its rejection if there is one, and then how it ended.** -/
theorem ordered_run (n : Nat) (m : Machine) :
    (m.runFor n).call.Ordered m.program.name (m.runEventsFor n) := by
  induction n generalizing m with
  | zero => rfl
  | succ n ih =>
      rw [runFor_succ, runEventsFor]
      cases hround : m.round with
      | running m₁ =>
          obtain ⟨rfl, hevents, hmoves⟩ := roundEvents_of_running hround
          have hrest := ih m.step.2
          rw [(step_frame m).1] at hrest
          rw [hevents]
          exact hrest.prepend hmoves
      | ended result f =>
          rw [List.append_nil]
          rcases roundEvents_of_ended hround with ⟨hevents, -⟩ | ⟨hevents, -⟩
          · rw [hevents]
            exact Call.ordered_closing _ _
          · rw [hevents]
            exact (ordered_step m).close _

/-! ### The log of a session -/

/-- A step reports one thing at most, and a transition exactly if it goes on. -/
theorem shaped_step (m : Machine) :
    Entry.Shaped m.program.name ⟨.stepped m.step.1, m.stepEvents⟩ where
  ordered := ordered_step m
  step := by
    intro result hcall
    obtain rfl := Call.stepped.inj hcall
    rcases stepEvents_cases m with ⟨hevents, -, hidle⟩ | ⟨symbol, hevents, -, -, -, hstep⟩ |
      ⟨symbol, rule, hevents, -, -, hstep⟩
    · simp [hevents, hidle, moves]
    · simp [hevents, hstep, moves, Event.move?]
    · simp [hevents, hstep, moves, Event.move?]

theorem shaped_run {n : Nat} {progress : Progress Outcome} (h : m.runFor n = progress) :
    Entry.Shaped m.program.name ⟨progress.call, m.runEventsFor n⟩ where
  ordered := by
    rw [← h]
    exact ordered_run n m
  step := by
    intro result hcall
    cases progress with
    | running f => exact nomatch hcall
    | ended result' f => exact nomatch hcall

variable {log : List Entry}

/-- **The log of a session tells what happened in it.** -/
theorem Recorded.trace (h : m.Recorded log f) : m.Trace f (log.flatMap Entry.events) := by
  induction h with
  | nil => exact .of_nil rfl rfl
  | step _ ih => exact (trace_step _).trans ih
  | run hrun _ ih => exact (trace_of_runFor hrun).trans ih
  | running hrun =>
      rw [List.flatMap_singleton]
      exact trace_of_runFor hrun

theorem Recorded.shaped (h : m.Recorded log f) : ∀ entry ∈ log, entry.Shaped m.program.name := by
  induction h with
  | nil => exact fun _ hmem => nomatch hmem
  | @step m _ _ _ ih =>
      rw [(step_frame m).1] at ih
      exact List.forall_mem_cons.2 ⟨shaped_step m, ih⟩
  | @run m m₁ _ _ _ _ hrun _ ih =>
      have hprogram : m₁.program = m.program := (trace_of_runFor hrun).program
      rw [hprogram] at ih
      exact List.forall_mem_cons.2 ⟨shaped_run hrun, ih⟩
  | running hrun => exact List.forall_mem_singleton.2 (shaped_run hrun)

/-- **The log tells what happened.**  Whatever machine is told to step and to run: the transitions
reported are as many as the count of steps has risen by and numbered without a gap; made again from
the tape and the head of the machine and checked they give each head that was reported, and the tape
and the head in the end; the last of them gives the state, unless the machine is forced.  A rejection
for want of a rule is reported once and only if there was one.  And a call reports nothing else but,
in the end of a run, its outcome or that the cap was reached. -/
theorem log_faithful (h : m.Recorded log f) :
    m.Trace f (log.flatMap Entry.events) ∧ ∀ entry ∈ log, entry.Shaped m.program.name :=
  ⟨h.trace, h.shaped⟩

/-- A step and a run force an odd number of ones into the rejecting state, and a further step reports
nothing; and a run that is back at the first cell for the second time finds the cap reached, and so
does the next one. -/
theorem log_faithful_forced_and_capped :
    (∃ m f log, Machine.new (Catalogue.evenOnes.withInput "1") = .ok m ∧ m.Recorded log f ∧
      log = [⟨.stepped (.ok .continue), [.transition 1 '1' '1' .right "odd" 2]⟩,
        ⟨.ran (.ok ⟨.reject, "reject", "1", 1⟩),
          [.noRule "odd" '_' 2, .halted "even-ones" .reject "reject" 1]⟩,
        ⟨.stepped (.ok (.halt .reject)), []⟩] ∧
      f.Forced ∧ f.state = "reject" ∧ m.Trace f (log.flatMap Entry.events)) ∧
    ∃ m f log, Machine.new (Catalogue.rewind.withMaxSteps 3) = .ok m ∧ m.Recorded log f ∧
      log = [⟨.ran (.error (.stepLimitExceeded 3)),
          [.transition 1 '1' 'x' .left "back" 1, .transition 2 '1' 'x' .left "back" 0,
            .transition 3 '1' 'x' .left "back" 0, .limitExceeded "rewind" 3]⟩,
        ⟨.ran (.error (.stepLimitExceeded 3)), [.limitExceeded "rewind" 3]⟩] ∧
      replay .unbounded '_' (⟨['1', '1', '1']⟩, 2) (moves (log.flatMap Entry.events)) =
        some (⟨['x', 'x', 'x']⟩, 0) ∧
      f.state = "back" ∧ ∀ entry ∈ log, entry.Shaped "rewind" := by
  constructor
  · have hlog : (initial (Catalogue.evenOnes.withInput "1") "even").Recorded _ _ :=
      .step (.run (n := 1) rfl (.step .nil))
    exact ⟨_, _, _, rfl, hlog, rfl, ⟨rfl, rfl⟩, rfl, (log_faithful hlog).1⟩
  · have hlog : (initial (Catalogue.rewind.withMaxSteps 3) "back").Recorded _ _ :=
      .run (n := 4) rfl (.run (n := 1) rfl .nil)
    obtain ⟨htrace, hshaped⟩ := log_faithful hlog
    exact ⟨_, _, _, rfl, hlog, rfl, htrace.replayed, htrace.state fun h => (nomatch h.2),
      hshaped⟩

end Machine

end TapeMachine
