/-
**What a machine is told and what it answers.**

A machine is told to step, to run in one of three forms, or to begin anew; it answers each time,
unless a run does not end, and after each answer its state, tape, head, count and verdict can be
seen (`Machine.View`).  A session is a row of operations with what came of each of them
(`Machine.Performs`).  Nothing in a session is left open but what the machine is told
(`Machine.Performs.unique`).

Two machines that give the same sessions need not be equal, since a session shows neither the rule
table nor the names that accept.  To see that they do, it is enough to find a relation between
machines that look the same and are in the same position, and that is kept where a rule is carried
out, where one is wanting and where the machine begins anew (`Machine.Bisimulation`).  A step then
comes to the same on both sides, so the machines go in lock step, and a run comes to the same too.

Main definitions:

* `TapeMachine.Operation`, `TapeMachine.Answer` — what a machine can be told, and what it answers;
* `TapeMachine.Machine.View`, `TapeMachine.Machine.view` — what can be seen of a machine;
* `TapeMachine.Machine.Answers`, `TapeMachine.Machine.Performs` — one operation, and a session;
* `TapeMachine.Machine.Bisimulation` — a relation between machines that cannot be told apart.

Main results:

* `TapeMachine.Machine.Performs.unique` — a session is determined by the operations;
* `TapeMachine.Machine.performs_append_iff`, `TapeMachine.Machine.Performs.frame` — a session can be
  cut in two, and changes nothing of what the machine was made from;
* `TapeMachine.Machine.performs_iff_of_stays` — a machine that is left as it is goes on giving the
  same answers;
* `TapeMachine.Machine.Bisimulation.performs`, `TapeMachine.Machine.Bisimulation.performs_iff` —
  **related machines give the same sessions**.
-/

import TapeMachine.Proofs.LockStep

set_option relaxedAutoImplicit false
set_option autoImplicit false

namespace TapeMachine

/-! ### Operations and answers -/

/-- What a machine can be told to do. -/
inductive Operation where
  /-- To take one step. -/
  | step
  /-- To run until it halts. -/
  | run
  /-- To run, and to show the tape only. -/
  | simulate
  /-- To run, and to show the tape and the state only. -/
  | execute
  /-- To begin anew. -/
  | reset
  deriving DecidableEq, Repr

/-- What a machine answers. -/
inductive Answer where
  /-- What a step came to. -/
  | stepped (result : Except Error Step)
  /-- What a run came to. -/
  | ran (result : Except Error Outcome)
  /-- What a run came to, with the tape only. -/
  | simulated (result : Except Error String)
  /-- What a run came to, with the tape and the state only. -/
  | executed (result : Except Error (String × String))
  /-- The machine has begun anew. -/
  | begun
  deriving Repr

/-- The answer to an operation if a step comes to `stepped` and a run to `ran`. -/
def Operation.answer (stepped : Except Error Step) (ran : Except Error Outcome) :
    Operation → Answer
  | step => .stepped stepped
  | run => .ran ran
  | simulate => .simulated (ran.map Outcome.tape)
  | execute => .executed (ran.map fun outcome => (outcome.tape, outcome.state))
  | reset => .begun

namespace Machine

/-- What can be seen of a machine. -/
structure View where
  /-- The name of the present state. -/
  state : String
  /-- The present tape. -/
  tape : Tape
  /-- The position of the head. -/
  head : Int
  /-- The number of rules applied. -/
  steps : Nat
  /-- The verdict, if the machine has halted. -/
  halted : Option Halt
  deriving DecidableEq, Repr

/-- What can be seen of the machine. -/
def view (m : Machine) : View := ⟨m.state, m.tape, m.head, m.steps, m.halted⟩

/-- Told to do the operation, `m` gives the answer and becomes another machine.  A run that does
not end gives no answer. -/
inductive Answers (m : Machine) : Operation → Answer → Machine → Prop
  | step : Answers m .step (.stepped m.step.1) m.step.2
  | run {n : Nat} {result : Except Error Outcome} {m' : Machine} :
      m.runFor n = .ended result m' → Answers m .run (.ran result) m'
  | simulate {n : Nat} {result : Except Error String} {m' : Machine} :
      m.simulateFor n = .ended result m' → Answers m .simulate (.simulated result) m'
  | execute {n : Nat} {result : Except Error (String × String)} {m' : Machine} :
      m.executeFor n = .ended result m' → Answers m .execute (.executed result) m'
  | reset : Answers m .reset .begun m.reset

/-- Told to do one operation after the other, the machine gives the answers of the log, looks as
the log says after each of them, and becomes another machine in the end. -/
inductive Performs : Machine → List Operation → List (Answer × View) → Machine → Prop
  | nil {m : Machine} : Performs m [] [] m
  | cons {m m₁ m₂ : Machine} {op : Operation} {answer : Answer} {ops : List Operation}
      {log : List (Answer × View)} :
      m.Answers op answer m₁ → Performs m₁ ops log m₂ →
      Performs m (op :: ops) ((answer, m₁.view) :: log) m₂

/-! ### Sessions are determined by the operations -/

/-- A run ends in one way only, in whatever form. -/
theorem map_runFor_unique {α : Type} {f : Outcome → α} {n₁ n₂ : Nat} {m m₁ m₂ : Machine}
    {r₁ r₂ : Except Error α} (h₁ : (m.runFor n₁).map f = .ended r₁ m₁)
    (h₂ : (m.runFor n₂).map f = .ended r₂ m₂) : r₁ = r₂ ∧ m₁ = m₂ := by
  obtain ⟨result₁, hrun₁, rfl⟩ := Progress.map_eq_ended_iff.1 h₁
  obtain ⟨result₂, hrun₂, rfl⟩ := Progress.map_eq_ended_iff.1 h₂
  obtain ⟨rfl, rfl⟩ := Ends.unique ⟨n₁, hrun₁⟩ ⟨n₂, hrun₂⟩
  exact ⟨rfl, rfl⟩

/-- A machine has one answer to an operation. -/
theorem Answers.unique {m m₁ m₂ : Machine} {op : Operation} {a₁ a₂ : Answer}
    (h₁ : m.Answers op a₁ m₁) (h₂ : m.Answers op a₂ m₂) : a₁ = a₂ ∧ m₁ = m₂ := by
  cases h₁ with
  | step =>
      cases h₂ with
      | step => exact ⟨rfl, rfl⟩
  | run hrun₁ =>
      cases h₂ with
      | run hrun₂ =>
          obtain ⟨hresult, hm⟩ := Ends.unique ⟨_, hrun₁⟩ ⟨_, hrun₂⟩
          exact ⟨congrArg Answer.ran hresult, hm⟩
  | simulate hrun₁ =>
      cases h₂ with
      | simulate hrun₂ =>
          obtain ⟨hresult, hm⟩ := map_runFor_unique hrun₁ hrun₂
          exact ⟨congrArg Answer.simulated hresult, hm⟩
  | execute hrun₁ =>
      cases h₂ with
      | execute hrun₂ =>
          obtain ⟨hresult, hm⟩ := map_runFor_unique hrun₁ hrun₂
          exact ⟨congrArg Answer.executed hresult, hm⟩
  | reset =>
      cases h₂ with
      | reset => exact ⟨rfl, rfl⟩

/-- **A session is determined by the operations.** -/
theorem Performs.unique {m m₁ m₂ : Machine} {ops : List Operation}
    {log₁ log₂ : List (Answer × View)} (h₁ : m.Performs ops log₁ m₁)
    (h₂ : m.Performs ops log₂ m₂) : log₁ = log₂ ∧ m₁ = m₂ := by
  induction h₁ generalizing log₂ m₂ with
  | nil =>
      cases h₂ with
      | nil => exact ⟨rfl, rfl⟩
  | cons hanswer₁ _ ih =>
      cases h₂ with
      | cons hanswer₂ hrest₂ =>
          obtain ⟨rfl, rfl⟩ := hanswer₁.unique hanswer₂
          obtain ⟨rfl, rfl⟩ := ih hrest₂
          exact ⟨rfl, rfl⟩

/-- **A session can be cut in two** after any of its operations. -/
theorem performs_append_iff {m f : Machine} {ops ops' : List Operation}
    {log : List (Answer × View)} :
    m.Performs (ops ++ ops') log f ↔
      ∃ log₁ m₁ log₂, log = log₁ ++ log₂ ∧ m.Performs ops log₁ m₁ ∧ m₁.Performs ops' log₂ f := by
  constructor
  · intro h
    induction ops generalizing m log with
    | nil => exact ⟨[], m, log, rfl, .nil, h⟩
    | cons op ops ih =>
        cases h with
        | cons hanswer hrest =>
            obtain ⟨log₁, m₁, log₂, rfl, hfirst, hsecond⟩ := ih hrest
            exact ⟨_ :: log₁, m₁, log₂, rfl, .cons hanswer hfirst, hsecond⟩
  · rintro ⟨log₁, m₁, log₂, rfl, hfirst, hsecond⟩
    induction hfirst with
    | nil => exact hsecond
    | cons hanswer _ ih => exact .cons hanswer (ih hsecond)

/-- No answer changes what a machine was made from. -/
theorem Answers.frame {m f : Machine} {op : Operation} {answer : Answer}
    (h : m.Answers op answer f) :
    f.program = m.program ∧ f.start = m.start ∧ f.accepting = m.accepting := by
  cases h with
  | step => exact step_frame m
  | run hrun => exact (Advances.refl.run hrun).frame
  | simulate hrun => exact (Advances.refl.simulate hrun).frame
  | execute hrun => exact (Advances.refl.execute hrun).frame
  | reset => exact ⟨rfl, rfl, rfl⟩

/-- **No session changes what a machine was made from.** -/
theorem Performs.frame {m f : Machine} {ops : List Operation} {log : List (Answer × View)}
    (h : m.Performs ops log f) :
    f.program = m.program ∧ f.start = m.start ∧ f.accepting = m.accepting := by
  induction h with
  | nil => exact ⟨rfl, rfl, rfl⟩
  | cons hanswer _ ih =>
      obtain ⟨hprogram, hstart, haccepting⟩ := hanswer.frame
      exact ⟨ih.1.trans hprogram, ih.2.1.trans hstart, ih.2.2.trans haccepting⟩

/-- **A machine that every operation leaves as it is goes on giving the same answers.** -/
theorem performs_iff_of_stays {m f : Machine} {ops : List Operation} {log : List (Answer × View)}
    {answer : Operation → Answer} (h : ∀ op ∈ ops, m.Answers op (answer op) m) :
    m.Performs ops log f ↔ f = m ∧ log = ops.map fun op => (answer op, m.view) := by
  have hstays : m.Performs ops (ops.map fun op => (answer op, m.view)) m := by
    induction ops with
    | nil => exact .nil
    | cons op ops ih =>
        obtain ⟨hfirst, hrest⟩ := List.forall_mem_cons.1 h
        exact .cons hfirst (ih hrest)
  constructor
  · intro hperforms
    obtain ⟨hlog, hf⟩ := hperforms.unique hstays
    exact ⟨hf, hlog⟩
  · rintro ⟨rfl, rfl⟩
    exact hstays

/-! ### Machines that cannot be told apart -/

/-- The relation holds between machines that look the same, show the same of the tape, have the
same cap and are in the same position, and it is kept where a rule is carried out, where a rule is
wanting and where both begin anew. -/
structure Bisimulation (R : Machine → Machine → Prop) : Prop where
  view : ∀ {m m'}, R m m' → m'.view = m.view
  content : ∀ {m m'}, R m m' → m'.tapeContent = m.tapeContent
  cap : ∀ {m m'}, R m m' → m'.program.maxSteps = m.program.maxSteps
  action : ∀ {m m'}, R m m' → m'.action = m.action
  apply : ∀ {m m' symbol rule}, R m m' → m.action = .apply symbol rule →
    R (m.apply rule) (m'.apply rule)
  rejected : ∀ {m m' symbol}, R m m' → m.action = .refuse symbol → R m.rejected m'.rejected
  reset : ∀ {m m'}, R m m' → R m.reset m'.reset

namespace Bisimulation

variable {R : Machine → Machine → Prop} {m m' : Machine}

/-- Both leave the same to see. -/
theorem outcome (hR : Bisimulation R) (h : R m m') (verdict : Halt) :
    m'.outcome verdict = m.outcome verdict := by
  have hview := hR.view h
  have hstate : m'.state = m.state := congrArg View.state hview
  have hsteps : m'.steps = m.steps := congrArg View.steps hview
  rw [Machine.outcome, Machine.outcome, hR.content h, hstate, hsteps]

/-- **A step comes to the same on both sides.** -/
theorem step (hR : Bisimulation R) (h : R m m') :
    m'.step.1 = m.step.1 ∧ R m.step.2 m'.step.2 := by
  have hview := hR.view h
  have htape : m'.tape = m.tape := congrArg View.tape hview
  have hhead : m'.head = m.head := congrArg View.head hview
  have haction := hR.action h
  cases hposition : m.action with
  | rest verdict =>
      rw [step_of_rest hposition, step_of_rest (haction.trans hposition)]
      exact ⟨rfl, h⟩
  | offTape =>
      rw [step_of_offTape hposition, step_of_offTape (haction.trans hposition), hhead, htape]
      exact ⟨rfl, h⟩
  | refuse symbol =>
      rw [step_of_refuse hposition, step_of_refuse (haction.trans hposition)]
      exact ⟨rfl, hR.rejected h hposition⟩
  | apply symbol rule =>
      rw [step_of_apply hposition, step_of_apply (haction.trans hposition)]
      exact ⟨rfl, hR.apply h hposition⟩

/-- Related machines go in lock step. -/
theorem lockStep (hR : Bisimulation R) : LockStep R where
  cap := hR.cap
  steps h := congrArg View.steps (hR.view h)
  step_fst h := (hR.step h).1
  step_snd h := (hR.step h).2

/-- **A run comes to the same on both sides.** -/
theorem runFor (hR : Bisimulation R) {n : Nat} {result : Except Error Outcome} {f : Machine}
    (h : R m m') (hrun : m.runFor n = .ended result f) :
    ∃ f', m'.runFor n = .ended result f' ∧ R f f' := by
  have hpaired := hR.lockStep.runFor h n
  rw [hrun] at hpaired
  generalize m'.runFor n = progress' at hpaired ⊢
  cases hpaired with
  | failed e hlast => exact ⟨_, rfl, hlast⟩
  | halted verdict hlast => exact ⟨_, by rw [hR.outcome hlast], hlast⟩

theorem map_runFor (hR : Bisimulation R) {α : Type} {shown : Outcome → α} {n : Nat}
    {result : Except Error α} {f : Machine} (h : R m m')
    (hrun : (m.runFor n).map shown = .ended result f) :
    ∃ f', (m'.runFor n).map shown = .ended result f' ∧ R f f' := by
  obtain ⟨result₁, hrun₁, rfl⟩ := Progress.map_eq_ended_iff.1 hrun
  obtain ⟨f', hrun', hlast⟩ := hR.runFor h hrun₁
  exact ⟨f', Progress.map_eq_ended_iff.2 ⟨result₁, hrun', rfl⟩, hlast⟩

/-- Both give the same answer to an operation. -/
theorem answers (hR : Bisimulation R) {op : Operation} {answer : Answer} {f : Machine}
    (h : R m m') (hanswers : m.Answers op answer f) :
    ∃ f', m'.Answers op answer f' ∧ R f f' := by
  cases hanswers with
  | step =>
      obtain ⟨hstep, hnext⟩ := hR.step h
      rw [← hstep]
      exact ⟨m'.step.2, .step, hnext⟩
  | run hrun =>
      obtain ⟨f', hrun', hlast⟩ := hR.runFor h hrun
      exact ⟨f', .run hrun', hlast⟩
  | simulate hrun =>
      obtain ⟨f', hrun', hlast⟩ := hR.map_runFor h hrun
      exact ⟨f', .simulate hrun', hlast⟩
  | execute hrun =>
      obtain ⟨f', hrun', hlast⟩ := hR.map_runFor h hrun
      exact ⟨f', .execute hrun', hlast⟩
  | reset => exact ⟨m'.reset, .reset, hR.reset h⟩

/-- **Related machines give the same sessions.** -/
theorem performs (hR : Bisimulation R) {ops : List Operation} {log : List (Answer × View)}
    {f : Machine} (h : R m m') (hperforms : m.Performs ops log f) :
    ∃ f', m'.Performs ops log f' ∧ R f f' := by
  induction hperforms generalizing m' with
  | nil => exact ⟨m', .nil, h⟩
  | cons hanswer _ ih =>
      obtain ⟨m₁', hanswer', hnext⟩ := hR.answers h hanswer
      obtain ⟨f', hrest', hlast⟩ := ih hnext
      have hsession := Performs.cons hanswer' hrest'
      rw [hR.view hnext] at hsession
      exact ⟨f', hsession, hlast⟩

/-- The relation can be read from the other side. -/
theorem symm (hR : Bisimulation R) : Bisimulation fun m' m => R m m' where
  view h := (hR.view h).symm
  content h := (hR.content h).symm
  cap h := (hR.cap h).symm
  action h := (hR.action h).symm
  apply h hposition := hR.apply h ((hR.action h).symm.trans hposition)
  rejected h hposition := hR.rejected h ((hR.action h).symm.trans hposition)
  reset h := hR.reset h

/-- **Related machines give the same sessions**, whichever of them is told first. -/
theorem performs_iff (hR : Bisimulation R) (h : R m m') {ops : List Operation}
    {log : List (Answer × View)} :
    (∃ f, m.Performs ops log f) ↔ ∃ f', m'.Performs ops log f' := by
  constructor
  · rintro ⟨f, hsession⟩
    obtain ⟨f', hsession', -⟩ := hR.performs h hsession
    exact ⟨f', hsession'⟩
  · rintro ⟨f', hsession'⟩
    obtain ⟨f, hsession, -⟩ := hR.symm.performs h hsession'
    exact ⟨f, hsession⟩

end Bisimulation

end Machine

end TapeMachine
