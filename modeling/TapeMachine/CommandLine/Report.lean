/-
**What the command shows.**

Main definitions:

* `TapeMachine.CommandLine.summaryLine` — a line of the listing;
* `TapeMachine.CommandLine.stateLine` — where a machine stands;
* `TapeMachine.CommandLine.outcomeLines` — the end of a run;
* `TapeMachine.CommandLine.Fault` — why the command failed, and how that is said.
-/

import TapeMachine.Catalogue
import TapeMachine.Encoding
import TapeMachine.Json.Layout
import TapeMachine.Machine

set_option relaxedAutoImplicit false
set_option autoImplicit false

namespace TapeMachine

namespace CommandLine

/-- A text with spaces after it up to the given width. -/
def column (width : Nat) (text : String) : String :=
  text ++ String.ofList (List.replicate (width - text.length) ' ')

/-- A line of the listing. -/
def summaryLine (s : Catalogue.Summary) : String :=
  let policy := if s.bounded then "bounded" else "unbounded"
  column 18 s.name ++ " " ++ column 9 policy ++ " tape: " ++ column 10 s.initialTape ++
    s!" states: {s.stateCount} rules: {s.ruleCount}"

/-- Where a machine stands. -/
def stateLine (m : Machine) : String :=
  s!"Step: {m.steps}, State: {m.state}, Tape: {m.tape.text}, Head: {m.head}"

/-- That a machine has halted. -/
def haltLine (verdict : Halt) : String := s!"Machine halted: {verdict.word}"

/-- The end of a run in words. -/
def plainLines (initial : String) (bounded : Bool) (o : Outcome) : List String :=
  [s!"Original tape: {initial}", s!"Result: {o.tape}"] ++
    if bounded then [s!"Final State: {o.state}"] else []

/-- The end of a run of the program, as JSON or in words. -/
def outcomeLines (json : Bool) (p : Program) (o : Outcome) : List String :=
  if json then [o.toJson.indented] else plainLines p.initialTape p.profile.isBounded o

/-- Why the command failed. -/
inductive Fault where
  /-- Something went wrong before a program was run. -/
  | plain (e : Error)
  /-- Something went wrong with the program called `name`. -/
  | running (name : String) (e : Error)
  deriving DecidableEq, Repr

namespace Fault

/-- The lines that say why the command failed. -/
def lines : Fault → List String
  | plain e => [s!"Error: {e.message}"]
  | running name e => [s!"Error: running '{name}'", "", "Caused by:", "    " ++ e.message]

end Fault

end CommandLine

end TapeMachine
