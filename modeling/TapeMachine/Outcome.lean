/-
**How a step and a run end.**

Main definitions:

* `TapeMachine.Halt` — the two verdicts;
* `TapeMachine.Step` — what one step comes to;
* `TapeMachine.Outcome` — what a run leaves to see.
-/

set_option relaxedAutoImplicit false
set_option autoImplicit false

namespace TapeMachine

/-- The verdict of a machine that has halted. -/
inductive Halt where
  /-- An accepting state was entered. -/
  | accept
  /-- No rule applied, or the rejecting state was entered. -/
  | reject
  deriving DecidableEq, Repr

/-- What one step comes to. -/
inductive Step where
  /-- A rule was applied and the machine goes on. -/
  | continue
  /-- The machine has halted. -/
  | halt (verdict : Halt)
  deriving DecidableEq, Repr

/-- What a run that halted leaves to see. -/
structure Outcome where
  /-- The verdict. -/
  halt : Halt
  /-- The name of the state in which the machine halted. -/
  state : String
  /-- The content of the tape, without sentinels. -/
  tape : String
  /-- The number of rules applied. -/
  steps : Nat
  deriving DecidableEq, Repr

namespace Halt

/-- The verdict in one word of running text. -/
def word : Halt → String
  | accept => "accept"
  | reject => "reject"

/-- The verdict as a name of its own. -/
def name : Halt → String
  | accept => "Accept"
  | reject => "Reject"

end Halt

end TapeMachine
