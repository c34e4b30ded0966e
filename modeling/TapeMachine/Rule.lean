/-
**Rules.**

A rule says what a machine does in one state on one symbol: the symbol it writes, the way the
head goes, and the state that follows.

Main definitions:

* `TapeMachine.Rule` — one such entry of the rule table;
* `TapeMachine.Rule.appliesTo` — whether a rule is the entry for a state and a symbol.
-/

import TapeMachine.Direction
import TapeMachine.State

set_option relaxedAutoImplicit false
set_option autoImplicit false

namespace TapeMachine

/-- What a machine does in one state on one symbol. -/
structure Rule where
  /-- The state in which the rule applies. -/
  current : State
  /-- The symbol on which the rule applies. -/
  read : Char
  /-- The state that follows. -/
  next : State
  /-- The symbol that replaces the one read. -/
  write : Char
  /-- Where the head goes after the write. -/
  direction : Direction
  deriving DecidableEq, Repr

namespace Rule

/-- Whether the rule is the entry for the state called `name` and the given symbol. -/
def appliesTo (r : Rule) (name : String) (symbol : Char) : Bool :=
  decide (r.current.name = name) && decide (r.read = symbol)

/-- The states that the rule mentions, the one it leaves first. -/
def states (r : Rule) : List State := [r.current, r.next]

/-- The symbols that the rule mentions, the one it reads first. -/
def symbols (r : Rule) : List Char := [r.read, r.write]

/-- How a message names the place of the rule in the rule table. -/
def entry (r : Rule) : String := s!"{r.current.name} on '{r.read}'"

/-- A rule applies to its own state and symbol and to nothing else. -/
@[simp] theorem appliesTo_iff {r : Rule} {name : String} {symbol : Char} :
    r.appliesTo name symbol = true ↔ r.current.name = name ∧ r.read = symbol := by
  simp [appliesTo]

end Rule

end TapeMachine
