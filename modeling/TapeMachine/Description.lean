/-
**Bounded programs described by names.**

A bounded program is described most easily by names alone: the states, the alphabet, the entries
of the rule table, and which names start, accept and reject.  The program for an input follows
from that: a state carries the flag of starting or accepting exactly when its name is the one
declared for it, the input stands between two sentinels, and the head is on the first cell after
the left sentinel.

Main definitions:

* `TapeMachine.Description` — a bounded program without its input;
* `TapeMachine.Description.ofNames` — the description with three names and nothing else;
* `TapeMachine.Description.build` — the program for an input.

Main results:

* `TapeMachine.Description.initialTape_build` — the program shows the input it was built for;
* `TapeMachine.Description.withInput_build` — replacing the input is building for it.
-/

import TapeMachine.Program

set_option relaxedAutoImplicit false
set_option autoImplicit false

namespace TapeMachine

/-- An entry of a rule table between names of states. -/
structure Edge where
  /-- The name of the state that is left. -/
  source : String
  /-- The symbol that is read. -/
  read : Char
  /-- The name of the state that follows. -/
  target : String
  /-- The symbol that is written. -/
  write : Char
  /-- Where the head goes. -/
  direction : Direction
  deriving DecidableEq, Repr

/-- A bounded program without its input. -/
structure Description where
  /-- The name of the program. -/
  name : String
  /-- The names of the states. -/
  states : List String
  /-- The symbols, apart from the blank. -/
  alphabet : List Char
  /-- The rule table. -/
  edges : List Edge
  /-- The name of the state in which the program starts. -/
  start : String
  /-- The name of the state that accepts. -/
  accept : String
  /-- The name of the state that rejects. -/
  reject : String
  /-- The blank, which is also the sentinel. -/
  blank : Char
  /-- The cap on transitions, if there is one. -/
  maxSteps : Option Nat
  deriving DecidableEq, Repr

namespace Description

/-- The description with the three names for starting, accepting and rejecting, and nothing
else. -/
def ofNames (start accept reject : String) : Description :=
  ⟨defaultName, [], [], [], start, accept, reject, defaultBlank, none⟩

/-- The description under another name. -/
def withName (d : Description) (name : String) : Description := { d with name := name }

/-- The description with further states. -/
def withStates (d : Description) (names : List String) : Description :=
  { d with states := d.states ++ names }

/-- The description with further symbols. -/
def withAlphabet (d : Description) (symbols : List Char) : Description :=
  { d with alphabet := d.alphabet ++ symbols }

/-- The description with a further entry. -/
def withEdge (d : Description) (edge : Edge) : Description := { d with edges := d.edges ++ [edge] }

/-- The description with another blank. -/
def withBlank (d : Description) (blank : Char) : Description := { d with blank := blank }

/-- The description with a cap on transitions. -/
def withMaxSteps (d : Description) (limit : Nat) : Description := { d with maxSteps := some limit }

/-- The mention of the state called `name`. -/
def state (d : Description) (name : String) : State :=
  ⟨name, decide (name = d.start), decide (name = d.accept)⟩

/-- The rule for an entry of the table. -/
def rule (d : Description) (edge : Edge) : Rule :=
  ⟨d.state edge.source, edge.read, d.state edge.target, edge.write, edge.direction⟩

/-- What the program declares. -/
def bounds (d : Description) : Bounds := ⟨d.states, d.alphabet, d.start, d.accept, d.reject⟩

/-- The program for an input. -/
def build (d : Description) (input : String) : Program :=
  ⟨d.name, .bounded d.bounds, d.edges.map d.rule, Tape.padded input d.blank, 1, d.blank,
    d.maxSteps⟩

/-- **The program shows the input it was built for.** -/
@[simp] theorem initialTape_build (d : Description) (input : String) :
    (d.build input).initialTape = input :=
  Tape.interior_padded input d.blank

/-- **Replacing the input is building for it.** -/
@[simp] theorem withInput_build (d : Description) (s t : String) :
    (d.build s).withInput t = d.build t := rfl

end Description

end TapeMachine
