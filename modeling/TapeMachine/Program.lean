/-
**Programs.**

A program is everything a machine needs in order to run: the rule table, the tape and head
position it begins with, the blank, a policy for halting and for the ends of the tape, and
possibly a cap on the number of transitions.

Under the *unbounded* policy the tape grows on the right as the head leaves it, the head stays on
the first cell when it would leave it on the left, and halting is a matter of the flags of the
states.  Under the *bounded* policy the tape has a sentinel at either end and never grows, and the
states for starting, accepting and rejecting are given by name.

Main definitions:

* `TapeMachine.Bounds`, `TapeMachine.Profile` — the two policies and what the second one declares;
* `TapeMachine.Profile.tapeOf`, `TapeMachine.Profile.content`, `TapeMachine.Profile.settle` — how a
  policy makes a tape, shows it and mends its ends;
* `TapeMachine.Program` — a description of a machine;
* `TapeMachine.Program.mentions`, `TapeMachine.Program.states` — the states in the rule table, with
  repetitions and without.
-/

import TapeMachine.Distinct
import TapeMachine.Rule
import TapeMachine.Tape

set_option relaxedAutoImplicit false
set_option autoImplicit false

namespace TapeMachine

/-- What a bounded program declares. -/
structure Bounds where
  /-- The names of its states. -/
  states : List String
  /-- Its symbols, apart from the blank. -/
  alphabet : List Char
  /-- The name of the state in which it starts. -/
  start : String
  /-- The name of the state that accepts. -/
  accept : String
  /-- The name of the state that rejects. -/
  reject : String
  deriving DecidableEq, Repr

/-- The policy for halting and for the ends of the tape. -/
inductive Profile where
  /-- The tape grows on the right; flags decide where to start and when to accept. -/
  | unbounded
  /-- The tape keeps its length; names decide where to start, accept and reject. -/
  | bounded (bounds : Bounds)
  deriving DecidableEq, Repr

namespace Profile

/-- Whether the tape keeps its length. -/
def isBounded : Profile → Bool
  | unbounded => false
  | bounded _ => true

/-- The tape that holds an input: as it is, or between two sentinels. -/
def tapeOf : Profile → Char → String → Tape
  | unbounded, _, input => Tape.ofString input
  | bounded _, blank, input => Tape.padded input blank

/-- What of a tape is shown: all of it, or what lies between the sentinels. -/
def content : Profile → Tape → String
  | unbounded, tape => tape.text
  | bounded _, tape => tape.interior

/-- The tape and the head position after a move, with the ends of the tape put in order: where the
head has left an unbounded tape on the right the tape grows by a blank, and where it has left it
on the left the head goes back to the first cell. -/
def settle : Profile → Char → Tape → Int → Tape × Int
  | unbounded, blank, tape, head =>
      if head = tape.length then (tape.extendRight blank, head)
      else if head = -1 then (tape, 0)
      else (tape, head)
  | bounded _, _, tape, head => (tape, head)

end Profile

/-- A description of a machine. -/
structure Program where
  /-- The name under which the program is reported. -/
  name : String
  /-- The policy for halting and for the ends of the tape. -/
  profile : Profile
  /-- The rules; of several that apply the first one counts. -/
  rules : List Rule
  /-- The tape at the start. -/
  tape : Tape
  /-- The cell under the head at the start. -/
  head : Nat
  /-- The symbol of a cell that nothing was written into. -/
  blank : Char
  /-- The number of transitions after which a run fails, if there is such a number. -/
  maxSteps : Option Nat
  deriving DecidableEq, Repr

/-- The name of a program that was given none. -/
def defaultName : String := "unnamed"

/-- The blank of a program that was given none. -/
def defaultBlank : Char := '_'

namespace Program

/-- The unbounded program with the given rules, tape and head position. -/
def unbounded (rules : List Rule) (tape : Tape) (head : Nat) : Program :=
  ⟨defaultName, .unbounded, rules, tape, head, defaultBlank, none⟩

/-- The program under another name. -/
def withName (p : Program) (name : String) : Program := { p with name := name }

/-- The program with another blank.  The tape stays as it is. -/
def withBlank (p : Program) (blank : Char) : Program := { p with blank := blank }

/-- The program with a cap on its transitions. -/
def withMaxSteps (p : Program) (limit : Nat) : Program := { p with maxSteps := some limit }

/-- The program on another input, which gets its sentinels if the program is bounded. -/
def withInput (p : Program) (input : String) : Program :=
  { p with tape := p.profile.tapeOf p.blank input }

/-- Every mention of a state in the rules, in their order. -/
def mentions (p : Program) : List State := p.rules.flatMap Rule.states

/-- The states in the rules, each as it is mentioned first. -/
def states (p : Program) : List State := Distinct.firstBy State.name p.mentions

/-- What is shown of the tape at the start. -/
def initialTape (p : Program) : String := p.profile.content p.tape

/-- The mentioned states are those that the rules leave or enter. -/
theorem mem_mentions {p : Program} {s : State} :
    s ∈ p.mentions ↔ ∃ r ∈ p.rules, s = r.current ∨ s = r.next := by
  simp [mentions, Rule.states]

/-- The names of the states are the names that are mentioned. -/
theorem mem_map_name_states {p : Program} {name : String} :
    name ∈ p.states.map State.name ↔ ∃ s ∈ p.mentions, s.name = name := by
  rw [states, Distinct.mem_map_firstBy, List.mem_map]

end Program

end TapeMachine
