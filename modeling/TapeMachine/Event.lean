/-
**What a machine reports while it works.**

An event has a level, a message and a record of named values.  Values are numbers or texts.

Main definitions:

* `TapeMachine.Event` — the occasions for a report, with what is known at each;
* `TapeMachine.Event.level`, `TapeMachine.Event.message`, `TapeMachine.Event.fields` — how an event
  is reported.
-/

import TapeMachine.Direction
import TapeMachine.Outcome

set_option relaxedAutoImplicit false
set_option autoImplicit false

namespace TapeMachine

/-- How much an event matters. -/
inductive Level where
  /-- One of very many. -/
  | trace
  /-- Of interest when looking for a fault. -/
  | debug
  /-- A sign that something may be wrong. -/
  | warn
  deriving DecidableEq, Repr

/-- A value that is reported with an event. -/
inductive EventValue where
  /-- A number. -/
  | number (n : Int)
  /-- A text. -/
  | text (s : String)
  deriving DecidableEq, Repr

/-- An occasion for a report. -/
inductive Event where
  /-- A program has states that nothing leads to. -/
  | unreachable (program : String) (names : List String)
  /-- A machine was made from a program. -/
  | constructed (program start : String) (rules : Nat) (tape : String)
  /-- A rule was applied; `step` counts it, `state` and `head` are those that follow. -/
  | transition (step : Nat) (read write : Char) (direction : Direction) (state : String)
      (head : Int)
  /-- No rule applies in the state and on the symbol. -/
  | noRule (state : String) (symbol : Char) (head : Int)
  /-- A run came to its end. -/
  | halted (program : String) (verdict : Halt) (state : String) (steps : Nat)
  /-- A run reached the cap on transitions. -/
  | limitExceeded (program : String) (limit : Nat)
  deriving DecidableEq, Repr

namespace Level

/-- The level in capitals. -/
def name : Level → String
  | trace => "TRACE"
  | debug => "DEBUG"
  | warn => "WARN"

end Level

namespace Event

/-- How much the event matters. -/
def level : Event → Level
  | unreachable .. | limitExceeded .. => .warn
  | constructed .. | noRule .. | halted .. => .debug
  | transition .. => .trace

/-- The event in a few words. -/
def message : Event → String
  | unreachable .. => "unreachable states"
  | constructed .. => "machine constructed"
  | transition .. => "transition"
  | noRule .. => "no applicable rule"
  | halted .. => "machine halted"
  | limitExceeded .. => "step limit exceeded"

/-- What is known at the event. -/
def fields : Event → List (String × EventValue)
  | unreachable program names =>
      [("program", .text program), ("states", .text (Text.quotedNames names))]
  | constructed program start rules tape =>
      [("program", .text program), ("start", .text start), ("rules", .number rules),
        ("tape", .text tape)]
  | transition step read write direction state head =>
      [("step", .number step), ("read", .text (String.singleton read)),
        ("write", .text (String.singleton write)), ("direction", .text direction.name),
        ("state", .text state), ("head", .number head)]
  | noRule state symbol head =>
      [("state", .text state), ("symbol", .text (String.singleton symbol)),
        ("head", .number head)]
  | halted program verdict state steps =>
      [("program", .text program), ("halt", .text verdict.word), ("state", .text state),
        ("steps", .number steps)]
  | limitExceeded program limit =>
      [("program", .text program), ("limit", .number limit)]

end Event

end TapeMachine
