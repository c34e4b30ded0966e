/-
**The program.**

Calls the command with more and more rounds until they are enough, writes what it leaves and
exits with its code.

Main definitions:

* `main` — the entry point.
-/

import TapeMachine.CommandLine.Command

set_option relaxedAutoImplicit false
set_option autoImplicit false

namespace TapeMachine

namespace CommandLine

/-- What the command leaves, with at least `rounds` rounds for each run. -/
partial def reply (rounds : Nat) (arguments : List String) : IO Exit :=
  match replyFor rounds arguments with
  | some left => return left
  | none => reply (2 * rounds) arguments

end CommandLine

end TapeMachine

/-- Runs the command with the arguments. -/
def main (arguments : List String) : IO UInt32 := do
  let left ← TapeMachine.CommandLine.reply 1024 arguments
  (← IO.getStdout).putStr left.output
  (← IO.getStderr).putStr left.errors
  return left.code.toUInt32
