/-
**What can go wrong, and how it is said.**

An error names its cause and carries the values that the reader needs; the wording lives in one
place.  The causes fall in two groups: those that stop a program from becoming a machine
(`Invalid` and the two about start states) and those of a single operation.

Main definitions:

* `TapeMachine.Invalid` — why a description cannot be used as a program;
* `TapeMachine.Error` — everything that an operation of the library can fail with;
* `TapeMachine.Error.withIndex` — an error about a cell, with another index for it;
* `TapeMachine.Invalid.message`, `TapeMachine.Error.message` — the wording.
-/

import TapeMachine.Text.Quoted

set_option relaxedAutoImplicit false
set_option autoImplicit false

namespace TapeMachine

/-- Why a description cannot be used as a program. -/
inductive Invalid where
  /-- The description has the wrong shape, as `problem` says. -/
  | structural (problem : String)
  /-- The head starts at a position that is not on the tape. -/
  | headPosition (position : Nat)
  /-- The same state name is mentioned with different flags. -/
  | conflictingFlags (names : List String)
  /-- Several rules exist for one state and symbol. -/
  | ambiguousRules (entries : List String)
  /-- States are mentioned that were never declared. -/
  | undeclaredStates (names : List String)
  /-- Symbols are used that are neither in the alphabet nor the blank. -/
  | foreignSymbols (symbols : List Char)
  /-- A text names no direction. -/
  | direction (text : String)
  deriving DecidableEq, Repr

/-- What an operation can fail with. -/
inductive Error where
  /-- No state is the start state. -/
  | noStartState
  /-- More than one name is flagged as the start state. -/
  | multipleStartStates (names : List String)
  /-- A cell was asked for that a tape of the given length does not have. -/
  | indexOutOfRange (index : Int) (length : Nat)
  /-- The cap on transitions was reached while another one would still apply. -/
  | stepLimitExceeded (limit : Nat)
  /-- The description cannot be used as a program. -/
  | invalid (cause : Invalid)
  /-- No program of the catalogue answers to the query. -/
  | unknownProgram (query : String)
  deriving DecidableEq, Repr

/-- The same error; if it is about a cell that a tape does not have, then about the cell with the
given index. -/
def Error.withIndex (index : Int) : Error → Error
  | indexOutOfRange _ length => .indexOutOfRange index length
  | e => e

/-- The wording of the reason why a description cannot be used. -/
def Invalid.message : Invalid → String
  | structural problem => problem
  | headPosition position => s!"Invalid head position: {position}"
  | conflictingFlags names => "States declared with conflicting flags: " ++ Text.quotedNames names
  | ambiguousRules entries =>
      "Multiple rules for the same state and symbol: " ++ Text.quotedNames entries
  | undeclaredStates names => "Rules reference undeclared states: " ++ Text.quotedNames names
  | foreignSymbols symbols => "Symbols outside the alphabet: " ++ Text.quotedSymbols symbols
  | direction text => s!"Invalid direction '{text}', expected 'L' or 'R'"

/-- The wording of an error. -/
def Error.message : Error → String
  | noStartState => "No start state defined"
  | multipleStartStates names => "Multiple start states defined: " ++ Text.quotedNames names
  | indexOutOfRange index length =>
      s!"Tape index {index} out of range for tape of length {length}"
  | stepLimitExceeded limit => s!"Step limit of {limit} exceeded"
  | invalid cause => "Program validation error: " ++ cause.message
  | unknownProgram query => s!"Unknown program: {query}"

end TapeMachine
