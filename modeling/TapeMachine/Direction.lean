/-
**The two directions of the head.**

Main definitions:

* `TapeMachine.Direction` — left or right;
* `TapeMachine.Direction.offset` — the change of position of one move;
* `TapeMachine.Direction.ofChar`, `TapeMachine.Direction.ofString` — the direction that a letter
  or a text stands for.
-/

import TapeMachine.Error
import TapeMachine.Text.Space

set_option relaxedAutoImplicit false
set_option autoImplicit false

namespace TapeMachine

/-- Where the head goes after a write. -/
inductive Direction where
  /-- One cell to the left. -/
  | left
  /-- One cell to the right. -/
  | right
  deriving DecidableEq, Repr

namespace Direction

/-- The change of position of one move. -/
def offset : Direction → Int
  | left => -1
  | right => 1

/-- The direction in full. -/
def name : Direction → String
  | left => "Left"
  | right => "Right"

/-- The capital letter for a direction. -/
def letter : Direction → Char
  | left => 'L'
  | right => 'R'

/-- The direction that a letter stands for, capital or small. -/
def ofChar (c : Char) : Except Error Direction :=
  if c = 'L' ∨ c = 'l' then .ok left
  else if c = 'R' ∨ c = 'r' then .ok right
  else .error (.invalid (.direction (String.singleton c)))

/-- The direction that a text stands for: white space at its ends does not count, and one letter
has to be left.  A failure shows that letter, or the whole text when there is not exactly one. -/
def ofString (text : String) : Except Error Direction :=
  match Text.trim text.toList with
  | [c] => ofChar c
  | _ => .error (.invalid (.direction text))

end Direction

end TapeMachine
