/-
**States of a machine.**

A state is known by its name; the two flags say whether a machine starts in it and whether
entering it accepts.  Every mention of a state carries its flags, so that a list of rules is
complete without a separate declaration of states.

Main definitions:

* `TapeMachine.State` — a name with its two flags;
* `TapeMachine.State.ordinary`, `TapeMachine.State.start`, `TapeMachine.State.accepting` — states
  with no flag and with one.
-/

set_option relaxedAutoImplicit false
set_option autoImplicit false

namespace TapeMachine

/-- A mention of a state: its name and its flags. -/
structure State where
  /-- The name by which the state is known. -/
  name : String
  /-- Whether a machine starts in the state. -/
  isStart : Bool
  /-- Whether entering the state accepts. -/
  isAccepting : Bool
  deriving DecidableEq, Repr

namespace State

/-- A state in which a machine neither starts nor accepts. -/
def ordinary (name : String) : State := ⟨name, false, false⟩

/-- A state in which a machine starts. -/
def start (name : String) : State := ⟨name, true, false⟩

/-- A state that accepts. -/
def accepting (name : String) : State := ⟨name, false, true⟩

/-- The two flags of a state, start before accepting. -/
def flags (s : State) : Bool × Bool := (s.isStart, s.isAccepting)

/-- A state is its name and its flags. -/
theorem eq_of_name_of_flags {s t : State} (hname : s.name = t.name) (hflags : s.flags = t.flags) :
    s = t := by
  cases s
  cases t
  simp_all [flags]

end State

end TapeMachine
