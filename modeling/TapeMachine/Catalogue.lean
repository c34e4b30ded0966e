/-
**A catalogue of programs.**

Five small programs to begin with, each on an input of its own: two that flip the first two digits,
a zero to a one and a one to a zero, one under either policy; one that flips every digit; one that
walks back to the first cell; and one that decides the parity of the number of ones.

Main definitions:

* `TapeMachine.Catalogue.programs` — the programs in their order;
* `TapeMachine.Catalogue.byIndex`, `TapeMachine.Catalogue.byName`,
  `TapeMachine.Catalogue.search` — ways to find one;
* `TapeMachine.Catalogue.summary` — what a listing says about one.

Main results:

* `TapeMachine.Catalogue.byName_name`, `TapeMachine.Catalogue.mapM_byName_names` — every program is
  found by its name, and by all names come all programs.
-/

import TapeMachine.Description
import TapeMachine.State
import TapeMachine.Text.Search

set_option relaxedAutoImplicit false
set_option autoImplicit false

namespace TapeMachine

namespace Catalogue

/-! ### The programs -/

/-- Flips the digits in the first two cells and accepts. -/
def flipTwo : Program :=
  let q0 := State.start "q0"
  let q1 := State.ordinary "q1"
  let q2 := State.accepting "q2"
  (Program.unbounded
    [⟨q0, '0', q1, '1', .right⟩, ⟨q0, '1', q1, '0', .right⟩, ⟨q1, '0', q2, '1', .right⟩,
      ⟨q1, '1', q2, '0', .right⟩]
    (Tape.ofString "1001000") 0).withName "flip-two"

/-- Flips the digits in the first two cells between sentinels.  No rule leaves the last state, so
the verdict is always to reject. -/
def flipTwoBounded : Program :=
  Description.build
    ⟨"flip-two-bounded", ["q0", "q1", "q2", "q_accept", "q_reject"], ['0', '1'],
      [⟨"q0", '0', "q1", '1', .right⟩, ⟨"q0", '1', "q1", '0', .right⟩,
        ⟨"q1", '0', "q2", '1', .right⟩, ⟨"q1", '1', "q2", '0', .right⟩],
      "q0", "q_accept", "q_reject", '_', none⟩
    "1001000"

/-- Flips the digits from the first cell on and accepts on the first blank after them. -/
def invert : Program :=
  let scan := State.start "scan"
  let done := State.accepting "done"
  (Program.unbounded
    [⟨scan, '0', scan, '1', .right⟩, ⟨scan, '1', scan, '0', .right⟩,
      ⟨scan, '_', done, '_', .right⟩]
    (Tape.ofString "1011") 0).withName "invert"

/-- Marks the cells on the way back to the first one, marks that one again and accepts. -/
def rewind : Program :=
  let back := State.start "back"
  let done := State.accepting "done"
  (Program.unbounded
    [⟨back, '1', back, 'x', .left⟩, ⟨back, 'x', done, 'y', .right⟩]
    (Tape.ofString "111") 2).withName "rewind"

/-- Accepts the inputs with an even number of ones before the first blank. -/
def evenOnes : Program :=
  Description.build
    ⟨"even-ones", ["even", "odd", "accept", "reject"], ['0', '1'],
      [⟨"even", '0', "even", '0', .right⟩, ⟨"even", '1', "odd", '1', .right⟩,
        ⟨"odd", '0', "odd", '0', .right⟩, ⟨"odd", '1', "even", '1', .right⟩,
        ⟨"even", '_', "accept", '_', .right⟩],
      "even", "accept", "reject", '_', none⟩
    "1001"

/-- The programs in their order. -/
def programs : List Program := [flipTwo, flipTwoBounded, invert, rewind, evenOnes]

/-! ### Finding a program -/

/-- The number of programs. -/
def count : Nat := programs.length

/-- The names of the programs. -/
def names : List String := programs.map Program.name

/-- The program at a place of the catalogue. -/
def byIndex (index : Nat) : Except Error Program :=
  match programs[index]? with
  | some p => .ok p
  | none => .error (.unknownProgram s!"index {index} out of range")

/-- The program with a name. -/
def byName (name : String) : Except Error Program :=
  match programs.find? fun p => decide (p.name = name) with
  | some p => .ok p
  | none => .error (.unknownProgram name)

/-- The places of the programs whose name contains the query, without regard to capitals.  All
names in the catalogue are ASCII. -/
def search (query : String) : List Nat :=
  (List.range count).filter fun index =>
    programs[index]?.any fun p => Text.matchesQuery query p.name

/-! ### Listing -/

/-- What a listing says about a program. -/
structure Summary where
  /-- The place in the catalogue. -/
  index : Nat
  /-- The name. -/
  name : String
  /-- Whether the program is bounded. -/
  bounded : Bool
  /-- What is shown of its tape at the start. -/
  initialTape : String
  /-- The number of states in its rules. -/
  stateCount : Nat
  /-- The number of its rules. -/
  ruleCount : Nat
  deriving DecidableEq, Repr

/-- What a listing says about the program at a place. -/
def summary (index : Nat) : Except Error Summary := do
  let p ← byIndex index
  return ⟨index, p.name, p.profile.isBounded, p.initialTape, p.states.length, p.rules.length⟩

/-! ### Names -/

/-- No two programs have the same name. -/
theorem names_nodup : names.Nodup := by decide

/-- **Every program is found by its name.** -/
theorem byName_name {p : Program} (hp : p ∈ programs) : byName p.name = .ok p := by
  rw [byName, Distinct.find?_of_pairwise (List.pairwise_map.1 names_nodup) hp]

/-- A program that is found by a name is in the catalogue and has the name. -/
theorem mem_of_byName {name : String} {p : Program} (h : byName name = .ok p) :
    p ∈ programs ∧ p.name = name := by
  rw [byName] at h
  split at h
  · rename_i q hfind
    obtain rfl := Except.ok.inj h
    exact ⟨List.mem_of_find?_eq_some hfind, by simpa using List.find?_some hfind⟩
  · exact nomatch h

/-- **The programs found by all names are all programs.** -/
theorem mapM_byName_names : names.mapM byName = .ok programs := by
  have hall : ∀ ps : List Program, (∀ p ∈ ps, byName p.name = .ok p) →
      (ps.map Program.name).mapM byName = .ok ps := by
    intro ps hps
    induction ps with
    | nil => rfl
    | cons p rest ih =>
        rw [List.map_cons, List.mapM_cons, hps p List.mem_cons_self,
          ih fun q hq => hps q (List.mem_cons_of_mem p hq)]
        rfl
  exact hall programs fun p hp => byName_name hp

end Catalogue

end TapeMachine
