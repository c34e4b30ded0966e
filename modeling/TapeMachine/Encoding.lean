/-
**JSON forms of programs and outcomes.**

A record is written as an object with its fields in their order, and read as such or as an array.
A choice without data is written as its name; the bounded policy is an object with that single
name and what it declares.  A field that may be absent is written as null.

Main definitions, for each type that has a JSON form:

* `toJson` — the value that is written;
* `ofJson?` — the data of a value that is read, if it has the right form.

Main results:

* `TapeMachine.Program.ofJson?_toJson`, `TapeMachine.Outcome.ofJson?_toJson`, and the like for the
  other types — **what is written is read back**.
-/

import TapeMachine.Json.Record
import TapeMachine.Outcome
import TapeMachine.Program

set_option relaxedAutoImplicit false
set_option autoImplicit false

namespace TapeMachine

/-! ### States, directions, rules and tapes -/

namespace State

/-- The names of the fields of a state. -/
def fieldNames : List String := ["name", "is_start", "is_accepting"]

/-- A state as a JSON value. -/
def toJson (s : State) : Json :=
  .record [("name", .ofString s.name), ("is_start", .bool s.isStart),
    ("is_accepting", .bool s.isAccepting)]

/-- The state of a JSON value. -/
def ofJson? (j : Json) : Option State := do
  let [some name, some isStart, some isAccepting] ← j.fields? fieldNames | none
  return ⟨← name.toString?, ← isStart.toBool?, ← isAccepting.toBool?⟩

/-- A state is read as it is written. -/
@[simp] theorem ofJson?_toJson (s : State) : ofJson? s.toJson = some s := rfl

end State

namespace Direction

/-- A direction as a JSON value. -/
def toJson (d : Direction) : Json := .ofString d.name

/-- The direction of a JSON value. -/
def ofJson? (j : Json) : Option Direction :=
  match j.variant? with
  | some "Left" => some left
  | some "Right" => some right
  | _ => none

/-- A direction is read as it is written. -/
@[simp] theorem ofJson?_toJson (d : Direction) : ofJson? d.toJson = some d := by
  cases d <;> rfl

end Direction

namespace Rule

/-- The names of the fields of a rule. -/
def fieldNames : List String :=
  ["current_state", "read_symbol", "next_state", "write_symbol", "direction"]

/-- A rule as a JSON value. -/
def toJson (r : Rule) : Json :=
  .record [("current_state", r.current.toJson), ("read_symbol", .ofChar r.read),
    ("next_state", r.next.toJson), ("write_symbol", .ofChar r.write),
    ("direction", r.direction.toJson)]

/-- The rule of a JSON value. -/
def ofJson? (j : Json) : Option Rule := do
  let [some current, some read, some next, some write, some direction] ← j.fields? fieldNames
    | none
  return ⟨← State.ofJson? current, ← read.toChar?, ← State.ofJson? next, ← write.toChar?,
    ← Direction.ofJson? direction⟩

/-- A rule is read as it is written. -/
@[simp] theorem ofJson?_toJson (r : Rule) : ofJson? r.toJson = some r := by
  have hfields : r.toJson.fields? fieldNames = some [some r.current.toJson, some (.ofChar r.read),
      some r.next.toJson, some (.ofChar r.write), some r.direction.toJson] := rfl
  simp [ofJson?, hfields]

end Rule

namespace Tape

/-- The names of the fields of a tape. -/
def fieldNames : List String := ["symbols"]

/-- A tape as a JSON value. -/
def toJson (t : Tape) : Json := .record [("symbols", .ofList .ofChar t.symbols)]

/-- The tape of a JSON value. -/
def ofJson? (j : Json) : Option Tape := do
  let [some symbols] ← j.fields? fieldNames | none
  return ⟨← symbols.toList? Json.toChar?⟩

/-- A tape is read as it is written. -/
@[simp] theorem ofJson?_toJson (t : Tape) : ofJson? t.toJson = some t := by
  have hfields : t.toJson.fields? fieldNames = some [some (.ofList .ofChar t.symbols)] := rfl
  simp [ofJson?, hfields, Json.toList?_ofList Json.toChar?_ofChar]

end Tape

/-! ### Programs -/

namespace Bounds

/-- The names of the fields of what a bounded program declares. -/
def fieldNames : List String := ["states", "alphabet", "start", "accept", "reject"]

/-- What a bounded program declares as a JSON value. -/
def toJson (b : Bounds) : Json :=
  .record [("states", .ofList .ofString b.states), ("alphabet", .ofList .ofChar b.alphabet),
    ("start", .ofString b.start), ("accept", .ofString b.accept), ("reject", .ofString b.reject)]

/-- What the bounded program of a JSON value declares. -/
def ofJson? (j : Json) : Option Bounds := do
  let [some states, some alphabet, some start, some accept, some reject] ← j.fields? fieldNames
    | none
  return ⟨← states.toList? Json.toString?, ← alphabet.toList? Json.toChar?, ← start.toString?,
    ← accept.toString?, ← reject.toString?⟩

/-- What a bounded program declares is read as it is written. -/
@[simp] theorem ofJson?_toJson (b : Bounds) : ofJson? b.toJson = some b := by
  have hfields : b.toJson.fields? fieldNames = some [some (.ofList .ofString b.states),
      some (.ofList .ofChar b.alphabet), some (.ofString b.start), some (.ofString b.accept),
      some (.ofString b.reject)] := rfl
  simp [ofJson?, hfields, Json.toList?_ofList Json.toChar?_ofChar,
    Json.toList?_ofList Json.toString?_ofString]

end Bounds

namespace Profile

/-- A policy as a JSON value. -/
def toJson : Profile → Json
  | unbounded => .ofString "Unbounded"
  | bounded bounds => .record [("Bounded", bounds.toJson)]

/-- The policy of a JSON value. -/
def ofJson? : Json → Option Profile
  | .object [(some "Bounded", j)] => (Bounds.ofJson? j).map bounded
  | j => if j.variant? = some "Unbounded" then some unbounded else none

/-- A policy is read as it is written. -/
@[simp] theorem ofJson?_toJson (p : Profile) : ofJson? p.toJson = some p := by
  cases p with
  | unbounded => rfl
  | bounded b =>
      change (Bounds.ofJson? b.toJson).map bounded = _
      rw [Bounds.ofJson?_toJson]
      rfl

end Profile

namespace Program

/-- The names of the fields of a program. -/
def fieldNames : List String := ["name", "profile", "rules", "tape", "head", "blank", "max_steps"]

/-- A program as a JSON value. -/
def toJson (p : Program) : Json :=
  .record [("name", .ofString p.name), ("profile", p.profile.toJson),
    ("rules", .ofList Rule.toJson p.rules), ("tape", p.tape.toJson), ("head", .natural p.head),
    ("blank", .ofChar p.blank), ("max_steps", .ofOption .natural p.maxSteps)]

/-- The cap of a field that may be absent or null. -/
def capOfField? : Option Json → Option (Option Nat)
  | none | some .null => some none
  | some j => j.toCount?.map some

/-- The program of a JSON value. -/
def ofJson? (j : Json) : Option Program := do
  let [some name, some profile, some rules, some tape, some head, some blank, maxSteps] ←
    j.fields? fieldNames | none
  return ⟨← name.toString?, ← Profile.ofJson? profile, ← rules.toList? Rule.ofJson?,
    ← Tape.ofJson? tape, ← head.toCount?, ← blank.toChar?, ← capOfField? maxSteps⟩

/-- A cap that counts something is read as it is written. -/
theorem capOfField?_ofOption {cap : Option Nat} (h : ∀ limit ∈ cap, limit < Text.countBound) :
    capOfField? (some (.ofOption .natural cap)) = some cap := by
  cases cap with
  | none => rfl
  | some limit =>
      change (Json.natural limit).toCount?.map some = _
      rw [Json.toCount?_natural (h limit rfl)]
      rfl

/-- **A program whose head position and cap count something is read as it is written.** -/
theorem ofJson?_toJson {p : Program} (hhead : p.head < Text.countBound)
    (hcap : ∀ limit ∈ p.maxSteps, limit < Text.countBound) : ofJson? p.toJson = some p := by
  have hfields : p.toJson.fields? fieldNames = some [some (.ofString p.name),
      some p.profile.toJson, some (.ofList Rule.toJson p.rules), some p.tape.toJson,
      some (.natural p.head), some (.ofChar p.blank), some (.ofOption .natural p.maxSteps)] := rfl
  simp [ofJson?, hfields, Json.toList?_ofList Rule.ofJson?_toJson, Json.toCount?_natural hhead,
    capOfField?_ofOption hcap]

end Program

/-! ### Outcomes -/

namespace Halt

/-- A verdict as a JSON value. -/
def toJson (h : Halt) : Json := .ofString h.name

/-- The verdict of a JSON value. -/
def ofJson? (j : Json) : Option Halt :=
  match j.variant? with
  | some "Accept" => some accept
  | some "Reject" => some reject
  | _ => none

/-- A verdict is read as it is written. -/
@[simp] theorem ofJson?_toJson (h : Halt) : ofJson? h.toJson = some h := by
  cases h <;> rfl

end Halt

namespace Outcome

/-- The names of the fields of an outcome. -/
def fieldNames : List String := ["halt", "state", "tape", "steps"]

/-- An outcome as a JSON value. -/
def toJson (o : Outcome) : Json :=
  .record [("halt", o.halt.toJson), ("state", .ofString o.state), ("tape", .ofString o.tape),
    ("steps", .natural o.steps)]

/-- The outcome of a JSON value. -/
def ofJson? (j : Json) : Option Outcome := do
  let [some halt, some state, some tape, some steps] ← j.fields? fieldNames | none
  return ⟨← Halt.ofJson? halt, ← state.toString?, ← tape.toString?, ← steps.toCount?⟩

/-- **An outcome whose number of steps counts something is read as it is written.** -/
theorem ofJson?_toJson {o : Outcome} (h : o.steps < Text.countBound) :
    ofJson? o.toJson = some o := by
  have hfields : o.toJson.fields? fieldNames = some [some o.halt.toJson, some (.ofString o.state),
      some (.ofString o.tape), some (.natural o.steps)] := rfl
  simp [ofJson?, hfields, Json.toCount?_natural h]

end Outcome

end TapeMachine
