/-
**What the data of each type has to look like.**

The data of a type is read from a JSON value in one of a few ways: as a record with its fields, as a
choice of names, as a name with something under it, as a list, or as it stands.  A `Form` says
which, for a value and for its parts.  In each form a value has a normal form, where records are
rows of their fields and choices are plain names; values that are written in different ways have the
same one.

Reading the data of a type is reading the normal form of its value (`Form.Reads`), so that the way
in which a value is written does not matter for what is read from it.

Main definitions:

* `TapeMachine.Form` — the ways in which data is read;
* `TapeMachine.Form.normal` — the normal form of a value;
* `TapeMachine.Form.Reads` — that reading a value is reading its normal form;
* `TapeMachine.State.form`, `TapeMachine.Program.form`, and the like — the form of each type.

Main results:

* `TapeMachine.Form.normal_object` — the normal form of a record that is written as an object;
* `TapeMachine.Program.reads`, `TapeMachine.Outcome.reads`, and the like — **the data of each type
  is read from the normal form**.
-/

import TapeMachine.Encoding

set_option relaxedAutoImplicit false
set_option autoImplicit false

namespace TapeMachine

/-- A way in which data is read from a JSON value. -/
inductive Form where
  /-- From the value as it stands. -/
  | plain
  /-- From the value as it stands, which may be absent from a record. -/
  | optional
  /-- From each item of an array. -/
  | list (item : Form)
  /-- One of several names. -/
  | choice (units : List String)
  /-- One of several names, or the name `tag` with something under it. -/
  | tagged (units : List String) (tag : String) (content : Form)
  /-- Fields, each under its name. -/
  | record (fields : List (String × Form))

namespace Form

/-! ### Normal forms -/

/-- The value of a field: null, if the field may be absent and is. -/
def given : Form → Option Json → Option Json
  | optional, none => some .null
  | _, field => field

/-- The values of several fields. -/
def allGiven : List (String × Form) → List (Option Json) → Option (List Json)
  | [], [] => some []
  | f :: fields, o :: found =>
      (f.2.given o).bind fun j => (allGiven fields found).map fun js => j :: js
  | _, _ => none

/-- The value under the single name `tag`. -/
def under? (tag : String) : Json → Option Json
  | .object [(name, j)] => if name = some tag then some j else none
  | _ => none

mutual

/-- The normal form of a value: a record is the row of its fields, and a choice is a name. -/
def normal : Form → Json → Option Json
  | plain, j | optional, j => some j
  | list item, .array items => (items.mapM (normal item)).map .array
  | list _, _ => none
  | choice _, j => j.variant?.map .ofString
  | tagged _ tag content, j =>
      match under? tag j with
      | some inner => (normal content inner).map fun n => .object [(some tag, n)]
      | none => j.variant?.map .ofString
  | record fields, j =>
      ((j.fields? (fields.map Prod.fst)).bind (allGiven fields)).bind fun js =>
        (normalEach fields js).map .array

/-- The normal forms of the values of several fields. -/
def normalEach : List (String × Form) → List Json → Option (List Json)
  | [], [] => some []
  | (_, form) :: fields, j :: js =>
      (normal form j).bind fun n => (normalEach fields js).map fun ns => n :: ns
  | _, _ => none

end

/-- What a field of an object comes to. -/
def entry (members : List (Option String × Json)) (f : String × Form) : Option Json :=
  ((Json.field? members f.1).bind f.2.given).bind f.2.normal

variable {fields fields' : List (String × Form)} {js js' ns : List Json}

theorem length_of_allGiven {found : List (Option Json)} (h : allGiven fields found = some js) :
    js.length = fields.length := by
  induction fields generalizing found js with
  | nil =>
      cases found with
      | nil =>
          obtain rfl := Option.some.inj h
          rfl
      | cons o found => exact nomatch h
  | cons f fields ih =>
      cases found with
      | nil => exact nomatch h
      | cons o found =>
          obtain ⟨j, -, hrest⟩ := Option.bind_eq_some_iff.1 h
          obtain ⟨js, hjs, rfl⟩ := Option.map_eq_some_iff.1 hrest
          rw [List.length_cons, ih hjs, List.length_cons]

theorem length_of_normalEach (h : normalEach fields js = some ns) :
    js.length = fields.length ∧ ns.length = fields.length := by
  induction fields generalizing js ns with
  | nil =>
      cases js with
      | nil =>
          obtain rfl := Option.some.inj h
          exact ⟨rfl, rfl⟩
      | cons j js => exact nomatch h
  | cons f fields ih =>
      cases js with
      | nil => exact nomatch h
      | cons j js =>
          rw [normalEach] at h
          obtain ⟨n, -, hrest⟩ := Option.bind_eq_some_iff.1 h
          obtain ⟨ns, hns, rfl⟩ := Option.map_eq_some_iff.1 hrest
          simp only [List.length_cons, ih hns, and_self]

/-- A field that is present is given. -/
theorem given_some (form : Form) (j : Json) : form.given (some j) = some j := by
  cases form <;> rfl

/-- Fields that are all present are given. -/
theorem allGiven_map_some (h : js.length = fields.length) :
    allGiven fields (js.map some) = some js := by
  induction fields generalizing js with
  | nil =>
      obtain rfl := List.length_eq_zero_iff.1 h
      rfl
  | cons f fields ih =>
      cases js with
      | nil => exact nomatch h
      | cons j js =>
          rw [List.map_cons, allGiven, given_some, Option.bind_some, ih (Nat.succ.inj h)]
          rfl

/-- The normal form of a record that is written as an array. -/
theorem normal_array (fields : List (String × Form)) (js : List Json) :
    (record fields).normal (.array js) = (normalEach fields js).map .array := by
  rw [normal]
  by_cases h : js.length = fields.length
  · rw [Json.fields?_array (by rw [h, List.length_map]), Option.bind_some, allGiven_map_some h]
    rfl
  · have hfields : (Json.array js).fields? (fields.map Prod.fst) = none :=
      if_neg fun hlength => h (by rw [hlength, List.length_map])
    cases hnormal : normalEach fields js with
    | none => rw [hfields]; rfl
    | some ns => exact absurd (length_of_normalEach hnormal).1 h

/-- The fields of an object come to what each of them comes to, though all are found before the
first one is looked at: what fails, fails in either order. -/
theorem bind_normalEach (members : List (Option String × Json)) (fields : List (String × Form)) :
    (((fields.map Prod.fst).mapM (Json.field? members)).bind (allGiven fields)).bind
      (normalEach fields) = fields.mapM (entry members) := by
  induction fields with
  | nil => rfl
  | cons f fields ih =>
      obtain ⟨name, form⟩ := f
      simp only [List.map_cons, List.mapM_cons, Option.bind_eq_bind, Option.pure_def, ← ih, entry]
      cases Json.field? members name with
      | none => rfl
      | some o =>
          simp only [Option.bind_some]
          cases (fields.map Prod.fst).mapM (Json.field? members) with
          | none => simp
          | some found =>
              simp only [Option.bind_some, allGiven]
              cases form.given o with
              | none => rfl
              | some j =>
                  cases allGiven fields found with
                  | none => simp
                  | some js =>
                      simp only [Option.map_some, Option.bind_some, normalEach]
                      cases form.normal j with
                      | none => rfl
                      | some n => cases normalEach fields js <;> rfl

/-- **The normal form of a record that is written as an object.** -/
theorem normal_object (fields : List (String × Form)) (members : List (Option String × Json)) :
    (record fields).normal (.object members) =
      if members.all fun m => m.1.isSome then (fields.mapM (entry members)).map .array
      else none := by
  rw [normal, Json.fields?]
  split
  · rw [← bind_normalEach, Option.map_bind]
    rfl
  · rfl

/-! ### Reading normal forms -/

/-- Reading a value is reading its normal form: the two are written in different ways, and say
the same. -/
def Reads {α : Type} (form : Form) (decode : Json → Option α) : Prop :=
  ∀ j, decode j = (form.normal j).bind decode

variable {α : Type} {decode : Json → Option α}

/-- A name is read from its normal form if it is read from the name alone. -/
theorem reads_choice {units : List String}
    (hvariant : ∀ j k : Json, j.variant? = k.variant? → decode j = decode k)
    (hnone : ∀ j : Json, j.variant? = none → decode j = none) : (choice units).Reads decode := by
  intro j
  rw [normal]
  cases hj : j.variant? with
  | none => exact hnone j hj
  | some name => exact hvariant j (.ofString name) hj

/-- A record is read from its normal form if the fields that are given are, and if what is read from
the fields is read from their normal forms. -/
theorem reads_record {read : List (Option Json) → Option α}
    (hdecode : ∀ j : Json, decode j = (j.fields? (fields.map Prod.fst)).bind read)
    (hgiven : ∀ found, read found = (allGiven fields found).bind fun js => read (js.map some))
    (heach : ∀ js, js.length = fields.length →
      read (js.map some) = (normalEach fields js).bind fun ns => read (ns.map some)) :
    (record fields).Reads decode := by
  have harray {ns : List Json} (h : ns.length = fields.length) :
      decode (.array ns) = read (ns.map some) := by
    rw [hdecode, Json.fields?_array (by rw [h, List.length_map]), Option.bind_some]
  intro j
  rw [hdecode j, normal]
  cases j.fields? (fields.map Prod.fst) with
  | none => rfl
  | some found =>
      rw [Option.bind_some, Option.bind_some, hgiven]
      cases hjs : allGiven fields found with
      | none => rfl
      | some js =>
          rw [Option.bind_some, Option.bind_some, heach js (length_of_allGiven hjs)]
          cases hns : normalEach fields js with
          | none => rfl
          | some ns => exact (harray (length_of_normalEach hns).2).symm

/-- A list is read from its normal form if its items are. -/
theorem reads_list {item : Form} (h : item.Reads decode) :
    (list item).Reads fun j => j.toList? decode := by
  intro j
  cases j with
  | array items =>
      have hitems : items.mapM decode = (items.mapM item.normal).bind fun ns => ns.mapM decode := by
        induction items with
        | nil => rfl
        | cons j items ih =>
            simp only [List.mapM_cons, Option.bind_eq_bind, Option.pure_def, ih, h j]
            cases item.normal j <;> cases items.mapM item.normal <;> simp
      change items.mapM decode = ((items.mapM item.normal).map Json.array).bind _
      rw [hitems, Option.bind_map]
      rfl
  | _ => rfl

/-- What stands under a name is the value of an object's only member. -/
theorem eq_of_under? {tag : String} {j inner : Json} (h : under? tag j = some inner) :
    j = .object [(some tag, inner)] := by
  unfold under? at h
  split at h
  · split at h
    · rename_i hname
      rw [hname, Option.some.inj h]
    · exact nomatch h
  · exact nomatch h

end Form

/-! ### The forms of the types -/

namespace State

/-- The form of a state. -/
def form : Form := .record [("name", .plain), ("is_start", .plain), ("is_accepting", .plain)]

/-- A state is read from the normal form. -/
theorem reads : form.Reads ofJson? := by
  refine Form.reads_record (fun j => rfl) ?_ ?_
  · intro found
    -- too few fields, one that is absent, all of them, or too many
    rcases found with _ | ⟨_ | name, _ | ⟨_ | isStart, _ | ⟨_ | isAccepting, _ | ⟨_, _⟩⟩⟩⟩
    all_goals rfl
  · intro js hjs
    match js, hjs with
    | [name, isStart, isAccepting], _ => rfl

end State

namespace Direction

/-- The form of a direction. -/
def form : Form := .choice ["Left", "Right"]

/-- A direction is read from the normal form. -/
theorem reads : form.Reads ofJson? := by
  refine Form.reads_choice (fun j k h => ?_) (fun j h => ?_)
  · rw [ofJson?, ofJson?, h]
  · rw [ofJson?, h]

end Direction

namespace Rule

/-- The form of a rule. -/
def form : Form :=
  .record [("current_state", State.form), ("read_symbol", .plain), ("next_state", State.form),
    ("write_symbol", .plain), ("direction", Direction.form)]

/-- A rule is read from the normal form. -/
theorem reads : form.Reads ofJson? := by
  refine Form.reads_record (fun j => rfl) ?_ ?_
  · intro found
    rcases found with _ | ⟨_ | current, _ | ⟨_ | read, _ | ⟨_ | next, _ | ⟨_ | write,
      _ | ⟨_ | direction, _ | ⟨_, _⟩⟩⟩⟩⟩⟩
    all_goals rfl
  · intro js hjs
    match js, hjs with
    | [current, read, next, write, direction], _ =>
        simp only [List.map_cons, List.map_nil, Form.normalEach, Form.normal]
        rw [State.reads current, State.reads next, Direction.reads direction]
        cases State.form.normal current <;> cases State.form.normal next <;>
          cases Direction.form.normal direction <;> simp

end Rule

namespace Tape

/-- The form of a tape. -/
def form : Form := .record [("symbols", .plain)]

/-- A tape is read from the normal form. -/
theorem reads : form.Reads ofJson? := by
  refine Form.reads_record (fun j => rfl) ?_ ?_
  · intro found
    rcases found with _ | ⟨_ | symbols, _ | ⟨_, _⟩⟩
    all_goals rfl
  · intro js hjs
    match js, hjs with
    | [symbols], _ => rfl

end Tape

namespace Bounds

/-- The form of what a bounded program declares. -/
def form : Form :=
  .record [("states", .plain), ("alphabet", .plain), ("start", .plain), ("accept", .plain),
    ("reject", .plain)]

/-- What a bounded program declares is read from the normal form. -/
theorem reads : form.Reads ofJson? := by
  refine Form.reads_record (fun j => rfl) ?_ ?_
  · intro found
    rcases found with _ | ⟨_ | states, _ | ⟨_ | alphabet, _ | ⟨_ | start, _ | ⟨_ | accept,
      _ | ⟨_ | reject, _ | ⟨_, _⟩⟩⟩⟩⟩⟩
    all_goals rfl
  · intro js hjs
    match js, hjs with
    | [states, alphabet, start, accept, reject], _ => rfl

end Bounds

namespace Profile

/-- The form of a policy. -/
def form : Form := .tagged ["Unbounded"] "Bounded" Bounds.form

/-- A policy is read from the normal form. -/
theorem reads : form.Reads ofJson? := by
  intro j
  rw [form, Form.normal]
  cases hj : Form.under? "Bounded" j with
  | some inner =>
      obtain rfl := Form.eq_of_under? hj
      change (Bounds.ofJson? inner).map bounded = ((Bounds.form.normal inner).map _).bind ofJson?
      rw [Bounds.reads inner, Option.map_bind, Option.bind_map]
      rfl
  | none =>
      have hother : ofJson? j = if j.variant? = some "Unbounded" then some unbounded else none := by
        unfold ofJson?
        split
        · exact nomatch hj
        · rfl
      rw [hother]
      cases j.variant? <;> rfl

end Profile

namespace Program

/-- The form of a program. -/
def form : Form :=
  .record [("name", .plain), ("profile", Profile.form), ("rules", .list Rule.form),
    ("tape", Tape.form), ("head", .plain), ("blank", .plain), ("max_steps", .optional)]

/-- A program is read from the normal form. -/
theorem reads : form.Reads ofJson? := by
  refine Form.reads_record (fun j => rfl) ?_ ?_
  · intro found
    rcases found with _ | ⟨_ | name, _ | ⟨_ | profile, _ | ⟨_ | rules, _ | ⟨_ | tape,
      _ | ⟨_ | head, _ | ⟨_ | blank, _ | ⟨_ | maxSteps, _ | ⟨_, _⟩⟩⟩⟩⟩⟩⟩⟩
    all_goals rfl
  · intro js hjs
    match js, hjs with
    | [name, profile, rules, tape, head, blank, maxSteps], _ =>
        simp only [List.map_cons, List.map_nil, Form.normalEach, Form.normal]
        have hrules := Form.reads_list Rule.reads rules
        dsimp only at hrules
        rw [Profile.reads profile, hrules, Tape.reads tape]
        cases Profile.form.normal profile <;> cases (Form.list Rule.form).normal rules <;>
          cases Tape.form.normal tape <;> simp

end Program

namespace Halt

/-- The form of a verdict. -/
def form : Form := .choice ["Accept", "Reject"]

/-- A verdict is read from the normal form. -/
theorem reads : form.Reads ofJson? := by
  refine Form.reads_choice (fun j k h => ?_) (fun j h => ?_)
  · rw [ofJson?, ofJson?, h]
  · rw [ofJson?, h]

end Halt

namespace Outcome

/-- The form of an outcome. -/
def form : Form :=
  .record [("halt", Halt.form), ("state", .plain), ("tape", .plain), ("steps", .plain)]

/-- An outcome is read from the normal form. -/
theorem reads : form.Reads ofJson? := by
  refine Form.reads_record (fun j => rfl) ?_ ?_
  · intro found
    rcases found with _ | ⟨_ | halt, _ | ⟨_ | state, _ | ⟨_ | tape, _ | ⟨_ | steps,
      _ | ⟨_, _⟩⟩⟩⟩⟩
    all_goals rfl
  · intro js hjs
    match js, hjs with
    | [halt, state, tape, steps], _ =>
        simp only [List.map_cons, List.map_nil, Form.normalEach, Form.normal]
        rw [Halt.reads halt]
        cases Halt.form.normal halt <;> simp

end Outcome

end TapeMachine
