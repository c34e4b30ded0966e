/-
**Reading a record.**

A record with fixed field names is written as an object, or as an array of its fields in their
order.  In an object the members may stand in any order, members with other names are passed
over, and a field given twice is a fault.  An array has exactly the fields.

Main definitions:

* `TapeMachine.Json.fields?` — the fields of a record, `none` for an absent one;
* `TapeMachine.Json.variant?` — the name of a variant without fields.

Main results:

* `TapeMachine.Json.fields?_array` — an array of the right length is the record of its items.
-/

import TapeMachine.Json

set_option relaxedAutoImplicit false
set_option autoImplicit false

namespace TapeMachine

namespace Json

/-- The members called `name`. -/
def membersNamed (name : String) (members : List (Option String × Json)) :
    List (Option String × Json) :=
  members.filter fun m => decide (m.1 = some name)

/-- The field called `name`, `none` within if it is absent; nothing if it is given twice. -/
def field? (members : List (Option String × Json)) (name : String) : Option (Option Json) :=
  match membersNamed name members with
  | [] => some none
  | [m] => some (some m.2)
  | _ => none

/-- The fields of a record in the order of their names. -/
def fields? (names : List String) : Json → Option (List (Option Json))
  | array items => if items.length = names.length then some (items.map some) else none
  | object members =>
      if members.all fun m => m.1.isSome then names.mapM (field? members) else none
  | _ => none

/-- The name of a variant without fields: a text, or an object with that single name and
nothing. -/
def variant? : Json → Option String
  | text s => s
  | object [(name, null)] => name
  | _ => none

/-- **An array of the right length is the record of its items.** -/
theorem fields?_array {names : List String} {items : List Json}
    (h : items.length = names.length) : (array items).fields? names = some (items.map some) :=
  if_pos h

end Json

end TapeMachine
