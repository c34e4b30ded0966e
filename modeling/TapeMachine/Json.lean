/-
**JSON values.**

The tree of a JSON text.  A number is kept as a natural number when it is written as one, and by
its spelling otherwise.  A text may be written with the escape of half a surrogate pair, and then
it has no characters; such a text is kept as `none`.  The members of an object keep their order
and may repeat a name.

Main definitions:

* `TapeMachine.Json` — the values;
* `TapeMachine.Json.ofString`, `TapeMachine.Json.ofInt`, `TapeMachine.Json.ofOption`,
  `TapeMachine.Json.record` — values made from data.
-/

import TapeMachine.Text.Digits

set_option relaxedAutoImplicit false
set_option autoImplicit false

namespace TapeMachine

/-- A JSON value. -/
inductive Json where
  /-- The value for something absent. -/
  | null
  /-- A truth value. -/
  | bool (b : Bool)
  /-- A number that is written in digits alone. -/
  | natural (n : Nat)
  /-- Another number, by its spelling. -/
  | number (spelling : String)
  /-- A text, unless it holds half a surrogate pair. -/
  | text (s : Option String)
  /-- Values in a row. -/
  | array (items : List Json)
  /-- Named values in a row. -/
  | object (members : List (Option String × Json))
  deriving Repr

namespace Json

/-- The value for a string. -/
def ofString (s : String) : Json := text (some s)

/-- The value for a symbol: a text of one character. -/
def ofChar (c : Char) : Json := ofString (String.singleton c)

/-- The value for an integer. -/
def ofInt : Int → Json
  | .ofNat n => natural n
  | .negSucc n => number s!"-{n + 1}"

/-- The value for something that may be absent. -/
def ofOption {α : Type} (f : α → Json) : Option α → Json
  | none => null
  | some a => f a

/-- The value for a list. -/
def ofList {α : Type} (f : α → Json) (items : List α) : Json := array (items.map f)

/-- The object with the given members. -/
def record (members : List (String × Json)) : Json :=
  object (members.map fun m => (some m.1, m.2))

/-- The string of a text. -/
def toString? : Json → Option String
  | text s => s
  | _ => none

/-- The symbol of a text of one character. -/
def toChar? : Json → Option Char
  | text (some s) =>
      match s.toList with
      | [c] => some c
      | _ => none
  | _ => none

/-- The truth value. -/
def toBool? : Json → Option Bool
  | bool b => some b
  | _ => none

/-- The number, if it counts something. -/
def toCount? : Json → Option Nat
  | natural n => if n < Text.countBound then some n else none
  | _ => none

/-- The list of an array, if each item has a value. -/
def toList? {α : Type} (f : Json → Option α) : Json → Option (List α)
  | array items => items.mapM f
  | _ => none

@[simp] theorem toString?_ofString (s : String) : (ofString s).toString? = some s := rfl

@[simp] theorem toChar?_ofChar (c : Char) : (ofChar c).toChar? = some c := by
  simp [ofChar, ofString, toChar?]

/-- A list whose items read back reads back. -/
theorem toList?_ofList {α : Type} {f : α → Json} {g : Json → Option α}
    (h : ∀ a, g (f a) = some a) (items : List α) : (ofList f items).toList? g = some items := by
  induction items with
  | nil => rfl
  | cons a rest ih =>
      simp only [ofList, toList?, List.map_cons, List.mapM_cons, h] at ih ⊢
      rw [ih]
      rfl

/-- A number below the bound counts something. -/
theorem toCount?_natural {n : Nat} (h : n < Text.countBound) : (natural n).toCount? = some n :=
  if_pos h

end Json

end TapeMachine
