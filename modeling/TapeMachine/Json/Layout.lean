/-
**Writing a value as a text.**

A value is written as its tokens, each after some white space.  The style decides on the white
space: none at all, or a line for each item and member, indented by two spaces for each level,
and a space after a colon.  An empty array or object stays in one piece under either style.

Main definitions:

* `TapeMachine.Json.Style` — where white space goes;
* `TapeMachine.Json.spaced` — the tokens of a value with the white space before each;
* `TapeMachine.Json.compact`, `TapeMachine.Json.indented` — the text of a value in the two styles.
-/

import TapeMachine.Json
import TapeMachine.Json.Token

set_option relaxedAutoImplicit false
set_option autoImplicit false

namespace TapeMachine

namespace Json

/-- Where white space goes. -/
structure Style where
  /-- The white space before an item, a member or an end at the given depth. -/
  line : Nat → List Char
  /-- The white space before the value of a member. -/
  gap : List Char

/-- No white space. -/
def Style.compact : Style := ⟨fun _ => [], []⟩

/-- A line for each item and member, indented by two spaces for each level. -/
def Style.indented : Style := ⟨fun depth => '\n' :: List.replicate (2 * depth) ' ', [' ']⟩

/-- A token and the white space before it. -/
abbrev SpacedToken : Type := List Char × Token

mutual

/-- The tokens of a value at the given depth, the first one after the white space `before`. -/
def spaced (style : Style) (before : List Char) (depth : Nat) : Json → List SpacedToken
  | .null => [(before, .null)]
  | .bool b => [(before, .bool b)]
  | .natural n => [(before, .natural n)]
  | .number spelling => [(before, .number spelling)]
  | .text s => [(before, .text s)]
  | .array [] => [(before, .openArray), ([], .closeArray)]
  | .array (item :: rest) =>
      (before, .openArray) :: spaced style (style.line (depth + 1)) (depth + 1) item ++
        spacedItems style depth rest
  | .object [] => [(before, .openObject), ([], .closeObject)]
  | .object ((name, j) :: rest) =>
      (before, .openObject) :: (style.line (depth + 1), .text name) :: ([], .colon) ::
        spaced style style.gap (depth + 1) j ++ spacedMembers style depth rest

/-- The tokens of the further items of an array, up to its end. -/
def spacedItems (style : Style) (depth : Nat) : List Json → List SpacedToken
  | [] => [(style.line depth, .closeArray)]
  | item :: rest =>
      ([], .comma) :: spaced style (style.line (depth + 1)) (depth + 1) item ++
        spacedItems style depth rest

/-- The tokens of the further members of an object, up to its end. -/
def spacedMembers (style : Style) (depth : Nat) : List (Option String × Json) → List SpacedToken
  | [] => [(style.line depth, .closeObject)]
  | (name, j) :: rest =>
      ([], .comma) :: (style.line (depth + 1), .text name) :: ([], .colon) ::
        spaced style style.gap (depth + 1) j ++ spacedMembers style depth rest

end

/-- The characters of a row of tokens with white space. -/
def written (ts : List SpacedToken) : List Char := ts.flatMap fun t => t.1 ++ t.2.spelling

/-- The text of a value without white space. -/
def compact (j : Json) : String := String.ofList (written (spaced .compact [] 0 j))

/-- The text of a value with a line for each item and member. -/
def indented (j : Json) : String := String.ofList (written (spaced .indented [] 0 j))

end Json

end TapeMachine
