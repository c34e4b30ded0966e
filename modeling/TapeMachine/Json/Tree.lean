/-
**Building a value from tokens.**

Tokens are read one after the other with a stack of the arrays and objects that are still open.
What may come next is part of the position: a value, a name, a colon, or what follows a complete
value.

Main definitions:

* `TapeMachine.Json.Open` — an array or object that is still open;
* `TapeMachine.Json.Position` — what may come next;
* `TapeMachine.Json.Position.step` — the reading of one token;
* `TapeMachine.Json.ofTokens?`, `TapeMachine.Json.parse?` — the value of a row of tokens and of a
  text.
-/

import TapeMachine.Json
import TapeMachine.Json.Lexeme

set_option relaxedAutoImplicit false
set_option autoImplicit false

namespace TapeMachine

namespace Json

/-- An array or object that is still open, with what it holds so far, the last item first. -/
inductive Open where
  /-- An array whose next item is being read. -/
  | array (before : List Json)
  /-- An object whose member called `name` is being read. -/
  | object (before : List (Option String × Json)) (name : Option String)
  deriving Repr

/-- What may come next, within the arrays and objects that are open, the innermost first. -/
inductive Position where
  /-- A value. -/
  | value (outer : List Open)
  /-- The first item of an array, or its end. -/
  | firstItem (outer : List Open)
  /-- The first name of an object, or its end. -/
  | firstName (outer : List Open)
  /-- The name of a further member. -/
  | name (before : List (Option String × Json)) (outer : List Open)
  /-- The colon after a name. -/
  | colon (before : List (Option String × Json)) (name : Option String) (outer : List Open)
  /-- A comma or an end, after a complete value. -/
  | after (j : Json) (outer : List Open)
  deriving Repr

namespace Position

/-- The reading of a token where a value must come. -/
def beginValue (outer : List Open) : Token → Option Position
  | .null => some (after .null outer)
  | .bool b => some (after (.bool b) outer)
  | .natural n => some (after (.natural n) outer)
  | .number spelling => some (after (.number spelling) outer)
  | .text s => some (after (.text s) outer)
  | .openArray => some (firstItem outer)
  | .openObject => some (firstName outer)
  | _ => none

/-- The reading of a token after the complete value `j`. -/
def continueAfter (j : Json) : List Open → Token → Option Position
  | .array before :: outer, .comma => some (value (.array (j :: before) :: outer))
  | .array before :: outer, .closeArray => some (after (.array (j :: before).reverse) outer)
  | .object before n :: outer, .comma => some (name ((n, j) :: before) outer)
  | .object before n :: outer, .closeObject =>
      some (after (.object ((n, j) :: before).reverse) outer)
  | _, _ => none

/-- The reading of one token. -/
def step : Position → Token → Option Position
  | value outer, t => beginValue outer t
  | firstItem outer, .closeArray => some (after (.array []) outer)
  | firstItem outer, t => beginValue (.array [] :: outer) t
  | firstName outer, .closeObject => some (after (.object []) outer)
  | firstName outer, .text n => some (colon [] n outer)
  | firstName _, _ => none
  | name before outer, .text n => some (colon before n outer)
  | name _ _, _ => none
  | colon before n outer, .colon => some (value (.object before n :: outer))
  | colon _ _ _, _ => none
  | after j outer, t => continueAfter j outer t

/-- The reading of a row of tokens. -/
def run (p : Position) (ts : List Token) : Option Position := ts.foldlM step p

theorem run_append (p : Position) (ts us : List Token) :
    p.run (ts ++ us) = (p.run ts).bind fun q => q.run us :=
  List.foldlM_append

/-- The value, if it is complete and nothing is open. -/
def complete? : Position → Option Json
  | after j [] => some j
  | _ => none

end Position

/-- The value of a row of tokens. -/
def ofTokens? (ts : List Token) : Option Json :=
  ((Position.value []).run ts).bind Position.complete?

/-- The value of a text. -/
def parse? (text : String) : Option Json := (tokens? text.toList).bind ofTokens?

end Json

end TapeMachine
