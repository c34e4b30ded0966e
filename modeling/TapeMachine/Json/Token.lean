/-
**The tokens of a JSON text.**

A text is a row of tokens with white space between them.  Each token is spelled in a fixed way
here; in a text it may be spelled in others, with escapes that are not needed.

Main definitions:

* `TapeMachine.Json.Token` — the tokens;
* `TapeMachine.Json.Token.spelling` — the way in which a token is written.
-/

import TapeMachine.Json.Quoted

set_option relaxedAutoImplicit false
set_option autoImplicit false

namespace TapeMachine

namespace Json

/-- A token of a JSON text. -/
inductive Token where
  /-- The word for something absent. -/
  | null
  /-- The word for a truth value. -/
  | bool (b : Bool)
  /-- A number written in digits alone. -/
  | natural (n : Nat)
  /-- Another number, by its spelling. -/
  | number (spelling : String)
  /-- A quoted text, unless it holds half a surrogate pair. -/
  | text (s : Option String)
  /-- The bracket that opens an array. -/
  | openArray
  /-- The bracket that closes an array. -/
  | closeArray
  /-- The brace that opens an object. -/
  | openObject
  /-- The brace that closes an object. -/
  | closeObject
  /-- The mark between items. -/
  | comma
  /-- The mark between a name and its value. -/
  | colon
  deriving DecidableEq, Repr

namespace Token

/-- The way in which a token is written. -/
def spelling : Token → List Char
  | null => ['n', 'u', 'l', 'l']
  | bool true => ['t', 'r', 'u', 'e']
  | bool false => ['f', 'a', 'l', 's', 'e']
  | natural n => Nat.toDigits 10 n
  | number spelling => spelling.toList
  | text s => writtenText s
  | openArray => ['[']
  | closeArray => [']']
  | openObject => ['{']
  | closeObject => ['}']
  | comma => [',']
  | colon => [':']

end Token

end Json

end TapeMachine
