/-
**Looking for a text within another.**

A query is looked for without regard to capitals in texts that are ASCII.  Then only the
characters whose small letter is ASCII matter; these are the ASCII capitals and the Kelvin sign.

Main definitions:

* `TapeMachine.Text.smallLetter` — the small letter for a capital one;
* `TapeMachine.Text.occursIn` — whether characters occur in a row within others;
* `TapeMachine.Text.matchesQuery` — whether a text contains a query without regard to capitals.
-/

set_option relaxedAutoImplicit false
set_option autoImplicit false

namespace TapeMachine

namespace Text

/-- The small letter for a capital one whose small letter is ASCII. -/
def smallLetter (c : Char) : Char := if c = '\u212A' then 'k' else c.toLower

/-- Whether the characters of `pattern` occur in a row within others. -/
def occursIn (pattern : List Char) : List Char → Bool
  | [] => pattern.isEmpty
  | c :: rest => pattern.isPrefixOf (c :: rest) || occursIn pattern rest

/-- Whether an ASCII text contains a query without regard to capitals. -/
def matchesQuery (query text : String) : Bool :=
  occursIn (query.toList.map smallLetter) (text.toList.map smallLetter)

end Text

end TapeMachine
