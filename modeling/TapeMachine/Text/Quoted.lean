/-
**Quoted texts and lists of them.**

Messages show names and symbols between quotes, so that the reader sees where each begins and
ends.  Inside the quotes a backslash announces an escape: a letter for the common control
characters, the closing mark or a backslash for itself, and the code point in hexadecimal for
every other character without a form of its own.

Main definitions:

* `TapeMachine.Text.escape` — how one character stands between quotes;
* `TapeMachine.Text.quotedName`, `TapeMachine.Text.quotedSymbol` — a name between double quotes
  and a symbol between single ones;
* `TapeMachine.Text.listed` — items between brackets, separated by commas;
* `TapeMachine.Text.quotedNames`, `TapeMachine.Text.quotedSymbols` — lists of quoted items.
-/

import TapeMachine.Text.Graphic

set_option relaxedAutoImplicit false
set_option autoImplicit false

namespace TapeMachine

namespace Text

/-- How the character `c` stands between quotes that `mark` closes. -/
def escape (mark c : Char) : List Char :=
  if c = '\x00' then ['\\', '0']
  else if c = '\t' then ['\\', 't']
  else if c = '\n' then ['\\', 'n']
  else if c = '\r' then ['\\', 'r']
  else if c = '\\' ∨ c = mark then ['\\', c]
  else if isGraphic c then [c]
  else ['\\', 'u', '{'] ++ Nat.toDigits 16 c.toNat ++ ['}']

/-- The characters of a text between two marks, each escaped. -/
def enclose (mark : Char) (cs : List Char) : String :=
  String.ofList (mark :: cs.flatMap (escape mark) ++ [mark])

/-- A name between double quotes. -/
def quotedName (name : String) : String := enclose '"' name.toList

/-- A symbol between single quotes. -/
def quotedSymbol (symbol : Char) : String := enclose '\'' [symbol]

/-- Items between brackets, separated by a comma and a space. -/
def listed (items : List String) : String := "[" ++ ", ".intercalate items ++ "]"

/-- A list of names, each between double quotes. -/
def quotedNames (names : List String) : String := listed (names.map quotedName)

/-- A list of symbols, each between single quotes. -/
def quotedSymbols (symbols : List Char) : String := listed (symbols.map quotedSymbol)

end Text

end TapeMachine
