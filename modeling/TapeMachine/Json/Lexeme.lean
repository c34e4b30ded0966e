/-
**Reading tokens from a text.**

A text is read character by character.  Between tokens a character is white space or begins a
token; within a token the mode says what has been read of it.  A word or a number ends where the
first character follows that cannot belong to it, and that character is then read as one between
tokens.

Main definitions:

* `TapeMachine.Json.Mode`, `TapeMachine.Json.Scan` — how far the reading has come;
* `TapeMachine.Json.Scan.step` — the reading of one character;
* `TapeMachine.Json.tokens?` — the tokens of a text.
-/

import TapeMachine.Json.Numeral

set_option relaxedAutoImplicit false
set_option autoImplicit false

namespace TapeMachine

namespace Json

/-- The token for a word of small letters. -/
def wordToken? (letters : List Char) : Option Token :=
  if letters = ['n', 'u', 'l', 'l'] then some .null
  else if letters = ['t', 'r', 'u', 'e'] then some (.bool true)
  else if letters = ['f', 'a', 'l', 's', 'e'] then some (.bool false)
  else none

/-- What has been read of a token, the last character or piece first. -/
inductive Mode where
  /-- Nothing: the reading is between tokens. -/
  | between
  /-- The letters of a word. -/
  | word (letters : List Char)
  /-- The characters of a number. -/
  | numeral (cs : List Char)
  /-- The pieces of a quoted text. -/
  | quoted (pieces : List Piece)
  /-- The pieces of a quoted text and a backslash. -/
  | escape (pieces : List Piece)
  /-- The pieces of a quoted text, a backslash, the letter for a unit, and so many digits of the
  unit with the value of those. -/
  | unit (pieces : List Piece) (count value : Nat)
  deriving DecidableEq, Repr

/-- How far the reading has come: the tokens read, the last one first, and the mode. -/
structure Scan where
  /-- The tokens read, the last one first. -/
  tokens : List Token
  /-- What has been read of the next token. -/
  mode : Mode
  deriving DecidableEq, Repr

/-- The four characters of white space. -/
def isBlank (c : Char) : Bool := c == ' ' || c == '\t' || c == '\n' || c == '\r'

/-- The token that is a single mark. -/
def markToken? (c : Char) : Option Token :=
  if c = '[' then some .openArray
  else if c = ']' then some .closeArray
  else if c = '{' then some .openObject
  else if c = '}' then some .closeObject
  else if c = ',' then some .comma
  else if c = ':' then some .colon
  else none

namespace Scan

/-- The reading of a character between tokens. -/
def begin (tokens : List Token) (c : Char) : Option Scan :=
  if isBlank c then some ⟨tokens, .between⟩
  else if c = '"' then some ⟨tokens, .quoted []⟩
  else if c = '-' ∨ c.isDigit = true then some ⟨tokens, .numeral [c]⟩
  else if c.isLower then some ⟨tokens, .word [c]⟩
  else (markToken? c).map fun t => ⟨t :: tokens, .between⟩

/-- The tokens if the text ends here, the last one first. -/
def close (s : Scan) : Option (List Token) :=
  match s.mode with
  | .between => some s.tokens
  | .word letters => (wordToken? letters.reverse).map (· :: s.tokens)
  | .numeral cs => (numeralToken? cs.reverse).map (· :: s.tokens)
  | .quoted _ | .escape _ | .unit _ _ _ => none

/-- The reading of one character. -/
def step (s : Scan) (c : Char) : Option Scan :=
  match s.mode with
  | .between => begin s.tokens c
  | .word letters =>
      if c.isLower then some ⟨s.tokens, .word (c :: letters)⟩ else s.close.bind fun ts => begin ts c
  | .numeral cs =>
      if isNumeralChar c then some ⟨s.tokens, .numeral (c :: cs)⟩
      else s.close.bind fun ts => begin ts c
  | .quoted pieces =>
      if c = '"' then
        some ⟨.text ((joined pieces.reverse).map String.ofList) :: s.tokens, .between⟩
      else if c = '\\' then some ⟨s.tokens, .escape pieces⟩
      else if c.toNat < 0x20 then none
      else some ⟨s.tokens, .quoted (.char c :: pieces)⟩
  | .escape pieces =>
      if c = 'u' then some ⟨s.tokens, .unit pieces 0 0⟩
      else (escapedChar? c).map fun d => ⟨s.tokens, .quoted (.char d :: pieces)⟩
  | .unit pieces count value =>
      (hexValue? c).map fun digit =>
        if count = 3 then ⟨s.tokens, .quoted (.unit (16 * value + digit) :: pieces)⟩
        else ⟨s.tokens, .unit pieces (count + 1) (16 * value + digit)⟩

/-- The reading of a row of characters. -/
def run (s : Scan) (cs : List Char) : Option Scan := cs.foldlM step s

theorem run_append (s : Scan) (cs ds : List Char) :
    s.run (cs ++ ds) = (s.run cs).bind fun s' => s'.run ds :=
  List.foldlM_append

end Scan

/-- The tokens of a text. -/
def tokens? (cs : List Char) : Option (List Token) :=
  ((Scan.run ⟨[], .between⟩ cs).bind Scan.close).map List.reverse

end Json

end TapeMachine
