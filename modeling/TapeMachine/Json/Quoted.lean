/-
**Quoted texts.**

Between quotes a character is written as it is, or after a backslash by a letter or by the unit of
sixteen bits that it is in hexadecimal.  When a text is read its characters are collected in
pieces, since an escape may stand for half a surrogate pair and two halves in a row make one
character.

Main definitions:

* `TapeMachine.Json.writtenChar`, `TapeMachine.Json.writtenText` — how a character and a text are
  written;
* `TapeMachine.Json.Piece` — a part of a quoted text;
* `TapeMachine.Json.joined` — the characters that pieces stand for.

Main results:

* `TapeMachine.Json.joined_map_writtenPiece` — the pieces of a written text stand for the text.
-/

set_option relaxedAutoImplicit false
set_option autoImplicit false

namespace TapeMachine

namespace Json

/-! ### Writing -/

/-- The letter that stands after a backslash for a character, for the characters that have one
and are written so. -/
def escapeLetter (c : Char) : Option Char :=
  if c = '"' ∨ c = '\\' then some c
  else if c = '\x08' then some 'b'
  else if c = '\x0c' then some 'f'
  else if c = '\n' then some 'n'
  else if c = '\r' then some 'r'
  else if c = '\t' then some 't'
  else none

/-- How a character is written between quotes.  Only the quote, the backslash and the control
characters below the space need an escape. -/
def writtenChar (c : Char) : List Char :=
  match escapeLetter c with
  | some letter => ['\\', letter]
  | none =>
      if c.toNat < 0x20 then
        ['\\', 'u', '0', '0', Nat.digitChar (c.toNat / 16), Nat.digitChar (c.toNat % 16)]
      else [c]

/-- How the text of a token is written.  A text without characters is written as half a surrogate
pair. -/
def writtenText : Option String → List Char
  | some s => '"' :: s.toList.flatMap writtenChar ++ ['"']
  | none => ['"', '\\', 'u', 'd', '8', '0', '0', '"']

/-! ### Reading -/

/-- A part of a quoted text: a character, or the unit of sixteen bits that an escape gives. -/
inductive Piece where
  /-- A character. -/
  | char (c : Char)
  /-- A unit of sixteen bits. -/
  | unit (value : Nat)
  deriving DecidableEq, Repr

/-- Whether a unit is the first half of a surrogate pair. -/
def isFirstHalf (u : Nat) : Bool := decide (0xD800 ≤ u) && decide (u < 0xDC00)

/-- Whether a unit is the second half of a surrogate pair. -/
def isSecondHalf (u : Nat) : Bool := decide (0xDC00 ≤ u) && decide (u < 0xE000)

/-- The characters that the pieces stand for, unless half a surrogate pair stands alone. -/
def joined : List Piece → Option (List Char)
  | [] => some []
  | .char c :: rest => (joined rest).map (c :: ·)
  | .unit u :: .unit v :: rest =>
      if isFirstHalf u then
        if isSecondHalf v then
          (joined rest).map (Char.ofNat (0x10000 + 0x400 * (u - 0xD800) + (v - 0xDC00)) :: ·)
        else none
      else if isSecondHalf u then none
      else (joined (.unit v :: rest)).map (Char.ofNat u :: ·)
  | .unit u :: rest =>
      if isFirstHalf u || isSecondHalf u then none else (joined rest).map (Char.ofNat u :: ·)

/-- The character that a letter stands for after a backslash. -/
def escapedChar? (letter : Char) : Option Char :=
  if letter = '"' ∨ letter = '\\' ∨ letter = '/' then some letter
  else if letter = 'b' then some '\x08'
  else if letter = 'f' then some '\x0c'
  else if letter = 'n' then some '\n'
  else if letter = 'r' then some '\r'
  else if letter = 't' then some '\t'
  else none

/-- The value of a hexadecimal digit. -/
def hexValue? (c : Char) : Option Nat :=
  if '0' ≤ c ∧ c ≤ '9' then some (c.toNat - '0'.toNat)
  else if 'a' ≤ c ∧ c ≤ 'f' then some (c.toNat - 'a'.toNat + 10)
  else if 'A' ≤ c ∧ c ≤ 'F' then some (c.toNat - 'A'.toNat + 10)
  else none

/-! ### What is written is read -/

/-- The piece as which a written character is read. -/
def writtenPiece (c : Char) : Piece :=
  if escapeLetter c = none ∧ c.toNat < 0x20 then .unit c.toNat else .char c

/-- **The pieces of a written text stand for the text.** -/
theorem joined_map_writtenPiece (cs : List Char) : joined (cs.map writtenPiece) = some cs := by
  -- A control character is a unit that is no half of a pair, whatever follows it.
  have hunit : ∀ (u : Nat) (rest : List Piece), u < 0x20 →
      joined (.unit u :: rest) = (joined rest).map (Char.ofNat u :: ·) := by
    intro u rest hu
    have hfirst : isFirstHalf u = false := by
      rw [isFirstHalf, decide_eq_false (by omega), Bool.false_and]
    have hsecond : isSecondHalf u = false := by
      rw [isSecondHalf, decide_eq_false (by omega), Bool.false_and]
    match rest with
    | [] => simp [joined, hfirst, hsecond]
    | .char c :: rest => simp [joined, hfirst, hsecond]
    | .unit v :: rest => rw [joined, hfirst, hsecond]; rfl
  induction cs with
  | nil => rfl
  | cons c cs ih =>
      rw [List.map_cons, writtenPiece]
      split
      · rename_i hc
        rw [hunit c.toNat _ hc.2, ih, Option.map_some, Char.ofNat_toNat]
      · rw [joined, ih, Option.map_some]

/-- The letter after a backslash stands for the character written by it. -/
theorem escapedChar?_of_escapeLetter {c letter : Char} (h : escapeLetter c = some letter) :
    letter ≠ 'u' ∧ escapedChar? letter = some c := by
  unfold escapeLetter at h
  split at h
  · rename_i hc
    obtain rfl := Option.some.inj h
    rcases hc with rfl | rfl <;> decide
  iterate 5
    split at h
    · rename_i hc
      obtain rfl := Option.some.inj h
      subst hc
      decide
  exact nomatch h

/-- A hexadecimal digit has its value. -/
theorem hexValue?_digitChar {d : Nat} (h : d < 16) : hexValue? (Nat.digitChar d) = some d := by
  revert d
  decide

end Json

end TapeMachine
