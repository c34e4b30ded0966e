/-
**Numbers written in decimal digits.**

Main definitions:

* `TapeMachine.Text.digitsValue` — the number that digits stand for;
* `TapeMachine.Text.countBound` — the bound of the numbers that count something;
* `TapeMachine.Text.count?` — the count that a text stands for.

Main results:

* `TapeMachine.Text.digitsValue_toDigits` — the digits of a number stand for that number.
-/

set_option relaxedAutoImplicit false
set_option autoImplicit false

namespace TapeMachine

namespace Text

/-- The number that digits stand for. -/
def digitsValue (digits : List Char) : Nat := Nat.ofDigitChars 10 digits 0

/-- The bound of the numbers that count something: the sixty-fourth power of two. -/
def countBound : Nat := 0x10000000000000000

/-- The count that a text stands for: digits, possibly after a plus sign, of a number below
`countBound`. -/
def count? (text : String) : Option Nat :=
  let digits :=
    match text.toList with
    | '+' :: digits => digits
    | digits => digits
  if digits.isEmpty then none
  else if digits.all Char.isDigit && decide (digitsValue digits < countBound) then
    some (digitsValue digits)
  else none

/-- **The digits of a number stand for that number.** -/
@[simp] theorem digitsValue_toDigits (n : Nat) : digitsValue (Nat.toDigits 10 n) = n :=
  Nat.ofDigitChars_ten_toDigits

/-- The digits of a number are digits. -/
theorem all_isDigit_toDigits (n : Nat) : (Nat.toDigits 10 n).all Char.isDigit = true :=
  List.all_eq_true.2 fun _ h => Nat.isDigit_of_mem_toDigits (by decide) (by decide) h

end Text

end TapeMachine
