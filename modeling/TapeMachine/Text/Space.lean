/-
**White space at the ends of a text.**

The characters that count as white space are those with the Unicode property White_Space, which
is a closed list of twenty-five code points and much more than the four blanks of a format like
JSON.

Main definitions:

* `TapeMachine.Text.spaceRanges` — the code points with the property, as inclusive ranges;
* `TapeMachine.Text.isSpace` — membership in one of those ranges;
* `TapeMachine.Text.trim` — a text without the white space at either end.
-/

set_option relaxedAutoImplicit false
set_option autoImplicit false

namespace TapeMachine

namespace Text

/-- The code points with the property White_Space, as inclusive ranges in ascending order. -/
def spaceRanges : List (Nat × Nat) :=
  [(0x09, 0x0D), (0x20, 0x20), (0x85, 0x85), (0xA0, 0xA0), (0x1680, 0x1680), (0x2000, 0x200A),
    (0x2028, 0x2029), (0x202F, 0x202F), (0x205F, 0x205F), (0x3000, 0x3000)]

/-- **A character is white space** when its code point lies in one of `spaceRanges`. -/
def isSpace (c : Char) : Bool :=
  spaceRanges.any fun range => decide (range.1 ≤ c.toNat) && decide (c.toNat ≤ range.2)

/-- The characters of a text without the white space before the first and after the last other
character. -/
def trim (cs : List Char) : List Char :=
  ((cs.dropWhile isSpace).reverse.dropWhile isSpace).reverse

end Text

end TapeMachine
