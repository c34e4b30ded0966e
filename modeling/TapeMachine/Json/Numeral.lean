/-
**The spelling of numbers.**

A number is spelled by an optional minus sign, digits without a zero before others, an optional
fraction and an optional exponent.  One that is spelled by digits alone has a value; of the others
only the spelling is kept.

Main definitions:

* `TapeMachine.Json.isNumeral` — whether characters spell a number;
* `TapeMachine.Json.numeralToken?` — the token for a spelling.

Main results:

* `TapeMachine.Json.numeralToken?_toDigits` — the digits of a number spell that number;
* `TapeMachine.Json.all_isNumeralChar_of_isNumeral`,
  `TapeMachine.Json.exists_cons_of_isNumeral` — the characters of a spelling and its first one.
-/

import TapeMachine.Json.Token
import TapeMachine.Text.Digits

set_option relaxedAutoImplicit false
set_option autoImplicit false

namespace TapeMachine

namespace Json

/-- Whether a character can belong to a number. -/
def isNumeralChar (c : Char) : Bool :=
  c.isDigit || c == '-' || c == '+' || c == '.' || c == 'e' || c == 'E'

/-- Whether a number may have these digits before the point: at least one, and no zero before
others. -/
def isWhole (digits : List Char) : Bool :=
  match digits with
  | [] => false
  | [c] => c.isDigit
  | c :: rest => c != '0' && (c :: rest).all Char.isDigit

/-- What follows a minus sign, if there is one. -/
def afterMinus : List Char → List Char
  | '-' :: rest => rest
  | rest => rest

/-- What follows a plus or minus sign, if there is one. -/
def afterSign : List Char → List Char
  | '+' :: rest => rest
  | rest => afterMinus rest

/-- Whether a number may end so after its digits: with nothing or an exponent. -/
def isExponent : List Char → Bool
  | [] => true
  | c :: rest =>
      (c == 'e' || c == 'E') && !(afterSign rest).isEmpty && (afterSign rest).all Char.isDigit

/-- Whether a number may end so after its digits: with a fraction or an exponent or both. -/
def isNumeralEnd : List Char → Bool
  | '.' :: rest =>
      !(rest.takeWhile Char.isDigit).isEmpty && isExponent (rest.dropWhile Char.isDigit)
  | rest => isExponent rest

/-- Whether the characters spell a number. -/
def isNumeral (cs : List Char) : Bool :=
  isWhole ((afterMinus cs).takeWhile Char.isDigit) &&
    isNumeralEnd ((afterMinus cs).dropWhile Char.isDigit)

/-- The token for a number. -/
def numeralToken? (cs : List Char) : Option Token :=
  if isWhole cs then some (.natural (Text.digitsValue cs))
  else if isNumeral cs then some (.number (String.ofList cs))
  else none

/-! ### The digits of a natural number -/

/-- A digit after digits that may begin a number gives digits that may begin a number, unless
those were a single zero. -/
theorem isWhole_append {digits : List Char} {c : Char} (h : isWhole digits = true)
    (hzero : digits ≠ ['0']) (hc : c.isDigit = true) : isWhole (digits ++ [c]) = true := by
  match digits, h with
  | [d], h =>
      have hd : d ≠ '0' := fun hd => hzero (by rw [hd])
      simp_all [isWhole]
  | d :: e :: rest, h => simp_all [isWhole]

/-- The digits of a number have no zero before others. -/
theorem isWhole_toDigits (n : Nat) : isWhole (Nat.toDigits 10 n) = true := by
  induction n using Nat.strongRecOn with
  | ind n ih =>
      have hdigit : ∀ d, d < 10 → (Nat.digitChar d).isDigit = true := by
        intro d hd
        rw [Nat.isDigit_digitChar, decide_eq_true hd]
      rw [Nat.toDigits_eq_if (by decide)]
      split
      · rename_i hlt
        exact hdigit n hlt
      · rename_i hle
        refine isWhole_append (ih (n / 10) (by omega)) ?_ (hdigit _ (by omega))
        -- A quotient that is not zero is not written as a single zero.
        intro hzero
        have hvalue := congrArg Text.digitsValue hzero
        rw [Text.digitsValue_toDigits] at hvalue
        have hnone : Text.digitsValue ['0'] = 0 := rfl
        omega

/-- **The digits of a number spell that number.** -/
theorem numeralToken?_toDigits (n : Nat) :
    numeralToken? (Nat.toDigits 10 n) = some (.natural n) := by
  rw [numeralToken?, if_pos (isWhole_toDigits n), Text.digitsValue_toDigits]

/-! ### The characters of a number -/

theorem isNumeralChar_of_isDigit {c : Char} (h : c.isDigit = true) : isNumeralChar c = true := by
  simp [isNumeralChar, h]

theorem all_isNumeralChar_of_all_isDigit {cs : List Char} (h : cs.all Char.isDigit = true) :
    cs.all isNumeralChar = true := by
  rw [List.all_eq_true] at h ⊢
  exact fun c hc => isNumeralChar_of_isDigit (h c hc)

/-- A row of characters can belong to a number if what follows its digits can. -/
theorem all_isNumeralChar_of_dropWhile {cs : List Char}
    (h : (cs.dropWhile Char.isDigit).all isNumeralChar = true) : cs.all isNumeralChar = true := by
  rw [← List.takeWhile_append_dropWhile (p := Char.isDigit) (l := cs), List.all_append, h,
    all_isNumeralChar_of_all_isDigit List.all_takeWhile, Bool.and_self]

theorem all_isNumeralChar_of_afterMinus {cs : List Char}
    (h : (afterMinus cs).all isNumeralChar = true) : cs.all isNumeralChar = true := by
  unfold afterMinus at h
  split at h
  · rw [List.all_cons, h, Bool.and_true]
    decide
  · exact h

theorem all_isNumeralChar_of_afterSign {cs : List Char}
    (h : (afterSign cs).all isNumeralChar = true) : cs.all isNumeralChar = true := by
  unfold afterSign at h
  split at h
  · rw [List.all_cons, h, Bool.and_true]
    decide
  · exact all_isNumeralChar_of_afterMinus h

theorem all_isNumeralChar_of_isExponent {cs : List Char} (h : isExponent cs = true) :
    cs.all isNumeralChar = true := by
  match cs, h with
  | [], _ => rfl
  | c :: rest, h =>
      simp only [isExponent, Bool.and_eq_true, Bool.or_eq_true, beq_iff_eq] at h
      obtain ⟨⟨hc, _⟩, hdigits⟩ := h
      rw [List.all_cons,
        all_isNumeralChar_of_afterSign (all_isNumeralChar_of_all_isDigit hdigits), Bool.and_true]
      rcases hc with rfl | rfl <;> decide

theorem all_isNumeralChar_of_isNumeralEnd {cs : List Char} (h : isNumeralEnd cs = true) :
    cs.all isNumeralChar = true := by
  unfold isNumeralEnd at h
  split at h
  · rw [Bool.and_eq_true] at h
    rw [List.all_cons,
      all_isNumeralChar_of_dropWhile (all_isNumeralChar_of_isExponent h.2), Bool.and_true]
    decide
  · exact all_isNumeralChar_of_isExponent h

/-- A number is spelled with the characters of numbers. -/
theorem all_isNumeralChar_of_isNumeral {cs : List Char} (h : isNumeral cs = true) :
    cs.all isNumeralChar = true := by
  rw [isNumeral, Bool.and_eq_true] at h
  exact all_isNumeralChar_of_afterMinus
    (all_isNumeralChar_of_dropWhile (all_isNumeralChar_of_isNumeralEnd h.2))

/-- A number begins with a minus sign or a digit. -/
theorem exists_cons_of_isNumeral {cs : List Char} (h : isNumeral cs = true) :
    ∃ c ds, cs = c :: ds ∧ (c = '-' ∨ c.isDigit = true) := by
  rw [isNumeral, Bool.and_eq_true] at h
  obtain ⟨hwhole, _⟩ := h
  unfold afterMinus at hwhole
  split at hwhole
  · exact ⟨_, _, rfl, Or.inl rfl⟩
  · match cs with
    | [] => simp [isWhole] at hwhole
    | c :: ds =>
        refine ⟨c, ds, rfl, Or.inr ?_⟩
        cases hc : c.isDigit with
        | true => rfl
        | false => simp [hc, isWhole] at hwhole

end Json

end TapeMachine
