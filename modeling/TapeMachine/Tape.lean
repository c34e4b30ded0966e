/-
**The tape.**

A tape is a finite row of cells, each holding one symbol.  It can grow by a cell on the right and
in no other way.

Main definitions:

* `TapeMachine.Tape` — the symbols from left to right;
* `TapeMachine.Tape.get?`, `TapeMachine.Tape.set` — a cell, and the tape with one cell changed;
* `TapeMachine.Tape.read`, `TapeMachine.Tape.write` — the same, failing outside the tape;
* `TapeMachine.Tape.padded`, `TapeMachine.Tape.interior` — a tape with a sentinel at each end, and
  what lies between the ends of a tape.

Main results:

* `TapeMachine.Tape.get?_set`, `TapeMachine.Tape.get?_extendRight` — the cells after a change;
* `TapeMachine.Tape.interior_padded` — padding adds nothing to the interior.
-/

import TapeMachine.Error
import TapeMachine.Text.Digits

set_option relaxedAutoImplicit false
set_option autoImplicit false

namespace TapeMachine

/-- A row of cells, each holding one symbol. -/
structure Tape where
  /-- The symbols from left to right. -/
  symbols : List Char
  deriving DecidableEq, Repr

namespace Tape

/-- The tape without cells. -/
def empty : Tape := ⟨[]⟩

/-- The tape that holds the characters of a text. -/
def ofString (text : String) : Tape := ⟨text.toList⟩

/-- The tape that holds the characters of a text between two sentinels. -/
def padded (text : String) (sentinel : Char) : Tape := ⟨sentinel :: text.toList ++ [sentinel]⟩

/-- The number of cells. -/
def length (t : Tape) : Nat := t.symbols.length

/-- Whether the tape has no cell. -/
def isEmpty (t : Tape) : Bool := t.symbols.isEmpty

/-- The symbol in cell `i`, if there is such a cell. -/
def get? (t : Tape) (i : Nat) : Option Char := t.symbols[i]?

/-- The tape with `c` in cell `i`; the same tape if there is no such cell. -/
def set (t : Tape) (i : Nat) (c : Char) : Tape := ⟨t.symbols.set i c⟩

/-- The tape with one more cell on the right. -/
def extendRight (t : Tape) (c : Char) : Tape := ⟨t.symbols ++ [c]⟩

/-- The symbols of the tape in a row. -/
def text (t : Tape) : String := String.ofList t.symbols

/-- The symbols between the first cell and the last. -/
def interior (t : Tape) : String := String.ofList t.symbols.tail.dropLast

/-- The failure to find cell `i`.  Its index is shown as a signed number of sixty-four bits. -/
def outOfRange (t : Tape) (i : Nat) : Error :=
  .indexOutOfRange ((i : Int).bmod Text.countBound) t.length

/-- The symbol in cell `i`. -/
def read (t : Tape) (i : Nat) : Except Error Char :=
  match t.get? i with
  | some c => .ok c
  | none => .error (t.outOfRange i)

/-- The tape with `c` in cell `i`. -/
def write (t : Tape) (i : Nat) (c : Char) : Except Error Tape :=
  if i < t.length then .ok (t.set i c) else .error (t.outOfRange i)

/-! ### Lengths and cells after a change -/

@[simp] theorem length_ofString (text : String) :
    (ofString text).length = text.toList.length := rfl

@[simp] theorem length_padded (text : String) (sentinel : Char) :
    (padded text sentinel).length = text.toList.length + 2 := by
  simp [padded, length]

@[simp] theorem length_set (t : Tape) (i : Nat) (c : Char) : (t.set i c).length = t.length := by
  simp [set, length]

@[simp] theorem length_extendRight (t : Tape) (c : Char) :
    (t.extendRight c).length = t.length + 1 := by
  simp [extendRight, length]

/-- A tape has exactly the cells below its length. -/
theorem get?_eq_none_iff {t : Tape} {i : Nat} : t.get? i = none ↔ t.length ≤ i := by
  simp [get?, length]

theorem exists_get?_of_lt {t : Tape} {i : Nat} (h : i < t.length) : ∃ c, t.get? i = some c := by
  cases hget : t.get? i with
  | some c => exact ⟨c, rfl⟩
  | none => exact absurd (get?_eq_none_iff.1 hget) (by omega)

/-- **A change is seen in its own cell and in no other.** -/
theorem get?_set (t : Tape) (i j : Nat) (c : Char) :
    (t.set i c).get? j = if i = j ∧ j < t.length then some c else t.get? j := by
  by_cases hij : i = j
  · subst hij
    by_cases hlt : i < t.length
    · rw [if_pos ⟨rfl, hlt⟩]
      exact List.getElem?_set_self hlt
    · rw [if_neg (fun h => hlt h.2), get?_eq_none_iff.2 (Nat.le_of_not_lt hlt),
        get?_eq_none_iff, length_set]
      exact Nat.le_of_not_lt hlt
  · rw [if_neg (fun h => hij h.1)]
    exact List.getElem?_set_ne hij

/-- Growing keeps the cells and puts the new symbol in the cell after them. -/
theorem get?_extendRight (t : Tape) (c : Char) (j : Nat) :
    (t.extendRight c).get? j = if j = t.length then some c else t.get? j := by
  rcases Nat.lt_trichotomy j t.length with hlt | heq | hgt
  · rw [if_neg (Nat.ne_of_lt hlt)]
    exact List.getElem?_append_left hlt
  · rw [if_pos heq, heq]
    exact List.getElem?_concat_length
  · rw [if_neg (Nat.ne_of_gt hgt), get?_eq_none_iff.2 (Nat.le_of_lt hgt), get?_eq_none_iff,
      length_extendRight]
    exact hgt

/-- A cell of the tape is read as it is. -/
theorem read_eq_ok_iff {t : Tape} {i : Nat} {c : Char} : t.read i = .ok c ↔ t.get? i = some c := by
  rw [read]
  cases t.get? i <;> simp

theorem read_of_le {t : Tape} {i : Nat} (h : t.length ≤ i) :
    t.read i = .error (t.outOfRange i) := by
  rw [read, get?_eq_none_iff.2 h]

theorem write_of_lt {t : Tape} {i : Nat} (c : Char) (h : i < t.length) :
    t.write i c = .ok (t.set i c) := if_pos h

theorem write_of_le {t : Tape} {i : Nat} (c : Char) (h : t.length ≤ i) :
    t.write i c = .error (t.outOfRange i) := if_neg (Nat.not_lt.2 h)

/-- What is read, if anything, is what the cell holds. -/
@[simp] theorem toOption_read (t : Tape) (i : Nat) : (t.read i).toOption = t.get? i := by
  rw [read]
  cases t.get? i <;> rfl

/-- An index below half of the bound is shown as it is. -/
theorem outOfRange_of_lt {t : Tape} {i : Nat} (h : 2 * i < Text.countBound) :
    t.outOfRange i = .indexOutOfRange i t.length := by
  rw [outOfRange, Int.bmod_eq_of_le_mul_two (by omega) (by omega)]

/-- **Padding adds nothing to the interior.** -/
@[simp] theorem interior_padded (text : String) (sentinel : Char) :
    (padded text sentinel).interior = text := by
  simp [interior, padded]

end Tape

end TapeMachine
