/-
**A tape that is infinite to the right.**

The unbounded policy is meant to give a machine a tape without a right end.  This module says what
that means: `OneWay` is a machine whose tape is a function from the natural numbers to symbols, in
which a move to the left in the first cell goes nowhere, and which halts in an accepting state or
for want of a rule.  It knows nothing of lengths, of overruns or of blanks to append.

A finite tape begins such an infinite one if it agrees with it as far as it goes and the infinite
one is blank from there on (`Tape.Begins`).  Writing on both keeps this, and so does appending a
blank to the finite one, which is why a tape that grows when it has to is as good as one that is
infinite from the start.

Main definitions:

* `TapeMachine.OneWay`, `TapeMachine.OneWay.step`, `TapeMachine.OneWay.after` — the machine with
  the infinite tape;
* `TapeMachine.Tape.Begins` — a finite tape is the beginning of an infinite one;
* `TapeMachine.Machine.Represents` — the relation that every step keeps;
* `TapeMachine.Machine.Agrees` — what can be seen of two machines is the same.

Main results:

* `TapeMachine.Tape.Begins.set`, `TapeMachine.Tape.Begins.extendRight` — the two changes of a tape;
* `TapeMachine.Machine.Represents.step` — **a step on the one tape is a step on the other**;
* `TapeMachine.Machine.Represents.after`, `TapeMachine.Machine.Represents.agrees` — and so are
  steps in a row.
-/

import Mathlib.Logic.Function.Basic
import TapeMachine.Proofs.Flags
import TapeMachine.Proofs.Reachable

set_option relaxedAutoImplicit false
set_option autoImplicit false

namespace TapeMachine

/-! ### The machine with the infinite tape -/

/-- A machine on a tape that is infinite to the right, apart from its program. -/
structure OneWay where
  state : String
  cells : Nat → Char
  head : Nat
  steps : Nat

namespace OneWay

/-- Where the head goes; to the left of the first cell there is no other. -/
def move : Direction → Nat → Nat
  | .left, 0 => 0
  | .left, i + 1 => i
  | .right, i => i + 1

/-- The machine for a program: its tape, and blanks without end. -/
def initial (p : Program) (start : String) : OneWay where
  state := start
  cells := fun i => (p.tape.get? i).getD p.blank
  head := p.head
  steps := 0

/-- The machine after it has carried out a rule. -/
def apply (a : OneWay) (r : Rule) : OneWay where
  state := r.next.name
  cells := Function.update a.cells a.head r.write
  head := move r.direction a.head
  steps := a.steps + 1

/-- One step: what it comes to, and the machine afterwards. -/
def step (p : Program) (a : OneWay) : Step × OneWay :=
  if p.accepts a.state then (.halt .accept, a)
  else
    match p.rules.find? fun r => r.appliesTo a.state (a.cells a.head) with
    | none => (.halt .reject, a)
    | some r => (.continue, a.apply r)

/-- The machine after `n` steps. -/
def after (p : Program) (a : OneWay) : Nat → OneWay
  | 0 => a
  | n + 1 => ((a.after p n).step p).2

theorem natCast_move (d : Direction) (i : Nat) :
    (move d i : Int) = if d = .right then (i : Int) + 1 else max ((i : Int) - 1) 0 := by
  cases d with
  | right => simp [move]
  | left =>
      cases i with
      | zero => rfl
      | succ i =>
          simp only [move, reduceCtorEq, if_false]
          omega

theorem step_of_accepts {p : Program} {a : OneWay} (h : p.accepts a.state = true) :
    a.step p = (.halt .accept, a) := by
  rw [step, if_pos h]

theorem step_of_find?_eq_none {p : Program} {a : OneWay} (h : ¬ p.accepts a.state = true)
    (hrule : (p.rules.find? fun r => r.appliesTo a.state (a.cells a.head)) = none) :
    a.step p = (.halt .reject, a) := by
  rw [step, if_neg h, hrule]

theorem step_of_find?_eq_some {p : Program} {a : OneWay} {r : Rule}
    (h : ¬ p.accepts a.state = true)
    (hrule : (p.rules.find? fun r => r.appliesTo a.state (a.cells a.head)) = some r) :
    a.step p = (.continue, a.apply r) := by
  rw [step, if_neg h, hrule]

end OneWay

/-! ### The beginning of an infinite tape -/

namespace Tape

/-- The cells without end begin with the tape and are blank after it. -/
structure Begins (t : Tape) (blank : Char) (cells : Nat → Char) : Prop where
  cell : ∀ i < t.length, t.get? i = some (cells i)
  beyond : ∀ i, t.length ≤ i → cells i = blank

theorem begins_getD (t : Tape) (blank : Char) : t.Begins blank fun i => (t.get? i).getD blank := by
  constructor
  · intro i hi
    obtain ⟨c, hc⟩ := exists_get?_of_lt hi
    simp [hc]
  · intro i hi
    simp [get?_eq_none_iff.2 hi]

variable {t : Tape} {blank : Char} {cells : Nat → Char}

/-- **The same symbol written on both.** -/
theorem Begins.set (h : t.Begins blank cells) {i : Nat} (hi : i < t.length) (c : Char) :
    (t.set i c).Begins blank (Function.update cells i c) := by
  constructor
  · intro j hj
    rw [length_set] at hj
    rw [get?_set]
    by_cases hij : i = j
    · subst hij
      rw [if_pos ⟨rfl, hj⟩, Function.update_self]
    · rw [if_neg (fun hand => hij hand.1), Function.update_of_ne (Ne.symm hij)]
      exact h.cell j hj
  · intro j hj
    rw [length_set] at hj
    have hne : j ≠ i := by omega
    rw [Function.update_of_ne hne]
    exact h.beyond j hj

/-- **A blank appended to the finite tape was there all the time.** -/
theorem Begins.extendRight (h : t.Begins blank cells) :
    (t.extendRight blank).Begins blank cells := by
  constructor
  · intro j hj
    rw [length_extendRight] at hj
    rw [get?_extendRight]
    by_cases hend : j = t.length
    · rw [if_pos hend, h.beyond j (by omega)]
    · rw [if_neg hend]
      exact h.cell j (by omega)
  · intro j hj
    rw [length_extendRight] at hj
    exact h.beyond j (by omega)

/-- Of two beginnings of the same cells the longer one ends in blanks. -/
theorem Begins.eq_append_replicate {t' : Tape} (h : t.Begins blank cells)
    (h' : t'.Begins blank cells) (hle : t.length ≤ t'.length) :
    t'.symbols = t.symbols ++ List.replicate (t'.length - t.length) blank := by
  refine List.ext_getElem? ?_
  intro i
  change t'.get? i = _
  by_cases hi : i < t'.length
  · rw [h'.cell i hi]
    by_cases hshort : i < t.length
    · rw [List.getElem?_append_left hshort]
      exact (h.cell i hshort).symm
    · have hge : t.symbols.length ≤ i := by
        change t.length ≤ i
        omega
      rw [List.getElem?_append_right hge, List.getElem?_replicate, h.beyond i hge, if_pos]
      change i - t.length < t'.length - t.length
      omega
  · rw [get?_eq_none_iff.2 (by omega), eq_comm, List.getElem?_eq_none_iff, List.length_append,
      List.length_replicate]
    change t.length + (t'.length - t.length) ≤ i
    omega

end Tape

namespace Machine

/-! ### The relation that every step keeps -/

/-- The machine stands on the beginning of the infinite tape, in the same place and the same state;
if it was refused a rule, there is none on the infinite tape either. -/
structure Represents (p : Program) (m : Machine) (a : OneWay) : Prop where
  program_eq : m.program = p
  accepting : ∀ name, name ∈ m.accepting ↔ p.accepts name = true
  state : m.state = a.state
  head : m.head = a.head
  head_lt : a.head < m.tape.length
  steps : m.steps = a.steps
  begins : m.tape.Begins p.blank a.cells
  halt : m.halt = none ∨ m.halt = some .reject ∧ a.step p = (.halt .reject, a)

/-- What can be seen of the machine is what can be seen of the one with the infinite tape. -/
structure Agrees (p : Program) (m : Machine) (a : OneWay) : Prop where
  result : m.step.1 = .ok (a.step p).1
  state : m.state = a.state
  head : m.head = a.head
  steps : m.steps = a.steps
  cell : ∀ i < m.tape.length, m.tape.get? i = some (a.cells i)
  beyond : ∀ i, m.tape.length ≤ i → a.cells i = p.blank

theorem represents_initial {p : Program} {start : String} (hcheck : p.check = .ok ()) :
    Represents p (initial p start) (OneWay.initial p start) where
  program_eq := rfl
  accepting := Program.mem_accepting_iff (Program.check_eq_ok_iff.1 hcheck).2.2.1 start
  state := rfl
  head := rfl
  head_lt := Program.head_lt_of_check hcheck
  steps := rfl
  begins := Tape.begins_getD p.tape p.blank
  halt := Or.inl rfl

variable {p : Program} {m : Machine} {a : OneWay}

theorem Represents.symbol? (h : Represents p m a) : m.symbol? = some (a.cells a.head) := by
  rw [symbol?_eq_some_iff, h.head]
  exact ⟨Int.natCast_nonneg _, h.begins.cell a.head h.head_lt⟩

/-- Carrying out a rule on both keeps the relation: the head goes to the same cell, and where that
cell is not on the finite tape yet it is appended as the blank it holds on the infinite one. -/
theorem Represents.apply (hp : p.profile = .unbounded) (h : Represents p m a)
    (hnone : m.halt = none) (r : Rule) : Represents p (m.apply r) (a.apply r) := by
  have hprofile : m.program.profile = .unbounded := by rw [h.program_eq, hp]
  have hlt := h.head_lt
  have h0 : 0 ≤ m.head := by rw [h.head]; exact Int.natCast_nonneg _
  have hlt' : m.head < m.tape.length := by rw [h.head]; exact Int.ofNat_lt.2 hlt
  -- the rule writes into the same cell of both tapes, which the finite one has
  have hcell : m.head.toNat = a.head := by rw [h.head, Int.toNat_natCast]
  have hhead : (m.apply r).head = (OneWay.move r.direction a.head : Int) := by
    rw [head_apply_unbounded hprofile h0 hlt' r, h.head, OneWay.natCast_move]
  have hon := (head_apply_on_tape hprofile h0 hlt' r).2
  have htape := tape_apply_unbounded hprofile h0 hlt' r
  rw [hcell, h.program_eq] at htape
  have hset := h.begins.set hlt r.write
  refine ⟨h.program_eq, h.accepting, rfl, hhead, ?_, ?_, ?_, Or.inl hnone⟩
  · change OneWay.move r.direction a.head < (m.apply r).tape.length
    rw [hhead] at hon
    exact Int.ofNat_lt.1 hon
  · change m.steps + 1 = a.steps + 1
    rw [h.steps]
  · rw [htape]
    split
    · exact hset.extendRight
    · exact hset

/-- **A step on the one tape is a step on the other.** -/
theorem Represents.step (hp : p.profile = .unbounded) (h : Represents p m a) :
    m.step.1 = .ok (a.step p).1 ∧ Represents p m.step.2 (a.step p).2 := by
  have hprofile : m.program.profile = .unbounded := by rw [h.program_eq, hp]
  rcases h.halt with hnone | ⟨hreject, hrefused⟩
  · have hhalted := halted_of_unbounded hprofile hnone
    by_cases haccepts : p.accepts a.state = true
    · rw [h.state, if_pos ((h.accepting a.state).2 haccepts)] at hhalted
      rw [step_of_halted hhalted, OneWay.step_of_accepts haccepts]
      exact ⟨rfl, h⟩
    · rw [h.state, if_neg (fun hmem => haccepts ((h.accepting a.state).1 hmem))] at hhalted
      have htransition : m.transition (a.cells a.head) =
          p.rules.find? fun r => r.appliesTo a.state (a.cells a.head) := by
        rw [transition, h.program_eq, h.state]
      cases hrule : p.rules.find? fun r => r.appliesTo a.state (a.cells a.head) with
      | none =>
          rw [hrule] at htransition
          have hrefused := OneWay.step_of_find?_eq_none haccepts hrule
          rw [step_of_no_transition hhalted h.symbol? htransition, hrefused]
          refine ⟨rfl, ?_⟩
          exact ⟨by rw [program_rejected, h.program_eq],
            by rw [accepting_rejected]; exact h.accepting,
            by rw [state_rejected_of_unbounded hprofile, h.state],
            by rw [head_rejected, h.head], by rw [tape_rejected]; exact h.head_lt,
            by rw [steps_rejected, h.steps], by rw [tape_rejected]; exact h.begins,
            Or.inr ⟨halt_rejected m, hrefused⟩⟩
      | some r =>
          rw [hrule] at htransition
          rw [step_of_transition hhalted h.symbol? htransition,
            OneWay.step_of_find?_eq_some haccepts hrule]
          exact ⟨rfl, h.apply hp hnone r⟩
  · -- a machine that was refused a rule stays so, and so does the other
    rw [step_of_halted (halted_of_halt hreject), hrefused]
    exact ⟨rfl, h⟩

theorem Represents.after (hp : p.profile = .unbounded) (h : Represents p m a) (n : Nat) :
    Represents p (m.after n) (a.after p n) := by
  induction n with
  | zero => exact h
  | succ n ih => exact (ih.step hp).2

theorem Represents.agrees (hp : p.profile = .unbounded) (h : Represents p m a) :
    Agrees p m a where
  result := (h.step hp).1
  state := h.state
  head := h.head
  steps := h.steps
  cell := h.begins.cell
  beyond := h.begins.beyond

end Machine

end TapeMachine
