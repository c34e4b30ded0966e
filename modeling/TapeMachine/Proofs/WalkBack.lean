/-
**Walking back to the first cell.**

A machine that goes to the left over a row of one symbol, with a rule that stays in its state,
writes over the row from its end to its beginning.  It cannot leave the tape there: on the first
cell the head stays where it is, so that the machine reads the symbol that it has just written.  One
program of the catalogue stops by this: it has another rule for its own mark, and with that one it
marks the first cell once more and accepts.

Main results:

* `TapeMachine.Program.check_withTape` — an unbounded program passes its check on another tape;
* `TapeMachine.Machine.runFor_placed_back` — **a row of one symbol is written over from its end**,
  and the head is on the first cell then;
* `TapeMachine.Catalogue.rewind_walks_back` — **the program that walks back marks the cells on its
  way, and stops on the first one**.
-/

import TapeMachine.Catalogue
import TapeMachine.Proofs.Placement
import TapeMachine.Proofs.Requirements

set_option relaxedAutoImplicit false
set_option autoImplicit false

namespace TapeMachine

/-! ### Another tape -/

namespace Program

/-- The program with another tape and another position to start from. -/
def withTape (p : Program) (tape : Tape) (head : Nat) : Program :=
  { p with tape := tape, head := head }

/-- **An unbounded program that passes its check passes it on another tape**, if the position is on
that tape: whatever else is required is required of the rules. -/
theorem check_withTape {p : Program} (h : p.check = .ok ()) (hp : p.profile = .unbounded)
    {tape : Tape} {head : Nat} (hhead : head < tape.length) :
    (p.withTape tape head).check = .ok () := by
  rw [check_eq_ok_iff_meets] at h ⊢
  intro r
  cases r with
  | cells =>
      intro hnone
      rw [Tape.length, show tape.symbols = [] from hnone] at hhead
      exact Nat.not_lt_zero head hhead
  | head => exact hhead
  | symbols => exact fun bounds hbounded => absurd (hp.symm.trans hbounded) (by simp)
  | verdicts => exact h .verdicts
  | flags => exact h .flags
  | start => exact h .start
  | oneStart => exact h .oneStart
  | rules => exact h .rules
  | states => exact h .states

end Program

/-! ### A row of one symbol -/

namespace Machine

/-- **A row of one symbol is written over from its end.**  The induction is on the cells to the left
of the head; what has been written is at the beginning of the other part. -/
theorem runFor_placed_back (m : Machine) (hcap : m.program.maxSteps = none) {state : String}
    (hgoes : m.verdictOf state = none) (hp : m.program.profile = .unbounded) {c write : Char}
    (hrule : m.HasRule state c state write .left) (count : Nat) (rest : List Char)
    (steps n : Nat) :
    (m.placed state (List.replicate count c) (c :: rest) steps).runFor (n + (count + 1)) =
      (m.placed state [] (write :: List.replicate count write ++ rest)
        (steps + (count + 1))).runFor n := by
  induction count generalizing rest steps with
  | zero => exact runFor_placed_first m hcap hgoes hp hrule n
  | succ count ih =>
      have hrow : List.replicate (count + 1) write ++ rest =
          List.replicate count write ++ write :: rest := by
        rw [List.replicate_succ', List.append_assoc, List.singleton_append]
      rw [List.replicate_succ', ← Nat.add_assoc n, runFor_placed_left m hcap hgoes hp hrule,
        ih (write :: rest) (steps + 1), List.cons_append, List.cons_append, hrow,
        Nat.add_right_comm steps 1, Nat.add_assoc steps]

end Machine

/-! ### The program of the catalogue -/

namespace Catalogue

open Machine

/-- On the mark in the first cell the program marks it once more, goes to the right and accepts. -/
theorem ends_rewind_of_mark (tape : Tape) (head : Nat) (rest : List Char) (steps : Nat) :
    ∃ f, ((initial (rewind.withTape tape head) "back").placed "back" [] ('x' :: rest) steps).Ends
      (.ok ⟨.accept, "done", String.ofList ('y' :: Profile.unbounded.beyond '_' rest), steps + 1⟩)
      f := by
  have hrule : (initial (rewind.withTape tape head) "back").HasRule "back" 'x' "done" 'y' .right :=
    ⟨_, rfl, rfl, rfl, rfl⟩
  exact ends_placed_of_last _ rfl rfl hrule rfl rfl

/-- What is right of the first cell is empty on a tape of a single cell only, and then the tape has
grown. -/
theorem beyond_marks {n h : Nat} (hh : h < n) :
    Profile.unbounded.beyond '_' (List.replicate h 'x' ++ List.replicate (n - h - 1) '1') =
      List.replicate h 'x' ++ List.replicate (n - h - 1) '1' ++ if n = 1 then ['_'] else [] := by
  by_cases hone : n = 1
  · obtain rfl : h = 0 := by omega
    subst hone
    rfl
  · have hcells : List.replicate h 'x' ++ List.replicate (n - h - 1) '1' ≠ [] := by
      rw [← List.length_pos_iff, List.length_append, List.length_replicate, List.length_replicate]
      omega
    obtain ⟨c, rest, hrest⟩ := List.exists_cons_of_ne_nil hcells
    rw [if_neg hone, List.append_nil, hrest]
    rfl

/-- **The program that walks back marks the cells on its way, and stops on the first one.**  On ones
with the head anywhere among them a machine is made, and it accepts with one transition for each
cell up to the head and one more, which is made from the mark on the first cell.  That cell has
another mark then than the ones after it; what was to the right of the head is as it was, and the
tape has grown only if there was a single cell. -/
theorem rewind_walks_back (n h : Nat) (hh : h < n) :
    ∃ m, Machine.new (rewind.withTape ⟨List.replicate n '1'⟩ h) = .ok m ∧
      ∃ f, m.Ends (.ok ⟨.accept, "done",
        String.ofList ('y' :: List.replicate h 'x' ++ List.replicate (n - h - 1) '1' ++
          if n = 1 then ['_'] else []), h + 2⟩) f := by
  have hcheck : (rewind.withTape ⟨List.replicate n '1'⟩ h).check = .ok () := by
    refine Program.check_withTape rfl rfl ?_
    rw [Tape.length, List.length_replicate]
    exact hh
  refine ⟨_, new_eq_ok_iff.2 ⟨hcheck, "back", rfl, rfl⟩, ?_⟩
  have hrow : List.replicate n '1' =
      List.replicate h '1' ++ '1' :: List.replicate (n - h - 1) '1' := by
    rw [← List.replicate_succ, List.replicate_append_replicate]
    congr 1
    omega
  have hplaced := initial_eq_placed (p := rewind.withTape ⟨List.replicate n '1'⟩ h)
    (congrArg Tape.mk hrow) (List.length_replicate).symm "back"
  have hback : (initial (rewind.withTape ⟨List.replicate n '1'⟩ h) "back").HasRule "back" '1' "back"
      'x' .left := ⟨_, rfl, rfl, rfl, rfl⟩
  have hrun := runFor_placed_back _ rfl rfl rfl hback h (List.replicate (n - h - 1) '1') 0
  obtain ⟨f, hends⟩ := ends_rewind_of_mark ⟨List.replicate n '1'⟩ h
    (List.replicate h 'x' ++ List.replicate (n - h - 1) '1') (h + 1)
  rw [beyond_marks hh, ← List.cons_append, ← List.cons_append] at hends
  rw [Nat.zero_add] at hrun
  rw [hplaced]
  exact ⟨f, hends.of_runFor hrun⟩

/-- From the third of four cells, and on a single cell, where the head cannot go back and leaves the
tape with the next transition. -/
theorem rewind_walks_back_on_one_cell :
    (2 < 4 ∧ 0 < 1) ∧
      (∃ m f, Machine.new (rewind.withTape ⟨['1', '1', '1', '1']⟩ 2) = .ok m ∧
        m.Ends (.ok ⟨.accept, "done", "yxx1", 4⟩) f) ∧
      ∃ m f, Machine.new (rewind.withTape ⟨['1']⟩ 0) = .ok m ∧
        m.Ends (.ok ⟨.accept, "done", "y_", 2⟩) f := by
  refine ⟨⟨by decide, by decide⟩, ?_, ?_⟩
  · obtain ⟨m, hm, f, hends⟩ := rewind_walks_back 4 2 (by decide)
    exact ⟨m, f, hm, hends⟩
  · obtain ⟨m, hm, f, hends⟩ := rewind_walks_back 1 0 (by decide)
    exact ⟨m, f, hm, hends⟩

end Catalogue

end TapeMachine
