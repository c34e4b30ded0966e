/-
**Two programs that read their input once.**

One program of the catalogue decides the parity of the number of ones, and one flips every digit
between zero and one.  Both sweep over their input up to the first symbol that is no digit, the one
with its state for what it knows about the ones that it has read, and the other with what it has
written for them.  What happens at the end of the sweep is what makes them differ from one input to
another.  The first one is bounded and meets a blank sooner or later, one in its input or the
sentinel; it accepts there with one more transition, which may take its head off the tape, or rejects
for want of a rule.  The second one is unbounded, and may meet a blank of its input, a blank that its
tape has grown by, or another symbol for which it has no rule.

Main definitions:

* `TapeMachine.Catalogue.parityState` — the state after so many ones;
* `TapeMachine.Catalogue.isBit`, `TapeMachine.Catalogue.complement` — zeros and ones, and the other
  one of them.

Main results:

* `TapeMachine.Catalogue.sweeps_evenOnes`, `TapeMachine.Catalogue.sweeps_invert` — both programs
  sweep over zeros and ones;
* `TapeMachine.Catalogue.even_ones_decides_parity` — **the parity of the number of ones is decided**;
* `TapeMachine.Catalogue.invert_complements` — **every digit is flipped** up to the first other
  symbol.
-/

import TapeMachine.Catalogue
import TapeMachine.Proofs.Inputs
import TapeMachine.Proofs.Sweep

set_option relaxedAutoImplicit false
set_option autoImplicit false

namespace TapeMachine

namespace Catalogue

open Machine

/-- What comes first after the good symbols is not a good one. -/
theorem eq_false_of_dropWhile_eq_cons {good : Char → Bool} {word rest : List Char} {c : Char}
    (h : word.dropWhile good = c :: rest) : good c = false := by
  simpa [h] using List.head?_dropWhile_not good word

/-! ### The parity of the number of ones -/

section EvenOnes

/-- The state after so many ones. -/
def parityState (ones : Nat) : String := if ones % 2 = 0 then "even" else "odd"

theorem parityState_of_even {ones : Nat} (h : ones % 2 = 0) : parityState ones = "even" :=
  if_pos h

theorem parityState_of_odd {ones : Nat} (h : ones % 2 = 1) : parityState ones = "odd" :=
  if_neg (by omega)

/-- The number of ones after one more symbol. -/
def onesAfter (ones : Nat) (c : Char) : Nat := if c = '1' then ones + 1 else ones

theorem foldl_onesAfter (word : List Char) (ones : Nat) :
    word.foldl onesAfter ones = ones + word.count '1' := by
  induction word generalizing ones with
  | nil => rfl
  | cons c word ih =>
      rw [List.foldl_cons, ih]
      by_cases hc : c = '1'
      · subst hc
        rw [onesAfter, if_pos rfl, List.count_cons_self]
        omega
      · rw [onesAfter, if_neg hc, List.count_cons_of_ne hc]

variable (s : String)

/-- The machine on an input. -/
def evenOnesOn : Machine := initial (evenOnes.withInput s) "even"

/-- The program has a rule for either digit in either state. -/
theorem sweeps_evenOnes {word : List Char} (hword : ∀ c ∈ word, c = '0' ∨ c = '1') :
    (evenOnesOn s).Sweeps parityState onesAfter id word := by
  refine ⟨rfl, ?_, ?_⟩
  · intro ones
    rcases Nat.mod_two_eq_zero_or_one ones with heven | hodd
    · rw [parityState_of_even heven]
      rfl
    · rw [parityState_of_odd hodd]
      rfl
  · intro ones c hc
    have hzero : onesAfter ones '0' = ones := rfl
    have hone : onesAfter ones '1' = ones + 1 := rfl
    rcases Nat.mod_two_eq_zero_or_one ones with heven | hodd
    · rw [parityState_of_even heven]
      rcases hword c hc with rfl | rfl
      · rw [hzero, parityState_of_even heven]
        exact ⟨_, rfl, rfl, rfl, rfl⟩
      · rw [hone, parityState_of_odd (by omega)]
        exact ⟨_, rfl, rfl, rfl, rfl⟩
    · rw [parityState_of_odd hodd]
      rcases hword c hc with rfl | rfl
      · rw [hzero, parityState_of_odd hodd]
        exact ⟨_, rfl, rfl, rfl, rfl⟩
      · rw [hone, parityState_of_even (by omega)]
        exact ⟨_, rfl, rfl, rfl, rfl⟩

variable {s}

theorem suits_evenOnes (hs : ∀ c ∈ s.toList, c = '0' ∨ c = '1' ∨ c = '_') : evenOnes.Suits s := by
  have hhead : evenOnes.head = 1 := rfl
  refine (Program.suits_bounded_iff rfl).2 ⟨by omega, ?_⟩
  intro c hc
  change c ∈ ['0', '1'] ∨ c = '_'
  rcases hs c hc with rfl | rfl | rfl <;> simp

/-- With no digit left there is a blank under the head: one of the input, or the sentinel. -/
theorem exists_blank_after_digits (word : List Char) :
    ∃ rest, word.dropWhile (· ≠ '_') ++ ['_'] = '_' :: rest := by
  cases hrest : word.dropWhile (· ≠ '_') with
  | nil => exact ⟨[], rfl⟩
  | cons c rest =>
      obtain rfl : c = '_' := by simpa using eq_false_of_dropWhile_eq_cons hrest
      exact ⟨rest ++ ['_'], rfl⟩

/-- On the blank the program accepts or rejects, and leaves the tape as it was. -/
theorem ends_evenOnes {word rest : List Char}
    (htape : '_' :: word ++ '_' :: rest = (Tape.padded s '_').symbols) :
    ∃ f, ((evenOnesOn s).placed (parityState (word.count '1')) ('_' :: word) ('_' :: rest)
        word.length).Ends
      (.ok (if word.count '1' % 2 = 0 then ⟨.accept, "accept", s, word.length + 1⟩
        else ⟨.reject, "reject", s, word.length⟩)) f := by
  have hshown : (evenOnesOn s).program.profile.content ⟨'_' :: word ++ '_' :: rest⟩ = s := by
    rw [htape]
    exact Tape.interior_padded s '_'
  rcases Nat.mod_two_eq_zero_or_one (word.count '1') with heven | hodd
  · have hrule : (evenOnesOn s).HasRule "even" '_' "accept" '_' .right := ⟨_, rfl, rfl, rfl, rfl⟩
    rw [if_pos heven, parityState_of_even heven]
    exact ends_placed_of_last _ rfl rfl hrule rfl hshown
  · rw [if_neg (by omega), parityState_of_odd hodd]
    exact ⟨_, ends_placed_of_no_rule _ rfl rfl hshown⟩

/-- **The parity of the number of ones is decided.**  On zeros, ones and blanks a machine is made,
and it counts the ones before the first blank: if their number is even it accepts, with one
transition for each symbol before the blank and one for the blank, and otherwise it rejects where
the blank is.  What is shown of the tape is the input. -/
theorem even_ones_decides_parity (s : String)
    (hs : ∀ c ∈ s.toList, c = '0' ∨ c = '1' ∨ c = '_') :
    ∃ m, Machine.new (evenOnes.withInput s) = .ok m ∧
      let p := s.toList.takeWhile (· ≠ '_')
      ∃ f, m.Ends (.ok (if p.count '1' % 2 = 0 then ⟨.accept, "accept", s, p.length + 1⟩
        else ⟨.reject, "reject", s, p.length⟩)) f := by
  have hsuits := suits_evenOnes hs
  refine ⟨evenOnesOn s, new_withInput rfl rfl hsuits, ?_⟩
  intro p
  obtain ⟨rest, hrest⟩ := exists_blank_after_digits s.toList
  have hsplit : p ++ s.toList.dropWhile (· ≠ '_') = s.toList := List.takeWhile_append_dropWhile
  have hp : ∀ c ∈ p, c = '0' ∨ c = '1' := by
    intro c hc
    have hne : c ≠ '_' := by simpa using List.all_eq_true.1 List.all_takeWhile c hc
    rcases hs c ((List.takeWhile_sublist _).subset hc) with hzero | hone | hblank
    · exact Or.inl hzero
    · exact Or.inr hone
    · exact absurd hblank hne
  have htape : '_' :: p ++ '_' :: rest = (Tape.padded s '_').symbols := by
    rw [← hrest, List.cons_append, ← List.append_assoc, hsplit]
    rfl
  obtain ⟨f, hends⟩ := ends_evenOnes htape
  refine ⟨f, (sweeps_evenOnes s hp).ends_initial rfl hsuits.head hsplit (x := 0) rfl ?_⟩
  -- what is left of the tape begins with the blank
  have hlast : (evenOnesOn s).facing (parityState (p.foldl onesAfter 0)) (['_'] ++ p.map id)
      (s.toList.dropWhile (· ≠ '_')) p.length =
      (evenOnesOn s).placed (parityState (p.count '1')) ('_' :: p) ('_' :: rest) p.length := by
    rw [foldl_onesAfter, Nat.zero_add, List.map_id, ← hrest]
    rfl
  exact hlast ▸ hends

/-- A blank within the input hides the one behind it. -/
theorem even_ones_decides_parity_up_to_blank :
    (∀ c ∈ "101_1".toList, c = '0' ∨ c = '1' ∨ c = '_') ∧
      ∃ m, Machine.new (evenOnes.withInput "101_1") = .ok m ∧
        ∃ f, m.Ends (.ok ⟨.accept, "accept", "101_1", 4⟩) f := by
  have hs : ∀ c ∈ "101_1".toList, c = '0' ∨ c = '1' ∨ c = '_' := by simp
  exact ⟨hs, even_ones_decides_parity "101_1" hs⟩

end EvenOnes

/-! ### Exchanging zeros and ones -/

section Invert

/-- Zeros and ones. -/
def isBit (c : Char) : Bool := decide (c = '0' ∨ c = '1')

/-- The other one of zero and one. -/
def complement (c : Char) : Char := if c = '0' then '1' else '0'

variable (s : String)

/-- The machine on an input. -/
def invertOn : Machine := initial (invert.withInput s) "scan"

/-- The program has a rule for either digit, and stays in its state. -/
theorem sweeps_invert {word : List Char} (hword : ∀ c ∈ word, isBit c = true) :
    (invertOn s).Sweeps (fun _ => "scan") (fun _ _ => ()) complement word := by
  refine ⟨rfl, fun _ => rfl, ?_⟩
  intro _ c hc
  have hbit : c = '0' ∨ c = '1' := of_decide_eq_true (hword c hc)
  rcases hbit with rfl | rfl
  · exact ⟨_, rfl, rfl, rfl, rfl⟩
  · exact ⟨_, rfl, rfl, rfl, rfl⟩

variable {s}

theorem suits_invert (hs : s ≠ "") : invert.Suits s := by
  have hcells : s.toList ≠ [] := fun h => hs (String.toList_eq_nil_iff.1 h)
  exact (Program.suits_unbounded_iff rfl).2 (List.length_pos_iff.2 hcells)

/-- On a blank the program accepts, and goes on to the next cell. -/
theorem ends_invert_of_blank (left rest : List Char) (steps : Nat) :
    ∃ f, ((invertOn s).placed "scan" left ('_' :: rest) steps).Ends
      (.ok ⟨.accept, "done", String.ofList (left ++ '_' :: Profile.unbounded.beyond '_' rest),
        steps + 1⟩) f := by
  have hrule : (invertOn s).HasRule "scan" '_' "done" '_' .right := ⟨_, rfl, rfl, rfl, rfl⟩
  exact ends_placed_of_last _ rfl rfl hrule rfl rfl

/-- There are no rules for other symbols. -/
theorem ends_invert_of_foreign {c : Char} (hbit : isBit c = false) (hblank : c ≠ '_')
    (left rest : List Char) (steps : Nat) :
    ∃ f, ((invertOn s).placed "scan" left (c :: rest) steps).Ends
      (.ok ⟨.reject, "scan", String.ofList (left ++ c :: rest), steps⟩) f := by
  have hneither : ¬ (c = '0' ∨ c = '1') := of_decide_eq_false hbit
  have hreads : ∀ r ∈ invert.rules, r.read = '0' ∨ r.read = '1' ∨ r.read = '_' := by decide
  have hnone : (invertOn s).ruleFor "scan" c = none := by
    refine ruleFor_eq_none _ ?_
    rintro r hr rfl
    rcases hreads r hr with hzero | hone | h
    · exact hneither (Or.inl hzero)
    · exact hneither (Or.inr hone)
    · exact hblank h
  exact ⟨_, ends_placed_of_no_rule _ rfl hnone rfl⟩

/-- **Every digit is flipped.**  On an input that is not empty a machine is made.  With `p` for the
zeros and ones that the input begins with and `r` for what follows them, it flips those of `p`.  If
`r` is empty it accepts on the blank that its tape has grown by, and the tape has grown by another
one.  If a blank follows it accepts on that, and the tape grows only if this was the last cell.  On
any other symbol it rejects, and has changed nothing from there on. -/
theorem invert_complements (s : String) (hs : s ≠ "") :
    ∃ m, Machine.new (invert.withInput s) = .ok m ∧
      let p := s.toList.takeWhile isBit
      let r := s.toList.dropWhile isBit
      let p' := p.map complement
      (r = [] → ∃ f, m.Ends (.ok ⟨.accept, "done", String.ofList (p' ++ ['_', '_']),
        s.toList.length + 1⟩) f) ∧
      (∀ rest, r = '_' :: rest → ∃ f, m.Ends (.ok ⟨.accept, "done",
        String.ofList (p' ++ r ++ if rest = [] then ['_'] else []), p.length + 1⟩) f) ∧
      ∀ c rest, r = c :: rest → c ≠ '_' → ∃ f, m.Ends (.ok ⟨.reject, "scan",
        String.ofList (p' ++ r), p.length⟩) f := by
  have hsuits := suits_invert hs
  refine ⟨invertOn s, new_withInput rfl rfl hsuits, ?_⟩
  intro p r p'
  have hsplit : p ++ r = s.toList := List.takeWhile_append_dropWhile
  have hp : ∀ c ∈ p, isBit c = true := List.all_eq_true.1 List.all_takeWhile
  have hsweep {right : List Char} (hright : Profile.unbounded.ahead '_' r = right)
      {result : Except Error Outcome} {f : Machine}
      (hends : ((invertOn s).placed "scan" p' right p.length).Ends result f) :
      (invertOn s).Ends result f := by
    refine (sweeps_invert s hp).ends_initial rfl hsuits.head hsplit (x := ()) rfl ?_
    rw [← hright] at hends
    exact hends
  refine ⟨?_, ?_, ?_⟩
  · intro hr
    obtain ⟨f, hends⟩ := ends_invert_of_blank (s := s) p' [] p.length
    rw [← hsplit, hr, List.append_nil]
    exact ⟨f, hsweep (by rw [hr, Profile.ahead_nil]) hends⟩
  · intro rest hr
    obtain ⟨f, hends⟩ := ends_invert_of_blank (s := s) p' rest p.length
    have hgrown : p' ++ '_' :: Profile.unbounded.beyond '_' rest =
        p' ++ r ++ if rest = [] then ['_'] else [] := by
      rw [hr]
      cases rest <;> simp [Profile.beyond]
    rw [hgrown] at hends
    exact ⟨f, hsweep (by rw [hr, Profile.ahead_cons]; rfl) hends⟩
  · intro c rest hr hblank
    obtain ⟨f, hends⟩ := ends_invert_of_foreign (s := s) (eq_false_of_dropWhile_eq_cons hr) hblank
      p' rest p.length
    rw [hr]
    exact ⟨f, hsweep (by rw [hr, Profile.ahead_cons]; rfl) hends⟩

/-- The three ways for a sweep to end: behind the input, on its last cell, and within it. -/
theorem invert_complements_three_ways :
    ("10" ≠ "" ∧ "1_" ≠ "" ∧ "1x0" ≠ "") ∧
      (∃ m f, Machine.new (invert.withInput "10") = .ok m ∧
        m.Ends (.ok ⟨.accept, "done", "01__", 3⟩) f) ∧
      (∃ m f, Machine.new (invert.withInput "1_") = .ok m ∧
        m.Ends (.ok ⟨.accept, "done", "0__", 2⟩) f) ∧
      ∃ m f, Machine.new (invert.withInput "1x0") = .ok m ∧
        m.Ends (.ok ⟨.reject, "scan", "0x0", 1⟩) f := by
  refine ⟨⟨by decide, by decide, by decide⟩, ?_, ?_, ?_⟩
  · obtain ⟨m, hm, hbehind, -, -⟩ := invert_complements "10" (by decide)
    obtain ⟨f, hends⟩ := hbehind rfl
    exact ⟨m, f, hm, hends⟩
  · obtain ⟨m, hm, -, hblank, -⟩ := invert_complements "1_" (by decide)
    obtain ⟨f, hends⟩ := hblank [] rfl
    exact ⟨m, f, hm, hends⟩
  · obtain ⟨m, hm, -, -, hforeign⟩ := invert_complements "1x0" (by decide)
    obtain ⟨f, hends⟩ := hforeign 'x' ['0'] rfl (by decide)
    exact ⟨m, f, hm, hends⟩

end Invert

end Catalogue

end TapeMachine
