/-
**Programs on another input.**

Another input changes the tape of a program and nothing else, so a program that passes its check can
fail it on that input for two reasons only: its head is no longer on the tape, or, if it is bounded,
a symbol of the input is not declared (`Program.Suits`).  In particular the sentinels of a bounded
tape are in order for every input, and the state to start in does not depend on it.

Main definitions:

* `TapeMachine.Program.Suits` — the input is one that the program can be put on.

Main results:

* `TapeMachine.Program.suits_unbounded_iff`, `TapeMachine.Program.suits_bounded_iff` — what this
  comes to under either policy;
* `TapeMachine.Program.check_withInput_iff` — **a program that passes its check passes it on the
  inputs that suit it**;
* `TapeMachine.Machine.new_withInput` — the machine that is made for such an input.
-/

import TapeMachine.Proofs.Requirements

set_option relaxedAutoImplicit false
set_option autoImplicit false

namespace TapeMachine

namespace Program

/-- The input leaves the head on the tape, and has declared symbols only if the program declares
them. -/
structure Suits (p : Program) (input : String) : Prop where
  /-- The head is on the tape. -/
  head : p.head < (p.profile.tapeOf p.blank input).length
  /-- The symbols are declared, or the blank. -/
  symbols : ∀ bounds, p.profile = .bounded bounds →
    ∀ c ∈ input.toList, c ∈ bounds.alphabet ∨ c = p.blank

variable {p : Program} {input : String}

theorem suits_unbounded_iff (hp : p.profile = .unbounded) :
    p.Suits input ↔ p.head < input.toList.length := by
  have hlength : (p.profile.tapeOf p.blank input).length = input.toList.length := by
    rw [hp, Profile.tapeOf, Tape.length_ofString]
  constructor
  · intro h
    exact hlength ▸ h.head
  · intro h
    exact ⟨hlength ▸ h, fun bounds hbounded => nomatch hp.symm.trans hbounded⟩

theorem suits_bounded_iff {bounds : Bounds} (hp : p.profile = .bounded bounds) :
    p.Suits input ↔ p.head < input.toList.length + 2 ∧
      ∀ c ∈ input.toList, c ∈ bounds.alphabet ∨ c = p.blank := by
  have hlength : (p.profile.tapeOf p.blank input).length = input.toList.length + 2 := by
    rw [hp, Profile.tapeOf, Tape.length_padded]
  constructor
  · intro h
    exact ⟨hlength ▸ h.head, h.symbols bounds hp⟩
  · rintro ⟨hhead, hsymbols⟩
    refine ⟨hlength ▸ hhead, ?_⟩
    intro bounds' hbounded
    obtain rfl := Profile.bounded.inj (hp.symm.trans hbounded)
    exact hsymbols

/-- What is required of the symbols of a program on an input: its rules pass already, and so do the
sentinels, which are blanks. -/
theorem meets_symbols_withInput_iff (h : p.Meets .symbols) :
    (p.withInput input).Meets .symbols ↔
      ∀ bounds, p.profile = .bounded bounds →
        ∀ c ∈ input.toList, c ∈ bounds.alphabet ∨ c = p.blank := by
  constructor
  · intro hmeets bounds hp c hc
    refine hmeets bounds hp c (List.mem_append_left _ ?_)
    simp [withInput, hp, Profile.tapeOf, Tape.padded, hc]
  · intro hinput bounds hp c hc
    rcases List.mem_append.1 hc with htape | hrules
    · have hcell : c = p.blank ∨ c ∈ input.toList := by
        have hbounded : p.profile = .bounded bounds := hp
        simp only [withInput, hbounded, Profile.tapeOf, Tape.padded, List.cons_append,
          List.mem_cons, List.mem_append, List.not_mem_nil, or_false] at htape
        rcases htape with hblank | hsymbol | hblank
        · exact Or.inl hblank
        · exact Or.inr hsymbol
        · exact Or.inl hblank
      rcases hcell with hblank | hsymbol
      · exact Or.inr hblank
      · exact hinput bounds hp c hsymbol
    · exact h bounds hp c (List.mem_append_right _ hrules)

/-- **A program that passes its check passes it on the inputs that suit it**, and on no others. -/
theorem check_withInput_iff (h : p.check = .ok ()) :
    (p.withInput input).check = .ok () ↔ p.Suits input := by
  rw [check_eq_ok_iff_meets] at h ⊢
  constructor
  · intro hmeets
    exact ⟨hmeets .head, (meets_symbols_withInput_iff (h .symbols)).1 (hmeets .symbols)⟩
  · intro hsuits r
    cases r with
    | cells =>
        -- there is a cell under the head
        intro hnone
        have hhead := hsuits.head
        have hempty : (p.profile.tapeOf p.blank input).length = 0 := by
          rw [Tape.length, show (p.profile.tapeOf p.blank input).symbols = [] from hnone,
            List.length_nil]
        omega
    | head => exact hsuits.head
    | symbols => exact (meets_symbols_withInput_iff (h .symbols)).2 hsuits.symbols
    | verdicts => exact h .verdicts
    | flags => exact h .flags
    | start => exact h .start
    | oneStart => exact h .oneStart
    | rules => exact h .rules
    | states => exact h .states

/-- No machine is made exactly for the inputs that do not suit the program. -/
theorem exists_new_withInput_eq_error_iff (h : p.check = .ok ()) :
    (∃ e, Machine.new (p.withInput input) = .error e) ↔ ¬ p.Suits input := by
  rw [← check_withInput_iff h]
  constructor
  · rintro ⟨e, he⟩ hcheck
    rw [new_eq_error_iff, hcheck] at he
    exact nomatch he
  · intro hcheck
    cases hresult : (p.withInput input).check with
    | ok u => exact absurd hresult hcheck
    | error e => exact ⟨e, new_eq_error_iff.2 hresult⟩

end Program

/-- A machine that is made has the program that it is made for. -/
theorem Machine.program_of_new {p : Program} {m : Machine} (hm : Machine.new p = .ok m) :
    m.program = p := by
  obtain ⟨-, start, -, rfl⟩ := new_eq_ok_iff.1 hm
  rfl

/-- The machine for a program on an input that suits it starts where the program says. -/
theorem Machine.new_withInput {p : Program} {input start : String} (h : p.check = .ok ())
    (hstart : p.startState = .ok start) (hsuits : p.Suits input) :
    Machine.new (p.withInput input) = .ok (initial (p.withInput input) start) :=
  new_eq_ok_iff.2 ⟨(Program.check_withInput_iff h).2 hsuits, start, hstart, rfl⟩

end TapeMachine
