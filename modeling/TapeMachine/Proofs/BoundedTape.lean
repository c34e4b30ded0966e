/-
**A tape of fixed length.**

Under the bounded policy a rule may take the head off the tape, by one cell and on either side,
and nothing puts it back.  The tape itself never changes its length (`Confined`).  That the head is
off the tape is only found out by the next step: if the rule that took it there has also entered
the accepting or the rejecting state then the machine has halted and nothing is amiss, and
otherwise the step fails.  Such a machine is left as it is by every step, so it stays off its tape
until it begins anew.

Main definitions:

* `TapeMachine.Machine.Confined` — the invariant.

Main results:

* `TapeMachine.Machine.Confined.step` — a step keeps the invariant;
* `TapeMachine.Machine.Advances.eq_of_symbol?_eq_none` — off the tape nothing changes any more;
* `TapeMachine.Machine.halts_of_enters` — whatever way a rule moves, entering a halting state
  halts;
* `TapeMachine.Machine.bounded_tape` — **the tape and the head of every machine that can be
  reached**.
-/

import TapeMachine.Catalogue
import TapeMachine.Proofs.Reachable
import TapeMachine.Proofs.Requirements

set_option relaxedAutoImplicit false
set_option autoImplicit false

namespace TapeMachine

namespace Program

/-- A bounded program that passes its check tells accepting from rejecting. -/
theorem accept_ne_reject {p : Program} {bounds : Bounds} (hp : p.profile = .bounded bounds)
    (hcheck : p.check = .ok ()) : bounds.accept ≠ bounds.reject := by
  have hmeets := check_eq_ok_iff_meets.1 hcheck
  exact hmeets .verdicts bounds hp

end Program

namespace Machine

/-! ### The invariant -/

/-- The tape is as long as it was made, and the head is off it by one cell at most. -/
structure Confined (p : Program) (m : Machine) : Prop where
  program_eq : m.program = p
  length_eq : m.tape.length = p.tape.length
  head_ge : -1 ≤ m.head
  head_le : m.head ≤ m.tape.length

theorem confined_of_new {p : Program} {m : Machine} (hm : Machine.new p = .ok m) :
    Confined p m := by
  obtain ⟨h0, hlt⟩ := head_lt_of_new hm
  obtain ⟨-, start, -, rfl⟩ := new_eq_ok_iff.1 hm
  exact ⟨rfl, rfl, by omega, by omega⟩

section Bounded

variable {p : Program} {bounds : Bounds} {m : Machine}

/-- **A step keeps the invariant**: only a head on the tape moves, and it moves by one cell. -/
theorem Confined.step (hp : p.profile = .bounded bounds) (h : Confined p m) :
    Confined p m.step.2 := by
  have hprogram : m.step.2.program = p := (step_frame m).1.trans h.program_eq
  by_cases hgo : m.step.1 = .ok .continue
  · obtain ⟨symbol, rule, haction, hnext⟩ := exists_apply_of_continue hgo
    obtain ⟨-, hsymbol, -⟩ := action_eq_apply_iff.1 haction
    have hprofile : m.program.profile = .bounded bounds := by rw [h.program_eq, hp]
    -- a head that moves has read a symbol, so it goes from a cell of the tape
    obtain ⟨h0, hlt⟩ := head_lt_of_symbol? hsymbol
    have hhead := (apply_bounded hprofile rule).2
    have hlength := length_apply_bounded hprofile rule
    have hmove : rule.direction.offset = -1 ∨ rule.direction.offset = 1 := by
      cases rule.direction with
      | left => exact Or.inl rfl
      | right => exact Or.inr rfl
    rw [hnext] at hprogram ⊢
    exact ⟨hprogram, hlength.trans h.length_eq, by omega, by omega⟩
  · obtain ⟨htape, hhead, -⟩ := step_idle hgo
    have hge := h.head_ge
    have hle := h.head_le
    exact ⟨hprogram, by rw [htape]; exact h.length_eq, by rw [hhead]; exact hge,
      by rw [htape, hhead]; exact hle⟩

/-- **Whatever is reached satisfies the invariant.** -/
theorem Reaches.confined (hp : p.profile = .bounded bounds) {past : List Machine}
    (h : Reaches p past m) : Confined p m := by
  exact Reaches.induction (P := fun _ m₁ => Confined p m₁) (fun _ hnew => confined_of_new hnew)
    (fun _ _ ih => ih.step hp) h

/-! ### Off the tape -/

/-- There is no symbol to read exactly when the head is off the tape by one cell. -/
theorem Confined.symbol?_eq_none_iff (h : Confined p m) :
    m.symbol? = none ↔ m.head = -1 ∨ m.head = m.tape.length := by
  have hge := h.head_ge
  have hle := h.head_le
  rw [Machine.symbol?_eq_none_iff]
  omega

/-- **Off the tape nothing changes any more**, however the machine is told to step and to run. -/
theorem Advances.eq_of_symbol?_eq_none {past : List Machine} {m' : Machine}
    (hadvances : m.Advances past m') (h : m.symbol? = none) : m' = m := by
  refine Advances.induction (P := fun _ m₁ => m₁ = m) rfl ?_ hadvances
  rintro past m₁ rfl
  exact step_of_symbol?_eq_none h

/-! ### Entering a halting state -/

/-- **Whatever way a rule moves, entering a halting state halts**: the next step and the run from
there give the verdict and leave the machine as it is. -/
theorem halts_of_enters (hprofile : m.program.profile = .bounded bounds)
    (hdiffer : bounds.accept ≠ bounds.reject) {symbol : Char} {rule : Rule} {verdict : Halt}
    (haction : m.action = .apply symbol rule)
    (henters : rule.next.name = bounds.accept ∧ verdict = .accept ∨
      rule.next.name = bounds.reject ∧ verdict = .reject) :
    m.step = (.ok .continue, m.apply rule) ∧
      (m.apply rule).step = (.ok (.halt verdict), m.apply rule) ∧
      (m.apply rule).runFor 1 = .ended (.ok ((m.apply rule).outcome verdict)) (m.apply rule) := by
  obtain ⟨hhalted, -, -⟩ := action_eq_apply_iff.1 haction
  have hprofile' : (m.apply rule).program.profile = .bounded bounds := hprofile
  have hnext : (m.apply rule).halted = some verdict := by
    rw [halted_of_bounded hprofile' ((halt_apply m rule).trans (halt_eq_none_of_halted hhalted)),
      state_apply]
    rcases henters with ⟨hname, rfl⟩ | ⟨hname, rfl⟩
    · rw [if_pos hname]
    · -- accepting is tried first, and is another state
      rw [if_neg (by rw [hname]; exact Ne.symm hdiffer), if_pos hname]
  refine ⟨step_of_apply haction, step_of_halted hnext, ?_⟩
  rw [runFor_succ, round_of_halted hnext, resume]

/-- **The tape and the head of every machine that can be reached under the bounded policy.**  The
tape keeps its length and the head is off it by one cell at most.  A step fails exactly when the
machine has not halted and the head is off the tape, and then it says where the head is and changes
nothing.  A head off the tape stays there until the machine begins anew.  A rule that enters the
accepting or the rejecting state halts the machine without a failure, off the tape as well. -/
theorem bounded_tape (hp : p.profile = .bounded bounds) {past : List Machine}
    (h : Reaches p past m) :
    m.tape.length = p.tape.length ∧
      (-1 ≤ m.head ∧ m.head ≤ m.tape.length) ∧
      ((∃ e, m.step.1 = .error e) ↔
        m.halted = none ∧ (m.head = -1 ∨ m.head = m.tape.length)) ∧
      (∀ e, m.step.1 = .error e →
        e = .indexOutOfRange m.head m.tape.length ∧ m.step.2 = m) ∧
      (m.head = -1 ∨ m.head = m.tape.length → ∀ past' m', m.Advances past' m' → m' = m) ∧
      ∀ symbol rule verdict, m.action = .apply symbol rule →
        (rule.next.name = bounds.accept ∧ verdict = .accept ∨
          rule.next.name = bounds.reject ∧ verdict = .reject) →
        m.step = (.ok .continue, m.apply rule) ∧
          (m.apply rule).step = (.ok (.halt verdict), m.apply rule) ∧
          (m.apply rule).runFor 1 =
            .ended (.ok ((m.apply rule).outcome verdict)) (m.apply rule) := by
  have hconfined := h.confined hp
  have hprofile : m.program.profile = .bounded bounds := by rw [hconfined.program_eq, hp]
  obtain ⟨m₀, hnew, -⟩ := h.exists_advances
  have hdiffer := Program.accept_ne_reject hp (new_eq_ok_iff.1 hnew).1
  refine ⟨hconfined.length_eq, ⟨hconfined.head_ge, hconfined.head_le⟩, ?_, ?_, ?_, ?_⟩
  · rw [exists_step_error_iff, hconfined.symbol?_eq_none_iff]
  · intro e herror
    exact step_of_error herror
  · intro hoff past' m' hadvances
    exact hadvances.eq_of_symbol?_eq_none (hconfined.symbol?_eq_none_iff.2 hoff)
  · intro symbol rule verdict haction henters
    exact halts_of_enters hprofile hdiffer haction henters

end Bounded

/-- The parity of no ones at all is found on the right sentinel, and the rule that accepts goes off
the tape there; the machine that runs to the left instead fails before the left sentinel. -/
theorem bounded_tape_off_both_ends :
    (∃ past m, Reaches (Catalogue.evenOnes.withInput "") past m ∧
      m.action = .apply '_' ⟨⟨"even", true, false⟩, '_', ⟨"accept", false, true⟩, '_', .right⟩ ∧
      m.step.2.head = m.tape.length ∧ m.step.2.step = (.ok (.halt .accept), m.step.2)) ∧
    ∃ past m, Reaches (Description.build
        ⟨"left", ["q", "accept", "reject"], [], [⟨"q", '_', "q", '_', .left⟩], "q", "accept",
          "reject", '_', none⟩ "") past m ∧
      m.head = -1 ∧ m.step = (.error (.indexOutOfRange (-1) 2), m) ∧
      ∀ past' m', m.Advances past' m' → m' = m := by
  constructor
  · have hmade : Machine.new (Catalogue.evenOnes.withInput "") =
        .ok (initial (Catalogue.evenOnes.withInput "") "even") := rfl
    obtain ⟨-, -, -, -, -, henters⟩ := bounded_tape rfl (.made hmade .refl)
    obtain ⟨hgo, hhalts, -⟩ := henters '_' _ .accept rfl (Or.inl ⟨rfl, rfl⟩)
    refine ⟨_, _, .made hmade .refl, rfl, rfl, ?_⟩
    rw [hgo]
    exact hhalts
  · have hmade : Machine.new (Description.build
        ⟨"left", ["q", "accept", "reject"], [], [⟨"q", '_', "q", '_', .left⟩], "q", "accept",
          "reject", '_', none⟩ "") = .ok (initial _ "q") := rfl
    have hoff : Reaches _ _ _ := .made hmade (.step (.step .refl))
    obtain ⟨-, -, hfails, herror, hstays, -⟩ := bounded_tape rfl hoff
    obtain ⟨e, hfail⟩ := hfails.2 ⟨rfl, Or.inl rfl⟩
    obtain ⟨rfl, hsame⟩ := herror e hfail
    exact ⟨_, _, hoff, rfl, Prod.ext hfail hsame, hstays (Or.inl rfl)⟩

end Machine

end TapeMachine
