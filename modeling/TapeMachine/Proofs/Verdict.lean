/-
**The verdict and the state.**

Whether a machine has halted is found out in two ways: it remembers that it was refused a rule, and
it looks at its state.  What it remembers comes first, so the two must never disagree.  They do not,
because of what a refusal leaves behind (`Machine.Refused`).  A bounded machine goes to the rejecting
state, and no rule takes it away from there.  An unbounded one stays in its state, which did not
accept, and on its symbol, for which there was no rule, and it is not moved any more either.  So what
is remembered is borne out by what there is to see (`Machine.Faithful`), step after step.

Main definitions:

* `TapeMachine.Machine.Refused` — what a refusal leaves behind;
* `TapeMachine.Machine.Faithful` — the invariant: only a refusal is remembered;
* `TapeMachine.Program.Warrants` — a verdict is the one that goes with the state.

Main results:

* `TapeMachine.Machine.Faithful.step` — a step keeps the invariant;
* `TapeMachine.Machine.halted_of_ends` — a run that halts leaves a machine with its verdict;
* `TapeMachine.Machine.verdict_warranted` — **the verdict and the state never disagree**.
-/

import TapeMachine.Catalogue
import TapeMachine.Proofs.BoundedTape

set_option relaxedAutoImplicit false
set_option autoImplicit false

namespace TapeMachine

namespace Program

/-- The verdict, if there is one, is the one that goes with the state of the machine: under the
bounded policy the state that accepts and the state that rejects have theirs, and under the
unbounded policy the accepting states have theirs, and nothing else is rejected but for want of a
rule. -/
def Warrants (p : Program) (m : Machine) (verdict : Option Halt) : Prop :=
  match p.profile with
  | .unbounded =>
      (verdict = some .accept ↔ p.accepts m.state = true) ∧
        (verdict = some .reject → p.accepts m.state = false ∧
          ∃ symbol, m.symbol? = some symbol ∧ ∀ r ∈ p.rules, r.appliesTo m.state symbol = false)
  | .bounded bounds =>
      (verdict = some .accept ↔ m.state = bounds.accept) ∧
        (verdict = some .reject ↔ m.state = bounds.reject)

end Program

namespace Machine

/-! ### What a refusal leaves behind -/

/-- The machine is in the state that rejects or, if it is unbounded, in a state that does not accept
and on a symbol for which there is no rule. -/
def Refused (m : Machine) : Prop :=
  match m.program.profile with
  | .unbounded =>
      m.state ∉ m.accepting ∧ ∃ symbol, m.symbol? = some symbol ∧ m.transition symbol = none
  | .bounded bounds => m.state = bounds.reject

/-- What the machine remembers is that it was refused a rule, and this can still be seen. -/
def Faithful (m : Machine) : Prop :=
  ∀ verdict, m.halt = some verdict → verdict = .reject ∧ m.Refused

variable {p : Program} {bounds : Bounds} {m : Machine}

theorem faithful_of_halt_eq_none (h : m.halt = none) : m.Faithful := by
  intro verdict hhalt
  rw [h] at hhalt
  exact nomatch hhalt

/-- **A refusal leaves behind what it should.** -/
theorem refused_rejected {symbol : Char} (hhalted : m.halted = none)
    (hsymbol : m.symbol? = some symbol) (hrule : m.transition symbol = none) :
    m.rejected.Refused := by
  cases hp : m.program.profile with
  | unbounded =>
      have hrejected : m.rejected = { m with halt := some .reject } := by rw [rejected, hp]
      have hnot : m.state ∉ m.accepting := by
        intro haccepting
        rw [halted_of_unbounded hp (halt_eq_none_of_halted hhalted), if_pos haccepting] at hhalted
        exact absurd hhalted (Option.some_ne_none _)
      simp only [Refused, hrejected, hp]
      exact ⟨hnot, symbol, hsymbol, hrule⟩
  | bounded bounds =>
      simp only [Refused, program_rejected, hp]
      exact state_rejected_of_bounded hp

/-- **A step keeps the invariant**: a machine that remembers a verdict is at rest, and a machine
that is refused a rule remembers nothing else. -/
theorem Faithful.step (h : m.Faithful) : m.step.2.Faithful := by
  rcases step_cases m with ⟨verdict, -, hstep⟩ | ⟨-, -, hstep⟩ |
    ⟨symbol, hhalted, hsymbol, hrule, hstep⟩ | ⟨symbol, rule, hhalted, -, -, -, hstep⟩
  · rw [hstep]
    exact h
  · rw [hstep]
    exact h
  · rw [hstep]
    intro verdict hhalt
    rw [halt_rejected] at hhalt
    exact ⟨(Option.some.inj hhalt).symm, refused_rejected hhalted hsymbol hrule⟩
  · rw [hstep]
    exact faithful_of_halt_eq_none ((halt_apply m rule).trans (halt_eq_none_of_halted hhalted))

/-- **Whatever is reached satisfies the invariant.** -/
theorem Reaches.faithful {past : List Machine} (h : Reaches p past m) : m.Faithful := by
  refine Reaches.induction (P := fun _ m₁ => m₁.Faithful) ?_ (fun _ _ ih => ih.step) h
  intro m₀ hnew
  obtain ⟨-, start, -, rfl⟩ := new_eq_ok_iff.1 hnew
  exact faithful_of_halt_eq_none rfl

/-! ### The verdict of a faithful machine -/

theorem Faithful.halted_of_unbounded (h : m.Faithful) (hp : m.program.profile = .unbounded) :
    (m.halted = some .accept ↔ m.state ∈ m.accepting) ∧
      (m.halted = some .reject → m.Refused) := by
  cases hhalt : m.halt with
  | none =>
      rw [Machine.halted_of_unbounded hp hhalt]
      by_cases haccepting : m.state ∈ m.accepting
      · simp [haccepting]
      · simp [haccepting]
  | some verdict =>
      obtain ⟨rfl, hrefused⟩ := h verdict hhalt
      have hnot : m.state ∉ m.accepting := by
        have hrefused' := hrefused
        simp only [Refused, hp] at hrefused'
        exact hrefused'.1
      rw [halted_of_halt hhalt]
      simp [hnot, hrefused]

theorem Faithful.halted_of_bounded (h : m.Faithful) (hp : m.program.profile = .bounded bounds)
    (hdiffer : bounds.accept ≠ bounds.reject) :
    (m.halted = some .accept ↔ m.state = bounds.accept) ∧
      (m.halted = some .reject ↔ m.state = bounds.reject) := by
  cases hhalt : m.halt with
  | none =>
      rw [Machine.halted_of_bounded hp hhalt]
      by_cases haccept : m.state = bounds.accept
      · simp [haccept, hdiffer]
      · simp [haccept]
  | some verdict =>
      obtain ⟨rfl, hrefused⟩ := h verdict hhalt
      simp only [Refused, hp] at hrefused
      rw [halted_of_halt hhalt, hrefused]
      simp [Ne.symm hdiffer]

/-! ### What can be reached -/

/-- Wherever a machine gets to, it accepts in the states that some rule flags so. -/
theorem Reaches.mem_accepting_iff {past : List Machine} (h : Reaches p past m) {name : String} :
    name ∈ m.accepting ↔ p.accepts name = true := by
  obtain ⟨m₀, hnew, hadvances⟩ := h.exists_advances
  obtain ⟨hcheck, start, -, rfl⟩ := new_eq_ok_iff.1 hnew
  rw [hadvances.frame.2.2]
  exact Program.mem_accepting_iff (Program.check_eq_ok_iff.1 hcheck).2.2.1 start name

/-- **The verdict of what can be reached goes with its state.** -/
theorem Reaches.warrants {past : List Machine} (h : Reaches p past m) :
    p.Warrants m m.halted := by
  have hfaithful := h.faithful
  have hprogram := h.program_eq
  cases hp : p.profile with
  | unbounded =>
      have hprofile : m.program.profile = .unbounded := by rw [hprogram, hp]
      obtain ⟨haccept, hreject⟩ := hfaithful.halted_of_unbounded hprofile
      simp only [Program.Warrants, hp]
      refine ⟨haccept.trans h.mem_accepting_iff, ?_⟩
      intro hverdict
      have hrefused := hreject hverdict
      simp only [Refused, hprofile] at hrefused
      obtain ⟨hnot, symbol, hsymbol, hrule⟩ := hrefused
      rw [h.mem_accepting_iff, Bool.not_eq_true] at hnot
      refine ⟨hnot, symbol, hsymbol, ?_⟩
      intro r hr
      rw [transition, hprogram] at hrule
      exact Bool.eq_false_iff.2 (List.find?_eq_none.1 hrule r hr)
  | bounded bounds =>
      have hprofile : m.program.profile = .bounded bounds := by rw [hprogram, hp]
      have hdiffer := Program.accept_ne_reject hp h.check_eq_ok
      simp only [Program.Warrants, hp]
      exact hfaithful.halted_of_bounded hprofile hdiffer

/-- **A run that halts leaves a machine with its verdict**, and shows what there is to see of it. -/
theorem halted_of_ends {o : Outcome} {f : Machine} (h : m.Ends (.ok o) f) :
    f.halted = some o.halt ∧ o = f.outcome o.halt := by
  obtain ⟨n, hrun⟩ := h
  obtain ⟨k, -, -, hround⟩ := exists_round_of_runFor hrun
  exact halted_of_round hround

/-- **The verdict and the state never disagree.**  Under the bounded policy the machine has halted
with either verdict exactly in the state for that verdict.  Under the unbounded policy it has
accepted exactly in the accepting states, and where it has rejected its state does not accept and no
rule is for it and the symbol under the head.  The same is true of the outcome of a run, whose state
is that of the machine it leaves. -/
theorem verdict_warranted {past : List Machine} (h : Reaches p past m) :
    p.Warrants m m.halted ∧
      ∀ o f, m.Ends (.ok o) f →
        o.state = f.state ∧ f.halted = some o.halt ∧ p.Warrants f (some o.halt) := by
  refine ⟨h.warrants, ?_⟩
  intro o f hends
  obtain ⟨past', hreaches⟩ := h.ends hends
  obtain ⟨hhalted, ho⟩ := halted_of_ends hends
  have hstate : o.state = f.state := by
    rw [ho]
    rfl
  have hwarrants := hreaches.warrants
  rw [hhalted] at hwarrants
  exact ⟨hstate, hhalted, hwarrants⟩

/-- An odd number of ones is rejected for want of a rule, in the state that rejects; exchanging two
digits is rejected for want of a rule as well, in the state in which there was none. -/
theorem verdict_warranted_without_rule :
    (∃ past m, Reaches (Catalogue.evenOnes.withInput "1") past m ∧
      m.halted = some .reject ∧ m.state = "reject") ∧
    ∃ past m, Reaches (Catalogue.flipTwo.withInput "1x") past m ∧
      m.halted = some .reject ∧ m.state = "q1" ∧
      (Catalogue.flipTwo.withInput "1x").accepts m.state = false ∧
      ∃ symbol, m.symbol? = some symbol ∧
        ∀ r ∈ (Catalogue.flipTwo.withInput "1x").rules, r.appliesTo m.state symbol = false := by
  constructor
  · have hmade : Machine.new (Catalogue.evenOnes.withInput "1") =
        .ok (initial (Catalogue.evenOnes.withInput "1") "even") := rfl
    have hran : Reaches (Catalogue.evenOnes.withInput "1") _ _ :=
      .made hmade (.run (n := 2) .refl rfl)
    obtain ⟨⟨-, hreject⟩, -⟩ := verdict_warranted hran
    exact ⟨_, _, hran, rfl, hreject.1 rfl⟩
  · have hmade : Machine.new (Catalogue.flipTwo.withInput "1x") =
        .ok (initial (Catalogue.flipTwo.withInput "1x") "q0") := rfl
    have hran : Reaches (Catalogue.flipTwo.withInput "1x") _ _ :=
      .made hmade (.run (n := 2) .refl rfl)
    obtain ⟨⟨-, hreject⟩, -⟩ := verdict_warranted hran
    exact ⟨_, _, hran, rfl, rfl, hreject rfl⟩

end Machine

end TapeMachine
