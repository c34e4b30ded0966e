/-
**A bounded program without its bounds.**

The two policies are two readings of the same rules, and where neither has anything to say they
agree.  This module takes the bounds off a program (`Program.withoutBounds`) and follows the two
machines side by side.

Two things have to match before any step is taken.  The bounded machine starts and accepts by name
and the other one by flag, so the flags have to be those of the names (`Program.FlaggedBy`), as they
are in every program that was described by names; and then the other one finds the same start state
and accepts in the same states, provided that the rules mention them.  What is left is the ends of
the tape.  A rule that takes the bounded machine off its tape leaves it there, where the other one
goes back to the first cell or appends a blank.  The bounded machine cannot carry out another rule
after that, so the difference can only be seen when the last rule enters the accepting state.

The relation that every rule keeps is `Machine.Abreast`; it says that the tapes agree, or that the
bounded machine is off its tape and the other tape has at most one blank more.

Main definitions:

* `TapeMachine.Program.withoutBounds` — the program under the unbounded policy;
* `TapeMachine.Program.FlaggedBy` — the flags of a program are those of the declared names;
* `TapeMachine.Machine.Abreast` — the relation that every rule keeps.

Main results:

* `TapeMachine.Program.check_withoutBounds` — without its bounds the program passes as well;
* `TapeMachine.Machine.Abreast.step` — a rule of the bounded machine is a rule of the other one;
* `TapeMachine.Machine.Abreast.exists_last` — both come to the last round of a bounded run;
* `TapeMachine.Machine.policies_agree` — **the two policies agree where they overlap**.
-/

import TapeMachine.Proofs.BoundedTape
import TapeMachine.Proofs.Vocabulary

set_option relaxedAutoImplicit false
set_option autoImplicit false

namespace TapeMachine

/-! ### Taking off the bounds -/

namespace Program

/-- The program under the unbounded policy. -/
def withoutBounds (p : Program) : Program := { p with profile := .unbounded }

/-- The mentions of a state are flagged as the start, or as accepting, by its name. -/
structure FlaggedBy (bounds : Bounds) (p : Program) : Prop where
  start : ∀ s ∈ p.mentions, s.isStart = true ↔ s.name = bounds.start
  accepting : ∀ s ∈ p.mentions, s.isAccepting = true ↔ s.name = bounds.accept

variable {p : Program} {bounds : Bounds}

/-- A mentioned name accepts exactly when it is the declared one. -/
theorem FlaggedBy.accepts_iff (h : p.FlaggedBy bounds) {name : String}
    (hname : ∃ s ∈ p.mentions, s.name = name) : p.accepts name = true ↔ name = bounds.accept := by
  obtain ⟨s, hs, rfl⟩ := hname
  rw [Program.accepts_iff]
  constructor
  · rintro ⟨t, ht, htname, haccepting⟩
    rw [← htname]
    exact (h.accepting t ht).1 haccepting
  · intro haccept
    exact ⟨s, hs, rfl, (h.accepting s hs).2 haccept⟩

/-- **Without its bounds the program passes as well**, if the rules mention its start state. -/
theorem check_withoutBounds (hcheck : p.check = .ok ()) (hflagged : p.FlaggedBy bounds)
    (hstart : ∃ s ∈ p.mentions, s.name = bounds.start) : p.withoutBounds.check = .ok () := by
  have hmeets := check_eq_ok_iff_meets.1 hcheck
  have hmentions : p.withoutBounds.mentions = p.mentions := rfl
  refine check_eq_ok_iff_meets.2 ?_
  intro r
  cases r with
  | cells => exact hmeets .cells
  | head => exact hmeets .head
  | flags => exact hmeets .flags
  | rules => exact hmeets .rules
  | verdicts | states | symbols =>
      intro bounds' hp'
      exact nomatch hp'
  | start =>
      obtain ⟨s, hs, hname⟩ := hstart
      exact ⟨s, hs, (hflagged.start s hs).2 hname⟩
  | oneStart =>
      intro s hs t ht hs' ht'
      rw [(hflagged.start s hs).1 hs', (hflagged.start t ht).1 ht']

/-- The state that is flagged as the start is the declared one. -/
theorem startState_withoutBounds (hcheck : p.withoutBounds.check = .ok ())
    (hflagged : p.FlaggedBy bounds) : p.withoutBounds.startState = .ok bounds.start := by
  obtain ⟨start, hstart⟩ := exists_startState hcheck
  have hflags : p.withoutBounds.Meets .flags := check_eq_ok_iff_meets.1 hcheck .flags
  obtain ⟨s, hs, rfl, hs'⟩ := exists_flagged_of_startState hflags rfl hstart
  rw [hstart, (hflagged.start s hs).1 hs']

end Program

/-- A program that was described by names is flagged by them. -/
theorem Description.flaggedBy_build (d : Description) (input : String) :
    (d.build input).FlaggedBy d.bounds := by
  have hstate : ∀ s ∈ (d.build input).mentions, s = d.state s.name := by
    intro s hs
    obtain ⟨r, hr, hs⟩ := Program.mem_mentions.1 hs
    obtain ⟨edge, -, rfl⟩ := List.mem_map.1 hr
    rcases hs with rfl | rfl <;> rfl
  constructor
  · intro s hs
    rw [hstate s hs]
    exact decide_eq_true_iff
  · intro s hs
    rw [hstate s hs]
    exact decide_eq_true_iff

namespace Machine

/-! ### The relation that every rule keeps -/

/-- The two machines are in the same state after the same number of rules.  Their heads and tapes
agree, or the bounded one is off its tape and the other tape has at most one blank more. -/
structure Abreast (p : Program) (bounds : Bounds) (m u : Machine) : Prop where
  program_eq : m.program = p
  program_eq' : u.program = p.withoutBounds
  accepting : ∀ name, name ∈ u.accepting ↔ p.accepts name = true
  mentioned : ∃ s ∈ p.mentions, s.name = m.state
  state : u.state = m.state
  steps : u.steps = m.steps
  halt : m.halt = none
  halt' : u.halt = none
  place : u.head = m.head ∧ u.tape = m.tape ∨
    m.symbol? = none ∧ (u.tape = m.tape ∨ u.tape = m.tape.extendRight p.blank)

section Abreast

variable {p : Program} {bounds : Bounds} {m u : Machine}

theorem abreast_initial (hp : p.profile = .bounded bounds) (hflagged : p.FlaggedBy bounds)
    (hmentioned : ∃ s ∈ p.mentions, s.name = bounds.start) (hm : Machine.new p = .ok m) :
    Abreast p bounds m (initial p.withoutBounds bounds.start) := by
  obtain ⟨hcheck, start, hstart, rfl⟩ := new_eq_ok_iff.1 hm
  obtain ⟨-, rfl⟩ := (Program.startState_of_bounded hp).1 hstart
  have hflags := (Program.check_eq_ok_iff.1
    (Program.check_withoutBounds hcheck hflagged hmentioned)).2.2.1
  exact ⟨rfl, rfl, Program.mem_accepting_iff hflags bounds.start, hmentioned, rfl, rfl, rfl, rfl,
    Or.inl ⟨rfl, rfl⟩⟩

theorem Abreast.profile (hp : p.profile = .bounded bounds) (h : Abreast p bounds m u) :
    m.program.profile = .bounded bounds ∧ u.program.profile = .unbounded := by
  rw [h.program_eq, h.program_eq']
  exact ⟨hp, rfl⟩

/-- On its tape the bounded machine reads what the other one reads in the same place. -/
theorem Abreast.on_tape (h : Abreast p bounds m u) {symbol : Char}
    (hsymbol : m.symbol? = some symbol) :
    u.head = m.head ∧ u.tape = m.tape ∧ u.symbol? = some symbol := by
  rcases h.place with ⟨hhead, htape⟩ | ⟨hoff, -⟩
  · refine ⟨hhead, htape, ?_⟩
    rw [symbol?, hhead, htape]
    exact hsymbol
  · exact absurd (hsymbol.symm.trans hoff) (Option.some_ne_none symbol)

/-- The other machine has halted exactly in the state in which the bounded one accepts. -/
theorem Abreast.halted (hflagged : p.FlaggedBy bounds) (h : Abreast p bounds m u)
    (hp : p.profile = .bounded bounds) :
    u.halted = if m.state = bounds.accept then some .accept else none := by
  have haccepts : m.state ∈ u.accepting ↔ m.state = bounds.accept :=
    (h.accepting m.state).trans (hflagged.accepts_iff h.mentioned)
  rw [halted_of_unbounded (h.profile hp).2 h.halt', h.state]
  simp only [haccepts]

theorem Abreast.halted_eq_none (hp : p.profile = .bounded bounds) (hflagged : p.FlaggedBy bounds)
    (h : Abreast p bounds m u) (hnone : m.halted = none) : u.halted = none := by
  rw [h.halted hflagged hp, if_neg]
  intro haccept
  rw [halted_of_bounded (h.profile hp).1 h.halt, if_pos haccept] at hnone
  exact nomatch hnone

theorem Abreast.transition (h : Abreast p bounds m u) (symbol : Char) :
    u.transition symbol = m.transition symbol := by
  have hrules : u.program.rules = m.program.rules := by
    rw [h.program_eq, h.program_eq']
    rfl
  simp only [Machine.transition, hrules, h.state]

/-- Carrying out a rule on both keeps the relation: within the tape nothing is put in order, and at
its ends the bounded machine leaves it. -/
theorem Abreast.apply (hp : p.profile = .bounded bounds) (h : Abreast p bounds m u) {symbol : Char}
    (hsymbol : m.symbol? = some symbol) {r : Rule} (hr : r ∈ p.rules) :
    Abreast p bounds (m.apply r) (u.apply r) := by
  obtain ⟨hprofile, hprofile'⟩ := h.profile hp
  obtain ⟨hhead, htape, hsymbol'⟩ := h.on_tape hsymbol
  obtain ⟨h0, hlt⟩ := head_lt_of_symbol? hsymbol'
  obtain ⟨htape₁, hhead₁⟩ := apply_bounded hprofile r
  have hlength₁ := length_apply_bounded hprofile r
  have hset : u.tape.set u.head.toNat r.write = (m.apply r).tape := by rw [hhead, htape, htape₁]
  have hsteps : (u.apply r).steps = (m.apply r).steps := by
    rw [steps_apply, steps_apply, h.steps]
  have hmentioned : ∃ s ∈ p.mentions, s.name = (m.apply r).state :=
    ⟨r.next, Program.next_mem_mentions hr, rfl⟩
  refine ⟨h.program_eq, h.program_eq', h.accepting, hmentioned, rfl, hsteps, h.halt, h.halt', ?_⟩
  rw [htape] at hlt
  rcases apply_unbounded_cases hprofile' h0 (by rwa [htape]) r with
    ⟨hdir, hend, hhead', htape'⟩ | ⟨hdir, -, hhead', htape'⟩ | ⟨hdir, hzero, -, htape'⟩ |
    ⟨hdir, -, hhead', htape'⟩
  · -- past the right end a blank is appended for the one, and the other is off its tape
    rw [hdir] at hhead₁
    refine Or.inr ⟨symbol?_eq_none_iff.2 (Or.inr ?_), Or.inr ?_⟩
    · rw [hlength₁, hhead₁, ← htape, ← hend, hhead]
      exact Int.le_refl _
    · rw [htape', hset, h.program_eq']
      rfl
  · rw [hdir] at hhead₁
    exact Or.inl ⟨by rw [hhead', hhead₁, hhead]; rfl, by rw [htape', hset]⟩
  · -- against the left end the one stays, and the other is off its tape
    rw [hdir] at hhead₁
    refine Or.inr ⟨symbol?_eq_none_iff.2 (Or.inl ?_), Or.inl (by rw [htape', hset])⟩
    rw [hhead₁, ← hhead, hzero]
    decide
  · rw [hdir] at hhead₁
    exact Or.inl ⟨by rw [hhead', hhead₁, hhead]; rfl, by rw [htape', hset]⟩

/-- **A rule of the bounded machine is a rule of the other one.** -/
theorem Abreast.step (hp : p.profile = .bounded bounds) (hflagged : p.FlaggedBy bounds)
    (h : Abreast p bounds m u) (hgo : m.step.1 = .ok .continue) :
    u.step.1 = .ok .continue ∧ Abreast p bounds m.step.2 u.step.2 := by
  obtain ⟨symbol, rule, haction, hnext⟩ := exists_apply_of_continue hgo
  obtain ⟨hhalted, hsymbol, hrule⟩ := action_eq_apply_iff.1 haction
  have hrule' := (h.transition symbol).trans hrule
  have hmem : rule ∈ p.rules := by
    rw [← h.program_eq]
    exact List.mem_of_find?_eq_some hrule
  rw [step_of_transition (h.halted_eq_none hp hflagged hhalted) (h.on_tape hsymbol).2.2 hrule',
    hnext]
  exact ⟨rfl, h.apply hp hsymbol hmem⟩

/-- **As long as the bounded machine goes on, so does the other one.** -/
theorem Abreast.after (hp : p.profile = .bounded bounds) (hflagged : p.FlaggedBy bounds)
    (h : Abreast p bounds m u) {n : Nat} (hmoves : m.Moves n) :
    u.Moves n ∧ Abreast p bounds (m.after n) (u.after n) := by
  induction n with
  | zero => exact ⟨fun i hi => absurd hi (by omega), h⟩
  | succ n ih =>
      obtain ⟨hmoves', habreast⟩ := ih (hmoves.of_le (by omega))
      obtain ⟨hgo, hnext⟩ := habreast.step hp hflagged (hmoves n (by omega))
      refine ⟨?_, hnext⟩
      intro i hi
      rcases Nat.lt_or_eq_of_le (Nat.le_of_lt_succ hi) with hlt | rfl
      · exact hmoves' i hlt
      · exact hgo

/-! ### The last round -/

/-- A round of the bounded machine that goes on is one of the other machine: the cap is the same,
and so is the count. -/
theorem Abreast.round_running (hp : p.profile = .bounded bounds) (hflagged : p.FlaggedBy bounds)
    (h : Abreast p bounds m u) {m₁ : Machine} (hround : m.round = .running m₁) :
    u.round = .running u.step.2 ∧ Abreast p bounds m₁ u.step.2 := by
  obtain ⟨hnone, hgo, rfl⟩ := continue_of_running hround
  obtain ⟨hgo', hnext⟩ := h.step hp hflagged hgo
  have hcap : u.program.maxSteps = m.program.maxSteps := by
    rw [h.program_eq, h.program_eq']
    rfl
  have hnone' : u.exceeded? = none := by
    rw [exceeded?_congr hcap h.steps (by rw [hgo, hgo']), hnone]
  exact ⟨round_of_continue hnone' hgo', hnext⟩

/-- **Both machines come to the last round of a run of the bounded one.** -/
theorem Abreast.exists_last (hp : p.profile = .bounded bounds) (hflagged : p.FlaggedBy bounds)
    (h : Abreast p bounds m u) {n : Nat} {result : Except Error Outcome} {f : Machine}
    (hrun : m.runFor n = .ended result f) :
    ∃ k m₁ u₁, u.runFor k = .running u₁ ∧ Abreast p bounds m₁ u₁ ∧
      m₁.round = .ended result f := by
  induction n generalizing m u with
  | zero => exact nomatch hrun
  | succ n ih =>
      rw [runFor_succ] at hrun
      cases hround : m.round with
      | ended result₁ f₁ =>
          rw [hround] at hrun
          exact ⟨0, m, u, rfl, h, hround.trans hrun⟩
      | running m₁ =>
          rw [hround] at hrun
          obtain ⟨hround', hnext⟩ := h.round_running hp hflagged hround
          obtain ⟨k, m₂, u₂, hrun', habreast, hlast⟩ := ih hnext hrun
          refine ⟨k + 1, m₂, u₂, ?_, habreast, hlast⟩
          rw [runFor_succ, hround']
          exact hrun'

/-- Where the bounded machine accepts, so does the other one. -/
theorem Abreast.round_accept (hp : p.profile = .bounded bounds) (hflagged : p.FlaggedBy bounds)
    (h : Abreast p bounds m u) {o : Outcome} {f : Machine} (hround : m.round = .ended (.ok o) f)
    (haccept : o.halt = .accept) :
    f = m ∧ o = m.outcome .accept ∧ u.round = .ended (.ok (u.outcome .accept)) u := by
  rcases round_outcome_cases hround with ⟨hhalted, rfl, ho⟩ | ⟨symbol, -, -, -, -, rfl⟩
  · rw [haccept] at hhalted ho
    have hstate : f.state = bounds.accept := by
      rw [halted_of_bounded (h.profile hp).1 h.halt] at hhalted
      split at hhalted
      · assumption
      · split at hhalted <;> exact nomatch hhalted
    have hhalted' : u.halted = some .accept := by rw [h.halted hflagged hp, if_pos hstate]
    exact ⟨rfl, ho, round_of_halted hhalted'⟩
  · exact nomatch haccept

/-- Where the bounded machine is refused a rule, so is the other one, on the same tape. -/
theorem Abreast.round_refuse (hp : p.profile = .bounded bounds) (hflagged : p.FlaggedBy bounds)
    (h : Abreast p bounds m u) {o : Outcome} {f : Machine} (hround : m.round = .ended (.ok o) f)
    (hrefused : f.halt = some .reject) :
    o.steps = u.rejected.steps ∧ f.tape = u.rejected.tape ∧
      u.round = .ended (.ok (u.rejected.outcome .reject)) u.rejected := by
  rcases round_outcome_cases hround with ⟨-, rfl, -⟩ | ⟨symbol, hhalted, hsymbol, hrule, rfl, rfl⟩
  · rw [h.halt] at hrefused
    exact nomatch hrefused
  · obtain ⟨-, htape, hsymbol'⟩ := h.on_tape hsymbol
    have hrule' := (h.transition symbol).trans hrule
    refine ⟨?_, ?_, ?_⟩
    · rw [steps_rejected, h.steps]
      exact steps_rejected m
    · rw [tape_rejected, tape_rejected, htape]
    · exact round_of_no_transition (h.halted_eq_none hp hflagged hhalted) hsymbol' hrule'

end Abreast

/-- **The two policies agree where they overlap.**  Take a program that was described by names, that
passes its check and whose rules mention its start state, and take off its bounds.  A machine is
made for it as well.  As long as the steps of the bounded machine go on and leave its head on the
tape, the two machines go through the same states, tapes, head positions and counts.  If the bounded
run accepts then so does the other, in the same state after as many rules, and its tape has at most
one blank more; if the bounded run rejects for want of a rule then the other rejects after as many
rules and leaves the same tape. -/
theorem policies_agree (d : Description) (input : String) {m : Machine}
    (hm : Machine.new (d.build input) = .ok m)
    (hstart : ∃ s ∈ (d.build input).mentions, s.name = d.start) :
    ∃ u, Machine.new (d.build input).withoutBounds = .ok u ∧
      (∀ n, (∀ i < n, (m.after i).step.1 = .ok .continue ∧
          0 ≤ (m.after (i + 1)).head ∧ (m.after (i + 1)).head < (m.after (i + 1)).tape.length) →
        u.Moves n ∧ (u.after n).state = (m.after n).state ∧ (u.after n).tape = (m.after n).tape ∧
          (u.after n).head = (m.after n).head ∧ (u.after n).steps = (m.after n).steps) ∧
      (∀ o f, m.Ends (.ok o) f → o.halt = .accept →
        ∃ o' f', u.Ends (.ok o') f' ∧ o'.halt = .accept ∧ o'.state = o.state ∧
          o'.steps = o.steps ∧ o'.tape = f'.tape.text ∧
          (f'.tape = f.tape ∨ f'.tape = f.tape.extendRight d.blank)) ∧
      ∀ o f, m.Ends (.ok o) f → f.halt = some .reject →
        ∃ o' f', u.Ends (.ok o') f' ∧ o'.halt = .reject ∧ o'.steps = o.steps ∧
          o'.tape = f'.tape.text ∧ f'.tape = f.tape := by
  have hp : (d.build input).profile = .bounded d.bounds := rfl
  have hflagged := d.flaggedBy_build input
  have hcheck := Program.check_withoutBounds (new_eq_ok_iff.1 hm).1 hflagged hstart
  have hmade : Machine.new (d.build input).withoutBounds =
      .ok (initial (d.build input).withoutBounds d.bounds.start) :=
    new_eq_ok_iff.2 ⟨hcheck, _, Program.startState_withoutBounds hcheck hflagged, rfl⟩
  have habreast := abreast_initial hp hflagged hstart hm
  refine ⟨_, hmade, ?_, ?_, ?_⟩
  · intro n hmoves
    obtain ⟨hmoves', hafter⟩ := habreast.after hp hflagged fun i hi => (hmoves i hi).1
    -- at the start as well as after a step the head is on the tape, where the two agree
    have hon : 0 ≤ (m.after n).head ∧ (m.after n).head < (m.after n).tape.length := by
      cases n with
      | zero => exact head_lt_of_new hm
      | succ n => exact (hmoves n (by omega)).2
    obtain ⟨symbol, hsymbol⟩ := exists_symbol?_of_lt hon.1 hon.2
    obtain ⟨hhead, htape, -⟩ := hafter.on_tape hsymbol
    exact ⟨hmoves', hafter.state, htape, hhead, hafter.steps⟩
  · intro o f hends haccept
    obtain ⟨n, hrun⟩ := hends
    obtain ⟨k, m₁, u₁, hrun', hlast, hround⟩ := habreast.exists_last hp hflagged hrun
    obtain ⟨rfl, rfl, hround'⟩ := hlast.round_accept hp hflagged hround haccept
    refine ⟨_, u₁, ends_of_round hrun' hround', rfl, hlast.state, hlast.steps,
      tape_outcome_of_unbounded (hlast.profile hp).2 .accept, ?_⟩
    rcases hlast.place with ⟨-, htape⟩ | ⟨-, htape⟩
    · exact Or.inl htape
    · exact htape
  · intro o f hends hrefused
    obtain ⟨n, hrun⟩ := hends
    obtain ⟨k, m₁, u₁, hrun', hlast, hround⟩ := habreast.exists_last hp hflagged hrun
    obtain ⟨hsteps, htape, hround'⟩ := hlast.round_refuse hp hflagged hround hrefused
    have hprofile : u₁.rejected.program.profile = .unbounded := by
      rw [program_rejected]
      exact (hlast.profile hp).2
    exact ⟨_, u₁.rejected, ends_of_round hrun' hround', rfl, hsteps.symm,
      tape_outcome_of_unbounded hprofile .reject, htape.symm⟩

end Machine

/-- The program of the catalogue that decides parity, without its input. -/
def Catalogue.parity : Description :=
  ⟨"even-ones", ["even", "odd", "accept", "reject"], ['0', '1'],
    [⟨"even", '0', "even", '0', .right⟩, ⟨"even", '1', "odd", '1', .right⟩,
      ⟨"odd", '0', "odd", '0', .right⟩, ⟨"odd", '1', "even", '1', .right⟩,
      ⟨"even", '_', "accept", '_', .right⟩],
    "even", "accept", "reject", '_', none⟩

namespace Machine

/-- The parity of no ones at all and of a single one.  The first is accepted by a rule that goes off
the right sentinel, so that without bounds the tape ends in a blank more; the second is rejected for
want of a rule, without bounds in the state in which that happens. -/
theorem policies_agree_on_parity :
    (∃ m u f f', Machine.new (Catalogue.parity.build "") = .ok m ∧
      Machine.new (Catalogue.parity.build "").withoutBounds = .ok u ∧
      m.Ends (.ok ⟨.accept, "accept", "", 1⟩) f ∧ f.tape.text = "__" ∧
      u.Ends (.ok ⟨.accept, "accept", "___", 1⟩) f' ∧ f'.tape = f.tape.extendRight '_') ∧
    ∃ m u f f', Machine.new (Catalogue.parity.build "1") = .ok m ∧
      Machine.new (Catalogue.parity.build "1").withoutBounds = .ok u ∧
      m.Ends (.ok ⟨.reject, "reject", "1", 1⟩) f ∧
      u.Ends (.ok ⟨.reject, "odd", "_1_", 1⟩) f' ∧ f'.tape = f.tape := by
  constructor
  · have hmade : Machine.new (Catalogue.parity.build "") =
        .ok (initial (Catalogue.parity.build "") "even") := rfl
    obtain ⟨u, hu, -, haccepts, -⟩ :=
      policies_agree Catalogue.parity "" hmade ⟨Catalogue.parity.state "even", by decide, rfl⟩
    obtain rfl : initial (Catalogue.parity.build "").withoutBounds "even" = u := Except.ok.inj hu
    obtain ⟨o', f', hends', -, -, -, -, htape⟩ := haccepts _ _ ⟨2, rfl⟩ rfl
    have hran : (initial (Catalogue.parity.build "").withoutBounds "even").Ends
        (.ok ⟨.accept, "accept", "___", 1⟩) _ := ⟨2, rfl⟩
    obtain ⟨ho, rfl⟩ := Ends.unique hends' hran
    rw [ho] at hends'
    exact ⟨_, _, _, _, hmade, hu, ⟨2, rfl⟩, rfl, hends', htape.resolve_left (by decide)⟩
  · have hmade : Machine.new (Catalogue.parity.build "1") =
        .ok (initial (Catalogue.parity.build "1") "even") := rfl
    obtain ⟨u, hu, -, -, hrejects⟩ :=
      policies_agree Catalogue.parity "1" hmade ⟨Catalogue.parity.state "even", by decide, rfl⟩
    obtain rfl : initial (Catalogue.parity.build "1").withoutBounds "even" = u := Except.ok.inj hu
    obtain ⟨o', f', hends', -, -, -, htape⟩ := hrejects _ _ ⟨2, rfl⟩ rfl
    have hran : (initial (Catalogue.parity.build "1").withoutBounds "even").Ends
        (.ok ⟨.reject, "odd", "_1_", 1⟩) _ := ⟨2, rfl⟩
    obtain ⟨ho, rfl⟩ := Ends.unique hends' hran
    rw [ho] at hends'
    exact ⟨_, _, _, _, hmade, hu, ⟨2, rfl⟩, hends', htape⟩

end Machine

end TapeMachine
