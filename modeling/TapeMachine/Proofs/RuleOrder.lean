/-
**The rule table is a set.**

A machine takes the first rule that applies, the states of a program are listed as they are
mentioned first, and each check goes through the rules in their order.  None of this can be seen
from outside: a program may have its rules in another order and, if it is bounded, its declarations
in another order and more than once each (`Program.Rearranges`), and the two programs pass alike and
their machines give the same sessions.

For the check this is so because every requirement is about which mentions, rules and declarations
there are, so that the two programs meet the same requirements (`Program.Rearranges.meets_iff`),
though they may name the offenders in another order.  For the machines it rests on what the check
has found out.  Since no state and symbol have two rules, the first rule that applies is the only
one (`Machine.transition_eq_some_iff`); since the mentions of a name agree, it does not matter which
of them is kept, and the same name starts and the same names accept.

Main definitions:

* `TapeMachine.Bounds.Rearranges`, `TapeMachine.Profile.Rearranges`,
  `TapeMachine.Program.Rearranges` — the same declarations and rules in another order;
* `TapeMachine.Machine.Rearranged` — the relation between the two machines.

Main results:

* `TapeMachine.Program.Rearranges.meets_iff` — the two programs meet the same requirements;
* `TapeMachine.Machine.transition_eq_some_iff` — the rule that is applied is the only one;
* `TapeMachine.Machine.bisimulation_rearranged` — the two machines cannot be told apart;
* `TapeMachine.Machine.rearranged_sessions` — **the order of the rules cannot be seen**.
-/

import Mathlib.Data.List.Pairwise
import TapeMachine.Catalogue
import TapeMachine.Proofs.Requirements
import TapeMachine.Proofs.Session

set_option relaxedAutoImplicit false
set_option autoImplicit false

namespace TapeMachine

/-! ### Rearranged programs -/

/-- The same names and symbols are declared, in whatever order and however often. -/
structure Bounds.Rearranges (bounds bounds' : Bounds) : Prop where
  states : ∀ name, name ∈ bounds'.states ↔ name ∈ bounds.states
  alphabet : ∀ c, c ∈ bounds'.alphabet ↔ c ∈ bounds.alphabet
  start : bounds'.start = bounds.start
  accept : bounds'.accept = bounds.accept
  reject : bounds'.reject = bounds.reject

/-- The policies are the same, up to the order of declarations. -/
inductive Profile.Rearranges : Profile → Profile → Prop
  | unbounded : Rearranges .unbounded .unbounded
  | bounded {bounds bounds' : Bounds} :
      bounds.Rearranges bounds' → Rearranges (.bounded bounds) (.bounded bounds')

/-- The programs are the same, up to the order of rules and declarations. -/
structure Program.Rearranges (p p' : Program) : Prop where
  name : p'.name = p.name
  profile : p.profile.Rearranges p'.profile
  rules : p'.rules.Perm p.rules
  tape : p'.tape = p.tape
  head : p'.head = p.head
  blank : p'.blank = p.blank
  maxSteps : p'.maxSteps = p.maxSteps

theorem Bounds.Rearranges.symm {bounds bounds' : Bounds} (h : bounds.Rearranges bounds') :
    bounds'.Rearranges bounds :=
  ⟨fun name => (h.states name).symm, fun c => (h.alphabet c).symm, h.start.symm, h.accept.symm,
    h.reject.symm⟩

namespace Profile.Rearranges

variable {profile profile' : Profile}

theorem symm (h : profile.Rearranges profile') : profile'.Rearranges profile := by
  cases h with
  | unbounded => exact .unbounded
  | bounded hbounds => exact .bounded hbounds.symm

theorem eq_unbounded (h : profile.Rearranges profile') (hprofile' : profile' = .unbounded) :
    profile = .unbounded := by
  cases h with
  | unbounded => rfl
  | bounded hbounds => exact nomatch hprofile'

/-- What the other policy declares is declared here as well. -/
theorem exists_bounded (h : profile.Rearranges profile') {bounds' : Bounds}
    (hprofile' : profile' = .bounded bounds') :
    ∃ bounds, profile = .bounded bounds ∧ bounds.Rearranges bounds' := by
  cases h with
  | unbounded => exact nomatch hprofile'
  | bounded hbounds =>
      obtain rfl := Profile.bounded.inj hprofile'
      exact ⟨_, rfl, hbounds⟩

theorem settle (h : profile.Rearranges profile') : profile'.settle = profile.settle := by
  cases h with
  | unbounded => rfl
  | bounded hbounds => rfl

theorem content (h : profile.Rearranges profile') : profile'.content = profile.content := by
  cases h with
  | unbounded => rfl
  | bounded hbounds => rfl

end Profile.Rearranges

/-- That two rules are not for the same state and symbol does not depend on their order. -/
theorem Rule.differ_symm {r s : Rule} (h : ¬ (s.current.name = r.current.name ∧ s.read = r.read)) :
    ¬ (r.current.name = s.current.name ∧ r.read = s.read) := by
  rintro ⟨hname, hread⟩
  exact h ⟨hname.symm, hread.symm⟩

namespace Program

variable {p p' : Program}

theorem Rearranges.symm (h : p.Rearranges p') : p'.Rearranges p :=
  ⟨h.name.symm, h.profile.symm, h.rules.symm, h.tape.symm, h.head.symm, h.blank.symm,
    h.maxSteps.symm⟩

theorem Rearranges.mem_rules (h : p.Rearranges p') {r : Rule} : r ∈ p'.rules ↔ r ∈ p.rules :=
  h.rules.mem_iff

theorem Rearranges.mem_mentions (h : p.Rearranges p') {s : State} :
    s ∈ p'.mentions ↔ s ∈ p.mentions :=
  (h.rules.flatMap_right Rule.states).mem_iff

/-! ### The same requirements are met -/

/-- Every requirement is about which mentions, rules and declarations there are. -/
theorem Meets.rearrange (h : p.Rearranges p') {r : Requirement} (hmeets : p.Meets r) :
    p'.Meets r := by
  cases r with
  | cells =>
      have hcells : p.tape.symbols ≠ [] := hmeets
      rw [← h.tape] at hcells
      exact hcells
  | head =>
      have hhead : p.head < p.tape.length := hmeets
      rw [← h.head, ← h.tape] at hhead
      exact hhead
  | flags =>
      intro s hs t ht
      exact hmeets s (h.mem_mentions.1 hs) t (h.mem_mentions.1 ht)
  | rules =>
      -- that two rules differ in state or symbol does not depend on which comes first
      exact (h.rules.pairwise_iff Rule.differ_symm).2 hmeets
  | verdicts =>
      intro bounds' hp'
      obtain ⟨bounds, hp, hbounds⟩ := h.profile.exists_bounded hp'
      rw [hbounds.accept, hbounds.reject]
      exact hmeets bounds hp
  | states =>
      intro bounds' hp'
      obtain ⟨bounds, hp, hbounds⟩ := h.profile.exists_bounded hp'
      obtain ⟨hmentions, haccept, hreject⟩ := hmeets bounds hp
      rw [hbounds.accept, hbounds.reject, hbounds.states, hbounds.states]
      refine ⟨?_, haccept, hreject⟩
      intro s hs
      exact (hbounds.states s.name).2 (hmentions s (h.mem_mentions.1 hs))
  | symbols =>
      intro bounds' hp' c hc
      obtain ⟨bounds, hp, hbounds⟩ := h.profile.exists_bounded hp'
      have hsymbols := (h.rules.flatMap_right Rule.symbols).mem_iff (a := c)
      rw [h.tape, List.mem_append, hsymbols, ← List.mem_append] at hc
      rw [hbounds.alphabet, h.blank]
      exact hmeets bounds hp c hc
  | start =>
      cases hp' : p'.profile with
      | unbounded =>
          have hp := h.profile.eq_unbounded hp'
          simp only [Meets, hp] at hmeets
          simp only [Meets, hp']
          obtain ⟨s, hs, hstart⟩ := hmeets
          exact ⟨s, h.mem_mentions.2 hs, hstart⟩
      | bounded bounds' =>
          obtain ⟨bounds, hp, hbounds⟩ := h.profile.exists_bounded hp'
          simp only [Meets, hp] at hmeets
          simp only [Meets, hp']
          rw [hbounds.start]
          exact (hbounds.states bounds.start).2 hmeets
  | oneStart =>
      cases hp' : p'.profile with
      | unbounded =>
          have hp := h.profile.eq_unbounded hp'
          simp only [Meets, hp] at hmeets
          simp only [Meets, hp']
          intro s hs t ht
          exact hmeets s (h.mem_mentions.1 hs) t (h.mem_mentions.1 ht)
      | bounded bounds' =>
          obtain ⟨bounds, hp, hbounds⟩ := h.profile.exists_bounded hp'
          simp only [Meets, hp] at hmeets
          simp only [Meets, hp']
          intro s hs hstart
          rw [hbounds.start]
          exact hmeets s (h.mem_mentions.1 hs) hstart

/-- **The two programs meet the same requirements.** -/
theorem Rearranges.meets_iff (h : p.Rearranges p') (r : Requirement) :
    p'.Meets r ↔ p.Meets r :=
  ⟨fun hmeets => hmeets.rearrange h.symm, fun hmeets => hmeets.rearrange h⟩

/-- The same name starts, and the same names accept. -/
theorem Rearranges.accepts_iff (h : p.Rearranges p') {name : String} :
    p'.accepts name = true ↔ p.accepts name = true := by
  simp only [Program.accepts_iff, h.mem_mentions]

/-- Both start in the same state: where flags decide, one name is flagged, and the rules of both
mention it. -/
theorem Rearranges.startState (h : p.Rearranges p') (hcheck : p.check = .ok ())
    {start : String} (hstart : p.startState = .ok start) : p'.startState = .ok start := by
  have hmeets := check_eq_ok_iff_meets.1 hcheck
  have hmeets' : ∀ r, p'.Meets r := fun r => (h.meets_iff r).2 (hmeets r)
  cases hp' : p'.profile with
  | unbounded =>
      have hp := h.profile.eq_unbounded hp'
      obtain ⟨start', hstart'⟩ := exists_startState (check_eq_ok_iff_meets.2 hmeets')
      obtain ⟨s, hs, rfl, hflag⟩ := exists_flagged_of_startState (hmeets .flags) hp hstart
      obtain ⟨t, ht, rfl, hflag'⟩ := exists_flagged_of_startState (hmeets' .flags) hp' hstart'
      have hone := hmeets .oneStart
      simp only [Meets, hp] at hone
      rw [hstart', hone s hs t (h.mem_mentions.1 ht) hflag hflag']
  | bounded bounds' =>
      obtain ⟨bounds, hp, hbounds⟩ := h.profile.exists_bounded hp'
      obtain ⟨hdeclared, rfl⟩ := (startState_of_bounded hp).1 hstart
      refine (startState_of_bounded hp').2 ⟨?_, hbounds.start⟩
      rw [hbounds.start]
      exact (hbounds.states bounds.start).2 hdeclared

/-! ### The rule that is applied -/

/-- No two rules are for the same state and symbol. -/
theorem eq_of_appliesTo (hrules : p.Meets .rules) {r s : Rule} (hr : r ∈ p.rules)
    (hs : s ∈ p.rules) {name : String} {symbol : Char} (happlies : r.appliesTo name symbol = true)
    (happlies' : s.appliesTo name symbol = true) : r = s := by
  obtain ⟨hname, hread⟩ := Rule.appliesTo_iff.1 happlies
  obtain ⟨hname', hread'⟩ := Rule.appliesTo_iff.1 happlies'
  refine Classical.byContradiction ?_
  intro hne
  have hsymm : Std.Symm fun r s : Rule =>
      ¬ (s.current.name = r.current.name ∧ s.read = r.read) := ⟨fun _ _ => Rule.differ_symm⟩
  have hdiffer := List.Pairwise.forall hrules hr hs hne
  exact hdiffer ⟨hname'.trans hname.symm, hread'.trans hread.symm⟩

end Program

namespace Machine

variable {p p' : Program} {m m' : Machine}

/-- **The rule that is applied is the only one that applies.** -/
theorem transition_eq_some_iff (hrules : m.program.Meets .rules) {symbol : Char} {r : Rule} :
    m.transition symbol = some r ↔
      r ∈ m.program.rules ∧ r.appliesTo m.state symbol = true := by
  have hfound : ∀ {s : Rule}, m.transition symbol = some s →
      s ∈ m.program.rules ∧ s.appliesTo m.state symbol = true := by
    intro s h
    rw [transition] at h
    have happlies := List.find?_some h
    exact ⟨List.mem_of_find?_eq_some h, happlies⟩
  constructor
  · exact hfound
  · rintro ⟨hmem, happlies⟩
    cases hfind : m.transition symbol with
    | none => exact absurd happlies (List.find?_eq_none.1 hfind r hmem)
    | some s =>
        obtain ⟨hmem', happlies'⟩ := hfound hfind
        rw [Program.eq_of_appliesTo hrules hmem' hmem happlies' happlies]

/-! ### The relation between the machines -/

/-- The machines differ in their programs only, which are the same up to the order of rules and
declarations, and in the order in which they list the names that accept. -/
structure Rearranged (p p' : Program) (m m' : Machine) : Prop where
  program_eq : m.program = p
  program_eq' : m'.program = p'
  start : m'.start = m.start
  accepting : ∀ name, name ∈ m'.accepting ↔ name ∈ m.accepting
  state : m'.state = m.state
  tape : m'.tape = m.tape
  head : m'.head = m.head
  steps : m'.steps = m.steps
  halt : m'.halt = m.halt

theorem rearranged_initial (h : p.Rearranges p') (hcheck : p.check = .ok ()) (start : String) :
    Rearranged p p' (initial p start) (initial p' start) := by
  have hcheck' : p'.check = .ok () := (Program.check_congr h.meets_iff).1.1 hcheck
  have hflags := (Program.check_eq_ok_iff.1 hcheck).2.2.1
  have hflags' := (Program.check_eq_ok_iff.1 hcheck').2.2.1
  have haccepting : ∀ name, name ∈ (initial p' start).accepting ↔
      name ∈ (initial p start).accepting := by
    intro name
    rw [Program.mem_accepting_iff hflags, Program.mem_accepting_iff hflags', h.accepts_iff]
  have hhead : (initial p' start).head = (initial p start).head := congrArg Nat.cast h.head
  exact ⟨rfl, rfl, rfl, haccepting, rfl, h.tape, hhead, rfl, rfl⟩

namespace Rearranged

theorem profile (h : p.Rearranges p') (hm : Rearranged p p' m m') :
    m.program.profile.Rearranges m'.program.profile := by
  rw [hm.program_eq, hm.program_eq']
  exact h.profile

theorem halted (h : p.Rearranges p') (hm : Rearranged p p' m m') : m'.halted = m.halted := by
  cases hhalt : m.halt with
  | some verdict => rw [halted_of_halt hhalt, halted_of_halt (hm.halt.trans hhalt)]
  | none =>
      have hhalt' := hm.halt.trans hhalt
      cases hp' : m'.program.profile with
      | unbounded =>
          have hp := (hm.profile h).eq_unbounded hp'
          rw [halted_of_unbounded hp hhalt, halted_of_unbounded hp' hhalt', hm.state]
          simp only [hm.accepting]
      | bounded bounds' =>
          obtain ⟨bounds, hp, hbounds⟩ := (hm.profile h).exists_bounded hp'
          rw [halted_of_bounded hp hhalt, halted_of_bounded hp' hhalt', hm.state, hbounds.accept,
            hbounds.reject]

theorem view (h : p.Rearranges p') (hm : Rearranged p p' m m') : m'.view = m.view := by
  rw [Machine.view, Machine.view, hm.state, hm.tape, hm.head, hm.steps, hm.halted h]

/-- The rule for a symbol is found wherever it stands in the table. -/
theorem transition (h : p.Rearranges p') (hrules : p.Meets .rules) (hm : Rearranged p p' m m')
    (symbol : Char) : m'.transition symbol = m.transition symbol := by
  have hrules' := (h.meets_iff .rules).2 hrules
  rw [← hm.program_eq] at hrules
  rw [← hm.program_eq'] at hrules'
  refine Option.ext ?_
  intro r
  rw [transition_eq_some_iff hrules, transition_eq_some_iff hrules', hm.program_eq, hm.program_eq',
    hm.state, h.mem_rules]

theorem action (h : p.Rearranges p') (hrules : p.Meets .rules) (hm : Rearranged p p' m m') :
    m'.action = m.action := by
  have hsymbol : m'.symbol? = m.symbol? := by rw [symbol?, symbol?, hm.tape, hm.head]
  simp only [Machine.action, hm.halted h, hsymbol, hm.transition h hrules]

theorem apply (h : p.Rearranges p') (hm : Rearranged p p' m m') (r : Rule) :
    Rearranged p p' (m.apply r) (m'.apply r) := by
  have hblank : m'.program.blank = m.program.blank := by
    rw [hm.program_eq, hm.program_eq', h.blank]
  have hsettle := (hm.profile h).settle
  have hsteps : (m'.apply r).steps = (m.apply r).steps := by
    rw [steps_apply, steps_apply, hm.steps]
  refine ⟨hm.program_eq, hm.program_eq', hm.start, hm.accepting, rfl, ?_, ?_, hsteps, hm.halt⟩
  · simp only [Machine.apply, moved, hsettle, hblank, hm.tape, hm.head]
  · simp only [Machine.apply, moved, hsettle, hblank, hm.tape, hm.head]

theorem rejected (h : p.Rearranges p') (hm : Rearranged p p' m m') :
    Rearranged p p' m.rejected m'.rejected := by
  have hstate : m'.rejected.state = m.rejected.state := by
    cases hp' : m'.program.profile with
    | unbounded =>
        have hp := (hm.profile h).eq_unbounded hp'
        rw [state_rejected_of_unbounded hp, state_rejected_of_unbounded hp', hm.state]
    | bounded bounds' =>
        obtain ⟨bounds, hp, hbounds⟩ := (hm.profile h).exists_bounded hp'
        rw [state_rejected_of_bounded hp, state_rejected_of_bounded hp', hbounds.reject]
  -- nothing else changes but that both remember the same verdict
  refine ⟨?_, ?_, ?_, ?_, hstate, ?_, ?_, ?_, ?_⟩
  · rw [program_rejected, hm.program_eq]
  · rw [program_rejected, hm.program_eq']
  · rw [start_rejected, start_rejected, hm.start]
  · intro name
    rw [accepting_rejected, accepting_rejected, hm.accepting]
  · rw [tape_rejected, tape_rejected, hm.tape]
  · rw [head_rejected, head_rejected, hm.head]
  · rw [steps_rejected, steps_rejected, hm.steps]
  · rw [halt_rejected, halt_rejected]

theorem reset (h : p.Rearranges p') (hm : Rearranged p p' m m') :
    Rearranged p p' m.reset m'.reset := by
  have htape : m'.program.tape = m.program.tape := by rw [hm.program_eq, hm.program_eq', h.tape]
  have hhead : m'.program.head = m.program.head := by rw [hm.program_eq, hm.program_eq', h.head]
  exact ⟨hm.program_eq, hm.program_eq', hm.start, hm.accepting, hm.start, htape,
    congrArg Nat.cast hhead, rfl, rfl⟩

end Rearranged

/-- **The two machines cannot be told apart.** -/
theorem bisimulation_rearranged (h : p.Rearranges p') (hrules : p.Meets .rules) :
    Bisimulation (Rearranged p p') where
  view hm := hm.view h
  content hm := by
    rw [tapeContent, tapeContent, (hm.profile h).content, hm.tape]
  cap hm := by
    rw [hm.program_eq, hm.program_eq', h.maxSteps]
  action hm := hm.action h hrules
  apply hm _ := hm.apply h _
  rejected hm _ := hm.rejected h
  reset hm := hm.reset h

/-- **The order of the rules cannot be seen**, nor that of the declarations and how often they are
made.  Of two programs that differ in nothing else both pass the check, or both fail it with errors
of one kind; and the machines of two that pass look the same, and give the same answers and look the
same after each of them whatever they are told. -/
theorem rearranged_sessions (h : p.Rearranges p') :
    (p.check = .ok () ↔ p'.check = .ok ()) ∧
      (∀ e e', p.check = .error e → p'.check = .error e' → e.kind = e'.kind) ∧
      ∀ m, Machine.new p = .ok m → ∃ m', Machine.new p' = .ok m' ∧ m'.view = m.view ∧
        ∀ ops log, (∃ f, m.Performs ops log f) ↔ ∃ f', m'.Performs ops log f' := by
  obtain ⟨hpass, hkind⟩ := Program.check_congr h.meets_iff
  refine ⟨hpass, hkind, ?_⟩
  intro m hm
  obtain ⟨hcheck, start, hstart, rfl⟩ := new_eq_ok_iff.1 hm
  have hcheck' := hpass.1 hcheck
  have hrules := Program.check_eq_ok_iff_meets.1 hcheck .rules
  have hrules' := Program.check_eq_ok_iff_meets.1 hcheck' .rules
  have hinitial := rearranged_initial h hcheck start
  have hinitial' := rearranged_initial h.symm hcheck' start
  refine ⟨initial p' start, new_eq_ok_iff.2 ⟨hcheck', start, h.startState hcheck hstart, rfl⟩,
    hinitial.view h, ?_⟩
  intro ops log
  constructor
  · rintro ⟨f, hsession⟩
    obtain ⟨f', hsession', -⟩ := (bisimulation_rearranged h hrules).performs hinitial hsession
    exact ⟨f', hsession'⟩
  · rintro ⟨f', hsession'⟩
    obtain ⟨f, hsession, -⟩ :=
      (bisimulation_rearranged h.symm hrules').performs hinitial' hsession'
    exact ⟨f, hsession⟩

end Machine

/-- The program of the catalogue that decides the parity of two ones, with its rules from the last
to the first and with declarations that are repeated. -/
def Catalogue.evenOnesReversed : Program :=
  { evenOnes.withInput "11" with
    rules := (evenOnes.withInput "11").rules.reverse
    profile := .bounded ⟨["odd", "reject", "even", "accept", "odd"], ['1', '0', '1'], "even",
      "accept", "reject"⟩ }

namespace Machine

/-- A step and a run from there come to the same with the rules from the last to the first. -/
theorem rearranged_sessions_reversed :
    ∃ m m', Machine.new (Catalogue.evenOnes.withInput "11") = .ok m ∧
      Machine.new Catalogue.evenOnesReversed = .ok m' ∧
      (∃ f, m.Performs [.step, .run]
        [(.stepped (.ok .continue), ⟨"odd", ⟨['_', '1', '1', '_']⟩, 2, 1, none⟩),
          (.ran (.ok ⟨.accept, "accept", "11", 3⟩),
            ⟨"accept", ⟨['_', '1', '1', '_']⟩, 4, 3, some .accept⟩)] f) ∧
      ∃ f', m'.Performs [.step, .run]
        [(.stepped (.ok .continue), ⟨"odd", ⟨['_', '1', '1', '_']⟩, 2, 1, none⟩),
          (.ran (.ok ⟨.accept, "accept", "11", 3⟩),
            ⟨"accept", ⟨['_', '1', '1', '_']⟩, 4, 3, some .accept⟩)] f' := by
  have hbounds : Bounds.Rearranges
      ⟨["even", "odd", "accept", "reject"], ['0', '1'], "even", "accept", "reject"⟩
      ⟨["odd", "reject", "even", "accept", "odd"], ['1', '0', '1'], "even", "accept", "reject"⟩ := by
    refine ⟨?_, ?_, rfl, rfl, rfl⟩
    · intro name
      simp only [List.mem_cons, List.not_mem_nil, or_false]
      grind
    · intro c
      simp only [List.mem_cons, List.not_mem_nil, or_false]
      grind
  have hrearranges :
      (Catalogue.evenOnes.withInput "11").Rearranges Catalogue.evenOnesReversed :=
    ⟨rfl, .bounded hbounds, List.reverse_perm _, rfl, rfl, rfl, rfl⟩
  have hmade : Machine.new (Catalogue.evenOnes.withInput "11") =
      .ok (initial (Catalogue.evenOnes.withInput "11") "even") := rfl
  obtain ⟨-, -, hsame⟩ := rearranged_sessions hrearranges
  obtain ⟨m', hmade', -, hsessions⟩ := hsame _ hmade
  have hsession : (initial (Catalogue.evenOnes.withInput "11") "even").Performs [.step, .run] _ _ :=
    .cons .step (.cons (.run (n := 3) rfl) .nil)
  exact ⟨_, m', hmade, hmade', ⟨_, hsession⟩, (hsessions _ _).1 ⟨_, hsession⟩⟩

/-- The kind of an error is all that can be said: the offenders are named in the order of the
rules. -/
example :
    (Program.unbounded [⟨State.start "a", '0', State.start "b", '0', .right⟩,
        ⟨State.start "b", '0', State.start "a", '0', .right⟩] (Tape.ofString "0") 0).check =
      .error (.multipleStartStates ["a", "b"]) ∧
    (Program.unbounded [⟨State.start "b", '0', State.start "a", '0', .right⟩,
        ⟨State.start "a", '0', State.start "b", '0', .right⟩] (Tape.ofString "0") 0).check =
      .error (.multipleStartStates ["b", "a"]) :=
  ⟨rfl, rfl⟩

end Machine

end TapeMachine
