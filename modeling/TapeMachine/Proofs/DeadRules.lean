/-
**Rules that are never used.**

A machine goes from state to state along the rules, so it is never in a state that no chain of rules
leads to from where it starts; but for one exception, since a bounded machine that is refused a rule
goes to the rejecting state, and that one may well be unreachable.  It has halted then, and goes no
further.  So the rules that leave an unreachable state are dead: they are never used, and a program
may do without them (`Program.withoutDeadRules`).

The program that is left has to be checked anew, with the start state, the accepting names and all
requirements found out from fewer rules.  Fewer rules never violate a requirement but one, that there
is a state to start in (`Program.Meets.of_sublist`): where flags decide, the start may have been
mentioned by dead rules only.  It is not if some rule leaves it, and then every state that can be
reached is mentioned by the rules that are left, with the flags that it had.

Main definitions:

* `TapeMachine.Program.withoutDeadRules` — the program without its dead rules;
* `TapeMachine.Machine.withoutDeadRules` — a machine at work on it instead;
* `TapeMachine.Machine.Follows` — the invariant: a machine that was not refused a rule has followed
  the rules.

Main results:

* `TapeMachine.Program.leads_withoutDeadRules_iff` — the dead rules lead nowhere;
* `TapeMachine.Program.check_withoutDeadRules` — the program passes without them;
* `TapeMachine.Machine.Reaches.follows` — a machine follows the rules wherever it gets to;
* `TapeMachine.Machine.dead_rules_unseen` — **that the dead rules are gone cannot be seen**.
-/

import TapeMachine.Description
import TapeMachine.Proofs.Flags
import TapeMachine.Proofs.Requirements
import TapeMachine.Proofs.Session

set_option relaxedAutoImplicit false
set_option autoImplicit false

namespace TapeMachine

namespace Program

variable {p : Program} {start : String}

/-! ### Fewer rules -/

/-- A program with fewer rules mentions fewer states. -/
theorem mem_mentions_of_sublist {rules : List Rule} (hsub : rules.Sublist p.rules) {s : State}
    (h : s ∈ ({ p with rules := rules } : Program).mentions) : s ∈ p.mentions := by
  obtain ⟨r, hr, hs⟩ := mem_mentions.1 h
  exact mem_mentions.2 ⟨r, hsub.subset hr, hs⟩

/-- **Fewer rules meet every requirement but that there is a state to start in.** -/
theorem Meets.of_sublist {rules : List Rule} (hsub : rules.Sublist p.rules) {r : Requirement}
    (hr : r ≠ .start) (h : p.Meets r) : ({ p with rules := rules } : Program).Meets r := by
  have hmentions : ∀ s ∈ ({ p with rules := rules } : Program).mentions, s ∈ p.mentions :=
    fun _ hs => mem_mentions_of_sublist hsub hs
  cases r with
  | start => exact absurd rfl hr
  | cells | verdicts | head => exact h
  | flags =>
      intro s hs t ht
      exact h s (hmentions s hs) t (hmentions t ht)
  | oneStart =>
      cases hp : p.profile with
      | unbounded =>
          simp only [Meets, hp] at h ⊢
          intro s hs t ht
          exact h s (hmentions s hs) t (hmentions t ht)
      | bounded bounds =>
          simp only [Meets, hp] at h ⊢
          intro s hs
          exact h s (hmentions s hs)
  | rules => exact List.Pairwise.sublist hsub h
  | states =>
      intro bounds hp
      obtain ⟨hdeclared, hverdicts⟩ := h bounds hp
      exact ⟨fun s hs => hdeclared s (hmentions s hs), hverdicts⟩
  | symbols =>
      intro bounds hp c hc
      refine h bounds hp c ?_
      rcases List.mem_append.1 hc with hc | hc
      · exact List.mem_append_left _ hc
      · obtain ⟨r, hr, hc⟩ := List.mem_flatMap.1 hc
        exact List.mem_append_right _ (List.mem_flatMap.2 ⟨r, hsub.subset hr, hc⟩)

/-! ### The program without its dead rules -/

/-- The program without the rules that leave an unreachable state. -/
def withoutDeadRules (p : Program) : Program :=
  { p with rules := p.rules.filter fun r => decide (r.current.name ∉ p.unreachableNames) }

theorem sublist_rules_withoutDeadRules (p : Program) :
    p.withoutDeadRules.rules.Sublist p.rules :=
  List.filter_sublist

theorem mem_mentions_of_withoutDeadRules {s : State} (h : s ∈ p.withoutDeadRules.mentions) :
    s ∈ p.mentions :=
  mem_mentions_of_sublist p.sublist_rules_withoutDeadRules h

/-- The rules that are left are those that leave a state that can be reached. -/
theorem mem_rules_withoutDeadRules (hstart : p.startState = .ok start) {r : Rule} :
    r ∈ p.withoutDeadRules.rules ↔ r ∈ p.rules ∧ Leads p.rules start r.current.name := by
  simp only [withoutDeadRules, List.mem_filter, decide_eq_true_eq,
    mem_unreachableNames_iff hstart, not_and, Classical.not_not]
  refine and_congr_right ?_
  intro hr
  have hmentioned : ∃ s ∈ p.mentions, s.name = r.current.name :=
    ⟨r.current, mem_mentions.2 ⟨r, hr, Or.inl rfl⟩, rfl⟩
  exact ⟨fun h => h hmentioned, fun h _ => h⟩

/-- A name on a chain of rules that are left is on a chain of rules. -/
theorem Leads.of_subset {rules rules' : List Rule} (hsub : ∀ r ∈ rules', r ∈ rules)
    {a b : String} (h : Leads rules' a b) : Leads rules a b := by
  induction h with
  | refl => exact .refl
  | tail _ hr ih => exact ih.tail (hsub _ hr)

/-- **The dead rules lead nowhere.** -/
theorem leads_withoutDeadRules_iff (hstart : p.startState = .ok start) {name : String} :
    Leads p.withoutDeadRules.rules start name ↔ Leads p.rules start name := by
  constructor
  · intro h
    exact h.of_subset fun r hr => ((mem_rules_withoutDeadRules hstart).1 hr).1
  · intro h
    induction h with
    | refl => exact .refl
    | tail hleads hr ih => exact ih.tail ((mem_rules_withoutDeadRules hstart).2 ⟨hr, hleads⟩)

/-- The rules that are left mention no state but those that can be reached. -/
theorem leads_of_mem_mentions_withoutDeadRules (hstart : p.startState = .ok start) {s : State}
    (h : s ∈ p.withoutDeadRules.mentions) : Leads p.rules start s.name := by
  obtain ⟨r, hr, hs⟩ := mem_mentions.1 h
  obtain ⟨hmem, hleads⟩ := (mem_rules_withoutDeadRules hstart).1 hr
  rcases hs with rfl | rfl
  · exact hleads
  · exact hleads.tail hmem

/-- Where some rule leaves the start, the rules that are left mention every state that can be
reached. -/
theorem exists_mention_of_leads (hstart : p.startState = .ok start)
    (hleaves : ∃ r ∈ p.rules, r.current.name = start) {name : String}
    (h : Leads p.rules start name) : ∃ s ∈ p.withoutDeadRules.mentions, s.name = name := by
  cases h with
  | refl =>
      obtain ⟨r, hr, rfl⟩ := hleaves
      have hkept := (mem_rules_withoutDeadRules hstart).2 ⟨hr, .refl⟩
      exact ⟨r.current, mem_mentions.2 ⟨r, hkept, Or.inl rfl⟩, rfl⟩
  | @tail r hleads hr =>
      have hkept := (mem_rules_withoutDeadRules hstart).2 ⟨hr, hleads⟩
      exact ⟨r.next, mem_mentions.2 ⟨r, hkept, Or.inr rfl⟩, rfl⟩

/-! ### Its check -/

/-- Where flags decide where to start, some rule leaves the start. -/
def StartsWithRule (p : Program) : Prop :=
  p.profile = .unbounded → ∃ r ∈ p.rules, p.startState = .ok r.current.name

section Checked

variable (hmeets : ∀ r, p.Meets r) (hleaves : p.StartsWithRule)

include hmeets hleaves

/-- The rule that leaves the start is left, and carries the flag. -/
theorem meets_start_withoutDeadRules : p.withoutDeadRules.Meets .start := by
  cases hp : p.profile with
  | unbounded =>
      have hp' : p.withoutDeadRules.profile = .unbounded := hp
      obtain ⟨r, hr, hstart⟩ := hleaves hp
      obtain ⟨s, hs, hname, hflag⟩ := exists_flagged_of_startState (hmeets .flags) hp hstart
      have hcurrent : r.current ∈ p.mentions := mem_mentions.2 ⟨r, hr, Or.inl rfl⟩
      have hkept := (mem_rules_withoutDeadRules hstart).2 ⟨hr, .refl⟩
      have hsame : r.current.flags = s.flags := hmeets .flags s hs r.current hcurrent hname.symm
      simp only [Meets, hp']
      exact ⟨r.current, mem_mentions.2 ⟨r, hkept, Or.inl rfl⟩,
        (congrArg Prod.fst hsame).trans hflag⟩
  | bounded bounds =>
      have hp' : p.withoutDeadRules.profile = .bounded bounds := hp
      have hdeclared := hmeets .start
      simp only [Meets, hp] at hdeclared
      simp only [Meets, hp']
      exact hdeclared

/-- **A program that passes its check passes it without its dead rules.** -/
theorem check_withoutDeadRules : p.withoutDeadRules.check = .ok () := by
  refine check_eq_ok_iff_meets.2 ?_
  intro r
  by_cases hr : r = .start
  · rw [hr]
    exact meets_start_withoutDeadRules hmeets hleaves
  · exact (hmeets r).of_sublist p.sublist_rules_withoutDeadRules hr

/-- The program starts where it did. -/
theorem startState_withoutDeadRules (hstart : p.startState = .ok start) :
    p.withoutDeadRules.startState = .ok start := by
  have hcheck := check_withoutDeadRules hmeets hleaves
  cases hp : p.profile with
  | unbounded =>
      have hp' : p.withoutDeadRules.profile = .unbounded := hp
      obtain ⟨start', hstart'⟩ := exists_startState hcheck
      have hflags := check_eq_ok_iff_meets.1 hcheck .flags
      obtain ⟨s, hs, rfl, hflag⟩ := exists_flagged_of_startState (hmeets .flags) hp hstart
      obtain ⟨t, ht, rfl, hflag'⟩ := exists_flagged_of_startState hflags hp' hstart'
      have hone := hmeets .oneStart
      simp only [Meets, hp] at hone
      rw [hstart', hone s hs t (mem_mentions_of_withoutDeadRules ht) hflag hflag']
  | bounded bounds =>
      have hp' : p.withoutDeadRules.profile = .bounded bounds := hp
      exact (startState_of_bounded hp').2 ((startState_of_bounded hp).1 hstart)

/-- No state is unreachable without the dead rules. -/
theorem unreachableNames_withoutDeadRules : p.withoutDeadRules.unreachableNames = [] := by
  obtain ⟨start, hstart⟩ := exists_startState (check_eq_ok_iff_meets.2 hmeets)
  have hstart' := startState_withoutDeadRules hmeets hleaves hstart
  refine List.eq_nil_iff_forall_not_mem.2 ?_
  intro name hname
  obtain ⟨⟨s, hs, rfl⟩, hnot⟩ := (mem_unreachableNames_iff hstart').1 hname
  exact hnot ((leads_withoutDeadRules_iff hstart).2
    (leads_of_mem_mentions_withoutDeadRules hstart hs))

end Checked

/-- A name that is still mentioned accepts as it did. -/
theorem accepts_withoutDeadRules_iff (hflags : p.Meets .flags) {name : String}
    (h : ∃ s ∈ p.withoutDeadRules.mentions, s.name = name) :
    p.withoutDeadRules.accepts name = true ↔ p.accepts name = true := by
  simp only [accepts_iff]
  constructor
  · rintro ⟨s, hs, hname, hflag⟩
    exact ⟨s, mem_mentions_of_withoutDeadRules hs, hname, hflag⟩
  · rintro ⟨t, ht, hname, hflag⟩
    obtain ⟨s, hs, hsname⟩ := h
    -- the mention that is left carries the flags of the one that may be gone
    have hsame : s.flags = t.flags :=
      hflags t ht s (mem_mentions_of_withoutDeadRules hs) (hsname.trans hname.symm)
    exact ⟨s, hs, hsname, (congrArg Prod.snd hsame).trans hflag⟩

end Program

namespace Machine

variable {p : Program} {m : Machine}

/-! ### Machines follow the rules -/

/-- Unless the machine was refused a rule, a chain of rules leads from its first state to the present
one. -/
def Follows (p : Program) (m : Machine) : Prop :=
  m.program = p ∧ p.startState = .ok m.start ∧
    (m.halt = none → Program.Leads p.rules m.start m.state)

theorem follows_of_new (hm : Machine.new p = .ok m) : m.Follows p := by
  obtain ⟨-, start, hstart, rfl⟩ := new_eq_ok_iff.1 hm
  exact ⟨rfl, hstart, fun _ => .refl⟩

/-- A rule that is carried out continues the chain. -/
theorem Follows.apply (h : m.Follows p) {symbol : Char} {r : Rule}
    (haction : m.action = .apply symbol r) :
    Program.Leads p.rules m.start r.next.name ∧ (m.apply r).Follows p := by
  obtain ⟨rfl, hstart, hleads⟩ := h
  obtain ⟨hhalted, -, hrule⟩ := action_eq_apply_iff.1 haction
  rw [Machine.transition] at hrule
  have happlies := List.find?_some hrule
  have hmem : r ∈ m.program.rules := List.mem_of_find?_eq_some hrule
  have hbefore := hleads (halt_eq_none_of_halted hhalted)
  rw [← (Rule.appliesTo_iff.1 happlies).1] at hbefore
  have hnext := hbefore.tail hmem
  exact ⟨hnext, rfl, hstart, fun _ => hnext⟩

theorem Follows.rejected (h : m.Follows p) : m.rejected.Follows p := by
  refine ⟨(program_rejected m).trans h.1, ?_, ?_⟩
  · rw [start_rejected]
    exact h.2.1
  · intro hhalt
    rw [halt_rejected] at hhalt
    exact nomatch hhalt

theorem Follows.reset (h : m.Follows p) : m.reset.Follows p :=
  ⟨h.1, h.2.1, fun _ => .refl⟩

/-- **A step follows the rules**, and a step that goes on enters a state that can be reached. -/
theorem Follows.step (h : m.Follows p) :
    m.step.2.Follows p ∧
      (m.step.1 = .ok .continue → Program.Leads p.rules m.start m.step.2.state) := by
  rcases step_cases m with ⟨verdict, -, hstep⟩ | ⟨-, -, hstep⟩ | ⟨symbol, -, -, -, hstep⟩ |
    ⟨symbol, rule, -, -, -, haction, hstep⟩
  · simp [hstep, h]
  · simp [hstep, h]
  · simp [hstep, h.rejected]
  · obtain ⟨hnext, hfollows⟩ := h.apply haction
    simp [hstep, hfollows, hnext]

/-- **A machine follows the rules wherever it gets to.** -/
theorem Reaches.follows {past : List Machine} (h : Reaches p past m) : m.Follows p := by
  exact Reaches.induction (P := fun _ m₁ => m₁.Follows p) (fun _ hnew => follows_of_new hnew)
    (fun _ _ ih => ih.step.1) h

/-! ### A machine without the dead rules -/

/-- The machine at work on the program without its dead rules, with the names that accept there. -/
def withoutDeadRules (m : Machine) : Machine :=
  { m with
    program := m.program.withoutDeadRules
    accepting := (initial m.program.withoutDeadRules m.start).accepting }

/-- A machine that has followed the rules of a program that passes, and accepts by its flags. -/
structure Sound (p : Program) (m : Machine) : Prop where
  follows : m.Follows p
  accepting : m.accepting = (initial p m.start).accepting
  meets : ∀ r, p.Meets r
  leaves : p.StartsWithRule

namespace Sound

/-- Where the machine was not refused a rule its state accepts as it did. -/
theorem mem_accepting_iff (h : m.Sound p) (hp : p.profile = .unbounded) (hhalt : m.halt = none) :
    m.state ∈ m.withoutDeadRules.accepting ↔ m.state ∈ m.accepting := by
  obtain ⟨⟨rfl, hstart, hleads⟩, haccepting, hmeets, hleaves⟩ := h
  have hflags := Program.checkFlags_eq_ok_iff.2 (hmeets .flags)
  have hflags' := (Program.check_eq_ok_iff.1
    (Program.check_withoutDeadRules hmeets hleaves)).2.2.1
  obtain ⟨r, hr, hcurrent⟩ := hleaves hp
  have hname : m.start = r.current.name := Except.ok.inj (hstart.symm.trans hcurrent)
  have hmentioned := Program.exists_mention_of_leads hstart ⟨r, hr, hname.symm⟩ (hleads hhalt)
  rw [haccepting, Program.mem_accepting_iff hflags]
  exact (Program.mem_accepting_iff hflags' m.start m.state).trans
    (Program.accepts_withoutDeadRules_iff (hmeets .flags) hmentioned)

theorem halted (h : m.Sound p) : m.withoutDeadRules.halted = m.halted := by
  cases hhalt : m.halt with
  | some verdict =>
      have hhalt' : m.withoutDeadRules.halt = some verdict := hhalt
      rw [halted_of_halt hhalt, halted_of_halt hhalt']
  | none =>
      have hhalt' : m.withoutDeadRules.halt = none := hhalt
      cases hp : m.program.profile with
      | unbounded =>
          have hp' : m.withoutDeadRules.program.profile = .unbounded := hp
          have hsame := h.mem_accepting_iff (by rw [← h.follows.1, hp]) hhalt
          have hstate : m.withoutDeadRules.state = m.state := rfl
          rw [halted_of_unbounded hp hhalt, halted_of_unbounded hp' hhalt', hstate]
          simp only [hsame]
      | bounded bounds =>
          have hp' : m.withoutDeadRules.program.profile = .bounded bounds := hp
          rw [halted_of_bounded hp hhalt, halted_of_bounded hp' hhalt']
          rfl

/-- The rule for a symbol is not a dead one. -/
theorem transition (h : m.Sound p) (hhalt : m.halt = none) (symbol : Char) :
    m.withoutDeadRules.transition symbol = m.transition symbol := by
  obtain ⟨⟨rfl, hstart, hleads⟩, -, -, -⟩ := h
  have halive : m.state ∉ m.program.unreachableNames := by
    intro hmem
    exact ((Program.mem_unreachableNames_iff hstart).1 hmem).2 (hleads hhalt)
  change (m.program.rules.filter _).find? (fun r => r.appliesTo m.state symbol) =
    m.program.rules.find? fun r => r.appliesTo m.state symbol
  rw [List.find?_filter]
  congr 1
  funext r
  by_cases happlies : r.appliesTo m.state symbol = true
  · have hname := (Rule.appliesTo_iff.1 happlies).1
    simp [happlies, hname, halive]
  · simp [happlies]

theorem action (h : m.Sound p) : m.withoutDeadRules.action = m.action := by
  have hsymbol : m.withoutDeadRules.symbol? = m.symbol? := rfl
  cases hhalted : m.halted with
  | some verdict => simp only [Machine.action, h.halted, hhalted]
  | none =>
      simp only [Machine.action, h.halted, hhalted, hsymbol,
        h.transition (halt_eq_none_of_halted hhalted)]

theorem rejected (m : Machine) : m.withoutDeadRules.rejected = m.rejected.withoutDeadRules := by
  cases hp : m.program.profile with
  | unbounded => simp [Machine.rejected, withoutDeadRules, Program.withoutDeadRules, hp]
  | bounded bounds => simp [Machine.rejected, withoutDeadRules, Program.withoutDeadRules, hp]

end Sound

/-- **The two machines cannot be told apart.** -/
theorem bisimulation_withoutDeadRules (p : Program) :
    Bisimulation fun m m' => m.Sound p ∧ m' = m.withoutDeadRules where
  view := by
    rintro m m' ⟨hm, rfl⟩
    rw [Machine.view, Machine.view, hm.halted]
    rfl
  content := by
    rintro m m' ⟨-, rfl⟩
    rfl
  cap := by
    rintro m m' ⟨-, rfl⟩
    rfl
  action := by
    rintro m m' ⟨hm, rfl⟩
    exact hm.action
  apply := by
    rintro m m' symbol rule ⟨hm, rfl⟩ haction
    exact ⟨⟨(hm.follows.apply haction).2, hm.accepting, hm.meets, hm.leaves⟩, rfl⟩
  rejected := by
    rintro m m' symbol ⟨hm, rfl⟩ -
    refine ⟨⟨hm.follows.rejected, ?_, hm.meets, hm.leaves⟩, Sound.rejected m⟩
    rw [accepting_rejected, start_rejected]
    exact hm.accepting
  reset := by
    rintro m m' ⟨hm, rfl⟩
    exact ⟨⟨hm.follows.reset, hm.accepting, hm.meets, hm.leaves⟩, rfl⟩

/-- **That the dead rules are gone cannot be seen.**  Let a program pass its check and, if flags
decide where it starts, have some rule that leaves its start.  Without the rules that leave an
unreachable state it passes as well and no state of it is unreachable, and the machines of the two
look the same, and give the same answers and look the same after each of them whatever they are told.
And wherever the machine gets to, a rule never takes it into an unreachable state. -/
theorem dead_rules_unseen (hcheck : p.check = .ok ()) (hleaves : p.StartsWithRule) :
    p.withoutDeadRules.check = .ok () ∧ p.withoutDeadRules.unreachableNames = [] ∧
      (∃ m m', Machine.new p = .ok m ∧ Machine.new p.withoutDeadRules = .ok m' ∧
        m'.view = m.view ∧
        ∀ ops log, (∃ f, m.Performs ops log f) ↔ ∃ f', m'.Performs ops log f') ∧
      ∀ past m, Reaches p past m → m.step.1 = .ok .continue →
        m.step.2.state ∉ p.unreachableNames := by
  have hmeets := Program.check_eq_ok_iff_meets.1 hcheck
  obtain ⟨start, hstart⟩ := Program.exists_startState hcheck
  have hcheck' := Program.check_withoutDeadRules hmeets hleaves
  have hstart' := Program.startState_withoutDeadRules hmeets hleaves hstart
  refine ⟨hcheck', Program.unreachableNames_withoutDeadRules hmeets hleaves, ?_, ?_⟩
  · have hmade := new_eq_ok_iff.2 ⟨hcheck, start, hstart, rfl⟩
    have hmade' := new_eq_ok_iff.2 ⟨hcheck', start, hstart', rfl⟩
    have hsound : (initial p start).Sound p :=
      ⟨follows_of_new hmade, rfl, hmeets, hleaves⟩
    have hsame := bisimulation_withoutDeadRules p
    refine ⟨_, _, hmade, hmade', hsame.view ⟨hsound, rfl⟩, ?_⟩
    intro ops log
    exact hsame.performs_iff ⟨hsound, rfl⟩
  · intro past m hreaches hgo hmem
    have hfollows := hreaches.follows
    exact ((Program.mem_unreachableNames_iff hfollows.2.1).1 hmem).2 (hfollows.step.2 hgo)

end Machine

/-- The rule that leaves `isle`, which accepts, leads to where the program starts; none leads back. -/
def Program.isle : Program :=
  .unbounded
    [⟨State.accepting "isle", '1', State.start "scan", '1', .left⟩,
      ⟨State.start "scan", '1', State.start "scan", '0', .right⟩,
      ⟨State.start "scan", '_', State.accepting "done", '_', .right⟩]
    (Tape.ofString "1") 0

/-- A rule leaves the state that rejects, and none leads there. -/
def Description.oneWayOut : Description :=
  ⟨"one-way-out", ["q", "accept", "reject"], ['1'],
    [⟨"q", '1', "accept", '1', .right⟩, ⟨"reject", '_', "q", '_', .right⟩], "q", "accept", "reject",
    '_', none⟩

namespace Machine

/-- A name that accepts is gone with a dead rule, and nobody sees it; and a machine is forced into a
state that no rule enters, and rejects there without the rule that leaves it as it does with it. -/
theorem dead_rules_unseen_forced_reject :
    (Program.isle.check = .ok () ∧ Program.isle.unreachableNames = ["isle"] ∧
      Program.isle.withoutDeadRules.unreachableNames = [] ∧
      ∃ m m', Machine.new Program.isle = .ok m ∧
        Machine.new Program.isle.withoutDeadRules = .ok m' ∧
        m.accepting = ["isle", "done"] ∧
        ∃ f', m'.Performs [.step, .run]
          [(.stepped (.ok .continue), ⟨"scan", ⟨['0', '_']⟩, 1, 1, none⟩),
            (.ran (.ok ⟨.accept, "done", "0__", 2⟩), ⟨"done", ⟨['0', '_', '_']⟩, 2, 2, some .accept⟩)]
          f') ∧
    (Description.oneWayOut.build "").unreachableNames = ["reject"] ∧
      ∃ m m', Machine.new (Description.oneWayOut.build "") = .ok m ∧
        Machine.new (Description.oneWayOut.build "").withoutDeadRules = .ok m' ∧
        ∃ f', m'.Performs [.run, .step]
          [(.ran (.ok ⟨.reject, "reject", "", 0⟩), ⟨"reject", ⟨['_', '_']⟩, 1, 0, some .reject⟩),
            (.stepped (.ok (.halt .reject)), ⟨"reject", ⟨['_', '_']⟩, 1, 0, some .reject⟩)] f' := by
  constructor
  · have hcheck : Program.isle.check = .ok () := rfl
    have hleaves : Program.isle.StartsWithRule := by
      intro _
      exact ⟨_, List.mem_cons_of_mem _ List.mem_cons_self, rfl⟩
    obtain ⟨-, hnone, ⟨m, m', hmade, hmade', -, hsessions⟩, -⟩ := dead_rules_unseen hcheck hleaves
    have hnew : Machine.new Program.isle = .ok (initial Program.isle "scan") := rfl
    obtain rfl := Except.ok.inj (hmade.symm.trans hnew)
    have hsession : (initial Program.isle "scan").Performs [.step, .run] _ _ :=
      .cons .step (.cons (.run (n := 2) rfl) .nil)
    exact ⟨hcheck, by decide +kernel, hnone, _, m', hmade, hmade', rfl,
      (hsessions _ _).1 ⟨_, hsession⟩⟩
  · have hcheck : (Description.oneWayOut.build "").check = .ok () := rfl
    have hleaves : (Description.oneWayOut.build "").StartsWithRule := nofun
    obtain ⟨-, -, ⟨m, m', hmade, hmade', -, hsessions⟩, -⟩ := dead_rules_unseen hcheck hleaves
    have hnew : Machine.new (Description.oneWayOut.build "") =
        .ok (initial (Description.oneWayOut.build "") "q") := rfl
    obtain rfl := Except.ok.inj (hmade.symm.trans hnew)
    have hsession : (initial (Description.oneWayOut.build "") "q").Performs [.run, .step] _ _ :=
      .cons (.run (n := 1) rfl) (.cons .step .nil)
    exact ⟨by decide +kernel, _, m', hmade, hmade', (hsessions _ _).1 ⟨_, hsession⟩⟩

/-- Where no rule leaves the start it may go with the dead rules, and none is left to start in. -/
example :
    let p : Program := .unbounded [⟨State.ordinary "a", '0', State.start "b", '0', .right⟩]
      (Tape.ofString "0") 0
    p.check = .ok () ∧ p.withoutDeadRules.startNames = [] :=
  ⟨rfl, by decide +kernel⟩

end Machine

end TapeMachine
