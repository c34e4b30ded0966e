/-
**Looking ahead.**

Whether a further rule would apply is asked without taking the step: the cap on transitions counts
only for a machine that would go on.  The question and the step go to the symbol by different ways:
where there is none the question says no, and the step hands on the failure of the cell or of the
tape.  They must not disagree, with the head before the first cell, on the cell after the last one,
in a state that accepts from the start, after a rejection for want of a rule.  They do not, in
whatever way the machine got there.

If there is a further rule, the table has only one for the state and the symbol, since the check has
seen to it that no place of the table is there twice (`TapeMachine.Program.rulesFor_eq_singleton`).
The step carries it out and does nothing else (`TapeMachine.Machine.CarriesOut`).

Main definitions:

* `TapeMachine.Program.rulesFor` — the rules for a state and a symbol;
* `TapeMachine.Machine.CarriesOut` — one machine comes from another by a rule, part by part.

Main results:

* `TapeMachine.Program.length_rulesFor` — there are as many rules as the place is there;
* `TapeMachine.Machine.carriesOut_apply` — what applying a rule does;
* `TapeMachine.Machine.look_ahead_exact` — **looking ahead agrees with the step**.
-/

import TapeMachine.Catalogue
import TapeMachine.Proofs.Ambiguity
import TapeMachine.Proofs.UnreadCells

set_option relaxedAutoImplicit false
set_option autoImplicit false

namespace TapeMachine

namespace Program

variable {p : Program} {name : String} {symbol : Char}

/-! ### The rules for a state and a symbol -/

/-- The rules for a state and a symbol, in the order of the table. -/
def rulesFor (p : Program) (name : String) (symbol : Char) : List Rule :=
  p.rules.filter fun r => r.appliesTo name symbol

/-- There are as many rules for a state and a symbol as the place is there in the table. -/
theorem length_rulesFor : (p.rulesFor name symbol).length = p.places.count (name, symbol) := by
  rw [rulesFor, places, List.count, List.countP_map, List.countP_eq_length_filter]
  refine congrArg List.length (List.filter_congr ?_)
  intro r _
  rw [Bool.eq_iff_iff, Rule.appliesTo_iff, Function.comp_apply, beq_iff_eq, Rule.place,
    Prod.mk.injEq]

/-- **In a table without ambiguity the first rule that applies is the only one.** -/
theorem rulesFor_eq_singleton (hrules : p.Meets .rules) {rule : Rule}
    (h : (p.rulesFor name symbol).head? = some rule) : p.rulesFor name symbol = [rule] := by
  obtain ⟨rest, hrest⟩ := List.head?_eq_some_iff.1 h
  have hone : (p.rulesFor name symbol).length ≤ 1 := by
    rw [length_rulesFor]
    exact List.nodup_iff_count_le_one.1 (meets_rules_iff_nodup.1 hrules) _
  rw [hrest, List.length_cons] at hone
  rw [hrest, List.length_eq_zero_iff.1 (by omega : rest.length = 0)]

end Program

namespace Machine

variable {p : Program} {m m' : Machine}

theorem transition_eq_head? (m : Machine) (symbol : Char) :
    m.transition symbol = (m.program.rulesFor m.state symbol).head? := by
  rw [transition, Program.rulesFor, List.head?_filter]

/-! ### What a rule does -/

/-- The machine `m'` is what becomes of `m` by one rule. -/
structure CarriesOut (m : Machine) (r : Rule) (m' : Machine) : Prop where
  /-- The count goes up by one. -/
  steps : m'.steps = m.steps + 1
  /-- The state is the one that follows. -/
  state : m'.state = r.next.name
  /-- The cell that was under the head holds what the rule writes. -/
  written : m'.tape.get? m.head.toNat = some r.write
  /-- The other cells hold what they held. -/
  untouched : ∀ i < m.tape.length, i ≠ m.head.toNat → m'.tape.get? i = m.tape.get? i
  /-- One blank is appended where the head goes past the last cell of a tape that may grow. -/
  appended : m.program.profile = .unbounded ∧ m.head + r.direction.offset = m.tape.length →
    m'.tape.length = m.tape.length + 1 ∧ m'.tape.get? m.tape.length = some m.program.blank
  /-- Otherwise no cell is appended. -/
  kept : ¬ (m.program.profile = .unbounded ∧ m.head + r.direction.offset = m.tape.length) →
    m'.tape.length = m.tape.length
  /-- The head stays where it would go before the first cell of a tape that may grow. -/
  stopped : m.program.profile = .unbounded ∧ m.head + r.direction.offset = -1 →
    m'.head = m.head
  /-- Otherwise it moves by one cell. -/
  moved : ¬ (m.program.profile = .unbounded ∧ m.head + r.direction.offset = -1) →
    m'.head = m.head + r.direction.offset
  /-- The rest of the machine stays as it is. -/
  frame : m'.program = m.program ∧ m'.start = m.start ∧ m'.accepting = m.accepting ∧
    m'.halt = m.halt

/-- **What applying a rule does.** -/
theorem carriesOut_apply {symbol : Char} (hsymbol : m.symbol? = some symbol) (r : Rule) :
    m.CarriesOut r (m.apply r) := by
  obtain ⟨h0, hlt⟩ := head_lt_of_symbol? hsymbol
  have hcell : m.head.toNat < m.tape.length := by omega
  refine ⟨rfl, rfl, ?_, fun i => get?_apply_of_ne r, ?_, ?_, ?_, ?_, rfl, rfl, rfl, rfl⟩
  · have hset : (m.tape.set m.head.toNat r.write).get? m.head.toNat = some r.write := by
      rw [Tape.get?_set, if_pos ⟨rfl, hcell⟩]
    rw [tape_apply]
    split
    · rw [Tape.get?_extendRight, Tape.length_set, if_neg (Nat.ne_of_lt hcell), hset]
    · exact hset
  · intro hpast
    rw [tape_apply, if_pos hpast, Tape.length_extendRight, Tape.length_set,
      Tape.get?_extendRight, Tape.length_set, if_pos rfl]
    exact ⟨rfl, rfl⟩
  · intro hwithin
    rw [tape_apply, if_neg hwithin, Tape.length_set]
  · intro hbefore
    rw [head_apply, if_pos hbefore]
    have hoffset := hbefore.2
    cases hdir : r.direction with
    | left =>
        rw [hdir, Direction.offset] at hoffset
        omega
    | right =>
        rw [hdir, Direction.offset] at hoffset
        omega
  · intro hwithin
    rw [head_apply, if_neg hwithin]

/-! ### Looking ahead and the step -/

/-- **Looking ahead agrees with the step**, wherever a machine has got to.  There is a further rule
exactly when the next step goes on; then one rule of the program is for the state and the symbol
under the head, and the step carries it out; and otherwise the step leaves tape, head and count. -/
theorem look_ahead_exact {past : List Machine} (h : Reaches p past m) :
    (m.hasTransition = true ↔ m.step.1 = .ok .continue) ∧
      (m.hasTransition = true → ∃ symbol rule, m.symbol? = some symbol ∧
        p.rulesFor m.state symbol = [rule] ∧ m.CarriesOut rule m.step.2) ∧
      (m.hasTransition = false → m.step.2.tape = m.tape ∧ m.step.2.head = m.head ∧
        m.step.2.steps = m.steps) := by
  refine ⟨hasTransition_iff, ?_, ?_⟩
  · intro hgo
    obtain ⟨symbol, rule, haction, hnext⟩ := exists_apply_of_continue (hasTransition_iff.1 hgo)
    obtain ⟨-, hsymbol, hrule⟩ := action_eq_apply_iff.1 haction
    rw [transition_eq_head?, h.program_eq] at hrule
    have hmeets := Program.check_eq_ok_iff_meets.1 h.check_eq_ok .rules
    refine ⟨symbol, rule, hsymbol, Program.rulesFor_eq_singleton hmeets hrule, ?_⟩
    rw [hnext]
    exact carriesOut_apply hsymbol rule
  · intro hstop
    refine step_idle fun hgo => ?_
    rw [hasTransition_iff.2 hgo] at hstop
    exact nomatch hstop

end Machine

/-- Its one rule takes the head to the left sentinel, for which it has none. -/
def Description.backOff : Description :=
  ⟨"back-off", ["q", "accept", "reject"], ['1'], [⟨"q", '1', "q", '1', .left⟩], "q", "accept",
    "reject", '_', none⟩

namespace Machine

/-- Past its cap a machine on the last cell of its tape applies the one rule for that place, which
appends a blank; and a bounded machine that was refused a rule on its sentinel has none ahead. -/
theorem look_ahead_exact_past_the_cap :
    (∃ past m, Reaches ((Catalogue.invert.withInput "10").withMaxSteps 0) past m ∧
      m.steps = 1 ∧ m.head = 1 ∧ m.hasTransition = true ∧
      ∃ symbol rule, m.symbol? = some symbol ∧
        ((Catalogue.invert.withInput "10").withMaxSteps 0).rulesFor m.state symbol = [rule] ∧
        m.step.2.steps = 2 ∧ m.step.2.tape.get? 2 = some '_') ∧
    ∃ past m, Reaches (Description.backOff.build "1") past m ∧ m.state = "reject" ∧
      m.hasTransition = false ∧ m.step.2.tape = m.tape ∧ m.step.2.head = 0 ∧
      m.step.2.steps = 1 := by
  constructor
  · have hmade : Machine.new ((Catalogue.invert.withInput "10").withMaxSteps 0) =
        .ok (initial _ "scan") := rfl
    have hpast : Reaches _ _ _ := .made hmade (.step .refl)
    obtain ⟨-, happlies, -⟩ := look_ahead_exact hpast
    obtain ⟨symbol, rule, hsymbol, hrules, hcarries⟩ := happlies rfl
    refine ⟨_, _, hpast, rfl, rfl, rfl, symbol, rule, hsymbol, hrules, hcarries.steps, ?_⟩
    obtain rfl : '0' = symbol := Option.some.inj hsymbol
    obtain rfl : _ = rule := (List.cons.inj hrules).1
    exact (hcarries.appended ⟨rfl, rfl⟩).2
  · have hmade : Machine.new (Description.backOff.build "1") = .ok (initial _ "q") := rfl
    have hrefused : Reaches _ _ _ := .made hmade (.step (.step .refl))
    obtain ⟨-, -, hidle⟩ := look_ahead_exact hrefused
    obtain ⟨htape, hhead, hsteps⟩ := hidle rfl
    exact ⟨_, _, hrefused, rfl, rfl, htape, hhead, hsteps⟩

end Machine

end TapeMachine
