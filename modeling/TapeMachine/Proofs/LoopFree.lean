/-
**Rules without loops come to an end.**

A transition goes from the state that a rule leaves to the one that it enters, whatever is on the
tape.  So the states that a machine goes through are a walk along the rules, and if no cycle of rules
can be reached from the first of them no state comes twice.  All of them are mentioned in the rules
once there is a transition, which bounds the number of transitions: it is less than the number of
states.  After that many the next step does not go on, and without a cap the run ends with it.

Main definitions:

* `TapeMachine.Program.Precedes` — a rule leaves the one state and enters the other;
* `TapeMachine.Program.LoopFree` — no cycle of rules can be reached from the start.

Main results:

* `TapeMachine.Program.loopFree_of_rank` — ranks that go up along the rules exclude cycles;
* `TapeMachine.Machine.nodup_states_of_moves` — no state comes twice;
* `TapeMachine.Machine.moves_lt_states` — there are fewer transitions than states;
* `TapeMachine.Machine.loop_free_terminates` — **rules without loops come to an end**.
-/

import Mathlib.Data.List.Nodup
import Mathlib.Data.List.Perm.Subperm
import Mathlib.Logic.Relation
import TapeMachine.Proofs.Standstill
import TapeMachine.Proofs.TapeGrowth

set_option relaxedAutoImplicit false
set_option autoImplicit false

namespace TapeMachine

namespace Program

/-! ### Rules without loops -/

/-- Some rule leaves the state called `a` and enters the one called `b`. -/
def Precedes (p : Program) (a b : String) : Prop :=
  ∃ r ∈ p.rules, r.current.name = a ∧ r.next.name = b

/-- No state that can be reached from the start along the rules is on a cycle of them. -/
def LoopFree (p : Program) : Prop :=
  ∀ start, p.startState = .ok start → ∀ a, Relation.ReflTransGen p.Precedes start a →
    ¬ Relation.TransGen p.Precedes a a

variable {p : Program}

/-- **Ranks that go up along the rules exclude cycles.**  What the rules do not lead to from the start
needs no rank. -/
theorem loopFree_of_rank (rank : String → Option Nat)
    (hstart : ∀ start, p.startState = .ok start → ∃ n, rank start = some n)
    (hrules : ∀ r ∈ p.rules, ∀ n, rank r.current.name = some n →
      ∃ k, rank r.next.name = some k ∧ n < k) : p.LoopFree := by
  have hup {a b : String} {n : Nat} (ha : rank a = some n) (h : p.Precedes a b) :
      ∃ k, rank b = some k ∧ n < k := by
    obtain ⟨r, hr, rfl, rfl⟩ := h
    exact hrules r hr n ha
  have hranked {a b : String} {n : Nat} (ha : rank a = some n)
      (h : Relation.ReflTransGen p.Precedes a b) : ∃ k, rank b = some k := by
    induction h with
    | refl => exact ⟨n, ha⟩
    | tail _ hedge ih =>
        obtain ⟨k, hk⟩ := ih
        obtain ⟨l, hl, -⟩ := hup hk hedge
        exact ⟨l, hl⟩
  intro start hstate a hreach hcycle
  obtain ⟨first, hfirst⟩ := hstart start hstate
  obtain ⟨n, hn⟩ := hranked hfirst hreach
  -- a chain of rules from `a` leads to a higher rank, and so not back to `a`
  have hhigher : ∀ {b : String}, Relation.TransGen p.Precedes a b →
      ∃ k, rank b = some k ∧ n < k := by
    intro b hchain
    induction hchain with
    | single hedge => exact hup hn hedge
    | tail _ hedge ih =>
        obtain ⟨k, hk, hlt⟩ := ih
        obtain ⟨l, hl, hlt'⟩ := hup hk hedge
        exact ⟨l, hl, Nat.lt_trans hlt hlt'⟩
  obtain ⟨k, hk, hlt⟩ := hhigher hcycle
  obtain rfl : n = k := Option.some.inj (hn.symm.trans hk)
  exact Nat.lt_irrefl n hlt

/-- The states on the two sides of a rule are mentioned. -/
theorem Precedes.mem_states {a b : String} (h : p.Precedes a b) :
    a ∈ p.states.map State.name ∧ b ∈ p.states.map State.name := by
  obtain ⟨r, hr, rfl, rfl⟩ := h
  exact ⟨mem_map_name_states.2 ⟨r.current, mem_mentions.2 ⟨r, hr, Or.inl rfl⟩, rfl⟩,
    mem_map_name_states.2 ⟨r.next, mem_mentions.2 ⟨r, hr, Or.inr rfl⟩, rfl⟩⟩

end Program

namespace Machine

variable {p : Program} {m : Machine} {k : Nat}

/-! ### The walk along the rules -/

/-- A step that goes on follows a rule. -/
theorem precedes_of_continue (h : m.step.1 = .ok .continue) :
    m.program.Precedes m.state m.step.2.state := by
  obtain ⟨symbol, rule, haction, hnext⟩ := exists_apply_of_continue h
  obtain ⟨-, -, hrule⟩ := action_eq_apply_iff.1 haction
  rw [transition] at hrule
  have happlies := List.find?_some hrule
  obtain ⟨hname, -⟩ := Rule.appliesTo_iff.1 happlies
  rw [hnext, state_apply]
  exact ⟨rule, List.mem_of_find?_eq_some hrule, hname, rfl⟩

theorem Moves.precedes (hmoves : m.Moves k) {i : Nat} (hi : i < k) :
    m.program.Precedes (m.after i).state (m.after (i + 1)).state := by
  have hprecedes := precedes_of_continue (hmoves i hi)
  rwa [program_after] at hprecedes

/-- Of two states that the machine goes through a chain of rules leads from the earlier one to the
later one. -/
theorem Moves.transGen (hmoves : m.Moves k) {i j : Nat} (hij : i < j) (hj : j ≤ k) :
    Relation.TransGen m.program.Precedes (m.after i).state (m.after j).state := by
  induction j with
  | zero => exact absurd hij (Nat.not_lt_zero i)
  | succ j ih =>
      have hlast := hmoves.precedes (show j < k by omega)
      rcases Nat.lt_or_eq_of_le (Nat.le_of_lt_succ hij) with hlt | rfl
      · exact (ih hlt (by omega)).tail hlast
      · exact .single hlast

/-- The states that a fresh machine goes through can all be reached along the rules. -/
theorem Moves.reflTransGen (hmoves : m.Moves k) {i : Nat} (hi : i ≤ k) :
    Relation.ReflTransGen m.program.Precedes m.state (m.after i).state := by
  rcases Nat.eq_zero_or_pos i with rfl | hpos
  · exact .refl
  · exact (hmoves.transGen hpos hi).to_reflTransGen

/-! ### How long the walk can be -/

/-- **No state comes twice** where no cycle can be reached. -/
theorem nodup_states_of_moves (hloop : p.LoopFree) (hm : Machine.new p = .ok m)
    (hmoves : m.Moves k) : ((List.range (k + 1)).map fun i => (m.after i).state).Nodup := by
  obtain ⟨-, start, hstart, rfl⟩ := new_eq_ok_iff.1 hm
  have hdiffer {i j : Nat} (hij : i < j) (hj : j ≤ k) :
      ((initial p start).after i).state ≠ ((initial p start).after j).state := by
    intro heq
    have hcycle := hmoves.transGen hij hj
    rw [← heq] at hcycle
    exact hloop start hstart _ (hmoves.reflTransGen (show i ≤ k by omega)) hcycle
  refine List.Nodup.map_on ?_ List.nodup_range
  intro i hi j hj heq
  rw [List.mem_range] at hi hj
  rcases Nat.lt_trichotomy i j with hlt | rfl | hgt
  · exact absurd heq (hdiffer hlt (by omega))
  · rfl
  · exact absurd heq.symm (hdiffer hgt (by omega))

/-- Once there is a transition every state that the machine goes through is mentioned. -/
theorem Moves.mem_states (hmoves : m.Moves k) (hpos : 0 < k) {i : Nat} (hi : i ≤ k) :
    (m.after i).state ∈ m.program.states.map State.name := by
  rcases Nat.lt_or_eq_of_le hi with hlt | rfl
  · exact (hmoves.precedes hlt).mem_states.1
  · obtain ⟨j, rfl⟩ := Nat.exists_eq_add_of_lt hpos
    rw [Nat.zero_add] at hmoves ⊢
    exact (hmoves.precedes (Nat.lt_succ_self j)).mem_states.2

/-- **There are fewer transitions than states**, and none if there are no states. -/
theorem moves_lt_states (hloop : p.LoopFree) (hm : Machine.new p = .ok m) (hmoves : m.Moves k) :
    k ≤ p.states.length - 1 := by
  rcases Nat.eq_zero_or_pos k with rfl | hpos
  · exact Nat.zero_le _
  · have hprogram : m.program = p := by
      obtain ⟨-, start, -, rfl⟩ := new_eq_ok_iff.1 hm
      rfl
    have hsubset : ((List.range (k + 1)).map fun i => (m.after i).state) ⊆
        p.states.map State.name := by
      intro name hname
      obtain ⟨i, hi, rfl⟩ := List.mem_map.1 hname
      rw [List.mem_range] at hi
      rw [← hprogram]
      exact hmoves.mem_states hpos (Nat.le_of_lt_succ hi)
    have hlength := (List.subperm_of_subset (nodup_states_of_moves hloop hm hmoves)
      hsubset).length_le
    rw [List.length_map, List.length_map, List.length_range] at hlength
    omega

/-- **Rules without loops come to an end.**  Let no cycle of rules be reachable from the start of a
program that passes its check.  Without a cap its machine makes fewer transitions than the program
has states, and none if there are no rules, and the run ends with the step after them: with an
outcome, or, on a tape of fixed length, because the head has left it. -/
theorem loop_free_terminates (hloop : p.LoopFree) (hm : Machine.new p = .ok m) :
    ∃ free k result f, Machine.new (p.recap none) = .ok free ∧ k ≤ p.states.length - 1 ∧
      (p.rules = [] → k = 0) ∧ free.Moves k ∧ free.runFor (k + 1) = .ended result f ∧
      f.steps = k ∧
      ((∃ o, result = .ok o) ∨ (∃ bounds, p.profile = .bounded bounds) ∧
        ∃ index length, result = .error (.indexOutOfRange index length)) := by
  have hfree := new_recap hm none
  have hcap : (m.recap none).program.maxSteps = none := rfl
  have hfresh : (m.recap none).steps = 0 := by
    obtain ⟨-, start, -, rfl⟩ := new_eq_ok_iff.1 hm
    rfl
  have hfew {k : Nat} (hmoves : (m.recap none).Moves k) : k ≤ p.states.length - 1 :=
    moves_lt_states (p := p.recap none) hloop hfree hmoves
  -- otherwise there would be one transition more
  have hstops : (m.recap none).StopsWithin (p.states.length - 1) := by
    refine Classical.byContradiction ?_
    intro hnot
    have hle := hfew (moves_of_not_stopsWithin hnot)
    omega
  obtain ⟨k, hk, hmoves, hstop⟩ := hstops
  obtain ⟨result, hround, -, hresult⟩ := round_of_stop hstop none
  have hrun : (m.recap none).runFor (k + 1) =
      .ended result ((m.recap none).after k).step.2 := by
    rw [runFor_of_moves hmoves (by simp [hcap]), runFor_succ, hround, resume]
  refine ⟨_, k, result, _, hfree, hk, ?_, hmoves, hrun, ?_, ?_⟩
  · intro hrules
    have hstates : p.states = [] := by simp [Program.states, Program.mentions, hrules]
    rw [hstates] at hk
    exact Nat.le_zero.1 hk
  · rw [(step_idle hstop).2.2, hmoves.steps_after, hfresh, Nat.zero_add]
  · rcases hresult with houtcome | ⟨index, length, rfl⟩
    · exact Or.inl houtcome
    · cases hp : p.profile with
      | bounded bounds => exact Or.inr ⟨⟨bounds, rfl⟩, index, length, rfl⟩
      | unbounded =>
          -- on a tape that grows a run can fail by its cap only, and there is none
          obtain ⟨limit, hlimit, -⟩ :=
            Reaches.run_error (p := p.recap none) hp (.made hfree .refl) hrun
          exact absurd (hcap.symm.trans hlimit) (by simp)

end Machine

/-- The program of the catalogue that flips the first two digits, with a loop that nothing leads
to. -/
def Catalogue.flipTwoBeside : Program :=
  { flipTwo with rules := flipTwo.rules ++ [⟨.ordinary "idle", '0', .ordinary "idle", '0', .right⟩] }

/-- A head that walks off the left end in two transitions. -/
def Description.wayOut : Description :=
  ⟨"way-out", ["in", "door", "out", "accept", "reject"], [],
    [⟨"in", '_', "door", '_', .left⟩, ⟨"door", '_', "out", '_', .left⟩], "in", "accept", "reject",
    '_', none⟩

namespace Machine

/-- Two digits are flipped in two transitions, whatever goes round elsewhere; and the way out takes
as many transitions as three states allow. -/
theorem loop_free_terminates_in_two :
    (Catalogue.flipTwoBeside.LoopFree ∧ ∃ free f,
      Machine.new (Catalogue.flipTwoBeside.recap none) = .ok free ∧
      free.Ends (.ok ⟨.accept, "q2", "0101000", 2⟩) f ∧ f.steps ≤ 4 - 1) ∧
    (Description.wayOut.build "").LoopFree ∧ ∃ free f,
      Machine.new ((Description.wayOut.build "").recap none) = .ok free ∧
      free.Ends (.error (.indexOutOfRange (-1) 2)) f ∧ f.steps ≤ 3 - 1 ∧ f.steps = 2 := by
  constructor
  · have hloop : Catalogue.flipTwoBeside.LoopFree := by
      refine Program.loopFree_of_rank (fun name =>
        if name = "q0" then some 0 else if name = "q1" then some 1
        else if name = "q2" then some 2 else none) ?_ ?_
      · rintro start ⟨rfl⟩
        exact ⟨0, rfl⟩
      · decide
    have hmade : Machine.new Catalogue.flipTwoBeside = .ok (initial Catalogue.flipTwoBeside "q0") :=
      rfl
    obtain ⟨free, k, result, f, hfree, hk, -, -, hrun, hsteps, -⟩ :=
      loop_free_terminates hloop hmade
    obtain rfl := Except.ok.inj hfree
    have hends : ((initial Catalogue.flipTwoBeside "q0").recap none).Ends
        (.ok ⟨.accept, "q2", "0101000", 2⟩) _ := ⟨3, rfl⟩
    obtain ⟨-, rfl⟩ := Ends.unique ⟨_, hrun⟩ hends
    exact ⟨hloop, _, _, hfree, hends, by rw [hsteps]; exact hk⟩
  · have hloop : (Description.wayOut.build "").LoopFree := by
      refine Program.loopFree_of_rank (fun name =>
        if name = "in" then some 0 else if name = "door" then some 1
        else if name = "out" then some 2 else none) ?_ ?_
      · rintro start ⟨rfl⟩
        exact ⟨0, rfl⟩
      · decide
    have hmade : Machine.new (Description.wayOut.build "") =
        .ok (initial (Description.wayOut.build "") "in") := rfl
    obtain ⟨free, k, result, f, hfree, hk, -, -, hrun, hsteps, -⟩ :=
      loop_free_terminates hloop hmade
    obtain rfl := Except.ok.inj hfree
    have hends : ((initial (Description.wayOut.build "") "in").recap none).Ends
        (.error (.indexOutOfRange (-1) 2)) _ := ⟨3, rfl⟩
    obtain ⟨-, rfl⟩ := Ends.unique ⟨_, hrun⟩ hends
    exact ⟨hloop, _, _, hfree, hends, by rw [hsteps]; exact hk, rfl⟩

end Machine

end TapeMachine
