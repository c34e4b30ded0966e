/-
**The report of unreachable states.**

A table of rules may go round in circles and lead to one state by many rules, and a program may be
searched that is not fit to run.  The search for the states that can be reached ends all the same:
what is left of it becomes less in each round, so it takes no more rounds than there are rules and
one (`TapeMachine.Search.exists_endsAfter`).  Where it ends the visited names are those that chains
of rules lead to, and the other names of the table are reported in the order of the alphabet.

Main definitions:

* `TapeMachine.Search.EndsAfter` — that a search ends after a number of rounds, and where.

Main results:

* `TapeMachine.Search.exists_endsAfter` — a search ends in as many rounds as were left at most;
* `TapeMachine.Program.pairwise_unreachableNames` — the names come in the order of the alphabet;
* `TapeMachine.Program.checkEvents_eq` — when the names are reported;
* `TapeMachine.Program.unreachable_names_exact` — **the unreachable names, and when they are
  reported**.
-/

import Mathlib.Logic.Function.Iterate
import TapeMachine.Program.Reachability

set_option relaxedAutoImplicit false
set_option autoImplicit false

namespace TapeMachine

namespace Search

/-! ### The search ends -/

/-- The search takes exactly `n` rounds until nothing is pending, and has got to `s'` then. -/
def EndsAfter (rules : List Rule) (s : Search) (n : Nat) (s' : Search) : Prop :=
  (∀ k < n, ((round rules)^[k] s).pending ≠ []) ∧ (round rules)^[n] s = s' ∧ s'.pending = []

/-- **A search ends in as many rounds as were left at most.** -/
theorem exists_endsAfter (rules : List Rule) (s : Search) :
    ∃ n ≤ s.left rules, s.EndsAfter rules n (s.finish rules) := by
  fun_induction finish rules s with
  | case1 s hend => exact ⟨0, Nat.zero_le _, fun k hk => absurd hk (Nat.not_lt_zero k), rfl, hend⟩
  | case2 s hgo ih =>
      obtain ⟨n, hn, hbefore, hfinish, hend⟩ := ih
      have hlt := left_round_lt rules hgo
      refine ⟨n + 1, by omega, ?_, hfinish, hend⟩
      intro k hk
      cases k with
      | zero => exact hgo
      | succ k => exact hbefore k (by omega)

theorem left_beginning (rules : List Rule) (start : String) :
    (beginning start).left rules = rules.length + 1 := by
  have hunused : unused rules (beginning start).visited = rules :=
    List.filter_eq_self.2 fun _ _ => decide_eq_true List.not_mem_nil
  rw [left, hunused, beginning, List.length_singleton, Nat.add_comm]

end Search

namespace Program

/-! ### What is reported -/

theorem unreachableNames_of_error {p : Program} {e : Error} (h : p.startState = .error e) :
    p.unreachableNames = [] := by
  simp only [unreachableNames, h]

theorem pairwise_unreachableNames (p : Program) : p.unreachableNames.Pairwise (· < ·) := by
  cases hstart : p.startState with
  | error e =>
      rw [unreachableNames_of_error hstart]
      exact List.Pairwise.nil
  | ok start =>
      simp only [unreachableNames, hstart]
      exact Distinct.pairwise_ascending _

/-- There is one report if a program passes and has unreachable names, and none otherwise. -/
theorem checkEvents_cases (p : Program) :
    (p.check = .ok () ∧ p.unreachableNames ≠ [] ∧
      p.checkEvents = [.unreachable p.name p.unreachableNames]) ∨
    (¬ (p.check = .ok () ∧ p.unreachableNames ≠ []) ∧ p.checkEvents = []) := by
  cases hcheck : p.check with
  | error e =>
      refine Or.inr ⟨fun h => (nomatch h.1), ?_⟩
      simp only [checkEvents, hcheck]
  | ok u =>
      cases hnames : p.unreachableNames with
      | nil =>
          refine Or.inr ⟨fun h => h.2 rfl, ?_⟩
          simp only [checkEvents, hcheck, hnames]
      | cons name names =>
          refine Or.inl ⟨rfl, List.cons_ne_nil _ _, ?_⟩
          simp only [checkEvents, hcheck, hnames]

/-- **The unreachable names, and when they are reported.**  Whether the program is fit to run or not,
the search ends, and the names are those mentioned that no chain of rules leads to from where the
program starts, in strictly ascending order, or none when it is not clear where it starts.  The check
warns of them when it succeeds and there are any. -/
theorem unreachable_names_exact (p : Program) :
    (∀ start, p.startState = .ok start →
      (∃ n s, n ≤ p.rules.length + 1 ∧ (Search.beginning start).EndsAfter p.rules n s ∧
        ∀ name, name ∈ p.unreachableNames ↔
          (∃ t ∈ p.mentions, t.name = name) ∧ name ∉ s.visited) ∧
      ∀ name, name ∈ p.unreachableNames ↔
        (∃ t ∈ p.mentions, t.name = name) ∧ ¬ Leads p.rules start name) ∧
    (∀ e, p.startState = .error e → p.unreachableNames = []) ∧
    p.unreachableNames.Pairwise (· < ·) ∧
    (p.check = .ok () ∧ p.unreachableNames ≠ [] →
      (p.checkEvents.map fun event => (event.level, event.message, event.fields)) =
        [(.warn, "unreachable states",
          [("program", .text p.name), ("states", .text (Text.quotedNames p.unreachableNames))])]) ∧
    (¬ (p.check = .ok () ∧ p.unreachableNames ≠ []) → p.checkEvents = []) := by
  refine ⟨?_, fun e => unreachableNames_of_error, pairwise_unreachableNames p, ?_⟩
  · intro start hstart
    obtain ⟨n, hn, hends⟩ := Search.exists_endsAfter p.rules (Search.beginning start)
    rw [Search.left_beginning] at hn
    refine ⟨⟨n, _, hn, hends, ?_⟩, fun name => mem_unreachableNames_iff hstart⟩
    intro name
    rw [mem_unreachableNames_iff hstart, Search.mem_visited_finish_iff]
  · rcases checkEvents_cases p with ⟨hcheck, hnames, hevents⟩ | ⟨hnot, hevents⟩
    · rw [hevents]
      exact ⟨fun _ => rfl, fun hnot => absurd ⟨hcheck, hnames⟩ hnot⟩
    · exact ⟨fun h => absurd h hnot, fun _ => hevents⟩

/-- The rules lead in circles and to one state by several ways.  None leads to the last two states of
the table, though these lead to each other and back to the others. -/
def archipelago : Program :=
  .unbounded
    [⟨State.start "q", '0', State.start "q", '0', .right⟩,
      ⟨State.start "q", '1', State.ordinary "m", '1', .right⟩,
      ⟨State.start "q", '_', State.ordinary "m", '_', .left⟩,
      ⟨State.ordinary "m", '0', State.start "q", '1', .left⟩,
      ⟨State.ordinary "z", '0', State.ordinary "c", '0', .right⟩,
      ⟨State.ordinary "c", '0', State.ordinary "z", '0', .right⟩,
      ⟨State.ordinary "c", '1', State.ordinary "m", '1', .right⟩]
    (Tape.ofString "01") 0

/-- Two states lead to each other, and it is not clear where to start. -/
def adrift : Program :=
  .unbounded
    [⟨State.ordinary "z", '0', State.ordinary "c", '0', .right⟩,
      ⟨State.ordinary "c", '0', State.ordinary "z", '0', .right⟩] (Tape.ofString "0") 0

/-- The names come in another order than in the table, and the check warns of them; and where it is
not clear where to start there are none, and no warning. -/
theorem unreachable_names_exact_archipelago :
    (archipelago.startState = .ok "q" ∧ archipelago.unreachableNames = ["c", "z"] ∧
      ¬ Leads archipelago.rules "q" "z" ∧ Leads archipelago.rules "q" "m" ∧
      (archipelago.checkEvents.map fun event => (event.level, event.message, event.fields)) =
        [(.warn, "unreachable states",
          [("program", .text "unnamed"), ("states", .text "[\"c\", \"z\"]")])]) ∧
    (adrift.startState = .error .noStartState ∧ adrift.unreachableNames = [] ∧
      adrift.checkEvents = []) := by
  constructor
  · have hstart : archipelago.startState = .ok "q" := rfl
    have hnames : archipelago.unreachableNames = ["c", "z"] := by decide +kernel
    obtain ⟨hexact, -, -, hwarns, -⟩ := unreachable_names_exact archipelago
    obtain ⟨-, hmem⟩ := hexact "q" hstart
    refine ⟨hstart, hnames, ((hmem "z").1 (by simp [hnames])).2, ?_, ?_⟩
    · by_contra hnot
      have hm := (hmem "m").2 ⟨⟨State.ordinary "m", by decide, rfl⟩, hnot⟩
      rw [hnames] at hm
      exact absurd hm (by decide)
    · rw [hwarns ⟨rfl, by simp [hnames]⟩, hnames]
      decide +kernel
  · have hstart : adrift.startState = .error .noStartState := rfl
    obtain ⟨-, hnone, -, -, hsilent⟩ := unreachable_names_exact adrift
    exact ⟨hstart, hnone _ hstart, hsilent fun h => h.2 (hnone _ hstart)⟩

end Program

end TapeMachine
