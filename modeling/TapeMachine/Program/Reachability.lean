/-
**States that cannot be reached.**

A state can be reached when a chain of rules leads to it from the state in which a machine starts,
whatever the symbols.  The search keeps the names it has visited and those that are pending.  In
each round it takes the pending name that came last; if that one has not been visited before, it is
now, and what its rules lead to becomes pending.

A name may become pending many times, so what is pending does not shrink from round to round.  But
every rule makes a name pending once at most, when the name that it leaves is visited.  The pending
names and the rules that leave no visited name, counted together, become fewer in each round
(`TapeMachine.Search.left_round_lt`), and so the search ends.

Main definitions:

* `TapeMachine.Program.Leads` — that a chain of rules leads from one name to another;
* `TapeMachine.Search` — where a search has got;
* `TapeMachine.Search.round`, `TapeMachine.Search.finish` — one round of it, and all of them;
* `TapeMachine.Program.unreachableNames` — the mentioned names that are not visited;
* `TapeMachine.Program.checkEvents` — the report of them.

Main results:

* `TapeMachine.Search.mem_visited_finish_iff` — the search visits the names that chains of rules
  lead to;
* `TapeMachine.Program.mem_unreachableNames_iff` — the unreachable names are the others.
-/

import TapeMachine.Program.Check
import TapeMachine.Event

set_option relaxedAutoImplicit false
set_option autoImplicit false

namespace TapeMachine

/-- A chain of rules leads from one name to another, whatever the symbols. -/
inductive Program.Leads (rules : List Rule) (a : String) : String → Prop where
  /-- A name leads to itself. -/
  | refl : Leads rules a a
  /-- A chain can be continued by a rule that leaves the name it leads to. -/
  | tail {r : Rule} : Leads rules a r.current.name → r ∈ rules → Leads rules a r.next.name

/-- Where a search for the names that chains of rules lead to has got. -/
structure Search where
  /-- The names that have been visited. -/
  visited : List String
  /-- The names that are still to be looked at, the next one first. -/
  pending : List String
  deriving DecidableEq, Repr

namespace Search

variable {rules : List Rule} {start name : String} {s : Search}

/-! ### The search -/

/-- The search at its beginning. -/
def beginning (start : String) : Search := ⟨[], [start]⟩

/-- The names that the rules for a name lead to, in their order, without those visited. -/
def successors (rules : List Rule) (visited : List String) (name : String) : List String :=
  ((rules.filter fun r => decide (r.current.name = name)).map fun r => r.next.name).filter
    fun next => decide (next ∉ visited)

/-- **One round of the search**: the next pending name is visited, if it has not been, and what the
rules for it lead to becomes pending. -/
def round (rules : List Rule) (s : Search) : Search :=
  match s.pending with
  | [] => s
  | name :: rest =>
      if name ∈ s.visited then ⟨s.visited, rest⟩
      else
        let visited := name :: s.visited
        ⟨visited, (successors rules visited name).reverse ++ rest⟩

theorem round_of_mem {rest : List String} (hpending : s.pending = name :: rest)
    (hname : name ∈ s.visited) : s.round rules = ⟨s.visited, rest⟩ := by
  simp only [round, hpending, if_pos hname]

theorem round_of_notMem {rest : List String} (hpending : s.pending = name :: rest)
    (hname : name ∉ s.visited) :
    s.round rules =
      ⟨name :: s.visited, (successors rules (name :: s.visited) name).reverse ++ rest⟩ := by
  simp only [round, hpending, if_neg hname]

/-- The rules that leave no visited name. -/
def unused (rules : List Rule) (visited : List String) : List Rule :=
  rules.filter fun r => decide (r.current.name ∉ visited)

/-- The number of the pending names and of the rules that leave no visited name. -/
def left (rules : List Rule) (s : Search) : Nat :=
  s.pending.length + (unused rules s.visited).length

theorem length_successors_le (rules : List Rule) (visited : List String) (name : String) :
    (successors rules visited name).length ≤
      (rules.filter fun r => decide (r.current.name = name)).length :=
  calc
    _ ≤ ((rules.filter fun r => decide (r.current.name = name)).map fun r => r.next.name).length :=
      List.length_filter_le _ _
    _ = (rules.filter fun r => decide (r.current.name = name)).length := List.length_map _

/-- The rules for a name are used when it is visited, and no others. -/
theorem length_unused_cons (rules : List Rule) {visited : List String} (h : name ∉ visited) :
    (unused rules (name :: visited)).length +
        (rules.filter fun r => decide (r.current.name = name)).length =
      (unused rules visited).length := by
  induction rules with
  | nil => rfl
  | cons r rest ih =>
      rw [unused, unused] at ih ⊢
      by_cases hname : r.current.name = name
      · have hused : r.current.name ∉ visited := hname ▸ h
        rw [List.filter_cons_of_neg (by simp [hname]),
          List.filter_cons_of_pos (by simpa using hname),
          List.filter_cons_of_pos (by simpa using hused), List.length_cons, List.length_cons,
          ← Nat.add_assoc, ih]
      · by_cases hused : r.current.name ∈ visited
        · rw [List.filter_cons_of_neg (by simp [hused]),
            List.filter_cons_of_neg (by simpa using hname),
            List.filter_cons_of_neg (by simpa using hused), ih]
        · rw [List.filter_cons_of_pos (by simp [hname, hused]),
            List.filter_cons_of_neg (by simpa using hname),
            List.filter_cons_of_pos (by simpa using hused), List.length_cons, List.length_cons,
            Nat.add_right_comm, ih]

/-- **Less is left after each round.** -/
theorem left_round_lt (rules : List Rule) (h : s.pending ≠ []) :
    (s.round rules).left rules < s.left rules := by
  cases hpending : s.pending with
  | nil => exact absurd hpending h
  | cons name rest =>
      by_cases hname : name ∈ s.visited
      · simp only [round_of_mem hpending hname, left, hpending, List.length_cons]
        omega
      · have hused := length_unused_cons rules hname
        have hsuccessors := length_successors_le rules (name :: s.visited) name
        simp only [round_of_notMem hpending hname, left, hpending, List.length_append,
          List.length_reverse, List.length_cons]
        omega

/-- The search at its end, when nothing is pending. -/
def finish (rules : List Rule) (s : Search) : Search :=
  if s.pending = [] then s else finish rules (s.round rules)
termination_by s.left rules
decreasing_by exact left_round_lt rules ‹_›

theorem pending_finish (rules : List Rule) (s : Search) : (s.finish rules).pending = [] := by
  fun_induction finish rules s with
  | case1 s hend => exact hend
  | case2 s hgo ih => exact ih

/-! ### The search is right -/

/-- A search has got to a name if it has visited it or will look at it. -/
def Knows (s : Search) (name : String) : Prop := name ∈ s.visited ∨ name ∈ s.pending

/-- The invariant of a search for the names that chains of rules lead to from `start`. -/
structure Explores (rules : List Rule) (start : String) (s : Search) : Prop where
  /-- Chains of rules lead to the names that are known. -/
  sound : ∀ name, s.Knows name → Program.Leads rules start name
  /-- The search knows where it starts. -/
  knows_start : s.Knows start
  /-- A rule that leaves a visited name enters a name that is known. -/
  closed : ∀ r ∈ rules, r.current.name ∈ s.visited → s.Knows r.next.name

theorem explores_beginning (rules : List Rule) (start : String) :
    (beginning start).Explores rules start where
  sound name h := by
    obtain rfl : name = start := by simpa [Knows, beginning] using h
    exact .refl
  knows_start := by simp [Knows, beginning]
  closed r _ h := by simp [beginning] at h

theorem mem_successors {visited : List String} {next : String} :
    next ∈ successors rules visited name ↔
      (∃ r ∈ rules, r.current.name = name ∧ r.next.name = next) ∧ next ∉ visited := by
  simp only [successors, List.mem_filter, List.mem_map, decide_eq_true_eq, and_assoc]

/-- A round in which nothing is visited makes nothing unknown. -/
theorem knows_round_of_mem {rest : List String} (hpending : s.pending = name :: rest)
    (hname : name ∈ s.visited) {other : String} :
    (s.round rules).Knows other ↔ s.Knows other := by
  rw [round_of_mem hpending hname, Knows, Knows, hpending, List.mem_cons]
  constructor
  · exact Or.imp_right Or.inr
  · rintro (hother | rfl | hother)
    · exact Or.inl hother
    · exact Or.inl hname
    · exact Or.inr hother

/-- After another round the search knows what it knew, and what the rules for the name that was
visited lead to. -/
theorem knows_round_of_notMem {rest : List String} (hpending : s.pending = name :: rest)
    (hname : name ∉ s.visited) {other : String} :
    (s.round rules).Knows other ↔
      s.Knows other ∨ ∃ r ∈ rules, r.current.name = name ∧ r.next.name = other := by
  simp only [round_of_notMem hpending hname, Knows, hpending, List.mem_append, List.mem_reverse,
    mem_successors, List.mem_cons]
  by_cases hother : other = name ∨ other ∈ s.visited
  · simp only [hother, true_or, true_iff]
    rcases hother with rfl | hother
    · exact Or.inl (Or.inr (Or.inl rfl))
    · exact Or.inl (Or.inl hother)
  · obtain ⟨hne, hother'⟩ := not_or.1 hother
    simp only [hne, hother', not_false_eq_true, and_true, false_or]
    exact or_comm

/-- **The invariant is kept round by round.** -/
theorem Explores.round (h : s.Explores rules start) : (s.round rules).Explores rules start := by
  cases hpending : s.pending with
  | nil =>
      rw [Search.round, hpending]
      exact h
  | cons name rest =>
      by_cases hname : name ∈ s.visited
      · have hknows := @knows_round_of_mem rules name s rest hpending hname
        refine ⟨fun other hother => h.sound other (hknows.1 hother), hknows.2 h.knows_start, ?_⟩
        intro r hr hvisited
        rw [round_of_mem hpending hname] at hvisited
        exact hknows.2 (h.closed r hr hvisited)
      · have hknows := @knows_round_of_notMem rules name s rest hpending hname
        refine ⟨?_, hknows.2 (Or.inl h.knows_start), ?_⟩
        · intro other hother
          rcases hknows.1 hother with hother | ⟨r, hr, rfl, rfl⟩
          · exact h.sound other hother
          · refine (h.sound _ (Or.inr ?_)).tail hr
            rw [hpending]
            exact List.mem_cons_self
        · intro r hr hvisited
          rw [round_of_notMem hpending hname] at hvisited
          rcases List.mem_cons.1 hvisited with hcurrent | hcurrent
          · exact hknows.2 (Or.inr ⟨r, hr, hcurrent, rfl⟩)
          · exact hknows.2 (Or.inl (h.closed r hr hcurrent))

theorem Explores.finish (h : s.Explores rules start) : (s.finish rules).Explores rules start := by
  fun_induction Search.finish rules s with
  | case1 s hend => exact h
  | case2 s hgo ih => exact ih h.round

/-- When nothing is pending the names to which chains of rules lead have been visited. -/
theorem Explores.mem_visited_iff (h : s.Explores rules start) (hend : s.pending = []) :
    name ∈ s.visited ↔ Program.Leads rules start name := by
  have hknows : ∀ other, s.Knows other ↔ other ∈ s.visited := by simp [Knows, hend]
  constructor
  · exact fun hname => h.sound name ((hknows name).2 hname)
  · intro hleads
    induction hleads with
    | refl => exact (hknows start).1 h.knows_start
    | tail _ hr ih => exact (hknows _).1 (h.closed _ hr ih)

/-- **The search visits the names that chains of rules lead to.** -/
theorem mem_visited_finish_iff :
    name ∈ ((beginning start).finish rules).visited ↔ Program.Leads rules start name :=
  (explores_beginning rules start).finish.mem_visited_iff (pending_finish rules _)

end Search

namespace Program

/-! ### Unreachable states -/

/-- The mentioned names that no chain of rules leads to from the start, in ascending order.  There
are none when it is not clear where to start. -/
def unreachableNames (p : Program) : List String :=
  match p.startState with
  | .error _ => []
  | .ok start =>
      let visited := ((Search.beginning start).finish p.rules).visited
      Distinct.ascending <| (p.states.map State.name).filter fun name => decide (name ∉ visited)

/-- **The unreachable names are those that are mentioned and that no chain of rules leads to from
the start.** -/
theorem mem_unreachableNames_iff {p : Program} {start : String} (hstart : p.startState = .ok start)
    {name : String} :
    name ∈ p.unreachableNames ↔ (∃ s ∈ p.mentions, s.name = name) ∧ ¬ Leads p.rules start name := by
  simp only [unreachableNames, hstart, Distinct.mem_ascending, List.mem_filter, decide_eq_true_eq,
    mem_map_name_states, Search.mem_visited_finish_iff]

/-- What is reported when a program is checked: the unreachable states of one that passes. -/
def checkEvents (p : Program) : List Event :=
  match p.check with
  | .error _ => []
  | .ok _ =>
      match p.unreachableNames with
      | [] => []
      | names => [.unreachable p.name names]

end Program

end TapeMachine
