/-
**The offenders that a failed check names.**

A program that does not pass is told what is wrong and by whom: which names carry contradictory
flags, which ones are to be started in, which states and symbols were never declared, where the head
stands.  Each of these lists is made in its own way, and what they have in common is said here
(`TapeMachine.Program.NamesOffenders`): whoever is named is an offender, every offender is named, and
once.  The order does not depend on how the list was made either.  It is the order of the alphabet,
but for the names to start in, which stand in the order in which the rules mention them.

The lists are exact for programs that do not pass as well as for those that do, with one exception.
The search for names to start in looks at the first mention of each name only.  It is used after the
flags have been found to agree, and then the first mention tells for all of them.

Main definitions:

* `TapeMachine.Program.firstMention` — where the rules mention a name first;
* `TapeMachine.Program.NamesOffenders` — what an error says is the truth about the program.

Main results:

* `TapeMachine.Program.mem_undeclaredNames_iff`, `TapeMachine.Program.mem_foreignSymbols_iff` — who
  is named besides those whose mentions differ (`TapeMachine.Program.mem_conflictingNames_iff`);
* `TapeMachine.Program.pairwise_startNames` — the names to start in come in the order of the rules;
* `TapeMachine.Program.offenders_named` — **a failed check names exactly the offenders**.
-/

import Mathlib.Data.List.Basic
import TapeMachine.Proofs.Requirements

set_option relaxedAutoImplicit false
set_option autoImplicit false

namespace TapeMachine

namespace Program

variable {p : Program}

/-! ### Names to start in -/

/-- How many mentions of states the rules make before they mention the name. -/
def firstMention (p : Program) (name : String) : Nat := (p.mentions.map State.name).idxOf name

/-- **The names to start in come in the order of the rules.** -/
theorem pairwise_startNames (p : Program) :
    p.startNames.Pairwise fun a b => p.firstMention a < p.firstMention b :=
  List.pairwise_map.2 ((Distinct.pairwise_idxOf_firstBy State.name p.mentions).filter _)

theorem mem_strayStartNames_iff {bounds : Bounds} (hp : p.profile = .bounded bounds)
    {name : String} :
    name ∈ p.strayStartNames ↔ name ∈ p.startNames ∧ name ≠ bounds.start := by
  simp only [strayStartNames, hp, List.mem_filter, decide_eq_true_eq]

theorem sublist_strayStartNames (p : Program) : p.strayStartNames.Sublist p.startNames := by
  cases hp : p.profile with
  | unbounded => simp only [strayStartNames, hp, List.nil_sublist]
  | bounded bounds => simp only [strayStartNames, hp, List.filter_sublist]

/-! ### States and symbols that were not declared -/

section Bounded

variable {bounds : Bounds} (hp : p.profile = .bounded bounds)

include hp

theorem mem_undeclaredNames_iff {name : String} :
    name ∈ p.undeclaredNames ↔
      ((∃ s ∈ p.mentions, s.name = name) ∨ name = bounds.accept ∨ name = bounds.reject) ∧
        name ∉ bounds.states := by
  simp only [undeclaredNames, hp, Distinct.mem_ascending, List.mem_filter, List.mem_append,
    List.mem_map, List.mem_cons, List.not_mem_nil, or_false, decide_eq_true_eq]

theorem mem_foreignSymbols_iff {c : Char} :
    c ∈ p.foreignSymbols ↔
      (c ∈ p.tape.symbols ∨ ∃ r ∈ p.rules, c = r.read ∨ c = r.write) ∧
        c ∉ bounds.alphabet ∧ c ≠ p.blank := by
  simp only [foreignSymbols, hp, Distinct.mem_ascending, List.mem_filter, List.mem_append,
    List.mem_flatMap, Rule.symbols, List.mem_cons, List.not_mem_nil, or_false, Bool.and_eq_true,
    decide_eq_true_eq]

end Bounded

theorem pairwise_undeclaredNames (p : Program) : p.undeclaredNames.Pairwise (· < ·) := by
  cases hp : p.profile with
  | unbounded => simp only [undeclaredNames, hp, List.Pairwise.nil]
  | bounded bounds =>
      simp only [undeclaredNames, hp]
      exact Distinct.pairwise_ascending _

theorem pairwise_foreignSymbols (p : Program) : p.foreignSymbols.Pairwise (· < ·) := by
  cases hp : p.profile with
  | unbounded => simp only [foreignSymbols, hp, List.Pairwise.nil]
  | bounded bounds =>
      simp only [foreignSymbols, hp]
      exact Distinct.pairwise_ascending _

/-- Only a program that declares something can fail to meet what is asked of declarations. -/
theorem exists_bounds_of_not_meets {r : Requirement} (hr : r = .states ∨ r = .symbols)
    (h : ¬ p.Meets r) : ∃ bounds, p.profile = .bounded bounds := by
  cases hp : p.profile with
  | bounded bounds => exact ⟨bounds, rfl⟩
  | unbounded =>
      refine absurd ?_ h
      rcases hr with rfl | rfl <;> simp [Meets, hp]

/-! ### What a failed check names -/

/-- A requirement that stands before another in the order stands before it wherever the order is
cut. -/
theorem Requirement.mem_of_idxOf_lt {earlier later : List Requirement} {q r : Requirement}
    (hsplit : order = earlier ++ r :: later) (hlt : order.idxOf q < order.idxOf r) :
    q ∈ earlier := by
  by_contra hq
  have hq' : earlier.length ≤ order.idxOf q := by
    rw [hsplit, List.idxOf_append_of_notMem hq]
    exact Nat.le_add_right _ _
  have hr : order.idxOf r ≤ earlier.length := by
    rw [hsplit]
    by_cases hr : r ∈ earlier
    · rw [List.idxOf_append_of_mem hr]
      exact List.idxOf_le_length
    · refine Nat.le_of_eq ?_
      rw [List.idxOf_append_of_notMem hr, List.idxOf_cons_self, Nat.add_zero]
  omega

/-- What the error says is the truth about the program: those whom it names, and its message shows,
are the offenders, all of them and once each. -/
def NamesOffenders (p : Program) (e : Error) : Prop :=
  match e with
  | .invalid (.conflictingFlags names) =>
      e.message = "Program validation error: States declared with conflicting flags: " ++
          Text.quotedNames names ∧
        names.Pairwise (· < ·) ∧
        ∀ name, name ∈ names ↔
          ∃ s ∈ p.mentions, ∃ t ∈ p.mentions, s.name = name ∧ t.name = name ∧ s.flags ≠ t.flags
  | .multipleStartStates names =>
      e.message = "Multiple start states defined: " ++ Text.quotedNames names ∧
        names.Nodup ∧ names.Pairwise (fun a b => p.firstMention a < p.firstMention b) ∧
        ∀ name, name ∈ names ↔
          (∃ s ∈ p.mentions, s.name = name ∧ s.isStart = true) ∧
            ∀ bounds, p.profile = .bounded bounds → name ≠ bounds.start
  | .invalid (.undeclaredStates names) =>
      e.message = "Program validation error: Rules reference undeclared states: " ++
          Text.quotedNames names ∧
        names.Pairwise (· < ·) ∧
        ∃ bounds, p.profile = .bounded bounds ∧ ∀ name, name ∈ names ↔
          ((∃ s ∈ p.mentions, s.name = name) ∨ name = bounds.accept ∨ name = bounds.reject) ∧
            name ∉ bounds.states
  | .invalid (.foreignSymbols symbols) =>
      e.message = "Program validation error: Symbols outside the alphabet: " ++
          Text.quotedSymbols symbols ∧
        symbols.Pairwise (· < ·) ∧
        ∃ bounds, p.profile = .bounded bounds ∧ ∀ c, c ∈ symbols ↔
          (c ∈ p.tape.symbols ∨ ∃ r ∈ p.rules, c = r.read ∨ c = r.write) ∧
            c ∉ bounds.alphabet ∧ c ≠ p.blank
  | .invalid (.headPosition position) =>
      e.message = "Program validation error: Invalid head position: " ++ toString position ∧
        position = p.head
  | _ => True

/-- **A failed check names exactly the offenders.** -/
theorem offenders_named {e : Error} (h : p.check = .error e) : p.NamesOffenders e := by
  obtain ⟨earlier, r, later, hsplit, hearlier, hnot, hreports⟩ := (check_decides p).eq_error_iff.1 h
  cases hreports with
  | cells | verdicts _ | start | rules => trivial
  | head => exact ⟨rfl, rfl⟩
  | flags => exact ⟨rfl, Distinct.pairwise_ascending _, fun name => mem_conflictingNames_iff⟩
  | severalStarts hp =>
      have hflags := hearlier .flags (Requirement.mem_of_idxOf_lt hsplit (by decide))
      refine ⟨rfl, nodup_startNames p, pairwise_startNames p, ?_⟩
      intro name
      simp [mem_startNames_of_meets hflags, hp]
  | strayStarts hp =>
      have hflags := hearlier .flags (Requirement.mem_of_idxOf_lt hsplit (by decide))
      have hsub := sublist_strayStartNames p
      refine ⟨rfl, (nodup_startNames p).sublist hsub, (pairwise_startNames p).sublist hsub, ?_⟩
      intro name
      simp [mem_strayStartNames_iff hp, mem_startNames_of_meets hflags, hp]
  | states =>
      obtain ⟨bounds, hp⟩ := exists_bounds_of_not_meets (Or.inl rfl) hnot
      exact ⟨rfl, pairwise_undeclaredNames p, bounds, hp, fun name => mem_undeclaredNames_iff hp⟩
  | symbols =>
      obtain ⟨bounds, hp⟩ := exists_bounds_of_not_meets (Or.inr rfl) hnot
      exact ⟨rfl, pairwise_foreignSymbols p, bounds, hp, fun c => mem_foreignSymbols_iff hp⟩

/-- A program with the given rules and head position, and with little else. -/
def sketch (profile : Profile) (rules : List Rule) (head : Nat) : Program :=
  ⟨"sketch", profile, rules, Tape.ofString "0~0", head, '_', none⟩

/-- A policy that declares the given states and one symbol. -/
def declaring (states : List String) : Profile := .bounded ⟨states, ['0'], "q", "yes", "no"⟩

/-- Two names carry contradictory flags. -/
def contradictory : Program :=
  sketch .unbounded
    [⟨State.start "z", '0', State.accepting "b", '0', .right⟩,
      ⟨State.ordinary "b", '1', State.ordinary "z", '0', .right⟩,
      ⟨State.start "b", '2', State.ordinary "m", '0', .right⟩] 0

/-- Two names are to be started in, and neither is the one that `declaring` gives. -/
def undecided (profile : Profile) : Program :=
  sketch profile
    [⟨State.ordinary "m", '0', State.start "z", '0', .right⟩,
      ⟨State.start "b", '0', State.start "z", '0', .right⟩] 0

/-- States and symbols are used that `declaring` does not give. -/
def strange (states : List String) : Program :=
  sketch (declaring states)
    [⟨State.start "q", '0', State.ordinary "z", 'b', .right⟩,
      ⟨State.ordinary "z", 'b', State.ordinary "m", 'a', .right⟩,
      ⟨State.ordinary "m", '_', State.ordinary "z", '~', .right⟩] 0

/-- The reasons one by one.  The names come in the order of the alphabet, but for those to start in,
and each comes once however often it offends. -/
theorem offenders_named_for_each_reason :
    (contradictory.check = .error (.invalid (.conflictingFlags ["b", "z"])) ∧
      contradictory.NamesOffenders (.invalid (.conflictingFlags ["b", "z"]))) ∧
    ((undecided .unbounded).check = .error (.multipleStartStates ["z", "b"]) ∧
      (undecided .unbounded).NamesOffenders (.multipleStartStates ["z", "b"])) ∧
    ((undecided (declaring ["q"])).check = .error (.multipleStartStates ["z", "b"]) ∧
      (undecided (declaring ["q"])).NamesOffenders (.multipleStartStates ["z", "b"])) ∧
    ((strange ["q", "yes"]).check = .error (.invalid (.undeclaredStates ["m", "no", "z"])) ∧
      (strange ["q", "yes"]).NamesOffenders (.invalid (.undeclaredStates ["m", "no", "z"]))) ∧
    ((strange ["q", "yes", "no", "m", "z"]).check =
        .error (.invalid (.foreignSymbols ['a', 'b', '~'])) ∧
      (strange ["q", "yes", "no", "m", "z"]).NamesOffenders
        (.invalid (.foreignSymbols ['a', 'b', '~']))) ∧
    ((sketch .unbounded [] 3).check = .error (.invalid (.headPosition 3)) ∧
      (sketch .unbounded [] 3).NamesOffenders (.invalid (.headPosition 3))) := by
  have hflags : contradictory.check = .error (.invalid (.conflictingFlags ["b", "z"])) := by
    decide +kernel
  have hstarts : (undecided .unbounded).check = .error (.multipleStartStates ["z", "b"]) := rfl
  have hstray : (undecided (declaring ["q"])).check = .error (.multipleStartStates ["z", "b"]) :=
    rfl
  have hstates : (strange ["q", "yes"]).check =
      .error (.invalid (.undeclaredStates ["m", "no", "z"])) := by decide +kernel
  have hsymbols : (strange ["q", "yes", "no", "m", "z"]).check =
      .error (.invalid (.foreignSymbols ['a', 'b', '~'])) := by decide +kernel
  have hhead : (sketch .unbounded [] 3).check = .error (.invalid (.headPosition 3)) := rfl
  exact ⟨⟨hflags, offenders_named hflags⟩, ⟨hstarts, offenders_named hstarts⟩,
    ⟨hstray, offenders_named hstray⟩, ⟨hstates, offenders_named hstates⟩,
    ⟨hsymbols, offenders_named hsymbols⟩, ⟨hhead, offenders_named hhead⟩⟩

end Program

end TapeMachine
