/-
**The names and symbols that a machine comes to use.**

A machine takes its state from the rules, from the name it starts with or, where it is refused a
rule under the bounded policy, from the name that rejects; it takes its symbols from the tape it
begins with, from what rules write and from the blank.  A vocabulary that has all of these supports
the program (`Vocabulary.Supports`), and no step leads out of it.

What the check of a program is good for is that it gives such a vocabulary: under the bounded policy
the declared names and symbols support every program that passes, each clause by another of the
requirements.  Under the unbounded policy nothing is declared, and the vocabulary is read off the
rules and the tape.

Main definitions:

* `TapeMachine.Vocabulary` — names of states, and symbols;
* `TapeMachine.Vocabulary.Supports` — a vocabulary has what the machine of a program can come to
  use;
* `TapeMachine.Machine.Within` — a machine is in a state and on a tape of a vocabulary;
* `TapeMachine.Program.vocabulary` — the declared vocabulary, or the one read off a program.

Main results:

* `TapeMachine.Machine.Within.step` — no step leads out of a vocabulary that supports the program;
* `TapeMachine.Program.vocabulary_supports` — the vocabulary of a program that passes its check
  supports it;
* `TapeMachine.Machine.reached_vocabulary` — **every machine that can be reached is in a declared
  state and on a tape of declared symbols**.
-/

import TapeMachine.Catalogue
import TapeMachine.Proofs.Reachable
import TapeMachine.Proofs.Requirements

set_option relaxedAutoImplicit false
set_option autoImplicit false

namespace TapeMachine

/-! ### The symbols of a tape after a change -/

theorem Tape.mem_symbols_set {t : Tape} {i : Nat} {a c : Char} (h : c ∈ (t.set i a).symbols) :
    c ∈ t.symbols ∨ c = a :=
  List.mem_or_eq_of_mem_set h

/-- The ends of a tape are put in order with blanks. -/
theorem Profile.mem_symbols_settle {profile : Profile} {blank : Char} {t : Tape} {head : Int}
    {c : Char} (h : c ∈ (profile.settle blank t head).1.symbols) : c ∈ t.symbols ∨ c = blank := by
  cases profile with
  | bounded bounds => exact Or.inl h
  | unbounded =>
      rw [settle] at h
      split at h
      · exact (List.mem_append.1 h).imp_right List.mem_singleton.1
      · split at h
        · exact Or.inl h
        · exact Or.inl h

/-! ### Vocabularies -/

/-- Names of states, and symbols. -/
structure Vocabulary where
  /-- The name is one of them. -/
  name : String → Prop
  /-- The symbol is one of them. -/
  symbol : Char → Prop

/-- The vocabulary has every name and every symbol that the machine of the program can come to
use. -/
structure Vocabulary.Supports (v : Vocabulary) (p : Program) : Prop where
  start : ∀ start, p.startState = .ok start → v.name start
  next : ∀ r ∈ p.rules, v.name r.next.name
  reject : ∀ bounds, p.profile = .bounded bounds → v.name bounds.reject
  cells : ∀ c ∈ p.tape.symbols, v.symbol c
  write : ∀ r ∈ p.rules, v.symbol r.write
  blank : v.symbol p.blank

namespace Machine

/-- The machine is in a state and on a tape of the vocabulary. -/
structure Within (v : Vocabulary) (p : Program) (m : Machine) : Prop where
  program_eq : m.program = p
  state : v.name m.state
  cells : ∀ c ∈ m.tape.symbols, v.symbol c

variable {v : Vocabulary} {p : Program} {m : Machine}

theorem within_of_new (hv : v.Supports p) (hm : Machine.new p = .ok m) : Within v p m := by
  obtain ⟨-, start, hstart, rfl⟩ := new_eq_ok_iff.1 hm
  exact ⟨rfl, hv.start start hstart, hv.cells⟩

/-- A rule enters the state it names, writes its symbol and appends nothing but blanks. -/
theorem Within.apply (hv : v.Supports p) (h : Within v p m) {r : Rule} (hr : r ∈ p.rules) :
    Within v p (m.apply r) := by
  refine ⟨h.program_eq, hv.next r hr, ?_⟩
  intro c hc
  rcases Profile.mem_symbols_settle hc with hc | rfl
  · rcases Tape.mem_symbols_set hc with hc | rfl
    · exact h.cells c hc
    · exact hv.write r hr
  · rw [h.program_eq]
    exact hv.blank

/-- A machine that is refused a rule keeps its state, or takes the one that rejects. -/
theorem Within.rejected (hv : v.Supports p) (h : Within v p m) : Within v p m.rejected := by
  refine ⟨(program_rejected m).trans h.program_eq, ?_, by rw [tape_rejected]; exact h.cells⟩
  cases hp : m.program.profile with
  | unbounded =>
      rw [state_rejected_of_unbounded hp]
      exact h.state
  | bounded bounds =>
      rw [state_rejected_of_bounded hp]
      exact hv.reject bounds (by rw [← h.program_eq, hp])

/-- **No step leads out of a vocabulary that supports the program.** -/
theorem Within.step (hv : v.Supports p) (h : Within v p m) : Within v p m.step.2 := by
  rcases step_cases m with ⟨verdict, -, hstep⟩ | ⟨-, -, hstep⟩ | ⟨symbol, -, -, -, hstep⟩ |
    ⟨symbol, rule, -, -, hrule, -, hstep⟩
  · rw [hstep]
    exact h
  · rw [hstep]
    exact h
  · rw [hstep]
    exact h.rejected hv
  · rw [hstep]
    have hmem : rule ∈ m.program.rules := List.mem_of_find?_eq_some hrule
    rw [h.program_eq] at hmem
    exact h.apply hv hmem

/-- **Whatever is reached lies within.** -/
theorem Reaches.within (hv : v.Supports p) {past : List Machine} (h : Reaches p past m) :
    Within v p m := by
  exact Reaches.induction (P := fun _ m₁ => Within v p m₁) (fun _ hnew => within_of_new hv hnew)
    (fun _ _ ih => ih.step hv) h

end Machine

/-! ### The vocabulary of a program -/

namespace Program

/-- What a bounded program declares, and what the rules and the tape of an unbounded one mention. -/
def vocabulary (p : Program) : Vocabulary :=
  match p.profile with
  | .unbounded =>
      ⟨fun name => ∃ s ∈ p.mentions, s.name = name,
        fun c => c ∈ p.tape.symbols ∨ (∃ r ∈ p.rules, r.write = c) ∨ c = p.blank⟩
  | .bounded bounds =>
      ⟨fun name => name ∈ bounds.states, fun c => c ∈ bounds.alphabet ∨ c = p.blank⟩

variable {p : Program}

theorem next_mem_mentions {r : Rule} (hr : r ∈ p.rules) : r.next ∈ p.mentions :=
  mem_mentions.2 ⟨r, hr, Or.inr rfl⟩

theorem vocabulary_supports_of_unbounded (hp : p.profile = .unbounded) (hcheck : p.check = .ok ()) :
    p.vocabulary.Supports p := by
  have hmeets := check_eq_ok_iff_meets.1 hcheck
  simp only [vocabulary, hp]
  refine ⟨?_, ?_, by simp [hp], ?_, ?_, Or.inr (Or.inr rfl)⟩
  · intro start hstart
    obtain ⟨s, hs, hname, -⟩ := exists_flagged_of_startState (hmeets .flags) hp hstart
    exact ⟨s, hs, hname⟩
  · intro r hr
    exact ⟨r.next, next_mem_mentions hr, rfl⟩
  · intro c hc
    exact Or.inl hc
  · intro r hr
    exact Or.inr (Or.inl ⟨r, hr, rfl⟩)

/-- Each clause is one of the requirements: the start state is declared, and so are the states of
the rules, the state that rejects, the symbols of the tape and those of the rules. -/
theorem vocabulary_supports_of_bounded {bounds : Bounds} (hp : p.profile = .bounded bounds)
    (hcheck : p.check = .ok ()) : p.vocabulary.Supports p := by
  have hmeets := check_eq_ok_iff_meets.1 hcheck
  obtain ⟨hmentions, -, hreject⟩ := hmeets .states bounds hp
  have hsymbols := hmeets .symbols bounds hp
  simp only [vocabulary, hp]
  refine ⟨?_, ?_, ?_, ?_, ?_, Or.inr rfl⟩
  · intro start hstart
    obtain ⟨hdeclared, rfl⟩ := (startState_of_bounded hp).1 hstart
    exact hdeclared
  · intro r hr
    exact hmentions r.next (next_mem_mentions hr)
  · intro bounds' hp'
    obtain rfl := Profile.bounded.inj (hp.symm.trans hp')
    exact hreject
  · intro c hc
    exact hsymbols c (List.mem_append_left _ hc)
  · intro r hr
    have hwrite : r.write ∈ r.symbols := by simp [Rule.symbols]
    exact hsymbols r.write (List.mem_append_right _ (List.mem_flatMap.2 ⟨r, hr, hwrite⟩))

/-- **The vocabulary of a program that passes its check supports it.** -/
theorem vocabulary_supports (hcheck : p.check = .ok ()) : p.vocabulary.Supports p := by
  cases hp : p.profile with
  | unbounded => exact vocabulary_supports_of_unbounded hp hcheck
  | bounded bounds => exact vocabulary_supports_of_bounded hp hcheck

end Program

namespace Machine

/-- What is reached lies within the vocabulary of the program. -/
theorem Reaches.within_vocabulary {p : Program} {past : List Machine} {m : Machine}
    (h : Reaches p past m) : Within p.vocabulary p m := by
  exact h.within (Program.vocabulary_supports h.check_eq_ok)

/-- **The names and symbols of every machine that can be reached.**  Under the bounded policy its
state is declared and every cell of its tape holds a declared symbol or the blank; under the
unbounded policy its state is mentioned by the rules, and every cell holds a symbol of the tape it
began with, one that some rule writes, or the blank. -/
theorem reached_vocabulary {p : Program} {past : List Machine} {m : Machine}
    (h : Reaches p past m) :
    (∀ bounds, p.profile = .bounded bounds →
      m.state ∈ bounds.states ∧ ∀ c ∈ m.tape.symbols, c ∈ bounds.alphabet ∨ c = p.blank) ∧
    (p.profile = .unbounded →
      (∃ s ∈ p.mentions, s.name = m.state) ∧
        ∀ c ∈ m.tape.symbols,
          c ∈ p.tape.symbols ∨ (∃ r ∈ p.rules, r.write = c) ∨ c = p.blank) := by
  obtain ⟨-, hstate, hcells⟩ := h.within_vocabulary
  constructor
  · intro bounds hp
    simp only [Program.vocabulary, hp] at hstate hcells
    exact ⟨hstate, hcells⟩
  · intro hp
    simp only [Program.vocabulary, hp] at hstate hcells
    exact ⟨hstate, hcells⟩

/-- An odd number of ones is rejected in a state that no rule mentions and that is declared all the
same; inverting a one leaves a zero that a rule wrote and two blanks that were appended. -/
theorem reached_vocabulary_at_the_end :
    (∃ past m, Reaches (Catalogue.evenOnes.withInput "1") past m ∧ m.state = "reject" ∧
      m.state ∈ ["even", "odd", "accept", "reject"] ∧
      ∀ c ∈ m.tape.symbols, c ∈ ['0', '1'] ∨ c = '_') ∧
    ∃ past m, Reaches (Catalogue.invert.withInput "1") past m ∧ m.tape.text = "0__" ∧
      (∃ s ∈ (Catalogue.invert.withInput "1").mentions, s.name = m.state) ∧
      ∀ c ∈ m.tape.symbols, c ∈ ['1'] ∨
        (∃ r ∈ (Catalogue.invert.withInput "1").rules, r.write = c) ∨ c = '_' := by
  constructor
  · have hmade : Machine.new (Catalogue.evenOnes.withInput "1") =
        .ok (initial (Catalogue.evenOnes.withInput "1") "even") := rfl
    have hran : Reaches (Catalogue.evenOnes.withInput "1") _ _ :=
      .made hmade (.run (n := 2) .refl rfl)
    obtain ⟨hstate, hcells⟩ := (reached_vocabulary hran).1 _ rfl
    exact ⟨_, _, hran, rfl, hstate, hcells⟩
  · have hmade : Machine.new (Catalogue.invert.withInput "1") =
        .ok (initial (Catalogue.invert.withInput "1") "scan") := rfl
    have hran : Reaches (Catalogue.invert.withInput "1") _ _ :=
      .made hmade (.run (n := 3) .refl rfl)
    obtain ⟨hstate, hcells⟩ := (reached_vocabulary hran).2 rfl
    exact ⟨_, _, hran, rfl, hstate, hcells⟩

end Machine

end TapeMachine
