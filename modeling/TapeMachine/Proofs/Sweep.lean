/-
**A sweep over the input.**

Many machines read their input once from left to right.  Such a machine has the rest of the input
ahead of its head, and behind the input there is a blank under either policy: a bounded tape has its
sentinel there, and an unbounded one grows as the head leaves it.  So the two policies need not be
told apart (`Machine.facing`), except that an unbounded tape without an input has no cell to begin
with.

While a machine of this kind stays among a few states, and has a rule to the right for each symbol
that it reads there, the run is a fold: the state comes from the symbols read, one after the other,
and to the left is what was written for them (`Machine.Sweeps.runFor_eq`).

Main definitions:

* `TapeMachine.Profile.remaining`, `TapeMachine.Profile.ahead` — what is left of the tape when so
  much of the input is, and what the head finds of it;
* `TapeMachine.Machine.facing` — a machine with so much of its input ahead;
* `TapeMachine.Machine.Sweeps` — in some states there is a rule to the right for some symbols.

Main results:

* `TapeMachine.Machine.initial_eq_facing` — a machine that is made faces its whole input;
* `TapeMachine.Machine.runFor_facing_right` — one symbol of the input is taken;
* `TapeMachine.Machine.Sweeps.runFor_eq` — **a sweep over a word is a fold over it**;
* `TapeMachine.Machine.Sweeps.ends_initial` — a machine that begins with a sweep ends as it does
  after it.
-/

import TapeMachine.Proofs.Placement

set_option relaxedAutoImplicit false
set_option autoImplicit false

namespace TapeMachine

/-! ### The input on the tape -/

namespace Profile

variable (profile : Profile) (blank : Char)

/-- What is on the tape before the input. -/
def behind : Profile → Char → List Char
  | unbounded, _ => []
  | bounded _, blank => [blank]

/-- What is left of the tape when so much of the input is left. -/
def remaining : Profile → Char → List Char → List Char
  | unbounded, _, input => input
  | bounded _, blank, input => input ++ [blank]

/-- What the head finds from where it is when so much of the input is left. -/
def ahead (input : List Char) : List Char := profile.beyond blank (profile.remaining blank input)

theorem symbols_tapeOf (input : String) :
    (profile.tapeOf blank input).symbols =
      profile.behind blank ++ profile.remaining blank input.toList := by
  cases profile <;> rfl

/-- After the input there is a blank. -/
@[simp] theorem ahead_nil : profile.ahead blank [] = [blank] := by
  cases profile <;> rfl

@[simp] theorem ahead_cons (c : Char) (input : List Char) :
    profile.ahead blank (c :: input) = c :: profile.remaining blank input := by
  cases profile <;> rfl

/-- Where there are cells nothing is put after them. -/
theorem beyond_of_ne_nil {rest : List Char} (h : rest ≠ []) : profile.beyond blank rest = rest := by
  cases profile with
  | bounded bounds => rfl
  | unbounded =>
      cases rest with
      | nil => exact absurd rfl h
      | cons c rest => rfl

end Profile

namespace Machine

variable (m : Machine)

/-- The machine in a state after so many transitions, with so much of the input ahead, and `left`
before it. -/
def facing (state : String) (left input : List Char) (steps : Nat) : Machine :=
  m.placed state left (m.program.profile.ahead m.program.blank input) steps

variable {m} {state : String} {left input : List Char} {c : Char} {steps : Nat}

theorem facing_nil : m.facing state left [] steps = m.placed state left [m.program.blank] steps := by
  rw [facing, Profile.ahead_nil]

theorem facing_cons :
    m.facing state left (c :: input) steps =
      m.placed state left (c :: m.program.profile.remaining m.program.blank input) steps := by
  rw [facing, Profile.ahead_cons]

/-- **A machine that is made faces its whole input**, if its head is where the input begins. -/
theorem initial_eq_facing {p : Program} {s : String}
    (hbehind : p.head = (p.profile.behind p.blank).length)
    (hcells : p.head < (p.profile.tapeOf p.blank s).length) (start : String) :
    initial (p.withInput s) start =
      (initial (p.withInput s) start).facing start (p.profile.behind p.blank) s.toList 0 := by
  have hsymbols := p.profile.symbols_tapeOf p.blank s
  have hleft : p.profile.remaining p.blank s.toList ≠ [] := by
    intro hnone
    rw [hbehind, Tape.length, hsymbols, hnone, List.append_nil] at hcells
    exact Nat.lt_irrefl _ hcells
  have hahead : p.profile.ahead p.blank s.toList = p.profile.remaining p.blank s.toList :=
    p.profile.beyond_of_ne_nil p.blank hleft
  refine initial_eq_placed (p := p.withInput s) ?_ hbehind start
  change p.profile.tapeOf p.blank s = ⟨p.profile.behind p.blank ++ p.profile.ahead p.blank s.toList⟩
  rw [hahead, ← hsymbols]

/-! ### Taking the input -/

/-- **One symbol of the input is taken** by a rule to the right. -/
theorem runFor_facing_right (hcap : m.program.maxSteps = none) (hgoes : m.verdictOf state = none)
    {next : String} {write : Char} (hrule : m.HasRule state c next write .right) (n : Nat) :
    (m.facing state left (c :: input) steps).runFor (n + 1) =
      (m.facing next (left ++ [write]) input (steps + 1)).runFor n := by
  rw [facing_cons, runFor_placed_right m hcap hgoes hrule]
  rfl

/-- In the states that `name` gives the machine goes on, and reads a symbol out of `word` with a
rule to the right, which writes `write` for it and goes to the state that `next` gives. -/
structure Sweeps {σ : Type} (m : Machine) (name : σ → String) (next : σ → Char → σ)
    (write : Char → Char) (word : List Char) : Prop where
  /-- No cap cuts the sweep off. -/
  cap : m.program.maxSteps = none
  /-- None of the states halts. -/
  goes : ∀ x, m.verdictOf (name x) = none
  /-- There is a rule for each symbol. -/
  rule : ∀ x, ∀ c ∈ word, m.HasRule (name x) c (name (next x c)) (write c) .right

/-- **A sweep over a word is a fold over it.** -/
theorem Sweeps.runFor_eq {σ : Type} {name : σ → String} {next : σ → Char → σ}
    {write : Char → Char} {word : List Char} (h : m.Sweeps name next write word) (x : σ)
    (n : Nat) :
    (m.facing (name x) left (word ++ input) steps).runFor (n + word.length) =
      (m.facing (name (word.foldl next x)) (left ++ word.map write) input
        (steps + word.length)).runFor n := by
  induction word generalizing x left steps with
  | nil =>
      rw [List.map_nil, List.append_nil]
      rfl
  | cons c word ih =>
      have hrule := h.rule x c List.mem_cons_self
      have hrest : m.Sweeps name next write word :=
        ⟨h.cap, h.goes, fun y d hd => h.rule y d (List.mem_cons_of_mem c hd)⟩
      rw [List.length_cons, ← Nat.add_assoc, List.cons_append,
        runFor_facing_right h.cap (h.goes x) hrule, ih hrest, List.foldl_cons, List.map_cons,
        List.append_assoc, List.singleton_append, Nat.add_assoc, Nat.add_comm 1 word.length]

/-- A machine ends as it does after the sweep. -/
theorem Sweeps.ends {σ : Type} {name : σ → String} {next : σ → Char → σ} {write : Char → Char}
    {word : List Char} (h : m.Sweeps name next write word) (x : σ) {f : Machine}
    {result : Except Error Outcome}
    (hends : (m.facing (name (word.foldl next x)) (left ++ word.map write) input
      (steps + word.length)).Ends result f) :
    (m.facing (name x) left (word ++ input) steps).Ends result f :=
  hends.of_runFor fun n => h.runFor_eq x n

/-- A machine that begins with a sweep over its input ends as it does after it. -/
theorem Sweeps.ends_initial {σ : Type} {name : σ → String} {next : σ → Char → σ}
    {write : Char → Char} {word rest : List Char} {p : Program} {s start : String}
    (h : (initial (p.withInput s) start).Sweeps name next write word)
    (hbehind : p.head = (p.profile.behind p.blank).length)
    (hcells : p.head < (p.profile.tapeOf p.blank s).length) (hsplit : word ++ rest = s.toList)
    {x : σ} (hstart : name x = start) {f : Machine} {result : Except Error Outcome}
    (hends : ((initial (p.withInput s) start).facing (name (word.foldl next x))
      (p.profile.behind p.blank ++ word.map write) rest word.length).Ends result f) :
    (initial (p.withInput s) start).Ends result f := by
  subst hstart
  rw [initial_eq_facing hbehind hcells, ← hsplit]
  refine h.ends x ?_
  rw [Nat.zero_add]
  exact hends

end Machine

end TapeMachine
