/-
**A machine in its place on the tape.**

To follow a machine through its input it is best seen with its tape parted at the head: some symbols
are to the left, and the others begin with the one under the head (`Machine.placed`).  A rule that
goes to the right takes the first of the others, and leaves what it writes to the left; if nothing
is left over then, a tape that grows has a blank there (`Profile.beyond`).  A rule that goes to the
left gives the last symbol of the left part back, if it has one.  So a row of rules is followed by
rewriting the two parts, and a run takes one round for each rule.

Main definitions:

* `TapeMachine.Machine.placed` — a machine in some state, with its tape parted at the head;
* `TapeMachine.Machine.verdictOf`, `TapeMachine.Machine.HasRule` — the verdict that goes with a
  state, and what the rule for a state and a symbol does;
* `TapeMachine.Profile.beyond` — what is found to the right of a cell;
* `TapeMachine.Profile.refusal` — the state in which a machine rejects for want of a rule.

Main results:

* `TapeMachine.Machine.apply_placed_right`, `TapeMachine.Machine.apply_placed_left`,
  `TapeMachine.Machine.apply_placed_first` — the two parts after a rule;
* `TapeMachine.Machine.runFor_placed_right`, `TapeMachine.Machine.runFor_placed_left`,
  `TapeMachine.Machine.runFor_placed_first` — **a run goes on with the two parts that a rule
  leaves**;
* `TapeMachine.Machine.ends_placed_of_verdict`, `TapeMachine.Machine.ends_placed_of_no_rule`,
  `TapeMachine.Machine.ends_placed_of_last` — **and it ends in a state with a verdict, and where
  there is no rule**.
-/

import TapeMachine.Proofs.StepCap

set_option relaxedAutoImplicit false
set_option autoImplicit false

namespace TapeMachine

/-! ### The ends of a parted tape -/

namespace Profile

/-- What is found to the right of a cell that has these symbols after it: if there are none, a tape
that grows has a blank there. -/
def beyond : Profile → Char → List Char → List Char
  | unbounded, blank, [] => [blank]
  | unbounded, _, c :: rest => c :: rest
  | bounded _, _, rest => rest

/-- The state in which a machine rejects for want of a rule. -/
def refusal : Profile → String → String
  | unbounded, state => state
  | bounded bounds, _ => bounds.reject

/-- One cell further to the right. -/
theorem settle_right (profile : Profile) (blank : Char) (left : List Char) (written : Char)
    (rest : List Char) :
    profile.settle blank ⟨left ++ written :: rest⟩ ((left.length : Int) + 1) =
      (⟨(left ++ [written]) ++ profile.beyond blank rest⟩, ((left ++ [written]).length : Int)) := by
  have hhead : ((left ++ [written]).length : Int) = (left.length : Int) + 1 := by simp
  rw [hhead]
  cases profile with
  | bounded bounds => simp [beyond]
  | unbounded =>
      cases rest with
      | nil =>
          have hend : ((left.length : Int) + 1) = (⟨left ++ [written]⟩ : Tape).length := by
            simp [Tape.length]
          rw [hend, settle_end]
          rfl
      | cons c rest =>
          have hlt : (left.length : Int) + 1 < (⟨left ++ written :: c :: rest⟩ : Tape).length := by
            simp only [Tape.length, List.length_append, List.length_cons]
            omega
          rw [settle_of_lt _ _ _ (by omega) hlt]
          simp [beyond]

/-- One cell back to the left, on a tape that grows. -/
theorem settle_left (blank : Char) (left : List Char) (last written : Char) (rest : List Char) :
    unbounded.settle blank ⟨(left ++ [last]) ++ written :: rest⟩
        (((left ++ [last]).length : Int) + -1) =
      (⟨left ++ last :: written :: rest⟩, (left.length : Int)) := by
  have hhead : ((left ++ [last]).length : Int) + -1 = left.length := by
    rw [List.length_append, List.length_singleton]
    omega
  have hlt : (left.length : Int) < (⟨(left ++ [last]) ++ written :: rest⟩ : Tape).length := by
    simp only [Tape.length, List.length_append, List.length_cons]
    omega
  rw [hhead, settle_of_lt _ _ _ (by omega) hlt]
  simp

end Profile

namespace Machine

/-! ### Parted tapes -/

/-- The machine in a state after so many transitions, with nothing remembered, the head on the first
cell of `right`, and `left` before it. -/
def placed (m : Machine) (state : String) (left right : List Char) (steps : Nat) : Machine :=
  { m with state := state, tape := ⟨left ++ right⟩, head := left.length, steps := steps,
           halt := none }

/-- The verdict that goes with a state. -/
def verdictOf (m : Machine) (state : String) : Option Halt :=
  match m.program.profile with
  | .unbounded => if state ∈ m.accepting then some .accept else none
  | .bounded bounds =>
      if state = bounds.accept then some .accept
      else if state = bounds.reject then some .reject
      else none

/-- A machine that is made is placed where its program says. -/
theorem initial_eq_placed {p : Program} {left right : List Char} (htape : p.tape = ⟨left ++ right⟩)
    (hhead : p.head = left.length) (start : String) :
    initial p start = (initial p start).placed start left right 0 := by
  simp only [initial, placed, htape, hhead]

/-- The first rule for a state and a symbol. -/
def ruleFor (m : Machine) (state : String) (symbol : Char) : Option Rule :=
  m.program.rules.find? fun r => r.appliesTo state symbol

/-- For a state and a symbol there is a rule, which writes `write` and goes to `next` in the given
direction. -/
def HasRule (m : Machine) (state : String) (symbol : Char) (next : String) (write : Char)
    (direction : Direction) : Prop :=
  ∃ r, m.ruleFor state symbol = some r ∧ r.next.name = next ∧ r.write = write ∧
    r.direction = direction

variable (m : Machine) {state : String} {left rest : List Char} {c : Char} {steps : Nat}

theorem mem_of_ruleFor {r : Rule} (h : m.ruleFor state c = some r) :
    r ∈ m.program.rules ∧ r.read = c := by
  have happlies := List.find?_some (p := fun r : Rule => r.appliesTo state c) h
  exact ⟨List.mem_of_find?_eq_some h, (Rule.appliesTo_iff.1 happlies).2⟩

/-- There is no rule for a symbol that no rule reads. -/
theorem ruleFor_eq_none (h : ∀ r ∈ m.program.rules, r.read ≠ c) : m.ruleFor state c = none := by
  cases hrule : m.ruleFor state c with
  | none => rfl
  | some r =>
      obtain ⟨hmem, hread⟩ := mem_of_ruleFor m hrule
      exact absurd hread (h r hmem)

@[simp] theorem symbol?_placed : (m.placed state left (c :: rest) steps).symbol? = some c := by
  rw [symbol?_of_nonneg (Int.natCast_nonneg left.length)]
  simp [placed, Tape.get?]

/-- What is written takes the place of the symbol under the head. -/
theorem set_placed (written : Char) :
    (m.placed state left (c :: rest) steps).tape.set
        (m.placed state left (c :: rest) steps).head.toNat written =
      ⟨left ++ written :: rest⟩ := by
  simp [placed, Tape.set]

/-- **A rule to the right** leaves to the left what it writes. -/
theorem apply_placed_right {r : Rule} (hdir : r.direction = .right) :
    (m.placed state left (c :: rest) steps).apply r =
      m.placed r.next.name (left ++ [r.write])
        (m.program.profile.beyond m.program.blank rest) (steps + 1) := by
  have hsettle := m.program.profile.settle_right m.program.blank left r.write rest
  simp only [apply, moved, set_placed, hdir, Direction.offset]
  simp only [placed, hsettle]

/-- **A rule to the left** gives back the last symbol of the left part. -/
theorem apply_placed_left (hp : m.program.profile = .unbounded) {last : Char} {r : Rule}
    (hdir : r.direction = .left) :
    (m.placed state (left ++ [last]) (c :: rest) steps).apply r =
      m.placed r.next.name left (last :: r.write :: rest) (steps + 1) := by
  have hsettle := Profile.settle_left m.program.blank left last r.write rest
  simp only [apply, moved, set_placed, hdir, Direction.offset]
  simp only [placed, hp, hsettle]

/-- **On the first cell** a rule to the left leaves the head where it is. -/
theorem apply_placed_first (hp : m.program.profile = .unbounded) {r : Rule}
    (hdir : r.direction = .left) :
    (m.placed state [] (c :: rest) steps).apply r =
      m.placed r.next.name [] (r.write :: rest) (steps + 1) := by
  have hsettle := Profile.settle_before m.program.blank ⟨r.write :: rest⟩
  simp only [apply, moved, set_placed, hdir, Direction.offset]
  simp only [placed, hp, List.length_nil, List.nil_append, Int.natCast_zero, Int.zero_add, hsettle]

/-! ### Runs -/

/-- A run takes one round for a rule. -/
theorem runFor_placed_of_rule (hcap : m.program.maxSteps = none) (hgoes : m.verdictOf state = none)
    {r : Rule} (hrule : m.ruleFor state c = some r) (n : Nat) :
    (m.placed state left (c :: rest) steps).runFor (n + 1) =
      ((m.placed state left (c :: rest) steps).apply r).runFor n := by
  have hnone : (m.placed state left (c :: rest) steps).exceeded? = none := by
    refine exceeded?_of_cap ?_
    intro limit hlimit
    exact nomatch hcap.symm.trans hlimit
  have hstep := step_of_transition (m := m.placed state left (c :: rest) steps) hgoes
    (symbol?_placed m) hrule
  rw [runFor_succ, round_of_continue hnone (by rw [hstep]), hstep, resume]

section Rules

variable (hcap : m.program.maxSteps = none) (hgoes : m.verdictOf state = none) {next : String}
  {write : Char}

include hcap hgoes

theorem runFor_placed_right (hrule : m.HasRule state c next write .right) (n : Nat) :
    (m.placed state left (c :: rest) steps).runFor (n + 1) =
      (m.placed next (left ++ [write]) (m.program.profile.beyond m.program.blank rest)
        (steps + 1)).runFor n := by
  obtain ⟨r, hrule, rfl, rfl, hdir⟩ := hrule
  rw [runFor_placed_of_rule m hcap hgoes hrule, apply_placed_right m hdir]

theorem runFor_placed_left (hp : m.program.profile = .unbounded)
    (hrule : m.HasRule state c next write .left) {last : Char} (n : Nat) :
    (m.placed state (left ++ [last]) (c :: rest) steps).runFor (n + 1) =
      (m.placed next left (last :: write :: rest) (steps + 1)).runFor n := by
  obtain ⟨r, hrule, rfl, rfl, hdir⟩ := hrule
  rw [runFor_placed_of_rule m hcap hgoes hrule, apply_placed_left m hp hdir]

theorem runFor_placed_first (hp : m.program.profile = .unbounded)
    (hrule : m.HasRule state c next write .left) (n : Nat) :
    (m.placed state [] (c :: rest) steps).runFor (n + 1) =
      (m.placed next [] (write :: rest) (steps + 1)).runFor n := by
  obtain ⟨r, hrule, rfl, rfl, hdir⟩ := hrule
  rw [runFor_placed_of_rule m hcap hgoes hrule, apply_placed_first m hp hdir]

end Rules

/-- What is run to begin with does not change how a run ends. -/
theorem Ends.of_runFor {m m' f : Machine} {result : Except Error Outcome} {k : Nat}
    (h : ∀ n, m.runFor (n + k) = m'.runFor n) (hends : m'.Ends result f) : m.Ends result f := by
  obtain ⟨n, hn⟩ := hends
  exact ⟨n + k, (h n).trans hn⟩

/-- **In a state with a verdict a run ends**, whatever is on the tape and wherever the head is. -/
theorem ends_placed_of_verdict {verdict : Halt} (h : m.verdictOf state = some verdict)
    {right : List Char} {shown : String}
    (hshown : m.program.profile.content ⟨left ++ right⟩ = shown) :
    (m.placed state left right steps).Ends (.ok ⟨verdict, state, shown, steps⟩)
      (m.placed state left right steps) := by
  have hhalted : (m.placed state left right steps).halted = some verdict := h
  refine ⟨1, ?_⟩
  rw [runFor_succ, round_of_halted hhalted, resume, ← hshown]
  rfl

/-- **Where there is no rule a run ends with a rejection.** -/
theorem ends_placed_of_no_rule (hgoes : m.verdictOf state = none)
    (hrule : m.ruleFor state c = none) {shown : String}
    (hshown : m.program.profile.content ⟨left ++ c :: rest⟩ = shown) :
    (m.placed state left (c :: rest) steps).Ends
      (.ok ⟨.reject, m.program.profile.refusal state, shown, steps⟩)
      (m.placed state left (c :: rest) steps).rejected := by
  have hround := round_of_no_transition (m := m.placed state left (c :: rest) steps) hgoes
    (symbol?_placed m) hrule
  refine ⟨1, ?_⟩
  rw [runFor_succ, hround, resume, ← hshown]
  cases hp : m.program.profile <;>
    simp [rejected, outcome, tapeContent, placed, hp, Profile.refusal]

/-- **A rule to the right into a state with a verdict is the last one.** -/
theorem ends_placed_of_last (hcap : m.program.maxSteps = none) (hgoes : m.verdictOf state = none)
    {next : String} {write : Char} (hrule : m.HasRule state c next write .right) {verdict : Halt}
    (hverdict : m.verdictOf next = some verdict) {shown : String}
    (hshown : m.program.profile.content
      ⟨left ++ write :: m.program.profile.beyond m.program.blank rest⟩ = shown) :
    ∃ f, (m.placed state left (c :: rest) steps).Ends (.ok ⟨verdict, next, shown, steps + 1⟩) f := by
  rw [← List.singleton_append, ← List.append_assoc] at hshown
  exact ⟨_, Ends.of_runFor (runFor_placed_right m hcap hgoes hrule)
    (ends_placed_of_verdict m hverdict hshown)⟩

end Machine

end TapeMachine
