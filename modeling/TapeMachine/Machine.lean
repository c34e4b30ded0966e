/-
**Machines.**

A machine is a program at work.  In each step it looks at its state and at the symbol under its
head and finds itself in one of four positions (`Action`): it has halted; its head has left the
tape; no rule applies, which rejects; or a rule applies and is carried out.  Carrying out a rule
writes, moves and changes the state, and then the policy of the program puts the ends of the tape
in order: an unbounded tape grows by one blank where the head has left it on the right, and the
head goes back to the first cell where it has left it on the left.

Main definitions:

* `TapeMachine.Machine` — a program with a state, a tape, a head position and a count of steps;
* `TapeMachine.Machine.new` — the machine for a program that passes its check;
* `TapeMachine.Machine.symbol?`, `TapeMachine.Machine.cell` — the symbol under the head, and the
  cell it is in;
* `TapeMachine.Machine.action`, `TapeMachine.Machine.step` — the position of a machine, and one
  step, which reads a cell, looks for a rule and writes the cell;
* `TapeMachine.Machine.stepEvents`, `TapeMachine.Machine.newEvents` — what is reported meanwhile.

Main results:

* `TapeMachine.Machine.new_eq_ok_iff` — when a machine is made;
* `TapeMachine.Machine.action_cases` — each of the four positions in terms of verdict, symbol and
  rule;
* `TapeMachine.Machine.step_eq` — what a step comes to in each position;
* `TapeMachine.Machine.withIndex_outOfRange` — a failure of the tape is handed on as it is.
-/

import TapeMachine.Program.Reachability

set_option relaxedAutoImplicit false
set_option autoImplicit false

namespace TapeMachine

/-- A program at work. -/
structure Machine where
  /-- The program. -/
  program : Program
  /-- The name of the state in which the machine started. -/
  start : String
  /-- The names of the states that accept by their flag. -/
  accepting : List String
  /-- The name of the present state. -/
  state : String
  /-- The present tape. -/
  tape : Tape
  /-- The position of the head; the first cell has position zero. -/
  head : Int
  /-- The number of rules applied. -/
  steps : Nat
  /-- The verdict, once a step has given one for want of a rule. -/
  halt : Option Halt
  deriving DecidableEq, Repr

/-- The position in which a machine is before a step. -/
inductive Action where
  /-- The machine has halted. -/
  | rest (verdict : Halt)
  /-- The head is not on the tape. -/
  | offTape
  /-- The head is on `symbol`, for which there is no rule. -/
  | refuse (symbol : Char)
  /-- The head is on `symbol`, for which `rule` is to be applied. -/
  | apply (symbol : Char) (rule : Rule)
  deriving DecidableEq, Repr

namespace Machine

/-! ### Making a machine -/

/-- The machine for a program, in the state called `start`. -/
def initial (p : Program) (start : String) : Machine where
  program := p
  start := start
  accepting := (p.states.filter State.isAccepting).map State.name
  state := start
  tape := p.tape
  head := p.head
  steps := 0
  halt := none

/-- The machine for a program, if the program passes its check. -/
def new (p : Program) : Except Error Machine := do
  p.check
  let start ← p.startState
  return initial p start

/-- The machine as it was made. -/
def reset (m : Machine) : Machine :=
  { m with state := m.start, tape := m.program.tape, head := m.program.head, steps := 0,
           halt := none }

/-! ### Looking at a machine -/

/-- The verdict, if the machine has halted: one given for want of a rule, or one that goes with
the state. -/
def halted (m : Machine) : Option Halt :=
  match m.halt with
  | some verdict => some verdict
  | none =>
      match m.program.profile with
      | .unbounded => if m.state ∈ m.accepting then some .accept else none
      | .bounded bounds =>
          if m.state = bounds.accept then some .accept
          else if m.state = bounds.reject then some .reject
          else none

/-- Whether the machine has halted. -/
def isHalted (m : Machine) : Bool := m.halted.isSome

/-- The symbol under the head, if the head is on the tape. -/
def symbol? (m : Machine) : Option Char :=
  m.head.toNat?.bind fun cell => (m.tape.read cell).toOption

/-- The first rule for the present state and the given symbol. -/
def transition (m : Machine) (symbol : Char) : Option Rule :=
  m.program.rules.find? fun r => r.appliesTo m.state symbol

/-- Whether the next step applies a rule. -/
def hasTransition (m : Machine) : Bool :=
  m.halted.isNone && m.symbol?.any fun symbol => (m.transition symbol).isSome

/-- What is shown of the tape. -/
def tapeContent (m : Machine) : String := m.program.profile.content m.tape

/-- What a run that ends here with the given verdict leaves to see. -/
def outcome (m : Machine) (verdict : Halt) : Outcome := ⟨verdict, m.state, m.tapeContent, m.steps⟩

/-! ### One step -/

/-- The position in which the machine is. -/
def action (m : Machine) : Action :=
  match m.halted with
  | some verdict => .rest verdict
  | none =>
      match m.symbol? with
      | none => .offTape
      | some symbol =>
          match m.transition symbol with
          | none => .refuse symbol
          | some rule => .apply symbol rule

/-- The machine after it has rejected for want of a rule. -/
def rejected (m : Machine) : Machine :=
  match m.program.profile with
  | .unbounded => { m with halt := some .reject }
  | .bounded bounds => { m with state := bounds.reject, halt := some .reject }

/-- The machine after a rule, given the tape on which the rule has written. -/
def moved (m : Machine) (written : Tape) (r : Rule) : Machine :=
  let settled := m.program.profile.settle m.program.blank written (m.head + r.direction.offset)
  { m with state := r.next.name, tape := settled.1, head := settled.2, steps := m.steps + 1 }

/-- The machine after it has carried out a rule. -/
def apply (m : Machine) (r : Rule) : Machine := m.moved (m.tape.set m.head.toNat r.write) r

/-- The cell under the head, unless the head is before the first one. -/
def cell (m : Machine) : Except Error Nat :=
  match m.head.toNat? with
  | some cell => .ok cell
  | none => .error (.indexOutOfRange m.head m.tape.length)

/-- One step: what it comes to, and the machine afterwards.  A failure of the tape is handed on
with the head for its index; see `withIndex_outOfRange`. -/
def step (m : Machine) : Except Error Step × Machine :=
  match m.halted with
  | some verdict => (.ok (.halt verdict), m)
  | none =>
      match m.cell with
      | .error e => (.error e, m)
      | .ok cell =>
          match m.tape.read cell with
          | .error e => (.error (e.withIndex m.head), m)
          | .ok symbol =>
              match m.transition symbol with
              | none => (.ok (.halt .reject), m.rejected)
              | some rule =>
                  match m.tape.write cell rule.write with
                  | .error e => (.error (e.withIndex m.head), m)
                  | .ok written => (.ok .continue, m.moved written rule)

/-- Up to `n` steps, until one does not continue: what the last of them comes to, if there was
one, and the machine afterwards. -/
def stepFor : Nat → Machine → Option (Except Error Step) × Machine
  | 0, m => (none, m)
  | n + 1, m =>
      match m.step with
      | (.ok .continue, m') =>
          match n with
          | 0 => (some (.ok .continue), m')
          | k + 1 => stepFor (k + 1) m'
      | (result, m') => (some result, m')

/-! ### Reports -/

/-- What is reported in one step. -/
def stepEvents (m : Machine) : List Event :=
  match m.action with
  | .rest _ | .offTape => []
  | .refuse symbol => [.noRule m.state symbol m.head]
  | .apply symbol rule =>
      let m' := m.apply rule
      [.transition m'.steps symbol rule.write rule.direction m'.state m'.head]

/-- What is reported in up to `n` steps. -/
def stepForEvents : Nat → Machine → List Event
  | 0, _ => []
  | n + 1, m =>
      m.stepEvents ++
        match m.step with
        | (.ok .continue, m') => stepForEvents n m'
        | _ => []

/-- What is reported when a machine is made. -/
def newEvents (p : Program) : List Event :=
  match Machine.new p with
  | .error _ => p.checkEvents
  | .ok m =>
      p.checkEvents ++ [.constructed p.name m.start p.rules.length p.tape.text]

/-! ### Making and resetting -/

/-- **A machine is made exactly when the program passes its check and says where to start.** -/
theorem new_eq_ok_iff {p : Program} {m : Machine} :
    Machine.new p = .ok m ↔
      p.check = .ok () ∧ ∃ start, p.startState = .ok start ∧ m = initial p start := by
  rw [new]
  cases hcheck : p.check with
  | error e => exact ⟨fun h => (nomatch h), fun h => (nomatch h.1)⟩
  | ok u =>
      cases hstart : p.startState with
      | error e =>
          refine ⟨fun h => (nomatch h), fun h => ?_⟩
          obtain ⟨_, _, hstate, _⟩ := h
          exact nomatch hstate
      | ok start =>
          constructor
          · intro h
            exact ⟨rfl, start, rfl, (Except.ok.inj h).symm⟩
          · rintro ⟨_, start', hstate, rfl⟩
            rw [Except.ok.inj hstate]
            rfl

/-! ### The cell under the head -/

theorem cell_of_neg {m : Machine} (h : m.head < 0) :
    m.cell = .error (.indexOutOfRange m.head m.tape.length) := by
  obtain ⟨n, hn⟩ := Int.eq_negSucc_of_lt_zero h
  rw [cell, hn]
  rfl

theorem cell_of_nonneg {m : Machine} (h : 0 ≤ m.head) : m.cell = .ok m.head.toNat := by
  obtain ⟨n, hn⟩ := Int.eq_ofNat_of_zero_le h
  rw [cell, hn]
  rfl

/-- The symbol under the head is looked up in the cell under the head. -/
theorem symbol?_eq_bind_cell (m : Machine) :
    m.symbol? = m.cell.toOption.bind m.tape.get? := by
  rw [symbol?, cell]
  cases m.head.toNat? with
  | none => rfl
  | some i => exact m.tape.toOption_read i

theorem symbol?_of_neg {m : Machine} (h : m.head < 0) : m.symbol? = none := by
  rw [symbol?_eq_bind_cell, cell_of_neg h]
  rfl

theorem symbol?_of_nonneg {m : Machine} (h : 0 ≤ m.head) :
    m.symbol? = m.tape.get? m.head.toNat := by
  rw [symbol?_eq_bind_cell, cell_of_nonneg h]
  rfl

/-- **A failure of the tape under a head of sixty-four signed bits names the head already**, so
that handing it on does not change it. -/
theorem withIndex_outOfRange {m : Machine} {i : Nat} (hcell : m.cell = .ok i)
    (hhead : 2 * m.head < Text.countBound) :
    (m.tape.outOfRange i).withIndex m.head = m.tape.outOfRange i := by
  have h0 : 0 ≤ m.head := Int.not_lt.1 fun hneg => by
    rw [cell_of_neg hneg] at hcell
    exact nomatch hcell
  rw [cell_of_nonneg h0, Except.ok.injEq] at hcell
  rw [Tape.outOfRange_of_lt (by omega), Error.withIndex, ← hcell, Int.toNat_of_nonneg h0]

/-! ### The four positions -/

/-- Each position in terms of verdict, symbol and rule. -/
theorem action_cases (m : Machine) :
    (∃ verdict, m.halted = some verdict ∧ m.action = .rest verdict) ∨
      (m.halted = none ∧ m.symbol? = none ∧ m.action = .offTape) ∨
      (∃ symbol, m.halted = none ∧ m.symbol? = some symbol ∧ m.transition symbol = none ∧
        m.action = .refuse symbol) ∨
      ∃ symbol rule, m.halted = none ∧ m.symbol? = some symbol ∧
        m.transition symbol = some rule ∧ m.action = .apply symbol rule := by
  rw [action]
  cases hhalted : m.halted with
  | some verdict => exact Or.inl ⟨verdict, rfl, rfl⟩
  | none =>
      cases hsymbol : m.symbol? with
      | none => exact Or.inr (Or.inl ⟨rfl, rfl, rfl⟩)
      | some symbol =>
          cases hrule : m.transition symbol with
          | none => exact Or.inr (Or.inr (Or.inl ⟨symbol, rfl, rfl, hrule, by simp [hrule]⟩))
          | some rule =>
              exact Or.inr (Or.inr (Or.inr ⟨symbol, rule, rfl, rfl, hrule, by simp [hrule]⟩))

/-- **What a step comes to in each position.** -/
theorem step_eq (m : Machine) :
    m.step =
      match m.action with
      | .rest verdict => (.ok (.halt verdict), m)
      | .offTape => (.error (.indexOutOfRange m.head m.tape.length), m)
      | .refuse _ => (.ok (.halt .reject), m.rejected)
      | .apply _ rule => (.ok .continue, m.apply rule) := by
  rw [step, action]
  cases m.halted with
  | some verdict => rfl
  | none =>
      rcases Int.lt_or_le m.head 0 with hneg | h0
      · simp only [cell_of_neg hneg, symbol?_of_neg hneg]
      · simp only [cell_of_nonneg h0, symbol?_of_nonneg h0]
        rcases Nat.lt_or_ge m.head.toNat m.tape.length with hlt | hle
        · obtain ⟨symbol, hsymbol⟩ := Tape.exists_get?_of_lt hlt
          simp only [Tape.read_eq_ok_iff.2 hsymbol, hsymbol]
          -- the cell that was read is there to be written
          cases m.transition symbol with
          | none => rfl
          | some rule => simp only [Tape.write_of_lt _ hlt, apply]
        · simp only [Tape.read_of_le hle, Tape.get?_eq_none_iff.2 hle, Tape.outOfRange,
            Error.withIndex]

theorem step_of_rest {m : Machine} {verdict : Halt} (h : m.action = .rest verdict) :
    m.step = (.ok (.halt verdict), m) := by
  rw [step_eq, h]

theorem step_of_offTape {m : Machine} (h : m.action = .offTape) :
    m.step = (.error (.indexOutOfRange m.head m.tape.length), m) := by
  rw [step_eq, h]

theorem step_of_refuse {m : Machine} {symbol : Char} (h : m.action = .refuse symbol) :
    m.step = (.ok (.halt .reject), m.rejected) := by
  rw [step_eq, h]

theorem step_of_apply {m : Machine} {symbol : Char} {rule : Rule}
    (h : m.action = .apply symbol rule) : m.step = (.ok .continue, m.apply rule) := by
  rw [step_eq, h]

end Machine

end TapeMachine
