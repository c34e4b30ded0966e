/-
**What a step does to a machine.**

A step leaves alone what the machine was made from: its program, the name of its first state and
the names that accept.  The rest is said by the position of the machine.  A machine at rest or off
its tape does not change at all; one without a rule is marked as rejecting, and nothing of its
tape, head or count moves; one with a rule writes, moves and counts, and then the policy settles
the ends of the tape.  On a tape that grows, with the head on the tape, there are four ways to
move: past the right end, to the right within the tape, against the left end, and to the left
within the tape.

Main results:

* `TapeMachine.Machine.step_cases` — the four things a step can be;
* `TapeMachine.Machine.step_continue_iff`, `TapeMachine.Machine.hasTransition_iff` — when a step
  goes on, and that looking ahead tells;
* `TapeMachine.Machine.exists_step_error_iff`, `TapeMachine.Machine.step_of_error` — when a step
  fails, and that it changes nothing then;
* `TapeMachine.Machine.apply_bounded`, `TapeMachine.Machine.apply_unbounded_cases` — the tape and
  the head after a rule;
* `TapeMachine.Machine.head_apply_on_tape` — on a tape that grows the head is on it again.
-/

import TapeMachine.Machine

set_option relaxedAutoImplicit false
set_option autoImplicit false

namespace TapeMachine

/-! ### Settling the ends of the tape -/

namespace Profile

@[simp] theorem settle_bounded (bounds : Bounds) (blank : Char) (tape : Tape) (head : Int) :
    (bounded bounds).settle blank tape head = (tape, head) := rfl

theorem settle_end (blank : Char) (tape : Tape) :
    unbounded.settle blank tape tape.length = (tape.extendRight blank, (tape.length : Int)) := by
  simp [settle]

theorem settle_before (blank : Char) (tape : Tape) :
    unbounded.settle blank tape (-1) = (tape, 0) := by
  have hne : ¬ (-1 : Int) = tape.length := by omega
  simp [settle, hne]

theorem settle_of_lt (blank : Char) (tape : Tape) (head : Int) (h0 : 0 ≤ head)
    (hlt : head < tape.length) : unbounded.settle blank tape head = (tape, head) := by
  have hend : ¬ head = tape.length := by omega
  have hbefore : ¬ head = -1 := by omega
  simp only [settle, if_neg hend, if_neg hbefore]

end Profile

namespace Machine

/-! ### The symbol under the head -/

theorem symbol?_eq_some_iff {m : Machine} {c : Char} :
    m.symbol? = some c ↔ 0 ≤ m.head ∧ m.tape.get? m.head.toNat = some c := by
  by_cases hneg : m.head < 0
  · have hnot : ¬ 0 ≤ m.head := by omega
    simp [symbol?_of_neg hneg, hnot]
  · have hle : 0 ≤ m.head := by omega
    simp [symbol?_of_nonneg hle, hle]

/-- There is no symbol under the head exactly when the head is not on the tape. -/
theorem symbol?_eq_none_iff {m : Machine} :
    m.symbol? = none ↔ m.head < 0 ∨ (m.tape.length : Int) ≤ m.head := by
  by_cases hneg : m.head < 0
  · simp [symbol?_of_neg hneg, hneg]
  · rw [symbol?_of_nonneg (Int.not_lt.1 hneg), Tape.get?_eq_none_iff]
    constructor
    · intro hle
      right
      omega
    · rintro (h | hle)
      · exact absurd h hneg
      · omega

theorem exists_symbol?_of_lt {m : Machine} (h0 : 0 ≤ m.head) (hlt : m.head < m.tape.length) :
    ∃ c, m.symbol? = some c := by
  cases hsymbol : m.symbol? with
  | some c => exact ⟨c, rfl⟩
  | none =>
      rcases symbol?_eq_none_iff.1 hsymbol with h | h
      · omega
      · omega

/-- A symbol under the head puts the head on the tape. -/
theorem head_lt_of_symbol? {m : Machine} {c : Char} (h : m.symbol? = some c) :
    0 ≤ m.head ∧ m.head < m.tape.length := by
  have hnone : ¬ (m.head < 0 ∨ (m.tape.length : Int) ≤ m.head) := by
    intro hoff
    rw [symbol?_eq_none_iff.2 hoff] at h
    exact nomatch h
  omega

/-- A fresh machine has its head on the tape. -/
theorem head_lt_of_new {p : Program} {m : Machine} (hm : Machine.new p = .ok m) :
    0 ≤ m.head ∧ m.head < m.tape.length := by
  obtain ⟨hcheck, start, -, rfl⟩ := new_eq_ok_iff.1 hm
  exact ⟨Int.natCast_nonneg p.head, Int.ofNat_lt.2 (Program.head_lt_of_check hcheck)⟩

/-! ### Verdicts -/

theorem halt_eq_none_of_halted {m : Machine} (h : m.halted = none) : m.halt = none := by
  cases hhalt : m.halt with
  | none => rfl
  | some verdict =>
      rw [halted, hhalt] at h
      exact nomatch h

/-- An unbounded machine that was not refused a rule has halted in the accepting states. -/
theorem halted_of_unbounded {m : Machine} (h : m.program.profile = .unbounded)
    (hnone : m.halt = none) :
    m.halted = if m.state ∈ m.accepting then some .accept else none := by
  rw [halted, hnone, h]

/-- A bounded machine that was not refused a rule has halted in the accepting and in the rejecting
state. -/
theorem halted_of_bounded {m : Machine} {bounds : Bounds}
    (h : m.program.profile = .bounded bounds) (hnone : m.halt = none) :
    m.halted = if m.state = bounds.accept then some .accept
      else if m.state = bounds.reject then some .reject else none := by
  rw [halted, hnone, h]

theorem halted_of_halt {m : Machine} {verdict : Halt} (h : m.halt = some verdict) :
    m.halted = some verdict := by
  rw [halted, h]

/-- What an unbounded machine leaves to see of its tape is all of it. -/
theorem tape_outcome_of_unbounded {m : Machine} (h : m.program.profile = .unbounded)
    (verdict : Halt) : (m.outcome verdict).tape = m.tape.text := by
  simp only [outcome, tapeContent, h, Profile.content]

/-! ### The parts of a machine after a rule and after a rejection -/

@[simp] theorem program_apply (m : Machine) (r : Rule) : (m.apply r).program = m.program := rfl

@[simp] theorem start_apply (m : Machine) (r : Rule) : (m.apply r).start = m.start := rfl

@[simp] theorem accepting_apply (m : Machine) (r : Rule) :
    (m.apply r).accepting = m.accepting := rfl

@[simp] theorem state_apply (m : Machine) (r : Rule) : (m.apply r).state = r.next.name := rfl

@[simp] theorem steps_apply (m : Machine) (r : Rule) : (m.apply r).steps = m.steps + 1 := rfl

@[simp] theorem halt_apply (m : Machine) (r : Rule) : (m.apply r).halt = m.halt := rfl

@[simp] theorem program_rejected (m : Machine) : m.rejected.program = m.program := by
  rw [rejected]
  split <;> rfl

@[simp] theorem start_rejected (m : Machine) : m.rejected.start = m.start := by
  rw [rejected]
  split <;> rfl

@[simp] theorem accepting_rejected (m : Machine) : m.rejected.accepting = m.accepting := by
  rw [rejected]
  split <;> rfl

@[simp] theorem tape_rejected (m : Machine) : m.rejected.tape = m.tape := by
  rw [rejected]
  split <;> rfl

@[simp] theorem head_rejected (m : Machine) : m.rejected.head = m.head := by
  rw [rejected]
  split <;> rfl

@[simp] theorem steps_rejected (m : Machine) : m.rejected.steps = m.steps := by
  rw [rejected]
  split <;> rfl

@[simp] theorem halt_rejected (m : Machine) : m.rejected.halt = some .reject := by
  rw [rejected]
  split <;> rfl

theorem state_rejected_of_unbounded {m : Machine} (h : m.program.profile = .unbounded) :
    m.rejected.state = m.state := by
  rw [rejected, h]

theorem state_rejected_of_bounded {m : Machine} {bounds : Bounds}
    (h : m.program.profile = .bounded bounds) : m.rejected.state = bounds.reject := by
  rw [rejected, h]

/-! ### The four things a step can be -/

/-- A rule is to be applied exactly when the machine has not halted and reads a symbol for which
there is that rule. -/
theorem action_eq_apply_iff {m : Machine} {symbol : Char} {rule : Rule} :
    m.action = .apply symbol rule ↔
      m.halted = none ∧ m.symbol? = some symbol ∧ m.transition symbol = some rule := by
  constructor
  · intro h
    rcases action_cases m with ⟨verdict, -, haction⟩ | ⟨-, -, haction⟩ | ⟨c, -, -, -, haction⟩ |
      ⟨c, r, hhalted, hsymbol, hrule, haction⟩
    · rw [h] at haction
      exact nomatch haction
    · rw [h] at haction
      exact nomatch haction
    · rw [h] at haction
      exact nomatch haction
    · rw [h] at haction
      obtain ⟨rfl, rfl⟩ := Action.apply.inj haction
      exact ⟨hhalted, hsymbol, hrule⟩
  · rintro ⟨hhalted, hsymbol, hrule⟩
    simp only [action, hhalted, hsymbol, hrule]

theorem step_of_halted {m : Machine} {verdict : Halt} (h : m.halted = some verdict) :
    m.step = (.ok (.halt verdict), m) :=
  step_of_rest (by rw [action, h])

theorem step_of_no_transition {m : Machine} {symbol : Char} (hhalted : m.halted = none)
    (hsymbol : m.symbol? = some symbol) (hrule : m.transition symbol = none) :
    m.step = (.ok (.halt .reject), m.rejected) := by
  have haction : m.action = .refuse symbol := by simp only [action, hhalted, hsymbol, hrule]
  exact step_of_refuse haction

theorem step_of_transition {m : Machine} {symbol : Char} {rule : Rule} (hhalted : m.halted = none)
    (hsymbol : m.symbol? = some symbol) (hrule : m.transition symbol = some rule) :
    m.step = (.ok .continue, m.apply rule) :=
  step_of_apply (action_eq_apply_iff.2 ⟨hhalted, hsymbol, hrule⟩)

/-- **A step is one of four things**: nothing in a machine at rest, an error off the tape, a
rejection for want of a rule, or a rule carried out. -/
theorem step_cases (m : Machine) :
    (∃ verdict, m.halted = some verdict ∧ m.step = (.ok (.halt verdict), m)) ∨
      (m.halted = none ∧ m.symbol? = none ∧
        m.step = (.error (.indexOutOfRange m.head m.tape.length), m)) ∨
      (∃ symbol, m.halted = none ∧ m.symbol? = some symbol ∧ m.transition symbol = none ∧
        m.step = (.ok (.halt .reject), m.rejected)) ∨
      ∃ symbol rule, m.halted = none ∧ m.symbol? = some symbol ∧
        m.transition symbol = some rule ∧ m.action = .apply symbol rule ∧
        m.step = (.ok .continue, m.apply rule) := by
  rcases action_cases m with ⟨verdict, hhalted, haction⟩ | ⟨hhalted, hsymbol, haction⟩ |
    ⟨symbol, hhalted, hsymbol, hrule, haction⟩ | ⟨symbol, rule, hhalted, hsymbol, hrule, haction⟩
  · exact Or.inl ⟨verdict, hhalted, step_of_rest haction⟩
  · exact Or.inr (Or.inl ⟨hhalted, hsymbol, step_of_offTape haction⟩)
  · exact Or.inr (Or.inr (Or.inl ⟨symbol, hhalted, hsymbol, hrule, step_of_refuse haction⟩))
  · exact Or.inr (Or.inr (Or.inr
      ⟨symbol, rule, hhalted, hsymbol, hrule, haction, step_of_apply haction⟩))

/-- A step goes on exactly when it carries out a rule. -/
theorem step_continue_iff {m : Machine} :
    m.step.1 = .ok .continue ↔ ∃ symbol rule, m.action = .apply symbol rule := by
  constructor
  · intro h
    rcases step_cases m with ⟨verdict, -, hstep⟩ | ⟨-, -, hstep⟩ | ⟨symbol, -, -, -, hstep⟩ |
      ⟨symbol, rule, -, -, -, haction, -⟩
    · rw [hstep] at h
      exact nomatch h
    · rw [hstep] at h
      exact nomatch h
    · rw [hstep] at h
      exact nomatch h
    · exact ⟨symbol, rule, haction⟩
  · rintro ⟨symbol, rule, haction⟩
    rw [step_of_apply haction]

/-- A step that goes on carries out a rule. -/
theorem exists_apply_of_continue {m : Machine} (h : m.step.1 = .ok .continue) :
    ∃ symbol rule, m.action = .apply symbol rule ∧ m.step.2 = m.apply rule := by
  obtain ⟨symbol, rule, haction⟩ := step_continue_iff.1 h
  exact ⟨symbol, rule, haction, by rw [step_of_apply haction]⟩

/-- **Looking ahead tells whether the step goes on.** -/
theorem hasTransition_iff {m : Machine} : m.hasTransition = true ↔ m.step.1 = .ok .continue := by
  rcases step_cases m with ⟨verdict, hhalted, hstep⟩ | ⟨hhalted, hsymbol, hstep⟩ |
    ⟨symbol, hhalted, hsymbol, hrule, hstep⟩ | ⟨symbol, rule, hhalted, hsymbol, hrule, -, hstep⟩
  · simp [hasTransition, hhalted, hstep]
  · simp [hasTransition, hhalted, hsymbol, hstep]
  · simp [hasTransition, hhalted, hsymbol, hrule, hstep]
  · simp [hasTransition, hhalted, hsymbol, hrule, hstep]

/-- **Only a rule moves anything**: a step that does not go on leaves tape, head and count. -/
theorem step_idle {m : Machine} (h : m.step.1 ≠ .ok .continue) :
    m.step.2.tape = m.tape ∧ m.step.2.head = m.head ∧ m.step.2.steps = m.steps := by
  rcases step_cases m with ⟨verdict, -, hstep⟩ | ⟨-, -, hstep⟩ | ⟨symbol, -, -, -, hstep⟩ |
    ⟨symbol, rule, -, -, -, -, hstep⟩
  · simp [hstep]
  · simp [hstep]
  · simp [hstep]
  · exact absurd (by rw [hstep]) h

/-- A step fails exactly when the machine has not halted and there is no symbol to read. -/
theorem exists_step_error_iff {m : Machine} :
    (∃ e, m.step.1 = .error e) ↔ m.halted = none ∧ m.symbol? = none := by
  constructor
  · rintro ⟨e, herror⟩
    rcases step_cases m with ⟨verdict, -, hstep⟩ | ⟨hhalted, hsymbol, -⟩ |
      ⟨symbol, -, -, -, hstep⟩ | ⟨symbol, rule, -, -, -, -, hstep⟩
    · rw [hstep] at herror
      exact nomatch herror
    · exact ⟨hhalted, hsymbol⟩
    · rw [hstep] at herror
      exact nomatch herror
    · rw [hstep] at herror
      exact nomatch herror
  · rintro ⟨hhalted, hsymbol⟩
    have haction : m.action = .offTape := by simp only [action, hhalted, hsymbol]
    exact ⟨_, by rw [step_of_offTape haction]⟩

/-- A step that fails reports the head and the length of the tape, and changes nothing. -/
theorem step_of_error {m : Machine} {e : Error} (h : m.step.1 = .error e) :
    e = .indexOutOfRange m.head m.tape.length ∧ m.step.2 = m := by
  obtain ⟨hhalted, hsymbol⟩ := exists_step_error_iff.1 ⟨e, h⟩
  have haction : m.action = .offTape := by simp only [action, hhalted, hsymbol]
  rw [step_of_offTape haction] at h ⊢
  exact ⟨(Except.error.inj h).symm, rfl⟩

/-- A machine off its tape is left as it is, and so is one at rest. -/
theorem step_of_symbol?_eq_none {m : Machine} (h : m.symbol? = none) : m.step.2 = m := by
  rcases step_cases m with ⟨verdict, -, hstep⟩ | ⟨-, -, hstep⟩ | ⟨symbol, -, hsymbol, -, -⟩ |
    ⟨symbol, rule, -, hsymbol, -, -, -⟩
  · rw [hstep]
  · rw [hstep]
  · rw [h] at hsymbol
    exact nomatch hsymbol
  · rw [h] at hsymbol
    exact nomatch hsymbol

/-- **No step changes what a machine was made from.** -/
theorem step_frame (m : Machine) :
    m.step.2.program = m.program ∧ m.step.2.start = m.start ∧
      m.step.2.accepting = m.accepting := by
  rcases step_cases m with ⟨verdict, -, hstep⟩ | ⟨-, -, hstep⟩ | ⟨symbol, -, -, -, hstep⟩ |
    ⟨symbol, rule, -, -, -, -, hstep⟩
  · simp [hstep]
  · simp [hstep]
  · simp [hstep]
  · simp [hstep]

/-! ### The tape and the head after a rule -/

/-- What settling comes to is what becomes of the head and the tape. -/
theorem apply_of_settle {m : Machine} {r : Rule} {tape : Tape} {head : Int}
    (h : m.program.profile.settle m.program.blank (m.tape.set m.head.toNat r.write)
      (m.head + r.direction.offset) = (tape, head)) :
    (m.apply r).head = head ∧ (m.apply r).tape = tape := by
  simp only [apply, moved, h, and_self]

/-- On a tape of fixed length a rule writes one cell and moves the head, whatever lies there. -/
theorem apply_bounded {m : Machine} {bounds : Bounds} (h : m.program.profile = .bounded bounds)
    (r : Rule) :
    (m.apply r).tape = m.tape.set m.head.toNat r.write ∧
      (m.apply r).head = m.head + r.direction.offset := by
  refine And.symm (apply_of_settle ?_)
  rw [h, Profile.settle_bounded]

theorem length_apply_bounded {m : Machine} {bounds : Bounds}
    (h : m.program.profile = .bounded bounds) (r : Rule) :
    (m.apply r).tape.length = m.tape.length := by
  rw [(apply_bounded h r).1, Tape.length_set]

/-- **The four ways to move on a tape that grows**: past the right end, which appends a blank; to
the right within the tape; against the left end, where the head stays; to the left within the
tape. -/
theorem apply_unbounded_cases {m : Machine} (h : m.program.profile = .unbounded)
    (h0 : 0 ≤ m.head) (hlt : m.head < m.tape.length) (r : Rule) :
    (r.direction = .right ∧ m.head + 1 = m.tape.length ∧ (m.apply r).head = m.head + 1 ∧
        (m.apply r).tape =
          (m.tape.set m.head.toNat r.write).extendRight m.program.blank) ∨
      (r.direction = .right ∧ m.head + 1 < m.tape.length ∧ (m.apply r).head = m.head + 1 ∧
        (m.apply r).tape = m.tape.set m.head.toNat r.write) ∨
      (r.direction = .left ∧ m.head = 0 ∧ (m.apply r).head = 0 ∧
        (m.apply r).tape = m.tape.set m.head.toNat r.write) ∨
      (r.direction = .left ∧ 0 < m.head ∧ (m.apply r).head = m.head - 1 ∧
        (m.apply r).tape = m.tape.set m.head.toNat r.write) := by
  -- writing does not move the right end, so it is where it was before the rule
  have hlength : (m.tape.set m.head.toNat r.write).length = m.tape.length := Tape.length_set _ _ _
  cases hdir : r.direction with
  | right =>
      have hmove : m.head + r.direction.offset = m.head + 1 := by
        rw [hdir]
        rfl
      rcases Int.lt_or_eq_of_le (show m.head + 1 ≤ m.tape.length by omega) with hin | hend
      · have hsettle := Profile.settle_of_lt m.program.blank (m.tape.set m.head.toNat r.write)
          (m.head + 1) (by omega) (by omega)
        exact Or.inr (Or.inl ⟨rfl, hin, apply_of_settle (by rw [h, hmove, hsettle])⟩)
      · have hsettle := Profile.settle_end m.program.blank (m.tape.set m.head.toNat r.write)
        rw [hlength, ← hend] at hsettle
        exact Or.inl ⟨rfl, hend, apply_of_settle (by rw [h, hmove, hsettle])⟩
  | left =>
      have hmove : m.head + r.direction.offset = m.head - 1 := by
        rw [hdir]
        rfl
      rcases Int.lt_or_eq_of_le h0 with hpos | hzero
      · have hsettle := Profile.settle_of_lt m.program.blank (m.tape.set m.head.toNat r.write)
          (m.head - 1) (by omega) (by omega)
        exact Or.inr (Or.inr (Or.inr ⟨rfl, hpos, apply_of_settle (by rw [h, hmove, hsettle])⟩))
      · have hsettle := Profile.settle_before m.program.blank (m.tape.set m.head.toNat r.write)
        have hbefore : m.head - 1 = -1 := by omega
        exact Or.inr (Or.inr (Or.inl ⟨rfl, hzero.symm,
          apply_of_settle (by rw [h, hmove, hbefore, hsettle])⟩))

section Unbounded

variable {m : Machine} (h : m.program.profile = .unbounded) (h0 : 0 ≤ m.head)
  (hlt : m.head < m.tape.length) (r : Rule)

include h h0 hlt

/-- A rule goes one cell to the right, or one to the left as far as there is one. -/
theorem head_apply_unbounded :
    (m.apply r).head = if r.direction = .right then m.head + 1 else max (m.head - 1) 0 := by
  rcases apply_unbounded_cases h h0 hlt r with ⟨hdir, -, hhead, -⟩ | ⟨hdir, -, hhead, -⟩ |
    ⟨hdir, hzero, hhead, -⟩ | ⟨hdir, hpos, hhead, -⟩
  · rw [if_pos hdir, hhead]
  · rw [if_pos hdir, hhead]
  · rw [if_neg (by simp [hdir])]
    omega
  · rw [if_neg (by simp [hdir])]
    omega

/-- A rule writes one cell, and appends a blank if it goes past the right end. -/
theorem tape_apply_unbounded :
    (m.apply r).tape =
      if r.direction = .right ∧ m.head + 1 = m.tape.length then
        (m.tape.set m.head.toNat r.write).extendRight m.program.blank
      else m.tape.set m.head.toNat r.write := by
  rcases apply_unbounded_cases h h0 hlt r with ⟨hdir, hend, -, htape⟩ | ⟨-, hin, -, htape⟩ |
    ⟨hdir, -, -, htape⟩ | ⟨hdir, -, -, htape⟩
  · rw [if_pos ⟨hdir, hend⟩, htape]
  · rw [if_neg (by omega), htape]
  · rw [if_neg (by simp [hdir]), htape]
  · rw [if_neg (by simp [hdir]), htape]

theorem length_apply_unbounded :
    (m.apply r).tape.length =
      if r.direction = .right ∧ m.head + 1 = m.tape.length then m.tape.length + 1
      else m.tape.length := by
  rw [tape_apply_unbounded h h0 hlt r]
  split
  · rw [Tape.length_extendRight, Tape.length_set]
  · rw [Tape.length_set]

/-- **After a rule the head is on the tape again.** -/
theorem head_apply_on_tape :
    0 ≤ (m.apply r).head ∧ (m.apply r).head < (m.apply r).tape.length := by
  have hhead := head_apply_unbounded h h0 hlt r
  have hlength := length_apply_unbounded h h0 hlt r
  by_cases hdir : r.direction = .right
  · simp only [hdir, true_and, if_true] at hhead hlength
    split at hlength <;> omega
  · simp only [hdir, false_and, if_false] at hhead hlength
    omega

end Unbounded

end Machine

end TapeMachine
