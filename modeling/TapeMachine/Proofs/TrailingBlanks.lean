/-
**Blanks at the end of the tape do not count.**

An unbounded program with some more blanks at the end of its tape begins the same infinite tape,
and so its machine is represented by the same machine on that tape (`Twins`).  The two machines
therefore come to the same in every step.  Their tapes never differ by more than the blanks that
were added: where the shorter tape grows and the longer one need not, the difference becomes less,
and both grow when they are equally long.

Main definitions:

* `TapeMachine.Tape.padRight`, `TapeMachine.Program.padRight` — blanks added on the right;
* `TapeMachine.Machine.Twins` — the relation that every step keeps;
* `TapeMachine.Machine.Alike`, `TapeMachine.Progress.Alike` — two machines, and two runs, that
  differ in blanks at the end of the tape only.

Main results:

* `TapeMachine.Machine.Twins.step`, `TapeMachine.Machine.twins_lockStep` — a step keeps the relation,
  and comes to the same;
* `TapeMachine.Machine.Twins.runFor` — a run of the one is a run of the other;
* `TapeMachine.Machine.refines_one_way` — **an unbounded program refines the machine with the
  infinite tape**, and blanks at the end of its tape do not count.
-/

import TapeMachine.Catalogue
import TapeMachine.Proofs.LockStep
import TapeMachine.Proofs.OneWayTape
import TapeMachine.Proofs.Requirements

set_option relaxedAutoImplicit false
set_option autoImplicit false

namespace TapeMachine

/-! ### Adding blanks on the right -/

namespace Tape

/-- The tape with `k` more cells on the right, all holding `c`. -/
def padRight (t : Tape) (k : Nat) (c : Char) : Tape := ⟨t.symbols ++ List.replicate k c⟩

@[simp] theorem length_padRight (t : Tape) (k : Nat) (c : Char) :
    (t.padRight k c).length = t.length + k := by
  simp [padRight, length]

theorem padRight_zero (t : Tape) (c : Char) : t.padRight 0 c = t := by
  simp [padRight]

/-- The last of the cells can be added by itself. -/
theorem padRight_succ (t : Tape) (k : Nat) (c : Char) :
    t.padRight (k + 1) c = (t.padRight k c).extendRight c := by
  simp [padRight, extendRight, List.replicate_succ']

theorem text_padRight (t : Tape) (k : Nat) (c : Char) :
    (t.padRight k c).text = t.text ++ String.ofList (List.replicate k c) :=
  String.ofList_append

theorem Begins.padRight {t : Tape} {blank : Char} {cells : Nat → Char}
    (h : t.Begins blank cells) (k : Nat) : (t.padRight k blank).Begins blank cells := by
  induction k with
  | zero => rwa [padRight_zero]
  | succ k ih =>
      rw [padRight_succ]
      exact ih.extendRight

end Tape

namespace Program

/-- The program with `k` more blanks at the end of its tape. -/
def padRight (p : Program) (k : Nat) : Program := { p with tape := p.tape.padRight k p.blank }

/-- An unbounded program passes its check with blanks at the end of its tape as well. -/
theorem check_padRight {p : Program} (hp : p.profile = .unbounded) (hcheck : p.check = .ok ())
    (k : Nat) : (p.padRight k).check = .ok () := by
  have hmeets := check_eq_ok_iff_meets.1 hcheck
  refine check_eq_ok_iff_meets.2 ?_
  intro r
  cases r with
  -- most requirements look at the rules only; these two look at the tape, which has become longer
  | cells => exact fun hnil => hmeets .cells (List.append_eq_nil_iff.1 hnil).1
  | head =>
      have hlt : p.head < p.tape.length := hmeets .head
      have hlength : (p.padRight k).tape.length = p.tape.length + k := Tape.length_padRight _ _ _
      change p.head < (p.padRight k).tape.length
      omega
  | flags => exact hmeets .flags
  | start => exact hmeets .start
  | oneStart => exact hmeets .oneStart
  | rules => exact hmeets .rules
  | verdicts | states | symbols =>
      intro bounds hbounds
      exact nomatch hp.symm.trans hbounds

end Program

/-! ### Machines and runs that differ in blanks only -/

/-- The two machines differ in at most `k` blanks at the end of the tape. -/
structure Machine.Alike (blank : Char) (k : Nat) (m m' : Machine) : Prop where
  result : m'.step.1 = m.step.1
  halted : m'.halted = m.halted
  state : m'.state = m.state
  head : m'.head = m.head
  steps : m'.steps = m.steps
  tape : ∃ j ≤ k, m'.tape = m.tape.padRight j blank

/-- What the two runs leave to see differs in at most `k` blanks at the end of the tape. -/
structure Outcome.Alike (blank : Char) (k : Nat) (o o' : Outcome) : Prop where
  halt : o'.halt = o.halt
  state : o'.state = o.state
  steps : o'.steps = o.steps
  tape : ∃ j ≤ k, o'.tape = o.tape ++ String.ofList (List.replicate j blank)

/-- The two runs stand in the same place, or have ended in the same way. -/
inductive Progress.Alike (blank : Char) (k : Nat) : Progress Outcome → Progress Outcome → Prop
  | running {m m' : Machine} :
      m.Alike blank k m' → Progress.Alike blank k (.running m) (.running m')
  | failed {e : Error} {m m' : Machine} :
      m.Alike blank k m' → Progress.Alike blank k (.ended (.error e) m) (.ended (.error e) m')
  | halted {o o' : Outcome} {m m' : Machine} :
      o.Alike blank k o' → m.Alike blank k m' →
      Progress.Alike blank k (.ended (.ok o) m) (.ended (.ok o') m')

namespace Machine

/-- The machine for the program with blanks at the end of its tape is made as the other one is. -/
theorem new_padRight {p : Program} (hp : p.profile = .unbounded) {m : Machine}
    (hm : Machine.new p = .ok m) (k : Nat) :
    Machine.new (p.padRight k) = .ok (initial (p.padRight k) m.start) := by
  obtain ⟨hcheck, start, hstart, rfl⟩ := new_eq_ok_iff.1 hm
  exact new_eq_ok_iff.2 ⟨Program.check_padRight hp hcheck k, start, hstart, rfl⟩

/-! ### The relation that every step keeps -/

/-- The two machines stand on the same infinite tape, and the second one has at most `k` cells
more of it. -/
structure Twins (p : Program) (k : Nat) (m m' : Machine) : Prop where
  represents : ∃ a, Represents p m a ∧ Represents (p.padRight k) m' a
  halt : m'.halt = m.halt
  length_le : m.tape.length ≤ m'.tape.length
  length_le_add : m'.tape.length ≤ m.tape.length + k

theorem twins_initial {p : Program} (hp : p.profile = .unbounded) (hcheck : p.check = .ok ())
    (start : String) (k : Nat) : Twins p k (initial p start) (initial (p.padRight k) start) := by
  have hlength : (initial (p.padRight k) start).tape.length = p.tape.length + k :=
    Tape.length_padRight _ _ _
  have hshort : (initial p start).tape.length = p.tape.length := rfl
  have hrepresents : Represents (p.padRight k) (initial (p.padRight k) start)
      (OneWay.initial (p.padRight k) start) :=
    represents_initial (Program.check_padRight hp hcheck k)
  refine ⟨⟨OneWay.initial p start, represents_initial hcheck, ?_⟩, rfl, by omega, by omega⟩
  exact { hrepresents with
    begins := (Tape.begins_getD p.tape p.blank).padRight k
    halt := Or.inl rfl }

section Twins

variable {p : Program} {k : Nat} {m m' : Machine}

theorem Twins.program_eq (h : Twins p k m m') : m.program = p ∧ m'.program = p.padRight k := by
  obtain ⟨a, hrep, hrep'⟩ := h.represents
  exact ⟨hrep.program_eq, hrep'.program_eq⟩

theorem Twins.profile (hp : p.profile = .unbounded) (h : Twins p k m m') :
    m.program.profile = .unbounded ∧ m'.program.profile = .unbounded := by
  obtain ⟨hprogram, hprogram'⟩ := h.program_eq
  rw [hprogram, hprogram']
  exact ⟨hp, hp⟩

theorem Twins.state (h : Twins p k m m') : m'.state = m.state := by
  obtain ⟨a, hrep, hrep'⟩ := h.represents
  rw [hrep.state, hrep'.state]

theorem Twins.head (h : Twins p k m m') : m'.head = m.head := by
  obtain ⟨a, hrep, hrep'⟩ := h.represents
  rw [hrep.head, hrep'.head]

theorem Twins.steps (h : Twins p k m m') : m'.steps = m.steps := by
  obtain ⟨a, hrep, hrep'⟩ := h.represents
  rw [hrep.steps, hrep'.steps]

theorem Twins.head_lt (h : Twins p k m m') : 0 ≤ m.head ∧ m.head < m.tape.length := by
  obtain ⟨a, hrep, -⟩ := h.represents
  exact head_lt_of_symbol? hrep.symbol?

/-- The tapes differ by blanks at the end. -/
theorem Twins.tape (h : Twins p k m m') : ∃ j ≤ k, m'.tape = m.tape.padRight j p.blank := by
  obtain ⟨a, hrep, hrep'⟩ := h.represents
  have hlong := h.length_le_add
  refine ⟨m'.tape.length - m.tape.length, by omega, ?_⟩
  exact congrArg Tape.mk (hrep.begins.eq_append_replicate hrep'.begins h.length_le)

theorem Twins.halted (hp : p.profile = .unbounded) (h : Twins p k m m') :
    m'.halted = m.halted := by
  obtain ⟨a, hrep, hrep'⟩ := h.represents
  obtain ⟨hprofile, hprofile'⟩ := h.profile hp
  have hhalt := h.halt
  cases hverdict : m.halt with
  | some verdict =>
      rw [hverdict] at hhalt
      rw [halted_of_halt hverdict, halted_of_halt hhalt]
  | none =>
      rw [hverdict] at hhalt
      -- what the two keep as accepting names are those of the same rules
      have hmem : m'.state ∈ m'.accepting ↔ m.state ∈ m.accepting := by
        rw [hrep.accepting, hrep'.accepting, h.state]
        exact Iff.rfl
      rw [halted_of_unbounded hprofile hverdict, halted_of_unbounded hprofile' hhalt]
      exact if_congr hmem rfl rfl

/-- The two machines are in the same position. -/
theorem Twins.action (hp : p.profile = .unbounded) (h : Twins p k m m') :
    m'.action = m.action := by
  obtain ⟨a, hrep, hrep'⟩ := h.represents
  have hsymbol : m'.symbol? = m.symbol? := by rw [hrep.symbol?, hrep'.symbol?]
  have hrules : m'.program.rules = m.program.rules := by
    rw [hrep.program_eq, hrep'.program_eq]
    rfl
  simp only [Machine.action, transition, h.halted hp, hsymbol, hrules, h.state]

/-- What a step comes to is the same in both, since it is the same on the infinite tape. -/
theorem Twins.step_fst (hp : p.profile = .unbounded) (h : Twins p k m m') :
    m'.step.1 = m.step.1 := by
  obtain ⟨a, hrep, hrep'⟩ := h.represents
  have hp' : (p.padRight k).profile = .unbounded := hp
  rw [(hrep.step hp).1, (hrep'.step hp').1]
  rfl

/-- A step keeps the bounds on the difference: if only the shorter tape grows then the longer one
was longer by a blank at least, and if the longer one grows then so does the shorter. -/
theorem Twins.length_step (hp : p.profile = .unbounded) (h : Twins p k m m') :
    m.step.2.tape.length ≤ m'.step.2.tape.length ∧
      m'.step.2.tape.length ≤ m.step.2.tape.length + k := by
  have hle := h.length_le
  have hadd := h.length_le_add
  by_cases hgo : m.step.1 = .ok .continue
  · obtain ⟨symbol, rule, haction, hnext⟩ := exists_apply_of_continue hgo
    have haction' : m'.action = .apply symbol rule := by rw [h.action hp, haction]
    have hnext' : m'.step.2 = m'.apply rule := by rw [step_of_apply haction']
    obtain ⟨hprofile, hprofile'⟩ := h.profile hp
    obtain ⟨h0, hlt⟩ := h.head_lt
    have hhead := h.head
    have hlength := length_apply_unbounded hprofile h0 hlt rule
    have hlength' := length_apply_unbounded hprofile' (by omega) (by omega) rule
    rw [hnext, hnext']
    by_cases hdir : rule.direction = .right
    · -- each of the two tapes grows where the head stands in its own last cell
      simp only [hdir, true_and, hhead] at hlength hlength'
      split at hlength <;> split at hlength' <;> omega
    · simp only [hdir, false_and, if_false] at hlength hlength'
      omega
  · have hgo' : ¬ m'.step.1 = .ok .continue := by rwa [h.step_fst hp]
    rw [(step_idle hgo).1, (step_idle hgo').1]
    exact ⟨hle, hadd⟩

/-- **A step keeps the relation.** -/
theorem Twins.step (hp : p.profile = .unbounded) (h : Twins p k m m') :
    Twins p k m.step.2 m'.step.2 := by
  obtain ⟨a, hrep, hrep'⟩ := h.represents
  have hp' : (p.padRight k).profile = .unbounded := hp
  obtain ⟨hle, hadd⟩ := h.length_step hp
  refine ⟨⟨(a.step p).2, (hrep.step hp).2, (hrep'.step hp').2⟩, ?_, hle, hadd⟩
  have haction := h.action hp
  rcases action_cases m with ⟨verdict, -, hposition⟩ | ⟨-, -, hposition⟩ |
    ⟨symbol, -, -, -, hposition⟩ | ⟨symbol, rule, -, -, -, hposition⟩
  · rw [step_of_rest hposition, step_of_rest (haction.trans hposition)]
    exact h.halt
  · rw [step_of_offTape hposition, step_of_offTape (haction.trans hposition)]
    exact h.halt
  · rw [step_of_refuse hposition, step_of_refuse (haction.trans hposition), halt_rejected,
      halt_rejected]
  · rw [step_of_apply hposition, step_of_apply (haction.trans hposition), halt_apply, halt_apply]
    exact h.halt

/-- The two machines go in lock step. -/
theorem twins_lockStep (hp : p.profile = .unbounded) : LockStep (Twins p k) where
  cap h := by
    rw [h.program_eq.1, h.program_eq.2]
    rfl
  steps h := h.steps
  step_fst h := h.step_fst hp
  step_snd h := h.step hp

/-! ### The same steps and the same runs -/

theorem Twins.alike (hp : p.profile = .unbounded) (h : Twins p k m m') :
    m.Alike p.blank k m' :=
  ⟨h.step_fst hp, h.halted hp, h.state, h.head, h.steps, h.tape⟩

theorem Twins.outcome (hp : p.profile = .unbounded) (h : Twins p k m m') (verdict : Halt) :
    (m.outcome verdict).Alike p.blank k (m'.outcome verdict) := by
  obtain ⟨hprofile, hprofile'⟩ := h.profile hp
  obtain ⟨j, hj, htape⟩ := h.tape
  refine ⟨rfl, h.state, h.steps, j, hj, ?_⟩
  simp only [Machine.outcome, tapeContent, hprofile, hprofile', Profile.content]
  rw [htape, Tape.text_padRight]

/-- **A run of the one is a run of the other.** -/
theorem Twins.runFor (hp : p.profile = .unbounded) (n : Nat) (h : Twins p k m m') :
    Progress.Alike p.blank k (m.runFor n) (m'.runFor n) := by
  have hpaired := (twins_lockStep hp).runFor h n
  generalize m.runFor n = progress, m'.runFor n = progress' at hpaired ⊢
  cases hpaired with
  | running hnext => exact .running (hnext.alike hp)
  | failed e hlast => exact .failed (hlast.alike hp)
  | halted verdict hlast => exact .halted (hlast.outcome hp verdict) (hlast.alike hp)

end Twins

/-- **An unbounded program refines the machine whose tape is infinite to the right.**  After any
number of steps the two agree on what the next step comes to, on state, head and count, and the
infinite tape holds what the finite one holds and blanks beyond it.  And with any number of blanks
at the end of its tape the program comes to the same, step by step and in every run, but for
blanks at the end of the tape. -/
theorem refines_one_way {p : Program} (hp : p.profile = .unbounded) {m : Machine}
    (hm : Machine.new p = .ok m) :
    (∀ n, Agrees p (m.after n) ((OneWay.initial p m.start).after p n)) ∧
      ∀ k, ∃ m', Machine.new (p.padRight k) = .ok m' ∧
        (∀ n, (m.after n).Alike p.blank k (m'.after n)) ∧
        ∀ n, Progress.Alike p.blank k (m.runFor n) (m'.runFor n) := by
  obtain ⟨hcheck, start, -, rfl⟩ := new_eq_ok_iff.1 hm
  constructor
  · intro n
    exact ((represents_initial hcheck).after hp n).agrees hp
  · intro k
    have htwins := twins_initial hp hcheck start k
    refine ⟨_, new_padRight hp hm k, ?_, ?_⟩
    · intro n
      exact ((twins_lockStep hp).after htwins n).alike hp
    · intro n
      exact htwins.runFor hp n

/-- Inverting a one: the machine overruns its tape of one cell twice, where with three blanks at the
end it has cells enough; on the infinite tape it accepts in the same cell. -/
theorem refines_one_way_invert :
    ∃ m m', Machine.new (Catalogue.invert.withInput "1") = .ok m ∧
      Machine.new ((Catalogue.invert.withInput "1").padRight 3) = .ok m' ∧
      (m.after 2).tape.text = "0__" ∧
      ((OneWay.initial (Catalogue.invert.withInput "1") m.start).after
        (Catalogue.invert.withInput "1") 2).head = 2 ∧
      m.runFor 3 = .ended (.ok ⟨.accept, "done", "0__", 2⟩) (m.after 2) ∧
      Progress.Alike '_' 3 (m.runFor 3) (m'.runFor 3) := by
  have hmade : Machine.new (Catalogue.invert.withInput "1") =
      .ok (initial (Catalogue.invert.withInput "1") "scan") := rfl
  obtain ⟨hagrees, hpadded⟩ := refines_one_way rfl hmade
  obtain ⟨m', hmade', -, hruns⟩ := hpadded 3
  have hhead := (hagrees 2).head
  exact ⟨_, m', hmade, hmade', rfl, Int.ofNat.inj hhead.symm, rfl, hruns 3⟩

end Machine

end TapeMachine
