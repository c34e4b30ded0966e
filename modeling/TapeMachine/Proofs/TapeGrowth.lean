/-
**How an unbounded tape grows.**

Under the unbounded policy the head is put back on the tape after every rule: where a rule takes
it past the right end (`overruns`) the tape grows by one blank, and where a rule takes it past the
left end it stays on the first cell.  So the head never leaves the tape, no step fails, and the
length of the tape can be read off the trail in two ways: it is the first length and one for each
overrun, and it is what the farthest position of the head calls for, if that is beyond the first
length.

The invariant is `Grown`; the ghost of the second reading is `farthest`, the largest position in
which the head has been since the machine was made or last began anew.

Main definitions:

* `TapeMachine.Machine.overruns` — a rule is about to take the head past the right end;
* `TapeMachine.Machine.farthest` — the largest position of the head along a trail;
* `TapeMachine.Machine.ExtendsByOverrun` — a step lengthens the tape by an overrun only;
* `TapeMachine.Machine.Grown` — the invariant.

Main results:

* `TapeMachine.Machine.Grown.step` — a step keeps the invariant;
* `TapeMachine.Machine.Grown.length_eq_max` — the length by the farthest position;
* `TapeMachine.Machine.unbounded_tape_length` — **the tape of every machine that can be reached**.
-/

import TapeMachine.Catalogue
import TapeMachine.Proofs.Reachable

set_option relaxedAutoImplicit false
set_option autoImplicit false

namespace TapeMachine

namespace Machine

/-! ### Overruns -/

/-- A rule is about to take the head past the right end of the tape. -/
def overruns (m : Machine) : Bool :=
  match m.action with
  | .apply _ rule => decide (rule.direction = .right ∧ m.head + 1 = m.tape.length)
  | _ => false

/-- A step lengthens the tape by one blank if it overruns it, and does not change its length
otherwise. -/
def ExtendsByOverrun (p : Program) (m : Machine) : Prop :=
  (m.overruns = true → ∃ symbol rule, m.action = .apply symbol rule ∧
      m.step.2.tape = (m.tape.set m.head.toNat rule.write).extendRight p.blank) ∧
    (m.overruns = false → m.step.2.tape.length = m.tape.length)

theorem overruns_of_apply {m : Machine} {symbol : Char} {rule : Rule}
    (h : m.action = .apply symbol rule) :
    m.overruns = decide (rule.direction = .right ∧ m.head + 1 = m.tape.length) := by
  rw [overruns, h]

theorem overruns_of_not_continue {m : Machine} (h : m.step.1 ≠ .ok .continue) :
    m.overruns = false := by
  rw [overruns]
  split
  · rename_i symbol rule haction
    exact absurd (step_continue_iff.2 ⟨symbol, rule, haction⟩) h
  · rfl

/-! ### The farthest position of the head -/

/-- The largest position of the head in the machines of a list and in the one that follows. -/
def farthest : List Machine → Machine → Int
  | [], m => m.head
  | a :: past, m => max a.head (farthest past m)

/-- The farthest position after one more machine. -/
theorem farthest_concat (past : List Machine) (a m : Machine) :
    farthest (past ++ [a]) m = max (farthest past a) m.head := by
  induction past with
  | nil => rfl
  | cons b past ih =>
      rw [List.cons_append, farthest, farthest, ih]
      omega

theorem farthest_congr (past : List Machine) {m m' : Machine} (h : m'.head = m.head) :
    farthest past m' = farthest past m := by
  induction past with
  | nil => exact h
  | cons a past ih => rw [farthest, farthest, ih]

theorem farthest_lt {past : List Machine} {m : Machine} {bound : Int}
    (hpast : ∀ a ∈ past, a.head < bound) (hm : m.head < bound) : farthest past m < bound := by
  induction past with
  | nil => exact hm
  | cons a past ih =>
      have ha := hpast a List.mem_cons_self
      have hrest := ih fun b hb => hpast b (List.mem_cons_of_mem a hb)
      rw [farthest]
      omega

/-! ### The invariant -/

/-- The head is on the tape, and the tape is as long as its overruns, and as the farthest position
of the head, have made it. -/
structure Grown (p : Program) (past : List Machine) (m : Machine) : Prop where
  program_eq : m.program = p
  head_nonneg : 0 ≤ m.head
  head_lt : m.head < m.tape.length
  length_eq : m.tape.length = p.tape.length + past.countP overruns
  past_lt : ∀ a ∈ past, a.head < m.tape.length
  past_extends : ∀ a ∈ past, a.ExtendsByOverrun p
  mark : m.tape.length = p.tape.length ∨ (m.tape.length : Int) ≤ farthest past m + 1

/-- A fresh machine has its head on the tape of the program. -/
theorem grown_of_new {p : Program} {m : Machine} (hm : Machine.new p = .ok m) :
    Grown p [] m := by
  obtain ⟨h0, hlt⟩ := head_lt_of_new hm
  obtain ⟨-, start, -, rfl⟩ := new_eq_ok_iff.1 hm
  refine ⟨rfl, h0, hlt, rfl, ?_, ?_, Or.inl rfl⟩
  · intro a ha
    exact nomatch ha
  · intro a ha
    exact nomatch ha

/-- A step lengthens the tape of a machine whose head is on it by an overrun only. -/
theorem Grown.extendsByOverrun {p : Program} (hp : p.profile = .unbounded) {past : List Machine}
    {m : Machine} (h : Grown p past m) : m.ExtendsByOverrun p := by
  by_cases hgo : m.step.1 = .ok .continue
  · obtain ⟨symbol, rule, haction, hnext⟩ := exists_apply_of_continue hgo
    have hprofile : m.program.profile = .unbounded := by rw [h.program_eq, hp]
    have htape := tape_apply_unbounded hprofile h.head_nonneg h.head_lt rule
    rw [ExtendsByOverrun, overruns_of_apply haction, hnext, decide_eq_true_iff,
      decide_eq_false_iff_not]
    constructor
    · intro hover
      rw [if_pos hover, h.program_eq] at htape
      exact ⟨symbol, rule, haction, htape⟩
    · intro hnot
      rw [if_neg hnot] at htape
      rw [htape, Tape.length_set]
  · have hnot := overruns_of_not_continue hgo
    exact ⟨fun hover => absurd hover (by simp [hnot]), fun _ => by rw [(step_idle hgo).1]⟩

theorem ExtendsByOverrun.length_step {p : Program} {m : Machine} (h : m.ExtendsByOverrun p) :
    m.step.2.tape.length = m.tape.length + if m.overruns = true then 1 else 0 := by
  cases hover : m.overruns with
  | true =>
      obtain ⟨symbol, rule, -, htape⟩ := h.1 hover
      rw [htape, Tape.length_extendRight, Tape.length_set, if_pos rfl]
  | false => exact h.2 hover

/-- After a step the head is on the tape again, and in the last cell after an overrun. -/
theorem Grown.head_step {p : Program} (hp : p.profile = .unbounded) {past : List Machine}
    {m : Machine} (h : Grown p past m) :
    0 ≤ m.step.2.head ∧ m.step.2.head < m.step.2.tape.length ∧
      (m.overruns = true → (m.step.2.tape.length : Int) = m.step.2.head + 1) := by
  have h0 := h.head_nonneg
  have hlt := h.head_lt
  by_cases hgo : m.step.1 = .ok .continue
  · obtain ⟨symbol, rule, haction, hnext⟩ := exists_apply_of_continue hgo
    have hprofile : m.program.profile = .unbounded := by rw [h.program_eq, hp]
    have hhead := head_apply_unbounded hprofile h0 hlt rule
    have hlength := length_apply_unbounded hprofile h0 hlt rule
    obtain ⟨h0', hlt'⟩ := head_apply_on_tape hprofile h0 hlt rule
    rw [overruns_of_apply haction, hnext, decide_eq_true_iff]
    refine ⟨h0', hlt', ?_⟩
    intro hover
    -- the head stands on the blank that was appended for it
    rw [if_pos hover] at hlength
    rw [if_pos hover.1] at hhead
    omega
  · obtain ⟨htape, hhead, -⟩ := step_idle hgo
    rw [htape, hhead]
    exact ⟨h0, hlt, fun ho => absurd ho (by simp [overruns_of_not_continue hgo])⟩

/-- **A step keeps the invariant.** -/
theorem Grown.step {p : Program} (hp : p.profile = .unbounded) {past : List Machine}
    {m : Machine} (h : Grown p past m) : Grown p (past ++ m.stepTrail) m.step.2 := by
  have hprogram : m.step.2.program = p := (step_frame m).1.trans h.program_eq
  have hextends := h.extendsByOverrun hp
  have hlength := hextends.length_step
  obtain ⟨h0, hlt, hlast⟩ := h.head_step hp
  by_cases hgo : m.step.1 = .ok .continue
  · rw [stepTrail_of_continue hgo]
    have hfar := farthest_concat past m m.step.2
    refine ⟨hprogram, h0, hlt, ?_, ?_, ?_, ?_⟩
    · rw [hlength, h.length_eq, List.countP_append, List.countP_singleton, Nat.add_assoc]
    · intro a ha
      rcases List.mem_append.1 ha with ha | ha
      · have := h.past_lt a ha
        omega
      · rw [List.mem_singleton.1 ha]
        have := h.head_lt
        omega
    · intro a ha
      rcases List.mem_append.1 ha with ha | ha
      · exact h.past_extends a ha
      · rw [List.mem_singleton.1 ha]
        exact hextends
    · -- an overrun leaves the head in the last cell; otherwise the old mark still stands
      cases hover : m.overruns with
      | true =>
          have := hlast hover
          exact Or.inr (by omega)
      | false =>
          rw [hover] at hlength
          rcases h.mark with hfirst | hmark
          · exact Or.inl (by simpa [hlength] using hfirst)
          · exact Or.inr (by simp at hlength; omega)
  · obtain ⟨htape, hhead, -⟩ := step_idle hgo
    have hfar : farthest past m.step.2 = farthest past m := farthest_congr past hhead
    rw [stepTrail_of_not_continue hgo, List.append_nil]
    exact ⟨hprogram, h0, hlt, by rw [htape]; exact h.length_eq, by rw [htape]; exact h.past_lt,
      h.past_extends, by rw [htape, hfar]; exact h.mark⟩

/-- The tape is as long as its first length or the farthest position of the head asks. -/
theorem Grown.length_eq_max {p : Program} {past : List Machine} {m : Machine}
    (h : Grown p past m) :
    (m.tape.length : Int) = max (p.tape.length : Int) (1 + farthest past m) := by
  have hfar := farthest_lt h.past_lt h.head_lt
  have hlength := h.length_eq
  have hmark := h.mark
  omega

/-- **Whatever is reached satisfies the invariant.** -/
theorem Reaches.grown {p : Program} (hp : p.profile = .unbounded) {past : List Machine}
    {m : Machine} (h : Reaches p past m) : Grown p past m := by
  exact h.induction (fun _ hnew => grown_of_new hnew) fun _ _ ih => ih.step hp

/-- No step fails, since the head is on the tape. -/
theorem Grown.exists_step_ok {p : Program} {past : List Machine} {m : Machine}
    (h : Grown p past m) : ∃ s, m.step.1 = .ok s := by
  cases hresult : m.step.1 with
  | ok s => exact ⟨s, rfl⟩
  | error e =>
      obtain ⟨c, hc⟩ := exists_symbol?_of_lt h.head_nonneg h.head_lt
      obtain ⟨-, hsymbol⟩ := exists_step_error_iff.1 ⟨e, hresult⟩
      rw [hc] at hsymbol
      exact nomatch hsymbol

/-- A run can fail by its cap only. -/
theorem Reaches.run_error {p : Program} (hp : p.profile = .unbounded) {past : List Machine}
    {m m' : Machine} (h : Reaches p past m) {n : Nat} {e : Error}
    (hrun : m.runFor n = .ended (.error e) m') :
    ∃ limit, p.maxSteps = some limit ∧ e = .stepLimitExceeded limit := by
  obtain ⟨k, -, -, hround⟩ := exists_round_of_runFor hrun
  obtain ⟨past', hreaches⟩ := h.exists_after k
  rcases round_cases (m.after k) with ⟨limit, hexceeded, hlimit⟩ | ⟨-, -, hgo⟩ |
    ⟨verdict, -, -, hhalt⟩ | ⟨e', -, hfail, -⟩
  · rw [hlimit] at hround
    obtain ⟨he, -⟩ := Progress.ended.inj hround
    refine ⟨limit, ?_, (Except.error.inj he).symm⟩
    rw [← hreaches.program_eq]
    exact (exceeded?_eq_some_iff.1 hexceeded).1
  · rw [hgo] at hround
    exact nomatch hround
  · rw [hhalt] at hround
    exact nomatch (Progress.ended.inj hround).1
  · obtain ⟨s, hok⟩ := (hreaches.grown hp).exists_step_ok
    rw [hok] at hfail
    exact nomatch hfail

/-- **The tape of every machine that can be reached under the unbounded policy.**  The head is on
it; no step fails and a run fails by its cap only; and since the machine was made or last began
anew, its length is the first length and one for each overrun, and what the farthest position of
the head calls for if that is beyond the first length.  Each overrun appends one blank, and nothing
else that was carried out changed the length. -/
theorem unbounded_tape_length {p : Program} (hp : p.profile = .unbounded) {past : List Machine}
    {m : Machine} (h : Reaches p past m) :
    (0 ≤ m.head ∧ m.head < m.tape.length) ∧
      (∃ s, m.step.1 = .ok s) ∧
      (∀ n e m', m.runFor n = .ended (.error e) m' →
        ∃ limit, p.maxSteps = some limit ∧ e = .stepLimitExceeded limit) ∧
      past.length = m.steps ∧
      m.tape.length = p.tape.length + past.countP overruns ∧
      (m.tape.length : Int) = max (p.tape.length : Int) (1 + farthest past m) ∧
      ∀ a ∈ past ++ [m], a.ExtendsByOverrun p := by
  have hgrown := h.grown hp
  refine ⟨⟨hgrown.head_nonneg, hgrown.head_lt⟩, hgrown.exists_step_ok, ?_, h.steps_eq.symm,
    hgrown.length_eq, hgrown.length_eq_max, ?_⟩
  · intro n e m' hrun
    exact h.run_error hp hrun
  · intro a ha
    rcases List.mem_append.1 ha with ha | ha
    · exact hgrown.past_extends a ha
    · rw [List.mem_singleton.1 ha]
      exact hgrown.extendsByOverrun hp

/-- Inverting a one, twice over: from a tape of one cell the machine runs to its end, begins anew,
steps once and runs again, and its two rules have appended two blanks. -/
theorem unbounded_tape_length_invert :
    ∃ past m, Reaches (Catalogue.invert.withInput "1") past m ∧ past.countP overruns = 2 ∧
      farthest past m = 2 ∧ m.tape.length = 1 + 2 ∧
      (m.tape.length : Int) = max ((1 : Nat) : Int) (1 + 2) := by
  have hmade : Machine.new (Catalogue.invert.withInput "1") =
      .ok (initial (Catalogue.invert.withInput "1") "scan") := rfl
  have hran : Reaches (Catalogue.invert.withInput "1") _ _ :=
    .made hmade (.run (n := 3) .refl rfl)
  have hagain : Reaches (Catalogue.invert.withInput "1") _ _ :=
    .reset hran (.run (n := 2) (.step .refl) rfl)
  obtain ⟨-, -, -, -, hcount, hfar, -⟩ := unbounded_tape_length rfl hagain
  exact ⟨_, _, hagain, rfl, rfl, hcount, hfar⟩

end Machine

end TapeMachine
