/-
**Cells that are never read do not matter.**

A machine learns of its tape through the symbol under its head and through the length of the tape,
and of nothing else.  So let two programs differ in their tapes only, which are of one length, and
let the two tapes agree on the cells that the machine of the first one reads: in that many steps the
machines come to the same.  The cells that were read hold the same symbol on both sides, since what
was read there was the same and so was what was written; the other cells that the tapes began with
were not written either, and hold what they held; and the cells that were appended are blank on both
sides until they are read.

This is kept by every step in two parts (`Shadows`): a step that reads first learns that both tapes
agree on the cell under the head (`Shadows.read`), and what it does then it does on both sides
(`Shadows.apply`, `Shadows.rejected`).

Main definitions:

* `TapeMachine.Machine.cellRead?`, `TapeMachine.Machine.cellsRead` — the cell that the next step
  reads, and the cells that a number of steps read;
* `TapeMachine.Program.onTape` — the program on another tape;
* `TapeMachine.Machine.Shadows` — the relation that every step keeps.

Main results:

* `TapeMachine.Profile.settle_eq` — the ends of a tape are put in order by its length;
* `TapeMachine.Machine.tape_apply`, `TapeMachine.Machine.head_apply` — the tape and the head after a
  rule;
* `TapeMachine.Machine.Shadows.step` — a step comes to the same on both tapes;
* `TapeMachine.Machine.unread_cells_unseen` — **cells that are never read do not matter**.
-/

import TapeMachine.Catalogue
import TapeMachine.Proofs.Reachable

set_option relaxedAutoImplicit false
set_option autoImplicit false

namespace TapeMachine

/-! ### Tapes that agree in a cell -/

namespace Tape

variable {t t' : Tape} {i : Nat}

theorem lt_length_of_get? {c : Char} (h : t.get? i = some c) : i < t.length := by
  refine Nat.lt_of_not_le ?_
  intro hle
  rw [get?_eq_none_iff.2 hle] at h
  exact nomatch h

theorem get?_set_congr (hlength : t'.length = t.length) (h : t'.get? i = t.get? i) (j : Nat)
    (c : Char) : (t'.set j c).get? i = (t.set j c).get? i := by
  rw [get?_set, get?_set, hlength, h]

theorem get?_extendRight_congr (hlength : t'.length = t.length) (h : t'.get? i = t.get? i)
    (c : Char) : (t'.extendRight c).get? i = (t.extendRight c).get? i := by
  rw [get?_extendRight, get?_extendRight, hlength, h]

end Tape

/-- **The ends of a tape are put in order by its length**, whatever it holds. -/
theorem Profile.settle_eq (profile : Profile) (blank : Char) (t : Tape) (head : Int) :
    profile.settle blank t head =
      (if profile = .unbounded ∧ head = t.length then t.extendRight blank else t,
        if profile = .unbounded ∧ head = -1 then 0 else head) := by
  cases profile with
  | bounded bounds => simp [settle]
  | unbounded =>
      rw [settle]
      split
      · have hne : ¬ head = -1 := by omega
        simp_all
      · split <;> simp_all

/-- The program on another tape. -/
def Program.onTape (p : Program) (t : Tape) : Program := { p with tape := t }

namespace Machine

/-! ### The cells that are read -/

/-- The cell that the next step reads, if the machine has not halted and its head is on the tape. -/
def cellRead? (m : Machine) : Option Nat :=
  match m.action with
  | .rest _ | .offTape => none
  | .refuse _ | .apply _ _ => some m.head.toNat

/-- The cells that the first `n` steps read, one after the other. -/
def cellsRead (m : Machine) (n : Nat) : List Nat :=
  (List.range n).filterMap fun i => (m.after i).cellRead?

theorem cellsRead_succ (m : Machine) (n : Nat) :
    m.cellsRead (n + 1) = m.cellsRead n ++ (m.after n).cellRead?.toList := by
  rw [cellsRead, List.range_succ, List.filterMap_append]
  cases hread : (m.after n).cellRead? <;> simp [cellsRead, hread]

/-- A cell that is read is on the tape. -/
theorem lt_length_of_cellRead? {m : Machine} {i : Nat} (h : m.cellRead? = some i) :
    i = m.head.toNat ∧ i < m.tape.length := by
  rcases action_cases m with ⟨verdict, -, haction⟩ | ⟨-, -, haction⟩ |
    ⟨symbol, -, hsymbol, -, haction⟩ | ⟨symbol, rule, -, hsymbol, -, haction⟩
  · simp [cellRead?, haction] at h
  · simp [cellRead?, haction] at h
  · obtain rfl : m.head.toNat = i := by simpa [cellRead?, haction] using h
    exact ⟨rfl, Tape.lt_length_of_get? (symbol?_eq_some_iff.1 hsymbol).2⟩
  · obtain rfl : m.head.toNat = i := by simpa [cellRead?, haction] using h
    exact ⟨rfl, Tape.lt_length_of_get? (symbol?_eq_some_iff.1 hsymbol).2⟩

/-! ### A rule on two tapes -/

/-- The tape grows only where the head goes past the last cell of a tape that may grow. -/
theorem tape_apply (m : Machine) (r : Rule) :
    (m.apply r).tape =
      if m.program.profile = .unbounded ∧ m.head + r.direction.offset = m.tape.length then
        (m.tape.set m.head.toNat r.write).extendRight m.program.blank
      else m.tape.set m.head.toNat r.write := by
  simp only [apply, moved, Profile.settle_eq, Tape.length_set]

theorem head_apply (m : Machine) (r : Rule) :
    (m.apply r).head =
      if m.program.profile = .unbounded ∧ m.head + r.direction.offset = -1 then 0
      else m.head + r.direction.offset := by
  simp only [apply, moved, Profile.settle_eq]

/-- Where a rule is carried out on two tapes of one length with the head in one place, the lengths
and the places are the same again. -/
theorem length_head_apply_congr {m m' : Machine}
    (hprofile : m'.program.profile = m.program.profile) (hhead : m'.head = m.head)
    (hlength : m'.tape.length = m.tape.length) (r : Rule) :
    (m'.apply r).tape.length = (m.apply r).tape.length ∧
      (m'.apply r).head = (m.apply r).head := by
  simp only [tape_apply, head_apply, hprofile, hhead, hlength, and_true]
  split <;> simp [hlength]

/-- Cells that agreed before a rule agree after it. -/
theorem get?_apply_congr {m m' : Machine} (hprofile : m'.program.profile = m.program.profile)
    (hblank : m'.program.blank = m.program.blank) (hhead : m'.head = m.head)
    (hlength : m'.tape.length = m.tape.length) (r : Rule) {i : Nat}
    (h : m'.tape.get? i = m.tape.get? i) :
    (m'.apply r).tape.get? i = (m.apply r).tape.get? i := by
  have hset := Tape.get?_set_congr hlength h m.head.toNat r.write
  simp only [tape_apply, hprofile, hblank, hhead, hlength]
  split
  · exact Tape.get?_extendRight_congr (by simp [hlength]) hset _
  · exact hset

/-- A rule writes no cell but the one under the head. -/
theorem get?_apply_of_ne {m : Machine} (r : Rule) {i : Nat} (hlt : i < m.tape.length)
    (hne : i ≠ m.head.toNat) : (m.apply r).tape.get? i = m.tape.get? i := by
  have hset : (m.tape.set m.head.toNat r.write).get? i = m.tape.get? i := by
    rw [Tape.get?_set, if_neg (fun h => hne h.1.symm)]
  rw [tape_apply]
  split
  · rw [Tape.get?_extendRight, Tape.length_set, if_neg (Nat.ne_of_lt hlt), hset]
  · exact hset

theorem length_le_length_apply (m : Machine) (r : Rule) :
    m.tape.length ≤ (m.apply r).tape.length := by
  rw [tape_apply]
  split <;> simp

/-! ### The relation that every step keeps -/

/-- The second machine is the one for the program on another tape.  The two agree on the cells that
have been read and on those that were appended; of the other cells each has what its tape began
with. -/
structure Shadows (p : Program) (t : Tape) (seen : List Nat) (m m' : Machine) : Prop where
  program_eq : m.program = p
  program_eq' : m'.program = p.onTape t
  accepting : m'.accepting = m.accepting
  state : m'.state = m.state
  head : m'.head = m.head
  steps : m'.steps = m.steps
  halt : m'.halt = m.halt
  length : m'.tape.length = m.tape.length
  seen_lt : ∀ i ∈ seen, i < m.tape.length
  seen_eq : ∀ i ∈ seen, m'.tape.get? i = m.tape.get? i
  unseen : ∀ i < p.tape.length, i ∉ seen →
    m.tape.get? i = p.tape.get? i ∧ m'.tape.get? i = t.get? i
  appended : ∀ i, p.tape.length ≤ i → m'.tape.get? i = m.tape.get? i

variable {p : Program} {t : Tape} {seen : List Nat} {m m' : Machine}

theorem shadows_of_new (hlength : t.length = p.tape.length) (hm : Machine.new p = .ok m)
    (hm' : Machine.new (p.onTape t) = .ok m') : Shadows p t [] m m' := by
  obtain ⟨-, start, hstart, rfl⟩ := new_eq_ok_iff.1 hm
  obtain ⟨-, start', hstart', rfl⟩ := new_eq_ok_iff.1 hm'
  obtain rfl : start = start' := Except.ok.inj (hstart.symm.trans hstart')
  refine ⟨rfl, rfl, rfl, rfl, rfl, rfl, rfl, hlength, by simp, by simp, fun _ _ _ => ⟨rfl, rfl⟩, ?_⟩
  intro i hle
  have hnone : t.get? i = none := Tape.get?_eq_none_iff.2 (by omega)
  exact hnone.trans (Tape.get?_eq_none_iff.2 hle).symm

namespace Shadows

theorem profile (h : Shadows p t seen m m') : m'.program.profile = m.program.profile := by
  rw [h.program_eq, h.program_eq']
  rfl

theorem halted (h : Shadows p t seen m m') : m'.halted = m.halted := by
  simp only [Machine.halted, h.halt, h.profile, h.state, h.accepting]

/-- The two agree on a cell if the tapes that they began with do. -/
theorem get?_eq (h : Shadows p t seen m m') {i : Nat}
    (hagree : i < p.tape.length → t.get? i = p.tape.get? i) :
    m'.tape.get? i = m.tape.get? i := by
  by_cases hseen : i ∈ seen
  · exact h.seen_eq i hseen
  · rcases Nat.lt_or_ge i p.tape.length with hlt | hge
    · obtain ⟨hfirst, hsecond⟩ := h.unseen i hlt hseen
      rw [hfirst, hsecond, hagree hlt]
    · exact h.appended i hge

/-- **Both are in the same position** if the tapes agree on the cell that is to be read. -/
theorem action (h : Shadows p t seen m m')
    (hagree : ∀ i, m.cellRead? = some i → i < p.tape.length → t.get? i = p.tape.get? i) :
    m'.action = m.action := by
  have htransition (symbol : Char) : m'.transition symbol = m.transition symbol := by
    rw [transition, transition, h.program_eq, h.program_eq', h.state]
    rfl
  -- whether there is a symbol to read is a matter of head and length
  have hnone : m'.symbol? = none ↔ m.symbol? = none := by
    rw [symbol?_eq_none_iff, symbol?_eq_none_iff, h.head, h.length]
  have hread {symbol : Char} (hsymbol : m.symbol? = some symbol)
      (hcell : m.cellRead? = some m.head.toNat) : m'.symbol? = some symbol := by
    rw [symbol?_eq_some_iff] at hsymbol ⊢
    rw [h.head, h.get?_eq (hagree _ hcell)]
    exact hsymbol
  rcases action_cases m with ⟨verdict, hhalted, haction⟩ | ⟨hhalted, hsymbol, haction⟩ |
    ⟨symbol, hhalted, hsymbol, hrule, haction⟩ | ⟨symbol, rule, hhalted, hsymbol, hrule, haction⟩
  · rw [haction]
    simp only [Machine.action, h.halted, hhalted]
  · rw [haction]
    simp only [Machine.action, h.halted, hhalted, hnone.2 hsymbol]
  · have hsymbol' := hread hsymbol (by rw [cellRead?, haction])
    rw [haction]
    simp only [Machine.action, h.halted, hhalted, hsymbol', htransition, hrule]
  · have hsymbol' := hread hsymbol (by rw [cellRead?, haction])
    rw [haction]
    simp only [Machine.action, h.halted, hhalted, hsymbol', htransition, hrule]

/-- A cell on which the two agree may be read. -/
theorem read (h : Shadows p t seen m m') {i : Nat} (hlt : i < m.tape.length)
    (heq : m'.tape.get? i = m.tape.get? i) : Shadows p t (seen ++ [i]) m m' := by
  refine { h with seen_lt := ?_, seen_eq := ?_, unseen := ?_ }
  · intro j hj
    rcases List.mem_append.1 hj with hj | hj
    · exact h.seen_lt j hj
    · obtain rfl := List.mem_singleton.1 hj
      exact hlt
  · intro j hj
    rcases List.mem_append.1 hj with hj | hj
    · exact h.seen_eq j hj
    · obtain rfl := List.mem_singleton.1 hj
      exact heq
  · intro j hj hnot
    exact h.unseen j hj fun hseen => hnot (List.mem_append_left _ hseen)

/-- A rule is carried out on both sides, in a cell that has been read. -/
theorem apply (h : Shadows p t seen m m') (hseen : m.head.toNat ∈ seen) (r : Rule) :
    Shadows p t seen (m.apply r) (m'.apply r) := by
  have hblank : m'.program.blank = m.program.blank := by
    rw [h.program_eq, h.program_eq']
    rfl
  have hsame {i : Nat} (heq : m'.tape.get? i = m.tape.get? i) :
      (m'.apply r).tape.get? i = (m.apply r).tape.get? i :=
    get?_apply_congr h.profile hblank h.head h.length r heq
  obtain ⟨hlength, hhead⟩ := length_head_apply_congr h.profile h.head h.length r
  have hsteps : (m'.apply r).steps = (m.apply r).steps := by
    rw [steps_apply, steps_apply, h.steps]
  refine ⟨h.program_eq, h.program_eq', h.accepting, rfl, hhead, hsteps, h.halt, hlength, ?_, ?_,
    ?_, ?_⟩
  · intro i hi
    exact Nat.lt_of_lt_of_le (h.seen_lt i hi) (length_le_length_apply m r)
  · intro i hi
    exact hsame (h.seen_eq i hi)
  · intro i hi hnot
    obtain ⟨hfirst, hsecond⟩ := h.unseen i hi hnot
    -- the cell is on both tapes and is not the one under the head
    obtain ⟨c, hc⟩ := Tape.exists_get?_of_lt hi
    have hlt : i < m.tape.length := Tape.lt_length_of_get? (hfirst.trans hc)
    have hne : i ≠ m.head.toNat := fun heq => hnot (heq ▸ hseen)
    refine ⟨(get?_apply_of_ne r hlt hne).trans hfirst, ?_⟩
    rw [← h.length] at hlt
    rw [← h.head] at hne
    exact (get?_apply_of_ne r hlt hne).trans hsecond
  · intro i hi
    exact hsame (h.appended i hi)

theorem rejected (h : Shadows p t seen m m') : Shadows p t seen m.rejected m'.rejected := by
  have hstate : m'.rejected.state = m.rejected.state := by
    cases hp : m.program.profile with
    | unbounded =>
        rw [state_rejected_of_unbounded hp, state_rejected_of_unbounded (h.profile.trans hp),
          h.state]
    | bounded bounds =>
        rw [state_rejected_of_bounded hp, state_rejected_of_bounded (h.profile.trans hp)]
  refine ⟨?_, ?_, ?_, hstate, ?_, ?_, ?_, ?_, ?_, ?_, ?_, ?_⟩
  · rw [program_rejected, h.program_eq]
  · rw [program_rejected, h.program_eq']
  · rw [accepting_rejected, accepting_rejected, h.accepting]
  · rw [head_rejected, head_rejected, h.head]
  · rw [steps_rejected, steps_rejected, h.steps]
  · rw [halt_rejected, halt_rejected]
  · rw [tape_rejected, tape_rejected, h.length]
  · rw [tape_rejected]
    exact h.seen_lt
  · rw [tape_rejected, tape_rejected]
    exact h.seen_eq
  · rw [tape_rejected, tape_rejected]
    exact h.unseen
  · rw [tape_rejected, tape_rejected]
    exact h.appended

/-- **A step comes to the same on both tapes**, if they agree on the cell that it reads. -/
theorem step (h : Shadows p t seen m m')
    (hagree : ∀ i, m.cellRead? = some i → i < p.tape.length → t.get? i = p.tape.get? i) :
    m'.step.1 = m.step.1 ∧ m'.cellRead? = m.cellRead? ∧
      Shadows p t (seen ++ m.cellRead?.toList) m.step.2 m'.step.2 := by
  have haction := h.action hagree
  have hcell : m'.cellRead? = m.cellRead? := by rw [cellRead?, cellRead?, haction, h.head]
  have hread (hcell : m.cellRead? = some m.head.toNat) :
      Shadows p t (seen ++ [m.head.toNat]) m m' :=
    h.read (lt_length_of_cellRead? hcell).2 (h.get?_eq (hagree _ hcell))
  cases hposition : m.action with
  | rest verdict =>
      have hnone : m.cellRead? = none := by rw [cellRead?, hposition]
      rw [step_of_rest hposition, step_of_rest (haction.trans hposition), hnone, Option.toList_none,
        List.append_nil]
      exact ⟨rfl, hcell.trans hnone, h⟩
  | offTape =>
      have hnone : m.cellRead? = none := by rw [cellRead?, hposition]
      rw [step_of_offTape hposition, step_of_offTape (haction.trans hposition), hnone, h.head,
        h.length, Option.toList_none, List.append_nil]
      exact ⟨rfl, hcell.trans hnone, h⟩
  | refuse symbol =>
      have hsome : m.cellRead? = some m.head.toNat := by rw [cellRead?, hposition]
      rw [step_of_refuse hposition, step_of_refuse (haction.trans hposition), hsome]
      exact ⟨rfl, hcell.trans hsome, (hread hsome).rejected⟩
  | apply symbol rule =>
      have hsome : m.cellRead? = some m.head.toNat := by rw [cellRead?, hposition]
      rw [step_of_apply hposition, step_of_apply (haction.trans hposition), hsome]
      exact ⟨rfl, hcell.trans hsome, (hread hsome).apply (by simp) rule⟩

/-- **Steps in a row come to the same on both tapes**, if they agree on the cells that these read. -/
theorem after (h : Shadows p t [] m m') (n : Nat)
    (hagree : ∀ i ∈ m.cellsRead n, i < p.tape.length → t.get? i = p.tape.get? i) :
    (∀ k < n, (m'.after k).step.1 = (m.after k).step.1) ∧ m'.cellsRead n = m.cellsRead n ∧
      Shadows p t (m.cellsRead n) (m.after n) (m'.after n) := by
  induction n with
  | zero => exact ⟨fun k hk => absurd hk (Nat.not_lt_zero k), rfl, h⟩
  | succ n ih =>
      rw [cellsRead_succ] at hagree
      obtain ⟨hresults, hcells, hshadows⟩ := ih fun i hi => hagree i (List.mem_append_left _ hi)
      obtain ⟨hresult, hcell, hnext⟩ := hshadows.step fun i hi =>
        hagree i (List.mem_append_right _ (by simp [hi]))
      refine ⟨?_, ?_, ?_⟩
      · intro k hk
        rcases Nat.lt_or_eq_of_le (Nat.le_of_lt_succ hk) with hlt | rfl
        · exact hresults k hlt
        · exact hresult
      · rw [cellsRead_succ, cellsRead_succ, hcells, hcell]
      · rw [cellsRead_succ]
        exact hnext

end Shadows

/-- **Cells that are never read do not matter.**  Let two programs pass their checks that differ in
their tapes only, which are of one length, and let these agree on the cells that the first `n` steps
of the one machine read.  Then the first `n` steps come to the same on both machines and read the same
cells; the two are in the same state then, with the same head, count and verdict, and on tapes of one
length; the cells that were read hold the same symbol on both sides; and those that were not still
hold what each tape began with. -/
theorem unread_cells_unseen (hlength : t.length = p.tape.length) (hm : Machine.new p = .ok m)
    (hm' : Machine.new (p.onTape t) = .ok m') (n : Nat)
    (hagree : ∀ i ∈ m.cellsRead n, i < p.tape.length → t.get? i = p.tape.get? i) :
    (∀ k < n, (m'.after k).step.1 = (m.after k).step.1) ∧
      m'.cellsRead n = m.cellsRead n ∧
      ((m'.after n).state = (m.after n).state ∧ (m'.after n).head = (m.after n).head ∧
        (m'.after n).steps = (m.after n).steps ∧ (m'.after n).halted = (m.after n).halted ∧
        (m'.after n).tape.length = (m.after n).tape.length) ∧
      (∀ i ∈ m.cellsRead n, ∃ c, (m.after n).tape.get? i = some c ∧
        (m'.after n).tape.get? i = some c) ∧
      ∀ i < p.tape.length, i ∉ m.cellsRead n →
        (m.after n).tape.get? i = p.tape.get? i ∧ (m'.after n).tape.get? i = t.get? i := by
  obtain ⟨hresults, hcells, hshadows⟩ := (shadows_of_new hlength hm hm').after n hagree
  refine ⟨hresults, hcells, ⟨hshadows.state, hshadows.head, hshadows.steps, hshadows.halted,
    hshadows.length⟩, ?_, hshadows.unseen⟩
  intro i hi
  obtain ⟨c, hc⟩ := Tape.exists_get?_of_lt (hshadows.seen_lt i hi)
  exact ⟨c, hc, (hshadows.seen_eq i hi).trans hc⟩

end Machine

/-- The program of the catalogue that walks back, from the second of three cells. -/
def Catalogue.rewindFromSecond (last : Char) : Program :=
  { rewind with tape := ⟨['1', '1', last]⟩, head := 1 }

namespace Machine

open Catalogue in
/-- Walking back from the second cell comes to the first one, stays there and goes on to the second
one, where it accepts; what the third one holds makes no difference and stays. -/
theorem unread_cells_unseen_walking_back :
    ∃ m m', Machine.new (rewindFromSecond 'a') = .ok m ∧
      Machine.new (rewindFromSecond 'b') = .ok m' ∧ m.cellsRead 4 = [1, 0, 0] ∧
      (m'.after 3).step.1 = .ok (.halt .accept) ∧ (m'.after 4).state = "done" ∧
      (m'.after 4).head = 1 ∧ (m'.after 4).steps = 3 ∧ (m'.after 4).tape.get? 0 = some 'y' ∧
      (m.after 4).tape.get? 2 = some 'a' ∧ (m'.after 4).tape.get? 2 = some 'b' := by
  have hmade : Machine.new (rewindFromSecond 'a') = .ok (initial (rewindFromSecond 'a') "back") :=
    rfl
  have hmade' : Machine.new ((rewindFromSecond 'a').onTape ⟨['1', '1', 'b']⟩) =
      .ok (initial (rewindFromSecond 'b') "back") := rfl
  have hread : (initial (rewindFromSecond 'a') "back").cellsRead 4 = [1, 0, 0] := rfl
  obtain ⟨hresults, -, ⟨hstate, hhead, hsteps, -⟩, hcells, hunread⟩ :=
    unread_cells_unseen (by decide) hmade hmade' 4 (by decide)
  obtain ⟨c, hfirst, hfirst'⟩ := hcells 0 (by decide)
  obtain rfl : 'y' = c := Option.some.inj hfirst
  obtain ⟨hthird, hthird'⟩ := hunread 2 (by decide) (by decide)
  exact ⟨_, _, hmade, hmade', hread, hresults 3 (by decide), hstate, hhead, hsteps, hfirst', hthird,
    hthird'⟩

end Machine

end TapeMachine
