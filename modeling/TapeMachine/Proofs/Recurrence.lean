/-
**A bounded machine that goes on for long goes on for ever.**

A step looks at the state, at the tape and at the position of the head, and not at the count.  So a
machine that comes back to a state, a tape and a position in which it was before (`Recurs`) goes
round from there without an end.  On a tape of fixed length a machine that goes on has only so many
of them to choose from: its state is declared, its head is on the tape and every cell holds a
declared symbol or the blank (`Program.snapshots`).  With more transitions than that two of them
start alike, by the pigeonhole principle.

A cap that is at least as large as that number therefore decides whether the machine stops.

Main definitions:

* `TapeMachine.Machine.recount`, `TapeMachine.Machine.Recurs` — the same machine with another count,
  and a machine that is the same but for the count;
* `TapeMachine.Machine.snapshot`, `TapeMachine.Program.snapshots` — state, position and tape of a
  machine, and those of a bounded machine that goes on;
* `TapeMachine.Program.snapshotCount` — the number of these.

Main results:

* `TapeMachine.Machine.Recurs.after` — what has recurred goes on alike;
* `TapeMachine.Machine.moves_of_recurs` — a machine that recurs goes on for ever;
* `TapeMachine.Machine.moves_of_moves_snapshotCount` — and so does one that goes on for long;
* `TapeMachine.Machine.large_cap_decides` — **a cap that is large enough decides whether a bounded
  machine stops**.
-/

import Mathlib.Data.Fintype.BigOperators
import TapeMachine.Proofs.BoundedTape
import TapeMachine.Proofs.StepCap
import TapeMachine.Proofs.Vocabulary

set_option relaxedAutoImplicit false
set_option autoImplicit false

namespace TapeMachine

namespace Machine

/-! ### The same but for the count -/

/-- The machine with another count. -/
def recount (m : Machine) (n : Nat) : Machine := { m with steps := n }

/-- The second machine is the first one with another count. -/
def Recurs (m m' : Machine) : Prop := ∃ n, m' = m.recount n

theorem eq_recount {m m' : Machine} (hprogram : m.program = m'.program)
    (hstart : m.start = m'.start) (haccepting : m.accepting = m'.accepting)
    (hstate : m.state = m'.state) (htape : m.tape = m'.tape) (hhead : m.head = m'.head)
    (hhalt : m.halt = m'.halt) : m' = m.recount m'.steps := by
  simp only [recount, hprogram, hstart, haccepting, hstate, htape, hhead, hhalt]

theorem rejected_recount (m : Machine) (n : Nat) :
    (m.recount n).rejected = m.rejected.recount n := by
  cases hprofile : m.program.profile with
  | unbounded => simp [rejected, recount, hprofile]
  | bounded bounds => simp [rejected, recount, hprofile]

/-- **No step looks at the count.** -/
theorem Recurs.step {m m' : Machine} (h : m.Recurs m') :
    m'.step.1 = m.step.1 ∧ m.step.2.Recurs m'.step.2 := by
  obtain ⟨n, rfl⟩ := h
  have haction : (m.recount n).action = m.action := rfl
  rcases action_cases m with ⟨verdict, -, hposition⟩ | ⟨-, -, hposition⟩ |
    ⟨symbol, -, -, -, hposition⟩ | ⟨symbol, rule, -, -, -, hposition⟩
  · rw [step_of_rest hposition, step_of_rest (haction.trans hposition)]
    exact ⟨rfl, n, rfl⟩
  · rw [step_of_offTape hposition, step_of_offTape (haction.trans hposition)]
    exact ⟨rfl, n, rfl⟩
  · rw [step_of_refuse hposition, step_of_refuse (haction.trans hposition)]
    exact ⟨rfl, n, rejected_recount m n⟩
  · rw [step_of_apply hposition, step_of_apply (haction.trans hposition)]
    exact ⟨rfl, n + 1, rfl⟩

/-- What has recurred goes on alike. -/
theorem Recurs.after {m m' : Machine} (h : m.Recurs m') (n : Nat) :
    (m.after n).Recurs (m'.after n) := by
  induction n with
  | zero => exact h
  | succ n ih => exact ih.step.2

/-- **A machine that recurs goes on for ever.** -/
theorem moves_of_recurs {m : Machine} {i j : Nat} (hij : i < j) (hmoves : m.Moves j)
    (h : (m.after i).Recurs (m.after j)) (k : Nat) : (m.after k).step.1 = .ok .continue := by
  induction k using Nat.strongRecOn with
  | ind k ih =>
      rcases Nat.lt_or_ge k j with hlt | hge
      · exact hmoves k hlt
      · -- one round earlier the machine was the same but for the count
        obtain ⟨d, rfl⟩ := Nat.exists_eq_add_of_le hge
        have hsame := (h.after d).step.1
        rw [after_add, after_add] at hsame
        rw [hsame]
        exact ih (i + d) (by omega)

end Machine

/-! ### What there is to choose from -/

/-- Two tapes of one length that hold the same symbols are the same tape. -/
theorem Tape.eq_of_getD_eq {t t' : Tape} {n : Nat} (blank : Char) (ht : t.length = n)
    (ht' : t'.length = n) (h : ∀ i < n, (t.get? i).getD blank = (t'.get? i).getD blank) :
    t = t' := by
  refine congrArg Tape.mk (List.ext_getElem? ?_)
  intro i
  change t.get? i = t'.get? i
  by_cases hi : i < n
  · obtain ⟨c, hc⟩ := exists_get?_of_lt (show i < t.length by omega)
    obtain ⟨c', hc'⟩ := exists_get?_of_lt (show i < t'.length by omega)
    have hsame := h i hi
    rw [hc, hc', Option.getD_some, Option.getD_some] at hsame
    rw [hc, hc', hsame]
  · rw [get?_eq_none_iff.2 (by omega), get?_eq_none_iff.2 (by omega)]

namespace Program

/-- The number of declared states, times the number of cells, times the number of ways to fill the
cells with declared symbols and blanks. -/
def snapshotCount (p : Program) (bounds : Bounds) : Nat :=
  bounds.states.toFinset.card * p.tape.length *
    (insert p.blank bounds.alphabet.toFinset).card ^ p.tape.length

/-- The states, positions and tapes of a bounded machine that goes on. -/
def snapshots (p : Program) (bounds : Bounds) :
    Finset (String × Nat × (Fin p.tape.length → Char)) :=
  bounds.states.toFinset ×ˢ Finset.range p.tape.length ×ˢ
    Fintype.piFinset fun _ => insert p.blank bounds.alphabet.toFinset

theorem card_snapshots (p : Program) (bounds : Bounds) :
    (p.snapshots bounds).card = p.snapshotCount bounds := by
  rw [snapshots, snapshotCount, Finset.card_product, Finset.card_product, Finset.card_range,
    Fintype.card_piFinset_const, Nat.mul_assoc]

end Program

namespace Machine

/-- The state, the position and the first `n` cells of a machine, blank where there are none. -/
def snapshot (n : Nat) (blank : Char) (m : Machine) : String × Nat × (Fin n → Char) :=
  (m.state, m.head.toNat, fun i => (m.tape.get? i).getD blank)

section Bounded

variable {p : Program} {bounds : Bounds} {past past' : List Machine} {m m' : Machine}

/-- A machine that goes on has halted in no way and has its head on the tape. -/
theorem on_tape_of_continue (hgo : m.step.1 = .ok .continue) :
    m.halted = none ∧ 0 ≤ m.head ∧ m.head < m.tape.length := by
  obtain ⟨symbol, rule, haction, -⟩ := exists_apply_of_continue hgo
  obtain ⟨hhalted, hsymbol, -⟩ := action_eq_apply_iff.1 haction
  exact ⟨hhalted, head_lt_of_symbol? hsymbol⟩

/-- There is only so much to choose from. -/
theorem snapshot_mem (hp : p.profile = .bounded bounds) (h : Reaches p past m)
    (hgo : m.step.1 = .ok .continue) :
    m.snapshot p.tape.length p.blank ∈ p.snapshots bounds := by
  have hlength := (h.confined hp).length_eq
  obtain ⟨-, h0, hlt⟩ := on_tape_of_continue hgo
  obtain ⟨-, hstate, hcells⟩ := h.within_vocabulary
  simp only [Program.vocabulary, hp] at hstate hcells
  simp only [snapshot, Program.snapshots, Finset.mem_product, List.mem_toFinset, Finset.mem_range,
    Fintype.mem_piFinset, Finset.mem_insert]
  refine ⟨hstate, by omega, ?_⟩
  intro i
  cases hcell : m.tape.get? i with
  | none => exact Or.inl rfl
  | some c => exact (hcells c (List.mem_of_getElem? hcell)).symm

/-- Two machines that go on from the same state, position and tape are the same but for the
count. -/
theorem recurs_of_snapshot_eq (hp : p.profile = .bounded bounds) (h : Reaches p past m)
    (h' : Reaches p past' m') (hgo : m.step.1 = .ok .continue) (hgo' : m'.step.1 = .ok .continue)
    (heq : m.snapshot p.tape.length p.blank = m'.snapshot p.tape.length p.blank) :
    m.Recurs m' := by
  -- both are made from the same things, since both begin anew as the fresh machine
  have hreset : m.reset = m'.reset := Except.ok.inj (h.new_reset.symm.trans h'.new_reset)
  obtain ⟨hprogram, hstart, haccepting, -⟩ := Machine.mk.inj hreset
  obtain ⟨hhalted, h0, -⟩ := on_tape_of_continue hgo
  obtain ⟨hhalted', h0', -⟩ := on_tape_of_continue hgo'
  have hstate : m.state = m'.state := congrArg Prod.fst heq
  have hhead : m.head.toNat = m'.head.toNat := congrArg (fun s => s.2.1) heq
  have hcells := congrArg (fun s => s.2.2) heq
  have htape : m.tape = m'.tape := by
    refine Tape.eq_of_getD_eq p.blank (h.confined hp).length_eq (h'.confined hp).length_eq ?_
    intro i hi
    exact congrFun hcells ⟨i, hi⟩
  refine ⟨m'.steps, ?_⟩
  exact eq_recount hprogram hstart haccepting hstate htape (by omega)
    ((halt_eq_none_of_halted hhalted).trans (halt_eq_none_of_halted hhalted').symm)

/-- **A bounded machine that makes more transitions than there is to choose from goes on for
ever.** -/
theorem moves_of_moves_snapshotCount (hp : p.profile = .bounded bounds)
    (hm : Machine.new p = .ok m) (hmoves : m.Moves (p.snapshotCount bounds + 1)) (k : Nat) :
    (m.after k).step.1 = .ok .continue := by
  have hreaches (i : Nat) : ∃ past, Reaches p past (m.after i) :=
    Reaches.exists_after (.made hm .refl) i
  have hmaps : ∀ i ∈ Finset.range (p.snapshotCount bounds + 1),
      (m.after i).snapshot p.tape.length p.blank ∈ p.snapshots bounds := by
    intro i hi
    obtain ⟨past, hpast⟩ := hreaches i
    exact snapshot_mem hp hpast (hmoves i (Finset.mem_range.1 hi))
  have hcard : (p.snapshots bounds).card < (Finset.range (p.snapshotCount bounds + 1)).card := by
    rw [Program.card_snapshots, Finset.card_range]
    exact Nat.lt_succ_self _
  -- of two places where the machine is the same but for the count, the earlier one begins the round
  have hround : ∀ i j, i < j → j < p.snapshotCount bounds + 1 →
      (m.after i).snapshot p.tape.length p.blank = (m.after j).snapshot p.tape.length p.blank →
      (m.after k).step.1 = .ok .continue := by
    intro i j hij hj heq
    obtain ⟨past, hpast⟩ := hreaches i
    obtain ⟨past', hpast'⟩ := hreaches j
    have hrecurs := recurs_of_snapshot_eq hp hpast hpast' (hmoves i (by omega)) (hmoves j hj) heq
    exact moves_of_recurs hij (hmoves.of_le (by omega)) hrecurs k
  obtain ⟨i, hi, j, hj, hne, heq⟩ := Finset.exists_ne_map_eq_of_card_lt_of_maps_to hcard hmaps
  rw [Finset.mem_range] at hi hj
  rcases Nat.lt_or_gt_of_ne hne with hij | hji
  · exact hround i j hij hj heq
  · exact hround j i hji hi heq.symm

/-- **A cap that is large enough decides whether a bounded machine stops.**  Let the cap be no less
than the number of declared states, times the number of cells, times the number of ways to fill the
cells with declared symbols and blanks.  If the capped run reports the cap then without a cap every
step goes on, so that the machine never halts and never leaves its tape; and only then. -/
theorem large_cap_decides (hp : p.profile = .bounded bounds) (hm : Machine.new p = .ok m)
    {limit : Nat} (hlimit : p.snapshotCount bounds ≤ limit) :
    ∃ capped free, Machine.new (p.withMaxSteps limit) = .ok capped ∧
      Machine.new (p.recap none) = .ok free ∧
      (∀ f, capped.Ends (.error (.stepLimitExceeded limit)) f →
        ∀ k, (free.after k).step.1 = .ok .continue ∧ (free.after k).halted = none ∧
          0 ≤ (free.after k).head ∧ (free.after k).head < (free.after k).tape.length) ∧
      ((∀ k, (free.after k).step.1 = .ok .continue) →
        ∃ f, capped.Ends (.error (.stepLimitExceeded limit)) f) := by
  have hfree := new_recap hm none
  have hcapped := new_recap hm (some limit)
  obtain ⟨-, start, -, rfl⟩ := new_eq_ok_iff.1 hm
  have hcut : ¬ ((initial p start).recap none).StopsWithin limit ↔
      ∃ f, ((initial p start).recap (some limit)).Ends (.error (.stepLimitExceeded limit)) f :=
    not_stopsWithin_iff rfl rfl
  refine ⟨_, _, hcapped, hfree, ?_, ?_⟩
  · intro f hends k
    have hmoves := (moves_of_not_stopsWithin (hcut.2 ⟨f, hends⟩)).of_le (Nat.succ_le_succ hlimit)
    have hgo := moves_of_moves_snapshotCount (p := p.recap none) hp hfree hmoves k
    exact ⟨hgo, on_tape_of_continue hgo⟩
  · intro hgo
    refine hcut.1 ?_
    rintro ⟨k, -, -, hstop⟩
    exact hstop (hgo k)

end Bounded

end Machine

/-- A head that swings between two cells for as long as they are blank. -/
def Description.swing : Description :=
  ⟨"swing", ["there", "back", "accept", "reject"], [],
    [⟨"there", '_', "back", '_', .left⟩, ⟨"back", '_', "there", '_', .right⟩], "there", "accept",
    "reject", '_', none⟩

namespace Machine

/-- Four states are declared, there are two cells, and nothing to put on them but the blank; so a
cap of eight decides that the head never comes to rest. -/
theorem large_cap_decides_swing :
    (Description.swing.build "").snapshotCount Description.swing.bounds = 8 ∧
    ∃ capped free f, Machine.new ((Description.swing.build "").withMaxSteps 8) = .ok capped ∧
      Machine.new (Description.swing.build "") = .ok free ∧
      capped.Ends (.error (.stepLimitExceeded 8)) f ∧
      ∀ k, (free.after k).step.1 = .ok .continue ∧ (free.after k).halted = none ∧
        0 ≤ (free.after k).head ∧ (free.after k).head < (free.after k).tape.length := by
  have hcount : (Description.swing.build "").snapshotCount Description.swing.bounds = 8 := by decide
  have hmade : Machine.new (Description.swing.build "") =
      .ok (initial (Description.swing.build "") "there") := rfl
  obtain ⟨capped, free, hcapped, hfree, hforever, -⟩ :=
    large_cap_decides rfl hmade (Nat.le_of_eq hcount)
  obtain rfl : (initial (Description.swing.build "") "there").recap (some 8) = capped :=
    Except.ok.inj hcapped
  have hends : ((initial (Description.swing.build "") "there").recap (some 8)).Ends
      (.error (.stepLimitExceeded 8)) _ := ⟨9, rfl⟩
  exact ⟨hcount, _, free, _, hcapped, hfree, hends, hforever _ hends⟩

end Machine

end TapeMachine
