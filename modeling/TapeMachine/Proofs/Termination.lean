/-
**Every program of the catalogue halts.**

No program of the catalogue has a cap, and still each of them halts on every input that suits it.
Four of them read their input once: their rules go to the right, and those that read a blank go to a
state with a verdict (`Machine.OnePass`).  The blank behind the input is the last thing that they
can read, so they make at most one transition more than there are symbols, whatever the symbols
are.  The other one walks back.  Every transition but the last leaves one cell less to the left; on
the first cell the head cannot go on, finds the mark that it has just written, and the rule for that
mark is the last one to be applied.

So the command comes to an end: each run of a program that it makes does, with a cap because of the
cap and without one because the program halts, and it makes no more runs than there are programs.

Main definitions:

* `TapeMachine.Machine.HaltsWithin` — a run ends with a verdict after at most so many transitions;
* `TapeMachine.Machine.OnePass` — the input is read once;
* `TapeMachine.CommandLine.Finishes` — with enough rounds there is one answer.

Main results:

* `TapeMachine.Machine.OnePass.haltsWithin` — **a machine that reads its input once halts**;
* `TapeMachine.Catalogue.haltsWithin_rewind` — and so does the one that walks back;
* `TapeMachine.Catalogue.not_suits_iff` — the inputs that are refused;
* `TapeMachine.CommandLine.finishes_sequenceFor` — programs run one after the other come to an end;
* `TapeMachine.CommandLine.catalogue_halts` — **every program of the catalogue halts on every input,
  and the command comes to an end**.
-/

import Mathlib.Data.List.Induction
import TapeMachine.Proofs.DebugTrace
import TapeMachine.Proofs.Inputs
import TapeMachine.Proofs.Sweep

set_option relaxedAutoImplicit false
set_option autoImplicit false

namespace TapeMachine

namespace Machine

/-! ### Machines that read their input once -/

/-- A run ends with a verdict after at most so many transitions. -/
def HaltsWithin (m : Machine) (limit : Nat) : Prop :=
  ∃ outcome f, m.Ends (.ok outcome) f ∧ outcome.steps ≤ limit

variable {m m' : Machine}

theorem HaltsWithin.mono {limit limit' : Nat} (h : m.HaltsWithin limit) (hle : limit ≤ limit') :
    m.HaltsWithin limit' := by
  obtain ⟨outcome, f, hends, hsteps⟩ := h
  exact ⟨outcome, f, hends, Nat.le_trans hsteps hle⟩

theorem HaltsWithin.of_runFor {limit k : Nat} (h : m'.HaltsWithin limit)
    (hrun : ∀ n, m.runFor (n + k) = m'.runFor n) : m.HaltsWithin limit := by
  obtain ⟨outcome, f, hends, hsteps⟩ := h
  exact ⟨outcome, f, hends.of_runFor hrun, hsteps⟩

variable {state : String} {left rest input : List Char} {c : Char} {steps : Nat}

/-- A machine halts with a rule to the right into a state with a verdict. -/
theorem haltsWithin_of_last (hcap : m.program.maxSteps = none) (hgoes : m.verdictOf state = none)
    {next : String} {write : Char} (hrule : m.HasRule state c next write .right)
    (h : (m.verdictOf next).isSome = true) :
    (m.placed state left (c :: rest) steps).HaltsWithin (steps + 1) := by
  obtain ⟨verdict, hverdict⟩ := Option.isSome_iff_exists.1 h
  obtain ⟨f, hends⟩ := ends_placed_of_last m hcap hgoes hrule hverdict rfl
  exact ⟨_, f, hends, Nat.le_refl _⟩

/-- A machine on a cell halts where it is, or it has a rule. -/
theorem haltsWithin_or_goes (m : Machine) :
    (m.placed state left (c :: rest) steps).HaltsWithin steps ∨
      (m.verdictOf state = none ∧ ∃ r, m.ruleFor state c = some r) := by
  cases hverdict : m.verdictOf state with
  | some verdict => exact Or.inl ⟨_, _, ends_placed_of_verdict m hverdict rfl, Nat.le_refl steps⟩
  | none =>
      cases hrule : m.ruleFor state c with
      | none => exact Or.inl ⟨_, _, ends_placed_of_no_rule m hverdict hrule rfl, Nat.le_refl steps⟩
      | some r => exact Or.inr ⟨rfl, r, rfl⟩

/-- Every rule goes to the right, and those that read a blank go to a state with a verdict. -/
structure OnePass (m : Machine) : Prop where
  /-- There is no cap. -/
  cap : m.program.maxSteps = none
  /-- Every rule goes to the right. -/
  right : ∀ r ∈ m.program.rules, r.direction = .right
  /-- After a blank there is a verdict. -/
  blank : ∀ r ∈ m.program.rules, r.read = m.program.blank → (m.verdictOf r.next.name).isSome = true

/-- The rule for a state and a symbol is a rule to the right which reads the symbol. -/
theorem OnePass.hasRule (h : m.OnePass) {r : Rule} (hrule : m.ruleFor state c = some r) :
    r ∈ m.program.rules ∧ r.read = c ∧ m.HasRule state c r.next.name r.write .right := by
  obtain ⟨hmem, hread⟩ := mem_of_ruleFor m hrule
  exact ⟨hmem, hread, r, hrule, rfl, rfl, h.right r hmem⟩

/-- **A machine that reads its input once halts**, after at most one transition for each symbol that
is left, and one for the blank behind them. -/
theorem OnePass.haltsWithin (h : m.OnePass) :
    (m.facing state left input steps).HaltsWithin (steps + input.length + 1) := by
  induction input generalizing state left steps with
  | nil =>
      rw [facing_nil]
      rcases haltsWithin_or_goes m with hhalts | ⟨hgoes, r, hrule⟩
      · exact hhalts.mono (Nat.le_succ steps)
      · obtain ⟨hmem, hread, hhas⟩ := h.hasRule hrule
        exact haltsWithin_of_last h.cap hgoes hhas (h.blank r hmem hread)
  | cons c input ih =>
      rcases haltsWithin_or_goes m with hhalts | ⟨hgoes, r, hrule⟩
      · rw [facing_cons]
        exact hhalts.mono (by omega)
      · obtain ⟨-, -, hhas⟩ := h.hasRule hrule
        have hhalts : (m.facing state left (c :: input) steps).HaltsWithin
            (steps + 1 + input.length + 1) :=
          ih.of_runFor (runFor_facing_right h.cap hgoes hhas)
        rw [List.length_cons]
        exact hhalts.mono (by omega)

/-- A program that reads its input once halts on every input that suits it. -/
theorem haltsWithin_of_onePass {p : Program} {s start : String} (h : (initial p start).OnePass)
    (hbehind : p.head = (p.profile.behind p.blank).length) (hs : p.Suits s) :
    (initial (p.withInput s) start).HaltsWithin (s.toList.length + 1) := by
  have honce : (initial (p.withInput s) start).OnePass := ⟨h.cap, h.right, h.blank⟩
  rw [initial_eq_facing hbehind hs.head start]
  exact honce.haltsWithin.mono (by omega)

end Machine

/-! ### The programs of the catalogue -/

namespace Catalogue

open Machine

/-- The machine that walks back, on an input. -/
def rewindOn (s : String) : Machine := initial (rewind.withInput s) "back"

section Rewind

variable (s : String) (left rest : List Char) (steps : Nat)

/-- On a mark it halts with one more transition. -/
theorem haltsWithin_rewind_of_mark :
    ((rewindOn s).placed "back" left ('x' :: rest) steps).HaltsWithin (steps + 1) := by
  have hrule : (rewindOn s).HasRule "back" 'x' "done" 'y' .right := ⟨_, rfl, rfl, rfl, rfl⟩
  exact haltsWithin_of_last rfl rfl hrule rfl

/-- Only from a one it goes on. -/
theorem haltsWithin_rewind_or_one (c : Char) :
    ((rewindOn s).placed "back" left (c :: rest) steps).HaltsWithin (steps + 1) ∨ c = '1' := by
  rcases haltsWithin_or_goes (rewindOn s) with hhalts | ⟨-, r, hrule⟩
  · exact Or.inl (hhalts.mono (Nat.le_succ steps))
  · have hreads : ∀ q ∈ rewind.rules, q.read = '1' ∨ q.read = 'x' := by decide
    obtain ⟨hmem, rfl⟩ := mem_of_ruleFor _ hrule
    rcases hreads r hmem with hone | hmark
    · exact Or.inr hone
    · rw [hmark]
      exact Or.inl (haltsWithin_rewind_of_mark s left rest steps)

/-- **It halts from every cell**: there are as many transitions to come as there are cells to the
left, and at most two on the first cell. -/
theorem haltsWithin_rewind (c : Char) :
    ((rewindOn s).placed "back" left (c :: rest) steps).HaltsWithin
      (steps + left.length + 2) := by
  have hback : (rewindOn s).HasRule "back" '1' "back" 'x' .left := ⟨_, rfl, rfl, rfl, rfl⟩
  induction left using List.reverseRecOn generalizing c rest steps with
  | nil =>
      rcases haltsWithin_rewind_or_one s [] rest steps c with hhalts | rfl
      · exact hhalts.mono (by omega)
      · -- the head cannot go on, and is on the mark
        exact (haltsWithin_rewind_of_mark s [] rest (steps + 1)).of_runFor
          (runFor_placed_first _ rfl rfl rfl hback)
  | append_singleton left last ih =>
      rcases haltsWithin_rewind_or_one s (left ++ [last]) rest steps c with hhalts | rfl
      · exact hhalts.mono (by omega)
      · have hhalts := (ih ('x' :: rest) (steps + 1) last).of_runFor
          (runFor_placed_left _ rfl rfl rfl hback)
        rw [List.length_append, List.length_singleton]
        exact hhalts.mono (by omega)

end Rewind

theorem mem_programs {p : Program} :
    p ∈ programs ↔ p = flipTwo ∨ p = flipTwoBounded ∨ p = invert ∨ p = rewind ∨ p = evenOnes := by
  simp [programs]

/-- A program of the catalogue passes its check. -/
theorem check_eq_ok {p : Program} (hp : p ∈ programs) : p.check = .ok () := by
  rcases mem_programs.1 hp with rfl | rfl | rfl | rfl | rfl
  all_goals rfl

/-- All programs of the catalogue but one read their input once. -/
theorem onePass_or_rewind {p : Program} (hp : p ∈ programs) :
    (∃ start, p.startState = .ok start ∧ p.head = (p.profile.behind p.blank).length ∧
      (initial p start).OnePass) ∨ p = rewind := by
  rcases mem_programs.1 hp with rfl | rfl | rfl | rfl | rfl
  · exact Or.inl ⟨"q0", rfl, rfl, rfl, by decide, by decide⟩
  · exact Or.inl ⟨"q0", rfl, rfl, rfl, by decide, by decide⟩
  · exact Or.inl ⟨"scan", rfl, rfl, rfl, by decide, by decide⟩
  · exact Or.inr rfl
  · exact Or.inl ⟨"even", rfl, rfl, rfl, by decide, by decide⟩

/-- A machine that is made for a program of the catalogue on an input halts. -/
theorem haltsWithin_of_new {p : Program} (hp : p ∈ programs) {s : String} {m : Machine}
    (hm : Machine.new (p.withInput s) = .ok m) : m.HaltsWithin (s.toList.length + 1) := by
  have hsuits : p.Suits s :=
    (Program.check_withInput_iff (check_eq_ok hp)).1 (new_eq_ok_iff.1 hm).1
  obtain ⟨-, start, hstart, rfl⟩ := new_eq_ok_iff.1 hm
  rcases onePass_or_rewind hp with ⟨start', hstart', hbehind, honce⟩ | rfl
  · obtain rfl : start' = start := Except.ok.inj (hstart'.symm.trans hstart)
    exact haltsWithin_of_onePass honce hbehind hsuits
  · obtain rfl : "back" = start := Except.ok.inj hstart
    have hcells : 2 < s.toList.length := (Program.suits_unbounded_iff rfl).1 hsuits
    obtain ⟨a, b, c, rest, hs⟩ : ∃ a b c rest, s.toList = [a, b] ++ c :: rest := by
      match s.toList, hcells with
      | a :: b :: c :: rest, _ => exact ⟨a, b, c, rest, rfl⟩
    have htape : (rewind.withInput s).tape = ⟨[a, b] ++ c :: rest⟩ := by
      rw [← hs]
      rfl
    have hhalts := haltsWithin_rewind s [a, b] rest 0 c
    rw [initial_eq_placed htape rfl "back"]
    exact hhalts.mono (by simp only [List.length_cons, List.length_nil]; omega)

/-- What the bounded programs of the catalogue have in common. -/
theorem bounded_programs {p : Program} (hp : p ∈ programs) {bounds : Bounds}
    (hprofile : p.profile = .bounded bounds) :
    p.name ≠ "rewind" ∧ p.head = 1 ∧ p.blank = '_' ∧ bounds.alphabet = ['0', '1'] := by
  rcases mem_programs.1 hp with rfl | rfl | rfl | rfl | rfl
  · exact nomatch hprofile
  · obtain rfl := Profile.bounded.inj hprofile
    exact ⟨by decide, rfl, rfl, rfl⟩
  · exact nomatch hprofile
  · exact nomatch hprofile
  · obtain rfl := Profile.bounded.inj hprofile
    exact ⟨by decide, rfl, rfl, rfl⟩

/-- **The inputs that are refused**: the empty one if the tape can grow, those that do not reach to
the head of the one that walks back, and those with other symbols if the program is bounded. -/
theorem not_suits_iff {p : Program} (hp : p ∈ programs) (s : String) :
    ¬ p.Suits s ↔
      (p.profile = .unbounded ∧ s = "") ∨ (p.name = "rewind" ∧ s.toList.length < 3) ∨
        (p.profile.isBounded = true ∧ ∃ c ∈ s.toList, c ≠ '0' ∧ c ≠ '1' ∧ c ≠ '_') := by
  cases hprofile : p.profile with
  | unbounded =>
      have hplaces : ∀ q ∈ programs, q.profile = .unbounded →
          (q.name = "rewind" ∧ q.head = 2) ∨ (q.name ≠ "rewind" ∧ q.head = 0) := by decide
      have hempty : s = "" ↔ s.toList.length = 0 := by
        rw [List.length_eq_zero_iff, String.toList_eq_nil_iff]
      rw [Program.suits_unbounded_iff hprofile, hempty]
      rcases hplaces p hp hprofile with ⟨hname, hhead⟩ | ⟨hname, hhead⟩
      · constructor
        · intro h
          exact Or.inr (Or.inl ⟨hname, by omega⟩)
        · rintro (⟨-, hnone⟩ | ⟨-, hfew⟩ | ⟨hbounded, -⟩)
          · omega
          · omega
          · exact nomatch hbounded
      · simp [hname, hhead, Profile.isBounded]
  | bounded bounds =>
      obtain ⟨hname, hhead, hblank, halphabet⟩ := bounded_programs hp hprofile
      rw [Program.suits_bounded_iff hprofile, hhead, hblank, halphabet]
      simp [hname, Profile.isBounded, and_assoc]

end Catalogue

/-! ### The command -/

namespace CommandLine

/-- With enough rounds there is one answer. -/
def Finishes {α : Type} (answer : Nat → Option α) : Prop :=
  ∃ a rounds, ∀ n, rounds ≤ n → answer n = some a

theorem finishes_some {α : Type} (a : α) : Finishes fun _ => some a := ⟨a, 0, fun _ _ => rfl⟩

theorem Finishes.map {α β : Type} {answer : Nat → Option α} (h : Finishes answer) (g : α → β) :
    Finishes fun n => (answer n).map g := by
  obtain ⟨a, rounds, ha⟩ := h
  refine ⟨g a, rounds, ?_⟩
  intro n hn
  change (answer n).map g = some (g a)
  rw [ha n hn, Option.map_some]

/-- Where a run of the machine ends, what the program shows is there with as many rounds, with its
steps shown or without. -/
theorem finishes_runFor {o : Options} {p : Program} (hcap : p.maxSteps = o.maxSteps)
    (h : ∀ m, Machine.new p = .ok m → ∃ result f, m.Ends result f) :
    Finishes fun n => runFor n o p := by
  cases hm : Machine.new p with
  | error e =>
      refine ⟨⟨[], some e⟩, 0, ?_⟩
      intro n _
      simp [runFor, hm]
  | ok m =>
      obtain ⟨result, f, rounds, hrun⟩ := h m hm
      cases hdebug : o.debug with
      | false =>
          refine ⟨ending o.json p result, rounds, ?_⟩
          intro n hn
          have hshows : finishFor n o p m = some (ending o.json p result) :=
            finishFor_of_ended (Machine.runFor_of_le hrun hn)
          simp [runFor, hm, hdebug, hshows]
      | true =>
          have hmade : m.program.maxSteps = o.maxSteps := by
            rw [Machine.program_of_new hm, hcap]
          refine ⟨(ending o.json p result).after (traceLines m (f.steps - m.steps)), rounds, ?_⟩
          intro n hn
          obtain ⟨k, -, hsteps, hshows⟩ :=
            exists_debugFor_of_ended (p := p) hmade (Machine.runFor_of_le hrun hn)
          obtain rfl : k = f.steps - m.steps := by omega
          simp [runFor, hm, hdebug, hshows]

/-- Without a cap the options put a program of the catalogue on some input. -/
theorem exists_configure_eq {o : Options} (hcap : o.maxSteps = none) {p : Program}
    (hp : p ∈ Catalogue.programs) : ∃ s, configure o p = p.withInput s := by
  have hown : ∀ q ∈ Catalogue.programs, q.withInput q.initialTape = q := by decide
  cases hinput : o.input with
  | none => exact ⟨p.initialTape, by rw [configure, hcap, hinput, hown p hp]⟩
  | some input => exact ⟨input, by rw [configure, hcap, hinput]⟩

/-- Whatever the options are, the run of a program of the catalogue ends. -/
theorem ends_of_configure (o : Options) {p : Program} (hp : p ∈ Catalogue.programs) {m : Machine}
    (hm : Machine.new (configure o p) = .ok m) : ∃ result f, m.Ends result f := by
  cases hcap : o.maxSteps with
  | some limit =>
      have hmade : m.program.maxSteps = some limit := by
        rw [Machine.program_of_new hm, maxSteps_configure o hp, hcap]
      obtain ⟨result, f, hrun⟩ := Machine.exists_ended_of_capped hmade
      exact ⟨result, f, _, hrun⟩
  | none =>
      obtain ⟨s, hs⟩ := exists_configure_eq hcap hp
      rw [hs] at hm
      obtain ⟨outcome, f, hends, -⟩ := Catalogue.haltsWithin_of_new hp hm
      exact ⟨_, f, hends⟩

/-- **Programs run one after the other come to an end**, by induction on the programs that are left:
the rounds that are enough for all of them are enough for each. -/
theorem finishes_sequenceFor (o : Options) (titled : Bool) (ps : List Program)
    (hps : ∀ p ∈ ps, p ∈ Catalogue.programs) (opening : List String) :
    Finishes fun n => sequenceFor n o titled opening ps := by
  induction ps generalizing opening with
  | nil => exact finishes_some _
  | cons p rest ih =>
      have hp : p ∈ Catalogue.programs := hps p List.mem_cons_self
      obtain ⟨⟨lines, error⟩, rounds, hshown⟩ :=
        finishes_runFor (maxSteps_configure o hp) fun m hm => ends_of_configure o hp hm
      cases error with
      | some e =>
          refine ⟨⟨opening ++ titleLines titled p ++ lines, some (.running p.name e)⟩, rounds, ?_⟩
          intro n hn
          simp [sequenceFor, hshown n hn]
      | none =>
          obtain ⟨reply, rounds', hreply⟩ :=
            ih (fun q hq => hps q (List.mem_cons_of_mem p hq)) [""]
          refine ⟨reply.after (opening ++ titleLines titled p ++ lines), max rounds rounds', ?_⟩
          intro n hn
          simp [sequenceFor, hshown n (by omega), hreply n (by omega)]

/-- The programs that the options ask for are in the catalogue. -/
theorem mem_programs_of_chosen {o : Options} {ps : List Program} (h : chosen o = .ok ps) :
    ∀ p ∈ ps, p ∈ Catalogue.programs := by
  cases hprogram : o.program with
  | none =>
      obtain rfl := Except.ok.inj ((chosen_of_none hprogram).symm.trans h)
      exact fun p hp => hp
  | some name =>
      simp only [chosen, hprogram] at h
      cases hname : Catalogue.byName name with
      | error e => simp only [hname, Except.map, reduceCtorEq] at h
      | ok p =>
          simp only [hname, Except.map, Except.ok.injEq] at h
          subst h
          intro q hq
          obtain rfl := List.mem_singleton.1 hq
          exact (Catalogue.mem_of_byName hname).1

theorem finishes_performFor (o : Options) : Finishes fun n => performFor n o := by
  by_cases hlist : o.list = true
  · simp only [performFor, hlist]
    exact finishes_some _
  · cases hchosen : chosen o with
    | error e =>
        simp only [performFor, hlist, hchosen]
        exact finishes_some _
    | ok ps =>
        simp only [performFor, hlist, hchosen]
        exact finishes_sequenceFor o _ ps (mem_programs_of_chosen hchosen) []

/-- **Every program of the catalogue halts on every input, and the command comes to an end.**  No
machine is made for the empty input of a tape that can grow, for an input of the program that walks
back which does not reach to its head, and for an input of a bounded program with a symbol that is
neither a digit nor the blank; on any other input of any program the run ends with a verdict, with
no cap and after at most one transition more than the input has symbols.  So with enough rounds the
command has one answer to any options, and to any arguments. -/
theorem catalogue_halts :
    (∀ p ∈ Catalogue.programs, p.maxSteps = none ∧ ∀ s : String,
      ((∃ e, Machine.new (p.withInput s) = .error e) ↔
        (p.profile = .unbounded ∧ s = "") ∨ (p.name = "rewind" ∧ s.toList.length < 3) ∨
          (p.profile.isBounded = true ∧ ∃ c ∈ s.toList, c ≠ '0' ∧ c ≠ '1' ∧ c ≠ '_')) ∧
      ∀ m, Machine.new (p.withInput s) = .ok m → m.HaltsWithin (s.toList.length + 1)) ∧
    (∀ o : Options, Finishes fun n => performFor n o) ∧
    ∀ arguments : List String, Finishes fun n => replyFor n arguments := by
  refine ⟨?_, finishes_performFor, ?_⟩
  · have hcaps : ∀ p ∈ Catalogue.programs, p.maxSteps = none := by decide
    intro p hp
    refine ⟨hcaps p hp, ?_⟩
    intro s
    refine ⟨?_, fun m hm => Catalogue.haltsWithin_of_new hp hm⟩
    rw [Program.exists_new_withInput_eq_error_iff (Catalogue.check_eq_ok hp),
      Catalogue.not_suits_iff hp]
  · intro arguments
    cases hparse : parse? arguments with
    | none =>
        simp only [replyFor, hparse]
        exact finishes_some _
    | some request =>
        cases request with
        | version =>
            simp only [replyFor, hparse]
            exact finishes_some _
        | perform o =>
            simp only [replyFor, hparse]
            exact (finishes_performFor o).map Reply.exit

/-- Walking back over three ones takes all of the transitions that are allowed, and a bounded
program refuses a mark. -/
theorem catalogue_halts_walking_back :
    Catalogue.rewind ∈ Catalogue.programs ∧ Catalogue.evenOnes ∈ Catalogue.programs ∧
      (∃ m, Machine.new (Catalogue.rewind.withInput "111") = .ok m ∧ m.HaltsWithin 4) ∧
      ∃ e, Machine.new (Catalogue.evenOnes.withInput "1x") = .error e := by
  have hrewind : Catalogue.rewind ∈ Catalogue.programs := by decide
  have hparity : Catalogue.evenOnes ∈ Catalogue.programs := by decide
  obtain ⟨hprograms, -, -⟩ := catalogue_halts
  have hmade : Machine.new (Catalogue.rewind.withInput "111") =
      .ok (Machine.initial (Catalogue.rewind.withInput "111") "back") := rfl
  refine ⟨hrewind, hparity, ⟨_, hmade, ((hprograms _ hrewind).2 "111").2 _ hmade⟩, ?_⟩
  exact ((hprograms _ hparity).2 "1x").1.2 (Or.inr (Or.inr ⟨rfl, 'x', by decide, by decide⟩))

end CommandLine

end TapeMachine
