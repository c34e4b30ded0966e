/-
**Names and symbols mean nothing.**

A machine compares names with names and symbols with symbols, and otherwise only hands them on.  So
they can be replaced throughout a program, as long as different ones stay different (`Renaming`),
and whatever the machine does it does with the new ones.  No name is special, no symbol is, and no
order among them matters, except to the order in which an error names the offenders.

The proof goes up from the data to the machine, with one equation for each function that says how it
meets a renaming.  Where the function compares, the equation rests on different names or symbols
staying different, and elsewhere on nothing.  The last equations are those of a step
(`Machine.step_rename`), a round and a run (`Machine.runFor_rename`).  The check has none, because
the offenders are sorted; there the nine requirements of a program are compared instead
(`Program.meets_rename`).

Main definitions:

* `TapeMachine.Renaming` — new names and new symbols;
* `TapeMachine.Program.rename`, `TapeMachine.Machine.rename` — a program and a machine with them;
* `TapeMachine.Answer.rename`, `TapeMachine.Machine.View.rename` — what is answered and seen then.

Main results:

* `TapeMachine.Distinct.firstBy_map` — what appears first does so under other keys as well;
* `TapeMachine.Program.meets_rename` — a renamed program meets the same requirements;
* `TapeMachine.Machine.new_rename` — a machine for it is the renamed machine;
* `TapeMachine.Machine.step_rename`, `TapeMachine.Machine.runFor_rename` — and steps and runs so;
* `TapeMachine.Machine.performs_rename_iff` — its sessions are the renamed sessions;
* `TapeMachine.Machine.renamed_sessions` — **names and symbols mean nothing**.
-/

import Mathlib.Data.List.Basic
import Mathlib.Logic.Equiv.Basic
import TapeMachine.Catalogue
import TapeMachine.Proofs.Requirements
import TapeMachine.Proofs.Session

set_option relaxedAutoImplicit false
set_option autoImplicit false

namespace TapeMachine

/-! ### Renamings -/

/-- New names and new symbols, different ones for different ones. -/
structure Renaming where
  /-- The new name for a name. -/
  name : String → String
  /-- The new symbol for a symbol. -/
  symbol : Char → Char
  /-- Different names stay different. -/
  name_injective : Function.Injective name
  /-- Different symbols stay different. -/
  symbol_injective : Function.Injective symbol

namespace Renaming

variable (ρ : Renaming)

/-- The text with new symbols. -/
def text (s : String) : String := String.ofList (s.toList.map ρ.symbol)

/-- A tape and a state, as a run shows them, with new symbols and a new name. -/
def shown (pair : String × String) : String × String := (ρ.text pair.1, ρ.name pair.2)

@[simp] theorem name_eq_iff {a b : String} : ρ.name a = ρ.name b ↔ a = b :=
  ρ.name_injective.eq_iff

@[simp] theorem symbol_eq_iff {c d : Char} : ρ.symbol c = ρ.symbol d ↔ c = d :=
  ρ.symbol_injective.eq_iff

@[simp] theorem name_mem_map_iff {name : String} {names : List String} :
    ρ.name name ∈ names.map ρ.name ↔ name ∈ names :=
  List.mem_map_of_injective ρ.name_injective

@[simp] theorem symbol_mem_map_iff {c : Char} {symbols : List Char} :
    ρ.symbol c ∈ symbols.map ρ.symbol ↔ c ∈ symbols :=
  List.mem_map_of_injective ρ.symbol_injective

end Renaming

/-! ### Renamed programs -/

/-- The state with a new name.  The flags stay. -/
def State.rename (ρ : Renaming) (s : State) : State := { s with name := ρ.name s.name }

/-- The rule with new names and symbols. -/
def Rule.rename (ρ : Renaming) (r : Rule) : Rule :=
  ⟨r.current.rename ρ, ρ.symbol r.read, r.next.rename ρ, ρ.symbol r.write, r.direction⟩

/-- The tape with a new symbol in every cell. -/
def Tape.rename (ρ : Renaming) (t : Tape) : Tape := ⟨t.symbols.map ρ.symbol⟩

/-- The declarations with new names and symbols. -/
def Bounds.rename (ρ : Renaming) (bounds : Bounds) : Bounds where
  states := bounds.states.map ρ.name
  alphabet := bounds.alphabet.map ρ.symbol
  start := ρ.name bounds.start
  accept := ρ.name bounds.accept
  reject := ρ.name bounds.reject

/-- The policy with new names and symbols in what it declares. -/
def Profile.rename (ρ : Renaming) : Profile → Profile
  | unbounded => unbounded
  | bounded bounds => bounded (bounds.rename ρ)

/-- The program with new names for its states and new symbols.  Its own name stays. -/
def Program.rename (ρ : Renaming) (p : Program) : Program :=
  { p with
    profile := p.profile.rename ρ
    rules := p.rules.map (Rule.rename ρ)
    tape := p.tape.rename ρ
    blank := ρ.symbol p.blank }

/-! ### Renamed machines, and what is seen of them -/

namespace Machine

/-- The machine with new names and symbols. -/
def rename (ρ : Renaming) (m : Machine) : Machine :=
  { m with
    program := m.program.rename ρ
    start := ρ.name m.start
    accepting := m.accepting.map ρ.name
    state := ρ.name m.state
    tape := m.tape.rename ρ }

/-- What can be seen of a machine, with new names and symbols. -/
def View.rename (ρ : Renaming) (view : View) : View :=
  { view with state := ρ.name view.state, tape := view.tape.rename ρ }

end Machine

/-- The position with new names and symbols. -/
def Action.rename (ρ : Renaming) : Action → Action
  | rest verdict => rest verdict
  | offTape => offTape
  | refuse symbol => refuse (ρ.symbol symbol)
  | apply symbol rule => apply (ρ.symbol symbol) (rule.rename ρ)

/-- What a run leaves to see, with new names and symbols. -/
def Outcome.rename (ρ : Renaming) (outcome : Outcome) : Outcome :=
  { outcome with state := ρ.name outcome.state, tape := ρ.text outcome.tape }

/-- Where a run stands, with new names and symbols in the machine and `f` for the result. -/
def Progress.rename {α : Type} (ρ : Renaming) (f : α → α) : Progress α → Progress α
  | running m => running (m.rename ρ)
  | ended result m => ended (result.map f) (m.rename ρ)

/-- The answer with new names and symbols.  What a step comes to has none, and neither have the
errors of a step or a run. -/
def Answer.rename (ρ : Renaming) : Answer → Answer
  | stepped result => stepped result
  | ran result => ran (result.map (Outcome.rename ρ))
  | simulated result => simulated (result.map ρ.text)
  | executed result => executed (result.map ρ.shown)
  | begun => begun

variable {ρ : Renaming}

/-! ### Tapes -/

namespace Tape

@[simp] theorem length_rename (t : Tape) : (t.rename ρ).length = t.length := by
  simp [rename, length]

@[simp] theorem get?_rename (t : Tape) (i : Nat) :
    (t.rename ρ).get? i = (t.get? i).map ρ.symbol :=
  List.getElem?_map

@[simp] theorem set_rename (t : Tape) (i : Nat) (c : Char) :
    (t.rename ρ).set i (ρ.symbol c) = (t.set i c).rename ρ :=
  congrArg Tape.mk List.map_set.symm

@[simp] theorem extendRight_rename (t : Tape) (c : Char) :
    (t.rename ρ).extendRight (ρ.symbol c) = (t.extendRight c).rename ρ := by
  simp [rename, extendRight]

theorem text_rename (t : Tape) : (t.rename ρ).text = ρ.text t.text := by
  simp [rename, text, Renaming.text]

theorem interior_rename (t : Tape) : (t.rename ρ).interior = ρ.text t.interior := by
  simp [rename, interior, Renaming.text, List.map_tail, List.map_dropLast]

end Tape

/-! ### Policies -/

namespace Profile

/-- What is shown of a renamed tape is what is shown of the tape, with new symbols. -/
theorem content_rename (profile : Profile) (t : Tape) :
    (profile.rename ρ).content (t.rename ρ) = ρ.text (profile.content t) := by
  cases profile with
  | unbounded => exact t.text_rename
  | bounded bounds => exact t.interior_rename

/-- Settling looks at the length of the tape only. -/
theorem settle_rename (profile : Profile) (blank : Char) (t : Tape) (head : Int) :
    (profile.rename ρ).settle (ρ.symbol blank) (t.rename ρ) head =
      ((profile.settle blank t head).1.rename ρ, (profile.settle blank t head).2) := by
  cases profile with
  | bounded bounds => rfl
  | unbounded =>
      simp only [Profile.rename, settle, Tape.length_rename, Tape.extendRight_rename]
      split
      · rfl
      · split <;> rfl

end Profile

/-! ### States in the order of first mention -/

/-- What appears first appears first under other keys as well, if they tell apart the same
items. -/
theorem Distinct.firstBy_map {α β γ δ : Type} [DecidableEq γ] [DecidableEq δ] {key : α → γ}
    {key' : β → δ} {f : α → β} (h : ∀ a b, key' (f a) = key' (f b) ↔ key a = key b)
    (items : List α) : firstBy key' (items.map f) = (firstBy key items).map f := by
  induction items with
  | nil => rfl
  | cons a rest ih =>
      rw [List.map_cons, firstBy_cons, firstBy_cons, ih, List.filter_map, List.map_cons]
      congr 3
      funext b
      simp [h]

/-! ### Parts of what is renamed -/

namespace State

@[simp] theorem name_rename (s : State) : (s.rename ρ).name = ρ.name s.name := rfl

@[simp] theorem isStart_rename (s : State) : (s.rename ρ).isStart = s.isStart := rfl

@[simp] theorem flags_rename (s : State) : (s.rename ρ).flags = s.flags := rfl

end State

namespace Program

variable (p : Program)

@[simp] theorem profile_rename : (p.rename ρ).profile = p.profile.rename ρ := rfl

@[simp] theorem rules_rename : (p.rename ρ).rules = p.rules.map (Rule.rename ρ) := rfl

@[simp] theorem tape_rename : (p.rename ρ).tape = p.tape.rename ρ := rfl

@[simp] theorem head_rename : (p.rename ρ).head = p.head := rfl

@[simp] theorem blank_rename : (p.rename ρ).blank = ρ.symbol p.blank := rfl

@[simp] theorem mentions_rename : (p.rename ρ).mentions = p.mentions.map (State.rename ρ) := by
  simp [mentions, List.flatMap_map, List.map_flatMap, Rule.states, Rule.rename]

theorem states_rename : (p.rename ρ).states = p.states.map (State.rename ρ) := by
  rw [states, mentions_rename]
  exact Distinct.firstBy_map (fun s t => ρ.name_eq_iff (a := s.name) (b := t.name)) p.mentions

/-- The names under a flag are the new names of those that were under it. -/
theorem map_filter_states_rename {flag : State → Bool}
    (hflag : ∀ s : State, flag (s.rename ρ) = flag s) :
    ((p.rename ρ).states.filter flag).map State.name =
      ((p.states.filter flag).map State.name).map ρ.name := by
  have hsame : flag ∘ State.rename ρ = flag := funext hflag
  rw [states_rename, List.filter_map, hsame, List.map_map, List.map_map]
  rfl

theorem startNames_rename : (p.rename ρ).startNames = p.startNames.map ρ.name :=
  p.map_filter_states_rename fun _ => rfl

/-- The symbols in use are the new symbols of those that were in use. -/
theorem symbols_rename :
    (p.rename ρ).tape.symbols ++ (p.rename ρ).rules.flatMap Rule.symbols =
      (p.tape.symbols ++ p.rules.flatMap Rule.symbols).map ρ.symbol := by
  simp [Tape.rename, List.flatMap_map, List.map_flatMap, Rule.symbols, Rule.rename]

/-! ### The check -/

/-- **A renamed program meets the same requirements.** -/
theorem meets_rename (r : Requirement) : (p.rename ρ).Meets r ↔ p.Meets r := by
  cases r with
  | cells => simp [Meets, Tape.rename]
  | head => simp [Meets]
  | flags => simp [Meets]
  | rules => simp [Meets, List.pairwise_map, Rule.rename]
  | verdicts | start | oneStart | states =>
      cases hp : p.profile with
      | unbounded => simp [Meets, Profile.rename, hp]
      | bounded bounds => simp [Meets, Profile.rename, Bounds.rename, hp]
  | symbols =>
      cases hp : p.profile with
      | unbounded => simp [Meets, Profile.rename, hp]
      | bounded bounds =>
          -- the symbols of the tape and of the rules are renamed together
          simp only [Meets, symbols_rename, List.forall_mem_map]
          simp [Profile.rename, Bounds.rename, hp]

/-- A renamed program starts in the renamed state. -/
theorem startState_rename {start : String} (h : p.startState = .ok start) :
    (p.rename ρ).startState = .ok (ρ.name start) := by
  cases hp : p.profile with
  | unbounded =>
      have hp' : (p.rename ρ).profile = .unbounded := by simp [Profile.rename, hp]
      rw [startState_of_unbounded hp] at h
      rw [startState_of_unbounded hp', startNames_rename, h]
      rfl
  | bounded bounds =>
      have hp' : (p.rename ρ).profile = .bounded (bounds.rename ρ) := by simp [Profile.rename, hp]
      obtain ⟨hdeclared, rfl⟩ := (startState_of_bounded hp).1 h
      exact (startState_of_bounded hp').2 ⟨ρ.name_mem_map_iff.2 hdeclared, rfl⟩

end Program

namespace Machine

/-! ### Making a machine -/

theorem initial_rename (p : Program) (start : String) :
    initial (p.rename ρ) (ρ.name start) = (initial p start).rename ρ := by
  simp only [initial, rename]
  congr 1
  exact p.map_filter_states_rename fun _ => rfl

/-- **A machine for a renamed program is the renamed machine.** -/
theorem new_rename {p : Program} {m : Machine} (hm : Machine.new p = .ok m) :
    Machine.new (p.rename ρ) = .ok (m.rename ρ) := by
  obtain ⟨hcheck, start, hstart, rfl⟩ := new_eq_ok_iff.1 hm
  refine new_eq_ok_iff.2
    ⟨?_, ρ.name start, p.startState_rename hstart, (initial_rename p start).symm⟩
  exact (Program.check_congr p.meets_rename).1.1 hcheck

/-! ### Looking at a machine -/

variable (m : Machine)

@[simp] theorem program_rename : (m.rename ρ).program = m.program.rename ρ := rfl

@[simp] theorem head_rename : (m.rename ρ).head = m.head := rfl

@[simp] theorem tape_rename : (m.rename ρ).tape = m.tape.rename ρ := rfl

@[simp] theorem halted_rename : (m.rename ρ).halted = m.halted := by
  cases hp : m.program.profile <;> simp [halted, rename, Profile.rename, Bounds.rename, hp]

@[simp] theorem symbol?_rename : (m.rename ρ).symbol? = m.symbol?.map ρ.symbol := by
  rcases Int.lt_or_le m.head 0 with hneg | h0
  · rw [symbol?_of_neg hneg, symbol?_of_neg (m := m.rename ρ) hneg, Option.map_none]
  · rw [symbol?_of_nonneg h0, symbol?_of_nonneg (m := m.rename ρ) h0, head_rename, tape_rename,
      Tape.get?_rename]

/-- The first rule for a renamed state and symbol is the renamed first rule. -/
@[simp] theorem transition_rename (symbol : Char) :
    (m.rename ρ).transition (ρ.symbol symbol) = (m.transition symbol).map (Rule.rename ρ) := by
  have hsame : (fun r => Rule.appliesTo r (ρ.name m.state) (ρ.symbol symbol)) ∘ Rule.rename ρ =
      fun r => r.appliesTo m.state symbol := by
    funext r
    simp [Rule.appliesTo, Rule.rename]
  rw [transition, transition, ← hsame]
  exact List.find?_map

/-- What can be seen of the renamed machine is what can be seen of the machine, renamed. -/
theorem view_rename : (m.rename ρ).view = m.view.rename ρ := by
  rw [view, halted_rename]
  rfl

theorem outcome_rename (verdict : Halt) :
    (m.rename ρ).outcome verdict = (m.outcome verdict).rename ρ := by
  rw [outcome, tapeContent, tape_rename, program_rename, Program.profile_rename,
    Profile.content_rename]
  rfl

/-- **The renamed machine is in the renamed position.** -/
theorem action_rename : (m.rename ρ).action = m.action.rename ρ := by
  rcases action_cases m with ⟨verdict, hhalted, -⟩ | ⟨hhalted, hsymbol, -⟩ |
    ⟨symbol, hhalted, hsymbol, hrule, -⟩ | ⟨symbol, rule, hhalted, hsymbol, hrule, -⟩
  · simp [action, hhalted, Action.rename]
  · simp [action, hhalted, hsymbol, Action.rename]
  · simp [action, hhalted, hsymbol, hrule, Action.rename]
  · simp [action, hhalted, hsymbol, hrule, Action.rename]

/-! ### Steps and runs -/

theorem reset_rename : (m.rename ρ).reset = m.reset.rename ρ := rfl

theorem rejected_rename : (m.rename ρ).rejected = m.rejected.rename ρ := by
  cases hp : m.program.profile <;> simp [rejected, Profile.rename, hp] <;> rfl

theorem apply_rename (r : Rule) : (m.rename ρ).apply (r.rename ρ) = (m.apply r).rename ρ := by
  simp [apply, moved, rename, Rule.rename, Profile.settle_rename]

/-- **A step of the renamed machine is the step, renamed**, and comes to the same. -/
theorem step_rename : (m.rename ρ).step = (m.step.1, m.step.2.rename ρ) := by
  have haction : (m.rename ρ).action = m.action.rename ρ := m.action_rename
  cases hposition : m.action with
  | rest verdict =>
      rw [hposition] at haction
      rw [step_of_rest hposition, step_of_rest haction]
  | offTape =>
      rw [hposition] at haction
      rw [step_of_offTape hposition, step_of_offTape haction, head_rename, tape_rename,
        Tape.length_rename]
  | refuse symbol =>
      rw [hposition] at haction
      rw [step_of_refuse hposition, step_of_refuse haction, rejected_rename]
  | apply symbol rule =>
      rw [hposition] at haction
      rw [step_of_apply hposition, step_of_apply haction, apply_rename]

/-- A machine and the renamed one go in lock step. -/
theorem lockStep_rename (ρ : Renaming) : LockStep fun m m' => m' = m.rename ρ where
  cap := by
    rintro m _ rfl
    rfl
  steps := by
    rintro m _ rfl
    rfl
  step_fst := by
    rintro m _ rfl
    rw [step_rename]
  step_snd := by
    rintro m _ rfl
    rw [step_rename]

/-- **A run of the renamed machine is the run, renamed.** -/
theorem runFor_rename (n : Nat) :
    (m.rename ρ).runFor n = (m.runFor n).rename ρ (Outcome.rename ρ) := by
  have hpaired := (lockStep_rename ρ).runFor (rfl : m.rename ρ = m.rename ρ) n
  generalize m.runFor n = progress, (m.rename ρ).runFor n = progress' at hpaired ⊢
  cases hpaired with
  | running hnext => rw [hnext, Progress.rename]
  | failed e hlast =>
      rw [hlast]
      rfl
  | halted verdict hlast =>
      rw [hlast, outcome_rename]
      rfl

end Machine

namespace Progress

variable {α β : Type} {f : α → α} {progress : Progress α}

/-- A renamed run in another form is the run in that form, renamed. -/
theorem map_rename {shown : α → β} {f' : β → β} (h : ∀ a, shown (f a) = f' (shown a)) :
    (progress.rename ρ f).map shown = (progress.map shown).rename ρ f' := by
  cases progress with
  | running m => rfl
  | ended result m =>
      cases result with
      | error e => rfl
      | ok a => simp [Progress.rename, Progress.map, Except.map, h]

/-- A renamed run has ended exactly where the run has. -/
theorem rename_eq_ended_iff {result : Except Error α} {m : Machine} :
    progress.rename ρ f = .ended result m ↔
      ∃ result' m', progress = .ended result' m' ∧ result = result'.map f ∧ m = m'.rename ρ := by
  cases progress with
  | running m₁ =>
      constructor
      · intro h
        exact nomatch h
      · rintro ⟨result', m', h, -⟩
        exact nomatch h
  | ended result₁ m₁ =>
      constructor
      · intro h
        obtain ⟨rfl, rfl⟩ := Progress.ended.inj h
        exact ⟨result₁, m₁, rfl, rfl, rfl⟩
      · rintro ⟨result', m', h, rfl, rfl⟩
        obtain ⟨rfl, rfl⟩ := Progress.ended.inj h
        rfl

end Progress

namespace Machine

variable {m : Machine}

theorem simulateFor_rename (n : Nat) :
    (m.rename ρ).simulateFor n = (m.simulateFor n).rename ρ ρ.text := by
  rw [simulateFor, runFor_rename]
  exact Progress.map_rename fun _ => rfl

theorem executeFor_rename (n : Nat) :
    (m.rename ρ).executeFor n = (m.executeFor n).rename ρ ρ.shown := by
  rw [executeFor, runFor_rename]
  exact Progress.map_rename fun _ => rfl

/-! ### Sessions -/

/-- **The renamed machine answers what the machine answers, renamed**, and nothing else. -/
theorem answers_rename_iff {op : Operation} {answer : Answer} {f : Machine} :
    (m.rename ρ).Answers op answer f ↔
      ∃ answer' f', m.Answers op answer' f' ∧ answer = answer'.rename ρ ∧ f = f'.rename ρ := by
  constructor
  · intro h
    cases h with
    | step =>
        rw [step_rename]
        exact ⟨_, _, .step, rfl, rfl⟩
    | run hrun =>
        rw [runFor_rename] at hrun
        obtain ⟨result, f', hended, rfl, rfl⟩ := Progress.rename_eq_ended_iff.1 hrun
        exact ⟨_, f', .run hended, rfl, rfl⟩
    | simulate hrun =>
        rw [simulateFor_rename] at hrun
        obtain ⟨result, f', hended, rfl, rfl⟩ := Progress.rename_eq_ended_iff.1 hrun
        exact ⟨_, f', .simulate hended, rfl, rfl⟩
    | execute hrun =>
        rw [executeFor_rename] at hrun
        obtain ⟨result, f', hended, rfl, rfl⟩ := Progress.rename_eq_ended_iff.1 hrun
        exact ⟨_, f', .execute hended, rfl, rfl⟩
    | reset => exact ⟨_, _, .reset, rfl, m.reset_rename⟩
  · rintro ⟨answer', f', h, rfl, rfl⟩
    cases h with
    | step =>
        have hstep : (m.rename ρ).Answers .step _ _ := .step
        rwa [step_rename] at hstep
    | @run n _ _ hrun =>
        exact .run (n := n) (by rw [runFor_rename, hrun, Progress.rename])
    | @simulate n _ _ hrun =>
        exact .simulate (n := n) (by rw [simulateFor_rename, hrun, Progress.rename])
    | @execute n _ _ hrun =>
        exact .execute (n := n) (by rw [executeFor_rename, hrun, Progress.rename])
    | reset => exact .reset

/-- The log of a session with new names and symbols. -/
def renameLog (ρ : Renaming) (log : List (Answer × View)) : List (Answer × View) :=
  log.map (Prod.map (Answer.rename ρ) (View.rename ρ))

/-- **The sessions of the renamed machine are the sessions of the machine, renamed.** -/
theorem performs_rename_iff {ops : List Operation} {log : List (Answer × View)} {f : Machine} :
    (m.rename ρ).Performs ops log f ↔
      ∃ log' f', m.Performs ops log' f' ∧ log = renameLog ρ log' ∧ f = f'.rename ρ := by
  induction ops generalizing m log with
  | nil =>
      constructor
      · intro h
        cases h
        exact ⟨[], m, .nil, rfl, rfl⟩
      · rintro ⟨log', f', h, rfl, rfl⟩
        cases h
        exact .nil
  | cons op ops ih =>
      constructor
      · intro h
        cases h with
        | cons hanswer hrest =>
            obtain ⟨answer, m₁, hfirst, rfl, rfl⟩ := answers_rename_iff.1 hanswer
            obtain ⟨log', f', hothers, rfl, rfl⟩ := ih.1 hrest
            refine ⟨_, f', .cons hfirst hothers, ?_, rfl⟩
            rw [view_rename]
            rfl
      · rintro ⟨log', f', h, rfl, rfl⟩
        cases h with
        | @cons _ m₁ _ _ answer _ log₁ hanswer hrest =>
            have hsession := Performs.cons (answers_rename_iff.2 ⟨_, _, hanswer, rfl, rfl⟩)
              (ih.2 ⟨_, _, hrest, rfl, rfl⟩)
            rwa [view_rename] at hsession

/-- **Names and symbols mean nothing.**  Let a program be given new names for its states and new
symbols, different ones for different ones.  It passes the check exactly if it did before, and fails
it with an error of the same kind otherwise.  If it passes, its machine looks as the other one does
with the new names and symbols; and whatever the two are told, the one gives an answer where the
other does, and answers and looks the same with the new names and symbols. -/
theorem renamed_sessions (ρ : Renaming) (p : Program) :
    (p.check = .ok () ↔ (p.rename ρ).check = .ok ()) ∧
      (∀ e e', p.check = .error e → (p.rename ρ).check = .error e' → e.kind = e'.kind) ∧
      ∀ m, Machine.new p = .ok m → ∃ m', Machine.new (p.rename ρ) = .ok m' ∧
        m'.view = m.view.rename ρ ∧
        ∀ ops log', (∃ f', m'.Performs ops log' f') ↔
          ∃ log, (∃ f, m.Performs ops log f) ∧ log' = renameLog ρ log := by
  obtain ⟨hpass, hkind⟩ := Program.check_congr p.meets_rename
  refine ⟨hpass, hkind, ?_⟩
  intro m hm
  refine ⟨m.rename ρ, new_rename hm, m.view_rename, ?_⟩
  intro ops log'
  constructor
  · rintro ⟨f', hsession'⟩
    obtain ⟨log, f, hsession, rfl, rfl⟩ := performs_rename_iff.1 hsession'
    exact ⟨log, ⟨f, hsession⟩, rfl⟩
  · rintro ⟨log, ⟨f, hsession⟩, rfl⟩
    exact ⟨f.rename ρ, performs_rename_iff.2 ⟨log, f, hsession, rfl, rfl⟩⟩

end Machine

/-- Two names exchanged, and two symbols. -/
def Renaming.swap (a b : String) (c d : Char) : Renaming :=
  ⟨Equiv.swap a b, Equiv.swap c d, (Equiv.swap a b).injective, (Equiv.swap c d).injective⟩

namespace Machine

/-- The accepting and the rejecting state exchange their names, and so do the blank and the one.  The
verdict is to reject all the same, in the state that is now called accept. -/
theorem renamed_sessions_accept_for_reject :
    ∃ m m', Machine.new (Catalogue.evenOnes.withInput "1") = .ok m ∧
      Machine.new ((Catalogue.evenOnes.withInput "1").rename (.swap "accept" "reject" '_' '1')) =
        .ok m' ∧
      (∃ f, m.Performs [.run, .reset]
        [(.ran (.ok ⟨.reject, "reject", "1", 1⟩),
            ⟨"reject", ⟨['_', '1', '_']⟩, 2, 1, some .reject⟩),
          (.begun, ⟨"even", ⟨['_', '1', '_']⟩, 1, 0, none⟩)] f) ∧
      ∃ f', m'.Performs [.run, .reset]
        [(.ran (.ok ⟨.reject, "accept", "_", 1⟩),
            ⟨"accept", ⟨['1', '_', '1']⟩, 2, 1, some .reject⟩),
          (.begun, ⟨"even", ⟨['1', '_', '1']⟩, 1, 0, none⟩)] f' := by
  have hmade : Machine.new (Catalogue.evenOnes.withInput "1") =
      .ok (initial (Catalogue.evenOnes.withInput "1") "even") := rfl
  obtain ⟨-, -, hsame⟩ := renamed_sessions (.swap "accept" "reject" '_' '1')
    (Catalogue.evenOnes.withInput "1")
  obtain ⟨m', hmade', -, hsessions⟩ := hsame _ hmade
  have hsession : (initial (Catalogue.evenOnes.withInput "1") "even").Performs [.run, .reset] _ _ :=
    .cons (.run (n := 2) rfl) (.cons .reset .nil)
  exact ⟨_, m', hmade, hmade', ⟨_, hsession⟩, (hsessions _ _).2 ⟨_, ⟨_, hsession⟩, rfl⟩⟩

/-- The kind of an error is all that can be said: the offenders that it names are sorted, so they
are not the renamed offenders in their order. -/
example :
    let p : Program :=
      ⟨defaultName, .bounded ⟨["q"], [], "q", "a", "b"⟩, [], Tape.ofString "_", 0, '_', none⟩
    p.check = .error (.invalid (.undeclaredStates ["a", "b"])) ∧
      (p.rename (.swap "a" "b" '0' '1')).check =
        .error (.invalid (.undeclaredStates ["a", "b"])) :=
  ⟨by decide +kernel, by decide +kernel⟩

end Machine

end TapeMachine
