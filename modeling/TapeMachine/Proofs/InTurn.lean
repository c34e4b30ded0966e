/-
**All programs are each program in turn.**

Without the name of a program the command runs all programs of the catalogue.  What it writes then
is what it writes for each of them when it is called with the same arguments and the name in front,
with a title above each and an empty line between any two; and the first program that fails is the
last one to be run, and decides how the command ends.  The two ways into the command have little in
common: one goes through the name that is asked for, the other through the list of all names, and
only with several programs are there titles.  They come together since no two programs have the same
name, and since a name in front changes nothing else in what the arguments ask for.

Main definitions:

* `TapeMachine.CommandLine.Options.asking` — the options with the name of a program;
* `TapeMachine.CommandLine.inTurn` — what the command leaves for each name, up to the first failure;
* `TapeMachine.CommandLine.joined` — those put together.

Main results:

* `TapeMachine.CommandLine.parse?_asking` — a name in front of the arguments adds the name;
* `TapeMachine.CommandLine.sequenceFor_eq_inTurn` — programs run one after the other;
* `TapeMachine.CommandLine.all_programs_in_turn` — **all programs are each program in turn**.
-/

import TapeMachine.CommandLine.Command
import TapeMachine.Proofs.Termination

set_option relaxedAutoImplicit false
set_option autoImplicit false

namespace TapeMachine

namespace CommandLine

/-! ### A name in front of the arguments -/

namespace Options

/-- The options with the name of a program to be run. -/
def asking (o : Options) (name : String) : Options := { o with program := some name }

variable {o o' : Options} {item : Item} {rest : List Item} {name : String}

theorem request?_cons (hversion : item ≠ .flag .version) :
    o.request? (item :: rest) = (o.add? item).bind fun o₁ => o₁.request? rest := by
  rw [request?]
  exact hversion

/-- Where the items ask to do something, each of them is in order. -/
theorem exists_add?_of_request? (h : o.request? (item :: rest) = some (.perform o')) :
    ∃ o₁, o.add? item = some o₁ ∧ o₁.request? rest = some (.perform o') := by
  by_cases hversion : item = .flag .version
  · subst hversion
    exact nomatch h
  · rw [request?_cons hversion] at h
    exact Option.bind_eq_some_iff.1 h

theorem request?_cons_of_add? {o₁ : Options} (h : o.add? item = some o₁) :
    o.request? (item :: rest) = o₁.request? rest := by
  have hversion : item ≠ .flag .version := by
    rintro rfl
    exact nomatch h
  rw [request?_cons hversion, h, Option.bind_some]

/-- An item that leaves no name finds none, and does the same where there is a name. -/
theorem add?_asking (name : String) {o₁ : Options} (h : o.add? item = some o₁)
    (hname : o₁.program = .none) :
    o.program = .none ∧ (o.asking name).add? item = some (o₁.asking name) := by
  cases item with
  | wrong => exact nomatch h
  | flag f =>
      cases f with
      | version => exact nomatch h
      | debug | json | list =>
          simp only [add?, Option.ite_none_left_eq_some, Option.some.injEq] at h ⊢
          obtain ⟨hoff, rfl⟩ := h
          exact ⟨hname, hoff, rfl⟩
  | setting s value =>
      cases s with
      | program =>
          simp only [add?, Option.ite_none_left_eq_some, Option.some.injEq] at h
          obtain ⟨-, rfl⟩ := h
          exact nomatch hname
      | input =>
          simp only [add?, Option.ite_none_left_eq_some, Option.some.injEq] at h ⊢
          obtain ⟨hoff, rfl⟩ := h
          exact ⟨hname, hoff, rfl⟩
      | maxSteps =>
          simp only [add?, Option.ite_none_left_eq_some, Option.map_eq_some_iff] at h ⊢
          obtain ⟨hoff, limit, hlimit, rfl⟩ := h
          exact ⟨hname, hoff, limit, hlimit, rfl⟩

/-- Items that leave no name find none, and ask for the same where there is a name. -/
theorem request?_asking {items : List Item} (h : o.request? items = some (.perform o'))
    (hname : o'.program = .none) :
    o.program = .none ∧ (o.asking name).request? items = some (.perform (o'.asking name)) := by
  induction items generalizing o with
  | nil =>
      obtain rfl := Request.perform.inj (Option.some.inj h)
      exact ⟨hname, rfl⟩
  | cons item rest ih =>
      obtain ⟨o₁, hadd, hrest⟩ := exists_add?_of_request? h
      obtain ⟨hname₁, hasking⟩ := ih hrest
      obtain ⟨hnone, hadd'⟩ := add?_asking name hadd hname₁
      exact ⟨hnone, (request?_cons_of_add? hadd').trans hasking⟩

end Options

/-- **A name in front of the arguments adds the name** to what they ask for. -/
theorem parse?_asking {arguments : List String} {o : Options}
    (h : parse? arguments = some (.perform o)) (hnone : o.program = none) {name : String}
    (hvalue : isValue name = true) :
    parse? ("--program" :: name :: arguments) = some (.perform (o.asking name)) := by
  have hitems : items none ("--program" :: name :: arguments) =
      .setting .program name :: items none arguments := by
    change items (some .program) (name :: arguments) = _
    rw [items, if_pos hvalue]
  have hadd : Options.none.add? (.setting .program name) = some (Options.none.asking name) := rfl
  rw [parse?, hitems, Options.request?_cons_of_add? hadd]
  exact (Options.request?_asking h hnone).2

/-! ### Programs one after the other -/

/-- What the command leaves for each of the names, up to the first one for which it fails. -/
def inTurn (answer : String → Option Exit) : List String → Option (List (String × Exit))
  | [] => some []
  | name :: rest =>
      match answer name with
      | none => none
      | some e =>
          if e.code = 0 then (inTurn answer rest).map fun others => (name, e) :: others
          else some [(name, e)]

/-- What is written for a program, under its title. -/
def titled (a : String × Exit) : String := s!"Program: {a.1}\n" ++ a.2.output

/-- What the command leaves for several programs: what is written for each of them, with an empty
line between any two, and the code and the error of the first one that failed. -/
def joined (answered : List (String × Exit)) : Exit :=
  let output := "\n".intercalate (answered.map titled)
  match answered.find? fun a => decide (a.2.code ≠ 0) with
  | none => ⟨0, output, ""⟩
  | some a => ⟨a.2.code, output, a.2.errors⟩

/-- What the command leaves with a text in front of what it has written. -/
def Exit.after (text : String) (e : Exit) : Exit := { e with output := text ++ e.output }

theorem textOf_append (l k : List String) : textOf (l ++ k) = textOf l ++ textOf k := by
  rw [textOf, List.map_append, String.join_append]
  rfl

theorem joined_of_failure {name : String} {e : Exit} (h : e.code ≠ 0) :
    joined [(name, e)] = ⟨e.code, titled (name, e), e.errors⟩ := by
  simp [joined, h]

theorem joined_singleton {name : String} {e : Exit} (h : e.code = 0) :
    joined [(name, e)] = ⟨0, titled (name, e), ""⟩ := by
  simp [joined, h]

/-- After a program that has not failed there is an empty line, and the others follow. -/
theorem joined_cons {name : String} {e : Exit} (h : e.code = 0) {others : List (String × Exit)}
    (hothers : others ≠ []) :
    joined ((name, e) :: others) = (joined others).after (titled (name, e) ++ "\n") := by
  obtain ⟨other, rest, rfl⟩ := List.exists_cons_of_ne_nil hothers
  have hfind : ((name, e) :: other :: rest).find? (fun a => decide (a.2.code ≠ 0)) =
      (other :: rest).find? fun a => decide (a.2.code ≠ 0) :=
    List.find?_cons_of_neg (by simp [h])
  rw [joined, joined, hfind, List.map_cons, List.map_cons, String.intercalate_cons_cons]
  cases (other :: rest).find? fun a => decide (a.2.code ≠ 0) <;> rfl

/-- What the command leaves for several programs after the lines `opening`, which are written only
if there is a program. -/
def opened (opening : List String) : List (String × Exit) → Exit
  | [] => joined []
  | a :: others => (joined (a :: others)).after (textOf opening)

@[simp] theorem opened_nil (answered : List (String × Exit)) :
    opened [] answered = joined answered := by
  cases answered with
  | nil => rfl
  | cons a others => simp [opened, Exit.after, textOf]

/-- A program that has not failed has the others after it. -/
theorem after_opened {name : String} {e : Exit} (h : e.code = 0) (opening : List String)
    (others : List (String × Exit)) :
    (opened [""] others).after (textOf opening ++ titled (name, e)) =
      opened opening ((name, e) :: others) := by
  cases others with
  | nil =>
      rw [opened, opened, joined_singleton h]
      simp [joined, Exit.after]
  | cons a others =>
      rw [opened, opened, joined_cons h (List.cons_ne_nil a others)]
      simp [Exit.after, textOf, String.append_assoc]

/-- What the command leaves for a single program. -/
def Shown.exit (name : String) (shown : Shown) : Exit :=
  Reply.exit ⟨shown.lines, shown.error.map (Fault.running name)⟩

@[simp] theorem output_exit (name : String) (shown : Shown) :
    (shown.exit name).output = textOf shown.lines := by
  obtain ⟨lines, _ | e⟩ := shown <;> rfl

/-- The title and the lines of a program. -/
theorem textOf_titled (p : Program) (shown : Shown) :
    textOf (titleLines true p ++ shown.lines) = titled (p.name, shown.exit p.name) := by
  rw [textOf_append, titled, output_exit]
  congr 1

theorem exit_after (lines : List String) (r : Reply) :
    (r.after lines).exit = r.exit.after (textOf lines) := by
  obtain ⟨lines', _ | fault⟩ := r
  · exact congrArg (fun text => (⟨0, text, ""⟩ : Exit)) (textOf_append lines lines')
  · exact congrArg (fun text => (⟨1, text, textOf fault.lines⟩ : Exit)) (textOf_append lines lines')

variable {n : Nat} {o : Options}

/-- A single program is run without a title. -/
theorem sequenceFor_singleton (n : Nat) (o : Options) (p : Program) :
    (sequenceFor n o false [] [p]).map Reply.exit =
      (runFor n o (configure o p)).map (Shown.exit p.name) := by
  rw [sequenceFor]
  rcases runFor n o (configure o p) with _ | ⟨lines, _ | e⟩
  · rfl
  · simp [sequenceFor, titleLines, Reply.after, Shown.exit]
  · rfl

theorem code_exit_eq_zero_iff {name : String} {shown : Shown} :
    (shown.exit name).code = 0 ↔ shown.error = none := by
  obtain ⟨lines, _ | e⟩ := shown <;> simp [Shown.exit, Reply.exit]

section Step

variable {p : Program} {rest : List Program} {opening : List String} {shown : Shown}
  (hrun : runFor n o (configure o p) = some shown)

include hrun

/-- After a failure no other program is run. -/
theorem sequenceFor_of_error (herror : shown.error ≠ none) :
    (sequenceFor n o true opening (p :: rest)).map Reply.exit =
      some ((joined [(p.name, shown.exit p.name)]).after (textOf opening)) := by
  have htext := textOf_titled p shown
  rw [joined_of_failure (mt code_exit_eq_zero_iff.1 herror), ← htext]
  obtain ⟨lines, error⟩ := shown
  obtain ⟨e, rfl⟩ := Option.ne_none_iff_exists'.1 herror
  rw [sequenceFor, hrun]
  simp only [Option.map_some, Reply.exit, Exit.after, Shown.exit, List.append_assoc, textOf_append]

/-- After a success the others follow. -/
theorem sequenceFor_of_success (herror : shown.error = none) :
    (sequenceFor n o true opening (p :: rest)).map Reply.exit =
      ((sequenceFor n o true [""] rest).map Reply.exit).map
        (Exit.after (textOf opening ++ titled (p.name, shown.exit p.name))) := by
  have htext := textOf_titled p shown
  rw [← htext, ← textOf_append, ← List.append_assoc]
  obtain ⟨lines, error⟩ := shown
  obtain rfl : error = none := herror
  rw [sequenceFor, hrun, Option.map_map, Option.map_map]
  simp only [Function.comp_def, exit_after]

end Step

/-- **Programs run one after the other** leave what each of them leaves.  The induction is on the
programs that are still to be run. -/
theorem sequenceFor_eq_inTurn (answer : String → Option Exit) (ps : List Program)
    (opening : List String)
    (h : ∀ p ∈ ps, answer p.name = (runFor n o (configure o p)).map (Shown.exit p.name)) :
    (sequenceFor n o true opening ps).map Reply.exit =
      (inTurn answer (ps.map Program.name)).map (opened opening) := by
  induction ps generalizing opening with
  | nil => rfl
  | cons p rest ih =>
      have hrest := ih [""] fun q hq => h q (List.mem_cons_of_mem p hq)
      rw [List.map_cons, inTurn, h p List.mem_cons_self]
      cases hrun : runFor n o (configure o p) with
      | none => simp [sequenceFor, hrun]
      | some shown =>
          rw [Option.map_some]
          by_cases herror : shown.error = none
          · have hcode : (shown.exit p.name).code = 0 := code_exit_eq_zero_iff.2 herror
            rw [sequenceFor_of_success hrun herror, hrest]
            simp only [hcode, if_true, Option.map_map, Function.comp_def, after_opened hcode]
          · have hcode : (shown.exit p.name).code ≠ 0 := mt code_exit_eq_zero_iff.1 herror
            rw [sequenceFor_of_error hrun herror]
            simp only [hcode, if_false, Option.map_some, opened]

/-! ### The command -/

/-- With the name of a program the command runs it without a title. -/
theorem performFor_asking (n : Nat) (hlist : o.list = false) {p : Program}
    (hp : p ∈ Catalogue.programs) :
    (performFor n (o.asking p.name)).map Reply.exit =
      (runFor n o (configure o p)).map (Shown.exit p.name) := by
  have hchosen : chosen (o.asking p.name) = .ok [p] := by
    simp only [chosen, Options.asking, Catalogue.byName_name hp]
    rfl
  have hoff : (o.asking p.name).list = false := hlist
  rw [performFor, hoff, hchosen]
  exact sequenceFor_singleton n (o.asking p.name) p

/-- **All programs are each program in turn.**  Take arguments that ask neither for a program nor
for the list.  With the name of a program of the catalogue in front they ask for the same and that
program.  With any number of rounds the command leaves for them what it leaves with each name in
front, in the order of the catalogue and up to the first name for which it fails: each under a title
and with an empty line between any two, and with the code and the error of that failure.  And with
enough rounds this is an answer. -/
theorem all_programs_in_turn {arguments : List String} {o : Options}
    (hparse : parse? arguments = some (.perform o)) (hprogram : o.program = none)
    (hlist : o.list = false) :
    (∀ name ∈ Catalogue.names,
      parse? ("--program" :: name :: arguments) = some (.perform (o.asking name))) ∧
    (∀ n, replyFor n arguments =
      (inTurn (fun name => replyFor n ("--program" :: name :: arguments)) Catalogue.names).map
        joined) ∧
    Finishes fun n => replyFor n arguments := by
  have hvalues : ∀ name ∈ Catalogue.names, isValue name = true := by decide
  have hasking : ∀ name ∈ Catalogue.names,
      parse? ("--program" :: name :: arguments) = some (.perform (o.asking name)) :=
    fun name hname => parse?_asking hparse hprogram (hvalues name hname)
  refine ⟨hasking, ?_, ?_⟩
  · intro n
    have hall : performFor n o = sequenceFor n o true [] Catalogue.programs := by
      simp only [performFor, hlist, chosen_of_none hprogram]
      rfl
    have heach : ∀ p ∈ Catalogue.programs, replyFor n ("--program" :: p.name :: arguments) =
        (runFor n o (configure o p)).map (Shown.exit p.name) := by
      intro p hp
      rw [replyFor, hasking p.name (List.mem_map_of_mem hp)]
      exact performFor_asking n hlist hp
    rw [replyFor, hparse]
    calc (performFor n o).map Reply.exit
        = (sequenceFor n o true [] Catalogue.programs).map Reply.exit := by rw [hall]
      _ = (inTurn (fun name => replyFor n ("--program" :: name :: arguments))
            Catalogue.names).map (opened []) := sequenceFor_eq_inTurn _ _ [] heach
      _ = (inTurn (fun name => replyFor n ("--program" :: name :: arguments))
            Catalogue.names).map joined := by rw [funext opened_nil]
  · have hfinishes := (finishes_performFor o).map Reply.exit
    simp only [replyFor, hparse]
    exact hfinishes

/-- Two ones do not reach to the head of the program that walks back: it is the last one to be run,
and no more than its title is written. -/
theorem all_programs_in_turn_up_to_rewind :
    parse? ["-i", "11"] = some (.perform ⟨none, some "11", none, false, false, false⟩) ∧
      (inTurn (fun name => replyFor 8 ["--program", name, "-i", "11"]) Catalogue.names).map
          (List.map Prod.fst) = some ["flip-two", "flip-two-bounded", "invert", "rewind"] ∧
      (∃ e, replyFor 8 ["--program", "rewind", "-i", "11"] = some e ∧ e.output = "") ∧
      replyFor 8 ["-i", "11"] = some ⟨1,
        "Program: flip-two\nOriginal tape: 11\nResult: 00_\n\nProgram: flip-two-bounded\n" ++
          "Original tape: 11\nResult: 00\nFinal State: q_reject\n\nProgram: invert\n" ++
          "Original tape: 11\nResult: 00__\n\nProgram: rewind\n",
        "Error: running 'rewind'\n\nCaused by:\n" ++
          "    Program validation error: Invalid head position: 2\n"⟩ := by
  have hparse :
      parse? ["-i", "11"] = some (.perform ⟨none, some "11", none, false, false, false⟩) :=
    rfl
  obtain ⟨-, hturn, -⟩ := all_programs_in_turn hparse rfl rfl
  exact ⟨hparse, rfl, ⟨_, rfl, rfl⟩, (hturn 8).trans rfl⟩

end CommandLine

end TapeMachine
