/-
**The command.**

The command runs one program of the catalogue or all of them, on their own input or a given one,
and shows each outcome.  With all of them, each has its name above it and an empty line before it
unless it is the first, and the first failure ends the command.  On demand it shows where the
machine stands before the first step and after each, up to the cap on transitions.

Since a machine need not halt, everything that runs one takes the number of rounds that it may
use, and gives nothing when they are not enough.

Main definitions:

* `TapeMachine.CommandLine.traceFor` — the steps of a machine, shown one by one;
* `TapeMachine.CommandLine.runFor` — one program run and shown;
* `TapeMachine.CommandLine.sequenceFor` — programs run and shown one after the other;
* `TapeMachine.CommandLine.replyFor` — the reply of the command to its arguments.

Main results:

* `TapeMachine.CommandLine.chosen_of_none` — options without a name ask for all programs.
-/

import TapeMachine.CommandLine.Options
import TapeMachine.CommandLine.Report
import TapeMachine.Machine.Run

set_option relaxedAutoImplicit false
set_option autoImplicit false

namespace TapeMachine

namespace CommandLine

/-! ### One program -/

/-- Whether the cap is reached while a further rule would apply. -/
def exhausted (limit : Option Nat) (m : Machine) : Bool :=
  (limit.any fun n => decide (n ≤ m.steps)) && m.hasTransition

/-- The steps of a machine shown one by one until it halts or the cap is reached: the lines, and
the machine or the error that ended them. -/
def traceFor (limit : Option Nat) : Nat → Machine → Option (List String × Except Error Machine)
  | 0, _ => none
  | n + 1, m =>
      if exhausted limit m then some ([], .ok m)
      else
        match m.step with
        | (.error e, _) => some ([], .error e)
        | (.ok (.halt verdict), m') => some ([haltLine verdict], .ok m')
        | (.ok .continue, m') =>
            (traceFor limit n m').map fun result => (stateLine m' :: result.1, result.2)

/-- What a program shows, and the error that it ends with if it fails. -/
structure Shown where
  /-- The lines shown. -/
  lines : List String
  /-- The error at the end. -/
  error : Option Error
  deriving DecidableEq, Repr

/-- What the machine of the program shows when it is run to its end. -/
def finishFor (n : Nat) (o : Options) (p : Program) (m : Machine) : Option Shown :=
  match m.runFor n with
  | .running _ => none
  | .ended (.error e) _ => some ⟨[], some e⟩
  | .ended (.ok outcome) _ => some ⟨outcomeLines o.json p outcome, none⟩

/-- What the machine of the program shows step by step, and then when it is run to its end. -/
def debugFor (n : Nat) (o : Options) (p : Program) (m : Machine) : Option Shown :=
  match traceFor o.maxSteps n m with
  | none => none
  | some (lines, .error e) => some ⟨stateLine m :: lines, some e⟩
  | some (lines, .ok m') =>
      (finishFor n o p m').map fun shown => ⟨stateLine m :: lines ++ shown.lines, shown.error⟩

/-- What a program shows when it is run. -/
def runFor (n : Nat) (o : Options) (p : Program) : Option Shown :=
  match Machine.new p with
  | .error e => some ⟨[], some e⟩
  | .ok m => if o.debug then debugFor n o p m else finishFor n o p m

/-- The program with the input and the cap that the options give. -/
def configure (o : Options) (p : Program) : Program :=
  let q :=
    match o.input with
    | none => p
    | some input => p.withInput input
  match o.maxSteps with
  | none => q
  | some limit => q.withMaxSteps limit

/-! ### Several programs -/

/-- What the command shows, and why it failed if it did. -/
structure Reply where
  /-- The lines shown. -/
  lines : List String
  /-- Why the command failed. -/
  fault : Option Fault
  deriving DecidableEq, Repr

/-- The reply with lines before its own. -/
def Reply.after (lines : List String) (r : Reply) : Reply := ⟨lines ++ r.lines, r.fault⟩

/-- The lines above what a program shows. -/
def titleLines (titled : Bool) (p : Program) : List String :=
  if titled then [s!"Program: {p.name}"] else []

/-- The reply that shows the programs one after the other, the first one after the lines
`opening` and each other one after an empty line, until one fails. -/
def sequenceFor (n : Nat) (o : Options) (titled : Bool) :
    List String → List Program → Option Reply
  | _, [] => some ⟨[], none⟩
  | opening, p :: rest =>
      match runFor n o (configure o p) with
      | none => none
      | some ⟨lines, some e⟩ =>
          some ⟨opening ++ titleLines titled p ++ lines, some (.running p.name e)⟩
      | some ⟨lines, none⟩ =>
          (sequenceFor n o titled [""] rest).map fun r =>
            r.after (opening ++ titleLines titled p ++ lines)

/-- The programs that the options ask for: the one with the name, or one for each name. -/
def chosen (o : Options) : Except Error (List Program) :=
  match o.program with
  | none => Catalogue.names.mapM Catalogue.byName
  | some name => (Catalogue.byName name).map fun p => [p]

/-- **Options without a name ask for all programs.** -/
theorem chosen_of_none {o : Options} (h : o.program = none) :
    chosen o = .ok Catalogue.programs := by
  rw [chosen, h]
  exact Catalogue.mapM_byName_names

/-- The lines of the listing. -/
def listing : List String :=
  (List.range Catalogue.count).filterMap fun index =>
    match Catalogue.summary index with
    | .ok s => some (summaryLine s)
    | .error _ => none

/-- The reply to options. -/
def performFor (n : Nat) (o : Options) : Option Reply :=
  if o.list then some ⟨listing, none⟩
  else
    match chosen o with
    | .error e => some ⟨[], some (.plain e)⟩
    | .ok programs => sequenceFor n o (decide (1 < programs.length)) [] programs

/-! ### Arguments and exit codes -/

/-- The name and version of the command. -/
def versionLine : String := "tmsim-cli 0.0.1"

/-- What the command leaves: its exit code and what it has written. -/
structure Exit where
  /-- The exit code. -/
  code : Nat
  /-- What was written as the result. -/
  output : String
  /-- What was written about a failure. -/
  errors : String
  deriving DecidableEq, Repr

/-- Lines as a text. -/
def textOf (lines : List String) : String := String.join (lines.map fun line => line ++ "\n")

/-- What a reply leaves: a failure has exit code one. -/
def Reply.exit (r : Reply) : Exit :=
  match r.fault with
  | none => ⟨0, textOf r.lines, ""⟩
  | some fault => ⟨1, textOf r.lines, textOf fault.lines⟩

/-- How the command is used. -/
def usage : List String :=
  ["Usage: tmsim-cli [-p|--program NAME] [-i|--input TEXT] [-m|--max-steps N] [-d|--debug]",
    "                 [--json] [-l|--list] [-V|--version]"]

/-- What the command leaves when it is called with the arguments, if so many rounds are enough.
Arguments that are not in order have exit code two. -/
def replyFor (n : Nat) (arguments : List String) : Option Exit :=
  match parse? arguments with
  | none => some ⟨2, "", textOf usage⟩
  | some .version => some ⟨0, textOf [versionLine], ""⟩
  | some (.perform o) => (performFor n o).map Reply.exit

end CommandLine

end TapeMachine
