/-
**The options of the command.**

An option has a long name after two hyphens and, for most, a letter after one.  Flags stand alone;
settings take a value, either attached to them, possibly after an equals sign, or as the next
argument.  Letters may be joined behind one hyphen, and the first setting among them takes the
rest as its value.  A value that is an argument of its own must not look like an option.

The arguments are first taken apart into items and then applied in their order, so that the first
thing wrong counts, unless the version was asked for before it.

Main definitions:

* `TapeMachine.CommandLine.Options` — what the command is to do;
* `TapeMachine.CommandLine.items` — the arguments taken apart;
* `TapeMachine.CommandLine.Options.request?` — the items applied in their order;
* `TapeMachine.CommandLine.parse?` — what the arguments ask for, if they are in order.
-/

import TapeMachine.Text.Digits

set_option relaxedAutoImplicit false
set_option autoImplicit false

namespace TapeMachine

namespace CommandLine

/-- An option that stands alone. -/
inductive Flag where
  /-- Shows each step. -/
  | debug
  /-- Shows the outcome as JSON. -/
  | json
  /-- Lists the programs. -/
  | list
  /-- Shows the version. -/
  | version
  deriving DecidableEq, Repr

/-- An option that takes a value. -/
inductive Setting where
  /-- The program to run. -/
  | program
  /-- The input that replaces the one of the program. -/
  | input
  /-- The cap on transitions. -/
  | maxSteps
  deriving DecidableEq, Repr

/-- An option. -/
inductive Switch where
  /-- One that stands alone. -/
  | flag (f : Flag)
  /-- One that takes a value. -/
  | setting (s : Setting)
  deriving DecidableEq, Repr

/-- An item of the arguments. -/
inductive Item where
  /-- A flag. -/
  | flag (f : Flag)
  /-- A setting with its value. -/
  | setting (s : Setting) (value : String)
  /-- Something that is not in order. -/
  | wrong
  deriving DecidableEq, Repr

/-- What the command is to do. -/
structure Options where
  /-- The name of the program to run, or else all are run. -/
  program : Option String
  /-- The input that replaces the one of the program. -/
  input : Option String
  /-- The cap on transitions. -/
  maxSteps : Option Nat
  /-- Whether to show each step. -/
  debug : Bool
  /-- Whether to show the outcome as JSON. -/
  json : Bool
  /-- Whether to list the programs. -/
  list : Bool
  deriving DecidableEq, Repr

/-- What the arguments ask for. -/
inductive Request where
  /-- To do what the options say. -/
  | perform (options : Options)
  /-- To show the version. -/
  | version
  deriving DecidableEq, Repr

/-! ### Names of options -/

/-- The option with a long name. -/
def Switch.ofName? (name : String) : Option Switch :=
  if name = "program" then some (.setting .program)
  else if name = "input" then some (.setting .input)
  else if name = "max-steps" then some (.setting .maxSteps)
  else if name = "debug" then some (.flag .debug)
  else if name = "json" then some (.flag .json)
  else if name = "list" then some (.flag .list)
  else if name = "version" then some (.flag .version)
  else none

/-- The option with a letter. -/
def Switch.ofLetter? (letter : Char) : Option Switch :=
  if letter = 'p' then some (.setting .program)
  else if letter = 'i' then some (.setting .input)
  else if letter = 'm' then some (.setting .maxSteps)
  else if letter = 'd' then some (.flag .debug)
  else if letter = 'l' then some (.flag .list)
  else if letter = 'V' then some (.flag .version)
  else none

/-! ### Taking arguments apart -/

/-- The items of a long option, and the setting that still needs a value. -/
def longItems (cs : List Char) : List Item × Option Setting :=
  let name := String.ofList (cs.takeWhile (· != '='))
  match Switch.ofName? name, cs.dropWhile (· != '=') with
  | some (.flag f), [] => ([.flag f], none)
  | some (.setting s), [] => ([], some s)
  | some (.setting s), _ :: value => ([.setting s (String.ofList value)], none)
  | some (.flag _), _ :: _ => ([.wrong], none)
  | none, _ => ([.wrong], none)

/-- The items of letters behind one hyphen, and the setting that still needs a value. -/
def letterItems : List Char → List Item × Option Setting
  | [] => ([], none)
  | c :: rest =>
      match Switch.ofLetter? c with
      | none => ([.wrong], none)
      | some (.flag f) => (.flag f :: (letterItems rest).1, (letterItems rest).2)
      | some (.setting s) =>
          match rest with
          | [] => ([], some s)
          | '=' :: value => ([.setting s (String.ofList value)], none)
          | value => ([.setting s (String.ofList value)], none)

/-- The items of one argument, and the setting that still needs a value. -/
def argumentItems (argument : String) : List Item × Option Setting :=
  match argument.toList with
  | '-' :: '-' :: cs => longItems cs
  | '-' :: c :: cs => letterItems (c :: cs)
  | _ => ([.wrong], none)

/-- Whether an argument can be the value of the option before it: it is a single hyphen or does
not begin with one. -/
def isValue (argument : String) : Bool :=
  match argument.toList with
  | ['-'] => true
  | '-' :: _ => false
  | _ => true

/-- The items of the arguments, the first of which is the value of `awaiting` if that is some
setting.  After two hyphens alone no argument is in order, since the command takes options
only. -/
def items : Option Setting → List String → List Item
  | none, [] => []
  | some _, [] => [.wrong]
  | some s, argument :: rest =>
      if isValue argument then .setting s argument :: items none rest else [.wrong]
  | none, argument :: rest =>
      if argument = "--" then
        match rest with
        | [] => []
        | _ :: _ => [.wrong]
      else (argumentItems argument).1 ++ items (argumentItems argument).2 rest

/-! ### Applying items -/

namespace Options

/-- The options when there are no arguments. -/
def none : Options := ⟨.none, .none, .none, false, false, false⟩

/-- The options with one more item, unless it is wrong or was given before. -/
def add? (o : Options) : Item → Option Options
  | .flag .debug => if o.debug then .none else some { o with debug := true }
  | .flag .json => if o.json then .none else some { o with json := true }
  | .flag .list => if o.list then .none else some { o with list := true }
  | .setting .program value =>
      if o.program.isSome then .none else some { o with program := some value }
  | .setting .input value =>
      if o.input.isSome then .none else some { o with input := some value }
  | .setting .maxSteps value =>
      if o.maxSteps.isSome then .none
      else (Text.count? value).map fun limit => { o with maxSteps := some limit }
  | .flag .version | .wrong => .none

/-- The items applied in their order. -/
def request? (o : Options) : List Item → Option Request
  | [] => some (.perform o)
  | .flag .version :: _ => some .version
  | item :: rest => (o.add? item).bind fun o' => request? o' rest

end Options

/-- What the arguments ask for, if they are in order. -/
def parse? (arguments : List String) : Option Request :=
  Options.none.request? (items none arguments)

end CommandLine

end TapeMachine
