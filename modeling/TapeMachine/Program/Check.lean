/-
**Checking a program before it runs.**

A program is fit to run when its tape has cells, accepting differs from rejecting, its head stands
on a cell, the mentions of a state agree, there is one state to start in, no state and symbol have
two rules, and, for a bounded program, only declared states and symbols occur.  The checks are
made in this order and the first that fails gives the reason.

Main definitions:

* `TapeMachine.Program.startState` — the name of the state in which a machine starts;
* `TapeMachine.Program.conflictingNames`, `TapeMachine.Program.repeatedEntries`,
  `TapeMachine.Program.undeclaredNames`, `TapeMachine.Program.foreignSymbols` — the offenders that
  a failure names;
* `TapeMachine.Program.check` — all checks, one after the other.

Main results:

* `TapeMachine.Program.check_eq_ok_iff` — a program passes when it passes each check;
* `TapeMachine.Program.mem_conflictingNames_iff_first` — the names in conflict are those with a
  mention unlike the first one.
-/

import TapeMachine.Program

set_option relaxedAutoImplicit false
set_option autoImplicit false

namespace TapeMachine

namespace Program

/-! ### The start state -/

/-- The names of the states that are flagged as the start, in the order of first mention. -/
def startNames (p : Program) : List String := (p.states.filter State.isStart).map State.name

/-- The name of the state in which a machine starts: the flagged one, or the declared one. -/
def startState (p : Program) : Except Error String :=
  match p.profile with
  | .unbounded =>
      match p.startNames with
      | [] => .error .noStartState
      | [name] => .ok name
      | names => .error (.multipleStartStates names)
  | .bounded bounds =>
      if bounds.start ∈ bounds.states then .ok bounds.start else .error .noStartState

/-- The names that are flagged as the start although a bounded program starts elsewhere. -/
def strayStartNames (p : Program) : List String :=
  match p.profile with
  | .unbounded => []
  | .bounded bounds => p.startNames.filter fun name => decide (name ≠ bounds.start)

/-! ### The offenders -/

/-- The names of the mentions whose flags are not those of the first mention of the name, where
`seen` are the first mentions so far. -/
def conflicts : List State → List State → List String
  | _, [] => []
  | seen, s :: rest =>
      match seen.find? fun t => decide (t.name = s.name) with
      | none => conflicts (seen ++ [s]) rest
      | some t =>
          if t.flags = s.flags then conflicts seen rest else s.name :: conflicts seen rest

/-- The names that are mentioned again with other flags than at first, in ascending order. -/
def conflictingNames (p : Program) : List String := Distinct.ascending (conflicts [] p.mentions)

/-- The entries of the rules whose state and symbol are among `seen` or those of an earlier rule
of the list. -/
def repeats : List (String × Char) → List Rule → List String
  | _, [] => []
  | seen, r :: rest =>
      if (r.current.name, r.read) ∈ seen then r.entry :: repeats seen rest
      else repeats ((r.current.name, r.read) :: seen) rest

/-- The entries of the rules that come after another one for the same state and symbol, in the
order of the rules, with equal neighbours merged. -/
def repeatedEntries (p : Program) : List String := Distinct.collapse (repeats [] p.rules)

/-- The names that a bounded program mentions without declaring them, in ascending order. -/
def undeclaredNames (p : Program) : List String :=
  match p.profile with
  | .unbounded => []
  | .bounded bounds => Distinct.ascending <|
      (p.mentions.map State.name ++ [bounds.accept, bounds.reject]).filter fun name =>
        decide (name ∉ bounds.states)

/-- The symbols of a bounded program that are neither declared nor the blank, in ascending
order. -/
def foreignSymbols (p : Program) : List Char :=
  match p.profile with
  | .unbounded => []
  | .bounded bounds => Distinct.ascending <|
      (p.tape.symbols ++ p.rules.flatMap Rule.symbols).filter fun c =>
        decide (c ∉ bounds.alphabet) && decide (c ≠ p.blank)

/-! ### The checks -/

/-- Fails with the error made of the offenders, unless there are none. -/
def refuse {α : Type} (reason : List α → Error) : List α → Except Error Unit
  | [] => .ok ()
  | offenders => .error (reason offenders)

/-- The tape has cells, and accepting differs from rejecting. -/
def checkStructure (p : Program) : Except Error Unit :=
  if p.tape.isEmpty then .error (.invalid (.structural "Tape is empty"))
  else
    match p.profile with
    | .unbounded => .ok ()
    | .bounded bounds =>
        if bounds.accept = bounds.reject then
          .error (.invalid (.structural
            s!"Accept and reject states must differ, both are '{bounds.accept}'"))
        else .ok ()

/-- The head stands on a cell, if there is one. -/
def checkHead (p : Program) : Except Error Unit :=
  if p.tape.length ≤ p.head ∧ ¬ p.tape.isEmpty then .error (.invalid (.headPosition p.head))
  else .ok ()

/-- All mentions of a state agree. -/
def checkFlags (p : Program) : Except Error Unit :=
  refuse (fun names => .invalid (.conflictingFlags names)) p.conflictingNames

/-- There is one state to start in. -/
def checkStart (p : Program) : Except Error Unit :=
  match p.startState with
  | .error e => .error e
  | .ok _ => refuse .multipleStartStates p.strayStartNames

/-- No state and symbol have two rules. -/
def checkDeterminism (p : Program) : Except Error Unit :=
  refuse (fun entries => .invalid (.ambiguousRules entries)) p.repeatedEntries

/-- Only declared states are mentioned. -/
def checkDeclared (p : Program) : Except Error Unit :=
  refuse (fun names => .invalid (.undeclaredStates names)) p.undeclaredNames

/-- Only declared symbols and the blank are used. -/
def checkAlphabet (p : Program) : Except Error Unit :=
  refuse (fun symbols => .invalid (.foreignSymbols symbols)) p.foreignSymbols

/-- **The check of a program**: the reason why it cannot run, if there is one. -/
def check (p : Program) : Except Error Unit := do
  p.checkStructure
  p.checkHead
  p.checkFlags
  p.checkStart
  p.checkDeterminism
  p.checkDeclared
  p.checkAlphabet

/-! ### When a check succeeds -/

/-- Nothing is refused exactly when there are no offenders. -/
@[simp] theorem refuse_eq_ok_iff {α : Type} {reason : List α → Error} {offenders : List α} :
    refuse reason offenders = .ok () ↔ offenders = [] := by
  cases offenders <;> simp [refuse]

/-- On a tape with cells only a head on one of them passes. -/
theorem checkHead_eq_ok_iff {p : Program} (hcells : p.tape.isEmpty = false) :
    p.checkHead = .ok () ↔ p.head < p.tape.length := by
  simp [checkHead, hcells]

/-- Only a tape with cells passes. -/
theorem isEmpty_of_checkStructure {p : Program} (h : p.checkStructure = .ok ()) :
    p.tape.isEmpty = false := by
  cases hempty : p.tape.isEmpty with
  | false => rfl
  | true =>
      rw [checkStructure, if_pos hempty] at h
      exact nomatch h

/-- Two checks in a row succeed when both do. -/
theorem andThen_eq_ok_iff {first second : Except Error Unit} :
    (do first; second) = .ok () ↔ first = .ok () ∧ second = .ok () := by
  cases first with
  | error e => exact ⟨fun h => (nomatch h), fun h => (nomatch h.1)⟩
  | ok u => exact ⟨fun h => ⟨rfl, h⟩, fun h => h.2⟩

/-- **A program passes when it passes each check.** -/
theorem check_eq_ok_iff {p : Program} :
    p.check = .ok () ↔ p.checkStructure = .ok () ∧ p.checkHead = .ok () ∧ p.checkFlags = .ok () ∧
      p.checkStart = .ok () ∧ p.checkDeterminism = .ok () ∧ p.checkDeclared = .ok () ∧
      p.checkAlphabet = .ok () := by
  simp only [check, andThen_eq_ok_iff]

/-- The head of a program that passes stands on a cell. -/
theorem head_lt_of_check {p : Program} (h : p.check = .ok ()) : p.head < p.tape.length := by
  obtain ⟨hstructure, hhead, -⟩ := check_eq_ok_iff.1 h
  exact (checkHead_eq_ok_iff (isEmpty_of_checkStructure hstructure)).1 hhead

/-! ### Names in conflict -/

/-- A mention is not found in a search if one of its name was seen before it. -/
theorem find?_append_cons_of_seen {seen rest : List State} {s t : State}
    (h : seen.find? (fun u => decide (u.name = s.name)) = some t) (name : String) :
    (seen ++ s :: rest).find? (fun u => decide (u.name = name)) =
      (seen ++ rest).find? fun u => decide (u.name = name) := by
  rw [List.find?_append, List.find?_append]
  by_cases hname : s.name = name
  · subst hname
    rw [h]
    rfl
  · rw [List.find?_cons_of_neg (by simpa using hname)]

theorem mem_conflicts_iff {seen items : List State} {name : String} :
    name ∈ conflicts seen items ↔ ∃ s ∈ items, s.name = name ∧
      ∃ t, (seen ++ items).find? (fun u => decide (u.name = name)) = some t ∧
        t.flags ≠ s.flags := by
  induction items generalizing seen with
  | nil => simp [conflicts]
  | cons s rest ih =>
      rw [conflicts]
      simp only [List.mem_cons, exists_eq_or_imp]
      cases hseen : seen.find? fun t => decide (t.name = s.name) with
      | none =>
          -- the mention is the first one of its name, and is not in conflict with itself
          have hfirst : ¬ (s.name = name ∧ ∃ t,
              (seen ++ s :: rest).find? (fun u => decide (u.name = name)) = some t ∧
                t.flags ≠ s.flags) := by
            rintro ⟨rfl, t, hfind, hdiffer⟩
            rw [List.find?_append, hseen, Option.none_or,
              List.find?_cons_of_pos (by simp), Option.some.injEq] at hfind
            exact hdiffer (congrArg State.flags hfind.symm)
          rw [or_iff_right hfirst]
          simp only [ih, List.append_assoc, List.singleton_append]
      | some t =>
          have hfind : s.name = name →
              (seen ++ rest).find? (fun u => decide (u.name = name)) = some t := by
            rintro rfl
            rw [List.find?_append, hseen, Option.some_or]
          simp only [find?_append_cons_of_seen hseen]
          split
          · rename_i hsame
            rw [ih, or_iff_right]
            rintro ⟨hname, u, hu, hdiffer⟩
            rw [hfind hname, Option.some.injEq] at hu
            exact hdiffer (hu ▸ hsame)
          · rename_i hdiffer
            rw [List.mem_cons, ih]
            refine or_congr_left ⟨?_, fun h => h.1.symm⟩
            rintro rfl
            exact ⟨rfl, t, hfind rfl, hdiffer⟩

/-- **A name is in conflict if some mention of it has other flags than the first one.** -/
theorem mem_conflictingNames_iff_first {p : Program} {name : String} :
    name ∈ p.conflictingNames ↔ ∃ s ∈ p.mentions, s.name = name ∧
      ∃ t, p.mentions.find? (fun u => decide (u.name = name)) = some t ∧ t.flags ≠ s.flags := by
  rw [conflictingNames, Distinct.mem_ascending, mem_conflicts_iff, List.nil_append]

end Program

end TapeMachine
