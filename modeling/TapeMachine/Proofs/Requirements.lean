/-
**What a program must meet.**

The check of a program is a row of computations, each with its own way to find offenders.  What it
amounts to is said here without them: a program must meet nine requirements, and there is one
error for each that it does not meet.  A check *decides* some requirements if it passes exactly
when all of them are met and reports the first that is not (`Decides`).  Two checks in a row decide
the requirements of both, and the second may rely on those of the first; it has to, since the
search for a start state looks at the first mention of a name only and misses a flag on a later
one, which is harmless once the mentions are known to agree.

Main definitions:

* `TapeMachine.Error.Kind` — the kinds of errors, without the values that they carry;
* `TapeMachine.Program.Requirement` — the requirements, and their order;
* `TapeMachine.Program.Meets`, `TapeMachine.Program.Reports` — what each of them asks for, and the
  error that tells of its violation;
* `TapeMachine.Program.FirstViolated` — a requirement is the first that is not met;
* `TapeMachine.Program.Decides` — a check decides requirements.

Main results:

* `TapeMachine.Program.Decides.andThen` — two checks in a row;
* `TapeMachine.Program.check_decides` — the check of a program decides all requirements;
* `TapeMachine.Program.check_congr` — programs that meet the same requirements pass alike;
* `TapeMachine.Program.check_first_violated` — **a program passes exactly when it meets them all**,
  and otherwise the first that it does not meet is reported, by the check and by the attempt to
  make a machine.
-/

import TapeMachine.Proofs.Flags

set_option relaxedAutoImplicit false
set_option autoImplicit false

namespace TapeMachine

/-! ### Kinds of errors -/

/-- The kinds of errors, without the values that an error carries. -/
inductive Error.Kind where
  /-- No state is the start state. -/
  | noStartState
  /-- More than one name is flagged as the start state. -/
  | multipleStartStates
  /-- A cell was asked for that a tape does not have. -/
  | indexOutOfRange
  /-- The cap on transitions was reached. -/
  | stepLimitExceeded
  /-- A description cannot be used as a program. -/
  | invalid
  /-- No program of the catalogue answers to the query. -/
  | unknownProgram
  deriving DecidableEq, Repr

/-- The kind of an error. -/
def Error.kind : Error → Error.Kind
  | noStartState => .noStartState
  | multipleStartStates _ => .multipleStartStates
  | indexOutOfRange _ _ => .indexOutOfRange
  | stepLimitExceeded _ => .stepLimitExceeded
  | invalid _ => .invalid
  | unknownProgram _ => .unknownProgram

namespace Program

/-! ### The requirements -/

/-- What is required of a program. -/
inductive Requirement where
  /-- The tape has a cell. -/
  | cells
  /-- Accepting differs from rejecting. -/
  | verdicts
  /-- The head stands on a cell. -/
  | head
  /-- All mentions of a name carry the same flags. -/
  | flags
  /-- There is a state to start in. -/
  | start
  /-- There is no other state flagged as the start. -/
  | oneStart
  /-- No state and symbol have two rules. -/
  | rules
  /-- Only declared states are mentioned. -/
  | states
  /-- Only declared symbols and the blank are used. -/
  | symbols
  deriving DecidableEq, Repr

/-- The requirements in the order in which their violations are reported. -/
def Requirement.order : List Requirement :=
  [cells, verdicts, head, flags, start, oneStart, rules, states, symbols]

theorem Requirement.mem_order (r : Requirement) : r ∈ order := by
  cases r <;> decide

/-- The program meets the requirement. -/
def Meets (p : Program) : Requirement → Prop
  | .cells => p.tape.symbols ≠ []
  | .verdicts => ∀ bounds, p.profile = .bounded bounds → bounds.accept ≠ bounds.reject
  | .head => p.head < p.tape.length
  | .flags => ∀ s ∈ p.mentions, ∀ t ∈ p.mentions, t.name = s.name → t.flags = s.flags
  | .start =>
      match p.profile with
      | .unbounded => ∃ s ∈ p.mentions, s.isStart = true
      | .bounded bounds => bounds.start ∈ bounds.states
  | .oneStart =>
      match p.profile with
      | .unbounded => ∀ s ∈ p.mentions, ∀ t ∈ p.mentions, s.isStart = true → t.isStart = true →
          t.name = s.name
      | .bounded bounds => ∀ s ∈ p.mentions, s.isStart = true → s.name = bounds.start
  | .rules => p.rules.Pairwise fun r s => ¬ (s.current.name = r.current.name ∧ s.read = r.read)
  | .states => ∀ bounds, p.profile = .bounded bounds →
      (∀ s ∈ p.mentions, s.name ∈ bounds.states) ∧
        bounds.accept ∈ bounds.states ∧ bounds.reject ∈ bounds.states
  | .symbols => ∀ bounds, p.profile = .bounded bounds →
      ∀ c ∈ p.tape.symbols ++ p.rules.flatMap Rule.symbols, c ∈ bounds.alphabet ∨ c = p.blank

/-- The error tells that the program does not meet the requirement. -/
inductive Reports (p : Program) : Requirement → Error → Prop
  | cells : Reports p .cells (.invalid (.structural "Tape is empty"))
  | verdicts {bounds : Bounds} : p.profile = .bounded bounds →
      Reports p .verdicts (.invalid (.structural
        s!"Accept and reject states must differ, both are '{bounds.accept}'"))
  | head : Reports p .head (.invalid (.headPosition p.head))
  | flags : Reports p .flags (.invalid (.conflictingFlags p.conflictingNames))
  | start : Reports p .start .noStartState
  | severalStarts : p.profile = .unbounded →
      Reports p .oneStart (.multipleStartStates p.startNames)
  | strayStarts {bounds : Bounds} : p.profile = .bounded bounds →
      Reports p .oneStart (.multipleStartStates p.strayStartNames)
  | rules : Reports p .rules (.invalid (.ambiguousRules p.repeatedEntries))
  | states : Reports p .states (.invalid (.undeclaredStates p.undeclaredNames))
  | symbols : Reports p .symbols (.invalid (.foreignSymbols p.foreignSymbols))

/-- The program meets every requirement before the given one, and does not meet that one. -/
def FirstViolated (p : Program) (r : Requirement) : Prop :=
  ∃ earlier later, Requirement.order = earlier ++ r :: later ∧ (∀ q ∈ earlier, p.Meets q) ∧
    ¬ p.Meets r

/-- A requirement is reported by one error only. -/
theorem Reports.unique {p : Program} {r : Requirement} {e e' : Error} (h : p.Reports r e)
    (h' : p.Reports r e') : e = e' := by
  cases h with
  | verdicts hp =>
      cases h' with
      | verdicts hp' =>
          obtain rfl := Profile.bounded.inj (hp.symm.trans hp')
          rfl
  | severalStarts hp =>
      cases h' with
      | severalStarts _ => rfl
      | strayStarts hp' => exact nomatch hp.symm.trans hp'
  | strayStarts hp =>
      cases h' with
      | severalStarts hp' => exact nomatch hp.symm.trans hp'
      | strayStarts _ => rfl
  | _ =>
      cases h'
      rfl

/-- The errors that tell of one requirement are of one kind, whatever the programs. -/
theorem Reports.kind_eq {p p' : Program} {r : Requirement} {e e' : Error} (h : p.Reports r e)
    (h' : p'.Reports r e') : e'.kind = e.kind := by
  cases h <;> cases h' <;> rfl

/-! ### Checks that decide requirements -/

/-- The result of a check decides the requirements: it is a success if the program meets them all,
and tells of the first that it does not meet otherwise. -/
inductive Decides (p : Program) : List Requirement → Except Error Unit → Prop
  | passed : Decides p [] (.ok ())
  | met {r : Requirement} {rs : List Requirement} {result : Except Error Unit} :
      p.Meets r → Decides p rs result → Decides p (r :: rs) result
  | violated {r : Requirement} {rs : List Requirement} {e : Error} :
      ¬ p.Meets r → p.Reports r e → Decides p (r :: rs) (.error e)

namespace Decides

variable {p : Program} {rs : List Requirement} {result : Except Error Unit}

theorem eq_ok_iff (h : Decides p rs result) : result = .ok () ↔ ∀ r ∈ rs, p.Meets r := by
  induction h with
  | passed => simp
  | met hmeets _ ih => rw [ih, List.forall_mem_cons, and_iff_right hmeets]
  | violated hnot _ => exact ⟨fun h => (nomatch h), fun h => absurd (h _ List.mem_cons_self) hnot⟩

theorem eq_error_iff (h : Decides p rs result) {e : Error} :
    result = .error e ↔ ∃ earlier r later, rs = earlier ++ r :: later ∧
      (∀ q ∈ earlier, p.Meets q) ∧ ¬ p.Meets r ∧ p.Reports r e := by
  induction h with
  | passed =>
      refine ⟨fun h => (nomatch h), ?_⟩
      rintro ⟨earlier, r, later, hsplit, -⟩
      exact absurd hsplit (by simp)
  | @met r₁ rs₁ result₁ hmeets _ ih =>
      rw [ih]
      constructor
      · rintro ⟨earlier, r, later, rfl, hearlier, hrest⟩
        exact ⟨r₁ :: earlier, r, later, rfl, List.forall_mem_cons.2 ⟨hmeets, hearlier⟩, hrest⟩
      · rintro ⟨earlier, r, later, hsplit, hearlier, hnot, hreports⟩
        cases earlier with
        | nil =>
            obtain ⟨rfl, -⟩ := List.cons.inj hsplit
            exact absurd hmeets hnot
        | cons q earlier =>
            obtain ⟨-, hsplit⟩ := List.cons.inj hsplit
            exact ⟨earlier, r, later, hsplit, (List.forall_mem_cons.1 hearlier).2, hnot, hreports⟩
  | @violated r₁ rs₁ e₁ hnot₁ hreports₁ =>
      constructor
      · intro h
        obtain rfl := Except.error.inj h
        exact ⟨[], r₁, rs₁, rfl, by simp, hnot₁, hreports₁⟩
      · rintro ⟨earlier, r, later, hsplit, hearlier, hnot, hreports⟩
        cases earlier with
        | nil =>
            obtain ⟨rfl, -⟩ := List.cons.inj hsplit
            rw [hreports₁.unique hreports]
        | cons q earlier =>
            obtain ⟨rfl, -⟩ := List.cons.inj hsplit
            exact absurd (hearlier _ List.mem_cons_self) hnot₁

/-- **Two checks in a row decide the requirements of both**, and the second may rely on those of
the first. -/
theorem andThen {rs' : List Requirement} {first second : Except Error Unit}
    (h : Decides p rs first) (h' : (∀ r ∈ rs, p.Meets r) → Decides p rs' second) :
    Decides p (rs ++ rs') (do first; second) := by
  induction h with
  | passed => exact h' (by simp)
  | met hmeets _ ih =>
      exact .met hmeets (ih fun hrest => h' (List.forall_mem_cons.2 ⟨hmeets, hrest⟩))
  | violated hnot hreports => exact .violated hnot hreports

/-- Programs that meet the same requirements fail with errors of one kind. -/
theorem kind_eq {p' : Program} {result' : Except Error Unit} {e e' : Error}
    (h : Decides p rs result) (h' : Decides p' rs result')
    (hsame : ∀ r, p'.Meets r ↔ p.Meets r) (he : result = .error e) (he' : result' = .error e') :
    e'.kind = e.kind := by
  induction h with
  | passed => exact nomatch he
  | met hmeets _ ih =>
      cases h' with
      | met _ hrest' => exact ih hrest' he
      | violated hnot' _ => exact absurd ((hsame _).2 hmeets) hnot'
  | violated hnot hreports =>
      cases h' with
      | met hmeets' _ => exact absurd ((hsame _).1 hmeets') hnot
      | violated _ hreports' =>
          obtain rfl := Except.error.inj he
          obtain rfl := Except.error.inj he'
          exact hreports.kind_eq hreports'

/-- A check that refuses offenders decides the requirement that there are none. -/
theorem refuse {α : Type} {r : Requirement} {reason : List α → Error} {offenders : List α}
    (hmeets : p.Meets r ↔ offenders = []) (hreports : p.Reports r (reason offenders)) :
    Decides p [r] (Program.refuse reason offenders) := by
  cases offenders with
  | nil => exact .met (hmeets.2 rfl) .passed
  | cons a rest => exact .violated (fun h => nomatch hmeets.1 h) hreports

end Decides

/-! ### The offenders -/

theorem repeats_eq_nil_iff {seen : List (String × Char)} {rules : List Rule} :
    repeats seen rules = [] ↔ (∀ r ∈ rules, (r.current.name, r.read) ∉ seen) ∧
      rules.Pairwise fun r s => ¬ (s.current.name = r.current.name ∧ s.read = r.read) := by
  induction rules generalizing seen with
  | nil => simp [repeats]
  | cons r rest ih =>
      rw [repeats]
      by_cases hseen : (r.current.name, r.read) ∈ seen
      · rw [if_pos hseen]
        exact ⟨fun h => (nomatch h), fun h => absurd hseen (h.1 r List.mem_cons_self)⟩
      · -- a later rule is new if neither this one nor an earlier one has its state and symbol
        rw [if_neg hseen, ih, List.forall_mem_cons, List.pairwise_cons]
        simp only [List.mem_cons, Prod.mk.injEq, not_or, forall_and]
        constructor
        · rintro ⟨⟨hnew, hold⟩, hrest⟩
          exact ⟨⟨hseen, hold⟩, hnew, hrest⟩
        · rintro ⟨⟨-, hold⟩, hnew, hrest⟩
          exact ⟨⟨hnew, hold⟩, hrest⟩

section Checks

variable {p : Program}

theorem meets_rules_iff : p.Meets .rules ↔ p.repeatedEntries = [] := by
  rw [repeatedEntries, Distinct.collapse_eq_nil_iff, repeats_eq_nil_iff]
  simp [Meets]

theorem meets_states_iff : p.Meets .states ↔ p.undeclaredNames = [] := by
  cases hp : p.profile with
  | unbounded => simp [Meets, undeclaredNames, hp]
  | bounded bounds => simp [Meets, undeclaredNames, hp, Distinct.ascending_eq_nil_iff]

theorem meets_symbols_iff : p.Meets .symbols ↔ p.foreignSymbols = [] := by
  cases hp : p.profile with
  | unbounded => simp [Meets, foreignSymbols, hp]
  | bounded bounds =>
      simp only [Meets, foreignSymbols, hp, Profile.bounded.injEq, forall_eq',
        Distinct.ascending_eq_nil_iff, List.filter_eq_nil_iff]
      refine forall₂_congr ?_
      intro c _
      rw [Bool.and_eq_true, decide_eq_true_eq, decide_eq_true_eq, Decidable.not_and_iff_not_or_not,
        Decidable.not_not, Decidable.not_not]

/-! ### The start state -/

theorem startState_of_unbounded (hp : p.profile = .unbounded) {start : String} :
    p.startState = .ok start ↔ p.startNames = [start] := by
  rw [startState, hp]
  rcases p.startNames with _ | ⟨name, _ | ⟨other, rest⟩⟩ <;> simp

theorem startState_of_bounded {bounds : Bounds} (hp : p.profile = .bounded bounds)
    {start : String} :
    p.startState = .ok start ↔ bounds.start ∈ bounds.states ∧ bounds.start = start := by
  simp only [startState, hp]
  split <;> simp_all

section Flags

variable (hflags : p.Meets .flags)

include hflags

/-- Where the mentions of a name agree the search sees every flag of a start state. -/
theorem mem_startNames_of_meets {name : String} :
    name ∈ p.startNames ↔ ∃ s ∈ p.mentions, s.name = name ∧ s.isStart = true :=
  mem_startNames_iff (checkFlags_eq_ok_iff.2 hflags)

/-- Where a machine starts by flag, some mention of its first state carries that flag. -/
theorem exists_flagged_of_startState (hp : p.profile = .unbounded) {start : String}
    (hstart : p.startState = .ok start) :
    ∃ s ∈ p.mentions, s.name = start ∧ s.isStart = true := by
  have hnames := (startState_of_unbounded hp).1 hstart
  have hmem : start ∈ p.startNames := by simp [hnames]
  exact (mem_startNames_of_meets hflags).1 hmem

theorem meets_start_of_unbounded (hp : p.profile = .unbounded) :
    p.Meets .start ↔ ∃ name, name ∈ p.startNames := by
  simp only [Meets, hp]
  constructor
  · rintro ⟨s, hs, hstart⟩
    exact ⟨s.name, (mem_startNames_of_meets hflags).2 ⟨s, hs, rfl, hstart⟩⟩
  · rintro ⟨name, hname⟩
    obtain ⟨s, hs, -, hstart⟩ := (mem_startNames_of_meets hflags).1 hname
    exact ⟨s, hs, hstart⟩

theorem meets_oneStart_of_unbounded (hp : p.profile = .unbounded) :
    p.Meets .oneStart ↔ ∀ a ∈ p.startNames, ∀ b ∈ p.startNames, b = a := by
  simp only [Meets, hp]
  constructor
  · intro h a ha b hb
    obtain ⟨s, hs, rfl, hstart⟩ := (mem_startNames_of_meets hflags).1 ha
    obtain ⟨t, ht, rfl, hstart'⟩ := (mem_startNames_of_meets hflags).1 hb
    exact h s hs t ht hstart hstart'
  · intro h s hs t ht hstart hstart'
    exact h s.name ((mem_startNames_of_meets hflags).2 ⟨s, hs, rfl, hstart⟩) t.name
      ((mem_startNames_of_meets hflags).2 ⟨t, ht, rfl, hstart'⟩)

theorem meets_oneStart_of_bounded {bounds : Bounds} (hp : p.profile = .bounded bounds) :
    p.Meets .oneStart ↔ p.strayStartNames = [] := by
  simp only [Meets, strayStartNames, hp, List.filter_eq_nil_iff, decide_eq_true_eq,
    Decidable.not_not]
  constructor
  · intro h name hname
    obtain ⟨s, hs, rfl, hstart⟩ := (mem_startNames_of_meets hflags).1 hname
    exact h s hs hstart
  · intro h s hs hstart
    exact h s.name ((mem_startNames_of_meets hflags).2 ⟨s, hs, rfl, hstart⟩)

/-- The search for a start state decides both requirements on it, as long as the mentions of a
name agree. -/
theorem checkStart_decides : Decides p [.start, .oneStart] p.checkStart := by
  cases hp : p.profile with
  | bounded bounds =>
      by_cases hdeclared : bounds.start ∈ bounds.states
      · simp only [checkStart, (startState_of_bounded hp).2 ⟨hdeclared, rfl⟩]
        exact .met (by simpa [Meets, hp])
          (.refuse (meets_oneStart_of_bounded hflags hp) (.strayStarts hp))
      · simp only [checkStart, startState, hp, if_neg hdeclared]
        exact .violated (by simpa [Meets, hp]) .start
  | unbounded =>
      have hstart := meets_start_of_unbounded hflags hp
      have hone := meets_oneStart_of_unbounded hflags hp
      have hreports : p.Reports .oneStart (.multipleStartStates p.startNames) := .severalStarts hp
      have hstray : p.strayStartNames = [] := by rw [strayStartNames, hp]
      rcases hnames : p.startNames with _ | ⟨name, _ | ⟨other, rest⟩⟩
      · simp only [checkStart, startState, hp, hnames]
        exact .violated (by simp [hstart, hnames]) .start
      · simp only [checkStart, startState, hp, hnames, hstray]
        exact .met (hstart.2 ⟨name, by simp [hnames]⟩) (.met (by simp [hone, hnames]) .passed)
      · -- the names are listed once each, so two in the list are two names
        have hdistinct := nodup_startNames p
        rw [hnames] at hone hreports hdistinct
        have hne : name ≠ other := fun h => (List.nodup_cons.1 hdistinct).1 (by simp [h])
        simp only [checkStart, startState, hp, hnames]
        refine .met (hstart.2 ⟨name, by simp [hnames]⟩) (.violated ?_ hreports)
        intro h
        exact hne (hone.1 h other (by simp) name (by simp))

end Flags

/-! ### What each check decides -/

theorem checkStructure_decides : Decides p [.cells, .verdicts] p.checkStructure := by
  rw [checkStructure]
  by_cases hcells : p.tape.symbols = []
  · rw [if_pos (show p.tape.isEmpty = true from List.isEmpty_iff.2 hcells)]
    exact .violated (fun h => h hcells) .cells
  · rw [if_neg (show ¬ p.tape.isEmpty = true from fun h => hcells (List.isEmpty_iff.1 h))]
    refine .met hcells ?_
    cases hp : p.profile with
    | unbounded => exact .met (by simp [Meets, hp]) .passed
    | bounded bounds =>
        by_cases hsame : bounds.accept = bounds.reject
        · simp only [if_pos hsame]
          exact .violated (fun h => h bounds hp hsame) (.verdicts hp)
        · simp only [if_neg hsame]
          exact .met (by simpa [Meets, hp]) .passed

/-- The check of the head relies on the one before it, which has seen to it that there are cells. -/
theorem checkHead_decides (hcells : p.Meets .cells) : Decides p [.head] p.checkHead := by
  have hempty : ¬ p.tape.isEmpty = true := fun h => hcells (List.isEmpty_iff.1 h)
  rw [checkHead]
  split
  · rename_i hoff
    exact .violated (Nat.not_lt.2 hoff.1) .head
  · rename_i hnot
    exact .met (Nat.not_le.1 fun hle => hnot ⟨hle, hempty⟩) .passed

theorem checkFlags_decides : Decides p [.flags] p.checkFlags :=
  .refuse conflictingNames_eq_nil_iff.symm .flags

end Checks

/-- **The check of a program decides all requirements**, in their order. -/
theorem check_decides (p : Program) : Decides p Requirement.order p.check :=
  checkStructure_decides.andThen fun hstructure =>
    (checkHead_decides (hstructure .cells List.mem_cons_self)).andThen fun _ =>
    checkFlags_decides.andThen fun hflags =>
      (checkStart_decides (hflags .flags List.mem_cons_self)).andThen fun _ =>
        (Decides.refuse meets_rules_iff .rules).andThen fun _ =>
          (Decides.refuse meets_states_iff .states).andThen fun _ =>
            .refuse meets_symbols_iff .symbols

/-- **A program passes exactly when it meets every requirement.** -/
theorem check_eq_ok_iff_meets {p : Program} : p.check = .ok () ↔ ∀ r, p.Meets r := by
  rw [(check_decides p).eq_ok_iff]
  exact ⟨fun h r => h r r.mem_order, fun h r _ => h r⟩

/-- **Programs that meet the same requirements pass alike**, or fail with errors of one kind. -/
theorem check_congr {p p' : Program} (h : ∀ r, p'.Meets r ↔ p.Meets r) :
    (p.check = .ok () ↔ p'.check = .ok ()) ∧
      ∀ e e', p.check = .error e → p'.check = .error e' → e.kind = e'.kind := by
  constructor
  · rw [check_eq_ok_iff_meets, check_eq_ok_iff_meets]
    exact forall_congr' fun r => (h r).symm
  · intro e e' he he'
    exact ((check_decides p).kind_eq (check_decides p') h he he').symm

/-- A program that passes says where to start. -/
theorem exists_startState {p : Program} (h : p.check = .ok ()) :
    ∃ start, p.startState = .ok start := by
  have hstart := (check_eq_ok_iff.1 h).2.2.2.1
  rw [checkStart] at hstart
  cases hstate : p.startState with
  | ok start => exact ⟨start, rfl⟩
  | error e =>
      rw [hstate] at hstart
      exact nomatch hstart

/-- No machine is made for the reason for which the program does not pass, and for no other. -/
theorem new_eq_error_iff {p : Program} {e : Error} :
    Machine.new p = .error e ↔ p.check = .error e := by
  cases hcheck : p.check with
  | error e' => simp [Machine.new, hcheck, bind, Except.bind]
  | ok u =>
      obtain ⟨start, hstart⟩ := exists_startState hcheck
      have hnew := Machine.new_eq_ok_iff.2 ⟨hcheck, start, hstart, rfl⟩
      simp [hnew]

/-- **The check accepts the programs that meet every requirement, and reports the first violation
of any other.**  The error of a program that does not pass is the one for the first requirement that
it does not meet; the attempt to make a machine for it fails with the very same error, and a machine
is made for every program that passes. -/
theorem check_first_violated (p : Program) :
    (p.check = .ok () ↔ ∀ r, p.Meets r) ∧
      (∀ e, p.check = .error e ↔ ∃ r, p.FirstViolated r ∧ p.Reports r e) ∧
      (∀ e, Machine.new p = .error e ↔ p.check = .error e) ∧
      ((∃ m, Machine.new p = .ok m) ↔ p.check = .ok ()) := by
  refine ⟨check_eq_ok_iff_meets, ?_, fun e => new_eq_error_iff, ?_⟩
  · intro e
    rw [(check_decides p).eq_error_iff]
    constructor
    · rintro ⟨earlier, r, later, hsplit, hearlier, hnot, hreports⟩
      exact ⟨r, ⟨earlier, later, hsplit, hearlier, hnot⟩, hreports⟩
    · rintro ⟨r, ⟨earlier, later, hsplit, hearlier, hnot⟩, hreports⟩
      exact ⟨earlier, r, later, hsplit, hearlier, hnot, hreports⟩
  · constructor
    · rintro ⟨m, hm⟩
      exact (Machine.new_eq_ok_iff.1 hm).1
    · intro hcheck
      obtain ⟨start, hstart⟩ := exists_startState hcheck
      exact ⟨_, Machine.new_eq_ok_iff.2 ⟨hcheck, start, hstart, rfl⟩⟩

/-- The flag of a start state on a second mention only: the mentions disagree, and that is said
before the search for a start state, which misses it, has a say. -/
example : (Program.unbounded
    [⟨State.ordinary "a", '0', State.start "a", '0', .right⟩] (Tape.ofString "0") 0).check =
      .error (.invalid (.conflictingFlags ["a"])) := rfl

end Program

end TapeMachine
