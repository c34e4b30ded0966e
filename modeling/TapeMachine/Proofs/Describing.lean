/-
**What can be wrong with a description.**

A description is put together piece by piece and in any order: names and symbols are added, rules
follow one another, and the name, the blank and the cap are those given last
(`Description.ofPieces_eq`).  None of this is checked, and a program is built from whatever there
is.  All the same most of what a check looks for cannot go wrong with such a program.  Its tape has
two sentinels, with the head after the first of them, however short the input is; and a state is
flagged by its name, with the name that is declared for starting and the one for accepting, so that
two mentions of it never disagree and no other state is to be started in.  What is left are faults
of the description itself or of the input (`Description.Orderly`).

Main definitions:

* `TapeMachine.Description.Piece`, `TapeMachine.Description.ofPieces` — what a description can be
  given, and the description put together from that;
* `TapeMachine.Description.Orderly` — the description has no fault and suits the input.

Main results:

* `TapeMachine.Description.ofPieces_eq` — what a description comes to;
* `TapeMachine.Description.check_build_iff` — when the program built from it passes its check;
* `TapeMachine.Description.described_faults_only` — **a program that was described is refused for
  faults of the description and the input only**.
-/

import TapeMachine.Proofs.LiftedBounds

set_option relaxedAutoImplicit false
set_option autoImplicit false

namespace TapeMachine

namespace Description

/-! ### Putting a description together -/

/-- What a description can be given. -/
inductive Piece where
  /-- The name of the program. -/
  | name (name : String)
  /-- Further names of states. -/
  | states (names : List String)
  /-- Further symbols. -/
  | alphabet (symbols : List Char)
  /-- A further entry of the rule table. -/
  | edge (edge : Edge)
  /-- The blank. -/
  | blank (blank : Char)
  /-- The cap on transitions. -/
  | maxSteps (limit : Nat)
  deriving DecidableEq, Repr

/-- The description with one more piece. -/
def add (d : Description) : Piece → Description
  | .name name => d.withName name
  | .states names => d.withStates names
  | .alphabet symbols => d.withAlphabet symbols
  | .edge edge => d.withEdge edge
  | .blank blank => d.withBlank blank
  | .maxSteps limit => d.withMaxSteps limit

/-- The description put together from the three names and the pieces, in their order. -/
def ofPieces (start accept reject : String) (pieces : List Piece) : Description :=
  pieces.foldl add (ofNames start accept reject)

namespace Piece

/-- The names that the piece declares. -/
def names : Piece → List String
  | states names => names
  | _ => []

/-- The symbols that the piece declares. -/
def symbols : Piece → List Char
  | alphabet symbols => symbols
  | _ => []

/-- The entries that the piece adds. -/
def edges : Piece → List Edge
  | edge e => [e]
  | _ => []

/-- The name of the program that the piece sets. -/
def name? : Piece → Option String
  | name n => some n
  | _ => none

/-- The blank that the piece sets. -/
def blank? : Piece → Option Char
  | blank c => some c
  | _ => none

/-- The cap that the piece sets. -/
def maxSteps? : Piece → Option Nat
  | maxSteps limit => some limit
  | _ => none

end Piece

/-- The last of the values that the pieces set, or the one from before. -/
def latest {α : Type} (set? : Piece → Option α) (pieces : List Piece) (before : α) : α :=
  (pieces.filterMap set?).getLast?.getD before

@[simp] theorem latest_nil {α : Type} (set? : Piece → Option α) (before : α) :
    latest set? [] before = before := rfl

/-- What the first piece sets is what the others find. -/
@[simp] theorem latest_cons {α : Type} (set? : Piece → Option α) (piece : Piece)
    (pieces : List Piece) (before : α) :
    latest set? (piece :: pieces) before = latest set? pieces ((set? piece).getD before) := by
  cases hset : set? piece with
  | none => simp [latest, hset]
  | some a => simp [latest, hset, List.getLast?_cons]

/-- Lists are added to, and what can be set is what was set last. -/
theorem foldl_add (d : Description) (pieces : List Piece) :
    pieces.foldl add d =
      ⟨latest Piece.name? pieces d.name, d.states ++ pieces.flatMap Piece.names,
        d.alphabet ++ pieces.flatMap Piece.symbols, d.edges ++ pieces.flatMap Piece.edges, d.start,
        d.accept, d.reject, latest Piece.blank? pieces d.blank,
        latest (fun piece => piece.maxSteps?.map some) pieces d.maxSteps⟩ := by
  induction pieces generalizing d with
  | nil => simp
  | cons piece pieces ih =>
      rw [List.foldl_cons, ih]
      cases piece <;>
        simp [add, withName, withStates, withAlphabet, withEdge, withBlank, withMaxSteps,
          Piece.names, Piece.symbols, Piece.edges, Piece.name?, Piece.blank?, Piece.maxSteps?]

/-- **What a description comes to**: all names, symbols and entries in the order in which they were
given, and the name, the blank and the cap that were given last. -/
theorem ofPieces_eq (start accept reject : String) (pieces : List Piece) :
    ofPieces start accept reject pieces =
      ⟨latest Piece.name? pieces defaultName, pieces.flatMap Piece.names,
        pieces.flatMap Piece.symbols, pieces.flatMap Piece.edges, start, accept, reject,
        latest Piece.blank? pieces defaultBlank,
        latest (fun piece => piece.maxSteps?.map some) pieces none⟩ :=
  foldl_add (ofNames start accept reject) pieces

/-! ### What is required of the program -/

/-- The description has no fault, and suits the input. -/
structure Orderly (d : Description) (input : String) : Prop where
  /-- Accepting differs from rejecting. -/
  verdicts : d.accept ≠ d.reject
  /-- The three names are declared. -/
  start : d.start ∈ d.states
  accept : d.accept ∈ d.states
  reject : d.reject ∈ d.states
  /-- The entries go from declared names to declared names. -/
  edges : ∀ e ∈ d.edges, e.source ∈ d.states ∧ e.target ∈ d.states
  /-- No two entries are for one name and one symbol. -/
  places : d.edges.Pairwise fun e e' => ¬ (e'.source = e.source ∧ e'.read = e.read)
  /-- The symbols of the input and of the entries are declared, or the blank. -/
  input : ∀ c ∈ input.toList, c ∈ d.alphabet ∨ c = d.blank
  symbols : ∀ e ∈ d.edges,
    (e.read ∈ d.alphabet ∨ e.read = d.blank) ∧ (e.write ∈ d.alphabet ∨ e.write = d.blank)

variable (d : Description) (input : String)

/-- The states of the program are those that the entries name. -/
theorem mem_mentions_build_iff {s : State} :
    s ∈ (d.build input).mentions ↔
      ∃ e ∈ d.edges, s = d.state e.source ∨ s = d.state e.target := by
  rw [Program.mem_mentions]
  constructor
  · rintro ⟨r, hr, hs⟩
    obtain ⟨e, he, rfl⟩ := List.mem_map.1 hr
    exact ⟨e, he, hs⟩
  · rintro ⟨e, he, hs⟩
    exact ⟨d.rule e, List.mem_map_of_mem he, hs⟩

/-- The requirements that a program meets because it was described: however short the input is,
there are the sentinels, with the head on the tape, and a name has one pair of flags only. -/
theorem meets_build :
    (d.build input).Meets .cells ∧ (d.build input).Meets .head ∧ (d.build input).Meets .flags ∧
      (d.build input).Meets .oneStart := by
  have hflagged := d.flaggedBy_build input
  refine ⟨?_, ?_, ?_, fun s hs hstart => (hflagged.start s hs).1 hstart⟩
  · intro hcells
    exact nomatch hcells
  · have hlength : (d.build input).tape.length = input.toList.length + 2 :=
      Tape.length_padded input d.blank
    have hhead : (d.build input).head = 1 := rfl
    rw [Program.Meets, hlength, hhead]
    omega
  · -- both flags of a mention can be told from its name
    intro s hs t ht hname
    have hstart : t.isStart = s.isStart := by
      rw [Bool.eq_iff_iff, hflagged.start s hs, hflagged.start t ht, hname]
    have haccepting : t.isAccepting = s.isAccepting := by
      rw [Bool.eq_iff_iff, hflagged.accepting s hs, hflagged.accepting t ht, hname]
    rw [State.flags, State.flags, hstart, haccepting]

theorem meets_verdicts_build_iff : (d.build input).Meets .verdicts ↔ d.accept ≠ d.reject :=
  ⟨fun h => h d.bounds rfl, fun h _ hp => Profile.bounded.inj hp ▸ h⟩

theorem meets_rules_build_iff :
    (d.build input).Meets .rules ↔
      d.edges.Pairwise fun e e' => ¬ (e'.source = e.source ∧ e'.read = e.read) :=
  List.pairwise_map

theorem meets_states_build_iff :
    (d.build input).Meets .states ↔
      (∀ e ∈ d.edges, e.source ∈ d.states ∧ e.target ∈ d.states) ∧
        d.accept ∈ d.states ∧ d.reject ∈ d.states := by
  constructor
  · intro h
    obtain ⟨hmentions, hverdicts⟩ := h d.bounds rfl
    refine ⟨?_, hverdicts⟩
    intro e he
    exact ⟨hmentions _ ((d.mem_mentions_build_iff input).2 ⟨e, he, Or.inl rfl⟩),
      hmentions _ ((d.mem_mentions_build_iff input).2 ⟨e, he, Or.inr rfl⟩)⟩
  · rintro ⟨hedges, hverdicts⟩ bounds hp
    obtain rfl := Profile.bounded.inj hp
    refine ⟨?_, hverdicts⟩
    intro s hs
    obtain ⟨e, he, rfl | rfl⟩ := (d.mem_mentions_build_iff input).1 hs
    · exact (hedges e he).1
    · exact (hedges e he).2

/-- The sentinels are blanks, so only the input and the entries have to be looked at. -/
theorem meets_symbols_build_iff :
    (d.build input).Meets .symbols ↔
      (∀ c ∈ input.toList, c ∈ d.alphabet ∨ c = d.blank) ∧
        ∀ e ∈ d.edges,
          (e.read ∈ d.alphabet ∨ e.read = d.blank) ∧
            (e.write ∈ d.alphabet ∨ e.write = d.blank) := by
  have htape : ∀ c, c ∈ (d.build input).tape.symbols ↔ c = d.blank ∨ c ∈ input.toList := by
    intro c
    simp only [build, Tape.padded, List.mem_append, List.mem_cons, List.not_mem_nil, or_false]
    rw [or_right_comm, or_self]
  have hrules : ∀ c, c ∈ (d.build input).rules.flatMap Rule.symbols ↔
      ∃ e ∈ d.edges, c = e.read ∨ c = e.write := by
    intro c
    simp [build, List.flatMap_map, rule, Rule.symbols]
  have hused : ∀ c, c ∈ (d.build input).tape.symbols ++ (d.build input).rules.flatMap Rule.symbols ↔
      (c = d.blank ∨ c ∈ input.toList) ∨ ∃ e ∈ d.edges, c = e.read ∨ c = e.write := by
    intro c
    rw [List.mem_append, htape, hrules]
  constructor
  · intro h
    have hall := h d.bounds rfl
    refine ⟨fun c hc => hall c ((hused c).2 (Or.inl (Or.inr hc))), ?_⟩
    intro e he
    exact ⟨hall e.read ((hused _).2 (Or.inr ⟨e, he, Or.inl rfl⟩)),
      hall e.write ((hused _).2 (Or.inr ⟨e, he, Or.inr rfl⟩))⟩
  · rintro ⟨hinput, hedges⟩ bounds hp c hc
    obtain rfl := Profile.bounded.inj hp
    rcases (hused c).1 hc with (hblank | hc) | ⟨e, he, rfl | rfl⟩
    · exact Or.inr hblank
    · exact hinput c hc
    · exact (hedges e he).1
    · exact (hedges e he).2

/-- **The program passes its check exactly when the description has no fault and suits the
input.** -/
theorem check_build_iff : (d.build input).check = .ok () ↔ d.Orderly input := by
  obtain ⟨hcells, hhead, hflags, hone⟩ := d.meets_build input
  rw [Program.check_eq_ok_iff_meets]
  constructor
  · intro h
    obtain ⟨hedges, haccept, hreject⟩ := (d.meets_states_build_iff input).1 (h .states)
    obtain ⟨hinput, hsymbols⟩ := (d.meets_symbols_build_iff input).1 (h .symbols)
    exact ⟨(d.meets_verdicts_build_iff input).1 (h .verdicts), h .start, haccept, hreject, hedges,
      (d.meets_rules_build_iff input).1 (h .rules), hinput, hsymbols⟩
  · intro h r
    cases r with
    | cells => exact hcells
    | head => exact hhead
    | flags => exact hflags
    | oneStart => exact hone
    | verdicts => exact (d.meets_verdicts_build_iff input).2 h.verdicts
    | start => exact h.start
    | rules => exact (d.meets_rules_build_iff input).2 h.places
    | states => exact (d.meets_states_build_iff input).2 ⟨h.edges, h.accept, h.reject⟩
    | symbols => exact (d.meets_symbols_build_iff input).2 ⟨h.input, h.symbols⟩

/-- The two faults of structure are told apart by their wording. -/
theorem verdicts_ne_empty (name : String) :
    s!"Accept and reject states must differ, both are '{name}'" ≠ "Tape is empty" := by
  intro h
  have hfirst := congrArg (fun text => text.toList.head?) h
  simp [toString] at hfirst

/-- A program that was described is refused for one of five reasons. -/
theorem error_of_build {e : Error} (h : Machine.new (d.build input) = .error e) :
    e = .invalid (.structural
        s!"Accept and reject states must differ, both are '{d.accept}'") ∨
      e = .noStartState ∨ (∃ entries, e = .invalid (.ambiguousRules entries)) ∨
      (∃ names, e = .invalid (.undeclaredStates names)) ∨
      ∃ symbols, e = .invalid (.foreignSymbols symbols) := by
  obtain ⟨hcells, hhead, hflags, hone⟩ := d.meets_build input
  obtain ⟨-, r, -, -, -, hnot, hreports⟩ :=
    (Program.check_decides _).eq_error_iff.1 (Program.new_eq_error_iff.1 h)
  cases hreports with
  | cells => exact absurd hcells hnot
  | head => exact absurd hhead hnot
  | flags => exact absurd hflags hnot
  | severalStarts | strayStarts => exact absurd hone hnot
  | verdicts hp =>
      obtain rfl := Profile.bounded.inj hp
      exact Or.inl rfl
  | start => exact Or.inr (Or.inl rfl)
  | rules => exact Or.inr (Or.inr (Or.inl ⟨_, rfl⟩))
  | states => exact Or.inr (Or.inr (Or.inr (Or.inl ⟨_, rfl⟩)))
  | symbols => exact Or.inr (Or.inr (Or.inr (Or.inr ⟨_, rfl⟩)))

/-- **A program that was described is refused for faults of the description and the input only.**
Whatever a description is given and in whatever order, it comes to all the names, symbols and
entries, and to the name, the blank and the cap that were given last.  A program built from it for
one input and put on another one is the program built for that one, and shows it.  A machine is made
for it exactly if the description has no fault and suits the input; and what it is refused for is
never that its tape is empty, where its head is, that flags disagree, or that there are several
states to start in. -/
theorem described_faults_only (start accept reject : String) (pieces : List Piece)
    (s t : String) :
    let d := ofPieces start accept reject pieces
    let p := (d.build s).withInput t
    d = ⟨latest Piece.name? pieces defaultName, pieces.flatMap Piece.names,
        pieces.flatMap Piece.symbols, pieces.flatMap Piece.edges, start, accept, reject,
        latest Piece.blank? pieces defaultBlank,
        latest (fun piece => piece.maxSteps?.map some) pieces none⟩ ∧
      p = d.build t ∧ p.initialTape = t ∧
      ((∃ m, Machine.new p = .ok m) ↔ d.Orderly t) ∧
      ∀ e, Machine.new p = .error e →
        e ≠ .invalid (.structural "Tape is empty") ∧
          (∀ position, e ≠ .invalid (.headPosition position)) ∧
          (∀ names, e ≠ .invalid (.conflictingFlags names)) ∧
          ∀ names, e ≠ .multipleStartStates names := by
  intro d p
  have hp : p = d.build t := withInput_build d s t
  refine ⟨ofPieces_eq start accept reject pieces, hp, ?_, ?_, ?_⟩
  · rw [hp, initialTape_build]
  · rw [hp, ← check_build_iff]
    constructor
    · rintro ⟨m, hm⟩
      exact (Machine.new_eq_ok_iff.1 hm).1
    · intro hcheck
      obtain ⟨name, hname⟩ := Program.exists_startState hcheck
      exact ⟨_, Machine.new_eq_ok_iff.2 ⟨hcheck, name, hname, rfl⟩⟩
  · intro e he
    rw [hp] at he
    rcases d.error_of_build t he with rfl | rfl | ⟨entries, rfl⟩ | ⟨names, rfl⟩ | ⟨symbols, rfl⟩
    · refine ⟨?_, by simp, by simp, by simp⟩
      intro hempty
      exact verdicts_ne_empty d.accept (Invalid.structural.inj (Error.invalid.inj hempty))
    · simp
    · simp
    · simp
    · simp

/-- The entry of a table before the names and symbols it needs, and the blank after that. -/
def Piece.backwards : List Piece :=
  [.edge ⟨"q", '#', "r", 'a', .left⟩, .blank '_', .alphabet ['a'], .states ["r"], .states ["q"],
    .blank '#']

/-- A description that starts where it accepts, told from the end to the beginning, has no fault and
suits no input at all; the blank that was replaced does not suit it any more. -/
theorem described_faults_only_backwards :
    (∃ m, Machine.new (((ofPieces "q" "q" "r" Piece.backwards).build "_").withInput "") = .ok m) ∧
      Machine.new (((ofPieces "q" "q" "r" Piece.backwards).build "").withInput "_") =
        .error (.invalid (.foreignSymbols ['_'])) ∧
      ∀ names, (.invalid (.foreignSymbols ['_']) : Error) ≠ .multipleStartStates names := by
  obtain ⟨hd, -, -, hmade, -⟩ := described_faults_only "q" "q" "r" Piece.backwards "_" ""
  obtain ⟨-, -, -, -, hrefused⟩ := described_faults_only "q" "q" "r" Piece.backwards "" "_"
  refine ⟨hmade.2 ?_, rfl, (hrefused _ rfl).2.2.2⟩
  have hinput : ∀ c ∈ "".toList, c ∈ ['a'] ∨ c = '#' := by simp
  rw [hd]
  exact ⟨by decide, by decide, by decide, by decide, by decide, by decide, hinput, by decide⟩

end Description

end TapeMachine
