/-
**JSON forms lose nothing.**

What is written of a state, a rule, a program or an outcome is read as the same thing again, whatever
names and symbols are in it, and so two different things are never written alike.  Two facts come
together for each type: a value that is made from data is spelled as it has to be, so that its text is
read as that value (`Json.parse?_compact`), and the value is read as the data (`ofJson?_toJson`).
Only numbers need some care, since a reader takes none from the sixty-fourth power of two on.

The command shows outcomes in lines and not in one piece, with a line break after them, and after
other lines if it shows each step.  The text is an outcome in lines all the same, so it is read as
the outcome of the run.

Main definitions:

* `TapeMachine.Json.Lossless` — that what is written is read again;
* `TapeMachine.Program.InRange`, `TapeMachine.Outcome.InRange` — that numbers are below the bound;
* `TapeMachine.CommandLine.Tells` — a text that is read as the outcome of a run;
* `TapeMachine.CommandLine.StopsAt` — where a row of programs has stopped, and why.

Main results:

* `TapeMachine.Json.lossless_of_inverse` — what two facts for a type come to;
* `TapeMachine.CommandLine.tells_of_runFor`, `TapeMachine.CommandLine.tells_of_sequenceFor` — what is
  shown of one program and of several;
* `TapeMachine.json_lossless` — **nothing is lost**, for the nine types and on the command line.
-/

import TapeMachine.CommandLine.Command
import TapeMachine.Json.RoundTrip
import TapeMachine.Proofs.Reachable

set_option relaxedAutoImplicit false
set_option autoImplicit false

namespace TapeMachine

namespace Json

variable {α : Type} {toJson : α → Json} {ofJson? : Json → Option α} {fits : α → Prop}

/-- What is written of data that fit is read as those data, and no two of them are written alike. -/
structure Lossless (toJson : α → Json) (ofJson? : Json → Option α) (fits : α → Prop) : Prop where
  reads : ∀ a, fits a → (parse? (toJson a).compact).bind ofJson? = some a
  injective : ∀ a b, fits a → fits b → (toJson a).compact = (toJson b).compact → a = b

/-- **Nothing is lost** where values are well spelled and are read as the data they were made
from. -/
theorem lossless_of_inverse (hspelled : ∀ a, (toJson a).isWellSpelled = true)
    (hinverse : ∀ a, fits a → ofJson? (toJson a) = some a) : Lossless toJson ofJson? fits := by
  have hreads : ∀ a, fits a → (parse? (toJson a).compact).bind ofJson? = some a := by
    intro a ha
    rw [parse?_compact (hspelled a), Option.bind_some, hinverse a ha]
  refine ⟨hreads, ?_⟩
  intro a b ha hb h
  have hsame := hreads a ha
  rw [h, hreads b hb] at hsame
  exact (Option.some.inj hsame).symm

end Json

/-! ### Values made from data -/

@[simp] theorem State.isWellSpelled_toJson (s : State) : s.toJson.isWellSpelled = true := by
  simp [State.toJson]

@[simp] theorem Direction.isWellSpelled_toJson (d : Direction) : d.toJson.isWellSpelled = true :=
  Json.isWellSpelled_ofString d.name

@[simp] theorem Rule.isWellSpelled_toJson (r : Rule) : r.toJson.isWellSpelled = true := by
  simp [Rule.toJson]

@[simp] theorem Tape.isWellSpelled_toJson (t : Tape) : t.toJson.isWellSpelled = true := by
  simp [Tape.toJson]

@[simp] theorem Bounds.isWellSpelled_toJson (b : Bounds) : b.toJson.isWellSpelled = true := by
  simp [Bounds.toJson]

@[simp] theorem Profile.isWellSpelled_toJson (p : Profile) : p.toJson.isWellSpelled = true := by
  cases p with
  | unbounded => exact Json.isWellSpelled_ofString _
  | bounded b => simp [Profile.toJson]

theorem Program.isWellSpelled_toJson (p : Program) : p.toJson.isWellSpelled = true := by
  simp [Program.toJson]

@[simp] theorem Halt.isWellSpelled_toJson (h : Halt) : h.toJson.isWellSpelled = true :=
  Json.isWellSpelled_ofString h.name

theorem Outcome.isWellSpelled_toJson (o : Outcome) : o.toJson.isWellSpelled = true := by
  simp [Outcome.toJson]

/-- The head position and the cap are below the bound of what counts something. -/
def Program.InRange (p : Program) : Prop :=
  p.head < Text.countBound ∧ ∀ limit ∈ p.maxSteps, limit < Text.countBound

/-- The number of steps is below the bound of what counts something. -/
def Outcome.InRange (o : Outcome) : Prop := o.steps < Text.countBound

namespace CommandLine

/-! ### What the command shows of one program -/

/-- The text is read as the outcome of a run of the program, which begins where the machine is made
or, where each step is shown first, some steps later. -/
def Tells (o : Options) (p : Program) (text : String) : Prop :=
  ∃ m k outcome f, Machine.new p = .ok m ∧ (o.debug = false → k = 0) ∧
    (m.after k).Ends (.ok outcome) f ∧
    (outcome.InRange → (Json.parse? text).bind Outcome.ofJson? = some outcome)

/-- The steps that are shown are steps of the machine. -/
theorem exists_after_of_traceFor {limit : Option Nat} {n : Nat} {m m' : Machine}
    {lines : List String} (h : traceFor limit n m = some (lines, .ok m')) :
    ∃ k, m' = m.after k := by
  induction n generalizing m lines with
  | zero => exact nomatch h
  | succ n ih =>
      rw [traceFor] at h
      split at h
      · obtain ⟨-, hm⟩ := Prod.mk.inj (Option.some.inj h)
        exact ⟨0, (Except.ok.inj hm).symm⟩
      · split at h
        · exact nomatch (Prod.mk.inj (Option.some.inj h)).2
        · rename_i verdict m₁ hstep
          obtain ⟨-, hm⟩ := Prod.mk.inj (Option.some.inj h)
          obtain rfl := Except.ok.inj hm
          exact ⟨1, (congrArg Prod.snd hstep).symm⟩
        · rename_i m₁ hstep
          obtain ⟨result, htrace, hresult⟩ := Option.map_eq_some_iff.1 h
          obtain ⟨-, hm⟩ := Prod.mk.inj hresult
          have hrest : traceFor limit n m₁ = some (result.1, .ok m') := by rw [htrace, ← hm]
          obtain ⟨k, rfl⟩ := ih hrest
          refine ⟨k + 1, ?_⟩
          rw [← Machine.after_step, hstep]

/-- At the end of a run its outcome is shown, or else the error is. -/
theorem lines_of_finishFor {n : Nat} {o : Options} {p : Program} {m : Machine} {shown : Shown}
    (hjson : o.json = true) (h : finishFor n o p m = some shown) (herror : shown.error = none) :
    ∃ outcome f, m.Ends (.ok outcome) f ∧ shown.lines = [outcome.toJson.indented] := by
  rw [finishFor] at h
  split at h
  · exact nomatch h
  · obtain rfl := Option.some.inj h
    exact nomatch herror
  · rename_i outcome f hrun
    obtain rfl := Option.some.inj h
    exact ⟨outcome, f, ⟨n, hrun⟩, by simp [outcomeLines, hjson]⟩

/-- Where each step is shown before, the run begins where the steps have led. -/
theorem lines_of_debugFor {n : Nat} {o : Options} {p : Program} {m : Machine} {shown : Shown}
    (hjson : o.json = true) (h : debugFor n o p m = some shown) (herror : shown.error = none) :
    ∃ before k outcome f, (m.after k).Ends (.ok outcome) f ∧
      shown.lines = before ++ [outcome.toJson.indented] := by
  rw [debugFor] at h
  split at h
  · exact nomatch h
  · obtain rfl := Option.some.inj h
    exact nomatch herror
  · rename_i lines m' htrace
    obtain ⟨k, rfl⟩ := exists_after_of_traceFor htrace
    obtain ⟨last, hfinish, rfl⟩ := Option.map_eq_some_iff.1 h
    obtain ⟨outcome, f, hends, hlines⟩ := lines_of_finishFor hjson hfinish herror
    exact ⟨stateLine m :: lines, k, outcome, f, hends, by rw [hlines]⟩

/-- The text of an outcome in lines is read as the outcome, with the line break after it or
without. -/
theorem tells_of_ends {o : Options} {p : Program} {m f : Machine} {k : Nat} {outcome : Outcome}
    (hmade : Machine.new p = .ok m) (hk : o.debug = false → k = 0)
    (hends : (m.after k).Ends (.ok outcome) f) :
    Tells o p outcome.toJson.indented ∧ Tells o p (outcome.toJson.indented ++ "\n") := by
  have hspelled := outcome.isWellSpelled_toJson
  refine ⟨⟨m, k, outcome, f, hmade, hk, hends, ?_⟩, ⟨m, k, outcome, f, hmade, hk, hends, ?_⟩⟩
  · intro hrange
    rw [Json.parse?_indented hspelled, Option.bind_some, Outcome.ofJson?_toJson hrange]
  · intro hrange
    rw [Json.parse?_indented_line hspelled, Option.bind_some, Outcome.ofJson?_toJson hrange]

/-- **What is shown of a program ends with the text of its outcome**, and is nothing else unless each
step is shown. -/
theorem tells_of_runFor {n : Nat} {o : Options} {p : Program} {shown : Shown}
    (hjson : o.json = true) (h : runFor n o p = some shown) (herror : shown.error = none) :
    ∃ before text, shown.lines = before ++ [text] ∧ (o.debug = false → before = []) ∧
      Tells o p text ∧ Tells o p (text ++ "\n") := by
  rw [runFor] at h
  split at h
  · obtain rfl := Option.some.inj h
    exact nomatch herror
  · rename_i m hmade
    split at h
    · rename_i hdebug
      have hnot : ¬ o.debug = false := by simp [hdebug]
      obtain ⟨before, k, outcome, f, hends, hlines⟩ := lines_of_debugFor hjson h herror
      exact ⟨before, _, hlines, fun hoff => absurd hoff hnot,
        tells_of_ends hmade (fun hoff => absurd hoff hnot) hends⟩
    · obtain ⟨outcome, f, hends, hlines⟩ := lines_of_finishFor hjson h herror
      exact ⟨[], _, hlines, fun _ => rfl, tells_of_ends (k := 0) hmade (fun _ => rfl) hends⟩

/-! ### What the command shows of several programs -/

/-- Where a row of programs has stopped: at its end and without a fault, or at a program that
failed, with that program's fault. -/
inductive StopsAt : List Program → Option Fault → Prop
  /-- All programs were run. -/
  | finished : StopsAt [] none
  /-- A program failed, and the programs after it were not run. -/
  | failed (p : Program) (rest : List Program) (e : Error) :
      StopsAt (p :: rest) (some (.running p.name e))

/-- **The outcome of each program is shown up to the first one that fails.** -/
theorem tells_of_sequenceFor {n : Nat} {o : Options} {titled : Bool} (hjson : o.json = true)
    {opening : List String} {programs : List Program} {reply : Reply}
    (h : sequenceFor n o titled opening programs = some reply) :
    ∃ ran rest, programs = ran ++ rest ∧ StopsAt rest reply.fault ∧
      ∀ p ∈ ran, ∃ text ∈ reply.lines, Tells o (configure o p) text := by
  induction programs generalizing opening reply with
  | nil =>
      obtain rfl := Option.some.inj h
      exact ⟨[], [], rfl, .finished, fun _ hp => nomatch hp⟩
  | cons p later ih =>
      rw [sequenceFor] at h
      split at h
      · exact nomatch h
      · rename_i lines e hrun
        obtain rfl := Option.some.inj h
        exact ⟨[], p :: later, rfl, .failed p later e, fun _ hp => nomatch hp⟩
      · rename_i lines hrun
        obtain ⟨before, text, rfl, -, htext, -⟩ := tells_of_runFor hjson hrun rfl
        obtain ⟨last, hlast, rfl⟩ := Option.map_eq_some_iff.1 h
        obtain ⟨ran, rest, rfl, hstops, hran⟩ := ih hlast
        refine ⟨p :: ran, rest, rfl, hstops, ?_⟩
        refine List.forall_mem_cons.2 ⟨⟨text, by simp [Reply.after], htext⟩, ?_⟩
        intro q hq
        obtain ⟨text', hmem, htext'⟩ := hran q hq
        exact ⟨text', List.mem_append_right _ hmem, htext'⟩

/-- **What the command writes about one program is its outcome** and a line break. -/
theorem tells_of_sequenceFor_singleton {n : Nat} {o : Options} (hjson : o.json = true)
    (hdebug : o.debug = false) {p : Program} {reply : Reply}
    (h : sequenceFor n o false [] [p] = some reply) (hfault : reply.fault = none) :
    Tells o (configure o p) (textOf reply.lines) := by
  rw [sequenceFor] at h
  split at h
  · exact nomatch h
  · obtain rfl := Option.some.inj h
    exact nomatch hfault
  · rename_i lines hrun
    obtain ⟨before, text, rfl, hnil, -, hline⟩ := tells_of_runFor hjson hrun rfl
    obtain ⟨last, hrest, rfl⟩ := Option.map_eq_some_iff.1 h
    obtain rfl := Option.some.inj hrest
    have hwritten : textOf (Reply.after (titleLines false p ++ (before ++ [text])) ⟨[], none⟩).lines =
        text ++ "\n" := by
      simp [hnil hdebug, Reply.after, titleLines, textOf]
    rw [List.nil_append, hwritten]
    exact hline

end CommandLine

open Json CommandLine in
/-- **Nothing is lost in a JSON text.**  Of each of the nine types what is written without white space
is read as the same thing, and no two things are written alike, if the numbers in them are below the
bound.  And where the command is to show outcomes in this way, a run without a failure ends what it
shows with a text that is read as its outcome, and shows nothing else unless its steps are shown.  So
the command shows such a text for each of its programs up to the first one that fails, for all of
them if none fails, and nothing else if there is one program and its steps are not shown. -/
theorem json_lossless :
    (Lossless State.toJson State.ofJson? fun _ => True) ∧
    (Lossless Direction.toJson Direction.ofJson? fun _ => True) ∧
    (Lossless Rule.toJson Rule.ofJson? fun _ => True) ∧
    (Lossless Tape.toJson Tape.ofJson? fun _ => True) ∧
    (Lossless Bounds.toJson Bounds.ofJson? fun _ => True) ∧
    (Lossless Profile.toJson Profile.ofJson? fun _ => True) ∧
    Lossless Program.toJson Program.ofJson? Program.InRange ∧
    (Lossless Halt.toJson Halt.ofJson? fun _ => True) ∧
    Lossless Outcome.toJson Outcome.ofJson? Outcome.InRange ∧
    (∀ n o p shown, o.json = true → runFor n o p = some shown → shown.error = none →
      ∃ before text, shown.lines = before ++ [text] ∧ (o.debug = false → before = []) ∧
        Tells o p text ∧ Tells o p (text ++ "\n")) ∧
    ∀ n o programs reply, o.json = true → o.list = false → chosen o = .ok programs →
      performFor n o = some reply →
      (∃ ran rest, programs = ran ++ rest ∧ StopsAt rest reply.fault ∧
        ∀ p ∈ ran, ∃ text ∈ reply.lines, Tells o (configure o p) text) ∧
      (reply.fault = none →
        (∀ p ∈ programs, ∃ text ∈ reply.lines, Tells o (configure o p) text) ∧
        ∀ p, programs = [p] → o.debug = false →
          Tells o (configure o p) reply.exit.output) := by
  refine ⟨lossless_of_inverse State.isWellSpelled_toJson fun s _ => s.ofJson?_toJson,
    lossless_of_inverse Direction.isWellSpelled_toJson fun d _ => d.ofJson?_toJson,
    lossless_of_inverse Rule.isWellSpelled_toJson fun r _ => r.ofJson?_toJson,
    lossless_of_inverse Tape.isWellSpelled_toJson fun t _ => t.ofJson?_toJson,
    lossless_of_inverse Bounds.isWellSpelled_toJson fun b _ => b.ofJson?_toJson,
    lossless_of_inverse Profile.isWellSpelled_toJson fun p _ => p.ofJson?_toJson,
    lossless_of_inverse Program.isWellSpelled_toJson fun p h => p.ofJson?_toJson h.1 h.2,
    lossless_of_inverse Halt.isWellSpelled_toJson fun h _ => h.ofJson?_toJson,
    lossless_of_inverse Outcome.isWellSpelled_toJson fun o h => o.ofJson?_toJson h,
    fun n o p shown hjson hrun herror => tells_of_runFor hjson hrun herror, ?_⟩
  intro n o programs reply hjson hlist hchosen hperform
  have hshown : sequenceFor n o (decide (1 < programs.length)) [] programs = some reply := by
    simpa [performFor, hlist, hchosen] using hperform
  have htells := tells_of_sequenceFor hjson hshown
  refine ⟨htells, fun hfault => ⟨?_, ?_⟩⟩
  · obtain ⟨ran, rest, rfl, hstops, hran⟩ := htells
    rw [hfault] at hstops
    cases hstops with
    | finished => simpa using hran
  · rintro p rfl hdebug
    have houtput : reply.exit.output = textOf reply.lines := by rw [Reply.exit, hfault]
    rw [houtput]
    exact tells_of_sequenceFor_singleton hjson hdebug hshown hfault

/-- A bounded program with names and symbols that have to be escaped, with the largest head position
and the largest cap. -/
def Program.awkward : Program where
  name := "\"\\\x00\n😀"
  profile := .bounded ⟨["\t\x1f", ""], ['"', '\\', '\x00', '😀'], "\t\x1f", "", "é"⟩
  rules := [⟨⟨"\t\x1f", true, false⟩, '\x00', ⟨"", false, true⟩, '"', .left⟩]
  tape := ⟨['\\', '😀']⟩
  head := 18446744073709551615
  blank := '\x7f'
  maxSteps := some 18446744073709551615

open Json CommandLine in
/-- The awkward program is read as it is written, and written in another way without its cap; and what
the command writes about an odd number of ones is read as the rejection. -/
theorem json_lossless_at_the_bound :
    (parse? Program.awkward.toJson.compact).bind Program.ofJson? = some Program.awkward ∧
    { Program.awkward with maxSteps := none }.toJson.compact ≠ Program.awkward.toJson.compact ∧
    ∃ reply, performFor 2 ⟨some "even-ones", some "1", none, false, true, false⟩ = some reply ∧
      (parse? reply.exit.output).bind Outcome.ofJson? = some ⟨.reject, "reject", "1", 1⟩ := by
  obtain ⟨-, -, -, -, -, -, hprogram, -, -, -, hcommand⟩ := json_lossless
  have hrange : Program.awkward.InRange := by
    refine ⟨by decide, ?_⟩
    rintro limit ⟨⟩
    decide
  have huncapped : Program.InRange { Program.awkward with maxSteps := none } := ⟨hrange.1, nofun⟩
  refine ⟨hprogram.reads _ hrange, ?_, _, rfl, ?_⟩
  · intro hsame
    exact nomatch congrArg Program.maxSteps (hprogram.injective _ _ huncapped hrange hsame)
  · obtain ⟨m, k, outcome, f, hmade, hk, hends, hread⟩ :=
      ((hcommand 2 ⟨some "even-ones", some "1", none, false, true, false⟩ [Catalogue.evenOnes] _ rfl
        rfl rfl rfl).2 rfl).2 _ rfl rfl
    obtain rfl := hk rfl
    obtain rfl := Except.ok.inj hmade
    obtain ⟨hresult, -⟩ := hends.unique ⟨2, rfl⟩
    obtain rfl := Except.ok.inj hresult
    have hsteps : 1 < Text.countBound := by decide
    exact hread hsteps

end TapeMachine
