/-
**Beginning anew.**

A machine that begins anew puts back its state, tape, head, count and verdict, and nothing else; so
it becomes the fresh machine only if nothing else was changed in the meantime.  Nothing was: whatever
it is told, and whatever comes of it, a machine keeps its program, the name of its first state and
the names that accept (`Machine.Performs.frame`).  A session that has begun anew is therefore two
sessions with the fresh machine, one after the other.

Main results:

* `TapeMachine.Machine.Performs.reset_eq` — after any session a machine begins anew as it was made;
* `TapeMachine.Machine.reset_restores` — **what is told to a machine before it begins anew leaves no
  trace**.
-/

import TapeMachine.Catalogue
import TapeMachine.Proofs.Session

set_option relaxedAutoImplicit false
set_option autoImplicit false

namespace TapeMachine

namespace Machine

variable {p : Program} {m₀ m f : Machine} {ops ops' : List Operation}
  {log : List (Answer × View)}

/-- **After any session a machine begins anew as it was made.** -/
theorem Performs.reset_eq (h : m₀.Performs ops log m) (hm : Machine.new p = .ok m₀) :
    m.reset = m₀ :=
  reset_eq_of_frame hm h.frame

/-- A machine told to begin anew says so and begins anew. -/
theorem performs_reset_cons_iff :
    m.Performs (.reset :: ops) log f ↔
      ∃ rest, log = (.begun, m.reset.view) :: rest ∧ m.reset.Performs ops rest f := by
  constructor
  · intro h
    cases h with
    | cons hanswer hrest =>
        cases hanswer with
        | reset => exact ⟨_, rfl, hrest⟩
  · rintro ⟨rest, rfl, hrest⟩
    exact .cons .reset hrest

/-- **What is told to a machine before it begins anew leaves no trace.**  Let a machine made for a
program be told to step, to run in any form and to begin anew, as often as one likes, whether or not
it fails on the way.  Its program, the name of its first state and the names that accept stay what
they were, and if it begins anew it is the fresh machine, in all its parts.  So a session goes on
after that as a session with the fresh machine does, and in no other way. -/
theorem reset_restores (hm : Machine.new p = .ok m₀) :
    (∀ ops log m, m₀.Performs ops log m →
      m.program = p ∧ m.start = m₀.start ∧ m.accepting = m₀.accepting ∧ m.reset = m₀) ∧
    ∀ ops ops' log f, m₀.Performs (ops ++ .reset :: ops') log f ↔
      ∃ before m later, log = before ++ (.begun, m₀.view) :: later ∧
        m₀.Performs ops before m ∧ m₀.Performs ops' later f := by
  have hprogram : m₀.program = p := by
    obtain ⟨-, start, -, rfl⟩ := new_eq_ok_iff.1 hm
    rfl
  constructor
  · intro ops log m h
    obtain ⟨hframe, hstart, haccepting⟩ := h.frame
    exact ⟨hframe.trans hprogram, hstart, haccepting, h.reset_eq hm⟩
  · intro ops ops' log f
    rw [performs_append_iff]
    constructor
    · rintro ⟨before, m, log₂, rfl, hbefore, hafter⟩
      obtain ⟨later, rfl, hlater⟩ := performs_reset_cons_iff.1 hafter
      rw [hbefore.reset_eq hm] at hlater ⊢
      exact ⟨before, m, later, rfl, hbefore, hlater⟩
    · rintro ⟨before, m, later, rfl, hbefore, hlater⟩
      refine ⟨before, m, _, rfl, hbefore, performs_reset_cons_iff.2 ⟨later, ?_, ?_⟩⟩
      · rw [hbefore.reset_eq hm]
      · rwa [hbefore.reset_eq hm]

end Machine

/-- The machine of this description walks off the left end of its tape. -/
def Description.leftward : Description :=
  ⟨"leftward", ["q", "accept", "reject"], [], [⟨"q", '_', "q", '_', .left⟩], "q", "accept", "reject",
    '_', none⟩

namespace Machine

/-- A run has forced an odd number of ones into the state that rejects, and two steps have failed off
the left end of a tape: both machines begin anew and step as if for the first time. -/
theorem reset_restores_after_failures :
    (∃ m₀ m f, Machine.new (Catalogue.evenOnes.withInput "1") = .ok m₀ ∧
      m₀.Performs [.run] [(.ran (.ok ⟨.reject, "reject", "1", 1⟩),
        ⟨"reject", ⟨['_', '1', '_']⟩, 2, 1, some .reject⟩)] m ∧
      m.halt = some .reject ∧ m.reset = m₀ ∧
      m₀.Performs [.run, .reset, .step]
        [(.ran (.ok ⟨.reject, "reject", "1", 1⟩),
            ⟨"reject", ⟨['_', '1', '_']⟩, 2, 1, some .reject⟩),
          (.begun, ⟨"even", ⟨['_', '1', '_']⟩, 1, 0, none⟩),
          (.stepped (.ok .continue), ⟨"odd", ⟨['_', '1', '_']⟩, 2, 1, none⟩)] f) ∧
    ∃ m₀ m, Machine.new (Description.leftward.build "") = .ok m₀ ∧
      m₀.Performs [.step, .step, .step]
        [(.stepped (.ok .continue), ⟨"q", ⟨['_', '_']⟩, 0, 1, none⟩),
          (.stepped (.ok .continue), ⟨"q", ⟨['_', '_']⟩, -1, 2, none⟩),
          (.stepped (.error (.indexOutOfRange (-1) 2)), ⟨"q", ⟨['_', '_']⟩, -1, 2, none⟩)] m ∧
      m.head = -1 ∧ m.reset = m₀ := by
  constructor
  · have hmade : Machine.new (Catalogue.evenOnes.withInput "1") =
        .ok (initial (Catalogue.evenOnes.withInput "1") "even") := rfl
    obtain ⟨hreset, hsessions⟩ := reset_restores hmade
    have hran : (initial (Catalogue.evenOnes.withInput "1") "even").Performs [.run] _ _ :=
      .cons (.run (n := 2) rfl) .nil
    have hstepped : (initial (Catalogue.evenOnes.withInput "1") "even").Performs [.step] _ _ :=
      .cons .step .nil
    exact ⟨_, _, _, hmade, hran, rfl, (hreset _ _ _ hran).2.2.2,
      (hsessions [.run] [.step] _ _).2 ⟨_, _, _, rfl, hran, hstepped⟩⟩
  · have hmade : Machine.new (Description.leftward.build "") =
        .ok (initial (Description.leftward.build "") "q") := rfl
    have hsteps : (initial (Description.leftward.build "") "q").Performs [.step, .step, .step] _ _ :=
      .cons .step (.cons .step (.cons .step .nil))
    exact ⟨_, _, hmade, hsteps, rfl, ((reset_restores hmade).1 _ _ _ hsteps).2.2.2⟩

end Machine

end TapeMachine
