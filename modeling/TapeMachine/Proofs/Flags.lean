/-
**The flags of a state.**

A state is mentioned as often as rules leave or enter it, and every mention carries flags.  The
check of a program lets it pass only if the mentions of one name agree, so that a machine, which
keeps the flags of the first mention, loses nothing: it accepts in exactly those states that some
rule flags as accepting.

Main definitions:

* `TapeMachine.Program.accepts` — some mention of the name is flagged as accepting.

Main results:

* `TapeMachine.Program.mem_conflictingNames_iff` — a name is reported for its flags when two
  mentions of it differ;
* `TapeMachine.Program.checkFlags_eq_ok_iff` — the check passes when all mentions of a name agree;
* `TapeMachine.Program.mem_accepting_iff`, `TapeMachine.Program.mem_startNames_iff` — a machine
  keeps the accepting names, and the check sees all names to start in.
-/

import TapeMachine.Machine

set_option relaxedAutoImplicit false
set_option autoImplicit false

namespace TapeMachine

namespace Program

/-- Some mention of the name in the rules is flagged as accepting. -/
def accepts (p : Program) (name : String) : Bool :=
  p.mentions.any fun s => decide (s.name = name) && s.isAccepting

theorem accepts_iff {p : Program} {name : String} :
    p.accepts name = true ↔ ∃ s ∈ p.mentions, s.name = name ∧ s.isAccepting = true := by
  simp [accepts]

/-- **A name is in conflict exactly if two mentions of it differ**, whichever they are. -/
theorem mem_conflictingNames_iff {p : Program} {name : String} :
    name ∈ p.conflictingNames ↔
      ∃ s ∈ p.mentions, ∃ t ∈ p.mentions, s.name = name ∧ t.name = name ∧ s.flags ≠ t.flags := by
  rw [mem_conflictingNames_iff_first]
  constructor
  · rintro ⟨s, hs, hsname, t, hfind, hdiffer⟩
    have htname : t.name = name := by simpa using List.find?_some hfind
    exact ⟨s, hs, t, List.mem_of_find?_eq_some hfind, hsname, htname, Ne.symm hdiffer⟩
  · rintro ⟨s, hs, t, ht, hsname, htname, hdiffer⟩
    cases hfind : p.mentions.find? fun u => decide (u.name = name) with
    | none => exact absurd (decide_eq_true hsname) (List.find?_eq_none.1 hfind s hs)
    | some first =>
        -- one of two mentions that differ is unlike the first one
        by_cases hsame : first.flags = s.flags
        · exact ⟨t, ht, htname, first, rfl, fun h => hdiffer (hsame.symm.trans h)⟩
        · exact ⟨s, hs, hsname, first, rfl, hsame⟩

theorem conflictingNames_eq_nil_iff {p : Program} :
    p.conflictingNames = [] ↔
      ∀ s ∈ p.mentions, ∀ t ∈ p.mentions, t.name = s.name → t.flags = s.flags := by
  rw [List.eq_nil_iff_forall_not_mem]
  constructor
  · intro h s hs t ht hname
    refine Decidable.byContradiction fun hdiffer => ?_
    exact h s.name (mem_conflictingNames_iff.2 ⟨t, ht, s, hs, hname, rfl, hdiffer⟩)
  · intro h name hmem
    obtain ⟨s, hs, t, ht, rfl, hname, hdiffer⟩ := mem_conflictingNames_iff.1 hmem
    exact hdiffer (h s hs t ht hname).symm

/-- **The check of the flags passes exactly when all mentions of a name agree.** -/
theorem checkFlags_eq_ok_iff {p : Program} :
    p.checkFlags = .ok () ↔
      ∀ s ∈ p.mentions, ∀ t ∈ p.mentions, t.name = s.name → t.flags = s.flags := by
  rw [checkFlags, refuse_eq_ok_iff, conflictingNames_eq_nil_iff]

/-- A state that is kept is mentioned. -/
theorem mem_mentions_of_mem_states {p : Program} {s : State} (h : s ∈ p.states) :
    s ∈ p.mentions :=
  Distinct.mem_of_mem_firstBy h

/-- Of every state that is mentioned one mention is kept. -/
theorem exists_mem_states {p : Program} {s : State} (h : s ∈ p.mentions) :
    ∃ t ∈ p.states, t.name = s.name :=
  Distinct.exists_mem_firstBy h

/-- **A flag of any mention is seen among the states that are kept**, once the mentions of a name
agree. -/
theorem mem_map_filter_states_iff {p : Program} (hflags : p.checkFlags = .ok ())
    {flag : State → Bool} (hflag : ∀ s t : State, s.flags = t.flags → flag s = flag t)
    {name : String} :
    name ∈ (p.states.filter flag).map State.name ↔
      ∃ s ∈ p.mentions, s.name = name ∧ flag s = true := by
  have hagree := checkFlags_eq_ok_iff.1 hflags
  rw [List.mem_map]
  constructor
  · rintro ⟨s, hs, hname⟩
    obtain ⟨hstates, hset⟩ := List.mem_filter.1 hs
    exact ⟨s, mem_mentions_of_mem_states hstates, hname, hset⟩
  · rintro ⟨s, hs, hname, hset⟩
    obtain ⟨t, ht, htname⟩ := exists_mem_states hs
    -- the mention that was kept carries the flags of the one that has the flag set
    have hsame := hflag t s (hagree s hs t (mem_mentions_of_mem_states ht) htname)
    exact ⟨t, List.mem_filter.2 ⟨ht, hsame.trans hset⟩, htname.trans hname⟩

/-- **A machine keeps the accepting names**, once the mentions of a name agree. -/
theorem mem_accepting_iff {p : Program} (hflags : p.checkFlags = .ok ()) (start name : String) :
    name ∈ (Machine.initial p start).accepting ↔ p.accepts name = true := by
  rw [accepts_iff]
  exact mem_map_filter_states_iff hflags fun _ _ h => congrArg Prod.snd h

/-- The names to start in are those that some rule flags so, once the mentions of a name agree. -/
theorem mem_startNames_iff {p : Program} (hflags : p.checkFlags = .ok ()) {name : String} :
    name ∈ p.startNames ↔ ∃ s ∈ p.mentions, s.name = name ∧ s.isStart = true :=
  mem_map_filter_states_iff hflags fun _ _ h => congrArg Prod.fst h

/-- No name to start in is listed twice. -/
theorem nodup_startNames (p : Program) : p.startNames.Nodup :=
  List.pairwise_map.2 ((Distinct.pairwise_firstBy State.name p.mentions).filter _)

end Program

end TapeMachine
