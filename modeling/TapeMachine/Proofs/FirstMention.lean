/-
**States as they are mentioned first.**

Rule by rule a table mentions states, in each rule the current one and then the next one.  The list
of states keeps of each name the mention that comes first, with the flags that it carries there.
It is what one walk along the mentions makes, in which a mention joins those that are kept unless
one of them has its name (`TapeMachine.Program.states_eq_foldl`), and it is the only list in which
each name stands once, as it is mentioned first and in the order of first mention
(`TapeMachine.Program.listsFirstMentions_iff`).

What may be lost in this way are the flags of the later mentions.  A name is reported for
contradictory flags exactly if some mention of it is lost, so that after a check of the flags
nothing is: the states are the mentions, only without repetitions.  Then the names to start in and
the accepting ones can be read off the list of states.

Main definitions:

* `TapeMachine.Distinct.keepNew` — one step of a walk that keeps new items;
* `TapeMachine.Site`, `TapeMachine.Site.Before` — the places at which rules mention states, and
  their order;
* `TapeMachine.Program.MentionsFirst` — a state is what a site mentions, under a new name;
* `TapeMachine.Program.ListsFirstMentions` — what the list of states should be;
* `TapeMachine.Program.Flagged` — some rule flags a name.

Main results:

* `TapeMachine.Program.states_eq_foldl` — the states can be gathered mention by mention;
* `TapeMachine.Program.mem_states_iff` — a state is kept exactly if it is mentioned first;
* `TapeMachine.Program.mem_conflictingNames_iff_lost`,
  `TapeMachine.Program.checkFlags_eq_ok_iff_kept` — the check of the flags finds what was lost;
* `TapeMachine.Program.conflictingNames_eq_filter` — the names that it reports, by comparing each
  mention with every other;
* `TapeMachine.Program.states_by_first_mention` — **the states are the first mentions**, and show
  all flags if the check of the flags passes.
-/

import Mathlib.Data.List.Induction
import Mathlib.Data.List.Nodup
import Mathlib.Data.List.Sort
import TapeMachine.Proofs.Offenders

set_option relaxedAutoImplicit false
set_option autoImplicit false

namespace TapeMachine

/-! ### Keeping what is new -/

namespace Distinct

variable {α β : Type} [DecidableEq β] {key : α → β} {items : List α} {a b : α}

/-- One step of a walk that keeps new items: the item joins those that are kept, unless one of them
has its key. -/
def keepNew (key : α → β) (kept : List α) (a : α) : List α :=
  if key a ∈ kept.map key then kept else kept ++ [a]

/-- **What one more item changes**: it is kept if its key is new. -/
theorem firstBy_concat (key : α → β) (items : List α) (a : α) :
    firstBy key (items ++ [a]) = keepNew key (firstBy key items) a := by
  simp only [keepNew, mem_map_firstBy]
  induction items with
  | nil => rfl
  | cons b rest ih =>
      rw [List.cons_append, firstBy_cons, firstBy_cons, ih, List.map_cons]
      by_cases hold : key a ∈ rest.map key
      · rw [if_pos hold, if_pos (List.mem_cons_of_mem _ hold)]
      · rw [if_neg hold, List.filter_append]
        by_cases hb : key a = key b
        · rw [if_pos (hb ▸ List.mem_cons_self), List.filter_cons_of_neg (by simpa using hb),
            List.filter_nil, List.append_nil]
        · rw [if_neg (by simpa [hb] using hold), List.filter_cons_of_pos (by simpa using hb),
            List.filter_nil, List.cons_append]

/-- **One walk keeps the first item of each key.** -/
theorem firstBy_eq_foldl (key : α → β) (items : List α) :
    firstBy key items = items.foldl (keepNew key) [] := by
  -- the walk makes its last step at the right end
  induction items using List.reverseRecOn with
  | nil => rfl
  | append_singleton items a ih =>
      rw [firstBy_concat, ih, List.foldl_append]
      rfl

/-- No two of the items kept have one key. -/
theorem eq_of_mem_firstBy (ha : a ∈ firstBy key items) (hb : b ∈ firstBy key items)
    (hkey : key a = key b) : a = b :=
  List.inj_on_of_nodup_map (List.pairwise_map.2 (pairwise_firstBy key items)) ha hb hkey

/-- An item is kept exactly if a search for its key finds it. -/
theorem mem_firstBy_iff_find? :
    a ∈ firstBy key items ↔ items.find? (fun b => decide (key b = key a)) = some a := by
  rw [← find?_firstBy]
  exact ⟨find?_of_pairwise (pairwise_firstBy key items), List.mem_of_find?_eq_some⟩

end Distinct

/-! ### Where states are mentioned -/

/-- The two states of a rule. -/
inductive Side where
  /-- The state in which the rule applies. -/
  | current
  /-- The state that follows. -/
  | next
  deriving DecidableEq, Repr

/-- The state on one side of a rule. -/
def Rule.state (r : Rule) : Side → State
  | .current => r.current
  | .next => r.next

/-- A place in a rule table at which a state is mentioned. -/
structure Site where
  /-- The number of the rule; the first one is number zero. -/
  rule : Nat
  /-- The side of the rule. -/
  side : Side
  deriving DecidableEq, Repr

namespace Site

/-- The order of sites: rule by rule, and in one rule the current state before the next one. -/
def Before (a b : Site) : Prop :=
  a.rule < b.rule ∨ a.rule = b.rule ∧ a.side = .current ∧ b.side = .next

/-- The number of sites before a site. -/
def index (a : Site) : Nat :=
  match a.side with
  | .current => 2 * a.rule
  | .next => 2 * a.rule + 1

theorem before_iff_index_lt {a b : Site} : a.Before b ↔ a.index < b.index := by
  obtain ⟨i, side⟩ := a
  obtain ⟨j, side'⟩ := b
  cases side <;> cases side' <;> simp [Before, index] <;> omega

theorem exists_index_eq (k : Nat) : ∃ a : Site, a.index = k := by
  rcases Nat.mod_two_eq_zero_or_one k with h | h
  · exact ⟨⟨k / 2, .current⟩, by simp only [index]; omega⟩
  · exact ⟨⟨k / 2, .next⟩, by simp only [index]; omega⟩

end Site

namespace Program

variable {p : Program} {s t : State} {a b : Site}

/-- What the program mentions at a site. -/
def mentionAt (p : Program) (a : Site) : Option State :=
  p.rules[a.rule]?.map fun r => r.state a.side

/-- **The mentions come in the order of their sites.** -/
theorem getElem?_mentions (p : Program) (a : Site) : p.mentions[a.index]? = p.mentionAt a := by
  obtain ⟨i, side⟩ := a
  rw [mentions, mentionAt]
  induction p.rules generalizing i with
  | nil => simp
  | cons r rest ih =>
      rw [List.flatMap_cons, Rule.states, List.cons_append, List.cons_append, List.nil_append]
      cases i with
      | zero => cases side <;> rfl
      | succ i =>
          -- the first rule has two sites, and the others are that much later
          have hindex : Site.index ⟨i + 1, side⟩ = Site.index ⟨i, side⟩ + 2 := by
            cases side <;> simp only [Site.index] <;> omega
          rw [hindex, List.getElem?_cons_succ, List.getElem?_cons_succ]
          exact ih i

/-- The mentions are the states on the sides of the rules. -/
theorem mem_mentions_iff_state : s ∈ p.mentions ↔ ∃ r ∈ p.rules, ∃ side, r.state side = s := by
  rw [mem_mentions]
  refine exists_congr fun r => and_congr_right fun _ => ?_
  constructor
  · rintro (rfl | rfl)
    · exact ⟨.current, rfl⟩
    · exact ⟨.next, rfl⟩
  · rintro ⟨side, rfl⟩
    cases side with
    | current => exact Or.inl rfl
    | next => exact Or.inr rfl

/-- The state is what the program mentions at the site, and no site before mentions its name. -/
structure MentionsFirst (p : Program) (a : Site) (s : State) : Prop where
  /-- The state is mentioned at the site. -/
  mentioned : p.mentionAt a = some s
  /-- Its name is new there. -/
  isNew : ∀ b, b.Before a → ∀ t, p.mentionAt b = some t → t.name ≠ s.name

/-- The same by the numbers of the mentions. -/
theorem mentionsFirst_iff :
    p.MentionsFirst a s ↔
      ∃ h : a.index < p.mentions.length, p.mentions[a.index] = s ∧
        ∀ (j : Nat) (hj : j < a.index), p.mentions[j].name ≠ s.name := by
  constructor
  · rintro ⟨hmentioned, hnew⟩
    rw [← getElem?_mentions, List.getElem?_eq_some_iff] at hmentioned
    obtain ⟨hlt, hs⟩ := hmentioned
    refine ⟨hlt, hs, ?_⟩
    intro j hj
    obtain ⟨b, rfl⟩ := Site.exists_index_eq j
    refine hnew b (Site.before_iff_index_lt.2 hj) _ ?_
    rw [← getElem?_mentions, List.getElem?_eq_getElem]
  · rintro ⟨hlt, hs, hnew⟩
    refine ⟨by rw [← getElem?_mentions, List.getElem?_eq_getElem hlt, hs], ?_⟩
    intro b hb t ht
    rw [← getElem?_mentions, List.getElem?_eq_some_iff] at ht
    obtain ⟨_, rfl⟩ := ht
    exact hnew b.index (Site.before_iff_index_lt.1 hb)

/-- A state is mentioned first somewhere exactly if a search for its name finds it. -/
theorem exists_mentionsFirst_iff :
    (∃ a, p.MentionsFirst a s) ↔
      p.mentions.find? (fun t => decide (t.name = s.name)) = some s := by
  simp only [mentionsFirst_iff, List.find?_eq_some_iff_getElem, decide_true, true_and,
    Bool.not_eq_true', decide_eq_false_iff_not]
  constructor
  · rintro ⟨a, h⟩
    exact ⟨a.index, h⟩
  · rintro ⟨i, h⟩
    obtain ⟨a, rfl⟩ := Site.exists_index_eq i
    exact ⟨a, h⟩

/-- Before the site where a state is mentioned first there are as many mentions as before its
name. -/
theorem MentionsFirst.firstMention_eq (h : p.MentionsFirst a s) :
    p.firstMention s.name = a.index := by
  obtain ⟨hlt, hs, hnew⟩ := mentionsFirst_iff.1 h
  rw [firstMention, List.idxOf, List.findIdx_eq (by simpa using hlt)]
  refine ⟨by simp [hs], ?_⟩
  intro j hj
  simpa using hnew j hj

/-! ### The list of states -/

/-- **The states can be gathered mention by mention.** -/
theorem states_eq_foldl (p : Program) :
    p.states = p.mentions.foldl (Distinct.keepNew State.name) [] :=
  Distinct.firstBy_eq_foldl State.name p.mentions

/-- **A state is kept exactly if it is mentioned first**, under its name and with its flags. -/
theorem mem_states_iff : s ∈ p.states ↔ ∃ a, p.MentionsFirst a s :=
  Distinct.mem_firstBy_iff_find?.trans exists_mentionsFirst_iff.symm

/-- No two states have one name. -/
theorem eq_of_mem_states (hs : s ∈ p.states) (ht : t ∈ p.states) (hname : s.name = t.name) :
    s = t :=
  Distinct.eq_of_mem_firstBy hs ht hname

/-- What a list of the states should be: each name once, as it is mentioned first, in the order of
first mention. -/
structure ListsFirstMentions (p : Program) (kept : List State) : Prop where
  /-- No name is listed twice. -/
  nodup : (kept.map State.name).Nodup
  /-- The names listed are those of the current and the next states of the rules. -/
  mem_names_iff : ∀ name, name ∈ kept.map State.name ↔
    ∃ r ∈ p.rules, r.current.name = name ∨ r.next.name = name
  /-- Each state has the flags of the first mention of its name. -/
  first : ∀ s ∈ kept, ∃ a, p.MentionsFirst a s
  /-- The states come in the order of these mentions. -/
  ordered : kept.Pairwise fun s t =>
    ∃ a b, p.MentionsFirst a s ∧ p.MentionsFirst b t ∧ a.Before b

theorem listsFirstMentions_states (p : Program) : p.ListsFirstMentions p.states where
  nodup := List.pairwise_map.2 (Distinct.pairwise_firstBy State.name p.mentions)
  mem_names_iff name := by
    rw [mem_map_name_states]
    constructor
    · rintro ⟨s, hs, rfl⟩
      obtain ⟨r, hr, rfl | rfl⟩ := mem_mentions.1 hs
      · exact ⟨r, hr, Or.inl rfl⟩
      · exact ⟨r, hr, Or.inr rfl⟩
    · rintro ⟨r, hr, rfl | rfl⟩
      · exact ⟨r.current, mem_mentions.2 ⟨r, hr, Or.inl rfl⟩, rfl⟩
      · exact ⟨r.next, mem_mentions.2 ⟨r, hr, Or.inr rfl⟩, rfl⟩
  first _ hs := mem_states_iff.1 hs
  ordered := by
    refine (Distinct.pairwise_idxOf_firstBy State.name p.mentions).imp_of_mem ?_
    intro s t hs ht hlt
    obtain ⟨a, ha⟩ := mem_states_iff.1 hs
    obtain ⟨b, hb⟩ := mem_states_iff.1 ht
    refine ⟨a, b, ha, hb, Site.before_iff_index_lt.2 ?_⟩
    rw [← ha.firstMention_eq, ← hb.firstMention_eq]
    exact hlt

namespace ListsFirstMentions

variable {kept : List State}

/-- A list of that kind has the states that are kept, and no others. -/
theorem mem_iff (h : p.ListsFirstMentions kept) : s ∈ kept ↔ s ∈ p.states := by
  constructor
  · intro hs
    exact mem_states_iff.2 (h.first s hs)
  · intro hs
    have hname : s.name ∈ kept.map State.name := by
      rw [h.mem_names_iff, ← p.listsFirstMentions_states.mem_names_iff]
      exact List.mem_map_of_mem hs
    obtain ⟨t, ht, htname⟩ := List.mem_map.1 hname
    rwa [← eq_of_mem_states (mem_states_iff.2 (h.first t ht)) hs htname]

/-- The order of such a list is that of the numbers of first mention. -/
theorem pairwise_firstMention (h : p.ListsFirstMentions kept) :
    kept.Pairwise fun s t => p.firstMention s.name < p.firstMention t.name := by
  refine h.ordered.imp ?_
  rintro s t ⟨a, b, ha, hb, hab⟩
  rw [ha.firstMention_eq, hb.firstMention_eq]
  exact Site.before_iff_index_lt.1 hab

end ListsFirstMentions

/-- **There is no other such list.** -/
theorem listsFirstMentions_iff {kept : List State} :
    p.ListsFirstMentions kept ↔ kept = p.states := by
  constructor
  · intro h
    -- two lists with the same members are equal once a strict order sorts both
    have hirrefl : Std.Irrefl fun s t : State => p.firstMention s.name < p.firstMention t.name :=
      ⟨fun _ => Nat.lt_irrefl _⟩
    have hantisymm : Std.Antisymm fun s t : State =>
        p.firstMention s.name < p.firstMention t.name :=
      ⟨fun _ _ hst hts => absurd hts (Nat.lt_asymm hst)⟩
    exact h.pairwise_firstMention.eq_of_mem_iff p.listsFirstMentions_states.pairwise_firstMention
      fun _ => h.mem_iff
  · rintro rfl
    exact p.listsFirstMentions_states

/-! ### Flags of later mentions -/

/-- **A name is reported for contradictory flags exactly if a mention of it is lost.** -/
theorem mem_conflictingNames_iff_lost {name : String} :
    name ∈ p.conflictingNames ↔ ∃ s ∈ p.mentions, s.name = name ∧ s ∉ p.states := by
  rw [mem_conflictingNames_iff]
  constructor
  · rintro ⟨s, hs, t, ht, rfl, htname, hdiffer⟩
    by_cases hkept : s ∈ p.states
    · refine ⟨t, ht, htname, ?_⟩
      intro hkept'
      exact hdiffer (congrArg State.flags (eq_of_mem_states hkept hkept' htname.symm))
    · exact ⟨s, hs, rfl, hkept⟩
  · rintro ⟨s, hs, rfl, hlost⟩
    obtain ⟨t, ht, htname⟩ := exists_mem_states hs
    refine ⟨s, hs, t, mem_mentions_of_mem_states ht, rfl, htname, ?_⟩
    intro hflags
    exact hlost (State.eq_of_name_of_flags htname hflags.symm ▸ ht)

/-- The names reported are those of the mentions unlike some other one of the same name. -/
theorem conflictingNames_eq_filter (p : Program) :
    p.conflictingNames = Distinct.ascending ((p.mentions.filter fun s =>
      p.mentions.any fun t => decide (t.name = s.name) && decide (t.flags ≠ s.flags)).map
        State.name) := by
  refine (Distinct.pairwise_ascending _).eq_of_mem_iff (Distinct.pairwise_ascending _) ?_
  intro name
  rw [← conflictingNames, mem_conflictingNames_iff]
  simp only [Distinct.mem_ascending, List.mem_map, List.mem_filter, List.any_eq_true,
    Bool.and_eq_true, decide_eq_true_eq]
  constructor
  · rintro ⟨s, hs, t, ht, rfl, hname, hdiffer⟩
    exact ⟨s, ⟨hs, t, ht, hname, Ne.symm hdiffer⟩, rfl⟩
  · rintro ⟨s, ⟨hs, t, ht, hname, hdiffer⟩, rfl⟩
    exact ⟨s, hs, t, ht, rfl, hname, Ne.symm hdiffer⟩

/-- **The check of the flags passes exactly if no mention is lost.** -/
theorem checkFlags_eq_ok_iff_kept : p.checkFlags = .ok () ↔ ∀ s, s ∈ p.states ↔ s ∈ p.mentions := by
  rw [checkFlags, refuse_eq_ok_iff, List.eq_nil_iff_forall_not_mem]
  simp only [mem_conflictingNames_iff_lost]
  constructor
  · intro h s
    refine ⟨mem_mentions_of_mem_states, fun hs => ?_⟩
    by_contra hlost
    exact h s.name ⟨s, hs, rfl, hlost⟩
  · rintro h name ⟨s, hs, -, hlost⟩
    exact hlost ((h s).2 hs)

/-- Some rule mentions the name with the flag set. -/
def Flagged (p : Program) (flag : State → Bool) (name : String) : Prop :=
  ∃ r ∈ p.rules, ∃ side, (r.state side).name = name ∧ flag (r.state side) = true

theorem flagged_iff_mentions {flag : State → Bool} {name : String} :
    p.Flagged flag name ↔ ∃ s ∈ p.mentions, s.name = name ∧ flag s = true := by
  simp only [mem_mentions_iff_state]
  constructor
  · rintro ⟨r, hr, side, hname, hset⟩
    exact ⟨_, ⟨r, hr, side, rfl⟩, hname, hset⟩
  · rintro ⟨_, ⟨r, hr, side, rfl⟩, hname, hset⟩
    exact ⟨r, hr, side, hname, hset⟩

/-- An unbounded program starts in the one name that is flagged so. -/
theorem startState_iff_flagged (hflags : p.checkFlags = .ok ()) (hp : p.profile = .unbounded)
    {start : String} :
    p.startState = .ok start ↔ ∀ name, p.Flagged State.isStart name ↔ name = start := by
  simp only [startState_of_unbounded hp, flagged_iff_mentions, ← mem_startNames_iff hflags]
  rw [← List.perm_singleton, List.perm_ext_iff_of_nodup (nodup_startNames p)
    (List.nodup_singleton start)]
  simp only [List.mem_singleton]

/-- **The states are the first mentions.**  The list of states is the one list in which each name of
a current or next state stands once, with the flags of its first mention and in the order of first
mention.  If the check of the flags passes, a name has a flag there exactly if some rule flags it
so; and then the names to start in, the start state of an unbounded program and the accepting names
of a machine are those that the rules flag. -/
theorem states_by_first_mention (p : Program) :
    (∀ kept, p.ListsFirstMentions kept ↔ kept = p.states) ∧
      (p.checkFlags = .ok () →
        (∀ (flag : State → Bool) (name : String),
          (∃ s ∈ p.states, s.name = name ∧ flag s = true) ↔ p.Flagged flag name) ∧
        (∀ name, name ∈ p.startNames ↔ p.Flagged State.isStart name) ∧
        (p.profile = .unbounded → ∀ start, p.startState = .ok start ↔
          ∀ name, p.Flagged State.isStart name ↔ name = start) ∧
        ∀ m, Machine.new p = .ok m →
          ∀ name, name ∈ m.accepting ↔ p.Flagged State.isAccepting name) := by
  refine ⟨fun kept => listsFirstMentions_iff, ?_⟩
  intro hflags
  refine ⟨?_, ?_, fun hp start => startState_iff_flagged hflags hp, ?_⟩
  · intro flag name
    simp only [checkFlags_eq_ok_iff_kept.1 hflags, flagged_iff_mentions]
  · intro name
    rw [mem_startNames_iff hflags, flagged_iff_mentions]
  · intro m hm name
    obtain ⟨-, start, -, rfl⟩ := Machine.new_eq_ok_iff.1 hm
    rw [mem_accepting_iff hflags, accepts_iff, flagged_iff_mentions]

/-- A start state and an accepting one that are mentioned twice, and a state that the rules enter
only after they have left it. -/
def crossing : Program :=
  .unbounded
    [⟨State.start "m", '0', State.accepting "z", '1', .right⟩,
      ⟨State.ordinary "b", '0', State.start "m", '0', .left⟩,
      ⟨State.accepting "z", '1', State.ordinary "b", '0', .right⟩] (Tape.ofString "0") 0

/-- The three states in the order of first mention, which is not that of the alphabet, and the names
that are flagged. -/
theorem states_by_first_mention_crossing :
    crossing.checkFlags = .ok () ∧
      crossing.ListsFirstMentions [State.start "m", State.accepting "z", State.ordinary "b"] ∧
      (∀ name, crossing.Flagged State.isStart name ↔ name = "m") ∧
      ∃ m, Machine.new crossing = .ok m ∧
        ∀ name, crossing.Flagged State.isAccepting name ↔ name = "z" := by
  have hflags : crossing.checkFlags = .ok () := rfl
  have hm : Machine.new crossing = .ok (Machine.initial crossing "m") := rfl
  obtain ⟨hlists, hseen⟩ := states_by_first_mention crossing
  obtain ⟨-, -, hstart, haccepting⟩ := hseen hflags
  refine ⟨hflags, (hlists _).2 rfl, (hstart rfl "m").1 rfl, _, hm, ?_⟩
  intro name
  rw [← haccepting _ hm name]
  exact List.mem_singleton

end Program

end TapeMachine
