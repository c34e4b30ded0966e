/-
**Several rules for one state and symbol.**

A state and a symbol are a *place* of the rule table.  The check of a program goes through the rules,
collects an entry for each that comes after another one for its place, and merges equal neighbours in
what it has collected.  So a failure for want of a single rule names every place that has two rules or
more, and nothing else (`TapeMachine.Program.mem_repeatedEntries_iff`).

It may name a place several times, since only neighbours are merged.  Of the rules for a place those
after the first are collected, and as long as no collected rule of another place comes between two of
them they end up in one entry.  When that happens is said here of the rows of the table: a place is
*interrupted* at a row that repeats another place if two rules for the place come before that row and
one comes after it (`TapeMachine.Program.Interrupted`).  These are the only places that are named more
than once.

Main definitions:

* `TapeMachine.Rule.place`, `TapeMachine.Program.places` — the place of a rule, and the places of all
  rules in their order;
* `TapeMachine.entryOf` — how a message names a place;
* `TapeMachine.Distinct.again` — the items of a list that come after an equal one;
* `TapeMachine.Program.Interrupted` — a repeat of another place comes between repeats of the place.

Main results:

* `TapeMachine.Distinct.count_again`, `TapeMachine.Distinct.sandwich_again_iff` — what comes again,
  and what comes again between two repeats of something else;
* `TapeMachine.Distinct.two_le_count_collapse_iff` — when merging neighbours leaves an item twice;
* `TapeMachine.Program.meets_rules_iff_nodup` — a table without ambiguity has each place once;
* `TapeMachine.Program.ambiguous_places_named` — **the ambiguous places are named, and when only
  once**.
-/

import Mathlib.Data.List.Count
import Mathlib.Data.List.Destutter
import TapeMachine.Proofs.Requirements

set_option relaxedAutoImplicit false
set_option autoImplicit false

namespace TapeMachine

/-! ### Places of the rule table -/

/-- The state and the symbol for which a rule is there. -/
def Rule.place (r : Rule) : String × Char := (r.current.name, r.read)

/-- How a message names a place of the rule table. -/
def entryOf (place : String × Char) : String := s!"{place.1} on '{place.2}'"

/-- The places of the rules, in their order. -/
def Program.places (p : Program) : List (String × Char) := p.rules.map Rule.place

theorem Rule.entry_eq (r : Rule) : r.entry = entryOf r.place := rfl

/-- The symbol of an entry is the last but one of its characters, so nothing in the name of a state
makes two places look the same. -/
theorem entryOf_injective : Function.Injective entryOf := by
  have hlist : ∀ place : String × Char,
      (entryOf place).toList = place.1.toList ++ (" on '".toList ++ [place.2, '\'']) := by
    intro place
    simp [entryOf, toString]
  intro place place' h
  have happend := congrArg String.toList h
  rw [hlist, hlist] at happend
  obtain ⟨hname, hrest⟩ := List.append_inj' happend (by simp)
  have hsymbol := List.append_cancel_left hrest
  exact Prod.ext (String.ext hname) (List.cons.inj hsymbol).1

namespace Distinct

variable {α : Type} [DecidableEq α]

/-! ### What comes again -/

/-- The items of a list that are in `seen` or come after an equal one. -/
def again : List α → List α → List α
  | _, [] => []
  | seen, a :: rest => if a ∈ seen then a :: again (a :: seen) rest else again (a :: seen) rest

/-- What comes again depends on which items have been seen, not on their order. -/
theorem again_congr {seen seen' items : List α} (h : ∀ a, a ∈ seen ↔ a ∈ seen') :
    again seen items = again seen' items := by
  induction items generalizing seen seen' with
  | nil => rfl
  | cons a rest ih =>
      have hrest : again (a :: seen) rest = again (a :: seen') rest := by
        refine ih ?_
        intro b
        rw [List.mem_cons, List.mem_cons, h b]
      by_cases ha : a ∈ seen
      · rw [again, again, if_pos ha, if_pos ((h a).1 ha), hrest]
      · rw [again, again, if_neg ha, if_neg fun ha' => ha ((h a).2 ha'), hrest]

theorem again_append (seen items items' : List α) :
    again seen (items ++ items') = again seen items ++ again (items.reverse ++ seen) items' := by
  induction items generalizing seen with
  | nil => rfl
  | cons a rest ih =>
      have hseen : (a :: rest).reverse ++ seen = rest.reverse ++ a :: seen := by simp
      rw [List.cons_append, again, ih (a :: seen), again, hseen]
      split <;> rfl

/-- **An item comes again as often as it is there**, but for the first time if it had not been
seen. -/
theorem count_again [BEq α] [LawfulBEq α] (a : α) (seen items : List α) :
    (again seen items).count a = if a ∈ seen then items.count a else items.count a - 1 := by
  induction items generalizing seen with
  | nil => simp [again]
  | cons b rest ih =>
      by_cases hba : b = a
      · subst hba
        by_cases hb : b ∈ seen
        · simp [again, hb, ih]
        · simp [again, hb, ih]
      · have hseen : a ∈ b :: seen ↔ a ∈ seen := by simp [Ne.symm hba]
        by_cases hb : b ∈ seen
        · simp only [again, if_pos hb, List.count_cons_of_ne hba, ih, hseen]
        · simp only [again, if_neg hb, List.count_cons_of_ne hba, ih, hseen]

theorem mem_again_iff [BEq α] [LawfulBEq α] {a : α} {seen items : List α} :
    a ∈ again seen items ↔ (a ∈ seen ∧ a ∈ items) ∨ 2 ≤ items.count a := by
  rw [← List.one_le_count_iff, count_again, ← List.one_le_count_iff (l := items)]
  split
  · rename_i hseen
    simp only [hseen, true_and]
    omega
  · rename_i hseen
    simp only [hseen, false_and, false_or]
    omega

/-- What comes again can be cut where the list itself can be cut. -/
theorem exists_of_again_eq {seen items front back : List α} {b : α}
    (h : again seen items = front ++ b :: back) :
    ∃ before after, items = before ++ b :: after ∧ b ∈ before.reverse ++ seen ∧
      front = again seen before ∧ back = again (b :: (before.reverse ++ seen)) after := by
  induction items generalizing seen front with
  | nil => exact absurd h (by simp [again])
  | cons a rest ih =>
      by_cases ha : a ∈ seen
      · rw [again, if_pos ha] at h
        cases front with
        | nil =>
            obtain ⟨rfl, hback⟩ := List.cons.inj h
            exact ⟨[], rest, rfl, ha, rfl, hback.symm⟩
        | cons c front =>
            obtain ⟨rfl, hrest⟩ := List.cons.inj h
            obtain ⟨before, after, rfl, hb, hfront, hback⟩ := ih hrest
            refine ⟨a :: before, after, rfl, ?_, ?_, ?_⟩
            · simpa using hb
            · rw [again, if_pos ha, hfront]
            · simpa using hback
      · rw [again, if_neg ha] at h
        obtain ⟨before, after, rfl, hb, hfront, hback⟩ := ih h
        refine ⟨a :: before, after, rfl, ?_, ?_, ?_⟩
        · simpa using hb
        · rw [again, if_neg ha, hfront]
        · simpa using hback

/-- One item comes between two others. -/
theorem sandwich_iff {α : Type} {a b c : α} {items : List α} :
    [a, b, c].Sublist items ↔ ∃ front back, items = front ++ b :: back ∧ a ∈ front ∧ c ∈ back := by
  constructor
  · intro h
    obtain ⟨front, rest, rfl, ha, hrest⟩ := List.cons_sublist_iff.1 h
    obtain ⟨middle, back, rfl, hb, hback⟩ := List.cons_sublist_iff.1 hrest
    obtain ⟨left, right, rfl⟩ := List.append_of_mem hb
    refine ⟨front ++ left, right ++ back, by simp, List.mem_append_left _ ha, ?_⟩
    exact List.mem_append_right _ (List.singleton_sublist.1 hback)
  · rintro ⟨front, back, rfl, ha, hc⟩
    have hback : [b, c].Sublist (b :: back) := (List.singleton_sublist.2 hc).cons_cons b
    exact (List.singleton_sublist.2 ha).append hback

/-- **One item comes again between two repeats of another** exactly when it comes again at a place of
the list with two of the other before it and one after it. -/
theorem sandwich_again_iff [BEq α] [LawfulBEq α] {a b : α} {items : List α} :
    [a, b, a].Sublist (again [] items) ↔
      ∃ before after, items = before ++ b :: after ∧ b ∈ before ∧ 2 ≤ before.count a ∧
        a ∈ after := by
  rw [sandwich_iff]
  constructor
  · rintro ⟨front, back, hagain, hfront, hback⟩
    obtain ⟨before, after, hitems, hb, rfl, rfl⟩ := exists_of_again_eq hagain
    have htwice : 2 ≤ before.count a := by simpa using mem_again_iff.1 hfront
    have hafter : a ∈ after := by
      rcases mem_again_iff.1 hback with h | h
      · exact h.2
      · exact List.one_le_count_iff.1 (by omega)
    exact ⟨before, after, hitems, by simpa using hb, htwice, hafter⟩
  · rintro ⟨before, after, rfl, hb, htwice, hafter⟩
    have hbefore : a ∈ before := List.one_le_count_iff.1 (by omega)
    refine ⟨again [] before, again (b :: (before.reverse ++ [])) after, ?_, ?_, ?_⟩
    · rw [again_append, again, if_pos (by simpa using hb)]
    · exact mem_again_iff.2 (Or.inr htwice)
    · exact mem_again_iff.2 (Or.inl ⟨by simp [hbefore], hafter⟩)

/-! ### Merging neighbours -/

/-- To merge equal neighbours is to keep a longest row of unequal ones. -/
theorem collapse_eq_destutter (items : List α) : collapse items = items.destutter (· ≠ ·) := by
  fun_induction collapse items with
  | case1 => rfl
  | case2 a => rfl
  | case3 b rest ih =>
      rw [ih, List.destutter_cons', List.destutter_cons', List.destutter'_cons_neg]
      simp
  | case4 a b rest hab ih =>
      rw [ih, List.destutter_cons', List.destutter_cons', List.destutter'_cons_pos]
      exact hab

/-- **Merging neighbours leaves an item twice** exactly when another one comes between two of it. -/
theorem two_le_count_collapse_iff [BEq α] [LawfulBEq α] {a : α} {items : List α} :
    2 ≤ (collapse items).count a ↔ ∃ b, b ≠ a ∧ [a, b, a].Sublist items := by
  fun_induction collapse items with
  | case1 => simp
  | case2 c =>
      have hle := List.count_le_length (a := a) (l := [c])
      constructor
      · intro h
        simp only [List.length_singleton] at hle
        omega
      · rintro ⟨b, -, hsub⟩
        exact absurd hsub.length_le (by simp)
  | case3 b rest ih =>
      rw [ih]
      refine exists_congr ?_
      intro c
      refine and_congr_right ?_
      intro hca
      constructor
      · exact fun h => h.cons b
      · intro h
        rcases List.cons_sublist_cons'.1 h with h | ⟨rfl, h⟩
        · exact h
        · -- what follows the first `a` is not `a`, so the second `b` is not needed for it
          rcases List.cons_sublist_cons'.1 h with h | ⟨rfl, -⟩
          · exact h.cons_cons a
          · exact absurd rfl hca
  | case4 c b rest hcb ih =>
      by_cases hca : c = a
      · subst hca
        have hone : 2 ≤ (c :: collapse (b :: rest)).count c ↔ c ∈ b :: rest := by
          rw [List.count_cons_self, ← mem_collapse (c := c), ← List.one_le_count_iff]
          omega
        rw [hone]
        constructor
        · intro hmem
          have hrest : c ∈ rest := by simpa [hcb] using hmem
          exact ⟨b, Ne.symm hcb, ((List.singleton_sublist.2 hrest).cons_cons b).cons_cons c⟩
        · rintro ⟨d, -, hsub⟩
          exact (List.cons_sublist_cons.1 hsub).subset (by simp)
      · rw [List.count_cons_of_ne hca, ih]
        refine exists_congr ?_
        intro d
        have hcons : [a, d, a].Sublist (c :: b :: rest) ↔ [a, d, a].Sublist (b :: rest) := by
          rw [List.cons_sublist_cons']
          simp [Ne.symm hca]
        rw [hcons]

end Distinct

namespace Program

variable {p : Program}

/-! ### The places that are named -/

/-- **A table without ambiguity has each place once.** -/
theorem meets_rules_iff_nodup : p.Meets .rules ↔ p.places.Nodup := by
  simp only [Meets, places, List.Nodup, List.pairwise_map, Rule.place, ne_eq, Prod.mk.injEq]
  simp only [eq_comm]

theorem repeats_eq (seen : List (String × Char)) (rules : List Rule) :
    repeats seen rules = (Distinct.again seen (rules.map Rule.place)).map entryOf := by
  induction rules generalizing seen with
  | nil => rfl
  | cons r rest ih =>
      have hplace : (r.current.name, r.read) = r.place := rfl
      rw [repeats, hplace, List.map_cons, Distinct.again, ih, ih]
      by_cases hseen : r.place ∈ seen
      · have hsame : Distinct.again (r.place :: seen) (rest.map Rule.place) =
            Distinct.again seen (rest.map Rule.place) := by
          refine Distinct.again_congr ?_
          intro place
          simp only [List.mem_cons, or_iff_right_iff_imp]
          rintro rfl
          exact hseen
        rw [if_pos hseen, if_pos hseen, hsame, List.map_cons, Rule.entry_eq]
      · rw [if_neg hseen, if_neg hseen]

theorem repeatedEntries_eq (p : Program) :
    p.repeatedEntries = (Distinct.collapse (Distinct.again [] p.places)).map entryOf := by
  rw [repeatedEntries, repeats_eq, Distinct.collapse_eq_destutter, Distinct.collapse_eq_destutter,
    List.map_destutter_ne _ entryOf_injective]
  rfl

/-- A place is named exactly when it has two rules or more. -/
theorem mem_repeatedEntries_iff {entry : String} :
    entry ∈ p.repeatedEntries ↔ ∃ place, 2 ≤ p.places.count place ∧ entryOf place = entry := by
  simp only [repeatedEntries_eq, List.mem_map, Distinct.mem_collapse, Distinct.mem_again_iff,
    List.not_mem_nil, false_and, false_or]

/-- A rule that repeats another place comes after two rules for the place and before a further
one. -/
def Interrupted (p : Program) (place : String × Char) : Prop :=
  ∃ before other after, p.places = before ++ other :: after ∧ other ≠ place ∧ other ∈ before ∧
    2 ≤ before.count place ∧ place ∈ after

theorem two_le_count_repeatedEntries_iff {place : String × Char} :
    2 ≤ p.repeatedEntries.count (entryOf place) ↔ p.Interrupted place := by
  rw [repeatedEntries_eq, List.count_map_of_injective _ _ entryOf_injective,
    Distinct.two_le_count_collapse_iff]
  simp only [Distinct.sandwich_again_iff, Interrupted]
  constructor
  · rintro ⟨other, hne, before, after, hplaces, hrest⟩
    exact ⟨before, other, after, hplaces, hne, hrest⟩
  · rintro ⟨before, other, after, hplaces, hne, hrest⟩
    exact ⟨other, hne, before, after, hplaces, hrest⟩

/-- **The places with two rules or more are named, and no other.**  A place is named exactly once if
it has two rules or more and is not interrupted; and no entry stands next to an equal one. -/
theorem ambiguous_places_named {entries : List String}
    (h : p.check = .error (.invalid (.ambiguousRules entries))) :
    (∀ entry, entry ∈ entries ↔ ∃ place, 2 ≤ p.places.count place ∧ entryOf place = entry) ∧
      (∀ place, entries.count (entryOf place) = 1 ↔
        2 ≤ p.places.count place ∧ ¬ p.Interrupted place) ∧
      entries.IsChain (· ≠ ·) := by
  obtain ⟨-, r, -, -, -, -, hreports⟩ := (check_decides p).eq_error_iff.1 h
  cases hreports
  refine ⟨fun entry => mem_repeatedEntries_iff, ?_, ?_⟩
  · intro place
    have hmem : 1 ≤ p.repeatedEntries.count (entryOf place) ↔ 2 ≤ p.places.count place := by
      rw [List.one_le_count_iff, mem_repeatedEntries_iff]
      constructor
      · rintro ⟨place', htwice, hentry⟩
        rwa [← entryOf_injective hentry]
      · exact fun htwice => ⟨place, htwice, rfl⟩
    rw [← hmem, ← two_le_count_repeatedEntries_iff]
    omega
  · rw [repeatedEntries, Distinct.collapse_eq_destutter]
    exact List.isChain_destutter _ _

/-- Three rules for one place, and two for another between the second and the third of them. -/
def tangled : Program :=
  let a : Rule := ⟨State.start "a", '0', State.start "a", '1', .right⟩
  let b : Rule := ⟨State.ordinary "b", '0', State.ordinary "b", '1', .right⟩
  .unbounded [a, a, b, b, a] (Tape.ofString "0") 0

/-- **A place may be named more than once**: in the table of `tangled` the first place is. -/
theorem not_ambiguous_places_named_once :
    ¬ ∀ (p : Program) (entries : List String),
      p.check = .error (.invalid (.ambiguousRules entries)) →
      ∀ place, 2 ≤ p.places.count place → entries.count (entryOf place) = 1 := by
  intro h
  have hcheck : tangled.check =
      .error (.invalid (.ambiguousRules ["a on '0'", "b on '0'", "a on '0'"])) := rfl
  have honce := h tangled _ hcheck ("a", '0') (by decide)
  exact absurd honce (by decide)

/-- In the same table the second place is named once and is not interrupted, and the first one is. -/
theorem ambiguous_places_named_tangled :
    tangled.check = .error (.invalid (.ambiguousRules ["a on '0'", "b on '0'", "a on '0'"])) ∧
      ¬ tangled.Interrupted ("b", '0') ∧ tangled.Interrupted ("a", '0') ∧
      ["a on '0'", "b on '0'", "a on '0'"].count (entryOf ("a", '0')) ≠ 1 := by
  have hcheck : tangled.check =
      .error (.invalid (.ambiguousRules ["a on '0'", "b on '0'", "a on '0'"])) := rfl
  have hinterrupted : tangled.Interrupted ("a", '0') :=
    ⟨[("a", '0'), ("a", '0'), ("b", '0')], ("b", '0'), [("a", '0')], rfl, by decide, by decide,
      by decide, by decide⟩
  obtain ⟨-, honce, -⟩ := ambiguous_places_named hcheck
  refine ⟨hcheck, ((honce ("b", '0')).1 (by decide)).2, hinterrupted, ?_⟩
  intro hcount
  exact ((honce ("a", '0')).1 hcount).2 hinterrupted

end Program

end TapeMachine
