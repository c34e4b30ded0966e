/-
**Lists without repetitions.**

Three ways to say each thing once: in the order of first appearance, in ascending order, and by
merging equal neighbours only.

Main definitions:

* `TapeMachine.Distinct.firstBy` — the items whose key appears for the first time;
* `TapeMachine.Distinct.ascending` — the values of a list in strictly ascending order;
* `TapeMachine.Distinct.collapse` — a list with each run of equal values merged into one.

Main results:

* `TapeMachine.Distinct.find?_firstBy` — looking for a key finds the same item before and after;
* `TapeMachine.Distinct.pairwise_idxOf_firstBy`, `TapeMachine.Distinct.pairwise_ascending` — the
  order of what is kept;
* `TapeMachine.Distinct.mem_ascending`, `TapeMachine.Distinct.mem_collapse` — no value is lost and
  none is added.
-/

set_option relaxedAutoImplicit false
set_option autoImplicit false

namespace TapeMachine

namespace Distinct

variable {α β : Type}

/-! ### In order of first appearance -/

/-- The items of a list whose key has not appeared before. -/
def firstBy [DecidableEq β] (key : α → β) : List α → List α
  | [] => []
  | a :: rest => a :: (firstBy key rest).filter fun b => decide (key b ≠ key a)

@[simp] theorem firstBy_nil [DecidableEq β] (key : α → β) : firstBy key [] = [] := rfl

theorem firstBy_cons [DecidableEq β] (key : α → β) (a : α) (rest : List α) :
    firstBy key (a :: rest) = a :: (firstBy key rest).filter fun b => decide (key b ≠ key a) := rfl

/-- Every item kept is an item of the list. -/
theorem mem_of_mem_firstBy [DecidableEq β] {key : α → β} {items : List α} {a : α}
    (h : a ∈ firstBy key items) : a ∈ items := by
  induction items with
  | nil => exact h
  | cons b rest ih =>
      rw [firstBy_cons, List.mem_cons] at h
      rcases h with rfl | h
      · exact List.mem_cons_self
      · exact List.mem_cons_of_mem b (ih (List.mem_filter.1 h).1)

/-- **Looking for a key finds the same item before and after.** -/
theorem find?_firstBy [DecidableEq β] (key : α → β) (items : List α) (k : β) :
    (firstBy key items).find? (fun a => decide (key a = k)) =
      items.find? fun a => decide (key a = k) := by
  induction items with
  | nil => rfl
  | cons a rest ih =>
      rw [firstBy_cons]
      by_cases hk : key a = k
      · rw [List.find?_cons_of_pos (by simpa using hk), List.find?_cons_of_pos (by simpa using hk)]
      · rw [List.find?_cons_of_neg (by simpa using hk), List.find?_cons_of_neg (by simpa using hk),
          List.find?_filter, ← ih]
        congr 1
        funext b
        by_cases hb : key b = k
        · have hne : key b ≠ key a := fun h => hk (h.symm.trans hb)
          simp [hb, Ne.symm hk]
        · simp [hb]

/-- Every key of the list is the key of an item kept. -/
theorem exists_mem_firstBy [DecidableEq β] {key : α → β} {items : List α} {a : α}
    (h : a ∈ items) : ∃ b ∈ firstBy key items, key b = key a := by
  cases hfind : (firstBy key items).find? fun b => decide (key b = key a) with
  | some b => exact ⟨b, List.mem_of_find?_eq_some hfind, by simpa using List.find?_some hfind⟩
  | none =>
      rw [find?_firstBy, List.find?_eq_none] at hfind
      exact absurd (decide_eq_true rfl) (hfind a h)

/-- The keys that are kept are the keys of the list. -/
theorem mem_map_firstBy [DecidableEq β] {key : α → β} {items : List α} {k : β} :
    k ∈ (firstBy key items).map key ↔ k ∈ items.map key := by
  simp only [List.mem_map]
  constructor
  · rintro ⟨a, ha, rfl⟩
    exact ⟨a, mem_of_mem_firstBy ha, rfl⟩
  · rintro ⟨a, ha, rfl⟩
    exact exists_mem_firstBy ha

/-- No key is kept twice. -/
theorem pairwise_firstBy [DecidableEq β] (key : α → β) (items : List α) :
    (firstBy key items).Pairwise fun a b => key a ≠ key b := by
  induction items with
  | nil => exact List.Pairwise.nil
  | cons a rest ih =>
      rw [firstBy_cons, List.pairwise_cons]
      refine ⟨?_, ih.filter _⟩
      intro b hb
      simpa using Ne.symm (of_decide_eq_true (List.mem_filter.1 hb).2)

/-- Where no key is there twice, looking for the key of an item finds the item. -/
theorem find?_of_pairwise [DecidableEq β] {key : α → β} {items : List α}
    (h : items.Pairwise fun a b => key a ≠ key b) {a : α} (ha : a ∈ items) :
    items.find? (fun b => decide (key b = key a)) = some a := by
  induction h with
  | nil => exact nomatch ha
  | cons hother _ ih =>
      rcases List.mem_cons.1 ha with rfl | ha
      · exact List.find?_cons_of_pos (by simp)
      · rw [List.find?_cons_of_neg (by simpa using hother a ha), ih ha]

/-- **The keys are kept in the order in which they appear first.** -/
theorem pairwise_idxOf_firstBy [DecidableEq β] [BEq β] [LawfulBEq β] (key : α → β)
    (items : List α) :
    (firstBy key items).Pairwise fun a b =>
      (items.map key).idxOf (key a) < (items.map key).idxOf (key b) := by
  induction items with
  | nil => exact List.Pairwise.nil
  | cons a rest ih =>
      have hother : ∀ b ∈ (firstBy key rest).filter (fun b => decide (key b ≠ key a)),
          ((a :: rest).map key).idxOf (key b) = (rest.map key).idxOf (key b) + 1 := by
        intro b hb
        have hne : key b ≠ key a := of_decide_eq_true (List.mem_filter.1 hb).2
        rw [List.map_cons, List.idxOf_cons, beq_false_of_ne (Ne.symm hne), cond_false]
      rw [firstBy_cons, List.pairwise_cons]
      constructor
      · intro b hb
        rw [hother b hb, List.map_cons, List.idxOf_cons_self]
        exact Nat.succ_pos _
      · refine (ih.filter _).imp_of_mem ?_
        intro b c hb hc hlt
        rw [hother b hb, hother c hc]
        exact Nat.succ_lt_succ hlt

/-! ### In ascending order -/

variable [DecidableEq α]

/-- The value `a` put at its place among ascending values, unless it is there already. -/
def insertOnce [LT α] [DecidableLT α] (a : α) : List α → List α
  | [] => [a]
  | b :: rest =>
      if a = b then b :: rest else if a < b then a :: b :: rest else b :: insertOnce a rest

/-- The values of a list in strictly ascending order. -/
def ascending [LT α] [DecidableLT α] (items : List α) : List α := items.foldr insertOnce []

/-- Putting a value in its place adds that value and nothing else. -/
@[simp] theorem mem_insertOnce [LT α] [DecidableLT α] {a c : α} {items : List α} :
    c ∈ insertOnce a items ↔ c = a ∨ c ∈ items := by
  induction items with
  | nil => simp [insertOnce]
  | cons b rest ih =>
      rw [insertOnce]
      split
      · rename_i hab
        simp [hab]
      · split
        · exact List.mem_cons
        · rw [List.mem_cons, ih, List.mem_cons]
          exact or_left_comm

/-- **Nothing is lost and nothing added by putting values in ascending order.** -/
@[simp] theorem mem_ascending [LT α] [DecidableLT α] {c : α} {items : List α} :
    c ∈ ascending items ↔ c ∈ items := by
  induction items with
  | nil => exact Iff.rfl
  | cons a rest ih =>
      rw [ascending, List.foldr_cons, mem_insertOnce, List.mem_cons]
      exact or_congr_right ih

theorem ascending_eq_nil_iff [LT α] [DecidableLT α] {items : List α} :
    ascending items = [] ↔ items = [] := by
  simp only [List.eq_nil_iff_forall_not_mem, mem_ascending]

section Ascending

variable [LT α] [DecidableLT α] [Trans (α := α) (· < ·) (· < ·) (· < ·)]
  [Std.Trichotomous (α := α) (· < ·)]

/-- Ascending values stay so when one is put at its place. -/
theorem pairwise_insertOnce {a : α} {items : List α} (h : items.Pairwise (· < ·)) :
    (insertOnce a items).Pairwise (· < ·) := by
  induction items with
  | nil => exact List.pairwise_singleton _ _
  | cons b rest ih =>
      obtain ⟨hb, hrest⟩ := List.pairwise_cons.1 h
      by_cases heq : a = b
      · rw [insertOnce, if_pos heq]
        exact h
      · rw [insertOnce, if_neg heq]
        split
        · rename_i hlt
          refine List.pairwise_cons.2 ⟨?_, h⟩
          intro c hc
          rcases List.mem_cons.1 hc with rfl | hc
          · exact hlt
          · exact Std.lt_trans hlt (hb c hc)
        · rename_i hnot
          have hgt : b < a := ((Std.lt_trichotomy a b).resolve_left hnot).resolve_left heq
          refine List.pairwise_cons.2 ⟨?_, ih hrest⟩
          intro c hc
          rcases mem_insertOnce.1 hc with rfl | hc
          · exact hgt
          · exact hb c hc

/-- **The values come out in strictly ascending order.** -/
theorem pairwise_ascending (items : List α) : (ascending items).Pairwise (· < ·) := by
  induction items with
  | nil => exact List.Pairwise.nil
  | cons a rest ih => exact pairwise_insertOnce ih

end Ascending

/-! ### With equal neighbours merged -/

/-- A list with each run of equal values merged into one value. -/
def collapse : List α → List α
  | [] => []
  | [a] => [a]
  | a :: b :: rest => if a = b then collapse (b :: rest) else a :: collapse (b :: rest)

/-- **Nothing is lost and nothing added by merging neighbours.** -/
@[simp] theorem mem_collapse {c : α} {items : List α} : c ∈ collapse items ↔ c ∈ items := by
  fun_induction collapse items with
  | case1 => exact Iff.rfl
  | case2 a => exact Iff.rfl
  | case3 b rest ih => simp [ih]
  | case4 a b rest hab ih => rw [List.mem_cons, ih, ← List.mem_cons]

theorem collapse_eq_nil_iff {items : List α} : collapse items = [] ↔ items = [] := by
  simp only [List.eq_nil_iff_forall_not_mem, mem_collapse]

end Distinct

end TapeMachine
