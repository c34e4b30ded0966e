/-
**The last write wins.**

A tape is called to read a cell, to write into one and to grow by one, in any order.  What a cell
holds after that is a matter of the history: of the writes into the cell that were successful the
latest one counts, and if there was none, the cell holds what it began with, be it that it was there
at first or that the tape has grown by it.  A write that came too early, before the tape had the
cell, counts for nothing.

Main definitions:

* `TapeMachine.Tape.Access`, `TapeMachine.Tape.access` — the calls, with their answers and the tapes
  that they leave;
* `TapeMachine.Tape.after` — the tape after a row of calls;
* `TapeMachine.Tape.WritesAt`, `TapeMachine.Tape.AppendsAt` — what a call of the row did to a cell;
* `TapeMachine.Tape.WrittenLast`, `TapeMachine.Tape.Original` — the two sources of a symbol.

Main results:

* `TapeMachine.Tape.length_after` — only growing changes the length;
* `TapeMachine.Tape.get?_after_eq_some_iff` — **a cell holds what was last written into it**, or
  else what it began with;
* `TapeMachine.Tape.last_write_wins` — the same for the answers to calls, with the errors.
-/

import Mathlib.Algebra.Group.Nat.Defs
import Mathlib.Data.List.Induction
import TapeMachine.Tape

set_option relaxedAutoImplicit false
set_option autoImplicit false

namespace TapeMachine

namespace Tape

/-! ### Calls -/

/-- A call on a tape. -/
inductive Access where
  /-- To read cell `i`. -/
  | read (i : Nat)
  /-- To write `c` into cell `i`. -/
  | write (i : Nat) (c : Char)
  /-- To put a cell with `c` on the right. -/
  | extend (c : Char)
  deriving DecidableEq, Repr

/-- Whether a call is to grow. -/
def Access.grows : Access → Bool
  | read _ | write _ _ => false
  | extend _ => true

/-- The answer to a call, which is a symbol if a cell is read, and the tape that the call leaves. -/
def access (t : Tape) : Access → Except Error (Option Char) × Tape
  | .read i => ((t.read i).map some, t)
  | .write i c =>
      match t.write i c with
      | .ok t' => (.ok none, t')
      | .error e => (.error e, t)
  | .extend c => (.ok none, t.extendRight c)

/-- The call is successful. -/
def Succeeds (t : Tape) (a : Access) : Prop := ∃ answer, (t.access a).1 = .ok answer

/-- The tape after a row of calls. -/
def after (t : Tape) (calls : List Access) : Tape := calls.foldl (fun u a => (u.access a).2) t

variable {t : Tape} {calls : List Access} {a : Access} {i k : Nat} {c d : Char}

@[simp] theorem after_nil (t : Tape) : t.after [] = t := rfl

theorem after_concat (t : Tape) (calls : List Access) (a : Access) :
    t.after (calls ++ [a]) = ((t.after calls).access a).2 := by
  rw [after, List.foldl_append]
  rfl

theorem read_of_lt (h : i < t.length) : ∃ c, t.read i = .ok c := by
  obtain ⟨c, hc⟩ := exists_get?_of_lt h
  exact ⟨c, read_eq_ok_iff.2 hc⟩

/-- A cell can be read exactly if it is there. -/
theorem succeeds_read_iff : t.Succeeds (.read i) ↔ i < t.length := by
  constructor
  · rintro ⟨answer, hanswer⟩
    by_contra hle
    rw [access, read_of_le (Nat.le_of_not_lt hle)] at hanswer
    exact nomatch hanswer
  · intro h
    obtain ⟨c, hc⟩ := read_of_lt h
    exact ⟨some c, by rw [access, hc]; rfl⟩

/-- A cell can be written into exactly if it is there. -/
theorem succeeds_write_iff : t.Succeeds (.write i c) ↔ i < t.length := by
  constructor
  · rintro ⟨answer, hanswer⟩
    by_contra hle
    simp only [access, write_of_le _ (Nat.le_of_not_lt hle)] at hanswer
    exact nomatch hanswer
  · intro h
    exact ⟨none, by simp only [access, write_of_lt _ h]⟩

/-- The answer to a read is the symbol in the cell. -/
theorem access_read_eq_ok_iff {answer : Option Char} :
    (t.access (.read i)).1 = .ok answer ↔ ∃ c, answer = some c ∧ t.get? i = some c := by
  rw [access, read]
  cases t.get? i with
  | none => simp [Except.map]
  | some c => simp [Except.map, eq_comm]

/-- A call that fails leaves the tape as it was. -/
theorem access_of_error {e : Error} (h : (t.access a).1 = .error e) : (t.access a).2 = t := by
  cases a with
  | read i => rfl
  | extend c => exact nomatch h
  | write i c =>
      by_cases hlt : i < t.length
      · simp only [access, write_of_lt _ hlt] at h
        exact nomatch h
      · simp only [access, write_of_le _ (Nat.le_of_not_lt hlt)]

/-! ### What one call does -/

@[simp] theorem access_read_snd : (t.access (.read i)).2 = t := rfl

@[simp] theorem access_extend_snd : (t.access (.extend c)).2 = t.extendRight c := rfl

/-- A write changes its cell if there is one. -/
@[simp] theorem access_write_snd : (t.access (.write i c)).2 = t.set i c := by
  by_cases hlt : i < t.length
  · simp only [access, write_of_lt _ hlt]
  · simp only [access, write_of_le _ (Nat.le_of_not_lt hlt)]
    rw [set, List.set_eq_of_length_le (Nat.le_of_not_lt hlt)]

theorem length_access (t : Tape) (a : Access) :
    (t.access a).2.length = t.length + if a.grows = true then 1 else 0 := by
  cases a <;> simp [Access.grows]

/-- **Only growing changes the length.** -/
theorem length_after (t : Tape) (calls : List Access) :
    (t.after calls).length = t.length + calls.countP Access.grows := by
  induction calls using List.reverseRecOn with
  | nil => rfl
  | append_singleton calls a ih =>
      rw [after_concat, length_access, ih, List.countP_append, List.countP_singleton, Nat.add_assoc]

/-! ### What the calls of a row did to a cell -/

/-- Call `k` of the row was to write `c` into cell `i`, and it was successful. -/
def WritesAt (t : Tape) (calls : List Access) (k i : Nat) (c : Char) : Prop :=
  calls[k]? = some (.write i c) ∧ (t.after (calls.take k)).Succeeds (.write i c)

/-- With call `k` of the row the tape has grown by cell `i`, which held `c`. -/
def AppendsAt (t : Tape) (calls : List Access) (k i : Nat) (c : Char) : Prop :=
  calls[k]? = some (.extend c) ∧ (t.after (calls.take k)).length = i

/-- The latest successful write into cell `i` was of `c`. -/
def WrittenLast (t : Tape) (calls : List Access) (i : Nat) (c : Char) : Prop :=
  ∃ k, t.WritesAt calls k i c ∧ ∀ l > k, ∀ d, ¬ t.WritesAt calls l i d

/-- Cell `i` began with `c`, be it at first or when the tape has grown by it. -/
def Original (t : Tape) (calls : List Access) (i : Nat) (c : Char) : Prop :=
  t.get? i = some c ∨ ∃ k, t.AppendsAt calls k i c

/-- The calls of a longer row are those of the row and the last one. -/
theorem getElem?_concat_eq_some_iff {b : Access} :
    (calls ++ [a])[k]? = some b ↔ calls[k]? = some b ∨ (k = calls.length ∧ a = b) := by
  rcases Nat.lt_trichotomy k calls.length with hlt | heq | hgt
  · rw [List.getElem?_append_left hlt]
    simp [Nat.ne_of_lt hlt]
  · subst heq
    simp
  · rw [List.getElem?_append_right (Nat.le_of_lt hgt), List.getElem?_eq_none (Nat.le_of_lt hgt),
      List.getElem?_eq_none (by rw [List.length_singleton]; omega)]
    simp [Nat.ne_of_gt hgt]

theorem take_concat_of_getElem? {b : Access} (h : calls[k]? = some b) :
    (calls ++ [a]).take k = calls.take k := by
  obtain ⟨hlt, -⟩ := List.getElem?_eq_some_iff.1 h
  exact List.take_append_of_le_length (Nat.le_of_lt hlt)

theorem writesAt_concat_iff :
    t.WritesAt (calls ++ [a]) k i c ↔
      t.WritesAt calls k i c ∨
        (k = calls.length ∧ a = .write i c ∧ i < (t.after calls).length) := by
  simp only [WritesAt, getElem?_concat_eq_some_iff, or_and_right]
  refine or_congr (and_congr_right fun h => by rw [take_concat_of_getElem? h]) ?_
  rw [and_assoc]
  refine and_congr_right ?_
  rintro rfl
  rw [List.take_left, succeeds_write_iff]

theorem appendsAt_concat_iff :
    t.AppendsAt (calls ++ [a]) k i c ↔
      t.AppendsAt calls k i c ∨
        (k = calls.length ∧ a = .extend c ∧ (t.after calls).length = i) := by
  simp only [AppendsAt, getElem?_concat_eq_some_iff, or_and_right]
  refine or_congr (and_congr_right fun h => by rw [take_concat_of_getElem? h]) ?_
  rw [and_assoc]
  refine and_congr_right ?_
  rintro rfl
  rw [List.take_left]

/-- A cell that was there stays there. -/
theorem length_after_take_le (t : Tape) (calls : List Access) (k : Nat) :
    (t.after (calls.take k)).length ≤ (t.after calls).length := by
  rw [length_after, length_after]
  exact Nat.add_le_add_left ((List.take_sublist k calls).countP_le) _

theorem WritesAt.lt_length (h : t.WritesAt calls k i c) :
    k < calls.length ∧ i < (t.after calls).length := by
  obtain ⟨hcall, hsucceeds⟩ := h
  exact ⟨(List.getElem?_eq_some_iff.1 hcall).1,
    Nat.lt_of_lt_of_le (succeeds_write_iff.1 hsucceeds) (length_after_take_le t calls k)⟩

theorem Original.lt_length (h : t.Original calls i c) : i < (t.after calls).length := by
  rcases h with hfirst | ⟨k, hcall, rfl⟩
  · have hlt : i < t.length := by
      by_contra hle
      rw [get?_eq_none_iff.2 (Nat.le_of_not_lt hle)] at hfirst
      exact nomatch hfirst
    rw [length_after]
    omega
  · -- the tape is longer with the call than before it
    have hnext := length_after_take_le t calls (k + 1)
    rw [List.take_add_one, hcall, Option.toList_some, after_concat, access_extend_snd,
      length_extendRight] at hnext
    omega

/-! ### The two sources of a symbol -/

/-- A call that does not write into the cell, or comes too early, leaves the latest write. -/
theorem writtenLast_concat_of_not (h : ∀ d, a = .write i d → (t.after calls).length ≤ i) :
    t.WrittenLast (calls ++ [a]) i c ↔ t.WrittenLast calls i c := by
  have hsame (k : Nat) (d : Char) : t.WritesAt (calls ++ [a]) k i d ↔ t.WritesAt calls k i d := by
    rw [writesAt_concat_iff, or_iff_left]
    rintro ⟨-, ha, hlt⟩
    exact absurd hlt (Nat.not_lt.2 (h d ha))
  simp only [WrittenLast, hsame]

/-- A write into a cell that is there is the latest one. -/
theorem writtenLast_concat_write (h : i < (t.after calls).length) :
    t.WrittenLast (calls ++ [.write i d]) i c ↔ c = d := by
  constructor
  · rintro ⟨k, hk, hlast⟩
    have hd : t.WritesAt (calls ++ [.write i d]) calls.length i d :=
      writesAt_concat_iff.2 (Or.inr ⟨rfl, rfl, h⟩)
    rcases writesAt_concat_iff.1 hk with hearlier | ⟨-, hwrite, -⟩
    · exact absurd hd (hlast _ hearlier.lt_length.1 d)
    · exact (Access.write.inj hwrite).2.symm
  · rintro rfl
    refine ⟨calls.length, writesAt_concat_iff.2 (Or.inr ⟨rfl, rfl, h⟩), ?_⟩
    intro l hl d hd
    have hlt := hd.lt_length.1
    rw [List.length_append, List.length_singleton] at hlt
    omega

theorem original_concat_of_not (h : ∀ d, a = .extend d → (t.after calls).length ≠ i) :
    t.Original (calls ++ [a]) i c ↔ t.Original calls i c := by
  have hsame (k : Nat) : t.AppendsAt (calls ++ [a]) k i c ↔ t.AppendsAt calls k i c := by
    rw [appendsAt_concat_iff, or_iff_left]
    rintro ⟨-, ha, hend⟩
    exact h c ha hend
  simp only [Original, hsame]

/-- The cell by which the tape has just grown began with the symbol of the call. -/
theorem original_concat_extend :
    t.Original (calls ++ [.extend d]) (t.after calls).length c ↔ c = d := by
  have hnot : ¬ t.Original calls (t.after calls).length c :=
    fun h => Nat.lt_irrefl _ h.lt_length
  rw [Original, not_or] at hnot
  simp only [Original, appendsAt_concat_iff, exists_or, hnot.1, hnot.2, false_or]
  constructor
  · rintro ⟨-, -, hd, -⟩
    exact (Access.extend.inj hd).symm
  · rintro rfl
    exact ⟨_, rfl, rfl, trivial⟩

/-- No write into the cell was successful exactly if there is no latest one. -/
theorem forall_not_writesAt_iff :
    (∀ k d, ¬ t.WritesAt calls k i d) ↔ ∀ d, ¬ t.WrittenLast calls i d := by
  constructor
  · rintro h d ⟨k, hk, -⟩
    exact h k d hk
  · intro h
    induction calls using List.reverseRecOn with
    | nil => exact fun k d hk => nomatch hk.1
    | append_singleton calls a ih =>
        by_cases hwrite : ∃ d, a = .write i d ∧ i < (t.after calls).length
        · obtain ⟨d, rfl, hlt⟩ := hwrite
          exact absurd ((writtenLast_concat_write hlt).2 rfl) (h d)
        · have hnot : ∀ d, a = .write i d → (t.after calls).length ≤ i :=
            fun d hd => Nat.le_of_not_lt fun hlt => hwrite ⟨d, hd, hlt⟩
          simp only [writtenLast_concat_of_not hnot] at h
          intro k d hk
          rcases writesAt_concat_iff.1 hk with hearlier | ⟨-, hd, hlt⟩
          · exact ih h k d hearlier
          · exact hwrite ⟨d, hd, hlt⟩

/-- **A cell holds what was last written into it, or else what it began with.**  The induction is on
the last call. -/
theorem get?_after_eq_some_iff :
    (t.after calls).get? i = some c ↔
      t.WrittenLast calls i c ∨ ((∀ d, ¬ t.WrittenLast calls i d) ∧ t.Original calls i c) := by
  induction calls using List.reverseRecOn generalizing c with
  | nil =>
      have hnone (d : Char) : ¬ t.WrittenLast [] i d := fun ⟨k, hk, _⟩ => nomatch hk.1
      have happends : ¬ ∃ k, t.AppendsAt [] k i c := fun ⟨k, hk, _⟩ => nomatch hk
      simp only [after_nil, hnone, Original, happends, not_false_eq_true, implies_true, true_and,
        false_or, or_false]
  | append_singleton calls a ih =>
      rw [after_concat]
      cases a with
      | read j =>
          have hwritten (d : Char) :
              t.WrittenLast (calls ++ [.read j]) i d ↔ t.WrittenLast calls i d :=
            writtenLast_concat_of_not fun _ h => nomatch h
          have horiginal : t.Original (calls ++ [.read j]) i c ↔ t.Original calls i c :=
            original_concat_of_not fun _ h => nomatch h
          simp only [access_read_snd, hwritten, horiginal, ih]
      | write j d =>
          have horiginal : t.Original (calls ++ [.write j d]) i c ↔ t.Original calls i c :=
            original_concat_of_not fun _ h => nomatch h
          rw [access_write_snd, get?_set, horiginal]
          split
          · rename_i hwrite
            obtain ⟨rfl, hlt⟩ := hwrite
            simp only [writtenLast_concat_write hlt]
            simp [eq_comm]
          · rename_i hnot
            have hlate : ∀ e, Access.write j d = .write i e → (t.after calls).length ≤ i := by
              intro e he
              exact Nat.le_of_not_lt fun hlt => hnot ⟨(Access.write.inj he).1, hlt⟩
            simp only [writtenLast_concat_of_not hlate, ih]
      | extend d =>
          have hwritten (e : Char) :
              t.WrittenLast (calls ++ [.extend d]) i e ↔ t.WrittenLast calls i e :=
            writtenLast_concat_of_not fun _ h => nomatch h
          simp only [access_extend_snd, get?_extendRight, hwritten]
          split
          · rename_i hend
            subst hend
            -- a cell that has not been there has not been written into
            have hnone (e : Char) : ¬ t.WrittenLast calls (t.after calls).length e :=
              fun ⟨k, hk, _⟩ => Nat.lt_irrefl _ hk.lt_length.2
            simp only [hnone, original_concat_extend, not_false_eq_true, implies_true, true_and,
              false_or, Option.some.injEq, eq_comm]
          · rename_i hnot
            have horiginal : t.Original (calls ++ [.extend d]) i c ↔ t.Original calls i c :=
              original_concat_of_not fun _ _ hend => hnot hend.symm
            rw [ih, horiginal]

/-! ### The answers -/

/-- A cell that is not there is reported with its position as a signed number of sixty-four bits. -/
theorem outOfRange_eq (t : Tape) (i : Nat) :
    t.outOfRange i = .indexOutOfRange (BitVec.ofNat 64 i).toInt t.length := by
  rw [BitVec.toInt_ofNat']
  rfl

/-- A position below half of the bound is reported as it is. -/
theorem toInt_ofNat_of_lt (h : i < 2 ^ 63) : (BitVec.ofNat 64 i).toInt = i := by
  rw [BitVec.toInt_ofNat']
  exact Int.bmod_eq_of_le (by omega) (by omega)

/-- **The last write wins.**  After any row of calls the tape has its cells from the beginning and
those that it has grown by, and exactly these can be read and written into.  A read that is
successful answers with the symbol of the latest successful write into the cell, or if there was
none, with the symbol that the cell began with.  A call that fails changes nothing; and a read and a
write fail with the same error at a cell that is not there, which tells the length and the position.
-/
theorem last_write_wins (t : Tape) (calls : List Access) :
    (t.after calls).length = t.length + calls.countP Access.grows ∧
    (∀ i, ((t.after calls).Succeeds (.read i) ↔ i < (t.after calls).length) ∧
      ∀ c, (t.after calls).Succeeds (.write i c) ↔ i < (t.after calls).length) ∧
    (∀ i answer, ((t.after calls).access (.read i)).1 = .ok answer ↔
      ∃ c, answer = some c ∧
        (t.WrittenLast calls i c ∨ ((∀ k d, ¬ t.WritesAt calls k i d) ∧ t.Original calls i c))) ∧
    (∀ a e, ((t.after calls).access a).1 = .error e →
      ((t.after calls).access a).2 = t.after calls) ∧
    ∀ i c, (t.after calls).length ≤ i →
      ∃ index : Int, ((t.after calls).access (.read i)).1 =
          .error (.indexOutOfRange index (t.after calls).length) ∧
        ((t.after calls).access (.write i c)).1 =
          .error (.indexOutOfRange index (t.after calls).length) ∧
        index = (BitVec.ofNat 64 i).toInt ∧ (i < 2 ^ 63 → index = i) := by
  refine ⟨length_after t calls, fun i => ⟨succeeds_read_iff, fun c => succeeds_write_iff⟩, ?_,
    fun a e h => access_of_error h, ?_⟩
  · intro i answer
    simp only [access_read_eq_ok_iff, get?_after_eq_some_iff, forall_not_writesAt_iff]
  · intro i c hle
    refine ⟨_, ?_, ?_, rfl, toInt_ofNat_of_lt⟩
    · simp only [access, read_of_le hle, outOfRange_eq, Except.map]
    · simp only [access, write_of_le _ hle, outOfRange_eq]

/-- A write that comes before its cell does not count, one that comes after it does, and the largest
position is reported as minus one. -/
theorem last_write_wins_after_growing :
    (((ofString "ab").after [.write 2 'x', .extend 'c']).access (.read 2)).1 = .ok (some 'c') ∧
    (((ofString "ab").after [.write 2 'x', .extend 'c', .write 2 'd', .write 2 'e', .read 7]).access
      (.read 2)).1 = .ok (some 'e') ∧
    ((ofString "ab").after [.write 2 'x']).length ≤ 18446744073709551615 ∧
    (((ofString "ab").after [.write 2 'x']).access (.write 18446744073709551615 'y')).1 =
      .error (.indexOutOfRange (-1) 2) := by
  have hlength : ((ofString "ab").after [.write 2 'x']).length = 2 := rfl
  obtain ⟨-, -, hearly, -, -⟩ := last_write_wins (ofString "ab") [.write 2 'x', .extend 'c']
  obtain ⟨-, -, hlate, -, -⟩ := last_write_wins (ofString "ab")
    [.write 2 'x', .extend 'c', .write 2 'd', .write 2 'e', .read 7]
  obtain ⟨-, -, -, -, herrors⟩ := last_write_wins (ofString "ab") [.write 2 'x']
  refine ⟨?_, ?_, by omega, ?_⟩
  · refine (hearly 2 _).2 ⟨'c', rfl, Or.inr ⟨?_, Or.inr ⟨1, rfl, rfl⟩⟩⟩
    rintro (_ | _ | k) d ⟨hcall, hsucceeds⟩
    · exact absurd (succeeds_write_iff.1 hsucceeds) (by decide)
    · exact nomatch hcall
    · exact nomatch hcall
  · refine (hlate 2 _).2 ⟨'e', rfl, Or.inl ⟨3, ⟨rfl, ⟨_, rfl⟩⟩, ?_⟩⟩
    rintro (_ | _ | _ | _ | _ | k) hk d ⟨hcall, -⟩
    any_goals omega
    · exact nomatch hcall
    · exact nomatch hcall
  · obtain ⟨index, -, hwrite, rfl, -⟩ := herrors 18446744073709551615 'y' (by omega)
    exact hwrite

end Tape

end TapeMachine
