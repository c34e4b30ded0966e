/-
**What is written is read back.**

A value is written as a row of tokens with white space, and that row is read back in two stages.
The tree stage is a matter of the tokens alone (`ofTokens?_spaced`).  For the stage before it the
point is where a word or a number ends: it ends at a delimiter, and in a written value nothing
else follows one (`Scan.Settled`).

Main definitions:

* `TapeMachine.Json.isWellSpelled` — whether each number kept by its spelling is spelled as one
  that has to be;
* `TapeMachine.Json.Scan.Settled` — that a row of tokens has been read, whatever delimiter follows.

Main results:

* `TapeMachine.Json.ofTokens?_spaced` — the tokens of a value make that value;
* `TapeMachine.Json.tokens?_written` — the tokens of a written value are read from it;
* `TapeMachine.Json.isWellSpelled_record`, `TapeMachine.Json.isWellSpelled_ofList` — what is made from
  data is well spelled;
* `TapeMachine.Json.parse?_compact`, `TapeMachine.Json.parse?_indented` — **the text of a value is
  read as that value**, in either style.
-/

import TapeMachine.Json.Layout
import TapeMachine.Json.Tree

set_option relaxedAutoImplicit false
set_option autoImplicit false

namespace TapeMachine

namespace Json

/-! ### From tokens to values -/

namespace Position

theorem run_cons (p : Position) (t : Token) (ts : List Token) :
    p.run (t :: ts) = (p.step t).bind fun q => q.run ts := rfl

/-- The first item of an array is read like any value. -/
theorem run_firstItem (style : Style) (before : List Char) (depth : Nat) (j : Json)
    (outer : List Open) :
    (firstItem outer).run ((spaced style before depth j).map Prod.snd) =
      (value (.array [] :: outer)).run ((spaced style before depth j).map Prod.snd) := by
  cases j with
  | array items => cases items <;> rfl
  | object members =>
      cases members with
      | nil => rfl
      | cons m rest => rfl
  | _ => rfl

mutual

/-- The tokens of a value are read as that value. -/
theorem run_spaced (style : Style) (before : List Char) (depth : Nat) :
    ∀ (j : Json) (outer : List Open),
      (value outer).run ((spaced style before depth j).map Prod.snd) = some (after j outer)
  | .null, _ => rfl
  | .bool _, _ => rfl
  | .natural _, _ => rfl
  | .number _, _ => rfl
  | .text _, _ => rfl
  | .array [], _ => rfl
  | .array (item :: rest), outer => by
      rw [spaced, List.map_append, List.map_cons, List.cons_append, run_cons]
      change (firstItem outer).run _ = _
      rw [run_append, run_firstItem, run_spaced]
      exact run_spacedItems style depth rest item [] outer
  | .object [], _ => rfl
  | .object ((label, j) :: rest), outer => by
      rw [spaced]
      simp only [List.map_append, List.map_cons, List.cons_append]
      change (value (.object [] label :: outer)).run _ = _
      rw [run_append, run_spaced]
      exact run_spacedMembers style depth rest label j [] outer

/-- The tokens of further items complete the array. -/
theorem run_spacedItems (style : Style) (depth : Nat) :
    ∀ (rest : List Json) (j : Json) (before : List Json) (outer : List Open),
      (after j (.array before :: outer)).run ((spacedItems style depth rest).map Prod.snd) =
        some (after (.array (before.reverse ++ j :: rest)) outer)
  | [], j, before, outer => by
      simp only [spacedItems, List.map_cons, List.map_nil, run_cons]
      simp [step, continueAfter, run]
  | item :: rest, j, before, outer => by
      rw [spacedItems]
      simp only [List.map_append, List.map_cons, List.cons_append]
      change (value (.array (j :: before) :: outer)).run _ = _
      rw [run_append, run_spaced]
      refine (run_spacedItems style depth rest item (j :: before) outer).trans ?_
      simp

/-- The tokens of further members complete the object. -/
theorem run_spacedMembers (style : Style) (depth : Nat) :
    ∀ (rest : List (Option String × Json)) (label : Option String) (j : Json)
      (before : List (Option String × Json)) (outer : List Open),
      (after j (.object before label :: outer)).run
          ((spacedMembers style depth rest).map Prod.snd) =
        some (after (.object (before.reverse ++ (label, j) :: rest)) outer)
  | [], label, j, before, outer => by
      simp only [spacedMembers, List.map_cons, List.map_nil, run_cons]
      simp [step, continueAfter, run]
  | (n, k) :: rest, label, j, before, outer => by
      rw [spacedMembers]
      simp only [List.map_append, List.map_cons, List.cons_append]
      change (value (.object ((label, j) :: before) n :: outer)).run _ = _
      rw [run_append, run_spaced]
      refine (run_spacedMembers style depth rest n k ((label, j) :: before) outer).trans ?_
      simp

end

end Position

/-- **The tokens of a value make that value.** -/
theorem ofTokens?_spaced (style : Style) (before : List Char) (depth : Nat) (j : Json) :
    ofTokens? ((spaced style before depth j).map Prod.snd) = some j := by
  rw [ofTokens?, Position.run_spaced]
  rfl

/-! ### Delimiters -/

/-- The characters that cannot belong to the word or number before them. -/
def delimiters : List Char := [' ', '\t', '\n', '\r', '"', '[', ']', '{', '}', ',', ':']

theorem isLower_of_mem_delimiters {c : Char} (h : c ∈ delimiters) : c.isLower = false := by
  have hall : delimiters.all (fun d => !d.isLower) = true := by decide
  simpa using List.all_eq_true.mp hall c h

theorem isNumeralChar_of_mem_delimiters {c : Char} (h : c ∈ delimiters) :
    isNumeralChar c = false := by
  have hall : delimiters.all (fun d => !isNumeralChar d) = true := by decide
  simpa using List.all_eq_true.mp hall c h

theorem mem_delimiters_of_isBlank {c : Char} (h : isBlank c = true) : c ∈ delimiters := by
  simp only [isBlank, Bool.or_eq_true, beq_iff_eq] at h
  rcases h with ((rfl | rfl) | rfl) | rfl <;> decide

namespace Scan

theorem run_cons (s : Scan) (c : Char) (cs : List Char) :
    s.run (c :: cs) = (s.step c).bind fun s' => s'.run cs := rfl

/-- The tokens have been read, whatever delimiter follows or if nothing follows. -/
structure Settled (s : Scan) (ts : List Token) : Prop where
  /-- The tokens are read if nothing follows. -/
  close : s.close = some ts
  /-- A delimiter is read as one between tokens. -/
  step : ∀ c ∈ delimiters, s.step c = begin ts c

theorem settled_between (ts : List Token) : Settled ⟨ts, .between⟩ ts := ⟨rfl, fun _ _ => rfl⟩

theorem settled_word {ts : List Token} {letters : List Char} {t : Token}
    (h : wordToken? letters.reverse = some t) : Settled ⟨ts, .word letters⟩ (t :: ts) := by
  have hclose : close ⟨ts, .word letters⟩ = some (t :: ts) := by simp [Scan.close, h]
  refine ⟨hclose, fun c hc => ?_⟩
  simp only [Scan.step, isLower_of_mem_delimiters hc, hclose]
  rfl

theorem settled_numeral {ts : List Token} {cs : List Char} {t : Token}
    (h : numeralToken? cs.reverse = some t) : Settled ⟨ts, .numeral cs⟩ (t :: ts) := by
  have hclose : close ⟨ts, .numeral cs⟩ = some (t :: ts) := by simp [Scan.close, h]
  refine ⟨hclose, fun c hc => ?_⟩
  simp only [Scan.step, isNumeralChar_of_mem_delimiters hc, hclose]
  rfl

/-- After settled tokens a text that begins with a delimiter is read as between tokens. -/
theorem Settled.run_cons {s : Scan} {ts : List Token} (h : Settled s ts) {c : Char}
    (hc : c ∈ delimiters) (cs : List Char) :
    s.run (c :: cs) = Scan.run ⟨ts, .between⟩ (c :: cs) := by
  rw [Scan.run_cons, Scan.run_cons, h.step c hc]
  rfl

/-- White space between tokens is passed over. -/
theorem run_blank {ts : List Token} {ws : List Char} (h : ws.all isBlank = true) :
    Scan.run ⟨ts, .between⟩ ws = some ⟨ts, .between⟩ := by
  induction ws with
  | nil => rfl
  | cons c ws ih =>
      rw [List.all_cons, Bool.and_eq_true] at h
      rw [run_cons]
      simp only [Scan.step, begin, h.1]
      exact ih h.2

/-! ### The spelling of a token -/

/-- The characters of a number are collected. -/
theorem run_numeral (ts : List Token) (acc : List Char) {cs : List Char}
    (h : cs.all isNumeralChar = true) :
    Scan.run ⟨ts, .numeral acc⟩ cs = some ⟨ts, .numeral (cs.reverse ++ acc)⟩ := by
  induction cs generalizing acc with
  | nil => rfl
  | cons c cs ih =>
      rw [List.all_cons, Bool.and_eq_true] at h
      rw [run_cons]
      simp only [Scan.step, h.1]
      simpa using ih (c :: acc) h.2

/-- A number is read as its token. -/
theorem settled_run_numeral (ts : List Token) {c : Char} {cs : List Char} {t : Token}
    (hc : c = '-' ∨ c.isDigit = true) (hcs : cs.all isNumeralChar = true)
    (ht : numeralToken? (c :: cs) = some t) :
    ∃ s, Scan.run ⟨ts, .between⟩ (c :: cs) = some s ∧ Settled s (t :: ts) := by
  refine ⟨⟨ts, .numeral (cs.reverse ++ [c])⟩, ?_, settled_numeral (by simpa using ht)⟩
  have hblank : isBlank c = false := by
    rcases hc with rfl | hc
    · decide
    · simp only [Char.isDigit, Bool.and_eq_true, decide_eq_true_eq] at hc
      simp only [isBlank, Bool.or_eq_false_iff, beq_eq_false_iff_ne]
      refine ⟨⟨⟨?_, ?_⟩, ?_⟩, ?_⟩ <;> (rintro rfl; revert hc; decide)
  have hquote : c ≠ '"' := by
    rintro rfl
    rcases hc with hc | hc <;> revert hc <;> decide
  rw [run_cons]
  simp only [Scan.step, begin, hblank, hquote, if_false, if_pos hc]
  exact run_numeral ts [c] hcs

/-- A character between quotes is read as its piece. -/
theorem run_writtenChar (ts : List Token) (pieces : List Piece) (c : Char) :
    Scan.run ⟨ts, .quoted pieces⟩ (writtenChar c) =
      some ⟨ts, .quoted (writtenPiece c :: pieces)⟩ := by
  rw [writtenChar, writtenPiece]
  cases hletter : escapeLetter c with
  | some letter =>
      obtain ⟨hu, hchar⟩ := escapedChar?_of_escapeLetter hletter
      simp [Scan.run, Scan.step, hu, hchar]
  | none =>
      by_cases hlt : c.toNat < 0x20
      · have hhigh := hexValue?_digitChar (d := c.toNat / 16) (by omega)
        have hlow := hexValue?_digitChar (d := c.toNat % 16) (by omega)
        have hzero : hexValue? '0' = some 0 := rfl
        simp [Scan.run, Scan.step, hlt, hhigh, hlow, hzero]
        omega
      · have hquote : c ≠ '"' := by
          rintro rfl
          exact absurd hletter (by decide)
        have hslash : c ≠ '\\' := by
          rintro rfl
          exact absurd hletter (by decide)
        simp [Scan.run, Scan.step, hlt, hquote, hslash]

/-- The characters between quotes are read as their pieces. -/
theorem run_writtenChars (ts : List Token) (pieces : List Piece) (cs : List Char) :
    Scan.run ⟨ts, .quoted pieces⟩ (cs.flatMap writtenChar) =
      some ⟨ts, .quoted ((cs.map writtenPiece).reverse ++ pieces)⟩ := by
  induction cs generalizing pieces with
  | nil => rfl
  | cons c cs ih =>
      rw [List.flatMap_cons, run_append, run_writtenChar]
      simpa using ih (writtenPiece c :: pieces)

/-- A quoted text is read as its token. -/
theorem run_writtenText (ts : List Token) (text : Option String) :
    Scan.run ⟨ts, .between⟩ (writtenText text) = some ⟨.text text :: ts, .between⟩ := by
  cases text with
  | none => rfl
  | some s =>
      rw [writtenText, List.cons_append, run_cons]
      change Scan.run ⟨ts, .quoted []⟩ _ = _
      rw [run_append, run_writtenChars]
      simp [Scan.run, Scan.step, joined_map_writtenPiece]

end Scan

/-! ### Rows of tokens -/

namespace Token

/-- Whether the end of the token shows only in what follows it: it is a word or a number. -/
def isOpenEnded : Token → Bool
  | null | bool _ | natural _ | number _ => true
  | _ => false

/-- Whether a number kept by its spelling is spelled as one that has to be. -/
def isWellSpelled : Token → Bool
  | number spelling => isNumeral spelling.toList && !isWhole spelling.toList
  | _ => true

/-- A token with an end of its own begins with a delimiter. -/
theorem exists_delimiter {t : Token} (h : t.isOpenEnded = false) :
    ∃ c cs, t.spelling = c :: cs ∧ c ∈ delimiters := by
  cases t with
  | null => exact absurd h Bool.noConfusion
  | bool b => exact absurd h Bool.noConfusion
  | natural n => exact absurd h Bool.noConfusion
  | number spelling => exact absurd h Bool.noConfusion
  | text s => cases s <;> exact ⟨_, _, rfl, by decide⟩
  | _ => exact ⟨_, _, rfl, by decide⟩

end Token

/-- A token is read from its spelling, and one with an end of its own is read completely. -/
theorem Scan.settled_run_spelling (ts : List Token) {t : Token} (h : t.isWellSpelled = true) :
    ∃ s, Scan.run ⟨ts, .between⟩ t.spelling = some s ∧ Settled s (t :: ts) ∧
      (t.isOpenEnded = false → s = ⟨t :: ts, .between⟩) := by
  cases t with
  | null => exact ⟨_, rfl, settled_word rfl, by simp [Token.isOpenEnded]⟩
  | bool b => cases b <;> exact ⟨_, rfl, settled_word rfl, by simp [Token.isOpenEnded]⟩
  | natural n =>
      obtain ⟨c, cs, hdigits⟩ := List.exists_cons_of_ne_nil (Nat.toDigits_ne_nil (n := n) (b := 10))
      have hall := Text.all_isDigit_toDigits n
      rw [hdigits, List.all_cons, Bool.and_eq_true] at hall
      obtain ⟨s, hrun, hs⟩ := settled_run_numeral ts (Or.inr hall.1)
        (all_isNumeralChar_of_all_isDigit hall.2) (hdigits ▸ numeralToken?_toDigits n)
      exact ⟨s, by rw [Token.spelling, hdigits, hrun], hs, by simp [Token.isOpenEnded]⟩
  | number spelling =>
      rw [Token.isWellSpelled, Bool.and_eq_true, Bool.not_eq_true'] at h
      obtain ⟨hnumeral, hwhole⟩ := h
      obtain ⟨c, cs, hspelling, hc⟩ := exists_cons_of_isNumeral hnumeral
      have hall := all_isNumeralChar_of_isNumeral hnumeral
      have htoken : numeralToken? spelling.toList = some (.number spelling) := by
        rw [numeralToken?, if_neg (by simp [hwhole]), if_pos hnumeral, String.ofList_toList]
      rw [hspelling] at hall htoken
      rw [List.all_cons, Bool.and_eq_true] at hall
      obtain ⟨s, hrun, hs⟩ := settled_run_numeral ts hc hall.2 htoken
      exact ⟨s, by rw [Token.spelling, hspelling, hrun], hs, by simp [Token.isOpenEnded]⟩
  | text s => exact ⟨_, run_writtenText ts s, settled_between _, fun _ => rfl⟩
  | _ => exact ⟨_, rfl, settled_between _, fun _ => rfl⟩

/-- Whether the white space before each token is blank, and there is some between a token whose
end shows only in what follows and another such token.  The flag says whether such a token comes
before the row. -/
def isSeparated : Bool → List SpacedToken → Bool
  | _, [] => true
  | open_, (blank, t) :: rest =>
      blank.all isBlank && !(open_ && t.isOpenEnded && blank.isEmpty) &&
        isSeparated t.isOpenEnded rest

/-- A row of separated tokens is read from its text, after any tokens that are settled. -/
theorem Scan.settled_run_written {row : List SpacedToken}
    (hspelled : ∀ t ∈ row, t.2.isWellSpelled = true) {open_ : Bool}
    (hseparated : isSeparated open_ row = true) {s : Scan} {ts : List Token} (hs : Settled s ts)
    (hopen : open_ = false → s = ⟨ts, .between⟩) :
    ∃ s', s.run (written row) = some s' ∧ Settled s' ((row.map Prod.snd).reverse ++ ts) := by
  induction row generalizing open_ s ts with
  | nil => exact ⟨s, rfl, hs⟩
  | cons st rest ih =>
      obtain ⟨blank, t⟩ := st
      simp only [isSeparated, Bool.and_eq_true, Bool.not_eq_true'] at hseparated
      obtain ⟨⟨hblank, hgap⟩, hrest⟩ := hseparated
      -- Whatever came before, the token is read as one between tokens.
      have hbegin : s.run (blank ++ t.spelling) = Scan.run ⟨ts, .between⟩ t.spelling := by
        cases blank with
        | cons c cs =>
            have hc : isBlank c = true := by
              rw [List.all_cons, Bool.and_eq_true] at hblank
              exact hblank.1
            rw [List.cons_append, hs.run_cons (mem_delimiters_of_isBlank hc), ← List.cons_append,
              run_append, run_blank hblank]
            rfl
        | nil =>
            cases hended : t.isOpenEnded with
            | false =>
                obtain ⟨c, cs, hspelling, hc⟩ := Token.exists_delimiter hended
                rw [List.nil_append, hspelling, hs.run_cons hc]
            | true =>
                rw [hended] at hgap
                have hfalse : open_ = false := by simpa using hgap
                rw [hopen hfalse, List.nil_append]
      obtain ⟨s₁, hrun, hs₁, hended⟩ :=
        settled_run_spelling ts (hspelled (blank, t) List.mem_cons_self)
      obtain ⟨s₂, hrun₂, hs₂⟩ :=
        ih (fun u hu => hspelled u (List.mem_cons_of_mem _ hu)) hrest hs₁ hended
      refine ⟨s₂, ?_, by simpa using hs₂⟩
      rw [written, List.flatMap_cons, run_append, hbegin, hrun]
      exact hrun₂

/-- White space after settled tokens is passed over. -/
theorem Scan.Settled.run_blank {s : Scan} {ts : List Token} (h : Settled s ts) {ws : List Char}
    (hws : ws.all isBlank = true) : ∃ s', s.run ws = some s' ∧ s'.close = some ts := by
  cases ws with
  | nil => exact ⟨s, rfl, h.close⟩
  | cons c cs =>
      have hc : isBlank c = true := by
        rw [List.all_cons, Bool.and_eq_true] at hws
        exact hws.1
      refine ⟨⟨ts, .between⟩, ?_, rfl⟩
      rw [h.run_cons (mem_delimiters_of_isBlank hc), Scan.run_blank hws]

/-- **The tokens of a row are read from its text**, also with white space after it. -/
theorem tokens?_written {row : List SpacedToken}
    (hspelled : ∀ t ∈ row, t.2.isWellSpelled = true) (hseparated : isSeparated false row = true)
    {ws : List Char} (hws : ws.all isBlank = true) :
    tokens? (written row ++ ws) = some (row.map Prod.snd) := by
  obtain ⟨s, hrun, hs⟩ := Scan.settled_run_written hspelled hseparated (Scan.settled_between [])
    fun _ => rfl
  obtain ⟨s', hrun', hclose⟩ := hs.run_blank hws
  rw [tokens?, Scan.run_append, hrun, Option.bind_some, hrun', Option.bind_some, hclose]
  simp

/-! ### The row of a value -/

/-- Whether the white space of a style is blank. -/
structure Style.Blank (style : Style) : Prop where
  /-- That before an item, a member or an end is. -/
  line : ∀ depth, (style.line depth).all isBlank = true
  /-- That before the value of a member is. -/
  gap : style.gap.all isBlank = true

theorem Style.blank_compact : Style.compact.Blank := ⟨fun _ => rfl, rfl⟩

theorem Style.blank_indented : Style.indented.Blank := by
  refine ⟨fun depth => ?_, rfl⟩
  rw [Style.indented, List.all_cons, List.all_replicate]
  simp [isBlank]

theorem isSeparated_append {l m : List SpacedToken} {open_ : Bool}
    (hl : isSeparated open_ l = true) (hm : ∀ b, isSeparated b m = true) :
    isSeparated open_ (l ++ m) = true := by
  induction l generalizing open_ with
  | nil => exact hm open_
  | cons st rest ih =>
      obtain ⟨blank, t⟩ := st
      simp only [isSeparated, List.cons_append, Bool.and_eq_true] at hl ⊢
      exact ⟨hl.1, ih hl.2⟩

mutual

/-- The row of a value is separated. -/
theorem isSeparated_spaced {style : Style} (hstyle : style.Blank) {before : List Char}
    (hbefore : before.all isBlank = true) (depth : Nat) :
    ∀ j : Json, isSeparated false (spaced style before depth j) = true
  | .null | .bool _ | .natural _ | .number _ | .text _ | .array [] | .object [] => by
      simp [spaced, isSeparated, Token.isOpenEnded, hbefore]
  | .array (item :: rest) => by
      rw [spaced]
      refine isSeparated_append ?_ (isSeparated_spacedItems hstyle depth rest)
      have hitem := isSeparated_spaced hstyle (hstyle.line (depth + 1)) (depth + 1) item
      simp [isSeparated, hbefore, Token.isOpenEnded, hitem]
  | .object ((label, j) :: rest) => by
      rw [spaced]
      refine isSeparated_append ?_ (isSeparated_spacedMembers hstyle depth rest)
      have hvalue := isSeparated_spaced hstyle hstyle.gap (depth + 1) j
      have hline := hstyle.line (depth + 1)
      simp [isSeparated, hbefore, Token.isOpenEnded, hvalue, -List.all_eq_true, hline]

/-- The row of further items is separated from whatever comes before. -/
theorem isSeparated_spacedItems {style : Style} (hstyle : style.Blank) (depth : Nat) :
    ∀ (items : List Json) (b : Bool), isSeparated b (spacedItems style depth items) = true
  | [], b => by simp [spacedItems, isSeparated, Token.isOpenEnded, hstyle.line depth]
  | item :: rest, b => by
      rw [spacedItems]
      refine isSeparated_append ?_ (isSeparated_spacedItems hstyle depth rest)
      have hitem := isSeparated_spaced hstyle (hstyle.line (depth + 1)) (depth + 1) item
      simp [isSeparated, Token.isOpenEnded, hitem]

/-- The row of further members is separated from whatever comes before. -/
theorem isSeparated_spacedMembers {style : Style} (hstyle : style.Blank) (depth : Nat) :
    ∀ (members : List (Option String × Json)) (b : Bool),
      isSeparated b (spacedMembers style depth members) = true
  | [], b => by simp [spacedMembers, isSeparated, Token.isOpenEnded, hstyle.line depth]
  | (label, j) :: rest, b => by
      rw [spacedMembers]
      refine isSeparated_append ?_ (isSeparated_spacedMembers hstyle depth rest)
      have hvalue := isSeparated_spaced hstyle hstyle.gap (depth + 1) j
      have hline := hstyle.line (depth + 1)
      simp [isSeparated, Token.isOpenEnded, hvalue, -List.all_eq_true, hline]

end

mutual

/-- Whether each number kept by its spelling is spelled as one that has to be. -/
def isWellSpelled : Json → Bool
  | .number spelling => (Token.number spelling).isWellSpelled
  | .array items => areWellSpelled items
  | .object members => haveWellSpelled members
  | _ => true

/-- The same for the items of an array. -/
def areWellSpelled : List Json → Bool
  | [] => true
  | item :: rest => isWellSpelled item && areWellSpelled rest

/-- The same for the members of an object. -/
def haveWellSpelled : List (Option String × Json) → Bool
  | [] => true
  | (_, j) :: rest => isWellSpelled j && haveWellSpelled rest

end

mutual

/-- The tokens of a value are spelled as well as the value. -/
theorem isWellSpelled_spaced (style : Style) (before : List Char) (depth : Nat) :
    ∀ j : Json, j.isWellSpelled = true → ∀ t ∈ spaced style before depth j, t.2.isWellSpelled = true
  | .null, _ | .bool _, _ | .natural _, _ | .text _, _ | .array [], _ | .object [], _ => by
      simp [spaced, Token.isWellSpelled]
  | .number spelling, h => by simpa [spaced, isWellSpelled] using h
  | .array (item :: rest), h => by
      simp only [isWellSpelled, areWellSpelled, Bool.and_eq_true] at h
      simp only [spaced, List.forall_mem_append, List.forall_mem_cons]
      exact ⟨⟨rfl, isWellSpelled_spaced style _ _ item h.1⟩,
        isWellSpelled_spacedItems style depth rest h.2⟩
  | .object ((label, j) :: rest), h => by
      simp only [isWellSpelled, haveWellSpelled, Bool.and_eq_true] at h
      simp only [spaced, List.forall_mem_append, List.forall_mem_cons]
      exact ⟨⟨rfl, rfl, rfl, isWellSpelled_spaced style _ _ j h.1⟩,
        isWellSpelled_spacedMembers style depth rest h.2⟩

theorem isWellSpelled_spacedItems (style : Style) (depth : Nat) :
    ∀ items : List Json, areWellSpelled items = true →
      ∀ t ∈ spacedItems style depth items, t.2.isWellSpelled = true
  | [], _ => by simp [spacedItems, Token.isWellSpelled]
  | item :: rest, h => by
      simp only [areWellSpelled, Bool.and_eq_true] at h
      simp only [spacedItems, List.forall_mem_append, List.forall_mem_cons]
      exact ⟨⟨rfl, isWellSpelled_spaced style _ _ item h.1⟩,
        isWellSpelled_spacedItems style depth rest h.2⟩

theorem isWellSpelled_spacedMembers (style : Style) (depth : Nat) :
    ∀ members : List (Option String × Json), haveWellSpelled members = true →
      ∀ t ∈ spacedMembers style depth members, t.2.isWellSpelled = true
  | [], _ => by simp [spacedMembers, Token.isWellSpelled]
  | (label, j) :: rest, h => by
      simp only [haveWellSpelled, Bool.and_eq_true] at h
      simp only [spacedMembers, List.forall_mem_append, List.forall_mem_cons]
      exact ⟨⟨rfl, rfl, rfl, isWellSpelled_spaced style _ _ j h.1⟩,
        isWellSpelled_spacedMembers style depth rest h.2⟩

end

/-! ### The spelling of values made from data -/

theorem areWellSpelled_iff {items : List Json} :
    areWellSpelled items = true ↔ ∀ j ∈ items, j.isWellSpelled = true := by
  induction items with
  | nil => simp [areWellSpelled]
  | cons j rest ih => simp [areWellSpelled, ih]

theorem haveWellSpelled_iff {members : List (Option String × Json)} :
    haveWellSpelled members = true ↔ ∀ m ∈ members, m.2.isWellSpelled = true := by
  induction members with
  | nil => simp [haveWellSpelled]
  | cons m rest ih => simp [haveWellSpelled, ih]

@[simp] theorem isWellSpelled_ofString (s : String) : (ofString s).isWellSpelled = true := rfl

@[simp] theorem isWellSpelled_ofChar (c : Char) : (ofChar c).isWellSpelled = true := rfl

@[simp] theorem isWellSpelled_bool (b : Bool) : (bool b).isWellSpelled = true := rfl

@[simp] theorem isWellSpelled_natural (n : Nat) : (natural n).isWellSpelled = true := rfl

/-- A list is well spelled exactly when its items are. -/
@[simp] theorem isWellSpelled_ofList {α : Type} {f : α → Json} {items : List α} :
    (ofList f items).isWellSpelled = true ↔ ∀ a ∈ items, (f a).isWellSpelled = true :=
  areWellSpelled_iff.trans List.forall_mem_map

@[simp] theorem isWellSpelled_ofOption {α : Type} {f : α → Json} {value : Option α} :
    (ofOption f value).isWellSpelled = true ↔ ∀ a ∈ value, (f a).isWellSpelled = true := by
  cases value with
  | none => simp [ofOption, isWellSpelled]
  | some a => simp [ofOption]

/-- A record is well spelled exactly when its fields are. -/
@[simp] theorem isWellSpelled_record {members : List (String × Json)} :
    (record members).isWellSpelled = true ↔ ∀ m ∈ members, m.2.isWellSpelled = true :=
  haveWellSpelled_iff.trans List.forall_mem_map

/-! ### Texts -/

/-- The text of a value in a blank style is read as that value, also with white space after it. -/
theorem parse?_written {style : Style} (hstyle : style.Blank) {j : Json}
    (hj : j.isWellSpelled = true) (ws : List Char) (hws : ws.all isBlank = true) :
    parse? (String.ofList (written (spaced style [] 0 j)) ++ String.ofList ws) = some j := by
  rw [parse?, String.toList_append, String.toList_ofList, String.toList_ofList,
    tokens?_written (isWellSpelled_spaced style [] 0 j hj) (isSeparated_spaced hstyle rfl 0 j) hws,
    Option.bind_some, ofTokens?_spaced]

/-- **The text of a value without white space is read as that value.** -/
theorem parse?_compact {j : Json} (hj : j.isWellSpelled = true) : parse? j.compact = some j := by
  have hread := parse?_written Style.blank_compact hj [] rfl
  rwa [String.ofList_nil, String.append_empty] at hread

/-- **The text of a value in lines is read as that value.** -/
theorem parse?_indented {j : Json} (hj : j.isWellSpelled = true) : parse? j.indented = some j := by
  have hread := parse?_written Style.blank_indented hj [] rfl
  rwa [String.ofList_nil, String.append_empty] at hread

/-- The line after the text does not matter. -/
theorem parse?_indented_line {j : Json} (hj : j.isWellSpelled = true) :
    parse? (j.indented ++ "\n") = some j :=
  parse?_written Style.blank_indented hj ['\n'] rfl

end Json

end TapeMachine
