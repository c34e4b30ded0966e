/-
**Texts side by side.**

What has been read of a text shows in the tokens so far and in what has been read of the next one,
and the tokens so far do not matter for what comes (`Scan.run_onto`).  So the tokens of two texts
side by side are those of the one and then those of the other, unless a token runs over the place
where they meet; and it cannot if a delimiter comes there (`tokens?_append`).  White space is
nothing but delimiters, and may be put in wherever no token is torn apart.

In the other direction a text comes apart: each of its tokens is read from a piece of its own, with
some white space before it (`exists_lexemes`).

Main definitions:

* `TapeMachine.Json.Scan.onto` — a reading with more tokens before;
* `TapeMachine.Json.Between` — a place that is within no token;
* `TapeMachine.Json.Lexeme` — a token with the piece of text that it is read from.

Main results:

* `TapeMachine.Json.tokens?_append` — **the tokens of two texts side by side**;
* `TapeMachine.Json.Between.tokens?_insert` — **white space between tokens is nothing**;
* `TapeMachine.Json.exists_lexemes` — **a text comes apart** into the pieces of its tokens.
-/

import Mathlib.Data.List.Induction
import TapeMachine.Json.RoundTrip

set_option relaxedAutoImplicit false
set_option autoImplicit false

namespace TapeMachine

namespace Json

namespace Scan

/-! ### Tokens that were read before -/

/-- The reading with the tokens `ts` before its own. -/
def onto (ts : List Token) (s : Scan) : Scan := ⟨s.tokens ++ ts, s.mode⟩

variable {s : Scan} {ts us : List Token}

theorem begin_onto (us ts : List Token) (c : Char) :
    begin (us ++ ts) c = (begin us c).map (onto ts) := by
  unfold begin
  repeat' split
  any_goals rfl
  cases markToken? c <;> rfl

theorem close_onto (ts : List Token) (s : Scan) : (s.onto ts).close = s.close.map (· ++ ts) := by
  obtain ⟨us, mode⟩ := s
  cases mode with
  | word letters =>
      simp only [close, onto]
      cases wordToken? letters.reverse <;> rfl
  | numeral cs =>
      simp only [close, onto]
      cases numeralToken? cs.reverse <;> rfl
  | _ => rfl

theorem step_onto (ts : List Token) (s : Scan) (c : Char) :
    (s.onto ts).step c = (s.step c).map (onto ts) := by
  have hclose := close_onto ts s
  obtain ⟨us, mode⟩ := s
  cases mode with
  | between => exact begin_onto us ts c
  | word letters | numeral cs =>
      simp only [onto] at hclose
      simp only [step, onto, hclose]
      split
      · rfl
      · rw [Option.bind_map, Option.map_bind]
        exact congrArg _ (funext fun vs => begin_onto vs ts c)
  | quoted pieces =>
      simp only [step, onto]
      repeat' split
      all_goals rfl
  | escape pieces =>
      simp only [step, onto]
      split
      · rfl
      · rw [Option.map_map]
        rfl
  | unit pieces count value =>
      simp only [step, onto]
      rw [Option.map_map]
      congr 1
      funext digit
      simp only [Function.comp_apply]
      split <;> rfl

/-- **The tokens that were read before do not matter** for what comes. -/
theorem run_onto (ts : List Token) (s : Scan) (cs : List Char) :
    (s.onto ts).run cs = (s.run cs).map (onto ts) := by
  induction cs generalizing s with
  | nil => rfl
  | cons c cs ih =>
      rw [run_cons, run_cons, step_onto, Option.bind_map, Option.map_bind]
      exact congrArg _ (funext fun s' => ih s')

/-- A mark between tokens is a token. -/
theorem step_mark {c : Char} {t : Token} (h : markToken? c = some t) :
    step ⟨[], .between⟩ c = some ⟨[t], .between⟩ := by
  unfold markToken? at h
  iterate 6
    split at h
    · rename_i hc
      obtain rfl := Option.some.inj h
      subst hc
      rfl
  exact nomatch h

/-- What can end here has been read, whatever delimiter follows. -/
theorem settled_of_close (h : s.close = some ts) : Settled s ts := by
  obtain ⟨us, mode⟩ := s
  cases mode with
  | between =>
      obtain rfl := Option.some.inj h
      exact settled_between us
  | word letters =>
      obtain ⟨t, ht, rfl⟩ := Option.map_eq_some_iff.1 h
      exact settled_word ht
  | numeral cs =>
      obtain ⟨t, ht, rfl⟩ := Option.map_eq_some_iff.1 h
      exact settled_numeral ht
  | quoted pieces => exact nomatch h
  | escape pieces => exact nomatch h
  | unit pieces count value => exact nomatch h

end Scan

/-! ### Two texts -/

variable {cs ds ws : List Char} {ts us : List Token}

theorem tokens?_eq_some_iff :
    tokens? cs = some ts ↔
      ∃ s, Scan.run ⟨[], .between⟩ cs = some s ∧ s.close = some ts.reverse := by
  rw [tokens?, Option.map_eq_some_iff]
  constructor
  · rintro ⟨us, hus, rfl⟩
    obtain ⟨s, hrun, hclose⟩ := Option.bind_eq_some_iff.1 hus
    exact ⟨s, hrun, by rw [hclose, List.reverse_reverse]⟩
  · rintro ⟨s, hrun, hclose⟩
    exact ⟨ts.reverse, by rw [hrun, Option.bind_some, hclose], List.reverse_reverse ts⟩

/-- The text is empty or begins with a character that cannot belong to a token before it. -/
def Parted (cs : List Char) : Prop := ∀ c ∈ cs.head?, c ∈ delimiters

theorem parted_nil : Parted [] := fun _ hc => nomatch hc

theorem parted_cons {c : Char} (h : c ∈ delimiters) : Parted (c :: cs) := by
  rintro d ⟨⟩
  exact h

/-- White space parts from the text before it, unless there is none. -/
theorem parted_append (hws : ws.all isBlank = true) (hcs : Parted cs) : Parted (ws ++ cs) := by
  cases ws with
  | nil => exact hcs
  | cons c ws =>
      rw [List.all_cons, Bool.and_eq_true] at hws
      exact parted_cons (mem_delimiters_of_isBlank hws.1)

/-- **The tokens of two texts side by side** are those of the one and then those of the other, if
the texts part where they meet. -/
theorem tokens?_append (hcs : tokens? cs = some ts) (hds : tokens? ds = some us)
    (hparted : Parted ds) : tokens? (cs ++ ds) = some (ts ++ us) := by
  obtain ⟨s, hrun, hclose⟩ := tokens?_eq_some_iff.1 hcs
  obtain ⟨s', hrun', hclose'⟩ := tokens?_eq_some_iff.1 hds
  have hclosed : (s'.onto ts.reverse).close = some (ts ++ us).reverse := by
    rw [Scan.close_onto, hclose', List.reverse_append]
    rfl
  cases ds with
  | nil =>
      obtain rfl := Option.some.inj hrun'
      refine tokens?_eq_some_iff.2 ⟨s, by rw [List.append_nil, hrun], ?_⟩
      rw [hclose]
      exact hclosed
  | cons c ds =>
      have hsettled := Scan.settled_of_close hclose
      have hgoes : s.run (c :: ds) = some (s'.onto ts.reverse) := by
        rw [hsettled.run_cons (hparted c rfl)]
        exact (Scan.run_onto ts.reverse ⟨[], .between⟩ (c :: ds)).trans (by rw [hrun']; rfl)
      have hwhole : Scan.run ⟨[], .between⟩ (cs ++ c :: ds) = some (s'.onto ts.reverse) := by
        rw [Scan.run_append, hrun, Option.bind_some, hgoes]
      exact tokens?_eq_some_iff.2 ⟨_, hwhole, hclosed⟩

/-- White space has no tokens. -/
theorem tokens?_blank (h : ws.all isBlank = true) : tokens? ws = some [] :=
  tokens?_eq_some_iff.2 ⟨_, Scan.run_blank h, rfl⟩

/-- White space before a text adds no tokens. -/
theorem tokens?_blank_append (h : ws.all isBlank = true) (cs : List Char) :
    tokens? (ws ++ cs) = tokens? cs := by
  rw [tokens?, Scan.run_append, Scan.run_blank h]
  rfl

/-- White space after a text adds no tokens. -/
theorem tokens?_append_blank (hcs : tokens? cs = some ts) (h : ws.all isBlank = true) :
    tokens? (cs ++ ws) = some ts := by
  have hparted : Parted (ws ++ []) := parted_append h parted_nil
  rw [List.append_nil] at hparted
  have happend := tokens?_append hcs (tokens?_blank h) hparted
  rwa [List.append_nil] at happend

/-- **A mark before a text is one token more.** -/
theorem tokens?_cons_mark {c : Char} {t : Token} (h : markToken? c = some t) (cs : List Char) :
    tokens? (c :: cs) = (tokens? cs).map (t :: ·) := by
  have hrun : Scan.run ⟨[], .between⟩ (c :: cs) =
      (Scan.run ⟨[], .between⟩ cs).map (Scan.onto [t]) := by
    rw [Scan.run_cons, Scan.step_mark h]
    exact Scan.run_onto [t] ⟨[], .between⟩ cs
  rw [tokens?, tokens?, hrun]
  cases Scan.run ⟨[], .between⟩ cs with
  | none => rfl
  | some s =>
      rw [Option.map_some, Option.bind_some, Option.bind_some, Scan.close_onto]
      cases s.close with
      | none => rfl
      | some us => simp

theorem tokens?_cons_mark_of_some {c : Char} {t : Token} (h : markToken? c = some t)
    (hcs : tokens? cs = some ts) : tokens? (c :: cs) = some (t :: ts) := by
  rw [tokens?_cons_mark h, hcs, Option.map_some]

/-- A text may be taken apart here: the tokens of the whole are those of the two parts. -/
def Between (cs ds : List Char) : Prop :=
  ∃ ts us, tokens? cs = some ts ∧ tokens? ds = some us ∧ tokens? (cs ++ ds) = some (ts ++ us)

/-- A text that can be read may be taken apart after a mark that it begins with. -/
theorem Between.of_mark {c : Char} {t : Token} (h : markToken? c = some t)
    (hcs : tokens? (c :: cs) = some ts) : Between [c] cs := by
  rw [tokens?_cons_mark h] at hcs
  obtain ⟨us, hus, rfl⟩ := Option.map_eq_some_iff.1 hcs
  refine ⟨[t], us, ?_, hus, ?_⟩
  · rw [tokens?_cons_mark h]
    rfl
  · rw [List.singleton_append, tokens?_cons_mark h, hus]
    rfl

/-- **White space between tokens is nothing.** -/
theorem Between.tokens?_insert (h : Between cs ds) (hws : ws.all isBlank = true) :
    tokens? (cs ++ ws ++ ds) = tokens? (cs ++ ds) := by
  obtain ⟨ts, us, hcs, hds, hwhole⟩ := h
  cases ws with
  | nil => rw [List.append_nil]
  | cons c ws =>
      have hafter : tokens? (c :: ws ++ ds) = some us := by rw [tokens?_blank_append hws, hds]
      have hblank : isBlank c = true := by
        rw [List.all_cons, Bool.and_eq_true] at hws
        exact hws.1
      rw [List.append_assoc, hwhole]
      exact tokens?_append hcs hafter (parted_cons (mem_delimiters_of_isBlank hblank))

/-! ### The pieces of a text -/

/-- Whether a token is a single mark. -/
def Token.isMark : Token → Bool
  | openArray | closeArray | openObject | closeObject | comma | colon => true
  | _ => false

/-- A token with the piece of text that it is read from. -/
structure Lexeme where
  /-- The white space before the token. -/
  before : List Char
  /-- The characters of the token. -/
  core : List Char
  /-- The token. -/
  token : Token
  blank : before.all isBlank = true
  reads : tokens? core = some [token]
  spelled : token.isMark = true → core = token.spelling

/-- The piece of text. -/
def Lexeme.chars (l : Lexeme) : List Char := l.before ++ l.core

theorem spelling_of_markToken? {c : Char} {t : Token} (h : markToken? c = some t) :
    t.spelling = [c] := by
  unfold markToken? at h
  iterate 6
    split at h
    · rename_i hc
      obtain rfl := Option.some.inj h
      subst hc
      rfl
  exact nomatch h

theorem isMark_of_wordToken? {cs : List Char} {t : Token} (h : wordToken? cs = some t) :
    t.isMark = false := by
  unfold wordToken? at h
  iterate 3
    split at h
    · obtain rfl := Option.some.inj h
      rfl
  exact nomatch h

theorem isMark_of_numeralToken? {cs : List Char} {t : Token} (h : numeralToken? cs = some t) :
    t.isMark = false := by
  unfold numeralToken? at h
  iterate 2
    split at h
    · obtain rfl := Option.some.inj h
      rfl
  exact nomatch h

/-- What has been read of a text since the last token: white space, and then the part of a token
that the mode tells of. -/
structure Pending (mode : Mode) (before core : List Char) : Prop where
  blank : before.all isBlank = true
  run : Scan.run ⟨[], .between⟩ core = some ⟨[], mode⟩
  empty : mode = .between → core = []

/-- With a further piece of text so many tokens are complete, and the rest is pending. -/
def Completes (cs : List Char) (ts : List Token) (mode : Mode) : Prop :=
  ∃ (row : List Lexeme) (before core : List Char),
    cs = row.flatMap Lexeme.chars ++ (before ++ core) ∧ row.map Lexeme.token = ts.reverse ∧
      Pending mode before core

variable {mode mode' : Mode} {before core : List Char} {c : Char} {new : List Token}

/-- Between tokens a character is white space, begins a token or is one. -/
theorem completes_of_begin (hblank : before.all isBlank = true)
    (h : Scan.begin [] c = some ⟨new, mode'⟩) : Completes (before ++ [c]) new mode' := by
  have hrun : Scan.run ⟨[], .between⟩ [c] = some ⟨new, mode'⟩ := by
    rw [Scan.run_cons]
    change (Scan.begin [] c).bind _ = _
    rw [h]
    rfl
  unfold Scan.begin at h
  split at h
  · rename_i hc
    obtain ⟨rfl, rfl⟩ := Scan.mk.inj (Option.some.inj h)
    refine ⟨[], before ++ [c], [], by simp, rfl, ?_, rfl, fun _ => rfl⟩
    rw [List.all_append, hblank, List.all_cons, hc]
    rfl
  · -- a token begins with the character
    iterate 3
      split at h
      · obtain ⟨rfl, rfl⟩ := Scan.mk.inj (Option.some.inj h)
        exact ⟨[], before, [c], rfl, rfl, hblank, hrun, fun hmode => nomatch hmode⟩
    obtain ⟨t, ht, hscan⟩ := Option.map_eq_some_iff.1 h
    obtain ⟨rfl, rfl⟩ := Scan.mk.inj hscan
    have hreads : tokens? [c] = some [t] := tokens?_eq_some_iff.2 ⟨_, hrun, rfl⟩
    refine ⟨[⟨before, [c], t, hblank, hreads, fun _ => (spelling_of_markToken? ht).symm⟩], [], [],
      ?_, rfl, rfl, rfl, fun _ => rfl⟩
    simp [Lexeme.chars]

/-- A character that belongs to the token that is being read. -/
theorem Pending.grows (h : Pending mode before core)
    (hstep : Scan.step ⟨[], mode⟩ c = some ⟨[], mode'⟩) (hmode : mode' ≠ .between) :
    Completes (before ++ core ++ [c]) [] mode' := by
  refine ⟨[], before, core ++ [c], by simp, rfl, h.blank, ?_, fun hb => absurd hb hmode⟩
  rw [Scan.run_append, h.run, Option.bind_some, Scan.run_cons, hstep]
  rfl

/-- The piece of a token that ends without a mark of its own. -/
def Pending.lexeme (h : Pending mode before core) {t : Token}
    (hclose : Scan.close ⟨[], mode⟩ = some [t]) (ht : t.isMark = false) : Lexeme :=
  ⟨before, core, t, h.blank, tokens?_eq_some_iff.2 ⟨_, h.run, hclose⟩,
    fun hmark => absurd hmark (by simp [ht])⟩

/-- A character that does not belong to the token, which ends before it. -/
theorem Pending.ends (h : Pending mode before core) {t : Token}
    (hclose : Scan.close ⟨[], mode⟩ = some [t]) (ht : t.isMark = false)
    (hbegin : Scan.begin [t] c = some ⟨new, mode'⟩) :
    Completes (before ++ core ++ [c]) new mode' := by
  -- what the character begins does not depend on the token before it
  have honto : Scan.begin [t] c = (Scan.begin [] c).map (Scan.onto [t]) := Scan.begin_onto [] [t] c
  obtain ⟨⟨new', mode₁⟩, hfirst, hscan⟩ := Option.map_eq_some_iff.1 (honto.symm.trans hbegin)
  obtain ⟨rfl, rfl⟩ := Scan.mk.inj hscan
  obtain ⟨row, before', core', hchars, htokens, hpending⟩ :
      Completes ([] ++ [c]) new' mode₁ := completes_of_begin rfl hfirst
  refine ⟨h.lexeme hclose ht :: row, before', core', ?_, ?_, hpending⟩
  · rw [List.flatMap_cons, List.append_assoc (Lexeme.chars _), ← hchars]
    rfl
  · rw [List.map_cons, htokens, List.reverse_append]
    rfl

/-- A character within a word or a number, or after it: it belongs to the token, or the token ends
and the character is read as one between tokens. -/
theorem Pending.grows_or_ends (h : Pending mode before core) {belongs : Prop} [Decidable belongs]
    {grown : Mode} (hgrown : grown ≠ .between)
    (hreading : Scan.step ⟨[], mode⟩ c = if belongs then some ⟨[], grown⟩
      else (Scan.close ⟨[], mode⟩).bind fun ts => Scan.begin ts c)
    (htoken : ∀ ts, Scan.close ⟨[], mode⟩ = some ts → ∃ t, ts = [t] ∧ t.isMark = false)
    (hstep : Scan.step ⟨[], mode⟩ c = some ⟨new, mode'⟩) :
    Completes (before ++ core ++ [c]) new mode' := by
  by_cases hc : belongs
  · rw [if_pos hc] at hreading
    obtain ⟨rfl, rfl⟩ := Scan.mk.inj (Option.some.inj (hreading.symm.trans hstep))
    exact h.grows hstep hgrown
  · rw [if_neg hc] at hreading
    obtain ⟨ts, hclose, hbegin⟩ := Option.bind_eq_some_iff.1 (hreading.symm.trans hstep)
    obtain ⟨t, rfl, ht⟩ := htoken ts hclose
    exact h.ends hclose ht hbegin

/-- **One character more.** -/
theorem Pending.step (h : Pending mode before core)
    (hstep : Scan.step ⟨[], mode⟩ c = some ⟨new, mode'⟩) :
    Completes (before ++ core ++ [c]) new mode' := by
  cases mode with
  | between =>
      rw [h.empty rfl, List.append_nil]
      exact completes_of_begin h.blank hstep
  | word letters =>
      refine h.grows_or_ends (by simp) rfl (fun ts hclose => ?_) hstep
      obtain ⟨t, ht, rfl⟩ := Option.map_eq_some_iff.1 hclose
      exact ⟨t, rfl, isMark_of_wordToken? ht⟩
  | numeral cs =>
      refine h.grows_or_ends (by simp) rfl (fun ts hclose => ?_) hstep
      obtain ⟨t, ht, rfl⟩ := Option.map_eq_some_iff.1 hclose
      exact ⟨t, rfl, isMark_of_numeralToken? ht⟩
  | quoted pieces =>
      have hcases := hstep
      simp only [Scan.step] at hcases
      split at hcases
      · -- the quote that ends the text
        obtain ⟨rfl, rfl⟩ := Scan.mk.inj (Option.some.inj hcases)
        have hrun : Scan.run ⟨[], .between⟩ (core ++ [c]) =
            some ⟨[.text ((joined pieces.reverse).map String.ofList)], .between⟩ := by
          rw [Scan.run_append, h.run, Option.bind_some, Scan.run_cons, hstep]
          rfl
        have hreads : tokens? (core ++ [c]) =
            some [.text ((joined pieces.reverse).map String.ofList)] :=
          tokens?_eq_some_iff.2 ⟨_, hrun, rfl⟩
        exact ⟨[⟨before, core ++ [c], _, h.blank, hreads, by simp [Token.isMark]⟩], [], [],
          by simp [Lexeme.chars], rfl, rfl, rfl, fun _ => rfl⟩
      · split at hcases
        · obtain ⟨rfl, rfl⟩ := Scan.mk.inj (Option.some.inj hcases)
          exact h.grows hstep (by simp)
        · split at hcases
          · exact absurd hcases.symm (Option.some_ne_none _)
          · obtain ⟨rfl, rfl⟩ := Scan.mk.inj (Option.some.inj hcases)
            exact h.grows hstep (by simp)
  | escape pieces =>
      have hcases := hstep
      simp only [Scan.step] at hcases
      split at hcases
      · obtain ⟨rfl, rfl⟩ := Scan.mk.inj (Option.some.inj hcases)
        exact h.grows hstep (by simp)
      · obtain ⟨d, -, hscan⟩ := Option.map_eq_some_iff.1 hcases
        obtain ⟨rfl, rfl⟩ := Scan.mk.inj hscan
        exact h.grows hstep (by simp)
  | unit pieces count value =>
      have hcases := hstep
      simp only [Scan.step] at hcases
      obtain ⟨digit, -, hscan⟩ := Option.map_eq_some_iff.1 hcases
      split at hscan
      · obtain ⟨rfl, rfl⟩ := Scan.mk.inj hscan
        exact h.grows hstep (by simp)
      · obtain ⟨rfl, rfl⟩ := Scan.mk.inj hscan
        exact h.grows hstep (by simp)

/-- What has been read of a text, by induction on its last character. -/
theorem completes_of_run {s : Scan} (h : Scan.run ⟨[], .between⟩ cs = some s) :
    Completes cs s.tokens s.mode := by
  induction cs using List.reverseRecOn generalizing s with
  | nil =>
      obtain rfl := Option.some.inj h
      exact ⟨[], [], [], rfl, rfl, rfl, rfl, fun _ => rfl⟩
  | append_singleton cs c ih =>
      rw [Scan.run_append] at h
      obtain ⟨s₁, hrun, hlast⟩ := Option.bind_eq_some_iff.1 h
      obtain ⟨row, before, core, rfl, htokens, hpending⟩ := ih hrun
      have hstep : (Scan.onto s₁.tokens ⟨[], s₁.mode⟩).step c = some s := by
        rw [Scan.run_cons] at hlast
        obtain ⟨s₂, hstep, hend⟩ := Option.bind_eq_some_iff.1 hlast
        obtain rfl := Option.some.inj hend
        exact hstep
      rw [Scan.step_onto] at hstep
      obtain ⟨⟨new, mode⟩, hone, rfl⟩ := Option.map_eq_some_iff.1 hstep
      obtain ⟨row', before', core', hchars, htokens', hpending'⟩ := hpending.step hone
      refine ⟨row ++ row', before', core', ?_, ?_, hpending'⟩
      · rw [List.append_assoc, hchars, List.flatMap_append, List.append_assoc]
      · rw [List.map_append, htokens, htokens', Scan.onto, List.reverse_append]

/-- **A text comes apart** into the pieces of its tokens, and white space at the end. -/
theorem exists_lexemes (h : tokens? cs = some ts) :
    ∃ (row : List Lexeme) (ws : List Char), cs = row.flatMap Lexeme.chars ++ ws ∧
      ws.all isBlank = true ∧ row.map Lexeme.token = ts := by
  obtain ⟨⟨us, mode⟩, hrun, hclose⟩ := tokens?_eq_some_iff.1 h
  obtain ⟨row, before, core, rfl, htokens, hpending⟩ := completes_of_run hrun
  -- a word or a number at the end is one token more
  have hlast {t : Token} (hmark : t.isMark = false) (hends : Scan.close ⟨[], mode⟩ = some [t])
      (hts : ts.reverse = t :: us) : ∃ (row' : List Lexeme) (ws : List Char),
        row.flatMap Lexeme.chars ++ (before ++ core) = row'.flatMap Lexeme.chars ++ ws ∧
          ws.all isBlank = true ∧ row'.map Lexeme.token = ts := by
    refine ⟨row ++ [hpending.lexeme hends hmark], [], ?_, rfl, ?_⟩
    · rw [List.flatMap_append, List.flatMap_singleton, List.append_nil]
      rfl
    · rw [List.map_append, htokens, ← List.reverse_reverse ts, hts, List.reverse_cons]
      rfl
  cases mode with
  | between =>
      refine ⟨row, before, ?_, hpending.blank, ?_⟩
      · rw [hpending.empty rfl, List.append_nil]
      · rw [htokens, Option.some.inj hclose, List.reverse_reverse]
  | word letters =>
      obtain ⟨t, ht, hts⟩ := Option.map_eq_some_iff.1 hclose
      exact hlast (isMark_of_wordToken? ht) (by simp [Scan.close, ht]) hts.symm
  | numeral cs =>
      obtain ⟨t, ht, hts⟩ := Option.map_eq_some_iff.1 hclose
      exact hlast (isMark_of_numeralToken? ht) (by simp [Scan.close, ht]) hts.symm
  | quoted pieces | escape pieces | unit pieces count value =>
      exact absurd hclose.symm (Option.some_ne_none _)

end Json

end TapeMachine
