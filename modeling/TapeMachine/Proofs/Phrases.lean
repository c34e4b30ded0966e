/-
**A text cut along its structure.**

A JSON text is a value with white space around it: a single token, an array or an object, and the
items and members of those are texts again.  A `Phrase` is a text that is cut up in this way, down
to the characters, so that its parts can be moved, left out or written in other ways.

What a phrase says is what is read from its text (`Phrase.parse?_text`): the characters of a part
are those of its tokens, and the tokens are those of the value.  And every text that can be read is
the text of a phrase (`exists_phrase`).  For this the reading is followed token by token: in each
position the characters so far are those of phrases that are complete, within brackets and braces
that are open (`Shown`), and a token takes this to the next position (`Shown.step`).

Main definitions:

* `TapeMachine.Json.Phrase` — a text cut along its structure;
* `TapeMachine.Json.Phrase.text`, `TapeMachine.Json.Phrase.value` — the text and what it says;
* `TapeMachine.Json.Opened`, `TapeMachine.Json.Shown` — what the characters so far show of the
  arrays and objects that are open, and of a position.

Main results:

* `TapeMachine.Json.Phrase.parse?_text` — **a phrase is read as its value**;
* `TapeMachine.Json.exists_phrase` — **every text that can be read is the text of a phrase**.
-/

import TapeMachine.Proofs.Juxtaposition

set_option relaxedAutoImplicit false
set_option autoImplicit false

namespace TapeMachine

namespace Json

/-! ### Phrases -/

/-- White space. -/
abbrev Blank : Type := { ws : List Char // ws.all isBlank = true }

/-- No white space. -/
def Blank.none : Blank := ⟨[], rfl⟩

/-- White space after white space. -/
def Blank.append (ws ws' : Blank) : Blank :=
  ⟨ws.1 ++ ws'.1, by rw [List.all_append, ws.2, ws'.2]; rfl⟩

/-- The white space around the brackets of an array or the braces of an object. -/
structure Frame where
  /-- Before the first bracket. -/
  before : Blank
  /-- After the first bracket. -/
  within : Blank
  /-- After the last bracket. -/
  after : Blank

/-- No white space around brackets. -/
def Frame.tight : Frame := ⟨.none, .none, .none⟩

/-- The value that is a single token. -/
def Token.scalar? : Token → Option Json
  | null => some .null
  | bool b => some (.bool b)
  | natural n => some (.natural n)
  | number spelling => some (.number spelling)
  | text s => some (.text s)
  | _ => none

/-- The text of a value that is a single token. -/
structure Scalar where
  /-- The characters, white space at either end included. -/
  chars : List Char
  /-- The value. -/
  value : Json
  reads : ∃ t, tokens? chars = some [t] ∧ t.scalar? = some value

/-- The text of the name of a member. -/
structure Label where
  /-- The characters, white space at either end included. -/
  chars : List Char
  /-- The name. -/
  name : Option String
  reads : tokens? chars = some [.text name]

/-- A text that is cut along its structure. -/
inductive Phrase where
  /-- A single token. -/
  | scalar (s : Scalar)
  /-- An array, with the phrases of its items. -/
  | array (frame : Frame) (items : List Phrase)
  /-- An object, with the names of its members and the phrases of their values. -/
  | object (frame : Frame) (members : List (Label × Phrase))

/-- Texts between brackets, with commas between them. -/
def Frame.enclose (frame : Frame) (first last : Char) (texts : List (List Char)) : List Char :=
  frame.before.1 ++ first :: (frame.within.1 ++ ([','].intercalate texts ++ last :: frame.after.1))

namespace Phrase

mutual

/-- The characters of a phrase. -/
def chars : Phrase → List Char
  | scalar s => s.chars
  | array frame items => frame.enclose '[' ']' (itemChars items)
  | object frame members => frame.enclose '{' '}' (memberChars members)

/-- The characters of each of several items. -/
def itemChars : List Phrase → List (List Char)
  | [] => []
  | p :: rest => p.chars :: itemChars rest

/-- The characters of each of several members. -/
def memberChars : List (Label × Phrase) → List (List Char)
  | [] => []
  | (label, p) :: rest => (label.chars ++ ':' :: p.chars) :: memberChars rest

end

mutual

/-- What a phrase says. -/
def value : Phrase → Json
  | scalar s => s.value
  | array _ items => .array (itemValues items)
  | object _ members => .object (memberValues members)

/-- What each of several items says. -/
def itemValues : List Phrase → List Json
  | [] => []
  | p :: rest => p.value :: itemValues rest

/-- What each of several members says. -/
def memberValues : List (Label × Phrase) → List (Option String × Json)
  | [] => []
  | (label, p) :: rest => (label.name, p.value) :: memberValues rest

end

/-- The text of a phrase. -/
def text (p : Phrase) : String := String.ofList p.chars

/-- The characters of a member. -/
def charsOfMember (m : Label × Phrase) : List Char := m.1.chars ++ ':' :: m.2.chars

/-- What a member says. -/
def valueOfMember (m : Label × Phrase) : Option String × Json := (m.1.name, m.2.value)

theorem itemChars_eq_map (items : List Phrase) : itemChars items = items.map chars := by
  induction items with
  | nil => rfl
  | cons p rest ih => rw [itemChars, ih, List.map_cons]

theorem memberChars_eq_map (members : List (Label × Phrase)) :
    memberChars members = members.map charsOfMember := by
  induction members with
  | nil => rfl
  | cons m rest ih =>
      rw [memberChars, ih]
      rfl

theorem itemValues_eq_map (items : List Phrase) : itemValues items = items.map value := by
  induction items with
  | nil => rfl
  | cons p rest ih => rw [itemValues, ih, List.map_cons]

theorem memberValues_eq_map (members : List (Label × Phrase)) :
    memberValues members = members.map valueOfMember := by
  induction members with
  | nil => rfl
  | cons m rest ih =>
      rw [memberValues, ih]
      rfl

@[simp] theorem value_scalar (s : Scalar) : (scalar s).value = s.value := rfl

@[simp] theorem value_array (frame : Frame) (items : List Phrase) :
    (array frame items).value = .array (items.map value) := by
  rw [value, itemValues_eq_map]

@[simp] theorem value_object (frame : Frame) (members : List (Label × Phrase)) :
    (object frame members).value = .object (members.map valueOfMember) := by
  rw [value, memberValues_eq_map]

end Phrase

/-! ### A phrase is read as its value -/

/-- The texts after the first one have commas before them. -/
theorem intercalate_cons (sep text : List Char) (texts : List (List Char)) :
    sep.intercalate (text :: texts) = text ++ texts.flatMap (sep ++ ·) := by
  induction texts generalizing text with
  | nil => simp
  | cons next texts ih => rw [List.intercalate_cons_cons, ih, List.flatMap_cons, List.append_assoc,
      List.append_assoc]

/-- The texts before the last one have commas after them. -/
theorem intercalate_concat (sep text : List Char) (texts : List (List Char)) :
    sep.intercalate (texts ++ [text]) = texts.flatMap (· ++ sep) ++ text := by
  induction texts with
  | nil => simp
  | cons first texts ih =>
      rw [List.flatMap_cons, List.append_assoc, ← ih]
      cases texts <;> simp [List.intercalate_cons_cons]

theorem spaced_of_scalar? {t : Token} {j : Json} (h : t.scalar? = some j) (style : Style)
    (before : List Char) (depth : Nat) : spaced style before depth j = [(before, t)] := by
  cases t with
  | null | bool | natural | number | text =>
      obtain rfl := Option.some.inj h
      rfl
  | openArray | closeArray | openObject | closeObject | comma | colon => exact nomatch h

/-- What stands between brackets is read after the first one. -/
theorem Frame.tokens?_enclose (frame : Frame) {first last : Char} {t : Token} {ts : List Token}
    {texts : List (List Char)} (hfirst : markToken? first = some t)
    (h : tokens? ([','].intercalate texts ++ last :: frame.after.1) = some ts) :
    tokens? (frame.enclose first last texts) = some (t :: ts) := by
  rw [Frame.enclose, tokens?_blank_append frame.before.2]
  exact tokens?_cons_mark_of_some hfirst (by rw [tokens?_blank_append frame.within.2, h])

/-- The last bracket is read with the white space after it. -/
theorem Frame.tokens?_last (frame : Frame) {last : Char} {t : Token}
    (h : markToken? last = some t) : tokens? (last :: frame.after.1) = some [t] :=
  tokens?_cons_mark_of_some h (tokens?_blank frame.after.2)

/-- Nothing runs over a further text or the last bracket. -/
theorem parted_flatMap_comma (texts : List (List Char)) {last : Char} (after : List Char)
    (h : last ∈ delimiters) : Parted (texts.flatMap ([','] ++ ·) ++ last :: after) := by
  cases texts with
  | nil => exact parted_cons h
  | cons text texts => exact parted_cons (by decide)

/-- The name of a member is read with the colon and the value. -/
theorem Label.tokens?_member (label : Label) {cs : List Char} {ts : List Token}
    (h : tokens? cs = some ts) :
    tokens? (label.chars ++ ':' :: cs) = some (.text label.name :: .colon :: ts) :=
  tokens?_append label.reads (tokens?_cons_mark_of_some rfl h) (parted_cons (by decide))

mutual

/-- The tokens of a phrase are those of its value. -/
theorem Phrase.tokens?_chars (style : Style) (before : List Char) (depth : Nat) :
    ∀ p : Phrase, tokens? p.chars = some ((spaced style before depth p.value).map Prod.snd)
  | .scalar s => by
      obtain ⟨t, ht, hvalue⟩ := s.reads
      rw [chars, value, ht, spaced_of_scalar? hvalue]
      rfl
  | .array frame [] => frame.tokens?_enclose rfl (frame.tokens?_last rfl)
  | .array frame (p :: rest) => by
      refine frame.tokens?_enclose rfl ?_
      rw [itemChars, intercalate_cons, List.append_assoc]
      exact (tokens?_append (Phrase.tokens?_chars style (style.line (depth + 1)) (depth + 1) p)
        (Phrase.tokens?_items style depth frame rest)
        (parted_flatMap_comma _ _ (by decide))).trans (by rw [← List.map_append]; rfl)
  | .object frame [] => frame.tokens?_enclose rfl (frame.tokens?_last rfl)
  | .object frame ((label, p) :: rest) => by
      refine frame.tokens?_enclose rfl ?_
      rw [memberChars, intercalate_cons, List.append_assoc]
      exact (tokens?_append
        (label.tokens?_member (Phrase.tokens?_chars style style.gap (depth + 1) p))
        (Phrase.tokens?_members style depth frame rest)
        (parted_flatMap_comma _ _ (by decide))).trans
          (by rw [List.cons_append, List.cons_append, ← List.map_append]; rfl)

/-- The tokens of the further items of an array, up to its end. -/
theorem Phrase.tokens?_items (style : Style) (depth : Nat) (frame : Frame) :
    ∀ items : List Phrase,
      tokens? ((itemChars items).flatMap ([','] ++ ·) ++ ']' :: frame.after.1) =
        some ((spacedItems style depth (itemValues items)).map Prod.snd)
  | [] => frame.tokens?_last rfl
  | p :: rest => by
      rw [itemChars, List.flatMap_cons, List.append_assoc, List.append_assoc]
      exact tokens?_cons_mark_of_some rfl
        ((tokens?_append (Phrase.tokens?_chars style (style.line (depth + 1)) (depth + 1) p)
          (Phrase.tokens?_items style depth frame rest)
          (parted_flatMap_comma _ _ (by decide))).trans (by rw [← List.map_append]; rfl))

/-- The tokens of the further members of an object, up to its end. -/
theorem Phrase.tokens?_members (style : Style) (depth : Nat) (frame : Frame) :
    ∀ members : List (Label × Phrase),
      tokens? ((memberChars members).flatMap ([','] ++ ·) ++ '}' :: frame.after.1) =
        some ((spacedMembers style depth (memberValues members)).map Prod.snd)
  | [] => frame.tokens?_last rfl
  | (label, p) :: rest => by
      rw [memberChars, List.flatMap_cons, List.append_assoc, List.append_assoc]
      exact tokens?_cons_mark_of_some rfl
        ((tokens?_append (label.tokens?_member (Phrase.tokens?_chars style style.gap (depth + 1) p))
          (Phrase.tokens?_members style depth frame rest)
          (parted_flatMap_comma _ _ (by decide))).trans
            (by rw [List.cons_append, List.cons_append, ← List.map_append]; rfl))

end

/-- **A phrase is read as its value.** -/
theorem Phrase.parse?_text (p : Phrase) : parse? p.text = some p.value := by
  rw [parse?, text, String.toList_ofList, p.tokens?_chars .compact [] 0]
  exact ofTokens?_spaced .compact [] 0 p.value

/-! ### Names without white space -/

/-- A token is read from its spelling. -/
theorem tokens?_spelling {t : Token} (h : t.isWellSpelled = true) :
    tokens? t.spelling = some [t] := by
  obtain ⟨s, hrun, hs, -⟩ := Scan.settled_run_spelling [] h
  exact tokens?_eq_some_iff.2 ⟨s, hrun, hs.1⟩

/-- The name of a member, without white space. -/
def Label.ofString (name : String) : Label :=
  ⟨Token.spelling (.text (some name)), some name, tokens?_spelling rfl⟩

/-! ### White space after a phrase -/

/-- The name with more white space after it. -/
def Label.pad (label : Label) (ws : Blank) : Label :=
  ⟨label.chars ++ ws.1, label.name, tokens?_append_blank label.reads ws.2⟩

/-- The phrase with more white space after it. -/
def Phrase.pad (ws : Blank) : Phrase → Phrase
  | .scalar s =>
      .scalar ⟨s.chars ++ ws.1, s.value,
        s.reads.imp fun _ h => ⟨tokens?_append_blank h.1 ws.2, h.2⟩⟩
  | .array frame items => .array { frame with after := frame.after.append ws } items
  | .object frame members => .object { frame with after := frame.after.append ws } members

@[simp] theorem Phrase.value_pad (ws : Blank) (p : Phrase) : (p.pad ws).value = p.value := by
  cases p <;> rfl

@[simp] theorem Phrase.chars_pad (ws : Blank) (p : Phrase) :
    (p.pad ws).chars = p.chars ++ ws.1 := by
  cases p with
  | scalar s => rfl
  | array frame items | object frame members =>
      simp [pad, chars, Frame.enclose, Blank.append, List.append_assoc]

/-! ### What the characters so far show -/

/-- The characters of an array or object that is open, after several items or members. -/
def Frame.opening (frame : Frame) (first : Char) (texts : List (List Char)) : List Char :=
  frame.before.1 ++ first :: (frame.within.1 ++ texts.flatMap (· ++ [',']))

theorem Frame.opening_concat (frame : Frame) (first : Char) (texts : List (List Char))
    (text : List Char) :
    frame.opening first (texts ++ [text]) = frame.opening first texts ++ (text ++ [',']) := by
  simp [opening]

theorem Frame.enclose_concat (frame : Frame) (first last : Char) (texts : List (List Char))
    (text : List Char) :
    Frame.enclose { frame with after := .none } first last (texts ++ [text]) =
      frame.opening first texts ++ (text ++ [last]) := by
  simp [enclose, opening, intercalate_concat, Blank.none]

/-- The characters so far, when arrays and objects are open: those of each, with the items or
members that it has. -/
inductive Opened : List Open → List Char → Prop
  /-- Nothing is open, and nothing has been read. -/
  | outside : Opened [] []
  /-- An array is open, and an item comes. -/
  | array {outer : List Open} {cs : List Char} (frame : Frame) (items : List Phrase) :
      Opened outer cs →
        Opened (.array (items.map Phrase.value).reverse :: outer)
          (cs ++ frame.opening '[' (items.map Phrase.chars))
  /-- An object is open, and the value of a member comes. -/
  | object {outer : List Open} {cs : List Char} (frame : Frame) (members : List (Label × Phrase))
      (label : Label) :
      Opened outer cs →
        Opened (.object (members.map Phrase.valueOfMember).reverse label.name :: outer)
          (cs ++ frame.opening '{' (members.map Phrase.charsOfMember) ++ (label.chars ++ [':']))

/-- The characters so far, in each position of the reading. -/
inductive Shown : Position → List Char → Prop
  /-- All that is open, with what it has. -/
  | value {outer : List Open} {cs : List Char} : Opened outer cs → Shown (.value outer) cs
  /-- The first bracket of an array as well. -/
  | firstItem {outer : List Open} {cs : List Char} (before : Blank) :
      Opened outer cs → Shown (.firstItem outer) (cs ++ (before.1 ++ ['[']))
  /-- The first brace of an object as well. -/
  | firstName {outer : List Open} {cs : List Char} (before : Blank) :
      Opened outer cs → Shown (.firstName outer) (cs ++ (before.1 ++ ['{']))
  /-- An object with some members as well. -/
  | name {outer : List Open} {cs : List Char} (frame : Frame) (members : List (Label × Phrase)) :
      Opened outer cs →
        Shown (.name (members.map Phrase.valueOfMember).reverse outer)
          (cs ++ frame.opening '{' (members.map Phrase.charsOfMember))
  /-- An object with some members and a further name as well. -/
  | colon {outer : List Open} {cs : List Char} (frame : Frame) (members : List (Label × Phrase))
      (label : Label) :
      Opened outer cs →
        Shown (.colon (members.map Phrase.valueOfMember).reverse label.name outer)
          (cs ++ frame.opening '{' (members.map Phrase.charsOfMember) ++ label.chars)
  /-- A phrase that is complete as well. -/
  | after {outer : List Open} {cs : List Char} (p : Phrase) :
      Opened outer cs → Shown (.after p.value outer) (cs ++ p.chars)

/-- The white space before a token. -/
def Lexeme.gap (l : Lexeme) : Blank := ⟨l.before, l.blank⟩

theorem Lexeme.tokens?_chars (l : Lexeme) : tokens? l.chars = some [l.token] := by
  rw [chars, tokens?_blank_append l.blank, l.reads]

theorem Lexeme.chars_of_isMark {l : Lexeme} {t : Token} (ht : l.token = t)
    (hmark : t.isMark = true) : l.chars = l.gap.1 ++ t.spelling := by
  subst ht
  rw [chars, l.spelled hmark]
  rfl

variable {outer : List Open} {cs : List Char} {p next : Position} {j : Json} {l : Lexeme}

/-- A token where a value must come. -/
theorem Opened.beginValue (h : Opened outer cs)
    (hnext : Position.beginValue outer l.token = some next) : Shown next (cs ++ l.chars) := by
  have hscalar {j : Json} (hj : l.token.scalar? = some j) :
      Shown (.after j outer) (cs ++ l.chars) :=
    Shown.after (.scalar ⟨l.chars, j, l.token, l.tokens?_chars, hj⟩) h
  cases ht : l.token with
  | null | bool | natural | number | text =>
      rw [ht] at hnext
      obtain rfl := Option.some.inj hnext
      exact hscalar (by rw [ht]; rfl)
  | openArray =>
      rw [ht] at hnext
      obtain rfl := Option.some.inj hnext
      rw [Lexeme.chars_of_isMark ht rfl]
      exact .firstItem l.gap h
  | openObject =>
      rw [ht] at hnext
      obtain rfl := Option.some.inj hnext
      rw [Lexeme.chars_of_isMark ht rfl]
      exact .firstName l.gap h
  | closeArray | closeObject | comma | colon =>
      rw [ht] at hnext
      exact nomatch hnext

/-- A name where one must come. -/
theorem Opened.beginName {name : Option String} (h : Opened outer cs) (frame : Frame)
    (members : List (Label × Phrase)) (ht : l.token = .text name) :
    Shown (.colon (members.map Phrase.valueOfMember).reverse name outer)
      (cs ++ frame.opening '{' (members.map Phrase.charsOfMember) ++ l.chars) :=
  .colon frame members ⟨l.chars, name, by rw [l.tokens?_chars, ht]⟩ h

/-- The phrase of a value before a mark gets the white space before the mark. -/
theorem Phrase.chars_pad_gap (q : Phrase) {t : Token} (ht : l.token = t) (hmark : t.isMark = true) :
    q.chars ++ l.chars = (q.pad l.gap).chars ++ t.spelling := by
  rw [Lexeme.chars_of_isMark ht hmark, Phrase.chars_pad, List.append_assoc]

/-- A token after a complete value: the value is one more item or member of what is open. -/
theorem Opened.continueAfter (h : Opened outer cs) (q : Phrase)
    (hnext : Position.continueAfter q.value outer l.token = some next) :
    Shown next (cs ++ (q.chars ++ l.chars)) := by
  cases h with
  | outside => exact absurd hnext.symm (Option.some_ne_none next)
  | @array outer cs frame items h =>
      -- the phrase gets the white space before the mark, and stands at the end of the items
      have hvalues : ((items ++ [q.pad l.gap]).map Phrase.value).reverse =
          q.value :: (items.map Phrase.value).reverse := by simp
      cases ht : l.token with
      | comma =>
          rw [ht] at hnext
          obtain rfl := Option.some.inj hnext
          have hmore := Opened.array frame (items ++ [q.pad l.gap]) h
          rw [hvalues, List.map_append, List.map_singleton, Frame.opening_concat] at hmore
          rw [q.chars_pad_gap ht rfl, List.append_assoc]
          exact .value hmore
      | closeArray =>
          rw [ht] at hnext
          obtain rfl := Option.some.inj hnext
          have hwhole := Shown.after
            (.array { frame with after := .none } (items ++ [q.pad l.gap])) h
          rw [Phrase.value_array, ← List.reverse_reverse (List.map _ _), hvalues, Phrase.chars,
            Phrase.itemChars_eq_map, List.map_append, List.map_singleton,
            Frame.enclose_concat] at hwhole
          rw [q.chars_pad_gap ht rfl, List.append_assoc]
          exact hwhole
      | _ =>
          rw [ht] at hnext
          exact absurd hnext.symm (Option.some_ne_none next)
  | @object outer cs frame members label h =>
      have hvalues : ((members ++ [(label, q.pad l.gap)]).map Phrase.valueOfMember).reverse =
          (label.name, q.value) :: (members.map Phrase.valueOfMember).reverse := by
        simp [Phrase.valueOfMember]
      have hchars : label.chars ++ [':'] ++ (q.pad l.gap).chars =
          Phrase.charsOfMember (label, q.pad l.gap) := by
        rw [List.append_assoc]
        rfl
      cases ht : l.token with
      | comma =>
          rw [ht] at hnext
          obtain rfl := Option.some.inj hnext
          have hmore := Shown.name frame (members ++ [(label, q.pad l.gap)]) h
          rw [hvalues, List.map_append, List.map_singleton, Frame.opening_concat, ← hchars] at hmore
          rw [q.chars_pad_gap ht rfl]
          simpa only [List.append_assoc, Token.spelling] using hmore
      | closeObject =>
          rw [ht] at hnext
          obtain rfl := Option.some.inj hnext
          have hwhole := Shown.after
            (.object { frame with after := .none } (members ++ [(label, q.pad l.gap)])) h
          rw [Phrase.value_object, ← List.reverse_reverse (List.map _ _), hvalues, Phrase.chars,
            Phrase.memberChars_eq_map, List.map_append, List.map_singleton,
            Frame.enclose_concat, ← hchars] at hwhole
          rw [q.chars_pad_gap ht rfl]
          simpa only [List.append_assoc, Token.spelling] using hwhole
      | _ =>
          rw [ht] at hnext
          exact absurd hnext.symm (Option.some_ne_none next)

theorem Position.step_firstItem {t : Token} (h : t ≠ .closeArray) :
    (Position.firstItem outer).step t = Position.beginValue (.array [] :: outer) t := by
  cases t with
  | closeArray => exact absurd rfl h
  | _ => rfl

/-- **One token more.** -/
theorem Shown.step (h : Shown p cs) (hnext : p.step l.token = some next) :
    Shown next (cs ++ l.chars) := by
  cases h with
  | value h => exact h.beginValue hnext
  | @firstItem outer cs before h =>
      by_cases ht : l.token = .closeArray
      · rw [ht] at hnext
        obtain rfl := Option.some.inj hnext
        rw [Lexeme.chars_of_isMark ht rfl, List.append_assoc, List.append_assoc]
        exact .after (.array ⟨before, l.gap, .none⟩ []) h
      · rw [Position.step_firstItem ht] at hnext
        exact (Opened.array ⟨before, .none, .none⟩ [] h).beginValue hnext
  | @firstName outer cs before h =>
      cases ht : l.token with
      | closeObject =>
          rw [ht] at hnext
          obtain rfl := Option.some.inj hnext
          rw [Lexeme.chars_of_isMark ht rfl, List.append_assoc, List.append_assoc]
          exact .after (.object ⟨before, l.gap, .none⟩ []) h
      | text =>
          rw [ht] at hnext
          obtain rfl := Option.some.inj hnext
          exact h.beginName ⟨before, .none, .none⟩ [] ht
      | _ =>
          rw [ht] at hnext
          exact nomatch hnext
  | @name outer cs frame members h =>
      cases ht : l.token with
      | text =>
          rw [ht] at hnext
          obtain rfl := Option.some.inj hnext
          exact h.beginName frame members ht
      | _ =>
          rw [ht] at hnext
          exact nomatch hnext
  | @colon outer cs frame members label h =>
      cases ht : l.token with
      | colon =>
          rw [ht] at hnext
          obtain rfl := Option.some.inj hnext
          rw [Lexeme.chars_of_isMark ht rfl, List.append_assoc, ← List.append_assoc label.chars]
          exact .value (.object frame members (label.pad l.gap) h)
      | _ =>
          rw [ht] at hnext
          exact nomatch hnext
  | @after outer cs q h =>
      rw [List.append_assoc]
      exact h.continueAfter q hnext

/-- What the characters show after several tokens. -/
theorem Shown.run {row : List Lexeme} (h : Shown p cs)
    (hnext : p.run (row.map Lexeme.token) = some next) :
    Shown next (cs ++ row.flatMap Lexeme.chars) := by
  induction row generalizing p cs with
  | nil =>
      obtain rfl := Option.some.inj hnext
      rwa [List.flatMap_nil, List.append_nil]
  | cons l row ih =>
      rw [List.map_cons, Position.run_cons] at hnext
      obtain ⟨q, hstep, hrun⟩ := Option.bind_eq_some_iff.1 hnext
      rw [List.flatMap_cons, ← List.append_assoc]
      exact ih (h.step hstep) hrun

/-- **Every text that can be read is the text of a phrase.** -/
theorem exists_phrase {text : String} (h : parse? text = some j) :
    ∃ p : Phrase, p.text = text ∧ p.value = j := by
  obtain ⟨ts, hts, htree⟩ := Option.bind_eq_some_iff.1 h
  obtain ⟨next, hrun, hcomplete⟩ := Option.bind_eq_some_iff.1 htree
  obtain ⟨row, ws, hchars, hws, rfl⟩ := exists_lexemes hts
  have hshown : Shown next (row.flatMap Lexeme.chars) := (Shown.value .outside).run hrun
  generalize row.flatMap Lexeme.chars = shown at hchars hshown
  cases hshown with
  | @after outer cs p hopened =>
      cases hopened with
      | outside =>
          obtain rfl := Option.some.inj hcomplete
          refine ⟨p.pad ⟨ws, hws⟩, ?_, p.value_pad _⟩
          rw [Phrase.text, Phrase.chars_pad, ← String.ofList_toList (s := text), hchars]
          rfl
      | array | object => exact nomatch hcomplete
  | value | firstItem | firstName | name | colon => exact nomatch hcomplete

end Json

end TapeMachine
