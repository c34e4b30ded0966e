/-
**The same data, written in another way.**

A record is read from an object whatever the order of its members and whatever other members it has,
and from the array of its fields; a name stands for a choice by itself and as a member with nothing;
a field that may be absent may be null; and white space between tokens is nothing.  Each of these is
a change of a text (`Rewrites`), in one place of it, which may lie within any number of records,
lists and choices (`Place`).  None of them changes the normal form of the value in that place
(`Alters.normal_eq`), and the normal form of the whole is made from the one in the place
(`Place.exists_bind`).  So the data that is read stays the same.

The second occurrence of a field is no such change: there is then no normal form in the place, and
so none of the whole.

Main definitions:

* `TapeMachine.Alters` — another way of writing a value;
* `TapeMachine.Place` — a place in a text, with the form of what stands there;
* `TapeMachine.Rewrites`, `TapeMachine.Doubles` — the changes of a text.

Main results:

* `TapeMachine.Place.exists_bind` — **the whole depends on the normal form of the part**;
* `TapeMachine.presentation_immaterial` — **the data of each type does not depend on the way in
  which it is written**.
-/

import Mathlib.Logic.Relation
import TapeMachine.Proofs.Forms
import TapeMachine.Proofs.Phrases

set_option relaxedAutoImplicit false
set_option autoImplicit false

namespace TapeMachine

/-! ### The fields of an object -/

namespace Json

variable {members members' : List (Option String × Json)} {name : String} {j : Json}

theorem field?_perm (h : members.Perm members') (name : String) :
    field? members name = field? members' name := by
  have hnamed : (membersNamed name members).Perm (membersNamed name members') := h.filter _
  unfold field?
  match hm : membersNamed name members, hm' : membersNamed name members' with
  | [], _ =>
      rw [hm, hm'] at hnamed
      rw [hnamed.nil_eq]
  | [m], _ =>
      rw [hm, hm'] at hnamed
      rw [← List.singleton_perm.1 hnamed]
  | _ :: _ :: _, _ :: _ :: _ => rfl
  | _ :: _ :: _, [] | _ :: _ :: _, [_] =>
      rw [hm, hm'] at hnamed
      exact absurd hnamed.length_eq (by simp)

theorem field?_cons_of_ne {m : Option String × Json} (h : m.1 ≠ some name) :
    field? (m :: members) name = field? members name := by
  unfold field? membersNamed
  rw [List.filter_cons_of_neg (by simpa using h)]

theorem field?_cons_self :
    field? ((some name, j) :: members) name =
      if (membersNamed name members).isEmpty then some (some j) else none := by
  have hnamed : membersNamed name ((some name, j) :: members) =
      (some name, j) :: membersNamed name members := by
    rw [membersNamed, List.filter_cons_of_pos (by simp)]
    rfl
  rw [field?, hnamed]
  cases membersNamed name members <;> rfl

theorem field?_of_membersNamed (h : membersNamed name members = []) :
    field? members name = some none := by
  rw [field?, h]

/-- A field that is given once is what its member says. -/
theorem field?_of_mem {o : Option Json} (h : (some name, j) ∈ members)
    (hfield : field? members name = some o) : o = some j := by
  have hnamed : (some name, j) ∈ membersNamed name members :=
    List.mem_filter.2 ⟨h, decide_eq_true rfl⟩
  unfold field? at hfield
  match hm : membersNamed name members with
  | [] =>
      rw [hm] at hnamed
      exact nomatch hnamed
  | [m] =>
      rw [hm] at hnamed hfield
      obtain rfl := List.mem_singleton.1 hnamed
      exact (Option.some.inj hfield).symm
  | _ :: _ :: _ =>
      rw [hm] at hfield
      exact nomatch hfield

end Json

namespace Form

variable {fields : List (String × Form)} {form : Form}
  {members members' : List (Option String × Json)} {name : String} {j : Json}

theorem entry_cons_of_ne {m : Option String × Json} {f : String × Form} (h : m.1 ≠ some f.1) :
    entry (m :: members) f = entry members f := by
  rw [entry, Json.field?_cons_of_ne h, entry]

/-- The field comes to what its one member comes to. -/
theorem entry_cons_self :
    entry ((some name, j) :: members) (name, form) =
      if (Json.membersNamed name members).isEmpty then form.normal j else none := by
  rw [entry, Json.field?_cons_self]
  split
  · rw [Option.bind_some, given_some, Option.bind_some]
  · rfl

/-- **The order of the members does not matter.** -/
theorem normal_perm (h : members.Perm members') :
    (record fields).normal (.object members) = (record fields).normal (.object members') := by
  have hentry : entry members = entry members' := funext fun f => by
    rw [entry, Json.field?_perm h, entry]
  rw [normal_object, normal_object, h.all_eq, hentry]

/-- A member may be looked at first. -/
theorem normal_middle (before after : List (Option String × Json)) (m : Option String × Json) :
    (record fields).normal (.object (before ++ m :: after)) =
      (record fields).normal (.object (m :: (before ++ after))) :=
  normal_perm List.perm_middle

/-- Fields of other names do not look at a member. -/
theorem mapM_entry_cons (h : name ∉ fields.map Prod.fst) (j : Json) :
    fields.mapM (entry ((some name, j) :: members)) = fields.mapM (entry members) := by
  induction fields with
  | nil => rfl
  | cons f fields ih =>
      obtain ⟨hf, hrest⟩ := not_or.1 (fun h' => h (List.mem_cons.2 h'))
      have hne : some name ≠ some f.1 := fun heq => hf (Option.some.inj heq)
      rw [List.mapM_cons, List.mapM_cons, ih hrest, entry_cons_of_ne hne]

/-- **A member that no field is called after does not matter.** -/
theorem normal_cons_of_notMem (h : name ∉ fields.map Prod.fst)
    (members : List (Option String × Json)) (j : Json) :
    (record fields).normal (.object ((some name, j) :: members)) =
      (record fields).normal (.object members) := by
  rw [normal_object, normal_object, mapM_entry_cons h, List.all_cons]
  rfl

/-- What several items come to is made from what one of them comes to. -/
theorem mapM_middle {α β : Type} (f : α → Option β) (before after : List α) (a : α) :
    (before ++ a :: after).mapM f =
      (f a).bind fun b =>
        (before.mapM f).bind fun bs => (after.mapM f).map fun cs => bs ++ b :: cs := by
  rw [List.mapM_append, List.mapM_cons, Option.bind_comm]
  cases before.mapM f <;> cases f a <;> cases after.mapM f <;> rfl

/-- A list depends on the normal form of an item. -/
theorem exists_bind_list (form : Form) (before after : List Json) :
    ∃ K : Json → Option Json, ∀ j,
      (list form).normal (.array (before ++ j :: after)) = (form.normal j).bind K := by
  have hwhole (j : Json) :=
    congrArg (Option.map Json.array) (mapM_middle form.normal before after j)
  exact ⟨_, fun j => (hwhole j).trans Option.map_bind⟩

/-- A name with something under it depends on the normal form of that. -/
theorem exists_bind_tagged (units : List String) (tag : String) (form : Form) :
    ∃ K : Json → Option Json, ∀ j,
      (tagged units tag form).normal (.object [(some tag, j)]) = (form.normal j).bind K := by
  refine ⟨fun n => some (.object [(some tag, n)]), fun j => ?_⟩
  have hunder : under? tag (.object [(some tag, j)]) = some j := if_pos rfl
  rw [normal, hunder]
  exact Option.map_eq_bind

/-- Several fields depend on the normal form of one of them. -/
theorem exists_bind_normalEach {before : List (String × Form)} {js : List Json}
    (hlength : js.length = before.length) (name : String) (form : Form)
    (after : List (String × Form)) (js' : List Json) :
    ∃ K : Json → Option (List Json), ∀ j,
      normalEach (before ++ (name, form) :: after) (js ++ j :: js') = (form.normal j).bind K := by
  induction before generalizing js with
  | nil =>
      obtain rfl := List.length_eq_zero_iff.1 hlength
      exact ⟨_, fun j => rfl⟩
  | cons f before ih =>
      obtain ⟨name', form'⟩ := f
      cases js with
      | nil => exact nomatch hlength
      | cons j' js =>
          obtain ⟨K, hK⟩ := ih (Nat.succ.inj hlength)
          refine ⟨fun n => (form'.normal j').bind fun n' => (K n).map fun ns => n' :: ns,
            fun j => ?_⟩
          rw [List.cons_append, List.cons_append, normalEach, hK, Option.bind_comm]
          cases form.normal j <;> cases form'.normal j' <;> rfl

/-- A record that is written as an array depends on the normal form of a field. -/
theorem exists_bind_array {before : List (String × Form)} {js : List Json}
    (hlength : js.length = before.length) (name : String) (form : Form)
    (after : List (String × Form)) (js' : List Json) :
    ∃ K : Json → Option Json, ∀ j,
      (record (before ++ (name, form) :: after)).normal (.array (js ++ j :: js')) =
        (form.normal j).bind K := by
  obtain ⟨K, hK⟩ := exists_bind_normalEach hlength name form after js'
  refine ⟨fun n => (K n).map .array, fun j => ?_⟩
  rw [normal_array, hK, Option.map_bind]
  rfl

/-- The fields include one called `name`, of the given form, and no other of that name. -/
def HasField (fields : List (String × Form)) (name : String) (form : Form) : Prop :=
  ∃ before after, fields = before ++ (name, form) :: after ∧
    name ∉ before.map Prod.fst ∧ name ∉ after.map Prod.fst

/-- **A null for a field that may be absent does not matter**, unless the field is given twice. -/
theorem normal_of_cons_null {n : Json} (h : HasField fields name .optional)
    (hn : (record fields).normal (.object ((some name, .null) :: members)) = some n) :
    (record fields).normal (.object members) = some n := by
  obtain ⟨fs, fs', rfl, hfs, hfs'⟩ := h
  rw [normal_object, mapM_middle, mapM_entry_cons hfs, mapM_entry_cons hfs', entry_cons_self] at hn
  by_cases hempty : (Json.membersNamed name members).isEmpty = true
  · have habsent : entry members (name, .optional) = some .null := by
      rw [entry, Json.field?_of_membersNamed (List.isEmpty_iff.1 hempty)]
      rfl
    rw [if_pos hempty] at hn
    rw [normal_object, mapM_middle, habsent]
    exact hn
  · rw [if_neg hempty, Option.bind_none, Option.map_none, ite_self] at hn
    exact absurd hn.symm (Option.some_ne_none n)

/-- A record with two members for one of its fields has no normal form. -/
theorem normal_of_twice {before after : List (Option String × Json)}
    (hname : name ∈ fields.map Prod.fst) (htwice : ∃ m ∈ before ++ after, m.1 = some name) :
    (record fields).normal (.object (before ++ (some name, j) :: after)) = none := by
  obtain ⟨m, hm, hmname⟩ := htwice
  have hnamed : ¬(Json.membersNamed name (before ++ after)).isEmpty = true := by
    rw [List.isEmpty_iff]
    exact List.ne_nil_of_mem (List.mem_filter.2 ⟨hm, decide_eq_true hmname⟩)
  obtain ⟨⟨name', form⟩, hf, rfl⟩ := List.mem_map.1 hname
  obtain ⟨fs, fs', rfl⟩ := List.append_of_mem hf
  rw [normal_middle, normal_object, mapM_middle, entry_cons_self, if_neg hnamed, Option.bind_none]
  exact ite_self _

/-- A record that is written as an object depends on the normal form of a field. -/
theorem HasField.exists_bind (h : HasField fields name form)
    (before after : List (Option String × Json)) :
    ∃ K : Json → Option Json, ∀ j,
      (record fields).normal (.object (before ++ (some name, j) :: after)) =
        (form.normal j).bind K := by
  obtain ⟨fs, fs', rfl, hfs, hfs'⟩ := h
  -- whether another member has the name does not depend on what this one says
  by_cases hempty : (Json.membersNamed name (before ++ after)).isEmpty = true
  · refine ⟨fun n => if (before ++ after).all fun m => m.1.isSome then
      ((fs.mapM (entry (before ++ after))).bind fun ns =>
        (fs'.mapM (entry (before ++ after))).map fun ns' => ns ++ n :: ns').map .array
      else none, fun j => ?_⟩
    rw [normal_middle, normal_object, mapM_middle, mapM_entry_cons hfs, mapM_entry_cons hfs',
      entry_cons_self, if_pos hempty, List.all_cons]
    cases form.normal j with
    | none => exact ite_self _
    | some n => rfl
  · refine ⟨fun _ => none, fun j => ?_⟩
    rw [normal_middle, normal_object, mapM_middle, entry_cons_self, if_neg hempty,
      Option.bind_fun_none]
    exact ite_self _

end Form

/-! ### Places in a text -/

open Json (Phrase Label Frame Scalar)

/-- A place in a text of the form `outer`, where something of the form `inner` stands: the whole
text as a function of what stands there. -/
inductive Place : Form → Form → (Phrase → Phrase) → Prop
  /-- The whole. -/
  | here (form : Form) : Place form form id
  /-- Within an item of a list. -/
  | item {form inner : Form} {C : Phrase → Phrase} (frame : Frame) (before after : List Phrase) :
      Place form inner C →
        Place (.list form) inner fun p => .array frame (before ++ C p :: after)
  /-- Within what stands under a name. -/
  | content {units : List String} {tag : String} {form inner : Form} {C : Phrase → Phrase}
      (frame : Frame) {label : Label} : label.name = some tag →
      Place form inner C →
        Place (.tagged units tag form) inner fun p => .object frame [(label, C p)]
  /-- Within a field of a record that is written as an object. -/
  | member {fields : List (String × Form)} {name : String} {form inner : Form}
      {C : Phrase → Phrase} (frame : Frame) (before after : List (Label × Phrase)) {label : Label} :
      label.name = some name → Form.HasField fields name form →
      Place form inner C →
        Place (.record fields) inner fun p => .object frame (before ++ (label, C p) :: after)
  /-- Within a field of a record that is written as an array. -/
  | entry {fields fields' : List (String × Form)} {name : String} {form inner : Form}
      {C : Phrase → Phrase} (frame : Frame) {before : List Phrase} (after : List Phrase) :
      before.length = fields.length →
      Place form inner C →
        Place (.record (fields ++ (name, form) :: fields')) inner
          fun p => .array frame (before ++ C p :: after)

/-- **The whole depends on the normal form of the part.** -/
theorem Place.exists_bind {outer inner : Form} {C : Phrase → Phrase} (h : Place outer inner C) :
    ∃ K : Json → Option Json, ∀ p, outer.normal (C p).value = (inner.normal p.value).bind K := by
  induction h with
  | here form => exact ⟨some, fun p => (Option.bind_fun_some _).symm⟩
  | @item form inner C frame before after hplace ih =>
      obtain ⟨K, hK⟩ := ih
      obtain ⟨K', hK'⟩ := Form.exists_bind_list form (before.map Phrase.value)
        (after.map Phrase.value)
      refine ⟨fun n => (K n).bind K', fun p => ?_⟩
      rw [Phrase.value_array, List.map_append, List.map_cons, hK', hK, Option.bind_assoc]
  | @content units tag form inner C frame label hlabel hplace ih =>
      obtain ⟨K, hK⟩ := ih
      obtain ⟨K', hK'⟩ := Form.exists_bind_tagged units tag form
      refine ⟨fun n => (K n).bind K', fun p => ?_⟩
      rw [Phrase.value_object, List.map_singleton, Phrase.valueOfMember, hlabel, hK', hK,
        Option.bind_assoc]
  | @member fields name form inner C frame before after label hlabel hfield hplace ih =>
      obtain ⟨K, hK⟩ := ih
      obtain ⟨K', hK'⟩ := hfield.exists_bind (before.map Phrase.valueOfMember)
        (after.map Phrase.valueOfMember)
      refine ⟨fun n => (K n).bind K', fun p => ?_⟩
      rw [Phrase.value_object, List.map_append, List.map_cons, Phrase.valueOfMember, hlabel, hK',
        hK, Option.bind_assoc]
  | @entry fields fields' name form inner C frame before after hlength hplace ih =>
      obtain ⟨K, hK⟩ := ih
      have hvalues : (before.map Phrase.value).length = fields.length := by
        rw [List.length_map, hlength]
      obtain ⟨K', hK'⟩ := Form.exists_bind_array hvalues name form fields'
        (after.map Phrase.value)
      refine ⟨fun n => (K n).bind K', fun p => ?_⟩
      rw [Phrase.value_array, List.map_append, List.map_cons, hK', hK, Option.bind_assoc]

/-! ### Other ways of writing a value -/

/-- What stands for a field in the array of the fields of an object: its member, or null where the
field may be absent and is. -/
inductive Stands (members : List (Label × Phrase)) : String × Form → Phrase → Prop
  | present {name : String} {form : Form} {label : Label} {p : Phrase} :
      (label, p) ∈ members → label.name = some name → Stands members (name, form) p
  | absent {name : String} {p : Phrase} :
      (∀ m ∈ members, m.1.name ≠ some name) → p.value = .null → Stands members (name, .optional) p

/-- Another way of writing a value of a form. -/
inductive Alters : Form → Phrase → Phrase → Prop
  /-- The members of a record in another order. -/
  | permuted {fields : List (String × Form)} {frame : Frame}
      {members members' : List (Label × Phrase)} :
      members.Perm members' →
        Alters (.record fields) (.object frame members) (.object frame members')
  /-- One more member, which is no field. -/
  | added {fields : List (String × Form)} {frame : Frame} {before after : List (Label × Phrase)}
      {label : Label} {p : Phrase} {name : String} :
      label.name = some name → name ∉ fields.map Prod.fst →
        Alters (.record fields) (.object frame (before ++ after))
          (.object frame (before ++ (label, p) :: after))
  /-- Without a null for a field that may be absent. -/
  | dropped {fields : List (String × Form)} {frame : Frame} {before after : List (Label × Phrase)}
      {label : Label} {p : Phrase} {name : String} :
      label.name = some name → Form.HasField fields name .optional → p.value = .null →
        Alters (.record fields) (.object frame (before ++ (label, p) :: after))
          (.object frame (before ++ after))
  /-- The array of the fields. -/
  | asArray {fields : List (String × Form)} {frame : Frame} {members : List (Label × Phrase)}
      {items : List Phrase} :
      List.Forall₂ (Stands members) fields items →
        Alters (.record fields) (.object frame members) (.array frame items)
  /-- A name with nothing under it, in place of a name. -/
  | unit {units : List String} {name : String} {s : Scalar} {frame : Frame} {label : Label}
      {p : Phrase} :
      name ∈ units → s.value = .ofString name → label.name = some name → p.value = .null →
        Alters (.choice units) (.scalar s) (.object frame [(label, p)])
  /-- The same where other names have something under them. -/
  | taggedUnit {units : List String} {tag name : String} {form : Form} {s : Scalar} {frame : Frame}
      {label : Label} {p : Phrase} :
      name ∈ units → name ≠ tag → s.value = .ofString name → label.name = some name →
        p.value = .null →
        Alters (.tagged units tag form) (.scalar s) (.object frame [(label, p)])

/-- What stands for a field in the array has the normal form of the field. -/
theorem Stands.normal_eq {members : List (Label × Phrase)} {f : String × Form} {item : Phrase}
    {n : Json} (h : Stands members f item)
    (hn : Form.entry (members.map Phrase.valueOfMember) f = some n) :
    f.2.normal item.value = some n := by
  obtain ⟨j, hj, hnormal⟩ := Option.bind_eq_some_iff.1 hn
  obtain ⟨o, ho, hgiven⟩ := Option.bind_eq_some_iff.1 hj
  cases h with
  | @present name form label p hmem hname =>
      have hvalue : (some name, item.value) ∈ members.map Phrase.valueOfMember :=
        List.mem_map.2 ⟨(label, item), hmem, by rw [Phrase.valueOfMember, hname]⟩
      rw [Json.field?_of_mem hvalue ho, Form.given_some] at hgiven
      rw [Option.some.inj hgiven, hnormal]
  | @absent name p habsent hnull =>
      have hnamed : Json.membersNamed name (members.map Phrase.valueOfMember) = [] := by
        refine List.filter_eq_nil_iff.2 fun m hm => ?_
        obtain ⟨m', hm', rfl⟩ := List.mem_map.1 hm
        exact fun hname => habsent m' hm' (of_decide_eq_true hname)
      rw [Json.field?_of_membersNamed hnamed] at ho
      obtain rfl := Option.some.inj ho
      obtain rfl := Option.some.inj hgiven
      rw [hnull, hnormal]

/-- What stands for the fields in the array has the normal forms of the fields. -/
theorem normalEach_of_stands {members : List (Label × Phrase)} {fields : List (String × Form)}
    {items : List Phrase} {ns : List Json} (h : List.Forall₂ (Stands members) fields items)
    (hns : fields.mapM (Form.entry (members.map Phrase.valueOfMember)) = some ns) :
    Form.normalEach fields (items.map Phrase.value) = some ns := by
  induction h generalizing ns with
  | nil => exact hns
  | @cons f item fields items hstands hrest ih =>
      obtain ⟨name, form⟩ := f
      rw [List.mapM_cons] at hns
      obtain ⟨n, hn, hothers⟩ := Option.bind_eq_some_iff.1 hns
      obtain ⟨ns', hns', hcons⟩ := Option.bind_eq_some_iff.1 hothers
      obtain rfl := Option.some.inj hcons
      rw [List.map_cons, Form.normalEach, hstands.normal_eq hn, Option.bind_some, ih hns']
      rfl

/-- **Another way of writing a value does not change its normal form.** -/
theorem Alters.normal_eq {form : Form} {p q : Phrase} {n : Json} (h : Alters form p q)
    (hn : form.normal p.value = some n) : form.normal q.value = some n := by
  cases h with
  | permuted hperm =>
      rw [← hn, Phrase.value_object, Phrase.value_object]
      exact (Form.normal_perm (hperm.map Phrase.valueOfMember)).symm
  | @added fields frame before after label p name hlabel hname =>
      rw [← hn, Phrase.value_object, Phrase.value_object, List.map_append, List.map_cons,
        Form.normal_middle, Phrase.valueOfMember, hlabel, Form.normal_cons_of_notMem hname,
        List.map_append]
  | @dropped fields frame before after label p name hlabel hfield hnull =>
      rw [Phrase.value_object, List.map_append, List.map_cons, Form.normal_middle,
        Phrase.valueOfMember, hlabel, hnull] at hn
      rw [Phrase.value_object, List.map_append]
      exact Form.normal_of_cons_null hfield hn
  | @asArray fields frame members items hitems =>
      rw [Phrase.value_object, Form.normal_object] at hn
      split at hn
      · obtain ⟨ns, hns, rfl⟩ := Option.map_eq_some_iff.1 hn
        rw [Phrase.value_array, Form.normal_array, normalEach_of_stands hitems hns]
        rfl
      · exact absurd hn.symm (Option.some_ne_none n)
  | @unit units name s frame label p hname hs hlabel hp =>
      rw [Phrase.value_scalar, hs] at hn
      rw [Phrase.value_object, List.map_singleton, Phrase.valueOfMember, hlabel, hp]
      exact hn
  | @taggedUnit units tag name form s frame label p hname htag hs hlabel hp =>
      have hunder : Form.under? tag (.object [(some name, .null)]) = none :=
        if_neg fun heq => htag (Option.some.inj heq)
      rw [Phrase.value_scalar, hs] at hn
      rw [Phrase.value_object, List.map_singleton, Phrase.valueOfMember, hlabel, hp, Form.normal,
        hunder]
      exact hn

/-! ### Changes of a text -/

variable {α : Type} {form : Form} {decode : Json → Option α} {text text' : String}

/-- A change of a text of the form `form`: white space is put in between two tokens or taken out, or
what stands in some place is written in another way. -/
inductive Rewrites (form : Form) : String → String → Prop
  | spaced {cs ws ds : List Char} :
      Json.Between cs ds → ws.all Json.isBlank = true →
        Rewrites form (String.ofList (cs ++ ds)) (String.ofList (cs ++ ws ++ ds))
  | unspaced {cs ws ds : List Char} :
      Json.Between cs ds → ws.all Json.isBlank = true →
        Rewrites form (String.ofList (cs ++ ws ++ ds)) (String.ofList (cs ++ ds))
  | altered {inner : Form} {C : Phrase → Phrase} {p q : Phrase} :
      Place form inner C → Alters inner p q → Rewrites form (C p).text (C q).text

/-- In some place of a text a record gets a second member for one of its fields. -/
inductive Doubles (form : Form) : String → String → Prop
  | doubled {fields : List (String × Form)} {C : Phrase → Phrase} {frame : Frame}
      {before after : List (Label × Phrase)} {label : Label} {p : Phrase} {name : String} :
      Place form (.record fields) C → name ∈ fields.map Prod.fst →
      (∃ m ∈ before ++ after, m.1.name = some name) → label.name = some name →
        Doubles form (C (.object frame (before ++ after))).text
          (C (.object frame (before ++ (label, p) :: after))).text

/-- The data that is read does not depend on the way in which it is written: it stays the same under
any number of changes of the text, and there is none if a field is given twice. -/
def Immaterial (form : Form) (decode : Json → Option α) : Prop :=
  ∀ text a, (Json.parse? text).bind decode = some a →
    (∀ text', Relation.ReflTransGen (Rewrites form) text text' →
      (Json.parse? text').bind decode = some a) ∧
    ∀ text', Doubles form text text' → (Json.parse? text').bind decode = none

/-- White space between tokens does not change what is read. -/
theorem parse?_insert {cs ws ds : List Char} (h : Json.Between cs ds)
    (hws : ws.all Json.isBlank = true) :
    Json.parse? (String.ofList (cs ++ ws ++ ds)) = Json.parse? (String.ofList (cs ++ ds)) := by
  rw [Json.parse?, Json.parse?, String.toList_ofList, String.toList_ofList, h.tokens?_insert hws]

/-- Another way of writing what stands in a place does not change the data of the whole. -/
theorem Place.decode_eq {inner : Form} {C : Phrase → Phrase} {p q : Phrase} {a : α}
    (hreads : form.Reads decode) (hplace : Place form inner C) (halters : Alters inner p q)
    (h : (Json.parse? (C p).text).bind decode = some a) :
    (Json.parse? (C q).text).bind decode = some a := by
  obtain ⟨K, hK⟩ := hplace.exists_bind
  rw [Phrase.parse?_text, Option.bind_some, hreads, hK] at h ⊢
  obtain ⟨n, hn, hdecode⟩ := Option.bind_eq_some_iff.1 h
  obtain ⟨n', hn', hK'⟩ := Option.bind_eq_some_iff.1 hn
  rw [halters.normal_eq hn', Option.bind_some, hK', Option.bind_some, hdecode]

/-- **One change of a text keeps the data.** -/
theorem Rewrites.decode_eq {a : α} (hreads : form.Reads decode) (h : Rewrites form text text')
    (ha : (Json.parse? text).bind decode = some a) : (Json.parse? text').bind decode = some a := by
  cases h with
  | spaced hbetween hws => rw [parse?_insert hbetween hws, ha]
  | unspaced hbetween hws => rw [← parse?_insert hbetween hws, ha]
  | altered hplace halters => exact hplace.decode_eq hreads halters ha

/-- **A field that is given twice leaves no data.** -/
theorem Doubles.decode_eq_none (hreads : form.Reads decode) (h : Doubles form text text') :
    (Json.parse? text').bind decode = none := by
  cases h with
  | @doubled fields C frame before after label p name hplace hname htwice hlabel =>
      obtain ⟨K, hK⟩ := hplace.exists_bind
      have hmembers : ∃ m ∈ before.map Phrase.valueOfMember ++ after.map Phrase.valueOfMember,
          m.1 = some name := by
        obtain ⟨m, hm, hmname⟩ := htwice
        rw [← List.map_append]
        exact ⟨Phrase.valueOfMember m, List.mem_map_of_mem hm, hmname⟩
      rw [Phrase.parse?_text, Option.bind_some, hreads, hK, Phrase.value_object, List.map_append,
        List.map_cons, Phrase.valueOfMember, hlabel, Form.normal_of_twice hname hmembers]
      rfl

/-- **Data that is read from the normal form does not depend on the way in which it is written**, by
induction on the changes. -/
theorem immaterial_of_reads (hreads : form.Reads decode) : Immaterial form decode := by
  intro text a ha
  refine ⟨fun text' hsteps => ?_, fun text' hdoubles => hdoubles.decode_eq_none hreads⟩
  induction hsteps with
  | refl => exact ha
  | tail hsteps hlast ih => exact hlast.decode_eq hreads ih

/-- **The data of each type does not depend on the way in which it is written.** -/
theorem presentation_immaterial :
    (∀ text j, Json.parse? text = some j → ∃ p : Phrase, p.text = text ∧ p.value = j) ∧
      Immaterial State.form State.ofJson? ∧ Immaterial Rule.form Rule.ofJson? ∧
      Immaterial Tape.form Tape.ofJson? ∧ Immaterial Bounds.form Bounds.ofJson? ∧
      Immaterial Profile.form Profile.ofJson? ∧ Immaterial Program.form Program.ofJson? ∧
      Immaterial Outcome.form Outcome.ofJson? := by
  exact ⟨fun text j h => Json.exists_phrase h, immaterial_of_reads State.reads,
    immaterial_of_reads Rule.reads, immaterial_of_reads Tape.reads,
    immaterial_of_reads Bounds.reads, immaterial_of_reads Profile.reads,
    immaterial_of_reads Program.reads, immaterial_of_reads Outcome.reads⟩

/-! ### A program in two presentations -/

/-- A text in two pieces. -/
theorem Json.ofList_append {cs ds : List Char} {s t : String} (hs : String.ofList cs = s)
    (ht : String.ofList ds = t) : String.ofList (cs ++ ds) = s ++ t := by
  rw [String.ofList_append, hs, ht]

/-- A text of one token. -/
def Json.Phrase.ofToken (t : Json.Token) (j : Json) (h : t.isWellSpelled = true)
    (hj : t.scalar? = some j) : Phrase :=
  .scalar ⟨t.spelling, j, t, Json.tokens?_spelling h, hj⟩

/-- A quoted text. -/
def Json.Phrase.quoted (s : String) : Phrase := ofToken (.text (some s)) (.ofString s) rfl rfl

/-- A truth value. -/
def Json.Phrase.ofBool (b : Bool) : Phrase := ofToken (.bool b) (.bool b) rfl rfl

/-- The null. -/
def Json.Phrase.null : Phrase := ofToken .null .null rfl rfl

namespace Program

open Json.Phrase (quoted ofBool ofToken null)

/-- A program with one rule. -/
def once : Program :=
  (unbounded [⟨State.start "q", '0', State.accepting "r", '1', .right⟩] ⟨['0']⟩ 0).withName "once"

/-- A text of the program, with its fields in their order and a null for the cap. -/
def onceText : String :=
  "\x7b\"name\":\"once\",\"profile\":\"Unbounded\",\"rules\":[\x7b\"current_state\":[\"q\"," ++
  "true,false],\"read_symbol\":\"0\",\"next_state\":[\"r\",false,true],\"write_symbol\":\"1\"," ++
  "\"direction\":\"Right\"\x7d],\"tape\":[[\"0\"]],\"head\":0,\"blank\":\"_\"," ++
  "\"max_steps\":null\x7d"

/-- A text of the program without a cap and with a note, with its fields from the last to the first,
a space, and an object for the direction of the rule. -/
def onceText' : String :=
  "\x7b \"note\":[null],\"blank\":\"_\",\"head\":0,\"tape\":[[\"0\"]],\"rules\":[\x7b" ++
  "\"current_state\":[\"q\",true,false],\"read_symbol\":\"0\",\"next_state\":[\"r\",false,true]," ++
  "\"write_symbol\":\"1\",\"direction\":\x7b\"Right\":null\x7d\x7d],\"profile\":\"Unbounded\"," ++
  "\"name\":\"once\"\x7d"

/-- A text in which the rule has two directions. -/
def onceTwice : String :=
  "\x7b\"name\":\"once\",\"profile\":\"Unbounded\",\"rules\":[\x7b\"current_state\":[\"q\"," ++
  "true,false],\"read_symbol\":\"0\",\"next_state\":[\"r\",false,true],\"write_symbol\":\"1\"," ++
  "\"direction\":\"Right\",\"direction\":\"Right\"\x7d],\"tape\":[[\"0\"]],\"head\":0," ++
  "\"blank\":\"_\",\"max_steps\":null\x7d"

/-- The members of the rule before its direction. -/
def onceRule : List (Label × Phrase) :=
  [(.ofString "current_state", .array .tight [quoted "q", ofBool true, ofBool false]),
    (.ofString "read_symbol", quoted "0"),
    (.ofString "next_state", .array .tight [quoted "r", ofBool false, ofBool true]),
    (.ofString "write_symbol", quoted "1")]

/-- The member for the direction of the rule. -/
def onceDirection (direction : Phrase) : Label × Phrase := (.ofString "direction", direction)

/-- The members of the program before its rules. -/
def onceBefore : List (Label × Phrase) :=
  [(.ofString "name", quoted "once"), (.ofString "profile", quoted "Unbounded")]

/-- The member for the rules of the program. -/
def onceRules (rule : Phrase) : Label × Phrase :=
  (.ofString "rules", .array .tight ([] ++ [rule]))

/-- The members of the program after its rules, without its cap. -/
def onceAfter : List (Label × Phrase) :=
  [(.ofString "tape", .array .tight [.array .tight [quoted "0"]]),
    (.ofString "head", ofToken (.natural 0) (.natural 0) rfl rfl), (.ofString "blank", quoted "_")]

/-- The member for the cap of the program. -/
def onceCap : Label × Phrase := (.ofString "max_steps", null)

/-- The members of the program, given those of the rule from its direction on. -/
def onceMembers (direction : List (Label × Phrase)) : List (Label × Phrase) :=
  onceBefore ++ onceRules (.object .tight (onceRule ++ direction)) :: onceAfter

/-- The direction of the rule as a name. -/
def onceRight : Phrase := quoted "Right"

/-- The direction of the rule as a name with nothing under it. -/
def onceRight' : Phrase := .object .tight [(.ofString "Right", null)]

/-- A member that is no field. -/
def onceNote : Label × Phrase := (.ofString "note", .array .tight [null])

/-- The members of the second text after the note. -/
def onceBackwards : List (Label × Phrase) := (onceMembers [onceDirection onceRight']).reverse

section

-- the texts are compared symbol by symbol, in the pieces in which they are given
set_option maxRecDepth 8000

theorem text_once :
    (Phrase.object .tight (onceMembers [onceDirection onceRight] ++ [onceCap])).text = onceText := by
  refine (congrArg String.ofList ?_).trans
    (Json.ofList_append (Json.ofList_append (Json.ofList_append rfl rfl) rfl) rfl)
  rfl

theorem text_onceBackwards :
    String.ofList (['\x7b'] ++ [' '] ++
      (Phrase.object .tight (onceNote :: onceBackwards)).chars.tail) = onceText' := by
  refine (congrArg String.ofList ?_).trans
    (Json.ofList_append (Json.ofList_append (Json.ofList_append rfl rfl) rfl) rfl)
  rfl

theorem text_onceTwice :
    (Phrase.object .tight
      (onceMembers [onceDirection onceRight, onceDirection onceRight] ++ [onceCap])).text =
      onceTwice := by
  refine (congrArg String.ofList ?_).trans
    (Json.ofList_append (Json.ofList_append (Json.ofList_append rfl rfl) rfl) rfl)
  rfl

/-- What stands in a place of the rule stands in a place of the program. -/
theorem place_once {inner : Form} {C : Phrase → Phrase} (h : Place Rule.form inner C)
    (more : List (Label × Phrase)) :
    Place Program.form inner fun p =>
      .object .tight (onceBefore ++ onceRules (C p) :: (onceAfter ++ more)) := by
  refine .member .tight onceBefore (onceAfter ++ more) rfl ?_ (.item .tight [] [] h)
  exact ⟨[_, _], _, rfl, by decide, by decide⟩

/-- The direction stands in a place of the rule. -/
theorem place_onceDirection :
    Place Rule.form Direction.form fun p => .object .tight (onceRule ++ onceDirection p :: []) := by
  refine .member .tight onceRule [] rfl ?_ (.here Direction.form)
  exact ⟨[_, _, _, _], _, rfl, by decide, by decide⟩

/-- **The second text is made from the first one** in five changes. -/
theorem rewrites_once : Relation.ReflTransGen (Rewrites Program.form) onceText onceText' := by
  rw [← text_once, ← text_onceBackwards]
  have hdropped : Rewrites Program.form
      (Phrase.object .tight (onceMembers [onceDirection onceRight] ++ [onceCap])).text
      (Phrase.object .tight (onceMembers [onceDirection onceRight] ++ [])).text := by
    refine .altered (.here _) (.dropped rfl ?_ rfl)
    exact ⟨[_, _, _, _, _, _], _, rfl, by decide, by decide⟩
  have hunit := Rewrites.altered (place_once place_onceDirection [])
    (Alters.unit (by decide) rfl rfl rfl : Alters Direction.form onceRight onceRight')
  have hpermuted : Rewrites Program.form
      (Phrase.object .tight (onceMembers [onceDirection onceRight'])).text
      (Phrase.object .tight onceBackwards).text :=
    .altered (.here _) (.permuted (List.reverse_perm _).symm)
  have hadded : Rewrites Program.form (Phrase.object .tight ([] ++ onceBackwards)).text
      (Phrase.object .tight ([] ++ onceNote :: onceBackwards)).text :=
    .altered (.here _) (.added rfl (by decide))
  have hbetween : Json.Between ['\x7b']
      (Phrase.object .tight (onceNote :: onceBackwards)).chars.tail :=
    .of_mark rfl ((Phrase.object .tight (onceNote :: onceBackwards)).tokens?_chars .compact [] 0)
  have hspaced := @Rewrites.spaced Program.form _ [' '] _ hbetween rfl
  exact ((((Relation.ReflTransGen.single hdropped).tail hunit).tail hpermuted).tail hadded).tail
    hspaced

/-- **The third text is made from the first one** by a second direction of the rule. -/
theorem doubles_once : Doubles Program.form onceText onceTwice := by
  rw [← text_once, ← text_onceTwice]
  have hfield : "direction" ∈ ["current_state", "read_symbol", "next_state", "write_symbol",
      "direction"] := by decide
  have hfirst : onceDirection onceRight ∈ onceRule ++ [onceDirection onceRight] ++ [] := by simp
  have hlabel : (Label.ofString "direction").name = some "direction" := rfl
  exact @Doubles.doubled _ _ _ .tight _ _ _ onceRight _ (place_once (.here Rule.form) [onceCap])
    hfield ⟨_, hfirst, rfl⟩ hlabel

end

end Program

open Program in
/-- A program with one rule: as it may be written; from its last member to its first, without its
cap, with a note and a space, and with an object for the direction of its rule; and with two
directions of the rule. -/
theorem presentation_immaterial_of_one_rule :
    (Json.parse? onceText).bind Program.ofJson? = some once ∧
      (Json.parse? onceText').bind Program.ofJson? = some once ∧
      (Json.parse? onceTwice).bind Program.ofJson? = none := by
  obtain ⟨-, -, -, -, -, -, hprogram, -⟩ := presentation_immaterial
  have hread : (Json.parse? onceText).bind Program.ofJson? = some once := by
    rw [← text_once, Phrase.parse?_text]
    rfl
  obtain ⟨hkeeps, hdoubled⟩ := hprogram _ _ hread
  exact ⟨hread, hkeeps _ rewrites_once, hdoubled _ doubles_once⟩

end TapeMachine
