import CallFlow.Proofs.Wire.Document
import CallFlow.Proofs.Wire.Skipping

/-!
# The forms of a type

A type is accepted in three forms, and no other value is a type. Each form is judged by what a text says
and not by how it is written, so the texts of a value are described first: those whose draft is complete
and stands for the value, with any blanks and any escapes. What stands under `String` is skipped, and
all of a complete draft can be skipped, however deep it is and however large its numbers are.

## Main definitions

- `CallFlow.Json.Draft.StandsFor` — a complete draft, and the value of its text
- `CallFlow.Json.IsSpeltBy` — all texts of a value
- `CallFlow.Wire.TypeForm` — the forms in which a type is accepted

## Main statements

- `CallFlow.Json.Draft.StandsFor.skip` — complete drafts can be skipped
- `CallFlow.Json.isSpeltBy_of_isText` — a text that differs in blanks is a text of the value
- `CallFlow.Wire.readValueType_eq_ok_iff` — the drafts that are read as a type
- `CallFlow.Wire.type_accepted_iff` — the texts that are accepted as a type
-/

namespace CallFlow

/-! ## Texts of a value -/

namespace Json

namespace Draft

mutual

/-- The draft is complete and stands for the value. Numbers may be out of range, and arrays and objects
    may be nested deeply. -/
inductive StandsFor : Draft → Json → Prop
  | null : StandsFor .null .null
  | bool (b : Bool) : StandsFor (.bool b) (.bool b)
  | number (n : Number) : StandsFor (.number n) (.number n)
  | string {s : StringLit} {text : String} (h : s.text = .ok text) :
      StandsFor (.string s) (.string text)
  | array {items : List Draft} {js : List Json} (h : ItemsStandFor items js) :
      StandsFor (.array items .closed) (.array js)
  | object {members : List (StringLit × Draft)} {ms : List (String × Json)}
      (h : MembersStandFor members ms) : StandsFor (.object members .closed) (.object ms)

/-- The items of an array stand for values, one for one. -/
inductive ItemsStandFor : List Draft → List Json → Prop
  | nil : ItemsStandFor [] []
  | cons {d : Draft} {items : List Draft} {j : Json} {js : List Json} (hd : StandsFor d j)
      (hitems : ItemsStandFor items js) : ItemsStandFor (d :: items) (j :: js)

/-- The members of an object stand for members, one for one. -/
inductive MembersStandFor : List (StringLit × Draft) → List (String × Json) → Prop
  | nil : MembersStandFor [] []
  | cons {k : StringLit} {v : Draft} {members : List (StringLit × Draft)} {name : String} {j : Json}
      {ms : List (String × Json)} (hk : k.text = .ok name) (hv : StandsFor v j)
      (hmembers : MembersStandFor members ms) : MembersStandFor ((k, v) :: members) ((name, j) :: ms)

end

mutual

/-- A complete draft can be skipped. -/
theorem StandsFor.skip {d : Draft} {j : Json} (h : d.StandsFor j) : d.skip = .ok () := by
  cases h with
  | null => rfl
  | bool b => rfl
  | number n => rfl
  | string h => exact StringLit.skip_of_text h
  | array h => exact skip_array h.skip rfl
  | object h => exact skip_object h.skip rfl

theorem ItemsStandFor.skip {items : List Draft} {js : List Json} (h : ItemsStandFor items js) :
    skipItems items = .ok () := by
  cases h with
  | nil => rfl
  | cons hd hitems => exact skipItems_cons hd.skip hitems.skip

theorem MembersStandFor.skip {members : List (StringLit × Draft)} {ms : List (String × Json)}
    (h : MembersStandFor members ms) : skipMembers members = .ok () := by
  cases h with
  | nil => rfl
  | cons hk hv hmembers =>
    exact skipMembers_cons (StringLit.skip_of_text hk) hv.skip hmembers.skip

end

end Draft

open Draft (StandsFor ItemsStandFor MembersStandFor)

mutual

theorem standsFor_draft (j : Json) : j.draft.StandsFor j := by
  match j with
  | null => exact .null
  | bool b => exact .bool b
  | number n => exact .number n
  | string s => exact .string (StringLit.text_ofString s)
  | array js =>
    rw [draft]
    exact .array (standsFor_itemDrafts js)
  | object ms =>
    rw [draft]
    exact .object (standsFor_memberDrafts ms)

theorem standsFor_itemDrafts (js : List Json) : ItemsStandFor (itemDrafts js) js := by
  match js with
  | [] => exact .nil
  | j :: js =>
    rw [itemDrafts]
    exact .cons (standsFor_draft j) (standsFor_itemDrafts js)

theorem standsFor_memberDrafts (ms : List (String × Json)) :
    MembersStandFor (memberDrafts ms) ms := by
  match ms with
  | [] => exact .nil
  | (k, v) :: ms =>
    rw [memberDrafts]
    exact .cons (StringLit.text_ofString k) (standsFor_draft v) (standsFor_memberDrafts ms)

end

/-- The text spells the value and nothing else, with any blanks and any escapes. -/
def IsSpeltBy (j : Json) (text : String) : Prop :=
  ∃ d : Draft, Draft.ofText text = (d, []) ∧ d.StandsFor j

theorem isSpeltBy_of_isText {j : Json} {text : String} (h : j.IsText text) : j.IsSpeltBy text :=
  ⟨j.draft, ofText_of_isText h, j.standsFor_draft⟩

end Json

/-! ## Types -/

namespace Wire

open Json (Draft)

/-- The forms in which a type is accepted: one member, under `Object` with the identifier or under
    `String` with anything, or the bare string. -/
inductive TypeForm : ValueType → Json → Prop
  | object (id : String) : TypeForm (.object id) (.object [("Object", .string id)])
  | text (content : Json) : TypeForm .text (.object [("String", content)])
  | bareText : TypeForm .text (.string "String")

theorem typeForm_string_iff {t : ValueType} {text : String} :
    TypeForm t (.string text) ↔ text = "String" ∧ t = .text := by
  constructor
  · generalize hj : Json.string text = j
    intro h
    cases h with
    | bareText => exact ⟨Json.string.inj hj, rfl⟩
    | _ => cases hj
  · rintro ⟨rfl, rfl⟩
    exact .bareText

/-- The forms with one member. -/
theorem typeForm_single_iff {t : ValueType} {name : String} {content : Json} :
    TypeForm t (.object [(name, content)]) ↔
      (name = "Object" ∧ ∃ id, content = .string id ∧ .object id = t) ∨
        (name = "String" ∧ .text = t) := by
  constructor
  · generalize hj : Json.object [(name, content)] = j
    intro h
    cases h with
    | object id =>
      obtain ⟨hname, hcontent⟩ := Prod.mk.inj (List.head_eq_of_cons_eq (Json.object.inj hj))
      exact .inl ⟨hname, id, hcontent, rfl⟩
    | text content' =>
      obtain ⟨hname, -⟩ := Prod.mk.inj (List.head_eq_of_cons_eq (Json.object.inj hj))
      exact .inr ⟨hname, rfl⟩
    | bareText => cases hj
  · rintro (⟨rfl, id, rfl, rfl⟩ | ⟨rfl, rfl⟩)
    · exact .object id
    · exact .text content

theorem not_typeForm_of_second {t : ValueType} {m m' : String × Json} {ms : List (String × Json)} :
    ¬TypeForm t (.object (m :: m' :: ms)) := by
  intro h
  cases h

variable {d : Draft} {j : Json} {t : ValueType}

theorem readText_eq_ok_iff (h : d.StandsFor j) {text : String} :
    readText d = .ok text ↔ j = .string text := by
  cases h with
  | @string s found h => rw [readText, h, malformed_ok, Except.ok.injEq, Json.string.injEq]
  | _ => exact iff_of_false (fun h => by cases h) fun h => by cases h

theorem readAlternative_eq_ok_iff (h : d.StandsFor j) {name : String} :
    readAlternative name d = .ok t ↔ TypeForm t (.object [(name, j)]) := by
  rw [typeForm_single_iff, readAlternative]
  split
  · rename_i hobject
    simp only [map_eq_ok, readText_eq_ok_iff h]
    simp [hobject]
  · rename_i hobject
    split
    · rename_i htext
      simp [htext, h.skip, map_eq_ok]
    · rename_i htext
      simp [hobject, htext]

/-- A complete draft is read as a type exactly if its value has a form of the type. -/
theorem readValueType_eq_ok_iff (h : d.StandsFor j) : readValueType d = .ok t ↔ TypeForm t j := by
  cases h with
  | @string s text h =>
    rw [readValueType, h, typeForm_string_iff]
    by_cases htext : text = "String"
    · simp [htext, bind, Except.bind, pure, Except.pure, eq_comm]
    · simp [htext, bind, Except.bind]
  | object h =>
    cases h with
    | nil => exact iff_of_false (fun h => by cases h) fun h => by cases h
    | @cons k v members name j ms hk hv hmembers =>
      cases hmembers with
      | nil =>
        rw [readValueType, hk, ← readAlternative_eq_ok_iff hv]
        cases hread : readAlternative name v with
        | error e => simp [bind, Except.bind, hread]
        | ok type => simp [bind, Except.bind, hread, Json.ObjectStop.check, pure, Except.pure]
      | cons _ _ _ =>
        -- A second member is refused, whatever the first one was read as.
        refine iff_of_false (fun hread => ?_) not_typeForm_of_second
        obtain ⟨_, -, hread⟩ := bind_eq_ok.mp hread
        obtain ⟨_, -, hread⟩ := bind_eq_ok.mp hread
        obtain ⟨_, -, hread⟩ := bind_eq_ok.mp hread
        cases hread
  | _ => exact iff_of_false (fun h => by cases h) fun h => by cases h

/-- The text of a value is accepted as a type exactly if the value has one of the forms of the type,
    whichever way the text is written. -/
theorem type_accepted_iff (j : Json) (t : ValueType) :
    (valueTypeFormat.decode j.compact = .ok t ↔ TypeForm t j) ∧
      ∀ text, j.IsSpeltBy text → (valueTypeFormat.decode text = .ok t ↔ TypeForm t j) := by
  have htexts : ∀ text, j.IsSpeltBy text →
      (valueTypeFormat.decode text = .ok t ↔ TypeForm t j) := by
    rintro text ⟨d, htext, hd⟩
    rw [Format.decode_eq_ok_iff, htext, ← readValueType_eq_ok_iff hd]
    exact and_iff_left rfl
  exact ⟨htexts _ (Json.isSpeltBy_of_isText (Json.isText_render .compact j)), htexts⟩

/-- The name of the only member is written with an escape and blanks around it. Under it may stand a
    number out of range and an object that would itself be no type; a type that is given twice is
    refused. -/
theorem type_accepted_iff_escaped :
    let text := r#"{ "\u0053tring" : null }"#
    let large : Json := .number ⟨false, 1, [], some 999⟩
    let twice : Json := .object [("Object", .string "Row"), ("Object", .string "Row")]
    (Json.object [("String", .null)]).IsSpeltBy text ∧
      valueTypeFormat.decode text = .ok .text ∧
      valueTypeFormat.decode (Json.object [("String", .array [large, twice])]).compact = .ok .text ∧
      ∀ t, valueTypeFormat.decode twice.compact ≠ .ok t := by
  intro text large twice
  let name : Json.StringLit :=
    ⟨[.code 0x53, .char 't', .char 'r', .char 'i', .char 'n', .char 'g'], .closed⟩
  have hchars : text.toList = ['{', ' ', '"', '\\', 'u', '0', '0', '5', '3', 't', 'r', 'i', 'n', 'g',
      '"', ' ', ':', ' ', 'n', 'u', 'l', 'l', ' ', '}'] := String.toList_ofList
  have htokens : Json.Token.all text.toList =
      [.openObject, .string name, .colon, .null, .closeObject] := by
    rw [hchars]
    refine (Json.Token.all_eq_cons rfl).trans (congrArg _ ?_)
    refine (Json.Token.all_eq_cons rfl).trans (congrArg _ ?_)
    refine (Json.Token.all_eq_cons rfl).trans (congrArg _ ?_)
    refine (Json.Token.all_eq_cons rfl).trans (congrArg _ ?_)
    exact (Json.Token.all_eq_cons rfl).trans (congrArg _ Json.Token.all_nil)
  have hmembers : (Draft.readMembers (.string name) [.colon, .null, .closeObject]).outcome =
      (([(name, .null)], .closed), []) :=
    Draft.readMembers_closed (by simp [Draft.readValue, Json.Reading.outcome])
  obtain ⟨hgot, hrest⟩ := Prod.mk.inj hmembers
  have hdraft : Draft.ofText text = (.object [(name, .null)] .closed, []) := by
    rw [Draft.ofText, htokens]
    refine (Draft.readValue_openObject (by simp) _).trans ?_
    rw [hgot, hrest]
  have hspelt : (Json.object [("String", .null)]).IsSpeltBy text :=
    ⟨_, hdraft, .object (.cons rfl .null .nil)⟩
  refine ⟨hspelt, ((type_accepted_iff _ .text).2 text hspelt).mpr (.text .null),
    (type_accepted_iff _ .text).1.mpr (.text _), ?_⟩
  exact fun t htwice => not_typeForm_of_second ((type_accepted_iff twice t).1.mp htwice)

end Wire

end CallFlow
