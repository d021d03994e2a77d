import CallFlow.Proofs.Wire.Agreement

/-!
# Lists of pins

The inputs and the outputs of a method are each given as a list, or as a single pin. A value is tried
as a list first, and as a single pin if that fails. A pin may be written as an array too, with its name
first, so an array that begins with a string is no list of pins but may be a pin. Every other array that
is accepted is read as a list, item by item.

What a method has for its inputs is what was read for them: the field is met only once, and no other
field touches them.

## Main definitions

- `CallFlow.Wire.Layout.Owns` — a field that alone reads its part of a record
- `CallFlow.Wire.PinList.Given` — the value that a method gives for its inputs or outputs
- `CallFlow.Wire.StringFirst` — the arrays that are no list of pins

## Main statements

- `CallFlow.Wire.Layout.Owns.read_of_member`, `CallFlow.Wire.Layout.Owns.read_of_item` — a record has
  for a field what was read for it
- `CallFlow.Wire.PinList.readPins_of_given` — a method has the pins that were read for it
- `CallFlow.Wire.PinList.array_read_itemwise_iff` — what an array is read as
- `CallFlow.Wire.PinList.strings_read_as_one_pin` — an array of two items that is read as one pin
-/

namespace CallFlow.Wire

open Json (Draft StringLit ArrayStop ObjectStop)

/-! ## What a record has for a field -/

namespace Layout

variable {α β : Type} {l : Layout α} {f : Field α} {get : α → β} {read : Draft → Except ReadError β}

/-- The field reads its part of a record, and no other field of the layout touches that part. -/
structure Owns (l : Layout α) (f : Field α) (get : α → β) (read : Draft → Except ReadError β) :
    Prop where
  own : ∀ d a a', f.read d a = .ok a' → read d = .ok (get a')
  others : ∀ g ∈ l.fields, g.name ≠ f.name → ∀ d a a', g.read d a = .ok a' → get a' = get a

/-- Once the field was met, its part stays as it is. -/
theorem Owns.get_of_met (h : l.Owns f get read) {members : List (StringLit × Draft)} {a a' : α}
    {met met' : List String} (hmet : f.name ∈ met)
    (hread : l.readMembers members a met = .ok (a', met')) : get a' = get a := by
  induction members generalizing a met with
  | nil =>
    cases hread
    rfl
  | cons m members ih =>
    rw [readMembers] at hread
    obtain ⟨name, -, hread⟩ := bind_eq_ok.mp hread
    split at hread
    · obtain ⟨_, -, hread⟩ := bind_eq_ok.mp hread
      exact ih hmet hread
    · rename_i g hg
      split at hread
      · cases hread
      · rename_i hnew
        obtain ⟨a₁, ha₁, hread⟩ := bind_eq_ok.mp hread
        -- The field that is met here was not met before, so it is another one.
        have hne : g.name ≠ f.name := fun hname => hnew (List.contains_iff_mem.mpr (hname ▸ hmet))
        rw [ih (List.mem_cons_of_mem _ hmet) hread]
        exact h.others g (List.mem_of_find?_eq_some hg) hne _ _ _ ha₁

/-- The record has for a field what was read from the member for it. -/
theorem Owns.read_of_member (h : l.Owns f get read) {members : List (StringLit × Draft)} {a a' : α}
    {met met' : List String} {k : StringLit} {v : Draft} {name : String} (hmember : (k, v) ∈ members)
    (hname : k.text = .ok name) (hfield : l.fields.find? (·.answersTo name) = some f)
    (hread : l.readMembers members a met = .ok (a', met')) : read v = .ok (get a') := by
  induction members generalizing a met with
  | nil => cases hmember
  | cons m members ih =>
    rw [readMembers] at hread
    obtain ⟨name', hname', hread⟩ := bind_eq_ok.mp hread
    rcases List.mem_cons.mp hmember with rfl | hmember
    · cases hname.symm.trans (malformed_eq_ok.mp hname')
      rw [hfield] at hread
      dsimp only at hread
      split at hread
      · cases hread
      · obtain ⟨a₁, ha₁, hread⟩ := bind_eq_ok.mp hread
        rw [h.get_of_met List.mem_cons_self hread]
        exact h.own v a a₁ ha₁
    · split at hread
      · obtain ⟨_, -, hread⟩ := bind_eq_ok.mp hread
        exact ih hmember hread
      · split at hread
        · cases hread
        · obtain ⟨_, -, hread⟩ := bind_eq_ok.mp hread
          exact ih hmember hread

/-- The record has for a field what was read from the item at its place. -/
theorem Owns.read_of_item (h : l.Owns f get read) {fields : List (Field α)}
    (hfields : fields ⊆ l.fields) (hdistinct : (fields.map Field.name).Nodup) {stop : ArrayStop}
    {position place : Nat} {items surplus : List Draft} {a a' : α} {v : Draft}
    (hfield : fields[place]? = some f) (hitem : items[place]? = some v)
    (hread : l.readItems stop position fields items a = .ok (a', surplus)) :
    read v = .ok (get a') := by
  induction fields generalizing position place items a with
  | nil => cases hfield
  | cons g fields ih =>
    obtain ⟨-, hothers⟩ := List.cons_subset.mp hfields
    rw [List.map_cons, List.nodup_cons] at hdistinct
    cases items with
    | nil => cases hitem
    | cons d items =>
      rw [readItems] at hread
      obtain ⟨a₁, ha₁, hrest⟩ := bind_eq_ok.mp hread
      cases place with
      | zero =>
        cases hfield
        cases hitem
        have hkept : get a' = get a₁ := by
          refine readItems_preserves (P := fun b => get b = get a₁) ?_ rfl hrest
          intro g hg d b b' hb hread
          have hne : g.name ≠ f.name := fun hname => hdistinct.1 (hname ▸ List.mem_map_of_mem hg)
          rw [h.others g (hothers hg) hne d b b' hread, hb]
        rw [hkept]
        exact h.own v a a₁ ha₁
      | succ place => exact ih hothers hdistinct.2 hfield hitem hrest

end Layout

/-! ## Inputs and outputs -/

/-- One of the two lists of pins that a method has. -/
inductive PinList where
  | inputs
  | outputs
deriving DecidableEq, Repr

namespace PinList

/-- The name under which the list is given. -/
def key : PinList → String
  | inputs => "input"
  | outputs => "output"

/-- The place of the list in a method that is written as an array. -/
def place : PinList → Nat
  | inputs => 2
  | outputs => 3

/-- The pins as documents of their own. -/
def format : PinList → Format Pin
  | inputs => inputFormat
  | outputs => outputFormat

/-- The pins of a method. -/
def pins : PinList → Method → List Pin
  | inputs, m => m.inputs
  | outputs, m => m.outputs

/-- The name of a pin in messages. -/
def title : PinList → String
  | inputs => "Input"
  | outputs => "Output"

/-- The method gives a value for the list: under its name, or at its place. -/
inductive Given (list : PinList) : Draft → Draft → Prop
  | member {members : List (StringLit × Draft)} {stop : ObjectStop} {k : StringLit} {v : Draft}
      (hmember : (k, v) ∈ members) (hname : k.text = .ok list.key) :
      Given list (.object members stop) v
  | item {items : List Draft} {stop : ArrayStop} {v : Draft} (hitem : items[list.place]? = some v) :
      Given list (.array items stop) v

theorem format_read (list : PinList) : list.format.read = (pinLayout list.title).read .text := by
  cases list <;> rfl

theorem pins_of_read_other (list : PinList) {room : Nat} {g : Field Method}
    (hg : g ∈ (methodLayout room).fields) (hne : g.name ≠ list.key) {d : Draft} {m m' : Method}
    (hread : g.read d m = .ok m') : list.pins m' = list.pins m := by
  simp only [methodLayout, List.mem_cons, List.not_mem_nil, or_false] at hg
  rcases hg with rfl | rfl | rfl | rfl
  · obtain ⟨_, -, rfl⟩ := map_eq_ok.mp hread
    cases list <;> rfl
  · obtain ⟨_, -, rfl⟩ := map_eq_ok.mp hread
    cases list <;> rfl
  · obtain ⟨_, -, rfl⟩ := map_eq_ok.mp hread
    cases list with
    | inputs => exact absurd rfl hne
    | outputs => rfl
  · obtain ⟨_, -, rfl⟩ := map_eq_ok.mp hread
    cases list with
    | inputs => rfl
    | outputs => exact absurd rfl hne

/-- Each list of pins has a field of its own. -/
theorem exists_owns (list : PinList) (room : Nat) :
    ∃ f, (methodLayout room).fields[list.place]? = some f ∧ f.name = list.key ∧
      (methodLayout room).Owns f list.pins (readPins list.title (room - 1)) := by
  cases list with
  | inputs =>
    refine ⟨_, rfl, rfl, ?_, fun g hg hne d m m' => pins_of_read_other inputs hg hne⟩
    intro d m m' hread
    obtain ⟨pins, hpins, rfl⟩ := map_eq_ok.mp hread
    exact hpins
  | outputs =>
    refine ⟨_, rfl, rfl, ?_, fun g hg hne d m m' => pins_of_read_other outputs hg hne⟩
    intro d m m' hread
    obtain ⟨pins, hpins, rfl⟩ := map_eq_ok.mp hread
    exact hpins

/-- A method has the pins that were read from the value given for them. -/
theorem readPins_of_given {list : PinList} {room : Nat} {source : Source} {d v : Draft} {m : Method}
    (hgiven : list.Given d v) (hread : (methodLayout room).read source d = .ok m) :
    readPins list.title (room - 1) v = .ok (list.pins m) := by
  obtain ⟨f, hplace, hkey, howns⟩ := list.exists_owns room
  cases hgiven with
  | @member members stop k v hmember hname =>
    have hanswers : f.answersTo list.key := Layout.answersTo_iff.mpr (by simp [hkey])
    have hfield :=
      Layout.find?_answersTo (methodLayout_distinct room) (List.mem_of_getElem? hplace) hanswers
    obtain ⟨⟨m', met⟩, hmembers, hread⟩ := bind_eq_ok.mp hread
    obtain ⟨_, -, hread⟩ := bind_eq_ok.mp hread
    split at hread
    · cases hread
    · cases hread
      exact howns.read_of_member hmember hname hfield hmembers
  | @item items stop v hitem =>
    obtain ⟨⟨m', surplus⟩, hitems, hread⟩ := bind_eq_ok.mp hread
    obtain ⟨_, -, hread⟩ := bind_eq_ok.mp hread
    cases hread
    exact howns.read_of_item (List.Subset.refl _) (Layout.nodup_names (methodLayout_distinct room))
      hplace hitem hitems

end PinList

/-! ## Arrays -/

/-- The items begin with a string. -/
def StringFirst (items : List Draft) : Prop :=
  ∃ s rest, items = .string s :: rest

section Arrays

variable {name : String} {source : Source} {items : List Draft} {stop : ArrayStop}

/-- An array that is read as a pin begins with the name of the pin. -/
theorem stringFirst_of_read_pin {pin : Pin}
    (h : (pinLayout name).read source (.array items stop) = .ok pin) : StringFirst items := by
  obtain ⟨_, hitems, -⟩ := bind_eq_ok.mp h
  cases items with
  | nil =>
    obtain ⟨_, -, hmissing⟩ := bind_eq_ok.mp hitems
    cases hmissing
  | cons d rest =>
    obtain ⟨_, hname, -⟩ := bind_eq_ok.mp hitems
    obtain ⟨_, htext, -⟩ := map_eq_ok.mp hname
    cases d with
    | string s => exact ⟨s, rest, rfl⟩
    | _ => cases htext

/-- A string is no pin. -/
theorem not_stringFirst_of_read_items {pins : List Pin}
    (h : List.Forall₂ (fun item pin => (pinLayout name).read source item = .ok pin) items pins) :
    ¬StringFirst items := by
  rintro ⟨s, rest, rfl⟩
  cases h with
  | cons hs _ => cases hs

/-- An array that is read as pins is read item by item, or it is a pin itself. -/
theorem readPins_array {room : Nat} {pins : List Pin}
    (h : readPins name room (.array items stop) = .ok pins) :
    List.Forall₂ (fun item pin => (pinLayout name).read .taken item = .ok pin) items pins ∨
      ∃ pin, (pinLayout name).read .taken (.array items stop) = .ok pin ∧ pins = [pin] := by
  obtain ⟨_, -, h⟩ := bind_eq_ok.mp h
  split at h
  · rename_i hlist
    cases h
    obtain ⟨_, hitems, hlist⟩ := bind_eq_ok.mp hlist
    obtain ⟨_, -, hlist⟩ := bind_eq_ok.mp hlist
    cases hlist
    exact .inl (mapM_eq_ok_iff.mp hitems)
  · split at h
    · rename_i pin hpin
      cases h
      exact .inr ⟨pin, hpin, rfl⟩
    · cases h

end Arrays

namespace PinList

/-- An array that is given for the inputs or the outputs of a method is read item by item exactly if it
    does not begin with a string. One that does is read as a single pin. -/
theorem array_read_itemwise_iff {text : String} {m : Method}
    (hdecode : methodFormat.decode text = .ok m) (list : PinList) {items : List Draft}
    {stop : ArrayStop} (hgiven : list.Given (Draft.ofText text).1 (.array items stop)) :
    (List.Forall₂ (fun item pin => list.format.read item = .ok pin) items (list.pins m) ↔
        ¬StringFirst items) ∧
      (StringFirst items →
        ∃ pin, list.format.read (.array items stop) = .ok pin ∧ list.pins m = [pin]) := by
  have hpins := readPins_of_given hgiven (Format.read_ofText_of_decode hdecode)
  -- The value was taken whole before, but a pin is read the same from its own text.
  have hfollows : Follows list.format.read ((pinLayout list.title).read .taken) :=
    list.format_read ▸ (pinLayout list.title).follows_refl.read .text .taken
  rcases readPins_array hpins with hitems | ⟨pin, hpin, hone⟩
  · have hnot := not_stringFirst_of_read_items hitems
    exact ⟨iff_of_true (hitems.imp hfollows) hnot, fun h => absurd h hnot⟩
  · have hfirst := stringFirst_of_read_pin hpin
    refine ⟨iff_of_false ?_ (not_not_intro hfirst), fun _ => ⟨pin, hfollows _ _ hpin, hone⟩⟩
    rw [list.format_read]
    exact fun hitems => not_stringFirst_of_read_items hitems hfirst

/-- The inputs are a list of a pin that is an array and one that is an object. The outputs are an array
    of two strings. -/
theorem array_read_itemwise_iff_mixed :
    let key : Json := .array [.string "key"]
    let limit : Json := .object [("type", .string "String"), ("name", .string "limit")]
    let user : List Json := [.string "user", .string "the row"]
    let document : Json := .object [("output", .array user), ("name", .string "find"),
      ("input", .array [key, limit])]
    let m : Method := ⟨"find", "", [⟨"key", "", none⟩, ⟨"limit", "", some .text⟩],
      [⟨"user", "the row", none⟩]⟩
    let given := (Draft.ofText document.compact).1
    methodFormat.decode document.compact = .ok m ∧
      inputs.Given given (.array [key.draft, limit.draft] .closed) ∧
      List.Forall₂ (fun item pin => inputFormat.read item = .ok pin) [key.draft, limit.draft]
        m.inputs ∧
      outputs.Given given (.array (Json.itemDrafts user) .closed) ∧
      ∃ pin, outputFormat.read (.array (Json.itemDrafts user) .closed) = .ok pin ∧
        m.outputs = [pin] := by
  intro key limit user document m given
  have hdraft : given = document.draft := congrArg Prod.fst (Json.ofText_compact document)
  have hdecode : methodFormat.decode document.compact = .ok m := by
    rw [Format.decode, Json.ofText_compact]
    rfl
  have hinputs : inputs.Given given (.array [key.draft, limit.draft] .closed) := by
    rw [hdraft]
    exact .member (.tail _ (.tail _ (.head _))) rfl
  have houtputs : outputs.Given given (.array (Json.itemDrafts user) .closed) := by
    rw [hdraft]
    exact .member (.head _) rfl
  have hkey : ¬StringFirst [key.draft, limit.draft] := by
    rintro ⟨_, _, h⟩
    cases h
  exact ⟨hdecode, hinputs, (array_read_itemwise_iff hdecode inputs hinputs).1.mpr hkey, houtputs,
    (array_read_itemwise_iff hdecode outputs houtputs).2 ⟨_, _, rfl⟩⟩

/-- The inputs are an array of two strings. Neither of them is an input, and the method has one input,
    with the second string for its description. -/
theorem strings_read_as_one_pin :
    let items : List Json := [.string "a", .string "d"]
    let document : Json := .object [("name", .string "m"), ("input", .array items)]
    let m : Method := ⟨"m", "", [⟨"a", "d", none⟩], []⟩
    document.compact = r#"{"name":"m","input":["a","d"]}"# ∧
      methodFormat.decode document.compact = .ok m ∧
      inputs.Given (Draft.ofText document.compact).1 (.array (Json.itemDrafts items) .closed) ∧
      (∀ item ∈ items, ∀ pin, inputFormat.decode item.compact ≠ .ok pin) ∧
      ¬List.Forall₂ (fun item pin => inputFormat.read item = .ok pin) (Json.itemDrafts items)
        m.inputs := by
  intro items document m
  refine ⟨by decide, ?_, ?_, ?_, ?_⟩
  · rw [Format.decode, Json.ofText_compact]
    rfl
  · rw [Json.ofText_compact]
    exact .member (.tail _ (.head _)) rfl
  · intro item hitem pin h
    rw [Format.decode_eq_ok_iff, Json.ofText_compact] at h
    simp only [items, List.mem_cons, List.not_mem_nil, or_false] at hitem
    rcases hitem with rfl | rfl
    · cases h.1
    · cases h.1
  · intro h
    cases h with
    | cons ha _ => cases ha

end PinList

end CallFlow.Wire
