import Mathlib.Data.List.Forall2
import CallFlow.Proofs.Json.Reading
import CallFlow.Wire.Record

/-!
# Reading records back

What a layout makes of an object whose members stand under names of its fields: the fields are read
in the order of the members, from the blank record. Nothing else matters as long as no two fields
share a name, no field is met twice and every required field is met. The other way round, whatever
a layout reads was put together by its fields, so what all fields keep holds of every record read.

## Main statements

- `CallFlow.Wire.mapM_eq_ok_iff` — a list is read item by item
- `CallFlow.Wire.Layout.read_entries` — reading an object with known members
- `CallFlow.Wire.Layout.read_written` — reading an object in which fields were written in order
- `CallFlow.Wire.Layout.read_preserves` — what every field keeps holds of every record read
-/

namespace CallFlow.Wire

open Json (Draft StringLit ArrayStop ObjectStop)

/-! ## Computations that may fail -/

section Except

variable {ε α β : Type}

theorem bind_eq_ok {x : Except ε α} {f : α → Except ε β} {b : β} :
    (x >>= f) = .ok b ↔ ∃ a, x = .ok a ∧ f a = .ok b := by
  cases x <;> simp [bind, Except.bind]

theorem map_eq_ok {x : Except ε α} {f : α → β} {b : β} :
    x.map f = .ok b ↔ ∃ a, x = .ok a ∧ f a = b := by
  cases x <;> simp [Except.map]

/-- A list of computations succeeds exactly if each of them does, with their results in order. -/
theorem mapM_eq_ok_iff {f : α → Except ε β} {as : List α} {bs : List β} :
    as.mapM f = .ok bs ↔ List.Forall₂ (fun a b => f a = .ok b) as bs := by
  induction as generalizing bs with
  | nil =>
    rw [List.forall₂_nil_left_iff]
    constructor
    · intro h
      cases h
      rfl
    · rintro rfl
      rfl
  | cons a as ih =>
    rw [List.mapM_cons, bind_eq_ok, List.forall₂_cons_left_iff]
    constructor
    · rintro ⟨b, hb, h⟩
      obtain ⟨bs', hbs, h⟩ := bind_eq_ok.mp h
      cases h
      exact ⟨b, bs', hb, ih.mp hbs, rfl⟩
    · rintro ⟨b, bs', hb, hbs, rfl⟩
      exact ⟨b, hb, bind_eq_ok.mpr ⟨bs', ih.mpr hbs, rfl⟩⟩

/-- Each result of a list of computations is the result of one of them. -/
theorem exists_of_mapM_eq_ok {f : α → Except ε β} {as : List α} {bs : List β}
    (h : as.mapM f = .ok bs) : ∀ b ∈ bs, ∃ a ∈ as, f a = .ok b := by
  intro b hb
  obtain ⟨i, hi, rfl⟩ := List.mem_iff_getElem.mp hb
  have hitems := mapM_eq_ok_iff.mp h
  have hi' : i < as.length := hitems.length_eq ▸ hi
  exact ⟨as[i], List.getElem_mem hi', hitems.get hi' hi⟩

end Except

/-! ## Strings and arrays -/

@[simp] theorem malformed_ok {α : Type} (a : α) : malformed (.ok a) = .ok a :=
  rfl

@[simp] theorem readText_string (s : String) : readText (Json.string s).draft = .ok s := by
  rw [Json.draft, readText, StringLit.text_ofString, malformed_ok]

/-- An array is read item by item. -/
theorem readList_items {α : Type} {read : Draft → Except ReadError α} {js : List Json} {as : List α}
    (h : List.Forall₂ (fun j a => read j.draft = .ok a) js as) :
    readList read (Json.array js).draft = .ok as := by
  have hitems : (js.map Json.draft).mapM read = .ok as := by
    rw [mapM_eq_ok_iff, List.forall₂_map_left_iff]
    exact h
  rw [Json.draft, Json.itemDrafts_eq_map, readList, hitems]
  rfl

/-- An array of written items is read back if each item is. -/
theorem readList_array {α : Type} {read : Draft → Except ReadError α} {write : α → Json}
    {as : List α} (h : ∀ a ∈ as, read (write a).draft = .ok a) :
    readList read (Json.array (as.map write)).draft = .ok as := by
  apply readList_items
  rw [List.forall₂_map_left_iff]
  exact List.forall₂_same.mpr h

/-- Each item of an array that was read was read by itself. -/
theorem exists_of_readList {α : Type} {read : Draft → Except ReadError α} {d : Draft}
    {as : List α} (h : readList read d = .ok as) : ∀ a ∈ as, ∃ d', read d' = .ok a := by
  unfold readList at h
  split at h
  · obtain ⟨as', has, h⟩ := bind_eq_ok.mp h
    obtain ⟨_, _, h⟩ := bind_eq_ok.mp h
    cases h
    intro a ha
    obtain ⟨d', -, hd'⟩ := exists_of_mapM_eq_ok has a ha
    exact ⟨d', hd'⟩
  · cases h

/-! ## Records -/

/-- One member of a written record: the name under which it stands, the field for which it is, and
    its value. -/
structure Entry (α : Type) where
  key : String
  field : Field α
  value : Draft

namespace Entry

variable {α : Type}

/-- The member as it is met in an object. -/
def member (e : Entry α) : StringLit × Draft :=
  (.ofString e.key, e.value)

/-- Reads the member into a record. -/
def read (a : α) (e : Entry α) : Except ReadError α :=
  e.field.read e.value a

end Entry

namespace Layout

variable {α : Type}

/-- All names and other names of the fields differ. -/
def Distinct (l : Layout α) : Prop :=
  (l.fields.flatMap fun f => f.name :: f.aliases).Nodup

instance (l : Layout α) : Decidable l.Distinct :=
  inferInstanceAs (Decidable (List.Nodup _))

theorem answersTo_iff {f : Field α} {name : String} :
    f.answersTo name ↔ name ∈ f.name :: f.aliases := by
  simp only [Field.answersTo, Bool.or_eq_true, beq_iff_eq, List.contains_iff_mem, List.mem_cons]
  rw [eq_comm]

/-- A name under which a field is known leads to that field. -/
theorem find?_answersTo {l : Layout α} (h : l.Distinct) {f : Field α} (hf : f ∈ l.fields)
    {name : String} (hname : f.answersTo name) :
    l.fields.find? (·.answersTo name) = some f := by
  unfold Distinct at h
  -- Only the list of fields matters; the layout around it does not shrink with it.
  generalize l.fields = fs at h hf ⊢
  induction fs with
  | nil => simp at hf
  | cons g gs ih =>
    rw [List.flatMap_cons, List.nodup_append] at h
    obtain ⟨-, hgs, hdisjoint⟩ := h
    by_cases hg : g.answersTo name
    · rw [List.find?_cons, hg]
      rcases List.mem_cons.mp hf with rfl | hf
      · rfl
      · have hmem : name ∈ gs.flatMap fun f => f.name :: f.aliases :=
          List.mem_flatMap.mpr ⟨f, hf, answersTo_iff.mp hname⟩
        exact absurd rfl (hdisjoint name (answersTo_iff.mp hg) name hmem)
    · rw [List.find?_cons, Bool.eq_false_iff.mpr hg]
      rcases List.mem_cons.mp hf with rfl | hf
      · exact absurd hname hg
      · exact ih hgs hf

/-- The members of an object are read one after the other, and the fields met are noted. -/
theorem readMembers_entries {l : Layout α} (h : l.Distinct) {entries : List (Entry α)}
    (hkeys : ∀ e ∈ entries, e.field ∈ l.fields ∧ e.field.answersTo e.key)
    (hnodup : (entries.map (·.field.name)).Nodup) {met : List String}
    (hmet : ∀ e ∈ entries, e.field.name ∉ met) (a : α) :
    l.readMembers (entries.map Entry.member) a met =
      (entries.foldlM Entry.read a).map fun a =>
        (a, (entries.map (·.field.name)).reverse ++ met) := by
  induction entries generalizing a met with
  | nil => rfl
  | cons e entries ih =>
    obtain ⟨hfield, hkey⟩ := hkeys e (by simp)
    have hnew : met.contains e.field.name = false := by
      simpa using hmet e (by simp)
    rw [List.map_cons, List.nodup_cons] at hnodup
    rw [List.map_cons, Entry.member, readMembers, StringLit.text_ofString, malformed_ok]
    simp only [bind, Except.bind, find?_answersTo h hfield hkey, hnew, Bool.false_eq_true, if_false,
      List.foldlM_cons]
    rw [Entry.read]
    cases hread : e.field.read e.value a with
    | error error => rfl
    | ok a =>
      -- The field that was just met is not met again, since the names of the entries differ.
      have hrest : ∀ e' ∈ entries, e'.field.name ∉ e.field.name :: met := by
        intro e' he' hmem
        rcases List.mem_cons.mp hmem with heq | hmem
        · exact hnodup.1 (heq ▸ List.mem_map_of_mem he')
        · exact hmet e' (by simp [he']) hmem
      have hentries := ih (fun e' he' => hkeys e' (by simp [he'])) hnodup.2 hrest a
      simp only [hentries, List.map_cons, List.reverse_cons, List.append_assoc,
        List.singleton_append]

/-- A record whose members are known is read field by field. -/
theorem read_entries {l : Layout α} (h : l.Distinct) {entries : List (Entry α)}
    (hkeys : ∀ e ∈ entries, e.field ∈ l.fields ∧ e.field.answersTo e.key)
    (hnodup : (entries.map (·.field.name)).Nodup)
    (hrequired : ∀ f ∈ l.fields, f.required → f.name ∈ entries.map (·.field.name))
    (source : Source) :
    l.read source (.object (entries.map Entry.member) .closed) =
      entries.foldlM Entry.read l.blank := by
  rw [read, readMembers_entries h hkeys hnodup (by simp)]
  cases entries.foldlM Entry.read l.blank with
  | error e => rfl
  | ok a =>
    have hmissing : l.missing? ((entries.map (·.field.name)).reverse ++ []) = none := by
      rw [missing?, List.find?_eq_none]
      intro f hf
      have hmem := hrequired f hf
      simp_all
    simp only [Except.map, bind, Except.bind, ObjectStop.check, malformed_ok, hmissing]

/-- The JSON value in which fields stand under their names. -/
def written (fields : List (Field α × Json)) : Json :=
  .object (fields.map fun w => (w.1.name, w.2))

theorem memberDrafts_written (fields : List (Field α × Json)) :
    Json.memberDrafts (fields.map fun w => (w.1.name, w.2)) =
      (fields.map fun w => Entry.mk w.1.name w.1 w.2.draft).map Entry.member := by
  induction fields with
  | nil => rfl
  | cons w fields ih =>
    rw [List.map_cons, Json.memberDrafts, ih]
    rfl

theorem nodup_names {l : Layout α} (h : l.Distinct) : (l.fields.map Field.name).Nodup := by
  have hsublist : ∀ fs : List (Field α),
      (fs.map Field.name).Sublist (fs.flatMap fun f => f.name :: f.aliases) := by
    intro fs
    induction fs with
    | nil => exact List.Sublist.refl _
    | cons f fs ih => exact List.Sublist.cons_cons _ (ih.trans (List.sublist_append_right _ _))
  exact List.Sublist.nodup (hsublist l.fields) h

/-- A record in which some fields were written in order, among them all required ones, is read
    field by field. -/
theorem read_written {l : Layout α} (h : l.Distinct) (fields : List (Field α × Json))
    (hfields : (fields.map Prod.fst).Sublist l.fields)
    (hrequired : ∀ f ∈ l.fields, f.required → f.name ∈ fields.map (·.1.name)) (source : Source) :
    l.read source (written fields).draft =
      fields.foldlM (fun a w => w.1.read w.2.draft a) l.blank := by
  let entries := fields.map fun w => Entry.mk w.1.name w.1 w.2.draft
  have hnames : entries.map (·.field.name) = fields.map (·.1.name) := by
    simp [entries, Function.comp_def]
  have hkeys : ∀ e ∈ entries, e.field ∈ l.fields ∧ e.field.answersTo e.key := by
    intro e he
    obtain ⟨w, hw, rfl⟩ := List.mem_map.mp he
    refine ⟨hfields.subset (List.mem_map_of_mem hw), ?_⟩
    simp [Field.answersTo]
  have hnodup : (entries.map (·.field.name)).Nodup := by
    rw [hnames, ← Function.comp_def Field.name Prod.fst, ← List.map_map]
    exact (hfields.map _).nodup (nodup_names h)
  rw [written, Json.draft, memberDrafts_written,
    read_entries h hkeys hnodup (by rwa [hnames]) source, List.foldlM_map]
  rfl

/-- A record in which every field was written in order is read field by field. -/
theorem read_zip {l : Layout α} (h : l.Distinct) (values : List Json)
    (hlength : l.fields.length = values.length) (source : Source) :
    l.read source (written (l.fields.zip values)).draft =
      (l.fields.zip values).foldlM (fun a w => w.1.read w.2.draft a) l.blank := by
  have hfst : (l.fields.zip values).map Prod.fst = l.fields :=
    List.map_fst_zip (Nat.le_of_eq hlength)
  refine read_written h _ (by simp only [hfst, List.Sublist.refl]) ?_ source
  intro f hf _
  rw [← Function.comp_def Field.name Prod.fst, ← List.map_map, hfst]
  exact List.mem_map_of_mem hf

/-! ## What every field keeps -/

variable {P : α → Prop}

theorem readMembers_preserves {l : Layout α}
    (hfields : ∀ f ∈ l.fields, ∀ d a a', P a → f.read d a = .ok a' → P a')
    {members : List (StringLit × Draft)} {a a' : α} {met met' : List String} (ha : P a)
    (h : l.readMembers members a met = .ok (a', met')) : P a' := by
  induction members generalizing a met with
  | nil =>
    cases h
    exact ha
  | cons m members ih =>
    rw [readMembers] at h
    obtain ⟨name, -, h⟩ := bind_eq_ok.mp h
    split at h
    · obtain ⟨_, -, h⟩ := bind_eq_ok.mp h
      exact ih ha h
    · rename_i f hf
      split at h
      · cases h
      · obtain ⟨a₁, hread, h⟩ := bind_eq_ok.mp h
        exact ih (hfields f (List.mem_of_find?_eq_some hf) m.2 a a₁ ha hread) h

theorem readItems_preserves {l : Layout α} {stop : ArrayStop} {fields : List (Field α)}
    (hfields : ∀ f ∈ fields, ∀ d a a', P a → f.read d a = .ok a' → P a')
    {position : Nat} {items surplus : List Draft} {a a' : α} (ha : P a)
    (h : l.readItems stop position fields items a = .ok (a', surplus)) : P a' := by
  induction fields generalizing items a position with
  | nil =>
    cases h
    exact ha
  | cons f fields ih =>
    have hrest : ∀ f ∈ fields, ∀ d a a', P a → f.read d a = .ok a' → P a' :=
      fun f hf => hfields f (by simp [hf])
    cases items with
    | nil =>
      rw [readItems] at h
      obtain ⟨_, -, h⟩ := bind_eq_ok.mp h
      split at h
      · cases h
      · exact ih hrest ha h
    | cons d items =>
      rw [readItems] at h
      obtain ⟨a₁, hread, h⟩ := bind_eq_ok.mp h
      exact ih hrest (hfields f (by simp) d a a₁ ha hread) h

/-- What holds of the blank record and is kept by every field holds of every record read. -/
theorem read_preserves {l : Layout α} (hblank : P l.blank)
    (hfields : ∀ f ∈ l.fields, ∀ d a a', P a → f.read d a = .ok a' → P a')
    {source : Source} {d : Draft} {a : α} (h : l.read source d = .ok a) : P a := by
  unfold read at h
  split at h
  · obtain ⟨⟨a', met⟩, hmembers, h⟩ := bind_eq_ok.mp h
    obtain ⟨_, -, h⟩ := bind_eq_ok.mp h
    split at h
    · cases h
    · cases h
      exact readMembers_preserves hfields hblank hmembers
  · obtain ⟨⟨a', surplus⟩, hitems, h⟩ := bind_eq_ok.mp h
    obtain ⟨_, -, h⟩ := bind_eq_ok.mp h
    cases h
    exact readItems_preserves hfields hblank hitems
  · cases h

end Layout

end CallFlow.Wire
