import Mathlib.Data.List.Forall2
import CallFlow.Proofs.Wire.Document

/-!
# Spellings

A document has more spellings than the one it is written in. Some fields are known under an older
name, a field that has its default may be left out, the tag of a reference has an older form, and a
list of one pin may be written as the pin. All of these may be mixed freely, and every mixture is
read as the same document.

How a record may be spelt is a table with one row for each field, in the order of the layout. That a
layout reads every spelling is then shown row by row.

## Main definitions

- `CallFlow.Wire.FieldSpelling`, `CallFlow.Wire.Spelt` — how the members of a record may be written
- `CallFlow.Wire.SpellsWorkspace` — the spellings of a workspace, and those of its parts before it

## Main statements

- `CallFlow.Wire.Layout.read_spelt` — a layout reads every spelling of a record
- `CallFlow.Wire.readWorkspace_spelt` — every spelling of a workspace is read as the workspace
- `CallFlow.Wire.decode_spelling` — and so is every text of it
-/

namespace CallFlow

namespace Wire

open Json (Draft StringLit)

/-! ## Tables of spellings -/

/-- How the member for one field may be written: under which names, with which values, and whether
    it may be left out. -/
structure FieldSpelling where
  keys : List String
  spells : Json → Prop
  omittable : Prop

namespace FieldSpelling

/-- A text that has to be written. -/
def requiredText (key text : String) : FieldSpelling :=
  ⟨[key], (· = .string text), False⟩

/-- A text that may be left out if it is empty. -/
def text (keys : List String) (text : String) : FieldSpelling :=
  ⟨keys, (· = .string text), text = ""⟩

/-- A list that may be left out if it is empty. -/
def list {α : Type} (key : String) (spells : α → Json → Prop) (as : List α) : FieldSpelling :=
  ⟨[key], fun j => ∃ js, j = .array js ∧ List.Forall₂ spells as js, as = []⟩

end FieldSpelling

/-- The members are written by a table, row by row. -/
inductive Spelt : List FieldSpelling → List (String × Json) → Prop
  | nil : Spelt [] []
  | written {row : FieldSpelling} {rows : List FieldSpelling} {key : String} {j : Json}
      {ms : List (String × Json)} (hkey : key ∈ row.keys) (hj : row.spells j) (h : Spelt rows ms) :
      Spelt (row :: rows) ((key, j) :: ms)
  | omitted {row : FieldSpelling} {rows : List FieldSpelling} {ms : List (String × Json)}
      (homit : row.omittable) (h : Spelt rows ms) : Spelt (row :: rows) ms

/-- An object whose members are written by a table. -/
def SpellsRecord (rows : List FieldSpelling) (j : Json) : Prop :=
  ∃ ms, j = .object ms ∧ Spelt rows ms

/-! ## Catalogs -/

inductive SpellsType : ValueType → Json → Prop
  | object (id : String) : SpellsType (.object id) (.object [("Object", .string id)])
  | text (content : String) : SpellsType .text (.object [("String", .string content)])
  | bareText : SpellsType .text (.string "String")

inductive SpellsOptionalType : Option ValueType → Json → Prop
  | null : SpellsOptionalType none .null
  | type {t : ValueType} {j : Json} (h : SpellsType t j) : SpellsOptionalType (some t) j

def SpellsPin (p : Pin) : Json → Prop :=
  SpellsRecord [
    .requiredText "name" p.name,
    .text ["description"] p.description,
    ⟨["type"], SpellsOptionalType p.type, p.type = none⟩]

inductive SpellsPins : List Pin → Json → Prop
  | list {pins : List Pin} {js : List Json} (h : List.Forall₂ SpellsPin pins js) :
      SpellsPins pins (.array js)
  | single {p : Pin} {j : Json} (h : SpellsPin p j) : SpellsPins [p] j

def SpellsMethod (m : Method) : Json → Prop :=
  SpellsRecord [
    .requiredText "name" m.name,
    .text ["description"] m.description,
    ⟨["input"], SpellsPins m.inputs, m.inputs = []⟩,
    ⟨["output"], SpellsPins m.outputs, m.outputs = []⟩]

def SpellsConfig (c : Config) : Json → Prop :=
  SpellsRecord [
    .requiredText "id" c.id,
    .requiredText "name" c.name,
    .text ["path"] c.path,
    .text ["description"] c.description,
    .list "methods" SpellsMethod c.methods]

/-! ## Endpoints -/

/-- The tags under which an operand may be written, each with its text. -/
inductive Tagged : Operand → String → String → Prop
  | parameter (name : String) : Tagged (.parameter name) "Parameter" name
  | suggested (name : String) : Tagged (.parameter name) "Suggested" name
  | literal (text : String) : Tagged (.literal text) "String" text
  | unset (text : String) : Tagged .unset "" text

def SpellsArgument (a : Argument) (j : Json) : Prop :=
  ∃ tag text, Tagged a.value tag text ∧
    SpellsRecord [
      .text ["name"] a.name,
      .text ["arg_type"] tag,
      .text ["arg_type_value"] text] j

inductive SpellsOutputName : Option String → Json → Prop
  | null : SpellsOutputName none .null
  | empty : SpellsOutputName none (.string "")
  | name (name : String) : SpellsOutputName (some name) (.string name)

def SpellsCall (c : Call) : Json → Prop :=
  SpellsRecord [
    .text ["id"] c.id,
    .text ["config_id", "config"] c.configId,
    .text ["method_name", "method"] c.methodName,
    ⟨["output_name", "out_variable_name"], SpellsOutputName c.outputName, c.outputName = none⟩,
    .list "arguments" SpellsArgument c.arguments]

def SpellsReturn (r : Return) : Json → Prop :=
  SpellsRecord [
    .text ["id"] r.id,
    ⟨["argument"], SpellsArgument r.argument, r.argument = .blank⟩]

inductive SpellsStep : Step → Json → Prop
  | call {c : Call} {j : Json} (h : SpellsCall c j) :
      SpellsStep (.call c) (.object [("CallMethod", j)])
  | ret {r : Return} {j : Json} (h : SpellsReturn r j) :
      SpellsStep (.ret r) (.object [("JsonReturn", j)])

def SpellsEndpoint (e : Endpoint) : Json → Prop :=
  SpellsRecord [
    .text ["id"] e.id,
    .requiredText "name" e.name,
    .text ["description"] e.description,
    .text ["url"] e.url,
    .list "instructions" SpellsStep e.steps]

/-- The spellings of a workspace. -/
def SpellsWorkspace (w : Workspace) : Json → Prop :=
  SpellsRecord [
    .list "configs" SpellsConfig w.catalog.configs,
    .list "endpoints" SpellsEndpoint w.endpoints]

/-! ## Reading a record row by row -/

namespace Layout

variable {α : Type}

/-- The fields turn one record into another, whichever way the members are written by the table. -/
inductive Fills : List (Field α) → List FieldSpelling → α → α → Prop
  | nil (a : α) : Fills [] [] a a
  | cons {f : Field α} {fs : List (Field α)} {row : FieldSpelling} {rows : List FieldSpelling}
      {a b c : α} (hkeys : row.keys = f.name :: f.aliases)
      (hread : ∀ j, row.spells j → f.read j.draft a = .ok b)
      (homit : row.omittable → f.required = false ∧ a = b) (h : Fills fs rows b c) :
      Fills (f :: fs) (row :: rows) a c

/-- Members that are written by a table are the entries of some of the fields. -/
theorem Fills.exists_entries {fs : List (Field α)} {rows : List FieldSpelling} {a b : α}
    (h : Fills fs rows a b) {ms : List (String × Json)} (hms : Spelt rows ms) :
    ∃ entries : List (Entry α), Json.memberDrafts ms = entries.map Entry.member ∧
      (∀ e ∈ entries, e.field.answersTo e.key) ∧ (entries.map Entry.field).Sublist fs ∧
      (∀ f ∈ fs, f.required → f.name ∈ entries.map (·.field.name)) ∧
      entries.foldlM Entry.read a = .ok b := by
  induction h generalizing ms with
  | nil a =>
    cases hms
    exact ⟨[], rfl, by simp, List.Sublist.refl [], by simp, rfl⟩
  | @cons f fs row rows a b c hkeys hread homit _ ih =>
    cases hms with
    | @written _ _ key j ms hkey hj hms =>
      obtain ⟨entries, hdrafts, hanswers, hsublist, hrequired, hfold⟩ := ih hms
      refine ⟨⟨key, f, j.draft⟩ :: entries, ?_, ?_, hsublist.cons_cons f, ?_, ?_⟩
      · rw [Json.memberDrafts, hdrafts]
        rfl
      · intro e he
        rcases List.mem_cons.mp he with rfl | he
        · exact answersTo_iff.mpr (hkeys ▸ hkey)
        · exact hanswers e he
      · intro g hg hgrequired
        rcases List.mem_cons.mp hg with rfl | hg
        · exact List.mem_cons_self
        · exact List.mem_cons_of_mem _ (hrequired g hg hgrequired)
      · rw [List.foldlM_cons, Entry.read, hread j hj]
        exact hfold
    | omitted hrow hms =>
      obtain ⟨hoptional, rfl⟩ := homit hrow
      obtain ⟨entries, hdrafts, hanswers, hsublist, hrequired, hfold⟩ := ih hms
      refine ⟨entries, hdrafts, hanswers, hsublist.cons f, ?_, hfold⟩
      intro g hg hgrequired
      rcases List.mem_cons.mp hg with rfl | hg
      · rw [hoptional] at hgrequired
        cases hgrequired
      · exact hrequired g hg hgrequired

/-- A layout whose fields fill a record in reads every spelling of it. -/
theorem read_spelt {l : Layout α} (hl : l.Distinct) {rows : List FieldSpelling} {a : α}
    (h : Fills l.fields rows l.blank a) {j : Json} (hj : SpellsRecord rows j) (source : Source) :
    l.read source j.draft = .ok a := by
  obtain ⟨ms, rfl, hms⟩ := hj
  obtain ⟨entries, hdrafts, hanswers, hsublist, hrequired, hfold⟩ := h.exists_entries hms
  have hkeys : ∀ e ∈ entries, e.field ∈ l.fields ∧ e.field.answersTo e.key := by
    intro e he
    exact ⟨hsublist.subset (List.mem_map_of_mem he), hanswers e he⟩
  have hnodup : (entries.map (·.field.name)).Nodup := by
    have hnames := (hsublist.map Field.name).nodup (nodup_names hl)
    rwa [List.map_map] at hnames
  rw [Json.draft, hdrafts, read_entries hl hkeys hnodup hrequired source, hfold]

section Rows

variable {β : Type} {f : Field α} {fs : List (Field α)} {rows : List FieldSpelling} {a c : α}

/-- A field that reads a value and puts it into the record. -/
theorem Fills.field {read : Draft → Except ReadError β} {put : β → α} {row : FieldSpelling} {b : β}
    (hread : ∀ d, f.read d a = (read d).map put)
    (hvalue : ∀ j, row.spells j → read j.draft = .ok b)
    (homit : row.omittable → f.required = false ∧ a = put b)
    (hkeys : row.keys = f.name :: f.aliases) (h : Fills fs rows (put b) c) :
    Fills (f :: fs) (row :: rows) a c := by
  refine .cons hkeys ?_ homit h
  intro j hj
  rw [hread, hvalue j hj]
  rfl

theorem Fills.requiredText {put : String → α} {key text : String}
    (hread : ∀ d, f.read d a = (readText d).map put) (hkeys : [key] = f.name :: f.aliases)
    (h : Fills fs rows (put text) c) :
    Fills (f :: fs) (.requiredText key text :: rows) a c := by
  refine .field hread ?_ False.elim hkeys h
  rintro j rfl
  exact readText_string text

/-- A field that may be left out if its value is the one it has in the blank record. -/
theorem Fills.optional {read : Draft → Except ReadError β} {put : β → α} {keys : List String}
    {spells : Json → Prop} {b default : β} (hread : ∀ d, f.read d a = (read d).map put)
    (hvalue : ∀ j, spells j → read j.draft = .ok b) (hblank : a = put default)
    (hoptional : f.required = false) (hkeys : keys = f.name :: f.aliases)
    (h : Fills fs rows (put b) c) : Fills (f :: fs) (⟨keys, spells, b = default⟩ :: rows) a c := by
  refine .field hread hvalue ?_ hkeys h
  rintro rfl
  exact ⟨hoptional, hblank⟩

theorem Fills.text {put : String → α} {keys : List String} {text : String}
    (hread : ∀ d, f.read d a = (readText d).map put) (hblank : a = put "")
    (hoptional : f.required = false) (hkeys : keys = f.name :: f.aliases)
    (h : Fills fs rows (put text) c) : Fills (f :: fs) (.text keys text :: rows) a c := by
  refine .optional hread ?_ hblank hoptional hkeys h
  rintro j rfl
  exact readText_string text

end Rows

end Layout

/-! ## Reading the parts of a catalog -/

section Lists

variable {α : Type} {spells : α → Json → Prop} {as : List α} {js : List Json}

theorem readList_forall₂ {read : Draft → Except ReadError α} (hjs : List.Forall₂ spells as js)
    (h : ∀ a ∈ as, ∀ j, spells a j → read j.draft = .ok a) :
    readList read (Json.array js).draft = .ok as := by
  have hmem : List.Forall₂ (fun a j => a ∈ as ∧ spells a j) as js :=
    (List.forall₂_and_left as js).mpr ⟨fun _ ha => ha, hjs⟩
  exact readList_items (hmem.imp fun a j hj => h a hj.1 j hj.2).flip

theorem Layout.Fills.list {β : Type} {f : Field β} {fs : List (Field β)}
    {rows : List FieldSpelling} {a c : β} {read : Draft → Except ReadError α} {put : List α → β}
    {key : String} (hread : ∀ d, f.read d a = (readList read d).map put) (hblank : a = put [])
    (hoptional : f.required = false) (hkeys : [key] = f.name :: f.aliases)
    (hitems : ∀ b ∈ as, ∀ j, spells b j → read j.draft = .ok b) (h : Fills fs rows (put as) c) :
    Fills (f :: fs) (.list key spells as :: rows) a c := by
  refine .optional hread ?_ hblank hoptional hkeys h
  rintro j ⟨js, rfl, hjs⟩
  exact readList_forall₂ hjs hitems

theorem fits_of_forall₂ {room : Nat} (hroom : 0 < room) (hjs : List.Forall₂ spells as js)
    (h : ∀ a j, spells a j → j.Fits (room - 1)) : (Json.array js).Fits room := by
  rw [Json.Fits]
  refine ⟨hroom, ?_⟩
  induction hjs with
  | nil => trivial
  | cons hj _ ih => exact ⟨h _ _ hj, ih⟩

end Lists

theorem SpellsRecord.fits {rows : List FieldSpelling} {room : Nat} (hroom : 0 < room)
    (hrows : ∀ row ∈ rows, ∀ j, row.spells j → j.Fits (room - 1)) {j : Json}
    (hj : SpellsRecord rows j) : j.Fits room := by
  obtain ⟨ms, rfl, hms⟩ := hj
  rw [Json.Fits]
  refine ⟨hroom, ?_⟩
  induction hms with
  | nil => trivial
  | written hkey hj _ ih =>
    refine ⟨hrows _ List.mem_cons_self _ hj, ?_⟩
    exact ih fun row hrow => hrows row (List.mem_cons_of_mem _ hrow)
  | omitted _ _ ih => exact ih fun row hrow => hrows row (List.mem_cons_of_mem _ hrow)

theorem fits_text (text : String) (room : Nat) : ∀ j : Json, j = .string text → j.Fits room := by
  rintro j rfl
  trivial

theorem readValueType_spelt {t : ValueType} {j : Json} (h : SpellsType t j) :
    readValueType j.draft = .ok t := by
  cases h with
  | object id =>
    rw [readValueType_single, readAlternative, if_pos rfl, readText_string]
    rfl
  | text content =>
    rw [readValueType_single, readAlternative, if_neg (by decide), if_pos rfl]
    rfl
  | bareText =>
    rw [Json.draft, readValueType, StringLit.text_ofString]
    rfl

theorem readOptionalType_spelt {t : Option ValueType} {j : Json} (h : SpellsOptionalType t j) :
    readOptional readValueType j.draft = .ok t := by
  cases h with
  | null => rfl
  | type h =>
    have hread := readValueType_spelt h
    cases h with
    | object id => rw [readOptional_object, hread]; rfl
    | text content => rw [readOptional_object, hread]; rfl
    | bareText => exact congrArg (Except.map some) hread

theorem SpellsType.fits {t : ValueType} {j : Json} (h : SpellsType t j) {room : Nat}
    (hroom : 1 ≤ room) : j.Fits room := by
  cases h <;> simp [Json.Fits, Json.MembersFit] <;> omega

theorem SpellsOptionalType.fits {t : Option ValueType} {j : Json} (h : SpellsOptionalType t j)
    {room : Nat} (hroom : 1 ≤ room) : j.Fits room := by
  cases h with
  | null => trivial
  | type h => exact h.fits hroom

theorem read_pin_spelt (name : String) (source : Source) {p : Pin} {j : Json}
    (h : SpellsPin p j) : (pinLayout name).read source j.draft = .ok p := by
  refine Layout.read_spelt (pinLayout_distinct name) ?_ h source
  refine .requiredText (fun _ => rfl) rfl ?_
  refine .text (fun _ => rfl) rfl rfl rfl ?_
  exact .optional (fun _ => rfl) (fun _ => readOptionalType_spelt) rfl rfl rfl (.nil _)

theorem SpellsPin.fits {p : Pin} {j : Json} (h : SpellsPin p j) {room : Nat} (hroom : 2 ≤ room) :
    j.Fits room := by
  refine SpellsRecord.fits (by omega) ?_ h
  simp only [List.forall_mem_cons]
  exact ⟨fits_text _ _, fits_text _ _, fun j hj => hj.fits (by omega),
    List.forall_mem_nil _⟩

theorem SpellsPins.fits {pins : List Pin} {j : Json} (h : SpellsPins pins j) {room : Nat}
    (hroom : 3 ≤ room) : j.Fits room := by
  cases h with
  | list h => exact fits_of_forall₂ (by omega) h fun p j hp => hp.fits (by omega)
  | single h => exact h.fits (by omega)

/-- Pins are read from a list of them, and a list of one also from the pin itself. -/
theorem readPins_spelt (name : String) {room : Nat} (hroom : 3 ≤ room) {pins : List Pin} {j : Json}
    (h : SpellsPins pins j) : readPins name room j.draft = .ok pins := by
  have hvalue := Json.value_draft j (h.fits hroom)
  cases h with
  | list h =>
    have hlist := readList_forall₂ h fun p _ j hp => read_pin_spelt name .taken (j := j) hp
    rw [readPins, hvalue, hlist]
    rfl
  | single h =>
    have hpin := read_pin_spelt name .taken h
    obtain ⟨ms, rfl, -⟩ := h
    -- An object is no list, so it is tried as a pin next.
    have hlist : readList ((pinLayout name).read .taken) (Json.object ms).draft =
        .error (mismatch .list (Json.object ms).draft) := by
      rw [Json.draft]
      rfl
    rw [readPins, hvalue, hlist]
    simp only [hpin]
    rfl

theorem read_method_spelt {room : Nat} (hroom : 4 ≤ room) (source : Source) {m : Method} {j : Json}
    (h : SpellsMethod m j) : (methodLayout room).read source j.draft = .ok m := by
  refine Layout.read_spelt (methodLayout_distinct room) ?_ h source
  refine .requiredText (fun _ => rfl) rfl ?_
  refine .text (fun _ => rfl) rfl rfl rfl ?_
  refine .optional (fun _ => rfl) (fun _ => readPins_spelt "Input" (by omega)) rfl rfl rfl ?_
  exact .optional (fun _ => rfl) (fun _ => readPins_spelt "Output" (by omega)) rfl rfl rfl (.nil _)

theorem SpellsMethod.fits {m : Method} {j : Json} (h : SpellsMethod m j) {room : Nat}
    (hroom : 4 ≤ room) : j.Fits room := by
  refine SpellsRecord.fits (by omega) ?_ h
  simp only [List.forall_mem_cons]
  exact ⟨fits_text _ _, fits_text _ _, fun j hj => hj.fits (by omega),
    fun j hj => hj.fits (by omega), List.forall_mem_nil _⟩

theorem read_config_spelt {room : Nat} (hroom : 6 ≤ room) (source source' : Source) {c : Config}
    {j : Json} (h : SpellsConfig c j) :
    (configLayout source room).read source' j.draft = .ok c := by
  refine Layout.read_spelt (configLayout_distinct source room) ?_ h source'
  refine .requiredText (fun _ => rfl) rfl ?_
  refine .requiredText (fun _ => rfl) rfl ?_
  refine .text (fun _ => rfl) rfl rfl rfl ?_
  refine .text (fun _ => rfl) rfl rfl rfl ?_
  exact .list (fun _ => rfl) rfl rfl rfl
    (fun m _ j hm => read_method_spelt (by omega) source (j := j) hm) (.nil _)

theorem SpellsConfig.fits {c : Config} {j : Json} (h : SpellsConfig c j) {room : Nat}
    (hroom : 6 ≤ room) : j.Fits room := by
  refine SpellsRecord.fits (by omega) ?_ h
  simp only [List.forall_mem_cons]
  refine ⟨fits_text _ _, fits_text _ _, fits_text _ _, fits_text _ _, ?_,
    List.forall_mem_nil _⟩
  rintro j ⟨js, rfl, hjs⟩
  exact fits_of_forall₂ (by omega) hjs fun m j hm => hm.fits (by omega)

/-! ## Reading the parts of an endpoint -/

theorem toArgument_of_tagged {a : Argument} {tag text : String} (h : Tagged a.value tag text) :
    (TaggedText.mk a.name tag text).toArgument = .ok a := by
  obtain ⟨name, value⟩ := a
  cases h <;> simp [TaggedText.toArgument]

theorem readArgument_spelt {a : Argument} {j : Json} (h : SpellsArgument a j) :
    readArgument j.draft = .ok a := by
  obtain ⟨tag, text, htag, hj⟩ := h
  have hdistinct : argumentLayout.Distinct := by decide
  have hread : argumentLayout.read .text j.draft = .ok ⟨a.name, tag, text⟩ := by
    refine Layout.read_spelt hdistinct ?_ hj .text
    refine .text (fun _ => rfl) rfl rfl rfl ?_
    refine .text (fun _ => rfl) rfl rfl rfl ?_
    exact .text (fun _ => rfl) rfl rfl rfl (.nil _)
  rw [readArgument, hread]
  exact toArgument_of_tagged htag

/-- No name may be spelt as an empty one, and any other name is read as itself. -/
theorem readName_spelt {name : Option String} (hname : name ≠ some "") {j : Json}
    (h : SpellsOutputName name j) : (readOptional readText j.draft).map nonEmpty = .ok name := by
  cases h with
  | null => rfl
  | empty => rfl
  | name name => exact readName_writeName hname

theorem read_call_spelt {c : Call} (hc : c.NoEmptyOutput) {j : Json} (h : SpellsCall c j) :
    callLayout.read .text j.draft = .ok c := by
  refine Layout.read_spelt callLayout_distinct ?_ h .text
  refine .text (fun _ => rfl) rfl rfl rfl ?_
  refine .text (fun _ => rfl) rfl rfl rfl ?_
  refine .text (fun _ => rfl) rfl rfl rfl ?_
  -- What is read is struck out if it is empty before it is put into the record.
  have hname : ∀ d, (callLayout.fields.get ⟨3, by decide⟩).read d
      ⟨c.id, c.configId, c.methodName, none, []⟩ =
      ((readOptional readText d).map nonEmpty).map
        fun name => ⟨c.id, c.configId, c.methodName, name, []⟩ := by
    intro d
    show (readOptional readText d).map _ = _
    cases readOptional readText d <;> rfl
  refine .optional hname (fun _ => readName_spelt hc) rfl rfl rfl ?_
  exact .list (fun _ => rfl) rfl rfl rfl (fun a _ j ha => readArgument_spelt (j := j) ha) (.nil _)

theorem read_return_spelt {r : Return} {j : Json} (h : SpellsReturn r j) :
    returnLayout.read .text j.draft = .ok r := by
  have hdistinct : returnLayout.Distinct := by decide
  refine Layout.read_spelt hdistinct ?_ h .text
  refine .text (fun _ => rfl) rfl rfl rfl ?_
  exact .optional (fun _ => rfl) (fun _ => readArgument_spelt) rfl rfl rfl (.nil _)

theorem readStep_spelt {s : Step} (hs : s.NoEmptyOutput) {j : Json} (h : SpellsStep s j) :
    readStep j.draft = .ok s := by
  cases h with
  | @call c j h =>
    have hkind : StepKind.ofName? "CallMethod" = some .call := by decide
    rw [readStep_single, readStepContent, hkind]
    simp only [read_call_spelt (c := c) hs h]
    rfl
  | ret h =>
    have hkind : StepKind.ofName? "JsonReturn" = some .ret := by decide
    rw [readStep_single, readStepContent, hkind]
    simp only [read_return_spelt h]
    rfl

theorem read_endpoint_spelt {e : Endpoint} (he : e.NoEmptyOutput) {j : Json}
    (h : SpellsEndpoint e j) : endpointLayout.read .text j.draft = .ok e := by
  refine Layout.read_spelt endpointLayout_distinct ?_ h .text
  refine .text (fun _ => rfl) rfl rfl rfl ?_
  refine .requiredText (fun _ => rfl) rfl ?_
  refine .text (fun _ => rfl) rfl rfl rfl ?_
  refine .text (fun _ => rfl) rfl rfl rfl ?_
  exact .list (fun _ => rfl) rfl rfl rfl
    (fun s hs j hj => readStep_spelt (he s hs) (j := j) hj) (.nil _)

/-! ## Reading a workspace -/

theorem read_catalog_spelt {room : Nat} (hroom : 8 ≤ room) {c : Catalog}
    {ms : List (String × Json)} (h : Spelt [.list "configs" SpellsConfig c.configs] ms) :
    (catalogLayout .taken room).read .taken (Json.object ms).draft = .ok c := by
  refine Layout.read_spelt (catalogLayout_distinct .taken room) ?_ ⟨ms, rfl, h⟩ .taken
  exact .list (fun _ => rfl) rfl rfl rfl
    (fun c _ j hc => read_config_spelt (by omega) .taken .taken (j := j) hc) (.nil _)

theorem readWorkspaceMembers_endpoints (room : Nat) {es : List Endpoint}
    (hes : ∀ e ∈ es, e.NoEmptyOutput) {ms : List (String × Json)}
    (h : Spelt [.list "endpoints" SpellsEndpoint es] ms) (others : List (StringLit × Draft)) :
    ∃ found, readWorkspaceMembers room (Json.memberDrafts ms) none others =
      .ok (found, others.reverse) ∧ found.getD [] = es := by
  cases h with
  | @written _ _ key j ms hkey hj hms =>
    obtain ⟨js, rfl, hjs⟩ := hj
    obtain rfl : key = "endpoints" := List.mem_singleton.mp hkey
    cases hms
    have hread := readList_forall₂ hjs fun e he j hj => read_endpoint_spelt (hes e he) (j := j) hj
    refine ⟨some es, ?_, rfl⟩
    simp [Json.memberDrafts, readWorkspaceMembers, bind, Except.bind, hread]
  | omitted hnil hms =>
    cases hms
    exact ⟨none, rfl, Eq.symm hnil⟩

/-- Every spelling of a workspace is read as the workspace. -/
theorem readWorkspace_spelt {room : Nat} (hroom : 8 ≤ room) {w : Workspace} (hw : w.NoEmptyOutput)
    {j : Json} (h : SpellsWorkspace w j) : readWorkspace room j.draft = .ok w := by
  obtain ⟨ms, rfl, hms⟩ := h
  rw [Json.draft]
  cases hms with
  | @written _ _ key j ms hkey hj hms =>
    obtain rfl : key = "configs" := List.mem_singleton.mp hkey
    -- The configs are taken whole first, and read as a catalog after the endpoints.
    have hcatalog := read_catalog_spelt hroom (.written hkey hj .nil)
    have hvalue : j.draft.value (room - 1) = .ok j := by
      obtain ⟨js, rfl, hjs⟩ := hj
      exact Json.value_draft _
        (fits_of_forall₂ (by omega) hjs fun c j hc => SpellsConfig.fits hc (by omega))
    obtain ⟨found, hmembers, hfound⟩ := readWorkspaceMembers_endpoints (room - 1) hw hms
      [(StringLit.ofString "configs", j.draft)]
    rw [Json.draft, Json.memberDrafts, Json.memberDrafts] at hcatalog
    rw [readWorkspace, Json.memberDrafts, readWorkspaceMembers, StringLit.text_ofString]
    simp [bind, Except.bind, hvalue, hmembers, hcatalog, hfound, Json.ObjectStop.check, pure,
      Except.pure]
  | @omitted _ _ ms hnil hms =>
    have hcatalog := read_catalog_spelt hroom (.omitted hnil .nil)
    obtain ⟨found, hmembers, hfound⟩ := readWorkspaceMembers_endpoints (room - 1) hw hms []
    rw [Json.draft, Json.memberDrafts] at hcatalog
    simp [readWorkspace, bind, Except.bind, hmembers, hcatalog, hfound, Json.ObjectStop.check, pure,
      Except.pure]

/-- Every text of every spelling of a workspace is read as the workspace, unless a call in it binds
    an empty name: on indented lines, without blanks, and with any other blanks. -/
theorem decode_spelling {w : Workspace} (hw : w.NoEmptyOutput) {j : Json}
    (hj : SpellsWorkspace w j) :
    workspaceFormat.decode j.pretty = .ok w ∧ workspaceFormat.decode j.compact = .ok w ∧
      ∀ text, j.IsText text → workspaceFormat.decode text = .ok w := by
  have htexts : ∀ text, j.IsText text → workspaceFormat.decode text = .ok w :=
    fun text htext => Format.decode_isText htext (readWorkspace_spelt (by decide) hw hj)
  refine ⟨htexts _ ?_, htexts _ ?_, htexts⟩
  · exact Json.isText_render .indented j
  · exact Json.isText_render .compact j

/-- Old names, a bare pin and a bare type, an old tag, a text beside no value, an empty name for no
    name, and most of the fields left out. -/
theorem decode_spelling_legacy :
    let key : Json := .object [("name", .string "key"), ("type", .string "String")]
    let user : Json := .object [("name", .string "user"), ("type", .null)]
    let get : Json := .object [("name", .string "get"), ("input", key), ("output", .array [user])]
    let users : Json :=
      .object [("id", .string "c"), ("name", .string "Users"), ("methods", .array [get])]
    let arguments : List Json := [
      .object [("name", .string "key"), ("arg_type", .string "Suggested"),
        ("arg_type_value", .string "user")],
      .object [("arg_type_value", .string "old")]]
    let call : Json := .object [("config", .string "c"), ("method", .string "get"),
      ("out_variable_name", .string ""), ("arguments", .array arguments)]
    let list : Json := .object [("name", .string "List"), ("instructions", .array [
      .object [("CallMethod", call)], .object [("JsonReturn", .object [])]])]
    let document : Json := .object [("configs", .array [users]), ("endpoints", .array [list])]
    let w : Workspace := ⟨⟨[⟨"c", "Users", "", "", [
        ⟨"get", "", [⟨"key", "", some .text⟩], [⟨"user", "", none⟩]⟩]⟩]⟩,
      [⟨"", "List", "", "", [
        .call ⟨"", "c", "get", none, [⟨"key", .parameter "user"⟩, .blank]⟩,
        .ret ⟨"", .blank⟩]⟩]⟩
    w.NoEmptyOutput ∧ SpellsWorkspace w document ∧
      workspaceFormat.decode document.pretty = .ok w ∧
      workspaceFormat.decode document.compact = .ok w := by
  intro key user get users arguments call list document w
  have hw : w.NoEmptyOutput := by decide
  have hkey : SpellsPin ⟨"key", "", some .text⟩ key :=
    ⟨_, rfl, .written (by decide) rfl (.omitted rfl
      (.written (by decide) (.type .bareText) .nil))⟩
  have huser : SpellsPin ⟨"user", "", none⟩ user :=
    ⟨_, rfl, .written (by decide) rfl (.omitted rfl (.written (by decide) .null .nil))⟩
  have hget : SpellsMethod ⟨"get", "", [⟨"key", "", some .text⟩], [⟨"user", "", none⟩]⟩ get :=
    ⟨_, rfl, .written (by decide) rfl (.omitted rfl
      (.written (by decide) (.single hkey) (.written (by decide) (.list (.cons huser .nil)) .nil)))⟩
  have husers : List.Forall₂ SpellsConfig w.catalog.configs [users] :=
    .cons ⟨_, rfl, .written (by decide) rfl (.written (by decide) rfl (.omitted rfl (.omitted rfl
      (.written (by decide) ⟨_, rfl, .cons hget .nil⟩ .nil))))⟩ .nil
  have harguments :
      List.Forall₂ SpellsArgument [⟨"key", .parameter "user"⟩, .blank] arguments := by
    refine .cons ⟨_, _, .suggested "user", _, rfl, ?_⟩ (.cons ⟨_, _, .unset "old", _, rfl, ?_⟩ .nil)
    · exact .written (by decide) rfl (.written (by decide) rfl (.written (by decide) rfl .nil))
    · exact .omitted rfl (.omitted rfl (.written (by decide) rfl .nil))
  have hcall : SpellsCall ⟨"", "c", "get", none, [⟨"key", .parameter "user"⟩, .blank]⟩ call :=
    ⟨_, rfl, .omitted rfl (.written (by decide) rfl (.written (by decide) rfl
      (.written (by decide) .empty (.written (by decide) ⟨_, rfl, harguments⟩ .nil))))⟩
  have hreturn : SpellsReturn ⟨"", .blank⟩ (.object []) :=
    ⟨_, rfl, .omitted rfl (.omitted rfl .nil)⟩
  have hlist : List.Forall₂ SpellsEndpoint w.endpoints [list] :=
    .cons ⟨_, rfl, .omitted rfl (.written (by decide) rfl (.omitted rfl (.omitted rfl
      (.written (by decide) ⟨_, rfl, .cons (.call hcall) (.cons (.ret hreturn) .nil)⟩ .nil))))⟩ .nil
  have hdocument : SpellsWorkspace w document :=
    ⟨_, rfl, .written (by decide) ⟨_, rfl, husers⟩ (.written (by decide) ⟨_, rfl, hlist⟩ .nil)⟩
  obtain ⟨hpretty, hcompact, -⟩ := decode_spelling hw hdocument
  exact ⟨hw, hdocument, hpretty, hcompact⟩

end Wire

end CallFlow
