import CallFlow.Proofs.Canonical
import CallFlow.Proofs.Wire.Record
import CallFlow.Wire.Workspace

/-!
# Reading documents back

Each kind of document is read back from the draft of its JSON value. What a catalog holds is read
whole before it is taken apart, so its depth counts there. A call is read back unless it binds an
empty name, and no call that was read does.

## Main statements

- `CallFlow.Wire.read_writeCatalog`, `CallFlow.Wire.read_writeEndpoint`,
  `CallFlow.Wire.readWorkspace_writeWorkspace` — documents are read back
- `CallFlow.Wire.noEmptyOutput_of_readWorkspace` — no call of a workspace that was read binds an
  empty name
-/

namespace CallFlow.Wire

open Json (Draft StringLit)

/-! ## Types, pins and methods -/

/-- A type with one member is read by what stands under its name. -/
theorem readValueType_single (name : String) (content : Json) :
    readValueType (Json.object [(name, content)]).draft = readAlternative name content.draft := by
  rw [Json.draft, Json.memberDrafts, Json.memberDrafts, readValueType, StringLit.text_ofString,
    malformed_ok]
  cases h : readAlternative name content.draft with
  | error e => simp only [bind, Except.bind, h]
  | ok v =>
    simp only [bind, Except.bind, h]
    rfl

@[simp] theorem readValueType_writeValueType (t : ValueType) :
    readValueType (writeValueType t).draft = .ok t := by
  cases t with
  | object id =>
    rw [writeValueType, readValueType_single, readAlternative, if_pos rfl, readText_string]
    rfl
  | text =>
    rw [writeValueType, readValueType_single, readAlternative, if_neg (by decide), if_pos rfl]
    rfl

theorem pinLayout_distinct (name : String) : (pinLayout name).Distinct := by
  show ["name", "description", "type"].Nodup
  decide

/-- An object is no `null`, so it is read as a value that is there. -/
theorem readOptional_object {α : Type} (read : Draft → Except ReadError α)
    (members : List (String × Json)) :
    readOptional read (Json.object members).draft =
      (read (Json.object members).draft).map some := by
  rw [Json.draft, readOptional]
  simp

theorem readOptional_writeValueType (t : ValueType) :
    readOptional readValueType (writeValueType t).draft = .ok (some t) := by
  have hread := readValueType_writeValueType t
  cases t <;> rw [writeValueType] at hread ⊢ <;> rw [readOptional_object, hread] <;> rfl

/-- A pin is read back wherever its draft comes from. -/
theorem read_writePin (name : String) (source : Source) (p : Pin) :
    (pinLayout name).read source (writePin p).draft = .ok p := by
  obtain ⟨pname, description, type⟩ := p
  cases type with
  | none =>
    -- The type is left out, so only the first two fields are written.
    refine (Layout.read_written (pinLayout_distinct name)
      ((pinLayout name).fields.zip [.string pname, .string description])
      (List.take_sublist 2 (pinLayout name).fields) (by simp [pinLayout]) source).trans ?_
    simp [pinLayout, Except.map, bind, Except.bind, pure, Except.pure]
  | some t =>
    refine (Layout.read_zip (pinLayout_distinct name)
      [.string pname, .string description, writeValueType t] rfl source).trans ?_
    simp [pinLayout, Except.map, bind, Except.bind, pure, Except.pure, readOptional_writeValueType]

/-- An array of written values fits if each of them fits below it. -/
theorem fits_array {α : Type} {write : α → Json} {room : Nat} (hroom : 0 < room) {as : List α}
    (h : ∀ a, (write a).Fits (room - 1)) : (Json.array (as.map write)).Fits room := by
  rw [Json.Fits]
  refine ⟨hroom, Json.itemsFit_iff.mpr ?_⟩
  intro j hj
  obtain ⟨a, -, rfl⟩ := List.mem_map.mp hj
  exact h a

theorem fits_writeValueType {room : Nat} (h : 1 ≤ room) (t : ValueType) :
    (writeValueType t).Fits room := by
  cases t <;> simp [writeValueType, Json.Fits, Json.MembersFit] <;> omega

theorem fits_writePin {room : Nat} (h : 2 ≤ room) (p : Pin) : (writePin p).Fits room := by
  have htype := fits_writeValueType (show 1 ≤ room - 1 by omega)
  obtain ⟨pname, description, type⟩ := p
  cases type <;> simp [writePin, Json.Fits, Json.MembersFit, htype] <;> omega

theorem fits_pins {room : Nat} (h : 3 ≤ room) (pins : List Pin) :
    (Json.array (pins.map writePin)).Fits room :=
  fits_array (by omega) (fits_writePin (by omega))

/-- Pins are read back if there is room for a list of typed pins. -/
theorem readPins_pins (name : String) {room : Nat} (h : 3 ≤ room) (pins : List Pin) :
    readPins name room (Json.array (pins.map writePin)).draft = .ok pins := by
  have hvalue := Json.value_draft _ (fits_pins h pins)
  have hlist := readList_array fun p (_ : p ∈ pins) => read_writePin name .taken p
  rw [readPins, hvalue, hlist]
  rfl

theorem methodLayout_distinct (room : Nat) : (methodLayout room).Distinct := by
  show ["name", "description", "input", "output"].Nodup
  decide

theorem read_writeMethod {room : Nat} (h : 4 ≤ room) (source : Source) (m : Method) :
    (methodLayout room).read source (writeMethod m).draft = .ok m := by
  have hpins := fun name => readPins_pins name (show 3 ≤ room - 1 by omega)
  refine (Layout.read_zip (methodLayout_distinct room)
    [.string m.name, .string m.description, .array (m.inputs.map writePin),
      .array (m.outputs.map writePin)] rfl source).trans ?_
  simp [methodLayout, Except.map, bind, Except.bind, pure, Except.pure, hpins]

theorem fits_writeMethod {room : Nat} (h : 4 ≤ room) (m : Method) : (writeMethod m).Fits room := by
  have hpins := fits_pins (show 3 ≤ room - 1 by omega)
  simp only [writeMethod, Json.Fits, Json.MembersFit]
  exact ⟨by omega, trivial, trivial, hpins m.inputs, hpins m.outputs, trivial⟩

/-! ## Configs and catalogs -/

theorem configLayout_distinct (source : Source) (room : Nat) :
    (configLayout source room).Distinct := by
  show ["id", "name", "path", "description", "methods"].Nodup
  decide

theorem read_writeConfig {room : Nat} (h : 6 ≤ room) (source source' : Source) (c : Config) :
    (configLayout source room).read source' (writeConfig c).draft = .ok c := by
  have hmethods := readList_array fun m (_ : m ∈ c.methods) =>
    read_writeMethod (show 4 ≤ room - 2 by omega) source m
  refine (Layout.read_zip (configLayout_distinct source room)
    [.string c.id, .string c.name, .string c.path, .string c.description,
      .array (c.methods.map writeMethod)] rfl source').trans ?_
  simp [configLayout, Except.map, bind, Except.bind, pure, Except.pure, hmethods]

theorem fits_writeConfig {room : Nat} (h : 6 ≤ room) (c : Config) : (writeConfig c).Fits room := by
  have hmethods : (Json.array (c.methods.map writeMethod)).Fits (room - 1) :=
    fits_array (by omega) (fits_writeMethod (by omega))
  simp only [writeConfig, Json.Fits, Json.MembersFit]
  rw [Json.Fits] at hmethods
  exact ⟨by omega, trivial, trivial, trivial, trivial, hmethods, trivial⟩

theorem catalogLayout_distinct (source : Source) (room : Nat) :
    (catalogLayout source room).Distinct := by
  show ["configs"].Nodup
  decide

/-- A catalog is read back if there is room for all that may stand inside each other in it. -/
theorem read_writeCatalog {room : Nat} (h : 8 ≤ room) (source source' : Source) (c : Catalog) :
    (catalogLayout source room).read source' (writeCatalog c).draft = .ok c := by
  have hconfigs := readList_array fun config (_ : config ∈ c.configs) =>
    read_writeConfig (show 6 ≤ room - 2 by omega) source source config
  refine (Layout.read_zip (catalogLayout_distinct source room)
    [.array (c.configs.map writeConfig)] rfl source').trans ?_
  simp [catalogLayout, Except.map, bind, Except.bind, pure, Except.pure, hconfigs]

/-! ## Arguments, steps and endpoints -/

theorem toArgument_ofArgument (a : Argument) : (TaggedText.ofArgument a).toArgument = .ok a := by
  obtain ⟨name, value⟩ := a
  cases value <;> simp [TaggedText.ofArgument, TaggedText.toArgument]

theorem readArgument_writeArgument (a : Argument) :
    readArgument (writeArgument a).draft = .ok a := by
  have hdistinct : argumentLayout.Distinct := by decide
  have hread : argumentLayout.read .text (writeArgument a).draft =
      .ok (TaggedText.ofArgument a) := by
    refine (Layout.read_zip hdistinct [.string _, .string _, .string _] rfl .text).trans ?_
    simp [argumentLayout, Except.map, bind, Except.bind, pure, Except.pure]
  rw [readArgument, hread]
  exact toArgument_ofArgument a

/-- An optional name as a JSON value. -/
def writeName : Option String → Json
  | none => .null
  | some name => .string name

/-- A name that is not empty is read back, and so is no name. -/
theorem readName_writeName {name : Option String} (h : name ≠ some "") :
    (readOptional readText (writeName name).draft).map nonEmpty = .ok name := by
  cases name with
  | none => rfl
  | some name =>
    have hname : name ≠ "" := fun hname => h (congrArg some hname)
    have hread : readOptional readText (Json.string name).draft =
        (readText (Json.string name).draft).map some := rfl
    rw [writeName, hread, readText_string]
    simp [Except.map, nonEmpty, hname]

theorem callLayout_distinct : callLayout.Distinct := by
  decide

/-- A call is read back unless it binds an empty name. -/
theorem read_writeCall {c : Call} (h : c.NoEmptyOutput) :
    callLayout.read .text (writeCall c).draft = .ok c := by
  have hname := readName_writeName h
  obtain ⟨found, hfound, hnonEmpty⟩ := map_eq_ok.mp hname
  have harguments := readList_array fun a (_ : a ∈ c.arguments) => readArgument_writeArgument a
  have hwritten : writeCall c = Layout.written (callLayout.fields.zip
      [.string c.id, .string c.configId, .string c.methodName, writeName c.outputName,
        .array (c.arguments.map writeArgument)]) := by
    obtain ⟨_, _, _, outputName, _⟩ := c
    cases outputName <;> rfl
  rw [hwritten, Layout.read_zip callLayout_distinct _ rfl]
  simp [callLayout, Except.map, bind, Except.bind, pure, Except.pure, harguments, hfound, hnonEmpty]

theorem read_writeReturn (r : Return) : returnLayout.read .text (writeReturn r).draft = .ok r := by
  have hdistinct : returnLayout.Distinct := by decide
  refine (Layout.read_zip hdistinct [.string r.id, writeArgument r.argument] rfl .text).trans ?_
  simp [returnLayout, Except.map, bind, Except.bind, pure, Except.pure, readArgument_writeArgument]

theorem readStep_single (name : String) (content : Json) :
    readStep (Json.object [(name, content)]).draft = readStepContent name content.draft := by
  rw [Json.draft, Json.memberDrafts, Json.memberDrafts, readStep, StringLit.text_ofString,
    malformed_ok]
  cases h : readStepContent name content.draft with
  | error e => simp only [bind, Except.bind, h]
  | ok v =>
    simp only [bind, Except.bind, h]
    rfl

/-- A step is read back unless it binds an empty name. -/
theorem readStep_writeStep {s : Step} (h : s.NoEmptyOutput) :
    readStep (writeStep s).draft = .ok s := by
  cases s with
  | call c =>
    have hkind : StepKind.ofName? StepKind.call.name = some .call := by decide
    rw [writeStep, readStep_single, readStepContent, hkind]
    simp only [read_writeCall h]
    rfl
  | ret r =>
    have hkind : StepKind.ofName? StepKind.ret.name = some .ret := by decide
    rw [writeStep, readStep_single, readStepContent, hkind]
    simp only [read_writeReturn]
    rfl

theorem endpointLayout_distinct : endpointLayout.Distinct := by
  decide

/-- An endpoint is read back unless one of its calls binds an empty name. -/
theorem read_writeEndpoint {e : Endpoint} (h : e.NoEmptyOutput) :
    endpointLayout.read .text (writeEndpoint e).draft = .ok e := by
  have hsteps := readList_array fun s hs => readStep_writeStep (h s hs)
  refine (Layout.read_zip endpointLayout_distinct
    [.string e.id, .string e.name, .string e.description, .string e.url,
      .array (e.steps.map writeStep)] rfl .text).trans ?_
  simp [endpointLayout, Except.map, bind, Except.bind, pure, Except.pure, hsteps]

/-! ## Workspaces -/

/-- A workspace is read back unless a call of one of its endpoints binds an empty name. -/
theorem readWorkspace_writeWorkspace {room : Nat} (hroom : 8 ≤ room) {w : Workspace}
    (h : w.NoEmptyOutput) : readWorkspace room (writeWorkspace w).draft = .ok w := by
  -- The configs stand beside the endpoints and are read as a catalog of their own in the end.
  have hcatalog := read_writeCatalog hroom .taken .taken w.catalog
  have hconfigs : (Json.array (w.catalog.configs.map writeConfig)).draft.value (room - 1) = _ :=
    Json.value_draft _ (fits_array (by omega) (fits_writeConfig (by omega)))
  have hendpoints := readList_array fun e he => read_writeEndpoint (h e he)
  rw [writeCatalog, Json.draft, Json.memberDrafts, Json.memberDrafts] at hcatalog
  rw [writeWorkspace, Json.draft, readWorkspace]
  simp [Json.memberDrafts, readWorkspaceMembers, bind, Except.bind, hconfigs, hendpoints, hcatalog,
    Json.ObjectStop.check, pure, Except.pure]

/-! ## What is never read -/

/-- No call that was read binds an empty name. -/
theorem noEmptyOutput_of_readCall {source : Source} {d : Draft} {c : Call}
    (h : callLayout.read source d = .ok c) : c.NoEmptyOutput := by
  refine Layout.read_preserves (P := Call.NoEmptyOutput) (by decide) ?_ h
  intro f hf d c c' hc hread
  simp only [callLayout, List.mem_cons, List.not_mem_nil, or_false] at hf
  -- Only the fourth field touches the name, and it strikes out an empty one.
  rcases hf with rfl | rfl | rfl | rfl | rfl
  · obtain ⟨_, -, rfl⟩ := map_eq_ok.mp hread
    exact hc
  · obtain ⟨_, -, rfl⟩ := map_eq_ok.mp hread
    exact hc
  · obtain ⟨_, -, rfl⟩ := map_eq_ok.mp hread
    exact hc
  · obtain ⟨name, -, rfl⟩ := map_eq_ok.mp hread
    exact filter_ne_some_empty name
  · obtain ⟨_, -, rfl⟩ := map_eq_ok.mp hread
    exact hc

theorem noEmptyOutput_of_readStepContent {name : String} {d : Draft} {s : Step}
    (h : readStepContent name d = .ok s) : s.NoEmptyOutput := by
  unfold readStepContent at h
  split at h
  · obtain ⟨c, hc, rfl⟩ := map_eq_ok.mp h
    exact noEmptyOutput_of_readCall hc
  · obtain ⟨r, -, rfl⟩ := map_eq_ok.mp h
    exact Option.some_ne_none "" ∘ Eq.symm
  · cases h

/-- No step that was read binds an empty name. -/
theorem noEmptyOutput_of_readStep {d : Draft} {s : Step} (h : readStep d = .ok s) :
    s.NoEmptyOutput := by
  unfold readStep at h
  split at h
  · cases h
  · obtain ⟨_, -, h⟩ := bind_eq_ok.mp h
    cases h
  · obtain ⟨name, -, h⟩ := bind_eq_ok.mp h
    obtain ⟨step, hstep, h⟩ := bind_eq_ok.mp h
    split at h
    · cases h
      exact noEmptyOutput_of_readStepContent hstep
    · cases h
    · cases h
  · obtain ⟨name, -, h⟩ := bind_eq_ok.mp h
    split at h <;> cases h
  · cases h
  · cases h

/-- No call of an endpoint that was read binds an empty name. -/
theorem noEmptyOutput_of_readEndpoint {source : Source} {d : Draft} {e : Endpoint}
    (h : endpointLayout.read source d = .ok e) : e.NoEmptyOutput := by
  refine Layout.read_preserves (P := Endpoint.NoEmptyOutput) (by decide) ?_ h
  intro f hf d e e' he hread
  simp only [endpointLayout, List.mem_cons, List.not_mem_nil, or_false] at hf
  rcases hf with rfl | rfl | rfl | rfl | rfl
  · obtain ⟨_, -, rfl⟩ := map_eq_ok.mp hread
    exact he
  · obtain ⟨_, -, rfl⟩ := map_eq_ok.mp hread
    exact he
  · obtain ⟨_, -, rfl⟩ := map_eq_ok.mp hread
    exact he
  · obtain ⟨_, -, rfl⟩ := map_eq_ok.mp hread
    exact he
  · obtain ⟨steps, hsteps, rfl⟩ := map_eq_ok.mp hread
    intro s hs
    obtain ⟨d', hd'⟩ := exists_of_readList hsteps s hs
    exact noEmptyOutput_of_readStep hd'

theorem noEmptyOutput_of_readWorkspaceMembers {room : Nat}
    {members others others' : List (StringLit × Draft)}
    {endpoints endpoints' : Option (List Endpoint)}
    (hendpoints : ∀ e ∈ endpoints.getD [], e.NoEmptyOutput)
    (h : readWorkspaceMembers room members endpoints others = .ok (endpoints', others')) :
    ∀ e ∈ endpoints'.getD [], e.NoEmptyOutput := by
  induction members generalizing endpoints others with
  | nil =>
    cases h
    exact hendpoints
  | cons m members ih =>
    rw [readWorkspaceMembers] at h
    obtain ⟨name, -, h⟩ := bind_eq_ok.mp h
    split at h
    · split at h
      · cases h
      · obtain ⟨es, hes, h⟩ := bind_eq_ok.mp h
        refine ih ?_ h
        intro e he
        obtain ⟨d', hd'⟩ := exists_of_readList hes e he
        exact noEmptyOutput_of_readEndpoint hd'
    · obtain ⟨_, -, h⟩ := bind_eq_ok.mp h
      exact ih hendpoints h

/-- No call of a workspace that was read binds an empty name. -/
theorem noEmptyOutput_of_readWorkspace {room : Nat} {d : Draft} {w : Workspace}
    (h : readWorkspace room d = .ok w) : w.NoEmptyOutput := by
  unfold readWorkspace at h
  split at h
  · obtain ⟨⟨endpoints, others⟩, hmembers, h⟩ := bind_eq_ok.mp h
    obtain ⟨_, -, h⟩ := bind_eq_ok.mp h
    obtain ⟨catalog, -, h⟩ := bind_eq_ok.mp h
    cases h
    exact noEmptyOutput_of_readWorkspaceMembers (by simp) hmembers
  · cases h

end CallFlow.Wire
