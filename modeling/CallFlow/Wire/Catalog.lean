import CallFlow.Catalog
import CallFlow.Wire.Format

/-!
# Catalogs as documents

The types, pins, methods, configs and catalogs of JSON documents. A type is an object with the
single member `Object` or `String`; what stands under `String` does not matter, and the bare
string `"String"` is accepted too. The inputs and the outputs of a method are a list, or a single
pin that stands for a list of one.

## Main definitions

- `CallFlow.Wire.valueTypeFormat`, `CallFlow.Wire.inputFormat`, `CallFlow.Wire.outputFormat`,
  `CallFlow.Wire.methodFormat`, `CallFlow.Wire.configFormat`, `CallFlow.Wire.catalogFormat`
-/

namespace CallFlow.Wire

open Json (Draft)

/-- The names of the alternatives of a type. -/
def valueTypeNames : List String := ["Object", "String"]

/-- Reads the content of a type under the name of its alternative. -/
def readAlternative (name : String) (content : Draft) : Except ReadError ValueType :=
  if name = "Object" then (readText content).map .object
  else if name = "String" then (malformed content.skip).map fun _ => .text
  else .error (.unknownName name valueTypeNames)

/-- Reads a type. The first member decides; a second one is one too many. -/
def readValueType : Draft → Except ReadError ValueType
  | .string s => do
    let name ← malformed s.text
    if name = "String" then return .text else .error (.unknownName name valueTypeNames)
  | .object [] stop => do
    malformed stop.check
    .error (.wrongLength 0 .valueType)
  | .object [(k, v)] stop => do
    let name ← malformed k.text
    let type ← readAlternative name v
    malformed stop.check
    return type
  | .object ((k, v) :: (k', _) :: _) _ => do
    let name ← malformed k.text
    let _ ← readAlternative name v
    let _ ← malformed k'.text
    .error (.wrongLength 2 .valueType)
  | d => .error (mismatch .valueType d)

/-- A type as a JSON value. -/
def writeValueType : ValueType → Json
  | .object id => .object [("Object", .string id)]
  | .text => .object [("String", .string "")]

/-- Reads a value that may be absent: `null` stands for none. -/
def readOptional {α : Type} (read : Draft → Except ReadError α) :
    Draft → Except ReadError (Option α)
  | .null => .ok none
  | d => (read d).map some

/-- The layout of a pin. `name` is its name in messages. -/
def pinLayout (name : String) : Layout Pin where
  name := name
  blank := ⟨"", "", none⟩
  fields := [
    { name := "name", required := true,
      read := fun d p => (readText d).map fun t => { p with name := t } },
    { name := "description",
      read := fun d p => (readText d).map fun t => { p with description := t } },
    { name := "type",
      read := fun d p => (readOptional readValueType d).map fun t => { p with type := t } }]

/-- A pin as a JSON value. The type is left out if there is none. -/
def writePin (p : Pin) : Json :=
  let type :=
    match p.type with
    | none => []
    | some t => [("type", writeValueType t)]
  .object ([("name", .string p.name), ("description", .string p.description)] ++ type)

/-- Reads a list of pins, or a single one. The value is taken whole first, with at most `room`
    arrays and objects inside each other. -/
def readPins (name : String) (room : Nat) (d : Draft) : Except ReadError (List Pin) := do
  let _ ← malformed (d.value room)
  match readList ((pinLayout name).read .taken) d with
  | .ok pins => return pins
  | .error _ =>
    match (pinLayout name).read .taken d with
    | .ok pin => return [pin]
    | .error _ => .error .neitherListNorItem

/-- The layout of a method that has `room` for arrays and objects inside each other. -/
def methodLayout (room : Nat) : Layout Method where
  name := "Method"
  blank := ⟨"", "", [], []⟩
  fields := [
    { name := "name", required := true,
      read := fun d m => (readText d).map fun t => { m with name := t } },
    { name := "description",
      read := fun d m => (readText d).map fun t => { m with description := t } },
    { name := "input",
      read := fun d m => (readPins "Input" (room - 1) d).map fun ps => { m with inputs := ps } },
    { name := "output",
      read := fun d m =>
        (readPins "Output" (room - 1) d).map fun ps => { m with outputs := ps } }]

/-- A method as a JSON value. -/
def writeMethod (m : Method) : Json :=
  .object [
    ("name", .string m.name),
    ("description", .string m.description),
    ("input", .array (m.inputs.map writePin)),
    ("output", .array (m.outputs.map writePin))]

/-- The layout of a config that has `room` for arrays and objects inside each other. -/
def configLayout (source : Source) (room : Nat) : Layout Config where
  name := "Config"
  blank := ⟨"", "", "", "", []⟩
  fields := [
    { name := "id", required := true,
      read := fun d c => (readText d).map fun t => { c with id := t } },
    { name := "name", required := true,
      read := fun d c => (readText d).map fun t => { c with name := t } },
    { name := "path",
      read := fun d c => (readText d).map fun t => { c with path := t } },
    { name := "description",
      read := fun d c => (readText d).map fun t => { c with description := t } },
    { name := "methods",
      read := fun d c =>
        (readList ((methodLayout (room - 2)).read source) d).map fun ms =>
          { c with methods := ms } }]

/-- A config as a JSON value. -/
def writeConfig (c : Config) : Json :=
  .object [
    ("id", .string c.id),
    ("name", .string c.name),
    ("path", .string c.path),
    ("description", .string c.description),
    ("methods", .array (c.methods.map writeMethod))]

/-- The layout of a catalog that has `room` for arrays and objects inside each other. -/
def catalogLayout (source : Source) (room : Nat) : Layout Catalog where
  name := "Catalog"
  blank := .empty
  fields := [
    { name := "configs",
      read := fun d c =>
        (readList ((configLayout source (room - 2)).read source) d).map fun cs =>
          { c with configs := cs } }]

/-- A catalog as a JSON value. -/
def writeCatalog (c : Catalog) : Json :=
  .object [("configs", .array (c.configs.map writeConfig))]

/-- Types as documents. -/
def valueTypeFormat : Format ValueType := ⟨readValueType, writeValueType⟩

/-- Inputs as documents. -/
def inputFormat : Format Pin := ⟨(pinLayout "Input").read .text, writePin⟩

/-- Outputs as documents. -/
def outputFormat : Format Pin := ⟨(pinLayout "Output").read .text, writePin⟩

/-- Methods as documents. -/
def methodFormat : Format Method := ⟨(methodLayout Json.depthLimit).read .text, writeMethod⟩

/-- Configs as documents. -/
def configFormat : Format Config := ⟨(configLayout .text Json.depthLimit).read .text, writeConfig⟩

/-- Catalogs as documents. -/
def catalogFormat : Format Catalog :=
  ⟨(catalogLayout .text Json.depthLimit).read .text, writeCatalog⟩

end CallFlow.Wire
