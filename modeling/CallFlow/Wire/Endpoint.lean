import CallFlow.Wire.Catalog

/-!
# Endpoints as documents

The arguments, steps and endpoints of JSON documents. The value of an argument is written as a tag
beside a text. Some fields are known under an older name, and the tag `Suggested` is an older
spelling of `Parameter`.

## Main definitions

- `CallFlow.Wire.argumentFormat`, `CallFlow.Wire.callFormat`, `CallFlow.Wire.returnFormat`,
  `CallFlow.Wire.stepFormat`, `CallFlow.Wire.endpointFormat`
-/

namespace CallFlow.Wire

open Json (Draft)

/-- An argument as it is written: a tag says what its text means. -/
structure TaggedText where
  name : String
  tag : String
  text : String
deriving DecidableEq, Repr

namespace TaggedText

/-- The argument that a tagged text stands for. -/
def toArgument (t : TaggedText) : Except ReadError Argument :=
  if t.tag = "Parameter" ∨ t.tag = "Suggested" then .ok ⟨t.name, .parameter t.text⟩
  else if t.tag = "String" then .ok ⟨t.name, .literal t.text⟩
  else if t.tag = "" then .ok ⟨t.name, .unset⟩
  else .error (.unknownTag t.tag)

/-- The tagged text of an argument. -/
def ofArgument (a : Argument) : TaggedText :=
  match a.value with
  | .parameter name => ⟨a.name, "Parameter", name⟩
  | .literal text => ⟨a.name, "String", text⟩
  | .unset => ⟨a.name, "", ""⟩

end TaggedText

/-- The layout of an argument. -/
def argumentLayout : Layout TaggedText where
  name := "RawArgument"
  blank := ⟨"", "", ""⟩
  fields := [
    { name := "name", read := fun d a => (readText d).map fun t => { a with name := t } },
    { name := "arg_type", read := fun d a => (readText d).map fun t => { a with tag := t } },
    { name := "arg_type_value", read := fun d a => (readText d).map fun t => { a with text := t } }]

/-- Reads an argument. Its tag is looked at when all of it has been read. -/
def readArgument (d : Draft) : Except ReadError Argument := do
  let t ← argumentLayout.read .text d
  t.toArgument

/-- An argument as a JSON value. -/
def writeArgument (a : Argument) : Json :=
  let t := TaggedText.ofArgument a
  .object [("name", .string t.name), ("arg_type", .string t.tag), ("arg_type_value", .string t.text)]

/-- An empty name counts as no name. -/
def nonEmpty (name : Option String) : Option String :=
  name.filter (· ≠ "")

/-- The layout of a call. -/
def callLayout : Layout Call where
  name := "CallMethod"
  blank := .blank
  fields := [
    { name := "id", read := fun d c => (readText d).map fun t => { c with id := t } },
    { name := "config_id", aliases := ["config"],
      read := fun d c => (readText d).map fun t => { c with configId := t } },
    { name := "method_name", aliases := ["method"],
      read := fun d c => (readText d).map fun t => { c with methodName := t } },
    { name := "output_name", aliases := ["out_variable_name"],
      read := fun d c =>
        (readOptional readText d).map fun name => { c with outputName := nonEmpty name } },
    { name := "arguments",
      read := fun d c => (readList readArgument d).map fun as => { c with arguments := as } }]

/-- A call as a JSON value. -/
def writeCall (c : Call) : Json :=
  .object [
    ("id", .string c.id),
    ("config_id", .string c.configId),
    ("method_name", .string c.methodName),
    ("output_name", match c.outputName with | none => .null | some name => .string name),
    ("arguments", .array (c.arguments.map writeArgument))]

/-- The layout of a return. -/
def returnLayout : Layout Return where
  name := "JsonReturn"
  blank := .blank
  fields := [
    { name := "id", read := fun d r => (readText d).map fun t => { r with id := t } },
    { name := "argument", read := fun d r => (readArgument d).map fun a => { r with argument := a } }]

/-- A return as a JSON value. -/
def writeReturn (r : Return) : Json :=
  .object [("id", .string r.id), ("argument", writeArgument r.argument)]

/-- The names of the kinds of steps. -/
def stepNames : List String := StepKind.all.map StepKind.name

/-- Reads the content of a step under the name of its kind. -/
def readStepContent (name : String) (content : Draft) : Except ReadError Step :=
  match StepKind.ofName? name with
  | some .call => (callLayout.read .text content).map .call
  | some .ret => (returnLayout.read .text content).map .ret
  | none => .error (.unknownName name stepNames)

/-- Reads a step: an object whose only member is named for the step's kind. Anything else where
    the step or the closing brace is due is no value of this kind. -/
def readStep : Draft → Except ReadError Step
  | .object [] .closed => .error (.malformed .expectedValue)
  | .object [] stop => do
    malformed stop.check
    .error (.malformed .expectedValue)
  | .object ((k, v) :: rest) stop => do
    let name ← malformed k.text
    let step ← readStepContent name v
    match rest, stop with
    | [], .closed => return step
    | [], .cut => .error (.malformed (.endOfText .object))
    | _, _ => .error (.malformed .expectedValue)
  | .string s => do
    let name ← malformed s.text
    match StepKind.ofName? name with
    | some _ => .error (.wrongKind .bareName .content)
    | none => .error (.unknownName name stepNames)
  | .unread .missing => .error (.malformed (.endOfText .value))
  | _ => .error (.malformed .expectedValue)

/-- A step as a JSON value. -/
def writeStep : Step → Json
  | .call c => .object [(StepKind.call.name, writeCall c)]
  | .ret r => .object [(StepKind.ret.name, writeReturn r)]

/-- The layout of an endpoint. -/
def endpointLayout : Layout Endpoint where
  name := "Endpoint"
  blank := .blank
  fields := [
    { name := "id", read := fun d e => (readText d).map fun t => { e with id := t } },
    { name := "name", required := true,
      read := fun d e => (readText d).map fun t => { e with name := t } },
    { name := "description", read := fun d e => (readText d).map fun t => { e with description := t } },
    { name := "url", read := fun d e => (readText d).map fun t => { e with url := t } },
    { name := "instructions",
      read := fun d e => (readList readStep d).map fun steps => { e with steps := steps } }]

/-- An endpoint as a JSON value. -/
def writeEndpoint (e : Endpoint) : Json :=
  .object [
    ("id", .string e.id),
    ("name", .string e.name),
    ("description", .string e.description),
    ("url", .string e.url),
    ("instructions", .array (e.steps.map writeStep))]

/-- Arguments as documents. -/
def argumentFormat : Format Argument := ⟨readArgument, writeArgument⟩

/-- Calls as documents. -/
def callFormat : Format Call := ⟨callLayout.read .text, writeCall⟩

/-- Returns as documents. -/
def returnFormat : Format Return := ⟨returnLayout.read .text, writeReturn⟩

/-- Steps as documents. -/
def stepFormat : Format Step := ⟨readStep, writeStep⟩

/-- Endpoints as documents. -/
def endpointFormat : Format Endpoint := ⟨endpointLayout.read .text, writeEndpoint⟩

end CallFlow.Wire
