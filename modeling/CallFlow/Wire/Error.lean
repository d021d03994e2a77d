import CallFlow.Json.Draft
import CallFlow.Text.Quoted

/-!
# Why a document is refused

Documents are read from JSON texts. A text may be malformed, or well formed and not say what the
document needs; the first of these met in the text is reported.

## Main definitions

- `CallFlow.Wire.ReadError` — the causes for which a document is refused
- `CallFlow.Wire.ReadError.message` — their wording
- `CallFlow.Wire.mismatch` — the error for a value of the wrong kind
-/

namespace CallFlow.Wire

/-- What stands where something else is expected. -/
inductive Found where
  | null
  | bool (b : Bool)
  | integer (n : Int)
  /-- A double, as text. -/
  | double (text : String)
  | string (s : String)
  | list
  | object
  /-- The name of an alternative without its content. -/
  | bareName
deriving DecidableEq, Repr

/-- What is expected. -/
inductive Expected where
  | text
  | list
  /-- A record of the given name. -/
  | record (name : String)
  /-- A record of the given name, written as a list of its fields. -/
  | fieldsOf (name : String) (count : Nat)
  /-- A list with the given number of items. -/
  | items (count : Nat)
  | valueType
  /-- The content of an alternative. -/
  | content
deriving DecidableEq, Repr

/-- Why a document is refused. -/
inductive ReadError where
  | malformed (f : Json.Fault)
  | wrongKind (found : Found) (expected : Expected)
  | wrongLength (length : Nat) (expected : Expected)
  /-- The name of an alternative is none of the known ones. -/
  | unknownName (name : String) (known : List String)
  | missingField (name : String)
  | repeatedField (name : String)
  /-- A value is neither a list of pins nor a pin. -/
  | neitherListNorItem
  /-- The tag of an argument is none of the known ones. -/
  | unknownTag (tag : String)
deriving DecidableEq, Repr

namespace Found

/-- The wording of what was found. -/
def message : Found → String
  | null => "null"
  | bool b => s!"boolean `{b}`"
  | integer n => s!"integer `{n}`"
  | double text => s!"floating point `{text}`"
  | string s => "string " ++ Text.quoted s
  | list => "sequence"
  | object => "map"
  | bareName => "unit variant"

end Found

namespace Expected

/-- The wording of what is expected. -/
def message : Expected → String
  | text => "a string"
  | list => "a sequence"
  | record name => s!"struct {name}"
  | fieldsOf name 1 => s!"struct {name} with 1 element"
  | fieldsOf name count => s!"struct {name} with {count} elements"
  | items 1 => "1 element in sequence"
  | items count => s!"{count} elements in sequence"
  | valueType => r#"a single-key object {"Object": id} or {"String": ""}"#
  | content => "newtype variant"

end Expected

/-- Known names, each between backquotes: two joined by "or", more after "one of". -/
def knownNames : List String → String
  | [] => "there are no variants"
  | [a] => s!"expected `{a}`"
  | [a, b] => s!"expected `{a}` or `{b}`"
  | names => "expected one of " ++ ", ".intercalate (names.map fun a => s!"`{a}`")

namespace ReadError

/-- The wording of an error. -/
def message : ReadError → String
  | malformed f => f.message
  | wrongKind found expected => s!"invalid type: {found.message}, expected {expected.message}"
  | wrongLength length expected => s!"invalid length {length}, expected {expected.message}"
  | unknownName name known => s!"unknown variant `{name}`, {knownNames known}"
  | missingField name => s!"missing field `{name}`"
  | repeatedField name => s!"duplicate field `{name}`"
  | neitherListNorItem => "data did not match any variant of untagged enum OneOrMany"
  | unknownTag tag =>
    s!"Unknown argument type tag '{tag}', expected one of \"Parameter\", \"String\" or an empty tag"

end ReadError

/-- Carries a fault of the text over to the document. -/
def malformed {α : Type} (r : Except Json.Fault α) : Except ReadError α :=
  r.mapError .malformed

/-- The error for a value of the wrong kind. A scalar is read to its end first, so that a fault
    inside it comes up; an array or an object is known by its bracket. -/
def mismatch (expected : Expected) : Json.Draft → ReadError
  | .null => .wrongKind .null expected
  | .bool b => .wrongKind (.bool b) expected
  | .number n =>
    match n.value with
    | .error f => .malformed f
    | .ok (.integer i) => .wrongKind (.integer i) expected
    | .ok (.double x) => .wrongKind (.double (Decimal.text x)) expected
  | .string s =>
    match s.text with
    | .error f => .malformed f
    | .ok t => .wrongKind (.string t) expected
  | .array _ _ => .wrongKind .list expected
  | .object _ _ => .wrongKind .object expected
  | .unread d => .malformed d.fault

end CallFlow.Wire
