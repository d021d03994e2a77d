import CallFlow.Wire.Error

/-!
# Records

A record is written as an object, with its fields by name and in any order, or as an array of its
fields in their declared order. Reading starts from the record in which every field has its default
and overwrites a field when it is met. Fields with other names are skipped, and a field may be met
only once. A field without default has to be met.

## Main definitions

- `CallFlow.Wire.Field`, `CallFlow.Wire.Layout` — how a record is written
- `CallFlow.Wire.Layout.read` — reads a record in either form
- `CallFlow.Wire.readText`, `CallFlow.Wire.readList` — read a string and an array
-/

namespace CallFlow.Wire

open Json (Draft StringLit ArrayStop ObjectStop)

/-- Reads a string. -/
def readText : Draft → Except ReadError String
  | .string s => malformed s.text
  | d => .error (mismatch .text d)

/-- Reads an array, item by item. -/
def readList {α : Type} (read : Draft → Except ReadError α) : Draft → Except ReadError (List α)
  | .array items stop => do
    let as ← items.mapM read
    malformed stop.check
    return as
  | d => .error (mismatch .list d)

/-- One field of a record. -/
structure Field (α : Type) where
  name : String
  /-- Other names under which the field is known. -/
  aliases : List String := []
  /-- A field that is required has no default. -/
  required : Bool := false
  /-- Reads the field's value and puts it into the record. -/
  read : Draft → α → Except ReadError α

/-- How a record is written. -/
structure Layout (α : Type) where
  /-- The name of the record in messages. -/
  name : String
  /-- The record in which every field has its default. -/
  blank : α
  fields : List (Field α)

/-- Where a draft comes from. A value that was taken whole before it is read has all its items at
    hand, so the items that are too many can be counted. -/
inductive Source where
  | text
  | taken
deriving DecidableEq, Repr

namespace Field

/-- Whether a field is known under a name. -/
def answersTo {α : Type} (f : Field α) (name : String) : Bool :=
  f.name == name || f.aliases.contains name

end Field

namespace Layout

variable {α : Type}

/-- Reads the members of an object into a record. Returns the names of the fields met, too. -/
def readMembers (l : Layout α) :
    List (StringLit × Draft) → α → List String → Except ReadError (α × List String)
  | [], a, met => .ok (a, met)
  | (k, v) :: ms, a, met => do
    let name ← malformed k.text
    match l.fields.find? (·.answersTo name) with
    | none => do
      malformed v.skip
      l.readMembers ms a met
    | some f =>
      if met.contains f.name then .error (.repeatedField f.name)
      else do
        let a ← f.read v a
        l.readMembers ms a (f.name :: met)

/-- The first required field that was not met. -/
def missing? (l : Layout α) (met : List String) : Option (Field α) :=
  l.fields.find? fun f => f.required && !met.contains f.name

/-- Reads the items of an array into the fields of a record, one after the other. Returns the items
    that are too many, too. -/
def readItems (l : Layout α) (stop : ArrayStop) (position : Nat) :
    List (Field α) → List Draft → α → Except ReadError (α × List Draft)
  | [], items, a => .ok (a, items)
  | f :: fs, [], a => do
    malformed stop.check
    if f.required then .error (.wrongLength position (.fieldsOf l.name l.fields.length))
    else l.readItems stop (position + 1) fs [] a
  | f :: fs, d :: ds, a => do
    let a ← f.read d a
    l.readItems stop (position + 1) fs ds a

/-- Whether the array of a record ends after its last field. -/
def checkEnd (l : Layout α) (source : Source) (stop : ArrayStop) (surplus : List Draft) :
    Except ReadError Unit :=
  match surplus, source with
  | [], _ => malformed stop.checkFull
  | _ :: _, .text => .error (.malformed .trailingCharacters)
  | _ :: _, .taken =>
    .error (.wrongLength (l.fields.length + surplus.length) (.items l.fields.length))

/-- Reads a record. -/
def read (l : Layout α) (source : Source) : Draft → Except ReadError α
  | .object members stop => do
    let (a, met) ← l.readMembers members l.blank []
    malformed stop.check
    match l.missing? met with
    | some f => .error (.missingField f.name)
    | none => .ok a
  | .array items stop => do
    let (a, surplus) ← l.readItems stop 0 l.fields items l.blank
    l.checkEnd source stop surplus
    return a
  | d => .error (mismatch (.record l.name) d)

end Layout

end CallFlow.Wire
