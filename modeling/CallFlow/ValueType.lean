/-!
# Types of values

A value that flows through an endpoint is either an object of some class, known by the class's
identifier, or plain text. Two object types are equal when their identifiers are.

## Main definitions

- `CallFlow.ValueType` — the type of a value
- `CallFlow.ValueType.label` — its wording in hints and listings
-/

namespace CallFlow

/-- The type of a value. -/
inductive ValueType where
  | object (id : String)
  | text
deriving DecidableEq, Repr

namespace ValueType

/-- The identifier of an object type. -/
def objectId? : ValueType → Option String
  | object id => some id
  | text => none

/-- The wording of a type in hints and listings. -/
def label : ValueType → String
  | object id => "object " ++ id
  | text => "text"

end ValueType

end CallFlow
