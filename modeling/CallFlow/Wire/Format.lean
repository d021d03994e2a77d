import CallFlow.Wire.Record

/-!
# Formats

A format says how one kind of document is read from a JSON text and written as one.

## Main definitions

- `CallFlow.Wire.Format` — a reader beside a writer
- `CallFlow.Wire.Format.decode` — the document that a text spells
- `CallFlow.Wire.Format.compact`, `CallFlow.Wire.Format.pretty` — the text of a document
-/

namespace CallFlow.Wire

/-- How one kind of document is read and written. -/
structure Format (α : Type) where
  read : Json.Draft → Except ReadError α
  write : α → Json

namespace Format

variable {α : Type}

/-- The document that a text spells. Only blanks may follow it. -/
def decode (format : Format α) (text : String) : Except ReadError α := do
  let (draft, rest) := Json.Draft.ofText text
  let a ← format.read draft
  if rest.isEmpty then return a else .error (.malformed .trailingCharacters)

/-- The text of a document without blanks. -/
def compact (format : Format α) (a : α) : String :=
  (format.write a).compact

/-- The text of a document on indented lines. -/
def pretty (format : Format α) (a : α) : String :=
  (format.write a).pretty

end Format

end CallFlow.Wire
