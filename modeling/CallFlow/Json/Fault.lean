/-!
# What can be wrong with a JSON text

A text is read once from left to right, and the first thing wrong with it is reported. A value
that is only skipped is read with less care than one whose content matters, so some defects are
reported differently there.

## Main definitions

- `CallFlow.Json.Fault` — the causes for which a text is refused
- `CallFlow.Json.Fault.message` — their wording
- `CallFlow.Json.Defect` — why no value could be read at some place
-/

namespace CallFlow.Json

/-- The construct in which a text ends too early. -/
inductive Construct where
  | value
  | list
  | object
  | string
deriving DecidableEq, Repr

/-- Why a JSON text is refused. -/
inductive Fault where
  /-- The text ends inside a construct. -/
  | endOfText (inside : Construct)
  /-- A character that begins no value stands where a value is due. -/
  | expectedValue
  /-- One of `null`, `true` and `false` is misspelt. -/
  | expectedWord
  | expectedColon
  /-- Neither a comma nor the end of the array follows an item. -/
  | expectedItemEnd
  /-- Neither a comma nor the end of the object follows a member. -/
  | expectedMemberEnd
  | invalidNumber
  /-- A number is too large for a double. -/
  | numberOutOfRange
  /-- A raw control character stands in a string. -/
  | controlCharacter
  | invalidEscape
  /-- A low surrogate stands alone, or a high one is followed by another escape. -/
  | loneSurrogate
  /-- A high surrogate is not followed by an escape. -/
  | unpairedSurrogate
  | keyNotString
  | trailingComma
  | trailingCharacters
  /-- Arrays and objects are nested too deeply. -/
  | tooDeep
deriving DecidableEq, Repr

namespace Fault

/-- The wording of a fault. -/
def message : Fault → String
  | endOfText .value => "EOF while parsing a value"
  | endOfText .list => "EOF while parsing a list"
  | endOfText .object => "EOF while parsing an object"
  | endOfText .string => "EOF while parsing a string"
  | expectedValue => "expected value"
  | expectedWord => "expected ident"
  | expectedColon => "expected `:`"
  | expectedItemEnd => "expected `,` or `]`"
  | expectedMemberEnd => r"expected `,` or `}`"
  | invalidNumber => "invalid number"
  | numberOutOfRange => "number out of range"
  | controlCharacter => "control character (\\u0000-\\u001F) found while parsing a string"
  | invalidEscape => "invalid escape"
  | loneSurrogate => "lone leading surrogate in hex escape"
  | unpairedSurrogate => "unexpected end of hex escape"
  | keyNotString => "key must be a string"
  | trailingComma => "trailing comma"
  | trailingCharacters => "trailing characters"
  | tooDeep => "recursion limit exceeded"

end Fault

/-- Why no value could be read at some place. For a misspelt word, a bad number and a missing
    colon, `cut` tells whether the text ends there. -/
inductive Defect where
  /-- The text ends where a value is due. -/
  | missing
  /-- A character that begins no value. -/
  | stray
  | word (cut : Bool)
  | number (cut : Bool)
  /-- The key before this place is not followed by a colon. -/
  | colon (cut : Bool)
deriving DecidableEq, Repr

namespace Defect

/-- How a defect is reported in a value whose content matters. -/
def fault : Defect → Fault
  | missing => .endOfText .value
  | stray => .expectedValue
  | word false => .expectedWord
  | word true => .endOfText .value
  | number false => .invalidNumber
  | number true => .endOfText .value
  | colon false => .expectedColon
  | colon true => .endOfText .object

/-- How a defect is reported in a value that is skipped: a number cut short counts as a bad
    number there. -/
def skippedFault : Defect → Fault
  | number true => .invalidNumber
  | d => d.fault

end Defect

end CallFlow.Json
