import CallFlow.Json.Number

/-!
# JSON values and their text

Members of an object keep their order, and a name may occur more than once. A value is written in
one of two styles that differ only in the blanks between the tokens: without any, or with every
item and member on an indented line of its own.

## Main definitions

- `CallFlow.Json` — a JSON value
- `CallFlow.Json.render` — the characters of its text
- `CallFlow.Json.compact`, `CallFlow.Json.pretty` — its text in either style
-/

namespace CallFlow

/-- A JSON value. -/
inductive Json where
  | null
  | bool (b : Bool)
  | number (n : Json.Number)
  | string (s : String)
  | array (items : List Json)
  | object (members : List (String × Json))
deriving Inhabited

namespace Json

/-- The blanks between the tokens of a text. -/
inductive Style where
  | compact
  | indented
deriving DecidableEq, Repr

namespace Style

/-- What separates an item or bracket from the one before it, at the given depth. -/
def lineBreak (level : Nat) : Style → List Char
  | compact => []
  | indented => '\n' :: List.replicate (2 * level) ' '

/-- What stands between a member's name and its value. -/
def colon : Style → List Char
  | compact => [':']
  | indented => [':', ' ']

end Style

/-- The lower-case hexadecimal digit of a number below sixteen. -/
def hexDigit (n : Nat) : Char :=
  Nat.digitChar n

/-- How one character is written in a string literal. -/
def escapeChar (c : Char) : List Char :=
  if c = '"' then ['\\', '"']
  else if c = '\\' then ['\\', '\\']
  else if c = '\x08' then ['\\', 'b']
  else if c = '\x0c' then ['\\', 'f']
  else if c = '\n' then ['\\', 'n']
  else if c = '\r' then ['\\', 'r']
  else if c = '\t' then ['\\', 't']
  else if c < ' ' then
    ['\\', 'u', '0', '0', hexDigit (c.toNat / 16), hexDigit (c.toNat % 16)]
  else [c]

/-- A text as a string literal. -/
def renderString (s : String) : List Char :=
  '"' :: s.toList.flatMap escapeChar ++ ['"']

/-- A number as text. -/
def renderNumber (n : Number) : List Char :=
  let sign := if n.negative then ['-'] else []
  let fraction := n.fraction.map fun d => Nat.digitChar d.val
  let point := if fraction = [] then [] else '.' :: fraction
  let power :=
    match n.exponent with
    | none => []
    | some e => 'e' :: (if e < 0 then ['-'] else []) ++ Nat.toDigits 10 e.natAbs
  sign ++ Nat.toDigits 10 n.whole ++ point ++ power

mutual

/-- The characters of a value's text, with its brackets at the given depth. -/
def render (style : Style) (level : Nat) : Json → List Char
  | null => ['n', 'u', 'l', 'l']
  | bool true => ['t', 'r', 'u', 'e']
  | bool false => ['f', 'a', 'l', 's', 'e']
  | number n => renderNumber n
  | string s => renderString s
  | array [] => ['[', ']']
  | array (j :: js) =>
    '[' :: style.lineBreak (level + 1) ++ render style (level + 1) j
      ++ renderItems style level js
  | object [] => ['{', '}']
  | object ((k, v) :: ms) =>
    '{' :: style.lineBreak (level + 1) ++ renderString k ++ style.colon
      ++ render style (level + 1) v ++ renderMembers style level ms

/-- The items of an array after its first, and its closing bracket. -/
def renderItems (style : Style) (level : Nat) : List Json → List Char
  | [] => style.lineBreak level ++ [']']
  | j :: js =>
    ',' :: style.lineBreak (level + 1) ++ render style (level + 1) j
      ++ renderItems style level js

/-- The members of an object after its first, and its closing bracket. -/
def renderMembers (style : Style) (level : Nat) : List (String × Json) → List Char
  | [] => style.lineBreak level ++ ['}']
  | (k, v) :: ms =>
    ',' :: style.lineBreak (level + 1) ++ renderString k ++ style.colon
      ++ render style (level + 1) v ++ renderMembers style level ms

end

/-- The text of a value without blanks. -/
def compact (j : Json) : String :=
  String.ofList (render .compact 0 j)

/-- The text of a value with two more blanks at each depth. -/
def pretty (j : Json) : String :=
  String.ofList (render .indented 0 j)

end Json

end CallFlow
