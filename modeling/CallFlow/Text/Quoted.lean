import CallFlow.Text.Printable

/-!
# Quoted text on one line

A text is shown between double quotes so that it stays on one line and can be told from any other
text. Quotes and backslashes are escaped, the usual controls have short names, and every other
character that has no visible shape is written as its code point in braces. Which characters have one
changes with the character tables, so it is a parameter.

## Main definitions

- `CallFlow.Text.quotedChar` — how one character is written between the quotes
- `CallFlow.Text.quotedWith` — a text between double quotes
- `CallFlow.Text.quoted` — the same, with the characters of `CallFlow.Text.isShown` as they are
- `CallFlow.Text.hex` — the lower-case hexadecimal digits of a number
-/

namespace CallFlow.Text

/-- The lower-case hexadecimal digits of a number, without leading zeros. -/
def hex (n : Nat) : List Char :=
  Nat.toDigits 16 n

/-- How one character is written between double quotes, where `shown` holds of the characters that may
    stand for themselves. -/
def quotedChar (shown : Char → Bool) (c : Char) : List Char :=
  if c = '"' then ['\\', '"']
  else if c = '\\' then ['\\', '\\']
  else if c = '\t' then ['\\', 't']
  else if c = '\n' then ['\\', 'n']
  else if c = '\r' then ['\\', 'r']
  else if c = '\x00' then ['\\', '0']
  else if shown c then [c]
  else ['\\', 'u', '{'] ++ hex c.toNat ++ ['}']

/-- A text between double quotes, where `shown` holds of the characters that may stand for
    themselves. -/
def quotedWith (shown : Char → Bool) (s : String) : String :=
  String.ofList ('"' :: s.toList.flatMap (quotedChar shown) ++ ['"'])

/-- A text between double quotes, on one line. -/
def quoted (s : String) : String :=
  quotedWith isShown s

end CallFlow.Text
