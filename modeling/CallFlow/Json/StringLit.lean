import CallFlow.Json.Fault

/-!
# String literals in JSON texts

A literal is read in two steps. Its pieces are taken from the text first: plain characters, and
the 16-bit codes of its numeric escapes. Only then are surrogate codes paired up. A literal that is
skipped needs the first step alone, so codes that do not pair up do no harm there.

## Main definitions

- `CallFlow.Json.StringLit` — a literal as far as it can be read
- `CallFlow.Json.StringLit.scan` — reads a literal, after its opening quote
- `CallFlow.Json.StringLit.text` — the text that a literal stands for
- `CallFlow.Json.StringLit.skip` — whether a literal may be skipped
-/

namespace CallFlow.Json

/-- One character of a literal, or the code of one numeric escape. -/
inductive Piece where
  | char (c : Char)
  | code (n : Nat)
deriving DecidableEq, Repr

/-- How the reading of a literal ends. -/
inductive Closing where
  /-- The closing quote was met. -/
  | closed
  /-- The text ends first. -/
  | cut
  /-- A raw control character was met. -/
  | control
  /-- A backslash is followed by a character that it does not escape. -/
  | badEscape
  /-- A numeric escape does not have four hexadecimal digits. -/
  | badHex
deriving DecidableEq, Repr

/-- A string literal as far as it can be read. -/
structure StringLit where
  pieces : List Piece
  closing : Closing
deriving DecidableEq, Repr

namespace Closing

/-- The fault with which a literal ends, if it has no closing quote. -/
def check : Closing → Except Fault Unit
  | closed => .ok ()
  | cut => .error (.endOfText .string)
  | control => .error .controlCharacter
  | badEscape => .error .invalidEscape
  | badHex => .error .invalidEscape

/-- The fault of a high surrogate after which a literal ends: what should have been the second
    escape of the pair is looked at only as far as its first two characters agree with one. -/
def faultAfterHigh : Closing → Fault
  | cut => .endOfText .string
  | badHex => .invalidEscape
  | _ => .unpairedSurrogate

end Closing

/-- The value of a hexadecimal digit of either case. -/
def hexDigit? (c : Char) : Option Nat :=
  if '0' ≤ c ∧ c ≤ '9' then some (c.toNat - '0'.toNat)
  else if 'a' ≤ c ∧ c ≤ 'f' then some (c.toNat - 'a'.toNat + 10)
  else if 'A' ≤ c ∧ c ≤ 'F' then some (c.toNat - 'A'.toNat + 10)
  else none

/-- The code that four hexadecimal digits stand for. -/
def hexCode? (a b c d : Char) : Option Nat := do
  let a ← hexDigit? a
  let b ← hexDigit? b
  let c ← hexDigit? c
  let d ← hexDigit? d
  return ((a * 16 + b) * 16 + c) * 16 + d

/-- The character that a backslash and the given character stand for. -/
def escaped? (c : Char) : Option Char :=
  if c = '"' then some '"'
  else if c = '\\' then some '\\'
  else if c = '/' then some '/'
  else if c = 'b' then some '\x08'
  else if c = 'f' then some '\x0c'
  else if c = 'n' then some '\n'
  else if c = 'r' then some '\r'
  else if c = 't' then some '\t'
  else none

/-- How a literal ends in a numeric escape that has not four hexadecimal digits: the text is cut
    short if fewer than four bytes of it are left. -/
def hexClosing (cs : List Char) : Closing :=
  if (String.ofList (cs.take 4)).utf8ByteSize < 4 then .cut else .badHex

/-- Whether a code is the second half of a surrogate pair. -/
def isLowSurrogate (n : Nat) : Bool := 0xdc00 ≤ n && n ≤ 0xdfff

/-- Whether a code is the first half of a surrogate pair. -/
def isHighSurrogate (n : Nat) : Bool := 0xd800 ≤ n && n ≤ 0xdbff

/-- The character that a surrogate pair stands for. -/
def joinSurrogates (high low : Nat) : Char :=
  Char.ofNat (0x10000 + (high - 0xd800) * 0x400 + (low - 0xdc00))

/-- Pairs up the surrogates of a literal. -/
def assemble : List Piece → Closing → Except Fault (List Char)
  | [], closing => closing.check.map fun _ => []
  | .char c :: ps, closing => (assemble ps closing).map (c :: ·)
  | .code n :: ps, closing =>
    if isLowSurrogate n then .error .loneSurrogate
    else if isHighSurrogate n then
      match ps with
      | [] => .error closing.faultAfterHigh
      | .char _ :: _ => .error .unpairedSurrogate
      | .code m :: ps =>
        if isLowSurrogate m then (assemble ps closing).map (joinSurrogates n m :: ·)
        else .error .loneSurrogate
    else (assemble ps closing).map (Char.ofNat n :: ·)

namespace StringLit

/-- The same literal with one piece in front. -/
def push (p : Piece) (r : StringLit × List Char) : StringLit × List Char :=
  (⟨p :: r.1.pieces, r.1.closing⟩, r.2)

/-- Reads a literal, after its opening quote. Returns the rest of the text too; nothing is left
    of it if the literal has no closing quote. -/
def scan : List Char → StringLit × List Char
  | [] => (⟨[], .cut⟩, [])
  | '"' :: cs => (⟨[], .closed⟩, cs)
  | '\\' :: 'u' :: a :: b :: c :: d :: cs =>
    match hexCode? a b c d with
    | some n => push (.code n) (scan cs)
    | none => (⟨[], hexClosing (a :: b :: c :: d :: cs)⟩, [])
  | '\\' :: 'u' :: cs => (⟨[], hexClosing cs⟩, [])
  | ['\\'] => (⟨[], .cut⟩, [])
  | '\\' :: c :: cs =>
    match escaped? c with
    | some e => push (.char e) (scan cs)
    | none => (⟨[], .badEscape⟩, [])
  | c :: cs => if c < ' ' then (⟨[], .control⟩, []) else push (.char c) (scan cs)

theorem scan_length_le (cs : List Char) : (scan cs).2.length ≤ cs.length := by
  fun_induction scan cs <;> simp_all [push] <;> omega

/-- The text that a literal stands for. -/
def text (s : StringLit) : Except Fault String :=
  (assemble s.pieces s.closing).map String.ofList

/-- Whether a literal may be skipped. -/
def skip (s : StringLit) : Except Fault Unit :=
  s.closing.check

end StringLit

end CallFlow.Json
