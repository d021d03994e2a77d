import CallFlow.Json.Token
import CallFlow.Json.Value

/-!
# Drafts: JSON texts as far as they can be read

A draft is the value that a text spells, up to the place where it stops making sense; at that place
it holds the reason. Whoever reads a draft meets its parts in the order of the text, and so the
first thing wrong with the text comes up first, be it how the text is written or what it says.
Nothing after the first defect is looked at: a container that is not finished because of a defect
inside it counts as cut short there.

How a defect is worded depends on who meets it, so a draft records causes and leaves the wording
to its readers: a value may be taken whole (`Draft.value`), skipped (`Draft.skip`), or read part
by part.

## Main definitions

- `CallFlow.Json.Draft` — a text as far as it can be read
- `CallFlow.Json.Draft.ofTokens` — the draft of the first value of a text
- `CallFlow.Json.Draft.value` — the complete value, or the first fault
- `CallFlow.Json.Draft.skip` — whether a value may be skipped
-/

namespace CallFlow.Json

/-- How the items of an array come to an end. -/
inductive ArrayStop where
  | closed
  /-- The text ends after an item, or right after the opening bracket. -/
  | cut
  /-- The text ends after a comma. -/
  | cutAfterComma
  /-- The closing bracket follows a comma. -/
  | danglingComma
  /-- Something other than a comma or the closing bracket follows an item. -/
  | noSeparator
deriving DecidableEq, Repr

/-- How the members of an object come to an end. -/
inductive ObjectStop where
  | closed
  /-- The text ends after a member, or right after the opening brace. -/
  | cut
  /-- The text ends after a comma. -/
  | cutAfterComma
  /-- The closing brace follows a comma. -/
  | danglingComma
  /-- Something other than a string stands where a name is due. -/
  | badKey
  /-- Something other than a comma or the closing brace follows a member. -/
  | noSeparator
deriving DecidableEq, Repr

/-- A JSON value as far as its text can be read. -/
inductive Draft where
  | null
  | bool (b : Bool)
  | number (n : Number)
  | string (s : StringLit)
  | array (items : List Draft) (stop : ArrayStop)
  | object (members : List (StringLit × Draft)) (stop : ObjectStop)
  /-- No value could be read. -/
  | unread (d : Defect)
deriving Inhabited

namespace ArrayStop

/-- Whether an array of which each item was read ends well. -/
def check : ArrayStop → Except Fault Unit
  | closed => .ok ()
  | cut => .error (.endOfText .list)
  | cutAfterComma => .error (.endOfText .value)
  | danglingComma => .error .trailingComma
  | noSeparator => .error .expectedItemEnd

/-- Whether an array that is skipped ends well: a value is still due after its last comma. -/
def skip : ArrayStop → Except Fault Unit
  | danglingComma => .error .expectedValue
  | s => s.check

/-- Whether an array ends well after its last expected item: anything but its bracket is too
    much. -/
def checkFull : ArrayStop → Except Fault Unit
  | closed => .ok ()
  | cut => .error (.endOfText .list)
  | danglingComma => .error .trailingComma
  | cutAfterComma => .error .trailingCharacters
  | noSeparator => .error .trailingCharacters

end ArrayStop

namespace ObjectStop

/-- Whether an object of which each member was read ends well. -/
def check : ObjectStop → Except Fault Unit
  | closed => .ok ()
  | cut => .error (.endOfText .object)
  | cutAfterComma => .error (.endOfText .value)
  | danglingComma => .error .trailingComma
  | badKey => .error .keyNotString
  | noSeparator => .error .expectedMemberEnd

/-- Whether an object that is skipped ends well: a name is still due after its last comma. -/
def skip : ObjectStop → Except Fault Unit
  | cutAfterComma => .error (.endOfText .object)
  | danglingComma => .error .keyNotString
  | s => s.check

end ObjectStop

/-- What was read from the tokens `ts`, and the tokens after it, of which there are not more. -/
structure Reading (α : Type) (ts : List Token) where
  got : α
  rest : List Token
  rest_le : rest.length ≤ ts.length

theorem Reading.le_of_rest {α : Type} {ts us : List Token} (r : Reading α ts) (h : r.rest = us) :
    us.length ≤ ts.length :=
  h ▸ r.rest_le

namespace Draft

mutual

/-- Reads the value that begins with the token `t`, before the tokens `ts`. -/
def readValue (t : Token) (ts : List Token) : Reading Draft ts :=
  match t, ts with
  | .null, ts => ⟨null, ts, Nat.le_refl _⟩
  | .bool b, ts => ⟨bool b, ts, Nat.le_refl _⟩
  | .number n, ts => ⟨number n, ts, Nat.le_refl _⟩
  | .string s, ts => ⟨string s, ts, Nat.le_refl _⟩
  | .defect d, ts => ⟨unread d, ts, Nat.le_refl _⟩
  | .openArray, [] => ⟨array [] .cut, [], Nat.le_refl _⟩
  | .openArray, .closeArray :: us => ⟨array [] .closed, us, Nat.le_succ _⟩
  | .openArray, u :: us =>
    let r := readItems u us
    ⟨array r.got.1 r.got.2, r.rest, Nat.le_succ_of_le r.rest_le⟩
  | .openObject, [] => ⟨object [] .cut, [], Nat.le_refl _⟩
  | .openObject, .closeObject :: us => ⟨object [] .closed, us, Nat.le_succ _⟩
  | .openObject, u :: us =>
    let r := readMembers u us
    ⟨object r.got.1 r.got.2, r.rest, Nat.le_succ_of_le r.rest_le⟩
  | _, _ => ⟨unread .stray, [], Nat.zero_le _⟩
termination_by 2 * ts.length

/-- Reads the items of an array, the first of which begins with the token `t`. -/
def readItems (t : Token) (ts : List Token) : Reading (List Draft × ArrayStop) ts :=
  let r := readValue t ts
  match hr : r.rest with
  | [] => ⟨([r.got], .cut), [], Nat.zero_le _⟩
  | .closeArray :: us =>
    ⟨([r.got], .closed), us, Nat.le_trans (Nat.le_succ _) (r.le_of_rest hr)⟩
  | [.comma] => ⟨([r.got], .cutAfterComma), [], Nat.zero_le _⟩
  | .comma :: .closeArray :: _ => ⟨([r.got], .danglingComma), [], Nat.zero_le _⟩
  | .comma :: u :: us =>
    have hus : us.length + 2 ≤ ts.length := r.le_of_rest hr
    let s := readItems u us
    ⟨(r.got :: s.got.1, s.got.2), s.rest, Nat.le_trans s.rest_le (by omega)⟩
  | _ :: _ => ⟨([r.got], .noSeparator), [], Nat.zero_le _⟩
termination_by 2 * ts.length + 1

/-- Reads the members of an object, the first of which begins with the token `t`. -/
def readMembers (t : Token) (ts : List Token) : Reading (List (StringLit × Draft) × ObjectStop) ts :=
  match t, ts with
  | .string k, [] => ⟨([(k, unread (.colon true))], .cut), [], Nat.le_refl _⟩
  | .string k, [.colon] => ⟨([(k, unread .missing)], .cut), [], Nat.zero_le _⟩
  | .string k, .colon :: v :: vs =>
    let r := readValue v vs
    match hr : r.rest with
    | [] => ⟨([(k, r.got)], .cut), [], Nat.zero_le _⟩
    | .closeObject :: us =>
      have hus : us.length + 1 ≤ vs.length := r.le_of_rest hr
      ⟨([(k, r.got)], .closed), us, by simp; omega⟩
    | [.comma] => ⟨([(k, r.got)], .cutAfterComma), [], Nat.zero_le _⟩
    | .comma :: .closeObject :: _ => ⟨([(k, r.got)], .danglingComma), [], Nat.zero_le _⟩
    | .comma :: u :: us =>
      have hus : us.length + 2 ≤ vs.length := r.le_of_rest hr
      let s := readMembers u us
      ⟨((k, r.got) :: s.got.1, s.got.2), s.rest, Nat.le_trans s.rest_le (by simp; omega)⟩
    | _ :: _ => ⟨([(k, r.got)], .noSeparator), [], Nat.zero_le _⟩
  | .string k, _ :: _ => ⟨([(k, unread (.colon false))], .cut), [], Nat.zero_le _⟩
  | _, _ => ⟨([], .badKey), [], Nat.zero_le _⟩
termination_by 2 * ts.length + 1

end

/-- The draft of the value at the start of a list of tokens, and the tokens after it. -/
def ofTokens : List Token → Draft × List Token
  | [] => (unread .missing, [])
  | t :: ts =>
    let r := readValue t ts
    (r.got, r.rest)

mutual

/-- Whether a value may be skipped: it has to be well formed, but its numbers may be out of
    range, its surrogates unpaired and its nesting deep. -/
def skip : Draft → Except Fault Unit
  | null => .ok ()
  | bool _ => .ok ()
  | number _ => .ok ()
  | string s => s.skip
  | array items stop => do skipItems items; stop.skip
  | object members stop => do skipMembers members; stop.skip
  | unread d => .error d.skippedFault

/-- Whether the items of an array may be skipped. -/
def skipItems : List Draft → Except Fault Unit
  | [] => .ok ()
  | d :: ds => do d.skip; skipItems ds

/-- Whether the members of an object may be skipped. -/
def skipMembers : List (StringLit × Draft) → Except Fault Unit
  | [] => .ok ()
  | (k, v) :: ms => do k.skip; v.skip; skipMembers ms

end

mutual

/-- The complete value of a draft, with at most `room` arrays and objects inside each other. -/
def value (room : Nat) : Draft → Except Fault Json
  | null => .ok .null
  | bool b => .ok (.bool b)
  | number n => n.value.map fun _ => .number n
  | string s => s.text.map .string
  | array items stop =>
    match room with
    | 0 => .error .tooDeep
    | room + 1 => do
      let js ← itemValues room items
      stop.check
      return .array js
  | object members stop =>
    match room with
    | 0 => .error .tooDeep
    | room + 1 => do
      let ms ← memberValues room members
      stop.check
      return .object ms
  | unread d => .error d.fault

/-- The complete values of the items of an array. -/
def itemValues (room : Nat) : List Draft → Except Fault (List Json)
  | [] => .ok []
  | d :: ds => do
    let j ← d.value room
    let js ← itemValues room ds
    return j :: js

/-- The complete members of an object. -/
def memberValues (room : Nat) : List (StringLit × Draft) → Except Fault (List (String × Json))
  | [] => .ok []
  | (k, v) :: ms => do
    let name ← k.text
    let j ← v.value room
    let js ← memberValues room ms
    return (name, j) :: js

end

/-- The draft of a text, and the tokens after its first value. -/
def ofText (s : String) : Draft × List Token :=
  ofTokens (Token.all s.toList)

end Draft

/-- How deeply arrays and objects may be nested. -/
def depthLimit : Nat := 127

end CallFlow.Json
