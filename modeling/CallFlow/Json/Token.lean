import CallFlow.Json.Number
import CallFlow.Json.StringLit

/-!
# Tokens of a JSON text

A text is cut into tokens with the blanks between them left out. A token that cannot be read to
its end is the last one: what follows it is never looked at.

## Main definitions

- `CallFlow.Json.Token` — one lexeme
- `CallFlow.Json.Token.next?` — the first token of a text, and the rest
- `CallFlow.Json.Token.all` — the tokens of a text
-/

namespace CallFlow.Json

/-- One lexeme of a JSON text. -/
inductive Token where
  | openArray
  | closeArray
  | openObject
  | closeObject
  | comma
  | colon
  | null
  | bool (b : Bool)
  | number (n : Number)
  | string (s : StringLit)
  /-- Something that is no lexeme. -/
  | defect (d : Defect)
deriving DecidableEq, Repr

/-- The blanks that may stand between tokens. -/
def isSpace (c : Char) : Bool :=
  c = ' ' || c = '\n' || c = '\t' || c = '\r'

namespace Token

/-- Takes the remaining letters of a word from a text. -/
def scanWord : List Char → List Char → Except Defect (List Char)
  | [], cs => .ok cs
  | _ :: _, [] => .error (.word true)
  | w :: ws, c :: cs => if c = w then scanWord ws cs else .error (.word false)

theorem scanWord_length_le {ws cs rest : List Char} (h : scanWord ws cs = .ok rest) :
    rest.length ≤ cs.length := by
  fun_induction scanWord ws cs with
  | case1 cs => cases h; simp
  | case2 => cases h
  | case3 w ws cs ih =>
    have := ih h
    simp; omega
  | case4 => cases h

/-- The token for a word of which the first letter has been read. -/
def word (t : Token) (letters cs : List Char) : Token × List Char :=
  match scanWord letters cs with
  | .ok rest => (t, rest)
  | .error d => (.defect d, [])

theorem word_length_le (t : Token) (letters cs : List Char) :
    (word t letters cs).2.length ≤ cs.length := by
  unfold word
  split
  · rename_i h; exact scanWord_length_le h
  · simp

/-- The token for a number at the start of a text, after its sign. -/
def numeral (negative : Bool) (cs : List Char) : Token × List Char :=
  match Number.scan negative cs with
  | .ok (n, rest) => (.number n, rest)
  | .error d => (.defect d, [])

theorem numeral_length_lt (negative : Bool) {cs : List Char} (hcs : cs ≠ []) :
    (numeral negative cs).2.length < cs.length := by
  unfold numeral
  split
  · rename_i h; exact Number.scan_length_lt h
  · exact List.length_pos_iff.mpr hcs

theorem numeral_length_le (negative : Bool) (cs : List Char) :
    (numeral negative cs).2.length ≤ cs.length := by
  by_cases hcs : cs = []
  · subst hcs
    unfold numeral
    split
    · rename_i h; exact Nat.le_of_lt (Number.scan_length_lt h)
    · exact Nat.le_refl _
  · exact Nat.le_of_lt (numeral_length_lt negative hcs)

/-- The token that begins with the given character, and the rest of the text after it. -/
def start (c : Char) (cs : List Char) : Token × List Char :=
  match c with
  | '[' => (openArray, cs)
  | ']' => (closeArray, cs)
  | '{' => (openObject, cs)
  | '}' => (closeObject, cs)
  | ',' => (comma, cs)
  | ':' => (colon, cs)
  | '"' => (string (StringLit.scan cs).1, (StringLit.scan cs).2)
  | 'n' => word null ['u', 'l', 'l'] cs
  | 't' => word (bool true) ['r', 'u', 'e'] cs
  | 'f' => word (bool false) ['a', 'l', 's', 'e'] cs
  | '-' => numeral true cs
  | c => if (digit? c).isSome then numeral false (c :: cs) else (defect .stray, [])

theorem start_length_le (c : Char) (cs : List Char) : (start c cs).2.length ≤ cs.length := by
  unfold start
  split
  case h_7 => exact StringLit.scan_length_le cs
  case h_8 => exact word_length_le _ _ cs
  case h_9 => exact word_length_le _ _ cs
  case h_10 => exact word_length_le _ _ cs
  case h_11 => exact numeral_length_le true cs
  case h_12 =>
    split
    · exact Nat.le_of_lt_succ (numeral_length_lt false (List.cons_ne_nil _ cs))
    · exact Nat.zero_le _
  all_goals exact Nat.le_refl _

/-- The first token of a text, and the rest. -/
def next? (cs : List Char) : Option (Token × List Char) :=
  match cs.dropWhile isSpace with
  | [] => none
  | c :: cs => some (start c cs)

theorem next?_length_lt {cs rest : List Char} {t : Token} (h : next? cs = some (t, rest)) :
    rest.length < cs.length := by
  unfold next? at h
  split at h
  · cases h
  · rename_i c cs' hcs
    have hdrop : (cs.dropWhile isSpace).length ≤ cs.length :=
      (List.dropWhile_sublist isSpace).length_le
    have hstart := start_length_le c cs'
    have hrest : (start c cs').2 = rest := congrArg Prod.snd (Option.some.inj h)
    rw [hcs] at hdrop
    rw [hrest] at hstart
    exact Nat.lt_of_lt_of_le (Nat.lt_succ_of_le hstart) hdrop

/-- The tokens of a text. -/
def all (cs : List Char) : List Token :=
  match _h : next? cs with
  | none => []
  | some (t, rest) => t :: all rest
termination_by cs.length
decreasing_by exact next?_length_lt _h

end Token

end CallFlow.Json
