import CallFlow.Decimal.Shortest
import CallFlow.Json.Fault

/-!
# Numbers in JSON texts

A number is kept as it is written, up to the spelling of its exponent: sign, whole part, digits
of the fraction, exponent. Which machine number it stands for is decided only when its value is
asked for.

## Main definitions

- `CallFlow.Json.Number` — a number as it is written
- `CallFlow.Json.Number.scan` — reads the longest number at the start of a text
- `CallFlow.Json.Number.value` — the integer or double that it stands for
-/

namespace CallFlow.Json

/-- A number as it is written. An empty list of fraction digits means that there is no point. -/
structure Number where
  negative : Bool
  whole : Nat
  fraction : List (Fin 10)
  exponent : Option Int
deriving DecidableEq, Repr

/-- The value of a decimal digit. -/
def digit? (c : Char) : Option (Fin 10) :=
  if '0' ≤ c ∧ c ≤ '9' then some (Fin.ofNat 10 (c.toNat - '0'.toNat)) else none

/-- The longest run of decimal digits at the start of a text, and the rest. -/
def digits : List Char → List (Fin 10) × List Char
  | [] => ([], [])
  | c :: cs =>
    match digit? c with
    | none => ([], c :: cs)
    | some d => (d :: (digits cs).1, (digits cs).2)

/-- A run of digits and the rest make up the text. -/
theorem digits_length (cs : List Char) :
    (digits cs).1.length + (digits cs).2.length = cs.length := by
  fun_induction digits cs with
  | case1 => rfl
  | case2 => simp
  | case3 c cs d hd ih => simp; omega

/-- The number that a run of decimal digits stands for. -/
def digitsValue (ds : List (Fin 10)) : Nat :=
  ds.foldl (fun n d => 10 * n + d.val) 0

namespace Number

/-- Reads the digits after the point, if a point comes next. -/
def scanFraction : List Char → Except Defect (List (Fin 10) × List Char)
  | '.' :: cs =>
    match digits cs with
    | ([], rest) => .error (.number rest.isEmpty)
    | (ds, rest) => .ok (ds, rest)
  | cs => .ok ([], cs)

/-- Reads the sign of an exponent: whether it is negative, and the rest. -/
def scanSign : List Char → Bool × List Char
  | '+' :: cs => (false, cs)
  | '-' :: cs => (true, cs)
  | cs => (false, cs)

/-- Reads the digits of an exponent, after its mark. -/
def scanPower (cs : List Char) : Except Defect (Int × List Char) :=
  match digits (scanSign cs).2 with
  | ([], rest) => .error (.number rest.isEmpty)
  | (ds, rest) =>
    .ok (if (scanSign cs).1 then -(digitsValue ds : Int) else (digitsValue ds : Int), rest)

/-- Reads the exponent, if one comes next. -/
def scanExponent : List Char → Except Defect (Option Int × List Char)
  | 'e' :: cs => (scanPower cs).map fun (e, rest) => (some e, rest)
  | 'E' :: cs => (scanPower cs).map fun (e, rest) => (some e, rest)
  | cs => .ok (none, cs)

/-- Reads the longest number at the start of a text, after its sign. The whole part has no
    leading zero unless it is zero. -/
def scan (negative : Bool) (cs : List Char) : Except Defect (Number × List Char) :=
  match digits cs with
  | ([], rest) => .error (.number rest.isEmpty)
  | (d :: ds, rest) =>
    if d = 0 ∧ ds ≠ [] then .error (.number false)
    else do
      let (fraction, rest) ← scanFraction rest
      let (exponent, rest) ← scanExponent rest
      return (⟨negative, digitsValue (d :: ds), fraction, exponent⟩, rest)

theorem scanFraction_length_le {cs rest : List Char} {ds : List (Fin 10)}
    (h : scanFraction cs = .ok (ds, rest)) : rest.length ≤ cs.length := by
  unfold scanFraction at h
  split at h
  · rename_i cs'
    have hlen := digits_length cs'
    split at h
    · cases h
    · rename_i hd
      rw [hd] at hlen
      cases h
      simp at hlen ⊢
      omega
  · cases h
    exact Nat.le_refl _

theorem scanSign_length_le (cs : List Char) : (scanSign cs).2.length ≤ cs.length := by
  unfold scanSign
  split <;> simp

theorem scanPower_length_le {cs rest : List Char} {e : Int} (h : scanPower cs = .ok (e, rest)) :
    rest.length ≤ cs.length := by
  unfold scanPower at h
  have hsign := scanSign_length_le cs
  have hlen := digits_length (scanSign cs).2
  split at h
  · cases h
  · rename_i hd
    rw [hd] at hlen
    cases h
    simp at hlen
    omega

theorem scanExponent_length_le {cs rest : List Char} {e : Option Int}
    (h : scanExponent cs = .ok (e, rest)) : rest.length ≤ cs.length := by
  have key : ∀ cs' : List Char, (scanPower cs').map (fun p => (some p.1, p.2)) = .ok (e, rest) →
      rest.length ≤ cs'.length := by
    intro cs' hmap
    cases hp : scanPower cs' with
    | error d => rw [hp] at hmap; cases hmap
    | ok p =>
      rw [hp] at hmap
      cases hmap
      exact scanPower_length_le hp
  unfold scanExponent at h
  split at h
  · exact Nat.le_succ_of_le (key _ h)
  · exact Nat.le_succ_of_le (key _ h)
  · cases h
    exact Nat.le_refl _

/-- A number that has been read takes up at least one character. -/
theorem scan_length_lt {negative : Bool} {cs rest : List Char} {n : Number}
    (h : scan negative cs = .ok (n, rest)) : rest.length < cs.length := by
  unfold scan at h
  have hlen := digits_length cs
  split at h
  · cases h
  · rename_i d ds rest' hd
    rw [hd] at hlen
    split at h
    · cases h
    · cases hf : scanFraction rest' with
      | error e => rw [hf] at h; cases h
      | ok f =>
        rw [hf] at h
        cases he : scanExponent f.2 with
        | error e => simp [bind, Except.bind, he] at h
        | ok e =>
          simp [bind, Except.bind, he, pure, Except.pure] at h
          have h1 := scanFraction_length_le hf
          have h2 := scanExponent_length_le he
          simp at hlen
          rw [← h.2]
          omega

/-- Integers are kept exactly when they fit 64 bits. All other numbers are doubles. -/
inductive Value where
  | integer (n : Int)
  | double (x : Float)

/-- Takes digits into a significand while it stays below `2 ^ 64`. Returns the significand and
    how many digits were left out. -/
def fill (significand : Nat) : List Nat → Nat × Nat
  | [] => (significand, 0)
  | d :: ds =>
    if 10 * significand + d < Nat.pow 2 64 then fill (10 * significand + d) ds
    else (significand, ds.length + 1)

/-- The double nearest to `10 ^ k`, for `k ≤ 308`. -/
def powerOfTen (k : Nat) : Float :=
  OfScientific.ofScientific 1 false k

/-- Divides a double by `10 ^ k`, in steps of `10 ^ 308`. -/
def scaleDown (x : Float) (k : Nat) : Float :=
  if k ≤ 308 then x / powerOfTen k
  else if x == 0 then x
  else scaleDown (x / powerOfTen 308) (k - 308)
termination_by k

/-- The double for `significand · 10 ^ exponent`: the significand is rounded first, then scaled. -/
def scaled (significand : Nat) (exponent : Int) : Except Fault Float :=
  let x := significand.toUInt64.toFloat
  if exponent < 0 then .ok (scaleDown x exponent.natAbs)
  else if exponent ≤ 308 then
    let y := x * powerOfTen exponent.toNat
    if y.isInf then .error .numberOutOfRange else .ok y
  else if significand = 0 then .ok x
  else .error .numberOutOfRange

/-- What a number stands for. Without point and exponent it is an integer if it lies between
    `-2 ^ 63` and `2 ^ 64 - 1` and is not a negative zero. Otherwise it is a double, for which
    only as many leading digits count as fit 64 bits. -/
def value (n : Number) : Except Fault Value :=
  let wholeDigits := (Nat.toDigits 10 n.whole).map fun c => c.toNat - '0'.toNat
  let (significand, raised) := fill 0 wholeDigits
  if n.fraction = [] ∧ n.exponent = none ∧ raised = 0 ∧ !n.negative then
    .ok (.integer significand)
  else if n.fraction = [] ∧ n.exponent = none ∧ raised = 0 ∧ 0 < significand
      ∧ significand ≤ Nat.pow 2 63 then
    .ok (.integer (-(significand : Int)))
  else do
    let (significand, left) := fill significand (n.fraction.map Fin.val)
    let lowered := n.fraction.length - left
    let magnitude ← scaled significand ((raised : Int) - lowered + n.exponent.getD 0)
    return .double (if n.negative then -magnitude else magnitude)

end Number

end CallFlow.Json
