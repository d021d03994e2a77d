/-!
# Shortest decimal text of a double

A finite double is `m · 2 ^ q`. All reals between the midpoints to its two neighbours round back
to it, the midpoints themselves when `m` is even. Among the decimals in that interval the text
shows one with the fewest digits, and of those the one nearest to the double.

## Main definitions

- `CallFlow.Decimal.Binary` — a positive double as `m · 2 ^ q`
- `CallFlow.Decimal.Binary.shortest` — the fewest digits that read back
- `CallFlow.Decimal.text` — a finite double as text
-/

namespace CallFlow.Decimal

/-- A positive double: `mantissa · 2 ^ exponent`, with `mantissa < 2 ^ 53`. -/
structure Binary where
  mantissa : Nat
  exponent : Int

/-- A positive decimal: `digits · 10 ^ scale`. -/
structure Digits where
  digits : Nat
  scale : Int

/-- `base ^ e` as numerator and denominator. -/
def powerRatio (base : Nat) (e : Int) : Nat × Nat :=
  (base.pow e.toNat, base.pow (-e).toNat)

/-- Number of decimal digits of `n`, with none for zero. -/
def digitCount (n : Nat) : Nat :=
  if n = 0 then 0 else (Nat.toDigits 10 n).length

/-- The position of the leading digit of `num / den`: the greatest `e` with
    `10 ^ e ≤ num / den`. -/
def leadingPosition (num den : Nat) : Int :=
  if den ≤ num then (digitCount (num / den) : Int) - 1
  else -(digitCount ((den + num - 1) / num - 1) : Int)

namespace Binary

/-- The smallest exponent of a double. -/
def minExponent : Int := -1074

/-- The magnitude of the finite double with the given bits. -/
def ofBits (bits : UInt64) : Binary :=
  let fraction : Nat := bits.toNat % Nat.pow 2 52
  let field : Nat := bits.toNat / Nat.pow 2 52 % Nat.pow 2 11
  if field = 0 then ⟨fraction, minExponent⟩
  else ⟨fraction + Nat.pow 2 52, minExponent + (field : Int) - 1⟩

/-- The decimal with `count` digits that is nearest to the double, if one of the two around it
    reads back. Everything is measured in quarters of the double's last binary place, so that the
    midpoints are whole numbers of units. -/
def withDigits? (b : Binary) (count : Nat) : Option Digits :=
  let value := 4 * b.mantissa
  let low := if b.mantissa = Nat.pow 2 52 ∧ minExponent < b.exponent then value - 1 else value - 2
  let high := value + 2
  let (unitNum, unitDen) := powerRatio 2 (b.exponent - 2)
  let scale := leadingPosition (value * unitNum) unitDen - (count : Int) + 1
  let (gridNum, gridDen) := powerRatio 10 scale
  let place (t : Nat) : Nat := t * unitNum * gridDen
  let decimal (k : Nat) : Nat := k * gridNum * unitDen
  let readsBack (k : Nat) : Bool :=
    if b.mantissa % 2 = 0 then place low ≤ decimal k && decimal k ≤ place high
    else place low < decimal k && decimal k < place high
  let below := place value / (gridNum * unitDen)
  let above := below + 1
  -- Counting up from `9…9` gives one digit more, which is a zero.
  let rounded : Digits := if above = Nat.pow 10 count then ⟨above / 10, scale + 1⟩ else ⟨above, scale⟩
  match readsBack below, readsBack above with
  | false, false => none
  | true, false => some ⟨below, scale⟩
  | false, true => some rounded
  | true, true =>
    let down := place value - decimal below
    let up := decimal above - place value
    if down < up ∨ (down = up ∧ below % 2 = 0) then some ⟨below, scale⟩ else some rounded

/-- The fewest digits that read back. Seventeen always do. -/
def shortest (b : Binary) : Digits :=
  ((List.range 17).findSome? fun i => b.withDigits? (i + 1)).getD ⟨b.mantissa, 0⟩

end Binary

/-- A positive decimal as text: positional from `10 ^ (-5)` up to `10 ^ 16`, with at least one
    digit after the point, and otherwise with a signed exponent. -/
def Digits.text (d : Digits) : String :=
  let ds := Nat.toDigits 10 d.digits
  let lead : Int := (ds.length : Int) - 1 + d.scale
  if -5 ≤ lead ∧ lead ≤ 15 then
    if 0 ≤ d.scale then
      String.ofList (ds ++ List.replicate d.scale.toNat '0' ++ ['.', '0'])
    else if 0 ≤ lead then
      String.ofList (ds.take (lead.toNat + 1) ++ '.' :: ds.drop (lead.toNat + 1))
    else
      String.ofList ('0' :: '.' :: List.replicate ((-lead).toNat - 1) '0' ++ ds)
  else
    let fraction := if ds.length ≤ 1 then [] else '.' :: ds.drop 1
    let sign := if 0 ≤ lead then '+' else '-'
    String.ofList (ds.take 1 ++ fraction ++ 'e' :: sign :: Nat.toDigits 10 lead.natAbs)

/-- A finite double as text. -/
def text (x : Float) : String :=
  let bits := x.toBits
  let b := Binary.ofBits bits
  let magnitude := if b.mantissa = 0 then "0.0" else b.shortest.text
  if bits.toNat < Nat.pow 2 63 then magnitude else "-" ++ magnitude

end CallFlow.Decimal
