import CallFlow.Text.Quoted

/-!
# Supplies of identifiers

New endpoints and steps are given identifiers from a supply. A supply is a stream of identifiers
that counts how many were drawn from it.

## Main definitions

- `CallFlow.IdSupply` — a stream of identifiers with a position
- `CallFlow.IdSupply.draw` — the next identifier
- `CallFlow.IdSupply.ofSeed` — identifiers of 32 hexadecimal digits, counted up from a seed
-/

namespace CallFlow

/-- A stream of identifiers, of which the first `drawn` have been used. -/
structure IdSupply where
  id : Nat → String
  drawn : Nat := 0

namespace IdSupply

/-- The next identifier, and the supply without it. -/
def draw (s : IdSupply) : String × IdSupply :=
  (s.id s.drawn, { s with drawn := s.drawn + 1 })

/-- A number below `2 ^ 128` as 32 hexadecimal digits. -/
def hexId (n : Nat) : String :=
  let digits := Text.hex n
  String.ofList (List.replicate (32 - digits.length) '0' ++ digits)

/-- Identifiers of 32 hexadecimal digits, counted up from a seed. -/
def ofSeed (seed : Nat) : IdSupply where
  id n := hexId ((seed + n) % Nat.pow 2 128)

end IdSupply

end CallFlow
