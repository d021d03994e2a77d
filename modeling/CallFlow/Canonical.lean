import CallFlow.IdSupply
import CallFlow.Step
import CallFlow.Text.Blank

/-!
# Canonical endpoints

What is stored is canonical: the endpoint and all its steps have identifiers, the address has no
blanks around it, and no call binds its result to an empty name.

## Main definitions

- `CallFlow.Endpoint.canonicalize` — the canonical form of an endpoint
-/

namespace CallFlow

namespace Step

/-- Unbinds the result of a call if its name is empty. -/
def dropEmptyOutput : Step → Step
  | call c => call { c with outputName := c.outputName.filter (· ≠ "") }
  | ret r => ret r

/-- Draws an identifier for a step without one. -/
def ensureId (ids : IdSupply) (s : Step) : Step × IdSupply :=
  if s.id = "" then (s.withId ids.draw.1, ids.draw.2) else (s, ids)

/-- The canonical form of a step. -/
def canonicalize (ids : IdSupply) (s : Step) : Step × IdSupply :=
  let (s, ids) := s.ensureId ids
  (s.dropEmptyOutput, ids)

end Step

/-- The canonical forms of steps, with identifiers drawn in order. -/
def canonicalizeSteps (ids : IdSupply) : List Step → List Step × IdSupply
  | [] => ([], ids)
  | s :: ss =>
    let (step, ids) := s.canonicalize ids
    let (steps, ids) := canonicalizeSteps ids ss
    (step :: steps, ids)

/-- The canonical form of an endpoint. Its own identifier is drawn first. -/
def Endpoint.canonicalize (ids : IdSupply) (e : Endpoint) : Endpoint × IdSupply :=
  let (id, ids) := if e.id = "" then ids.draw else (e.id, ids)
  let (steps, ids) := canonicalizeSteps ids e.steps
  ({ e with id, url := Text.trim e.url, steps }, ids)

end CallFlow
