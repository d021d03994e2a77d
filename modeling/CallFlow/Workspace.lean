import CallFlow.Catalog

/-!
# Workspaces

A workspace holds a catalog and the endpoints that are built from it.

## Main definitions

- `CallFlow.Workspace` — a catalog with endpoints
- `CallFlow.Workspace.endpoint?` — the first endpoint of a name
-/

namespace CallFlow

/-- A catalog and the endpoints that are built from it. -/
structure Workspace where
  catalog : Catalog
  endpoints : List Endpoint
deriving DecidableEq, Repr

namespace Workspace

/-- The workspace without content. -/
def empty : Workspace := ⟨.empty, []⟩

/-- The first endpoint of a name. -/
def endpoint? (w : Workspace) (name : String) : Option Endpoint :=
  w.endpoints.find? (·.name = name)

end Workspace

end CallFlow
