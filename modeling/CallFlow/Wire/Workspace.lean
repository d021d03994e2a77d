import CallFlow.Wire.Endpoint
import CallFlow.Workspace

/-!
# Workspaces as documents

A workspace is an object that holds the members of its catalog beside its endpoints. The endpoints
are read where they stand. All other members are taken whole first and read as a catalog when the
object has been closed, so what is wrong with the catalog comes up last.

## Main definitions

- `CallFlow.Wire.workspaceFormat`
-/

namespace CallFlow.Wire

open Json (Draft StringLit)

/-- The members of a workspace. Returns the endpoints, if they were met, and the other members. -/
def readWorkspaceMembers (room : Nat) :
    List (StringLit × Draft) → Option (List Endpoint) → List (StringLit × Draft) →
      Except ReadError (Option (List Endpoint) × List (StringLit × Draft))
  | [], endpoints, others => .ok (endpoints, others.reverse)
  | (k, v) :: ms, endpoints, others => do
    let name ← malformed k.text
    if name = "endpoints" then
      if endpoints.isSome then .error (.repeatedField "endpoints")
      else do
        let es ← readList (endpointLayout.read .text) v
        readWorkspaceMembers room ms (some es) others
    else do
      let _ ← malformed (v.value room)
      readWorkspaceMembers room ms endpoints ((k, v) :: others)

/-- Reads a workspace. -/
def readWorkspace (room : Nat) : Draft → Except ReadError Workspace
  | .object members stop => do
    let (endpoints, others) ← readWorkspaceMembers (room - 1) members none []
    malformed stop.check
    let catalog ← (catalogLayout .taken room).read .taken (.object others .closed)
    return ⟨catalog, endpoints.getD []⟩
  | d => .error (mismatch (.record "Workspace") d)

/-- A workspace as a JSON value. -/
def writeWorkspace (w : Workspace) : Json :=
  .object [
    ("configs", .array (w.catalog.configs.map writeConfig)),
    ("endpoints", .array (w.endpoints.map writeEndpoint))]

/-- Workspaces as documents. -/
def workspaceFormat : Format Workspace := ⟨readWorkspace Json.depthLimit, writeWorkspace⟩

end CallFlow.Wire
