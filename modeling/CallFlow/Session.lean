import CallFlow.Edit
import CallFlow.Hint
import CallFlow.Rename

/-!
# Sessions

A session is a working copy of an endpoint, edited against a catalog. It knows whether the copy may
differ from what was last opened or saved. Operations at positions that do not exist change
nothing.

## Main definitions

- `CallFlow.Session` — a working copy
- `CallFlow.Session.edit` — edits one step, and renames later references along with its result
- `CallFlow.Session.insert`, `CallFlow.Session.remove`, `CallFlow.Session.move` — change the list
- `CallFlow.Session.rename` — renames references after a position
- `CallFlow.Session.suggestions` — the names that fit an input of a call
-/

namespace CallFlow

/-- A working copy of an endpoint. -/
structure Session where
  catalog : Catalog
  endpoint : Endpoint
  hasChanges : Bool
deriving DecidableEq, Repr

namespace Session

/-- Opens an endpoint. -/
def start (catalog : Catalog) (endpoint : Endpoint) : Session := ⟨catalog, endpoint, false⟩

/-- The steps of the working copy. -/
def steps (s : Session) : List Step := s.endpoint.steps

/-- The session with other steps. -/
def withSteps (s : Session) (steps : List Step) : Session :=
  { s with endpoint := { s.endpoint with steps } }

/-- The scope before each step, and the one after the last. -/
def scopes (s : Session) : List Scope := s.catalog.scopes s.steps

/-- The scope before a position. -/
def scopeAt (s : Session) (index : Nat) : Scope := s.catalog.scopeAt s.steps index

/-- The hints about the working copy. -/
def hints (s : Session) : List Hint := s.catalog.hints s.steps

/-- Renames the references after a position. -/
def rename (s : Session) (index : Nat) (old new : String) : RenameReport × Session :=
  let (steps, report) := renameAfter s.steps index old new
  (report, { s.withSteps steps with hasChanges := s.hasChanges || 0 < report.changed })

/-- The rename that goes along when the result of a step changes its name: the old name, and the new
    one, which is empty if the result has none any more. -/
def renameNeeded? (before after : Step) : Option (String × String) :=
  match before.outputName with
  | none => none
  | some old =>
    if after.outputName = some old then none else some (old, after.outputName.getD "")

/-- Edits one step. Tells whether the edit changed it. -/
def edit (s : Session) (index : Nat) (e : Edit) : Bool × Session :=
  match s.steps[index]? with
  | none => (false, s)
  | some before =>
    let after := before.apply s.catalog (s.scopeAt index) e
    if after = before then (false, s)
    else
      let edited := { s.withSteps (s.steps.set index after) with hasChanges := true }
      match renameNeeded? before after with
      | none => (true, edited)
      | some (old, new) => (true, (edited.rename index old new).2)

/-- Inserts a new step of a kind, at the end if the position is past it. Returns its position. -/
def insert (s : Session) (index : Nat) (kind : StepKind) (id : String) : Nat × Session :=
  let position := min index s.steps.length
  (position,
    { s.withSteps (s.steps.insertIdx position (kind.create id)) with hasChanges := true })

/-- Removes the step at a position, and returns it. -/
def remove (s : Session) (index : Nat) : Option Step × Session :=
  match s.steps[index]? with
  | none => (none, s)
  | some step => (some step, { s.withSteps (s.steps.eraseIdx index) with hasChanges := true })

/-- Moves the step at a position to another one. Tells whether both positions exist. -/
def move (s : Session) (source target : Nat) : Bool × Session :=
  match s.steps[source]? with
  | none => (false, s)
  | some step =>
    if s.steps.length ≤ target then (false, s)
    else if source = target then (true, s)
    else
      (true,
        { s.withSteps ((s.steps.eraseIdx source).insertIdx target step) with hasChanges := true })

/-- The names that fit an input of the call at a position. -/
def suggestions (s : Session) (index : Nat) (input : String) : List String :=
  match s.steps[index]? with
  | some (.call c) =>
    match s.catalog.resolve c with
    | .method _ m => (s.scopeAt index).suggest ((m.input? input).bind (·.type))
    | _ => []
  | _ => []

/-- Takes what was saved as the working copy. -/
def markSaved (s : Session) (saved : Endpoint) : Session :=
  { s with endpoint := saved, hasChanges := false }

end Session

end CallFlow
