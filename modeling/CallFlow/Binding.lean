import CallFlow.Catalog

/-!
# What steps bring into scope

A call brings its output name into scope when it has selected a method whose first output has a
type. Every step sees what the steps before it have bound.

## Main definitions

- `CallFlow.Step.binding?` — what one step binds
- `CallFlow.Catalog.scopes` — the scope before each step, and the one after the last
- `CallFlow.Catalog.scopeAt` — the scope before one position
-/

namespace CallFlow

/-- The name and type that a step binds. -/
def Step.binding? (catalog : Catalog) : Step → Option (String × ValueType)
  | .call c =>
    match c.outputName, catalog.resolve c with
    | some name, .method _ m => (m.primaryOutput?.bind (·.type)).map fun type => (name, type)
    | _, _ => none
  | .ret _ => none

namespace Catalog

/-- The scopes along a list of steps, from the given one. -/
def scopesFrom (catalog : Catalog) (scope : Scope) : List Step → List Scope
  | [] => [scope]
  | step :: steps =>
    scope :: catalog.scopesFrom (scope.extend (step.binding? catalog)) steps

/-- The scope before each step, and the one after the last. -/
def scopes (catalog : Catalog) (steps : List Step) : List Scope :=
  catalog.scopesFrom .empty steps

/-- The scope before a position. Past the last step it is the one after the last step. -/
def scopeAt (catalog : Catalog) (steps : List Step) (index : Nat) : Scope :=
  ((steps.take index).filterMap (·.binding? catalog)).foldl
    (fun scope (name, type) => scope.bind name type) .empty

end Catalog

end CallFlow
