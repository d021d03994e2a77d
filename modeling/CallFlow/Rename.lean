import CallFlow.Step

/-!
# Renaming a result

When the result of a step gets another name, the later calls that refer to it are changed too, up
to and including the next call that binds the old name itself: from there on the old name means
that call's result. Returns keep what they return.

## Main definitions

- `CallFlow.RenameReport` — what a rename did
- `CallFlow.renameAfter` — renames the references after a position
-/

namespace CallFlow

/-- What a rename did: how many references were changed, and the position of the call that binds
    the old name again. -/
structure RenameReport where
  changed : Nat
  shadowedAt : Option Nat
deriving DecidableEq, Repr

namespace RenameReport

/-- Nothing was changed and nothing binds the old name again. -/
def none : RenameReport := ⟨0, Option.none⟩

/-- The report with more references in front. -/
def add (count : Nat) (r : RenameReport) : RenameReport :=
  { r with changed := count + r.changed }

end RenameReport

namespace Call

/-- The call with the references to `old` changed to `new`. -/
def renameReferences (old new : String) (c : Call) : Call :=
  { c with arguments := c.arguments.map fun a => { a with value := a.value.rename old new } }

/-- The number of arguments that refer to a name. -/
def referenceCount (name : String) (c : Call) : Nat :=
  c.arguments.countP fun a => a.value = .parameter name

end Call

/-- Renames the references in a list of steps, the first of which stands at the given position, up
    to the first call that binds the old name. -/
def renameFrom (old new : String) (position : Nat) : List Step → List Step × RenameReport
  | [] => ([], .none)
  | .ret r :: steps =>
    let (renamed, report) := renameFrom old new (position + 1) steps
    (.ret r :: renamed, report)
  | .call c :: steps =>
    let call := Step.call (c.renameReferences old new)
    let count := c.referenceCount old
    if c.outputName = some old then (call :: steps, ⟨count, some position⟩)
    else
      let (renamed, report) := renameFrom old new (position + 1) steps
      (call :: renamed, report.add count)

/-- Renames the references in the steps after a position. -/
def renameAfter (steps : List Step) (index : Nat) (old new : String) : List Step × RenameReport :=
  let (renamed, report) := renameFrom old new (index + 1) (steps.drop (index + 1))
  (steps.take (index + 1) ++ renamed, report)

end CallFlow
