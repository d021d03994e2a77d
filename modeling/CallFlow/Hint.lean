import CallFlow.Binding

/-!
# Hints

A hint says what is still missing or does not fit at one step of an endpoint. Hints are never a
reason to refuse an endpoint. The problems of a step depend only on the step, the catalog and the
scope before it.

## Main definitions

- `CallFlow.Problem`, `CallFlow.Hint` — a problem, and a problem with its position
- `CallFlow.Step.problems` — the problems of one step
- `CallFlow.Catalog.hints` — the hints of a list of steps
-/

namespace CallFlow

/-- What is missing or does not fit at a step. -/
inductive Problem where
  | noConfigSelected
  | configNotFound (configId : String)
  | noMethodSelected
  | methodNotFound (configId methodName : String)
  | missingArgument (input : String)
  | unknownArgument (argument : String)
  | emptyParameter (argument : String)
  | unresolvedParameter (argument reference : String)
  | typeMismatch (argument : String) (expected found : ValueType)
  | emptyReturn
deriving DecidableEq, Repr

/-- A problem at a position. -/
structure Hint where
  index : Nat
  problem : Problem
deriving DecidableEq, Repr

namespace Problem

/-- The wording of a problem. -/
def message : Problem → String
  | noConfigSelected => "no config selected"
  | configNotFound configId => s!"config '{configId}' is not in the catalog"
  | noMethodSelected => "no method selected"
  | methodNotFound configId methodName =>
    s!"method '{methodName}' is not declared by config '{configId}'"
  | missingArgument input => s!"input '{input}' has no argument"
  | unknownArgument argument => s!"argument '{argument}' does not match any input of the method"
  | emptyParameter argument => s!"'{argument}' does not reference a variable yet"
  | unresolvedParameter argument reference =>
    s!"'{argument}' references '{reference}', which is not in scope"
  | typeMismatch argument expected found =>
    s!"'{argument}' expected {expected.label}, found {found.label}"
  | emptyReturn => "nothing is returned"

end Problem

/-- The wording of a hint. -/
def Hint.message (h : Hint) : String :=
  s!"#{h.index}: {h.problem.message}"

/-- The problem of a value of a known type, where a type may be expected. -/
def typeProblems (argument : String) (expected : Option ValueType) (found : ValueType) :
    List Problem :=
  match expected with
  | none => []
  | some type => if type = found then [] else [.typeMismatch argument type found]

/-- The problems of an argument's value in a scope, where a type may be expected. -/
def Operand.problems (scope : Scope) (argument : String) (expected : Option ValueType) :
    Operand → List Problem
  | parameter reference =>
    if reference = "" then [.emptyParameter argument]
    else
      match scope.get? reference with
      | none => [.unresolvedParameter argument reference]
      | some found => typeProblems argument expected found
  | literal _ => typeProblems argument expected .text
  | unset => []

namespace Call

/-- The problems of a call's argument for one input of the method. -/
def inputProblems (scope : Scope) (c : Call) (input : Pin) : List Problem :=
  match c.argument? input.name with
  | none => [.missingArgument input.name]
  | some a => a.value.problems scope a.name input.type

/-- The problems of a call's arguments that are for no input of the method. -/
def unknownProblems (m : Method) (c : Call) : List Problem :=
  (c.arguments.filter fun a => !(m.inputs.map Pin.name).contains a.name).map fun a =>
    .unknownArgument a.name

/-- The problems of a call. Its arguments are looked at only when its method is known. -/
def problems (catalog : Catalog) (scope : Scope) (c : Call) : List Problem :=
  if c.configId = "" then [.noConfigSelected]
  else
    match catalog.config? c.configId with
    | none => [.configNotFound c.configId]
    | some config =>
      if c.methodName = "" then [.noMethodSelected]
      else
        match config.method? c.methodName with
        | none => [.methodNotFound c.configId c.methodName]
        | some m => m.inputs.flatMap (c.inputProblems scope) ++ c.unknownProblems m

end Call

/-- The problems of a return. -/
def Return.problems (scope : Scope) (r : Return) : List Problem :=
  match r.argument.value with
  | .unset => [.emptyReturn]
  | value => value.problems scope r.argument.name none

/-- The problems of a step in the scope before it. -/
def Step.problems (catalog : Catalog) (scope : Scope) : Step → List Problem
  | .call c => c.problems catalog scope
  | .ret r => r.problems scope

namespace Catalog

/-- The hints of steps, the first of which stands at the given position in the given scope. -/
def hintsFrom (catalog : Catalog) (scope : Scope) (index : Nat) : List Step → List Hint
  | [] => []
  | step :: steps =>
    (step.problems catalog scope).map (Hint.mk index)
      ++ catalog.hintsFrom (scope.extend (step.binding? catalog)) (index + 1) steps

/-- The hints of a list of steps. -/
def hints (catalog : Catalog) (steps : List Step) : List Hint :=
  catalog.hintsFrom .empty 0 steps

end Catalog

end CallFlow
