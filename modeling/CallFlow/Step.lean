import CallFlow.Operand

/-!
# Steps and endpoints

An endpoint is a list of steps. A step either calls a method and may bind the result to a name, or
returns a value. Steps may be incomplete: a call need not have a config, a method or all of its
arguments yet.

## Main definitions

- `CallFlow.Call`, `CallFlow.Return`, `CallFlow.Step` — what an endpoint does
- `CallFlow.StepKind` — the two kinds of steps
- `CallFlow.Endpoint` — a list of steps under a name and an address
-/

namespace CallFlow

/-- A value for one input of a method. -/
structure Argument where
  name : String
  value : Operand
deriving DecidableEq, Repr

/-- The call of a method. The result is bound to `outputName`, if there is one. -/
structure Call where
  id : String
  configId : String
  methodName : String
  outputName : Option String
  arguments : List Argument
deriving DecidableEq, Repr

/-- The return of a value. -/
structure Return where
  id : String
  argument : Argument
deriving DecidableEq, Repr

/-- One step of an endpoint. -/
inductive Step where
  | call (c : Call)
  | ret (r : Return)
deriving DecidableEq, Repr

/-- The kinds of steps. -/
inductive StepKind where
  | call
  | ret
deriving DecidableEq, Repr

/-- A list of steps under a name and an address. -/
structure Endpoint where
  id : String
  name : String
  description : String
  url : String
  steps : List Step
deriving DecidableEq, Repr

/-- The argument without name and value. -/
def Argument.blank : Argument := ⟨"", .unset⟩

/-- The call in which nothing is chosen. -/
def Call.blank : Call := ⟨"", "", "", none, []⟩

/-- The first argument of a name. -/
def Call.argument? (c : Call) (name : String) : Option Argument :=
  c.arguments.find? (·.name = name)

/-- The return without a value. -/
def Return.blank : Return := ⟨"", .blank⟩

namespace StepKind

/-- All kinds, in the order in which they are offered. -/
def all : List StepKind := [call, ret]

/-- The name of a kind. -/
def name : StepKind → String
  | call => "CallMethod"
  | ret => "JsonReturn"

/-- What a step of the kind does. -/
def description : StepKind → String
  | call => "Call a method from a config"
  | ret => "Return a JSON value"

/-- The kind of a name. -/
def ofName? (name : String) : Option StepKind :=
  all.find? (·.name = name)

/-- A new step of the kind: a call in which nothing is chosen, or the return of a name that is
    still to be chosen. -/
def create (id : String) : StepKind → Step
  | call => .call { Call.blank with id }
  | ret => .ret ⟨id, "", .parameter ""⟩

end StepKind

namespace Step

/-- The kind of a step. -/
def kind : Step → StepKind
  | call _ => .call
  | ret _ => .ret

/-- The identifier of a step. -/
def id : Step → String
  | call c => c.id
  | ret r => r.id

/-- The step with another identifier. -/
def withId (id : String) : Step → Step
  | call c => call { c with id }
  | ret r => ret { r with id }

/-- The name to which a step binds its result. -/
def outputName : Step → Option String
  | call c => c.outputName
  | ret _ => none

/-- The arguments of a step. A return has exactly one. -/
def arguments : Step → List Argument
  | call c => c.arguments
  | ret r => [r.argument]

end Step

namespace Endpoint

/-- The endpoint without any content. -/
def blank : Endpoint := ⟨"", "", "", "", []⟩

/-- A new endpoint of the given name and address. -/
def create (name url : String) : Endpoint :=
  { blank with name, url }

end Endpoint

end CallFlow
