import CallFlow.Step

/-!
# Catalogs

A catalog lists the methods that can be called. They are grouped into configs; a method declares
its inputs and outputs, each with a type if it has one. Lookups take the first match.

## Main definitions

- `CallFlow.Pin`, `CallFlow.Method`, `CallFlow.Config`, `CallFlow.Catalog`
- `CallFlow.Catalog.config?`, `CallFlow.Config.method?`, `CallFlow.Catalog.method?` — lookups
- `CallFlow.Catalog.resolve` — what a call has selected
-/

namespace CallFlow

/-- A declared input or output of a method. -/
structure Pin where
  name : String
  description : String
  type : Option ValueType
deriving DecidableEq, Repr

/-- A method with its inputs and outputs. -/
structure Method where
  name : String
  description : String
  inputs : List Pin
  outputs : List Pin
deriving DecidableEq, Repr

/-- A group of methods. -/
structure Config where
  id : String
  name : String
  path : String
  description : String
  methods : List Method
deriving DecidableEq, Repr

/-- All methods that can be called. -/
structure Catalog where
  configs : List Config
deriving DecidableEq, Repr

/-- What a call has selected. -/
inductive Selection where
  | unselected
  | configOnly (config : Config)
  | method (config : Config) (method : Method)
deriving DecidableEq, Repr

namespace Selection

/-- The config of a selection. -/
def config? : Selection → Option Config
  | unselected => none
  | configOnly config => some config
  | method config _ => some config

/-- The method of a selection. -/
def method? : Selection → Option Method
  | unselected => none
  | configOnly _ => none
  | method _ m => some m

end Selection

namespace Method

/-- The first input of a name. -/
def input? (m : Method) (name : String) : Option Pin :=
  m.inputs.find? (·.name = name)

/-- The output that is bound by a call: the first one. -/
def primaryOutput? (m : Method) : Option Pin :=
  m.outputs.head?

end Method

/-- The first method of a name. -/
def Config.method? (c : Config) (name : String) : Option Method :=
  c.methods.find? (·.name = name)

namespace Catalog

/-- The catalog without configs. -/
def empty : Catalog := ⟨[]⟩

/-- The first config of an identifier. -/
def config? (c : Catalog) (id : String) : Option Config :=
  c.configs.find? (·.id = id)

/-- The first method of a name in the first config of an identifier. -/
def method? (c : Catalog) (configId name : String) : Option Method :=
  (c.config? configId).bind (·.method? name)

/-- What a call has selected. -/
def resolve (c : Catalog) (call : Call) : Selection :=
  match c.config? call.configId with
  | none => .unselected
  | some config =>
    match config.method? call.methodName with
    | none => .configOnly config
    | some m => .method config m

end Catalog

end CallFlow
