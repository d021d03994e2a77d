import CallFlow.Catalog

/-!
# Edits of one step

An edit changes one choice in a step. Choosing a method fills in an argument for each of its
inputs and a free name for its result. An edit that does not concern the kind of the step changes
nothing.

## Main definitions

- `CallFlow.Edit` — a change of one step
- `CallFlow.Method.defaultArguments`, `CallFlow.Method.autoOutputName?` — what choosing a method
  fills in
- `CallFlow.Step.apply` — the step after an edit
-/

namespace CallFlow

/-- A change of one step. -/
inductive Edit where
  | selectConfig (id : String)
  | selectMethod (name : String)
  /-- Names the result; an empty name unbinds it. -/
  | setOutputName (name : String)
  | setArgument (input : String) (value : Operand)
  | setReturn (value : Operand)
deriving DecidableEq, Repr

/-- The first of the names `stem ++ n`, `stem ++ (n + 1)`, … that is not taken. A name that is
    taken is struck off the list, so the search ends. -/
def firstFreeName (stem : String) (taken : List String) (n : Nat) : String :=
  if h : stem ++ toString n ∈ taken then
    firstFreeName stem (taken.erase (stem ++ toString n)) (n + 1)
  else stem ++ toString n
termination_by taken.length
decreasing_by
  rw [List.length_erase_of_mem h]
  exact Nat.sub_lt (List.length_pos_of_mem h) Nat.zero_lt_one

/-- What an input is given at first: the first name that fits an object type, an empty literal
    for text, and nothing where no type is declared. -/
def Pin.defaultValue (scope : Scope) (p : Pin) : Operand :=
  match p.type with
  | some (.object id) => .parameter ((scope.firstSuggestion? (some (.object id))).getD "")
  | some .text => .literal ""
  | none => .unset

namespace Method

/-- One argument for each input. -/
def defaultArguments (scope : Scope) (m : Method) : List Argument :=
  m.inputs.map fun p => ⟨p.name, p.defaultValue scope⟩

/-- A free name for the result: the declared name, or the declared name with the least number
    that makes it free. -/
def autoOutputName? (scope : Scope) (m : Method) : Option String :=
  match m.primaryOutput? with
  | none => none
  | some p =>
    if p.name = "" then none
    else if scope.contains p.name then some (firstFreeName p.name scope.names 0)
    else some p.name

end Method

/-- Gives the first argument of a name another value, or adds an argument of that name. -/
def setArgument (input : String) (value : Operand) : List Argument → List Argument
  | [] => [⟨input, value⟩]
  | a :: as => if a.name = input then { a with value } :: as else a :: setArgument input value as

/-- The call after an edit. -/
def Call.apply (catalog : Catalog) (scope : Scope) (c : Call) : Edit → Call
  | .selectConfig id => { c with configId := id }
  | .selectMethod name =>
    match catalog.method? c.configId name with
    | some m =>
      { c with
        methodName := name
        arguments := m.defaultArguments scope
        outputName := m.autoOutputName? scope }
    | none => { c with methodName := name, arguments := [], outputName := none }
  | .setOutputName name => { c with outputName := if name = "" then none else some name }
  | .setArgument input value => { c with arguments := setArgument input value c.arguments }
  | .setReturn _ => c

/-- The return after an edit. -/
def Return.apply (r : Return) : Edit → Return
  | .setReturn value => { r with argument := { r.argument with value } }
  | _ => r

/-- The step after an edit. -/
def Step.apply (catalog : Catalog) (scope : Scope) (edit : Edit) : Step → Step
  | .call c => .call (c.apply catalog scope edit)
  | .ret r => .ret (r.apply edit)

end CallFlow
