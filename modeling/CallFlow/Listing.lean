import CallFlow.Binding
import CallFlow.Text.Quoted

/-!
# Listings

An endpoint is listed with its name and address on the first line and one numbered line for each
step. What is still to be chosen is shown as a question mark, and an argument without a value as an
underscore.

## Main definitions

- `CallFlow.Operand.listingWith`, `CallFlow.Operand.listing`
- `CallFlow.Step.listing`, `CallFlow.Endpoint.listing`
- `CallFlow.Scope.listing`
-/

namespace CallFlow

/-- An operand in a listing, where `shown` holds of the characters of a literal that may stand for
    themselves. -/
def Operand.listingWith (shown : Char → Bool) : Operand → String
  | parameter name => if name = "" then "?" else "$" ++ name
  | literal text => Text.quotedWith shown text
  | unset => "_"

/-- An operand in a listing. -/
def Operand.listing (o : Operand) : String :=
  o.listingWith Text.isShown

/-- An argument in a listing. -/
def Argument.listing (a : Argument) : String :=
  s!"{a.name}: {a.value.listing}"

/-- What a call has selected, in a listing. -/
def Selection.listing : Selection → String
  | unselected => "?"
  | configOnly config => config.name ++ ".?"
  | method config m => s!"{config.name}.{m.name}"

/-- A call in a listing. -/
def Call.listing (catalog : Catalog) (c : Call) : String :=
  let arguments := ", ".intercalate (c.arguments.map Argument.listing)
  let target := (catalog.resolve c).listing
  match c.outputName with
  | some name => s!"{name} = {target}({arguments})"
  | none => s!"{target}({arguments})"

/-- A step in a listing. -/
def Step.listing (catalog : Catalog) : Step → String
  | .call c => c.listing catalog
  | .ret r => s!"return json({r.argument.value.listing})"

/-- A position, with blanks in front up to three characters. -/
def positionLabel (index : Nat) : String :=
  let digits := Nat.toDigits 10 index
  String.ofList (List.replicate (3 - digits.length) ' ' ++ digits)

/-- The lines of a listing of steps, the first of which stands at the given position. -/
def stepLines (catalog : Catalog) (index : Nat) : List Step → List String
  | [] => []
  | step :: steps =>
    s!"{positionLabel index}: {step.listing catalog}" :: stepLines catalog (index + 1) steps

/-- The listing of an endpoint. -/
def Endpoint.listing (catalog : Catalog) (e : Endpoint) : String :=
  "\n".intercalate (s!"{e.name} {e.url}" :: stepLines catalog 0 e.steps)

/-- A scope in a listing. -/
def Scope.listing (s : Scope) : String :=
  if s.isEmpty then "(empty)"
  else ", ".intercalate (s.entries.map fun (name, type) => s!"{name}: {type.label}")

end CallFlow
