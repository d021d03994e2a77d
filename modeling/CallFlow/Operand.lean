import CallFlow.Scope

/-!
# Operands

An operand is what an argument or a return passes on: the value of a name that an earlier step
bound, a literal text, or nothing yet. A name may be empty while it is still to be chosen.

## Main definitions

- `CallFlow.Operand` — a reference, a literal, or nothing yet
- `CallFlow.Operand.presentation` — how an operand is presented for editing
-/

namespace CallFlow

/-- What an argument or a return passes on. -/
inductive Operand where
  /-- The value bound to a name. -/
  | parameter (name : String)
  | literal (text : String)
  | unset
deriving DecidableEq, Repr

/-- How an operand is presented for editing. -/
inductive Presentation where
  /-- The operand is one of the suggested names. -/
  | suggested
  | parameter
  | literal
  | unset
deriving DecidableEq, Repr

namespace Operand

/-- The name that an operand refers to. -/
def reference? : Operand → Option String
  | parameter name => some name
  | literal _ => none
  | unset => none

/-- How an operand is presented where a type is expected in a scope. -/
def presentation (expected : Option ValueType) (scope : Scope) : Operand → Presentation
  | parameter name => if (scope.suggest expected).contains name then .suggested else .parameter
  | literal _ => .literal
  | unset => .unset

/-- The operand with the name `old` replaced by `new`. -/
def rename (old new : String) : Operand → Operand
  | parameter name => parameter (if name = old then new else name)
  | o => o

end Operand

end CallFlow
