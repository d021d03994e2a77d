import CallFlow.Session
import CallFlow.Text.Quoted

/-!
# Events for the log

Some operations report what they did, or why they did nothing, as events for a log. The events of
an operation are given by a function of their own beside it, so that the operation itself stays a
plain function.

## Main definitions

- `CallFlow.Event` — something worth a line in the log
- `CallFlow.Event.level`, `CallFlow.Event.message` — its weight and wording
- `CallFlow.Catalog.methodEvents`, `CallFlow.Step.editEvents`, `CallFlow.Session.editEvents` — the
  events of lookups and edits
-/

namespace CallFlow

/-- The weight of an event. -/
inductive Level where
  | debug
  | info
  | warn
deriving DecidableEq, Repr

/-- Something worth a line in the log. -/
inductive Event where
  | configMissing (id : String)
  | methodMissing (name configId : String)
  | methodSelected (name : String) (arguments : Nat) (output : Option String)
  | returnEditIgnored (callId : String)
  | callEditIgnored (returnId : String)
  | renamed (old new : String) (position : Nat) (report : RenameReport)
  | editOutOfRange (position : Nat) (endpoint : String) (steps : Nat)
  | saved (endpoint : String) (steps : Nat) (path : String)
deriving DecidableEq, Repr

/-- An optional value as text, where `label` is the text of the value. -/
def optionLabel {α : Type} (label : α → String) : Option α → String
  | none => "None"
  | some a => s!"Some({label a})"

namespace Event

/-- The weight of an event. -/
def level : Event → Level
  | editOutOfRange _ _ _ => .warn
  | saved _ _ _ => .info
  | _ => .debug

/-- Whether an event is about a lookup in the catalog. -/
def isLookup : Event → Bool
  | configMissing _ => true
  | methodMissing _ _ => true
  | _ => false

/-- The wording of an event. -/
def message : Event → String
  | configMissing id => s!"Config '{id}' is not in the catalog, treating as unselected"
  | methodMissing name configId =>
    s!"Method '{name}' is not declared by config '{configId}', treating as unselected"
  | methodSelected name arguments output =>
    s!"Selected method '{name}' with {arguments} argument(s), " ++
      s!"output bound as {optionLabel Text.quoted output}"
  | returnEditIgnored callId => s!"Ignoring a return edit on call '{callId}'"
  | callEditIgnored returnId => s!"Ignoring a call edit on return '{returnId}'"
  | renamed old new position report =>
    s!"Renamed '{old}' -> '{new}' after position {position}: " ++
      s!"{report.changed} reference(s) rewritten, " ++
      s!"shadowed at {optionLabel toString report.shadowedAt}"
  | editOutOfRange position endpoint steps =>
    s!"Ignoring edit at position {position} of endpoint '{endpoint}' with {steps} instruction(s)"
  | saved endpoint steps path =>
    s!"Saved endpoint '{endpoint}' ({steps} instruction(s)) to '{path}'"

end Event

/-- The events of looking a method up in a config. An empty name is not worth a line. -/
def Config.methodEvents (c : Config) (name : String) : List Event :=
  if name ≠ "" ∧ c.method? name = none then [.methodMissing name c.id] else []

namespace Catalog

/-- The events of looking a config up. -/
def configEvents (c : Catalog) (id : String) : List Event :=
  if id ≠ "" ∧ c.config? id = none then [.configMissing id] else []

/-- The events of looking a method up by the identifier of its config and its name. -/
def methodEvents (c : Catalog) (configId name : String) : List Event :=
  match c.config? configId with
  | none => c.configEvents configId
  | some config => config.methodEvents name

end Catalog

/-- The events of editing a step. -/
def Step.editEvents (catalog : Catalog) (scope : Scope) (edit : Edit) : Step → List Event
  | .call c =>
    match edit with
    | .selectMethod name =>
      catalog.methodEvents c.configId name ++
        match catalog.method? c.configId name with
        | none => []
        | some m =>
          [.methodSelected m.name (m.defaultArguments scope).length (m.autoOutputName? scope)]
    | .setReturn _ => [.returnEditIgnored c.id]
    | _ => []
  | .ret r =>
    match edit with
    | .setReturn _ => []
    | _ => [.callEditIgnored r.id]

namespace Session

/-- The event of renaming references after a position. -/
def renameEvent (s : Session) (index : Nat) (old new : String) : Event :=
  .renamed old new index (s.rename index old new).1

/-- The events of an edit in a session, lookups apart. -/
def editEvents (s : Session) (index : Nat) (e : Edit) : List Event :=
  match s.steps[index]? with
  | none => [.editOutOfRange index s.endpoint.name s.steps.length]
  | some before =>
    let after := before.apply s.catalog (s.scopeAt index) e
    let renames :=
      match renameNeeded? before after with
      | none => []
      | some (old, new) =>
        [(s.withSteps (s.steps.set index after)).renameEvent index old new]
    (before.editEvents s.catalog (s.scopeAt index) e).filter (!·.isLookup) ++ renames

end Session

end CallFlow
