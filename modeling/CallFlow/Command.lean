import CallFlow.Listing
import CallFlow.Session
import CallFlow.Store

/-!
# Commands

The command line works on the workspace in one file. It checks endpoints, shows what is in scope,
and renames the result of a call. A run is a function of the arguments and the file; only a rename
that changes something writes the file.

## Main definitions

- `CallFlow.Command` — what is asked for
- `CallFlow.Command.parse?` — the command that arguments spell
- `CallFlow.Command.run` — carries a command out
-/

namespace CallFlow

/-- What is asked for on the command line. -/
inductive Command where
  | check (endpoint : Option String)
  | scope (endpoint : String) (index : Option Nat)
  | rename (endpoint : String) (index : Nat) (newName : String)
deriving DecidableEq, Repr

/-- An option of a command, with its long name and its letter, if it has one. -/
structure CommandOption where
  long : String
  short : Option Char
deriving DecidableEq, Repr

namespace Command

/-- Whether an argument has the form of an option. A lone dash does not. -/
def looksLikeOption (arg : String) : Bool :=
  match arg.toList with
  | '-' :: _ :: _ => true
  | _ => false

/-- Splits an option with the long form `--name` or `--name=value`, after its dashes. -/
def splitLong (cs : List Char) : String × Option String :=
  match cs.dropWhile (· ≠ '=') with
  | [] => (String.ofList cs, none)
  | _ :: value => (String.ofList (cs.takeWhile (· ≠ '=')), some (String.ofList value))

/-- The value attached to an option's letter: `-ovalue` or `-o=value`. -/
def attachedValue : List Char → Option String
  | [] => none
  | '=' :: value => some (String.ofList value)
  | value => some (String.ofList value)

/-- The option that an argument names, and the value attached to it. -/
def option? (options : List CommandOption) (arg : String) :
    Option (CommandOption × Option String) :=
  match arg.toList with
  | '-' :: '-' :: cs =>
    (options.find? (·.long = (splitLong cs).1)).map fun o => (o, (splitLong cs).2)
  | '-' :: c :: cs => (options.find? (·.short = some c)).map fun o => (o, attachedValue cs)
  | _ => none

/-- The values of options by their long names. Each option may be given once, and nothing else may
    be given. A value that is an argument of its own must not look like an option. -/
def optionValues? (options : List CommandOption) :
    List String → List (String × String) → Option (List (String × String))
  | [], values => some values
  | ["--"], values => some values
  | [arg], values =>
    match option? options arg with
    | some (o, some value) =>
      if (values.lookup o.long).isSome then none else some ((o.long, value) :: values)
    | _ => none
  | arg :: next :: args, values =>
    match option? options arg with
    | none => none
    | some (o, attached) =>
      if (values.lookup o.long).isSome then none
      else
        match attached with
        | some value => optionValues? options (next :: args) ((o.long, value) :: values)
        | none =>
          if looksLikeOption next then none
          else optionValues? options args ((o.long, next) :: values)

/-- The largest position that can be given. -/
def maxIndex : Nat := Nat.pow 2 64 - 1

/-- A position in decimal digits, with an optional plus sign in front. -/
def index? (s : String) : Option Nat :=
  let cs := match s.toList with | '+' :: cs => cs | cs => cs
  match Json.digits cs with
  | ([], _) => none
  | (ds, []) => if Json.digitsValue ds ≤ maxIndex then some (Json.digitsValue ds) else none
  | _ => none

/-- The option that names an endpoint. -/
def endpointOption : CommandOption := ⟨"endpoint", some 'e'⟩

/-- The option that gives a position. -/
def indexOption : CommandOption := ⟨"index", some 'i'⟩

/-- The option that gives a new name. -/
def newNameOption : CommandOption := ⟨"to", none⟩

/-- The command that arguments spell. -/
def parse? : List String → Option Command
  | "check" :: args => do
    let values ← optionValues? [endpointOption] args []
    return .check (values.lookup "endpoint")
  | "scope" :: args => do
    let values ← optionValues? [endpointOption, indexOption] args []
    let endpoint ← values.lookup "endpoint"
    match values.lookup "index" with
    | none => return .scope endpoint none
    | some text => do
      let index ← index? text
      return .scope endpoint (some index)
  | "rename" :: args => do
    let values ← optionValues? [endpointOption, indexOption, newNameOption] args []
    let endpoint ← values.lookup "endpoint"
    let index ← (values.lookup "index").bind index?
    let newName ← values.lookup "to"
    return .rename endpoint index newName
  | _ => none

/-- What a run leaves behind. -/
structure Outcome where
  code : Nat
  stdout : String
  stderr : String
  file : FileState
deriving DecidableEq, Repr

namespace Outcome

/-- A run that prints lines and leaves the file alone. -/
def printed (file : FileState) (lines : List String) : Outcome :=
  ⟨0, String.join (lines.map (· ++ "\n")), "", file⟩

/-- A run that fails with a message and leaves the file alone. -/
def failed (file : FileState) (message : String) : Outcome :=
  ⟨1, "", s!"\nError: {message}\n", file⟩

/-- A run whose arguments make no sense. -/
def misused (file : FileState) : Outcome :=
  ⟨2, "", "Usage: WORKSPACE check [-e NAME] | scope -e NAME [-i N] | rename -e NAME -i N --to NEW\n",
    file⟩

end Outcome

/-- The lines that report on one endpoint. -/
def checkLines (catalog : Catalog) (e : Endpoint) : List String :=
  let hints := catalog.hints e.steps
  let lines := if hints.isEmpty then ["  -> No hints"] else hints.map fun h => "  -> " ++ h.message
  e.listing catalog :: lines ++ [""]

/-- The lines of a check of endpoints. -/
def reportLines (catalog : Catalog) (endpoints : List Endpoint) : List String :=
  let total := (endpoints.flatMap fun e => catalog.hints e.steps).length
  endpoints.flatMap (checkLines catalog) ++ [s!"{total} hint(s) total"]

/-- Checks the endpoint of a name, or all of them. -/
def runCheck (w : Workspace) (file : FileState) : Option String → Outcome
  | none => .printed file (reportLines w.catalog w.endpoints)
  | some name =>
    match w.require name with
    | .error e => .failed file e.message
    | .ok e => .printed file (reportLines w.catalog [e])

/-- Shows the scope before a position, or after the last step. -/
def runScope (w : Workspace) (file : FileState) (name : String) (index : Option Nat) : Outcome :=
  match w.require name with
  | .error e => .failed file e.message
  | .ok e =>
    let position := index.getD e.steps.length
    .printed file
      [s!"Scope before #{position}: {(w.catalog.scopeAt e.steps position).listing}"]

/-- Names the result of a call and saves the endpoint, if that changes anything. -/
def runRename (path : String) (ids : IdSupply) (w : Workspace) (file : FileState)
    (name : String) (index : Nat) (newName : String) : Outcome :=
  match w.require name with
  | .error e => .failed file e.message
  | .ok e =>
    match e.steps[index]? with
    | none => .failed file s!"Endpoint '{name}' has no instruction #{index}"
    | some (.ret _) => .failed file s!"Instruction #{index} is a return, not a call"
    | some (.call _) =>
      let (changed, session) := (Session.start w.catalog e).edit index (.setOutputName newName)
      if !changed then .printed file ["Nothing to rename."]
      else
        let saved := file.save path ids session.endpoint
        match saved.result with
        | .error error => .failed saved.file s!"Failed to save workspace: {error.message}"
        | .ok stored => .printed saved.file [stored.listing w.catalog]

/-- Carries a command out on the workspace in a file. -/
def execute (path : String) (ids : IdSupply) (file : FileState) (command : Command) : Outcome :=
  match file.load path with
  | .error e => .failed file s!"Failed to load workspace '{path}': {e.message}"
  | .ok w =>
    match command with
    | check endpoint => runCheck w file endpoint
    | scope endpoint index => runScope w file endpoint index
    | rename endpoint index newName => runRename path ids w file endpoint index newName

/-- A run of the command line. The arguments are looked at before the file is read. -/
def run (path : String) (ids : IdSupply) (file : FileState) (args : List String) : Outcome :=
  match parse? args with
  | none => .misused file
  | some command => command.execute path ids file

end Command

end CallFlow
