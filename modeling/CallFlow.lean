import CallFlow.Binding
import CallFlow.Canonical
import CallFlow.Catalog
import CallFlow.Command
import CallFlow.Decimal.Shortest
import CallFlow.Edit
import CallFlow.Event
import CallFlow.Hint
import CallFlow.IdSupply
import CallFlow.Json.Draft
import CallFlow.Json.Fault
import CallFlow.Json.Number
import CallFlow.Json.StringLit
import CallFlow.Json.Token
import CallFlow.Json.Value
import CallFlow.Listing
import CallFlow.Main
import CallFlow.Operand
import CallFlow.Rename
import CallFlow.Scope
import CallFlow.Session
import CallFlow.Step
import CallFlow.Store
import CallFlow.Text.Blank
import CallFlow.Text.Printable
import CallFlow.Text.Quoted
import CallFlow.ValueType
import CallFlow.Wire.Catalog
import CallFlow.Wire.Endpoint
import CallFlow.Wire.Error
import CallFlow.Wire.Format
import CallFlow.Wire.Record
import CallFlow.Wire.Workspace
import CallFlow.Workspace
import CallFlow.Proofs.Json.Lexeme
import CallFlow.Proofs.Json.Reading
import CallFlow.Proofs.Canonical
import CallFlow.Proofs.Wire.Record
import CallFlow.Proofs.Wire.Reading
import CallFlow.Proofs.Wire.Document
import CallFlow.Proofs.Rename.Producer
import CallFlow.Proofs.Hint
import CallFlow.Proofs.Rename.Hints
import CallFlow.Proofs.Store.Equivalence
import CallFlow.Proofs.Text.Blank
import CallFlow.Proofs.Store.Slot
import CallFlow.Proofs.Session.Edit
import CallFlow.Proofs.Session.Run
import CallFlow.Proofs.Hint.WellFormed
import CallFlow.Proofs.Suggestion
import CallFlow.Proofs.Scope.Fold
import CallFlow.Proofs.Session.NormalForm
import CallFlow.Proofs.Command.File
import CallFlow.Proofs.Wire.Spelling
import CallFlow.Proofs.Canonical.Meaning
import CallFlow.Proofs.Store.Named
import CallFlow.Proofs.Session.Identity
import CallFlow.Proofs.Json.Beginning
import CallFlow.Proofs.Json.Cut
import CallFlow.Proofs.Store.Interruption
import CallFlow.Proofs.Rename.Sequence
import CallFlow.Proofs.Session.Frame
import CallFlow.Proofs.Session.Repeat
import CallFlow.Proofs.FreeName
import CallFlow.Proofs.Session.Selection
import CallFlow.Proofs.Rename.Report
import CallFlow.Proofs.Store.Repeat
import CallFlow.Proofs.Canonical.FixedPoint
import CallFlow.Proofs.Session.Insertion
import CallFlow.Proofs.Wire.Agreement
import CallFlow.Proofs.Command.Repeat
import CallFlow.Proofs.Scope.Order
import CallFlow.Proofs.Hint.Selection
import CallFlow.Proofs.Wire.TypeForm
import CallFlow.Proofs.Wire.PinList
import CallFlow.Proofs.Text.Quoted
import CallFlow.Proofs.Listing
