import CallFlow.Canonical
import CallFlow.Wire.Workspace

/-!
# Storing endpoints

Saving an endpoint puts its canonical form into a workspace. It takes the place of the stored
endpoint with the same identifier, or, if it has none, of the first one with the same name, whose
identifier it keeps; otherwise it is added at the end. A workspace lives in memory or in a file,
which is read and written whole.

## Main definitions

- `CallFlow.Workspace.save` — saves an endpoint in a workspace
- `CallFlow.FileState` — what is found under the name of a file
- `CallFlow.FileState.load`, `CallFlow.FileState.save` — a workspace in a file
- `CallFlow.StoreError` — why a workspace cannot be loaded or saved
-/

namespace CallFlow

namespace Workspace

/-- The position that an endpoint takes when it is saved, if it replaces a stored one. -/
def slot? (w : Workspace) (e : Endpoint) : Option Nat :=
  w.endpoints.findIdx? fun stored =>
    if e.id = "" then stored.name = e.name else stored.id = e.id

/-- The endpoint with the identifier of the stored one that it replaces, if it has none itself. -/
def adoptId (w : Workspace) (e : Endpoint) : Endpoint :=
  match (w.slot? e).bind (w.endpoints[·]?) with
  | some stored => if e.id = "" then { e with id := stored.id } else e
  | none => e

/-- Puts an endpoint at a position, or at the end. -/
def put (w : Workspace) (slot : Option Nat) (e : Endpoint) : Workspace :=
  match slot with
  | some i => { w with endpoints := w.endpoints.set i e }
  | none => { w with endpoints := w.endpoints ++ [e] }

/-- Saves an endpoint. Returns what was stored, the workspace and the rest of the identifiers. -/
def save (w : Workspace) (ids : IdSupply) (e : Endpoint) : Endpoint × Workspace × IdSupply :=
  let (stored, ids) := (w.adoptId e).canonicalize ids
  (stored, w.put (w.slot? e) stored, ids)

end Workspace

/-- What is found under the name of a file. -/
inductive FileState where
  /-- Nothing, in a folder that exists. -/
  | absent
  /-- Nothing, and the folder does not exist either. -/
  | noFolder
  | folder
  | text (content : String)
  /-- Bytes that are no text. -/
  | binary (bytes : List UInt8)
deriving DecidableEq, Repr

/-- Why a file cannot be read or written. -/
inductive FileError where
  | notFound
  | isFolder
  | notText
deriving DecidableEq, Repr

/-- Why a workspace cannot be loaded or saved. -/
inductive StoreError where
  | file (path : String) (e : FileError)
  | document (e : Wire.ReadError)
  | endpointNotFound (name : String)
deriving DecidableEq, Repr

/-- The wording of a file error. -/
def FileError.message : FileError → String
  | notFound => "No such file or directory (os error 2)"
  | isFolder => "Is a directory (os error 21)"
  | notText => "stream did not contain valid UTF-8"

/-- The wording of a store error. -/
def StoreError.message : StoreError → String
  | file path e => s!"Could not access '{path}': {e.message}"
  | document e => s!"Failed to parse JSON document: {e.message}"
  | endpointNotFound name => s!"Endpoint '{name}' not found in the workspace"

/-- The first endpoint of a name, which has to exist. -/
def Workspace.require (w : Workspace) (name : String) : Except StoreError Endpoint :=
  match w.endpoint? name with
  | some e => .ok e
  | none => .error (.endpointNotFound name)

/-- The document that a text spells. -/
def decodeDocument {α : Type} (format : Wire.Format α) (text : String) : Except StoreError α :=
  (format.decode text).mapError .document

namespace FileState

/-- What is found in a file that holds the given bytes. -/
def ofBytes (bytes : ByteArray) : FileState :=
  match String.fromUTF8? bytes with
  | some content => text content
  | none => binary bytes.toList

/-- Whether something is found. -/
def isPresent : FileState → Bool
  | absent => false
  | noFolder => false
  | _ => true

/-- The text of a file. -/
def read : FileState → Except FileError String
  | absent => .error .notFound
  | noFolder => .error .notFound
  | folder => .error .isFolder
  | text content => .ok content
  | binary _ => .error .notText

/-- The file with another content. -/
def write (content : String) : FileState → Except FileError FileState
  | noFolder => .error .notFound
  | folder => .error .isFolder
  | _ => .ok (text content)

/-- What is left after an attempt to remove a file. A folder is no file, and stays. -/
def remove : FileState → FileState
  | text _ => absent
  | binary _ => absent
  | f => f

/-- What is left after an attempt to put something else under the name. A folder stays, a file gives
    way to a file only, and nothing gets into a folder that does not exist. -/
def replace (f new : FileState) : FileState :=
  match f, new with
  | absent, new => new
  | text _, text content => text content
  | text _, binary bytes => binary bytes
  | binary _, text content => text content
  | binary _, binary bytes => binary bytes
  | f, _ => f

/-- Reads a document from a file. -/
def loadDocument {α : Type} (format : Wire.Format α) (path : String) (f : FileState) :
    Except StoreError α := do
  let content ← f.read.mapError (.file path)
  decodeDocument format content

/-- Loads the workspace of a file. -/
def load (path : String) (f : FileState) : Except StoreError Workspace :=
  f.loadDocument Wire.workspaceFormat path

/-- The outcome of saving an endpoint in a file: what was stored, the file, and the rest of the
    identifiers. -/
structure Saved where
  result : Except StoreError Endpoint
  file : FileState
  ids : IdSupply

/-- Saves an endpoint in the workspace of a file. A file that does not exist yet holds the empty
    workspace. -/
def save (path : String) (f : FileState) (ids : IdSupply) (e : Endpoint) : Saved :=
  match if f.isPresent then f.load path else .ok .empty with
  | .error error => ⟨.error error, f, ids⟩
  | .ok w =>
    let (stored, w, ids) := w.save ids e
    match f.write (Wire.workspaceFormat.pretty w) with
    | .error error => ⟨.error (.file path error), f, ids⟩
    | .ok f => ⟨.ok stored, f, ids⟩

end FileState

end CallFlow
