import CallFlow.Store
import CallFlow.Proofs.Wire.Document

/-!
# Workspaces in memory and in files

A workspace in a file is read and written whole on every save, one in memory is kept as it is. The
two cannot be told apart: whatever is saved, they answer the same and hold the same afterwards.

What carries the argument is that a text can spell everything a workspace ever holds. A workspace
that was read has no calls that bind an empty name, and what is saved is canonical, so it has none
either.

## Main definitions

- `CallFlow.FileState.Holds` — a file that stands for a workspace
- `CallFlow.Workspace.observe`, `CallFlow.FileState.observe` — what can be seen of a run of saves

## Main statements

- `CallFlow.FileState.observe_eq_of_holds` — runs of saves look the same in a file and in memory
-/

namespace CallFlow

namespace Workspace

theorem put_noEmptyOutput {w : Workspace} {e : Endpoint} (hw : w.NoEmptyOutput)
    (he : e.NoEmptyOutput) (slot : Option Nat) : (w.put slot e).NoEmptyOutput := by
  intro stored hstored
  cases slot with
  | none =>
    rcases List.mem_append.mp hstored with hold | hnew
    · exact hw stored hold
    · rw [List.mem_singleton.mp hnew]
      exact he
  | some i =>
    rcases List.mem_or_eq_of_mem_set hstored with hold | rfl
    · exact hw stored hold
    · exact he

/-- Saving brings in no call that binds an empty name, whatever is saved. -/
theorem save_noEmptyOutput {w : Workspace} (hw : w.NoEmptyOutput) (ids : IdSupply) (e : Endpoint) :
    (w.save ids e).2.1.NoEmptyOutput :=
  put_noEmptyOutput hw ((w.adoptId e).canonicalize_noEmptyOutput ids) (w.slot? e)

end Workspace

/-! ## Files that hold a workspace -/

namespace FileState

/-- The file stands for a workspace: its text spells the workspace, or there is no file yet and the
    workspace is empty. -/
def Holds (f : FileState) (w : Workspace) : Prop :=
  (∃ content, f = .text content ∧ Wire.workspaceFormat.decode content = .ok w) ∨
    f = .absent ∧ w = .empty

variable {f : FileState} {w : Workspace}

theorem Holds.noEmptyOutput (h : f.Holds w) : w.NoEmptyOutput := by
  rcases h with ⟨content, -, hdecode⟩ | ⟨-, rfl⟩
  · exact Wire.Kind.noEmptyOutput_of_decode (k := .workspace) hdecode
  · intro e he
    cases he

theorem load_text {content : String} (h : Wire.workspaceFormat.decode content = .ok w)
    (path : String) : (text content).load path = .ok w := by
  show decodeDocument Wire.workspaceFormat content = .ok w
  rw [decodeDocument, h]
  rfl

theorem exists_text_of_load {path : String} (h : f.load path = .ok w) :
    ∃ content, f = .text content ∧ Wire.workspaceFormat.decode content = .ok w := by
  obtain ⟨content, hread, hdecode⟩ := Wire.bind_eq_ok.mp h
  cases f with
  | text found =>
    cases hread
    refine ⟨content, rfl, ?_⟩
    rw [decodeDocument] at hdecode
    cases hd : Wire.workspaceFormat.decode content with
    | error error => rw [hd] at hdecode; cases hdecode
    | ok found => rw [hd] at hdecode; cases hdecode; rfl
  | _ => cases hread

/-- A text of a workspace without calls that bind an empty name holds that workspace. -/
theorem decode_pretty (h : w.NoEmptyOutput) :
    Wire.workspaceFormat.decode (Wire.workspaceFormat.pretty w) = .ok w :=
  Wire.Kind.decode_encode (k := .workspace) h

/-- Saving to a file that holds a workspace saves to the workspace, and writes it out. -/
theorem save_of_holds (h : f.Holds w) (path : String) (ids : IdSupply) (e : Endpoint) :
    f.save path ids e =
      ⟨.ok (w.save ids e).1, .text (Wire.workspaceFormat.pretty (w.save ids e).2.1),
        (w.save ids e).2.2⟩ := by
  rcases h with ⟨content, rfl, hdecode⟩ | ⟨rfl, rfl⟩
  · rw [save, show (text content).isPresent = true from rfl, if_pos rfl, load_text hdecode]
    rfl
  · rfl

/-- A save that succeeds found a workspace. -/
theorem exists_holds_of_save {path : String} {ids : IdSupply} {e stored : Endpoint}
    (h : (f.save path ids e).result = .ok stored) : ∃ w, f.Holds w := by
  rw [save] at h
  split at h
  · cases h
  · rename_i w hw
    cases f with
    | absent => exact ⟨.empty, .inr ⟨rfl, rfl⟩⟩
    | text content => exact ⟨w, .inl (exists_text_of_load hw)⟩
    | noFolder => cases h
    | folder => cases hw
    | binary bytes => cases hw

/-- What was written out stands for the workspace. -/
theorem holds_pretty (h : w.NoEmptyOutput) :
    (text (Wire.workspaceFormat.pretty w)).Holds w :=
  .inl ⟨_, rfl, decode_pretty h⟩

end FileState

/-! ## Runs -/

/-- What can be seen of a save: what was stored, and what the store holds afterwards. -/
structure Observation where
  echo : Except StoreError Endpoint
  content : Except StoreError Workspace

/-- What can be seen when endpoints are saved in memory, one after the other. -/
def Workspace.observe (w : Workspace) (ids : IdSupply) : List Endpoint → List Observation
  | [] => []
  | e :: es =>
    let (stored, w, ids) := w.save ids e
    ⟨.ok stored, .ok w⟩ :: w.observe ids es

/-- What can be seen when endpoints are saved in a file, one after the other. -/
def FileState.observe (path : String) (f : FileState) (ids : IdSupply) :
    List Endpoint → List Observation
  | [] => []
  | e :: es =>
    let saved := f.save path ids e
    ⟨saved.result, saved.file.load path⟩ :: saved.file.observe path saved.ids es

namespace FileState

/-- Endpoints saved in a file that holds a workspace look the same as in memory: each save gives
    back the same endpoint, and afterwards the file spells the workspace in memory. -/
theorem observe_eq_of_holds {f : FileState} {w : Workspace} (h : f.Holds w) (path : String)
    (ids : IdSupply) (es : List Endpoint) : f.observe path ids es = w.observe ids es := by
  induction es generalizing f w ids with
  | nil => rfl
  | cons e es ih =>
    -- The invariant of the run: the file holds the workspace, so no call binds an empty name.
    have hsaved : (w.save ids e).2.1.NoEmptyOutput :=
      Workspace.save_noEmptyOutput h.noEmptyOutput ids e
    rw [observe, Workspace.observe, save_of_holds h]
    dsimp only
    rw [load_text (decode_pretty hsaved), ih (holds_pretty hsaved)]

/-- The file has an endpoint without identifier. An endpoint of its name whose call binds an empty
    name is saved twice: it takes the place of the stored one, and keeps the identifier it got
    first. -/
theorem observe_eq_of_holds_twice :
    let content := r#"{"endpoints":[{"name":"list"}]}"#
    let w : Workspace := ⟨.empty, [{ Endpoint.blank with name := "list" }]⟩
    let ids : IdSupply := { id := fun n => String.ofList (List.replicate (n + 1) 'x') }
    let e : Endpoint := ⟨"", "list", "", " /", [.call { Call.blank with outputName := some "" }]⟩
    let stored (id : String) : Endpoint := ⟨"x", "list", "", "/", [.call { Call.blank with id }]⟩
    (text content).Holds w ∧
      (text content).observe "flows" ids [e, e] = w.observe ids [e, e] ∧
      (w.observe ids [e, e]).map (·.echo.toOption) = [some (stored "xx"), some (stored "xxx")] ∧
      (w.observe ids [e, e]).map (·.content.toOption) =
        [some ⟨.empty, [stored "xx"]⟩, some ⟨.empty, [stored "xxx"]⟩] := by
  intro content w ids e stored
  have hcontent : content =
      (Json.object [("endpoints", .array [.object [("name", .string "list")]])]).compact := by
    decide
  have hdecode : Wire.workspaceFormat.decode content = .ok w := by
    rw [hcontent, Wire.Format.decode, Json.ofText_compact]
    rfl
  have hholds : (text content).Holds w := .inl ⟨content, rfl, hdecode⟩
  exact ⟨hholds, observe_eq_of_holds hholds "flows" ids [e, e], by decide, by decide⟩

end FileState

end CallFlow
