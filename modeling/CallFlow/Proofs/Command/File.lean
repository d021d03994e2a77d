import CallFlow.Command
import CallFlow.Proofs.Session.Edit
import CallFlow.Proofs.Store.Equivalence
import CallFlow.Proofs.Store.Named

/-!
# What a run leaves in the file

Only a rename that changes a call writes the file. Every other run leaves it as it is, whatever is
found there and whatever goes wrong. A rename that changes a call succeeds, and then one endpoint of
the workspace in the file has given way to the edited one: the endpoint that was edited itself if it
has no identifier, else the first one with its identifier.

## Main definitions

- `CallFlow.Command.Rewrites` — a rename that changes a call

## Main statements

- `CallFlow.Command.run_of_rewrites` — the run of such a rename
- `CallFlow.Command.file_run_of_not_rewrites` — all other runs
- `CallFlow.Command.run_keeps_or_rewrites` — both together
-/

namespace CallFlow

namespace Command

/-- The arguments ask for a rename, the file spells the workspace `w`, the first endpoint `e` of the
    given name stands at `position`, and the step at `index` is a call `c` whose result has another
    name so far. -/
structure Rewrites (file : FileState) (args : List String) (w : Workspace) (position : Nat)
    (e : Endpoint) (index : Nat) (c : Call) (newName : String) : Prop where
  asked : parse? args = some (.rename e.name index newName)
  spelt : ∃ content, file = .text content ∧ Wire.workspaceFormat.decode content = .ok w
  endpoint : w.FirstNamed e.name position e
  call : e.steps[index]? = some (.call c)
  changed : c.apply w.catalog (w.catalog.scopeAt e.steps index) (.setOutputName newName) ≠ c

variable {path : String} {ids : IdSupply} {file : FileState} {args : List String}

/-- A rename that changes a call succeeds and writes the workspace with the edited endpoint. -/
theorem run_of_rewrites (path : String) (ids : IdSupply) {w : Workspace} {position index : Nat}
    {e : Endpoint} {c : Call} {newName : String}
    (h : Rewrites file args w position e index c newName) :
    let edited := ((Session.start w.catalog e).edit index (.setOutputName newName)).2.endpoint
    let outcome := run path ids file args
    outcome.code = 0 ∧
      outcome.file = .text (Wire.workspaceFormat.pretty
        { w with
          endpoints := w.endpoints.set (w.slotOf position e) (edited.canonicalize ids).1 }) := by
  intro edited outcome
  obtain ⟨content, rfl, hdecode⟩ := h.spelt
  have hchanged :
      ((Session.start w.catalog e).edit index (.setOutputName newName)).1 = true := by
    refine (Session.edit_fst_iff h.call _).mpr ?_
    intro hsame
    exact h.changed (Step.call.inj hsame)
  have hload := FileState.load_text hdecode path
  have hrequire := Workspace.require_eq_ok_iff.mpr ⟨position, h.endpoint⟩
  have hsaved := FileState.save_of_holds (.inl ⟨content, rfl, hdecode⟩) path ids edited
  have houtcome : outcome =
      .printed (.text (Wire.workspaceFormat.pretty (w.save ids edited).2.1))
        [(w.save ids edited).1.listing w.catalog] := by
    simp only [edited] at hsaved
    simp only [outcome, run, h.asked, execute, hload, runRename, hrequire, h.call, hchanged,
      Bool.not_true, Bool.false_eq_true, if_false, hsaved, edited]
  -- The edit keeps what decides the place of the endpoint.
  have hedited : edited = { e with steps := _ } := Session.endpoint_edit _ index _
  have hid : edited.id = e.id := by rw [hedited]
  have hname : edited.name = e.name := by rw [hedited]
  rw [houtcome, h.endpoint.save_eq hid hname ids]
  exact ⟨rfl, rfl⟩

theorem file_runCheck (w : Workspace) (file : FileState) (name : Option String) :
    (runCheck w file name).file = file := by
  cases name with
  | none => rfl
  | some name =>
    rw [runCheck]
    split <;> rfl

theorem file_runScope (w : Workspace) (file : FileState) (name : String) (index : Option Nat) :
    (runScope w file name index).file = file := by
  rw [runScope]
  split <;> rfl

/-- A rename that writes the file changes a call. -/
theorem file_runRename {w : Workspace} {name : String} {index : Nat} {newName : String}
    (h : ∀ position e c, w.FirstNamed name position e → e.steps[index]? = some (.call c) →
      c.apply w.catalog (w.catalog.scopeAt e.steps index) (.setOutputName newName) = c) :
    (runRename path ids w file name index newName).file = file := by
  rw [runRename]
  split
  · rfl
  · rename_i e he
    obtain ⟨position, hposition⟩ := Workspace.require_eq_ok_iff.mp he
    split
    · rfl
    · rfl
    · rename_i c hc
      have hstep : (Session.start w.catalog e).steps[index]? = some (.call c) := hc
      have hsame : ((Session.start w.catalog e).edit index (.setOutputName newName)).1 = false := by
        refine Bool.eq_false_iff.mpr fun htrue => ?_
        have hchanged := (Session.edit_fst_iff hstep _).mp htrue
        exact hchanged (congrArg Step.call (h position e c hposition hc))
      simp only [hsame]
      rfl

theorem file_run_of_not_rewrites
    (h : ∀ w position e index c newName, ¬Rewrites file args w position e index c newName) :
    (run path ids file args).file = file := by
  rw [run]
  split
  · rfl
  · rename_i command hcommand
    rw [execute]
    split
    · rfl
    · rename_i w hw
      cases command with
      | check endpoint => exact file_runCheck w file endpoint
      | scope endpoint index => exact file_runScope w file endpoint index
      | rename endpoint index newName =>
        refine file_runRename fun position e c hposition hc => ?_
        by_contra hchanged
        have hasked : parse? args = some (.rename e.name index newName) := by
          rw [hposition.named, hcommand]
        exact h w position e index c newName ⟨hasked, FileState.exists_text_of_load hw,
          hposition.named ▸ hposition, hc, hchanged⟩

/-- Whatever is found under the name of the file and whatever the arguments are, a run leaves the
    file as it is unless it is a rename that changes a call. Such a run succeeds and replaces one
    endpoint of the workspace in the file with the canonical form of the edited one. -/
theorem run_keeps_or_rewrites (path : String) (ids : IdSupply) (file : FileState)
    (args : List String) :
    ((∀ w position e index c newName, ¬Rewrites file args w position e index c newName) →
        (run path ids file args).file = file) ∧
      ∀ w position e index c newName, Rewrites file args w position e index c newName →
        let edited := ((Session.start w.catalog e).edit index (.setOutputName newName)).2.endpoint
        let slot := if e.id = "" then position else w.endpoints.findIdx (·.id = e.id)
        (run path ids file args).code = 0 ∧ slot < w.endpoints.length ∧
          (run path ids file args).file = .text (Wire.workspaceFormat.pretty
            { w with endpoints := w.endpoints.set slot (edited.canonicalize ids).1 }) := by
  refine ⟨file_run_of_not_rewrites, ?_⟩
  intro w position e index c newName h
  obtain ⟨hcode, hfile⟩ := run_of_rewrites path ids h
  exact ⟨hcode, Workspace.slotOf_lt h.endpoint.found, hfile⟩

/-- Two endpoints share an identifier. Renaming a result of the second one stores it in the place of
    the first one. A check leaves the same file as it is. -/
theorem run_keeps_or_rewrites_shared_id :
    let ids : IdSupply := { id := fun n => String.ofList (List.replicate (n + 1) 'x') }
    let list (call name : String) : Endpoint := ⟨"a", "list", "", "/",
      [.call ⟨call, "db", "find", some name, []⟩]⟩
    let w : Workspace := ⟨.empty, [⟨"a", "show", "", "/", []⟩, list "" "row"]⟩
    let file : FileState := .text (Wire.workspaceFormat.pretty w)
    let rename := ["rename", "-e", "list", "-i0", "--to=user"]
    Rewrites file rename w 1 (list "" "row") 0 ⟨"", "db", "find", some "row", []⟩ "user" ∧
      (run "flows" ids file rename).code = 0 ∧
      (run "flows" ids file rename).file = .text (Wire.workspaceFormat.pretty
        { w with endpoints := [list "x" "user", list "" "row"] }) ∧
      (∀ w position e index c newName,
        ¬Rewrites file ["check"] w position e index c newName) ∧
      (run "flows" ids file ["check"]).file = file := by
  intro ids list w file rename
  have hw : w.NoEmptyOutput := by decide
  have hrewrites :
      Rewrites file rename w 1 (list "" "row") 0 ⟨"", "db", "find", some "row", []⟩ "user" :=
    { asked := by decide
      spelt := ⟨_, rfl, FileState.decode_pretty hw⟩
      endpoint :=
        { found := rfl
          named := rfl
          first := by
            intro earlier hearlier other hother
            obtain rfl : earlier = 0 := by omega
            cases hother
            decide }
      call := rfl
      changed := by decide }
  have hcheck : ∀ w position e index c newName,
      ¬Rewrites file ["check"] w position e index c newName := by
    intro w position e index c newName h
    have hasked := h.asked
    cases hasked
  have hstored :
      let session := Session.start w.catalog (list "" "row")
      let edited := (session.edit 0 (.setOutputName "user")).2.endpoint
      w.endpoints.set (w.endpoints.findIdx (·.id = "a")) (edited.canonicalize ids).1 =
        [list "x" "user", list "" "row"] := by
    decide
  obtain ⟨hcode, -, hfile⟩ :=
    (run_keeps_or_rewrites "flows" ids file rename).2 _ _ _ _ _ _ hrewrites
  rw [if_neg (by decide), hstored] at hfile
  exact ⟨hrewrites, hcode, hfile, hcheck, (run_keeps_or_rewrites "flows" ids file _).1 hcheck⟩

end Command

end CallFlow
