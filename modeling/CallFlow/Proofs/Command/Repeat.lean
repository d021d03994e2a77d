import CallFlow.Proofs.Canonical.FixedPoint
import CallFlow.Proofs.Command.File

/-!
# Renames that are run twice

A rename that was run leaves nothing to rename when it is run again. The first run names the result of
the call, and what is done to the endpoint on its way into the file does not undo that: canonicalizing
keeps the name of the result, and the file is read back as it was written. The second run finds the
endpoint by its name. It has to be the same one, so the endpoint must have been stored in its own place.

## Main definitions

- `CallFlow.Command.Settled` — a file in which a result has the name that is asked for

## Main statements

- `CallFlow.Session.canonicalize_edit_setOutputName` — a result that was named keeps its name
- `CallFlow.Command.run_of_settled` — there is nothing to rename in such a file
- `CallFlow.Command.settled_of_rewrites` — a rename that changes a call leaves such a file
- `CallFlow.Command.repeated_rename_changes_nothing` — both together
-/

namespace CallFlow

/-- Naming the result of a call leaves alone the calls whose result has that name. -/
theorem Call.apply_setOutputName_eq_self_iff {catalog : Catalog} {scope : Scope} {c : Call}
    {name : String} :
    c.apply catalog scope (.setOutputName name) = c ↔
      c.outputName = if name = "" then none else some name := by
  constructor
  · intro h
    rw [← h]
    rfl
  · intro h
    rw [apply, ← h]

/-- Canonicalizing an endpoint in which the result of a call was named keeps the name of the endpoint
    and that of the result. -/
theorem Session.canonicalize_edit_setOutputName {e : Endpoint} {index : Nat} {c : Call}
    (hc : e.steps[index]? = some (.call c)) (catalog : Catalog) (newName : String)
    (ids : IdSupply) :
    let edited := ((Session.start catalog e).edit index (.setOutputName newName)).2.endpoint
    let stored := (edited.canonicalize ids).1
    stored.name = e.name ∧ ∃ c', stored.steps[index]? = some (.call c') ∧
      c'.outputName = if newName = "" then none else some newName := by
  intro edited stored
  let named := c.apply catalog (catalog.scopeAt e.steps index) (.setOutputName newName)
  have hkept : edited.ContentKept stored := edited.contentKept_canonicalize ids
  have hframe : edited = { e with steps := _ } := Session.endpoint_edit _ index _
  have hedited : edited.steps[index]? = some (.call named) := by
    have hstep : (Session.start catalog e).steps[index]? = some (.call c) := hc
    have hat := (Session.start catalog e).getElem?_edit_self index (.setOutputName newName)
    rw [hstep] at hat
    exact hat
  obtain ⟨c', hc', hcall⟩ := hkept.call_of_getElem? hedited
  -- Neither call has an empty name for its result, so the name is the same.
  have hnonempty : named.NoEmptyOutput := by
    show (if newName = "" then none else some newName) ≠ some ""
    by_cases hnew : newName = "" <;> simp [hnew]
  have hstored : c'.NoEmptyOutput :=
    edited.canonicalize_noEmptyOutput ids _ (List.mem_of_getElem? hc')
  refine ⟨?_, c', hc', hcall.outputName_eq hnonempty hstored⟩
  rw [hkept.name, hframe]

namespace Command

/-- The file spells a workspace, and in the first endpoint of the given name the step at `index` is a
    call whose result has the new name, or no name if that is empty. -/
def Settled (path : String) (file : FileState) (name : String) (index : Nat) (newName : String) :
    Prop :=
  ∃ w position e c, file.load path = .ok w ∧ w.FirstNamed name position e ∧
    e.steps[index]? = some (.call c) ∧
    c.outputName = if newName = "" then none else some newName

variable {path : String} {file : FileState} {args : List String} {name newName : String}
  {index : Nat}

theorem run_of_settled (hasked : parse? args = some (.rename name index newName))
    (h : Settled path file name index newName) (ids : IdSupply) :
    run path ids file args = ⟨0, "Nothing to rename.\n", "", file⟩ := by
  obtain ⟨w, position, e, c, hload, hfirst, hc, hnamed⟩ := h
  have hrequire := Workspace.require_eq_ok_iff.mpr ⟨position, hfirst⟩
  have hstep : (Session.start w.catalog e).steps[index]? = some (.call c) := hc
  have hsame : ((Session.start w.catalog e).edit index (.setOutputName newName)).1 = false := by
    refine Bool.eq_false_iff.mpr fun hchanged => ?_
    exact (Session.edit_fst_iff hstep _).mp hchanged
      (congrArg Step.call (Call.apply_setOutputName_eq_self_iff.mpr hnamed))
  simp only [run, hasked, execute, hload, runRename, hrequire, hc, hsame]
  rfl

/-- An endpoint that is stored in its own place is found there again, with the call named as asked. -/
theorem settled_of_rewrites {w : Workspace} {position : Nat} {e : Endpoint} {c : Call}
    (h : Rewrites file args w position e index c newName) (hown : w.slotOf position e = position)
    (ids : IdSupply) : Settled path (run path ids file args).file e.name index newName := by
  let edited := ((Session.start w.catalog e).edit index (.setOutputName newName)).2.endpoint
  have hfile := (run_of_rewrites path ids h).2
  rw [hown] at hfile
  have hw : w.NoEmptyOutput := by
    obtain ⟨content, -, hdecode⟩ := h.spelt
    exact Wire.Kind.noEmptyOutput_of_decode (k := .workspace) hdecode
  have hstored := edited.canonicalize_noEmptyOutput ids
  have hload := FileState.load_text
    (FileState.decode_pretty (Workspace.put_noEmptyOutput hw hstored (some position))) path
  obtain ⟨hname, c', hc', hnamed⟩ :=
    Session.canonicalize_edit_setOutputName h.call w.catalog newName ids
  rw [hfile]
  exact ⟨_, position, _, c', hload, h.endpoint.set hname, hc', hnamed⟩

/-- A rename that succeeds although it changes no call had nothing to rename. -/
theorem settled_of_not_changed {w : Workspace} {position : Nat} {e : Endpoint} {ids : IdSupply}
    (hasked : parse? args = some (.rename name index newName)) (hload : file.load path = .ok w)
    (hfirst : w.FirstNamed name position e) (hcode : (run path ids file args).code = 0)
    (hsame : ∀ c, e.steps[index]? = some (.call c) →
      c.apply w.catalog (w.catalog.scopeAt e.steps index) (.setOutputName newName) = c) :
    Settled path file name index newName := by
  have hrequire := Workspace.require_eq_ok_iff.mpr ⟨position, hfirst⟩
  simp only [run, hasked, execute, hload, runRename, hrequire] at hcode
  cases hc : e.steps[index]? with
  | none =>
    rw [hc] at hcode
    cases hcode
  | some step =>
    cases step with
    | ret r =>
      rw [hc] at hcode
      cases hcode
    | call c =>
      exact ⟨w, position, e, c, hload, hfirst, hc,
        Call.apply_setOutputName_eq_self_iff.mp (hsame c hc)⟩

/-- After a rename that succeeded, the result has the name asked for, in the endpoint that the given
    name leads to. Running the rename again, with whatever identifiers, says that there is nothing to
    rename and leaves the file as it is. The endpoint must have no identifier, or none of an endpoint
    before it. -/
theorem repeated_rename_changes_nothing {w : Workspace} {position : Nat} {e : Endpoint}
    {ids : IdSupply} (hasked : parse? args = some (.rename name index newName))
    (hload : file.load path = .ok w) (hfirst : w.FirstNamed name position e)
    (hown : e.id = "" ∨ ∀ other ∈ w.endpoints.take position, other.id ≠ e.id)
    (hcode : (run path ids file args).code = 0) (ids' : IdSupply) :
    let once := run path ids file args
    Settled path once.file name index newName ∧
      run path ids' once.file args = ⟨0, "Nothing to rename.\n", "", once.file⟩ := by
  intro once
  have hsettled : Settled path once.file name index newName := by
    by_cases hchanged : ∃ c, e.steps[index]? = some (.call c) ∧
        c.apply w.catalog (w.catalog.scopeAt e.steps index) (.setOutputName newName) ≠ c
    · obtain ⟨c, hc, hne⟩ := hchanged
      obtain rfl := hfirst.named
      exact settled_of_rewrites
        ⟨hasked, FileState.exists_text_of_load hload, hfirst, hc, hne⟩
        (hfirst.slotOf_eq_iff.mpr hown) ids
    · have hsame : ∀ c, e.steps[index]? = some (.call c) →
          c.apply w.catalog (w.catalog.scopeAt e.steps index) (.setOutputName newName) = c := by
        intro c hc
        by_contra hne
        exact hchanged ⟨c, hc, hne⟩
      have hbefore := settled_of_not_changed hasked hload hfirst hcode hsame
      have honce : once = _ := run_of_settled hasked hbefore ids
      rwa [honce]
  exact ⟨hsettled, run_of_settled hasked hsettled ids'⟩

/-- The second endpoint has no identifier and neither has its call, so the first run makes up both. A
    later step refers to the result by its old name. -/
theorem repeated_rename_changes_nothing_unidentified :
    let ids (c : Char) : IdSupply := { id := fun n => String.ofList (List.replicate (n + 1) c) }
    let find : Call := ⟨"", "db", "find", some "row", []⟩
    let list : Endpoint := ⟨"", "list", "", " /", [.call find, .ret ⟨"r", "", .parameter "row"⟩]⟩
    let w : Workspace := ⟨.empty, [⟨"", "show", "", "/", []⟩, list]⟩
    let file : FileState := .text (Wire.workspaceFormat.pretty w)
    let rename := ["rename", "-e", "list", "-i0", "--to=user"]
    (run "flows" (ids 'x') file rename).code = 0 ∧
      (run "flows" (ids 'x') file rename).file ≠ file ∧
      Settled "flows" (run "flows" (ids 'x') file rename).file "list" 0 "user" ∧
      run "flows" (ids 'y') (run "flows" (ids 'x') file rename).file rename =
        ⟨0, "Nothing to rename.\n", "", (run "flows" (ids 'x') file rename).file⟩ := by
  intro ids find list w file rename
  have hw : w.NoEmptyOutput := by decide
  have hfirst : w.FirstNamed "list" 1 list :=
    { found := rfl
      named := rfl
      first := by
        intro earlier hearlier other hother
        obtain rfl : earlier = 0 := by omega
        cases hother
        decide }
  have hload : file.load "flows" = .ok w := FileState.load_text (FileState.decode_pretty hw) _
  have hasked : parse? rename = some (.rename "list" 0 "user") := by decide
  have hrewrites : Rewrites file rename w 1 list 0 find "user" :=
    ⟨hasked, FileState.exists_text_of_load hload, hfirst, rfl, by decide⟩
  have hcode : (run "flows" (ids 'x') file rename).code = 0 :=
    (run_of_rewrites "flows" (ids 'x') hrewrites).1
  obtain ⟨hsettled, hagain⟩ :=
    repeated_rename_changes_nothing hasked hload hfirst (.inl rfl) hcode (ids 'y')
  refine ⟨hcode, ?_, hsettled, hagain⟩
  -- In the file as it was, the result has its old name.
  intro hkept
  obtain ⟨w', position, e, c, hload', hfirst', hc, hnamed⟩ := hkept ▸ hsettled
  cases hload.symm.trans hload'
  have hrequire := Workspace.require_eq_ok_iff.mpr ⟨position, hfirst'⟩
  cases (Workspace.require_eq_ok_iff.mpr ⟨1, hfirst⟩).symm.trans hrequire
  cases hc
  exact absurd hnamed (by decide)

end Command

end CallFlow
