import Mathlib.Data.List.InsertIdx
import CallFlow.Proofs.FreeName
import CallFlow.Proofs.Scope.Fold
import CallFlow.Proofs.Session.Run
import CallFlow.Proofs.Store.Equivalence

/-!
# Sessions bind no empty name

An empty name stands for a reference that is still to be chosen, so a result must never be bound to
it: renaming that result would fill in all the open references after it. Endpoints that were read or
stored have no such result, and no action of a session brings one in. An edit strikes out an empty
name, and a name that is made up for a result starts with a declared name that is not empty.

## Main definitions

- `CallFlow.Endpoint.Sourced` — where a session's endpoints come from
- `CallFlow.KeepsPlaceholders` — open references stay open

## Main statements

- `CallFlow.Step.apply_noEmptyOutput` — what an edit of one step keeps
- `CallFlow.Session.perform_noEmptyOutput` — what one action keeps
- `CallFlow.Session.binds_no_empty_name` — what holds at every point of a run
-/

namespace CallFlow

/-! ## Edits of one step -/

theorem Method.autoOutputName?_ne_some_empty (scope : Scope) (m : Method) :
    m.autoOutputName? scope ≠ some "" := by
  intro h
  obtain ⟨p, -, hname, hfree⟩ := freeName_of_autoOutputName? h
  exact hfree.ne_empty hname rfl

theorem Call.apply_noEmptyOutput {c : Call} (h : c.NoEmptyOutput) (catalog : Catalog)
    (scope : Scope) (e : Edit) : (c.apply catalog scope e).NoEmptyOutput := by
  cases e with
  | selectConfig id => exact h
  | selectMethod name =>
    rw [apply]
    split
    · rename_i m _
      exact m.autoOutputName?_ne_some_empty scope
    · simp [NoEmptyOutput]
  | setOutputName name =>
    by_cases hname : name = "" <;> simp [apply, NoEmptyOutput, hname]
  | setArgument input value => exact h
  | setReturn value => exact h

/-- An edit never binds a result to an empty name. -/
theorem Step.apply_noEmptyOutput {s : Step} (h : s.NoEmptyOutput) (catalog : Catalog)
    (scope : Scope) (e : Edit) : (s.apply catalog scope e).NoEmptyOutput := by
  cases s with
  | call c => exact Call.apply_noEmptyOutput (c := c) h catalog scope e
  | ret r => exact Option.some_ne_none "" ∘ Eq.symm

/-! ## Steps of an endpoint -/

theorem Endpoint.noEmptyOutput_iff {e : Endpoint} :
    e.NoEmptyOutput ↔ ∀ p, outputNameAt e.steps p ≠ some "" := by
  constructor
  · intro h p hp
    obtain ⟨s, hs, hname⟩ := Option.bind_eq_some_iff.mp hp
    exact h s (List.mem_of_getElem? hs) hname
  · intro h s hs hname
    obtain ⟨p, hp⟩ := List.mem_iff_getElem?.mp hs
    exact h p (by rw [outputNameAt, hp, Option.bind_some, hname])

theorem outputNameAt_replaceStep_ne {steps : List Step} (h : ∀ p, outputNameAt steps p ≠ some "")
    {after : Step} (hafter : after.NoEmptyOutput) (i : Nat) (before : Step) (p : Nat) :
    outputNameAt (replaceStep steps i before after) p ≠ some "" := by
  have hset : outputNameAt (steps.set i after) p ≠ some "" := by
    by_cases hp : p = i
    · subst hp
      intro hname
      obtain ⟨s, hs, hname⟩ := Option.bind_eq_some_iff.mp hname
      rw [List.getElem?_set_self (by simpa using (List.getElem?_eq_some_iff.mp hs).1)] at hs
      cases hs
      exact hafter hname
    · rw [outputNameAt_set_of_ne hp]
      exact h p
  rw [replaceStep]
  split
  · exact hset
  · rwa [outputNameAt_renameAfter]

/-- The arguments after a position that refer to no name yet stay as they are. -/
def KeepsPlaceholders (index : Nat) (before after : List Step) : Prop :=
  ∀ p (c : Call), index < p → before[p]? = some (.call c) →
    ∃ c' : Call, after[p]? = some (.call c') ∧
      ∀ (n : Nat) (a : Argument), c.arguments[n]? = some a → a.value = .parameter "" →
        c'.arguments[n]? = some a

theorem keepsPlaceholders_of_eq {index : Nat} {before after : List Step}
    (h : ∀ p, index < p → after[p]? = before[p]?) : KeepsPlaceholders index before after := by
  intro p c hp hc
  exact ⟨c, (h p hp).trans hc, fun n a ha _ => ha⟩

/-- A rename of a name that is not empty leaves open references alone. -/
theorem keepsPlaceholders_renameAfter {old : String} (h : old ≠ "") (steps : List Step)
    (index : Nat) (new : String) :
    KeepsPlaceholders index steps (renameAfter steps index old new).1 := by
  intro p c _ hc
  by_cases hreached : Reached steps index old p
  · refine ⟨c.renameReferences old new, ?_, ?_⟩
    · rw [getElem?_renameAfter_of_reached hreached, hc]
      rfl
    · intro n a ha hvalue
      have hrename : a.value.rename old new = a.value := by
        rw [hvalue, Operand.rename, if_neg h.symm]
      rw [Call.renameReferences, List.getElem?_map, ha, Option.map_some, hrename]
  · exact ⟨c, (getElem?_renameAfter_of_not_reached hreached new).trans hc, fun n a ha _ => ha⟩

theorem keepsPlaceholders_replaceStep {before : Step} (h : before.NoEmptyOutput)
    (steps : List Step) (i : Nat) (after : Step) :
    KeepsPlaceholders i steps (replaceStep steps i before after) := by
  have hset : ∀ p, i < p → (steps.set i after)[p]? = steps[p]? :=
    fun p hp => List.getElem?_set_ne (Nat.ne_of_lt hp)
  rw [replaceStep]
  split
  · exact keepsPlaceholders_of_eq hset
  · rename_i old new hneeded
    have hold : before.outputName = some old := (renameNeeded?_eq_some_iff.mp hneeded).1
    have hne : old ≠ "" := by
      rintro rfl
      exact h hold
    intro p c hp hc
    rw [← hset p hp] at hc
    exact keepsPlaceholders_renameAfter hne (steps.set i after) i new p c hp hc

/-! ## Where endpoints come from -/

/-- A new endpoint, one that was read by itself or in a workspace, or one that a store gave back. -/
inductive Endpoint.Sourced : Endpoint → Prop
  | created (name url : String) : (Endpoint.create name url).Sourced
  | read {text : String} {e : Endpoint} (h : Wire.endpointFormat.decode text = .ok e) : e.Sourced
  | opened {text : String} {w : Workspace} {e : Endpoint}
      (h : Wire.workspaceFormat.decode text = .ok w) (he : e ∈ w.endpoints) : e.Sourced
  | savedInMemory (w : Workspace) (ids : IdSupply) (e : Endpoint) : (w.save ids e).1.Sourced
  | savedInFile {path : String} {f : FileState} {ids : IdSupply} {e stored : Endpoint}
      (h : (f.save path ids e).result = .ok stored) : stored.Sourced

theorem FileState.exists_save_of_result {path : String} {f : FileState} {ids : IdSupply}
    {e stored : Endpoint} (h : (f.save path ids e).result = .ok stored) :
    ∃ w : Workspace, stored = (w.save ids e).1 := by
  obtain ⟨w, hw⟩ := exists_holds_of_save h
  rw [save_of_holds hw] at h
  cases h
  exact ⟨w, rfl⟩

theorem Workspace.echo_noEmptyOutput (w : Workspace) (ids : IdSupply) (e : Endpoint) :
    (w.save ids e).1.NoEmptyOutput :=
  (w.adoptId e).canonicalize_noEmptyOutput ids

theorem Endpoint.Sourced.noEmptyOutput {e : Endpoint} (h : e.Sourced) : e.NoEmptyOutput := by
  cases h with
  | created name url => exact List.forall_mem_nil _
  | read h => exact Wire.Kind.noEmptyOutput_of_decode (k := .endpoint) h
  | opened h he => exact Wire.Kind.noEmptyOutput_of_decode (k := .workspace) h e he
  | savedInMemory w ids e => exact w.echo_noEmptyOutput ids e
  | savedInFile h =>
    obtain ⟨w, rfl⟩ := FileState.exists_save_of_result h
    exact w.echo_noEmptyOutput _ _

/-! ## Sessions -/

namespace Session

theorem edit_noEmptyOutput {s : Session} (h : s.endpoint.NoEmptyOutput) (i : Nat) (e : Edit) :
    (s.edit i e).2.endpoint.NoEmptyOutput := by
  cases hi : s.steps[i]? with
  | none => rwa [edit_of_getElem?_none hi]
  | some before =>
    have hbefore : before.NoEmptyOutput := h before (List.mem_of_getElem? hi)
    have hafter := Step.apply_noEmptyOutput hbefore s.catalog (s.scopeAt i) e
    refine Endpoint.noEmptyOutput_iff.mpr ?_
    show ∀ p, outputNameAt (s.edit i e).2.steps p ≠ some ""
    rw [steps_edit hi]
    exact outputNameAt_replaceStep_ne (Endpoint.noEmptyOutput_iff.mp h) hafter i before

theorem rename_noEmptyOutput {s : Session} (h : s.endpoint.NoEmptyOutput) (index : Nat)
    (old new : String) : (s.rename index old new).2.endpoint.NoEmptyOutput := by
  refine Endpoint.noEmptyOutput_iff.mpr fun p => ?_
  show outputNameAt (renameAfter s.steps index old new).1 p ≠ some ""
  rw [outputNameAt_renameAfter]
  exact Endpoint.noEmptyOutput_iff.mp h p

theorem insert_noEmptyOutput {s : Session} (h : s.endpoint.NoEmptyOutput) (index : Nat)
    (kind : StepKind) (id : String) : (s.insert index kind id).2.endpoint.NoEmptyOutput := by
  have hnew : (kind.create id).NoEmptyOutput := by
    cases kind <;> simp [StepKind.create, Step.NoEmptyOutput, Step.outputName, Call.blank]
  intro step hstep
  rcases List.eq_or_mem_of_mem_insertIdx hstep with rfl | hold
  · exact hnew
  · exact h step hold

theorem remove_noEmptyOutput {s : Session} (h : s.endpoint.NoEmptyOutput) (index : Nat) :
    (s.remove index).2.endpoint.NoEmptyOutput := by
  rw [remove]
  split
  · exact h
  · intro step hstep
    exact h step (List.mem_of_mem_eraseIdx hstep)

theorem move_noEmptyOutput {s : Session} (h : s.endpoint.NoEmptyOutput) (source target : Nat) :
    (s.move source target).2.endpoint.NoEmptyOutput := by
  rw [move]
  split
  · exact h
  · rename_i moved hmoved
    split
    · exact h
    · split
      · exact h
      · intro step hstep
        rcases List.eq_or_mem_of_mem_insertIdx hstep with rfl | hold
        · exact h step (List.mem_of_getElem? hmoved)
        · exact h step (List.mem_of_mem_eraseIdx hold)

/-- No action binds a result to an empty name, unless an endpoint that does so is taken over. -/
theorem perform_noEmptyOutput {s : Session} (h : s.endpoint.NoEmptyOutput) {a : Action}
    (ha : ∀ saved, a.saved? = some saved → saved.NoEmptyOutput) :
    (s.perform a).endpoint.NoEmptyOutput := by
  cases a with
  | edit index e => exact edit_noEmptyOutput h index e
  | rename index old new => exact rename_noEmptyOutput h index old new
  | insert index kind id => exact insert_noEmptyOutput h index kind id
  | remove index => exact remove_noEmptyOutput h index
  | move source target => exact move_noEmptyOutput h source target
  | markSaved saved => exact ha saved rfl

theorem run_noEmptyOutput {s : Session} (h : s.endpoint.NoEmptyOutput) {actions : List Action}
    (hactions : ∀ a ∈ actions, ∀ saved, a.saved? = some saved → saved.NoEmptyOutput) :
    (s.run actions).endpoint.NoEmptyOutput := by
  induction actions generalizing s with
  | nil => exact h
  | cons a actions ih =>
    rw [run_cons]
    refine ih (perform_noEmptyOutput h (hactions a List.mem_cons_self)) ?_
    exact fun b hb => hactions b (List.mem_cons_of_mem a hb)

theorem not_mem_names_of_noEmptyOutput {s : Session} (h : s.endpoint.NoEmptyOutput) (k : Nat) :
    "" ∉ (s.scopeAt k).names := by
  intro hmem
  obtain ⟨p, -, hp⟩ := Catalog.mem_names_scopeAt_iff.mp hmem
  obtain ⟨⟨name, type⟩, hbinding, rfl⟩ := Option.map_eq_some_iff.mp hp
  obtain ⟨step, hstep, hbinding⟩ := Option.bind_eq_some_iff.mp hbinding
  exact h step (List.mem_of_getElem? hstep) (Step.outputName_of_binding? hbinding)

theorem keepsPlaceholders_edit {s : Session} (h : s.endpoint.NoEmptyOutput) (i : Nat) (e : Edit) :
    KeepsPlaceholders i s.steps (s.edit i e).2.steps := by
  cases hi : s.steps[i]? with
  | none =>
    rw [edit_of_getElem?_none hi]
    exact keepsPlaceholders_of_eq fun _ _ => rfl
  | some before =>
    rw [steps_edit hi]
    exact keepsPlaceholders_replaceStep (h before (List.mem_of_getElem? hi)) s.steps i _

/-- At every point of a run, whatever the catalog declares, no result is bound to an empty name. So
    no scope has an empty name, the endpoint is read back from its text, and no edit touches a later
    reference that is still open. -/
theorem binds_no_empty_name (catalog : Catalog) {opened : Endpoint} (hopened : opened.Sourced)
    {actions : List Action}
    (hsaved : ∀ a ∈ actions, ∀ saved, a.saved? = some saved → saved.Sourced) :
    let s := (start catalog opened).run actions
    s.endpoint.NoEmptyOutput ∧
      (∀ scope ∈ s.scopes, "" ∉ scope.names) ∧
      Wire.endpointFormat.decode (Wire.endpointFormat.pretty s.endpoint) = .ok s.endpoint ∧
      ∀ i e, KeepsPlaceholders i s.steps (s.edit i e).2.steps := by
  intro s
  have hs : s.endpoint.NoEmptyOutput :=
    run_noEmptyOutput (s := start catalog opened) hopened.noEmptyOutput
      fun a ha saved hsome => (hsaved a ha saved hsome).noEmptyOutput
  refine ⟨hs, ?_, Wire.Kind.decode_encode (k := .endpoint) hs, keepsPlaceholders_edit hs⟩
  intro scope hscope
  rw [scopes, Catalog.scopes_eq_map] at hscope
  obtain ⟨k, -, rfl⟩ := List.mem_map.mp hscope
  exact not_mem_names_of_noEmptyOutput hs k

/-- What a store gave back is edited against a catalog that declares an output without a name. The
    name given to the result is cleared again, which opens the reference to it; the next name does
    not fill it in. -/
theorem binds_no_empty_name_cleared :
    let catalog : Catalog :=
      ⟨[⟨"db", "", "", "", [⟨"find", "", [], [⟨"", "", some (.object "user")⟩]⟩]⟩]⟩
    let ids : IdSupply := { id := fun n => String.ofList (List.replicate (n + 1) 'x') }
    let echo := (Workspace.empty.save ids
      ⟨"", "list", "", "/", [.call ⟨"", "db", "", some "", []⟩]⟩).1
    let actions : List Action := [.markSaved echo, .edit 0 (.selectMethod "find"),
      .edit 0 (.setOutputName "a"), .insert 1 .call "y",
      .edit 1 (.setArgument "id" (.parameter "a")), .edit 0 (.setOutputName "")]
    let s := (start catalog (.create "list" "/")).run actions
    let call (name : Option String) : Step := .call ⟨"xx", "db", "find", name, []⟩
    let use : Step := .call ⟨"y", "", "", none, [⟨"id", .parameter ""⟩]⟩
    echo.Sourced ∧ s.steps = [call none, use] ∧
      (s.edit 0 (.setOutputName "b")).2.steps = [call (some "b"), use] ∧
      s.endpoint.NoEmptyOutput ∧ (∀ scope ∈ s.scopes, "" ∉ scope.names) ∧
      Wire.endpointFormat.decode (Wire.endpointFormat.pretty s.endpoint) = .ok s.endpoint ∧
      KeepsPlaceholders 0 s.steps (s.edit 0 (.setOutputName "b")).2.steps := by
  intro catalog ids echo actions s call use
  have hecho : echo.Sourced := .savedInMemory _ _ _
  have hsaved : ∀ a ∈ actions, ∀ saved, a.saved? = some saved → saved.Sourced := by
    intro a ha saved hsome
    simp only [actions, List.mem_cons, List.not_mem_nil, or_false] at ha
    rcases ha with rfl | rfl | rfl | rfl | rfl | rfl <;> cases hsome
    exact hecho
  obtain ⟨houtput, hscopes, htext, hedit⟩ :=
    binds_no_empty_name catalog (.created "list" "/") hsaved
  exact ⟨hecho, by decide, by decide, houtput, hscopes, htext, hedit 0 (.setOutputName "b")⟩

end Session

end CallFlow
