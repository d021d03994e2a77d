import Mathlib.Data.List.Forall2
import CallFlow.Proofs.Rename.Hints
import CallFlow.Proofs.Scope.Fold
import CallFlow.Proofs.Session.Edit

/-!
# Edits act forward

An edit changes the step at its position. What it does elsewhere is at most a rename, which touches
no step in front of the position and no return, and in the calls after it only the names that
arguments refer to. What a step binds does not depend on its arguments, so a rename leaves all scopes
as they are. The scopes up to the position of an edit, and the hints in front of it, stay for any
edit, and an edit that only sets a value changes no scope and no hint elsewhere.

## Main definitions

- `CallFlow.Call.SameButReferences` — what a rename leaves of a call
- `CallFlow.Edit.SetsValue` — edits that only set a value
- `CallFlow.Session.ActsForward` — what stays around the position of an edit

## Main statements

- `CallFlow.renamedAt_renameAfter`, `CallFlow.Session.renamedAt_edit` — what renames and edits do to
  the steps at other positions
- `CallFlow.Session.edits_act_forward` — what edits and renames leave alone
-/

namespace CallFlow

/-! ## What a rename leaves of a call -/

/-- Two operands of one kind, the same one unless they are references. -/
def Operand.SameButReference : Operand → Operand → Prop
  | .parameter _, .parameter _ => True
  | .literal text, .literal text' => text' = text
  | .unset, .unset => True
  | _, _ => False

theorem Operand.sameButReference_rename (old new : String) (o : Operand) :
    o.SameButReference (o.rename old new) := by
  cases o with
  | parameter name => exact trivial
  | literal text => exact rfl
  | unset => exact trivial

/-- Two calls that are the same but for the names that their arguments refer to. -/
structure Call.SameButReferences (c c' : Call) : Prop where
  id : c'.id = c.id
  configId : c'.configId = c.configId
  methodName : c'.methodName = c.methodName
  outputName : c'.outputName = c.outputName
  arguments : List.Forall₂ (fun a a' => a'.name = a.name ∧ a.value.SameButReference a'.value)
    c.arguments c'.arguments

theorem Call.sameButReferences_renameReferences (old new : String) (c : Call) :
    c.SameButReferences (c.renameReferences old new) where
  id := rfl
  configId := rfl
  methodName := rfl
  outputName := rfl
  arguments := by
    refine List.forall₂_map_right_iff.mpr (List.forall₂_same.mpr ?_)
    intro a _
    exact ⟨rfl, a.value.sameButReference_rename old new⟩

/-! ## Renames at one position -/

/-- Whether the steps at a position are the same but for a rename of references. -/
def RenamedAt (before after : List Step) (position : Nat) : Prop :=
  ∃ old new, after[position]? = before[position]?.map (Step.renameReferences old new)

section RenamedAt

variable {before after : List Step} {p : Nat}

/-- A step that stays is one in which a name was changed to itself. -/
theorem renamedAt_of_eq (h : after[p]? = before[p]?) : RenamedAt before after p := by
  have hself : Step.renameReferences "" "" = id := funext (Step.renameReferences_self "")
  refine ⟨"", "", ?_⟩
  rw [hself, Option.map_id_apply, h]

theorem renamedAt_renameAfter (steps : List Step) (index : Nat) (old new : String) (p : Nat) :
    RenamedAt steps (renameAfter steps index old new).1 p := by
  by_cases h : Reached steps index old p
  · exact ⟨old, new, getElem?_renameAfter_of_reached h new⟩
  · exact renamedAt_of_eq (getElem?_renameAfter_of_not_reached h new)

theorem renamedAt_replaceStep {i : Nat} (hp : p ≠ i) (steps : List Step) (step step' : Step) :
    RenamedAt steps (replaceStep steps i step step') p := by
  by_cases h : ∃ old, step.outputName = some old ∧ Reached steps i old p
  · obtain ⟨old, hold, hreached⟩ := h
    exact ⟨old, _, getElem?_replaceStep_of_reached hold hreached step'⟩
  · refine renamedAt_of_eq (getElem?_replaceStep_of_not_reached hp ?_ step')
    exact fun old hold hreached => h ⟨old, hold, hreached⟩

theorem RenamedAt.bindingAt? (h : RenamedAt before after p) (catalog : Catalog) :
    catalog.bindingAt? after p = catalog.bindingAt? before p := by
  obtain ⟨old, new, h⟩ := h
  rw [Catalog.bindingAt?, h, Catalog.bindingAt?]
  cases before[p]? with
  | none => rfl
  | some step => exact step.binding?_renameReferences catalog old new

theorem RenamedAt.ret {r : Return} (h : RenamedAt before after p)
    (hr : before[p]? = some (.ret r)) : after[p]? = some (.ret r) := by
  obtain ⟨old, new, h⟩ := h
  rw [h, hr]
  rfl

theorem RenamedAt.call {c : Call} (h : RenamedAt before after p)
    (hc : before[p]? = some (.call c)) :
    ∃ c', after[p]? = some (.call c') ∧ c.SameButReferences c' := by
  obtain ⟨old, new, h⟩ := h
  refine ⟨c.renameReferences old new, ?_, c.sameButReferences_renameReferences old new⟩
  rw [h, hc]
  rfl

end RenamedAt

/-- A rename leaves the scopes as they are: what a step binds does not depend on its arguments. -/
theorem Catalog.scopes_renameAfter (catalog : Catalog) (steps : List Step) (index : Nat)
    (old new : String) :
    catalog.scopes (renameAfter steps index old new).1 = catalog.scopes steps := by
  refine scopes_congr (length_renameAfter steps index old new) fun p => ?_
  exact (renamedAt_renameAfter steps index old new p).bindingAt? catalog

/-! ## Edits that set a value -/

/-- Whether an edit only sets the value of an argument or a return. -/
def Edit.SetsValue : Edit → Prop
  | setArgument _ _ => True
  | setReturn _ => True
  | _ => False

section SetsValue

variable {e : Edit}

theorem Step.outputName_apply_of_setsValue (he : e.SetsValue) (catalog : Catalog) (scope : Scope)
    (s : Step) : (s.apply catalog scope e).outputName = s.outputName := by
  cases e with
  | setArgument input value => cases s <;> rfl
  | setReturn value => cases s <;> rfl
  | _ => cases he

theorem Step.binding?_apply_of_setsValue (he : e.SetsValue) (catalog : Catalog) (scope : Scope)
    (s : Step) : (s.apply catalog scope e).binding? catalog = s.binding? catalog := by
  cases e with
  | setArgument input value => cases s <;> rfl
  | setReturn value => cases s <;> rfl
  | _ => cases he

end SetsValue

/-! ## Sessions -/

namespace Session

/-- What an edit at a position leaves of a session: everything in front of the position and what can
    be said there, and after it everything but the names that calls refer to. -/
structure ActsForward (index : Nat) (before after : Session) : Prop where
  length : after.steps.length = before.steps.length
  steps : ∀ p < index, after.steps[p]? = before.steps[p]?
  scopes : ∀ p ≤ index, after.scopes[p]? = before.scopes[p]?
  hints : after.hints.filter (·.index < index) = before.hints.filter (·.index < index)
  returns : ∀ p r, p ≠ index → before.steps[p]? = some (.ret r) → after.steps[p]? = some (.ret r)
  calls : ∀ p c, index < p → before.steps[p]? = some (.call c) →
    ∃ c', after.steps[p]? = some (.call c') ∧ c.SameButReferences c'

variable {s : Session} {i p : Nat} {e : Edit}

theorem length_edit (s : Session) (i : Nat) (e : Edit) :
    (s.edit i e).2.steps.length = s.steps.length := by
  cases hi : s.steps[i]? with
  | none => rw [edit_of_getElem?_none hi]
  | some before => rw [steps_edit hi, length_replaceStep]

theorem renamedAt_edit (hp : p ≠ i) (s : Session) (e : Edit) :
    RenamedAt s.steps (s.edit i e).2.steps p := by
  cases hi : s.steps[i]? with
  | none =>
    rw [edit_of_getElem?_none hi]
    exact renamedAt_of_eq rfl
  | some before =>
    rw [steps_edit hi]
    exact renamedAt_replaceStep hp s.steps before _

theorem getElem?_edit_of_lt (hp : p < i) (s : Session) (e : Edit) :
    (s.edit i e).2.steps[p]? = s.steps[p]? := by
  cases hi : s.steps[i]? with
  | none => rw [edit_of_getElem?_none hi]
  | some before =>
    rw [steps_edit hi]
    refine getElem?_replaceStep_of_not_reached (by omega) ?_ _
    exact fun old _ hreached => absurd hreached.1 (by omega)

/-- The scope that an edit sees, and those before it, are the same after the edit. -/
theorem scopeAt_edit_of_le (hp : p ≤ i) (s : Session) (e : Edit) :
    (s.edit i e).2.scopeAt p = s.scopeAt p := by
  rw [scopeAt, scopeAt, catalog_edit]
  refine Catalog.scopeAt_congr fun k hk => ?_
  exact (renamedAt_edit (by omega) s e).bindingAt? s.catalog

theorem getElem?_scopes (hp : p ≤ s.steps.length) : s.scopes[p]? = some (s.scopeAt p) :=
  Catalog.getElem?_scopes hp

theorem scopes_edit_of_le (hp : p ≤ i) (s : Session) (e : Edit) :
    (s.edit i e).2.scopes[p]? = s.scopes[p]? := by
  by_cases hlength : p ≤ s.steps.length
  · rw [getElem?_scopes (by rwa [length_edit]), getElem?_scopes hlength, scopeAt_edit_of_le hp]
  · -- An edit past the end does nothing.
    have hi : s.steps[i]? = none := List.getElem?_eq_none (by omega)
    rw [edit_of_getElem?_none hi]

/-- The hints about some of the positions are the same after an edit if the steps there and the
    scopes in front of them are. -/
theorem filter_hints_edit (test : Nat → Prop) [DecidablePred test]
    (hstep : ∀ p, test p → (s.edit i e).2.steps[p]? = s.steps[p]?)
    (hscope : ∀ p, test p → (s.edit i e).2.scopeAt p = s.scopeAt p) :
    (s.edit i e).2.hints.filter (fun hint => test hint.index) =
      s.hints.filter (fun hint => test hint.index) := by
  rw [hints, hints, catalog_edit]
  refine Catalog.filter_hints_congr test (s.length_edit i e) fun p hp => ?_
  have hscope' := hscope p hp
  rw [scopeAt, catalog_edit] at hscope'
  rw [Catalog.hintsAt, hstep p hp, hscope', Catalog.hintsAt]
  rfl

theorem actsForward_edit (s : Session) (i : Nat) (e : Edit) : ActsForward i s (s.edit i e).2 where
  length := s.length_edit i e
  steps _ hp := getElem?_edit_of_lt hp s e
  scopes _ hp := scopes_edit_of_le hp s e
  hints := by
    refine filter_hints_edit (· < i) (fun p hp => ?_) fun p hp => ?_
    · exact getElem?_edit_of_lt hp s e
    · exact scopeAt_edit_of_le (Nat.le_of_lt hp) s e
  returns _ _ hp := (renamedAt_edit hp s e).ret
  calls _ _ hp := (renamedAt_edit (Nat.ne_of_gt hp) s e).call

theorem getElem?_edit_of_setsValue (he : e.SetsValue) (hp : p ≠ i) (s : Session) :
    (s.edit i e).2.steps[p]? = s.steps[p]? := by
  cases hi : s.steps[i]? with
  | none => rw [edit_of_getElem?_none hi]
  | some before =>
    have hname := Step.outputName_apply_of_setsValue he s.catalog (s.scopeAt i) before
    rw [steps_edit hi, replaceStep_of_outputName_eq hname, List.getElem?_set_ne hp.symm]

theorem bindingAt?_edit_of_setsValue (he : e.SetsValue) (s : Session) (i p : Nat) :
    s.catalog.bindingAt? (s.edit i e).2.steps p = s.catalog.bindingAt? s.steps p := by
  by_cases hp : p = i
  · subst hp
    rw [Catalog.bindingAt?, getElem?_edit_self, Catalog.bindingAt?]
    cases s.steps[p]? with
    | none => rfl
    | some before => exact Step.binding?_apply_of_setsValue he s.catalog (s.scopeAt p) before
  · rw [Catalog.bindingAt?, getElem?_edit_of_setsValue he hp, Catalog.bindingAt?]

theorem scopes_edit_of_setsValue (he : e.SetsValue) (s : Session) (i : Nat) :
    (s.edit i e).2.scopes = s.scopes := by
  rw [scopes, scopes, catalog_edit]
  exact Catalog.scopes_congr (s.length_edit i e) (bindingAt?_edit_of_setsValue he s i)

theorem hints_edit_of_setsValue (he : e.SetsValue) (s : Session) (i : Nat) :
    (s.edit i e).2.hints.filter (·.index ≠ i) = s.hints.filter (·.index ≠ i) := by
  refine filter_hints_edit (· ≠ i) (fun p hp => ?_) fun p _ => ?_
  · exact getElem?_edit_of_setsValue he hp s
  · rw [scopeAt, scopeAt, catalog_edit]
    exact Catalog.scopeAt_congr fun k _ => bindingAt?_edit_of_setsValue he s i k

/-- An edit leaves the steps in front of its position, the scopes up to it and the hints in front of
    it, and after it everything but the names that calls refer to. An edit that only sets a value
    leaves all scopes and all hints about other positions, and a rename leaves all scopes. -/
theorem edits_act_forward (s : Session) (i : Nat) (e : Edit) :
    ActsForward i s (s.edit i e).2 ∧
      (e.SetsValue → (s.edit i e).2.scopes = s.scopes ∧
        (s.edit i e).2.hints.filter (·.index ≠ i) = s.hints.filter (·.index ≠ i)) ∧
      ∀ (steps : List Step) (index : Nat) (old new : String),
        s.catalog.scopes (renameAfter steps index old new).1 = s.catalog.scopes steps := by
  refine ⟨s.actsForward_edit i e, ?_, s.catalog.scopes_renameAfter⟩
  intro he
  exact ⟨scopes_edit_of_setsValue he s i, hints_edit_of_setsValue he s i⟩

/-- The open argument of a call gets a value, which settles its hint and not the one about the last
    return. Naming the result of the first call then changes the reference of the call after it, and
    not what is returned. -/
theorem edits_act_forward_mixed :
    let row : ValueType := .object "Row"
    let catalog : Catalog := ⟨[⟨"db", "", "", "", [
      ⟨"find", "", [], [⟨"", "", some row⟩]⟩,
      ⟨"count", "", [⟨"of", "", some row⟩], [⟨"", "", some .text⟩]⟩]⟩]⟩
    let find (result : String) : Step := .call ⟨"f", "db", "find", some result, []⟩
    let count (reference : String) : Step :=
      .call ⟨"c", "db", "count", some "n", [⟨"of", .parameter reference⟩, ⟨"to", .literal "row"⟩]⟩
    let give (reference : String) : Step := .ret ⟨"r", "", .parameter reference⟩
    let s : Session :=
      .start catalog ⟨"", "", "", "", [find "row", count "", give "row", give "all"]⟩
    let filled := (s.edit 1 (.setArgument "of" (.parameter "row"))).2
    let named := (filled.edit 0 (.setOutputName "user")).2
    s.hints =
        [⟨1, .emptyParameter "of"⟩, ⟨1, .unknownArgument "to"⟩, ⟨3, .unresolvedParameter "" "all"⟩] ∧
      filled.hints = [⟨1, .unknownArgument "to"⟩, ⟨3, .unresolvedParameter "" "all"⟩] ∧
      ActsForward 1 s filled ∧ filled.scopes = s.scopes ∧
      filled.hints.filter (·.index ≠ 1) = s.hints.filter (·.index ≠ 1) ∧
      filled.steps = [find "row", count "row", give "row", give "all"] ∧
      named.steps = [find "user", count "user", give "row", give "all"] ∧
      ActsForward 0 filled named ∧
      catalog.scopes (renameAfter s.steps 0 "row" "user").1 = s.scopes := by
  intro row catalog find count give s filled named
  obtain ⟨hforward, hvalue, hrename⟩ :=
    edits_act_forward s 1 (.setArgument "of" (.parameter "row"))
  obtain ⟨hscopes, hhints⟩ := hvalue trivial
  exact ⟨by decide, by decide, hforward, hscopes, hhints, by decide, by decide,
    (edits_act_forward filled 0 (.setOutputName "user")).1, hrename s.steps 0 "row" "user"⟩

end Session

end CallFlow
