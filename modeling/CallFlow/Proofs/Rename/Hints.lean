import CallFlow.Proofs.Hint
import CallFlow.Proofs.Rename.Reach

/-!
# Hints after a rename

When the result of a call gets a fresh name, the scopes after the call change, and so do the
references that a rename reaches. Up to the next step that binds the old name, what was found under
the old name is found under the new one. From there on the scopes agree except on the new name,
which nothing refers to. Either way every call has the problems it had.

The next step that binds the old name has to bring it into scope. Otherwise the references after it,
which a rename leaves alone, lose the binding they relied on.

## Main statements

- `CallFlow.Catalog.moved_nameResult`, `CallFlow.Catalog.agreeOff_nameResult` — the scopes after a
  fresh name was given
- `CallFlow.Session.callHints_edit_setOutputName` — a fresh name keeps the hints about calls
-/

namespace CallFlow

/-! ## Scopes -/

/-- What `before` has under `old`, `after` has under `new`, and they agree on the other names. -/
structure Moved (old new : String) (before after : Scope) : Prop where
  found : ∃ type, before.get? old = some type ∧ after.get? new = some type
  same : ∀ name, name ≠ old → name ≠ new → after.get? name = before.get? name

/-- Two scopes agree on all names but one. -/
def AgreeOff (new : String) (before after : Scope) : Prop :=
  ∀ name, name ≠ new → after.get? name = before.get? name

section Scopes

variable {old new name : String} {before after : Scope}

theorem moved_bind (old new : String) (scope : Scope) (type : ValueType) :
    Moved old new (scope.bind old type) (scope.bind new type) := by
  refine ⟨⟨type, scope.get?_bind_self old type, scope.get?_bind_self new type⟩, ?_⟩
  intro name hold hnew
  rw [Scope.get?_bind_of_ne hnew, Scope.get?_bind_of_ne hold]

/-- Binding a third name keeps a binding moved. -/
theorem Moved.bind (h : Moved old new before after) (hold : name ≠ old) (hnew : name ≠ new)
    (type : ValueType) : Moved old new (before.bind name type) (after.bind name type) := by
  obtain ⟨⟨found, hbefore, hafter⟩, hsame⟩ := h
  refine ⟨⟨found, ?_, ?_⟩, ?_⟩
  · rwa [Scope.get?_bind_of_ne hold.symm]
  · rwa [Scope.get?_bind_of_ne hnew.symm]
  · intro x hxold hxnew
    rw [Scope.get?_bind, Scope.get?_bind, hsame x hxold hxnew]

/-- Binding the old name again leaves only the new name to disagree on. -/
theorem Moved.agreeOff (h : Moved old new before after) (type : ValueType) :
    AgreeOff new (before.bind old type) (after.bind old type) := by
  intro x hx
  rw [Scope.get?_bind, Scope.get?_bind]
  split
  · rfl
  · rename_i hold
    exact h.same x hold hx

theorem AgreeOff.bind (h : AgreeOff new before after) (name : String) (type : ValueType) :
    AgreeOff new (before.bind name type) (after.bind name type) := by
  intro x hx
  rw [Scope.get?_bind, Scope.get?_bind, h x hx]

/-! ## Problems of operands -/

/-- A renamed operand has the same problems where the binding has moved along. -/
theorem Operand.problems_rename (h : Moved old new before after) (hold : old ≠ "") (hnew : new ≠ "")
    {o : Operand} (ho : o ≠ .parameter new) (argument : String) (expected : Option ValueType) :
    (o.rename old new).problems after argument expected =
      o.problems before argument expected := by
  cases o with
  | literal text => rfl
  | unset => rfl
  | parameter name =>
    have hname : name ≠ new := fun h => ho (h ▸ rfl)
    rw [Operand.rename]
    by_cases hrename : name = old
    · obtain ⟨type, hbefore, hafter⟩ := h.found
      rw [if_pos hrename, hrename]
      simp only [Operand.problems, if_neg hold, if_neg hnew, hbefore, hafter]
    · rw [if_neg hrename, Operand.problems, Operand.problems, h.same name hrename hname]

/-- An operand has the same problems in scopes that agree on the name it refers to. -/
theorem Operand.problems_congr (h : AgreeOff new before after) {o : Operand}
    (ho : o ≠ .parameter new) (argument : String) (expected : Option ValueType) :
    o.problems after argument expected = o.problems before argument expected := by
  cases o with
  | literal text => rfl
  | unset => rfl
  | parameter name =>
    have hname : name ≠ new := fun h => ho (h ▸ rfl)
    rw [Operand.problems, Operand.problems, h name hname]

/-! ## Problems of steps -/

variable {catalog : Catalog} {s : Step}

theorem Step.callProblems_renameReferences (h : Moved old new before after) (hold : old ≠ "")
    (hnew : new ≠ "") (hs : ¬s.RefersTo new) :
    (s.renameReferences old new).callProblems catalog after = s.callProblems catalog before := by
  cases s with
  | ret r => rfl
  | call c =>
    refine Call.problems_mapOperands fun a ha expected => ?_
    exact Operand.problems_rename h hold hnew (fun hvalue => hs ⟨a, ha, hvalue⟩) a.name expected

theorem Step.callProblems_congr (h : AgreeOff new before after) (hs : ¬s.RefersTo new) :
    s.callProblems catalog after = s.callProblems catalog before := by
  cases s with
  | ret r => rfl
  | call c =>
    have hproblems : (c.mapOperands fun o => o).problems catalog after =
        c.problems catalog before := by
      refine Call.problems_mapOperands fun a ha expected => ?_
      exact Operand.problems_congr h (fun hvalue => hs ⟨a, ha, hvalue⟩) a.name expected
    rwa [c.mapOperands_self] at hproblems

end Scopes

/-! ## Scopes along the steps -/

theorem Step.binding?_renameReferences (catalog : Catalog) (old new : String) (s : Step) :
    (s.renameReferences old new).binding? catalog = s.binding? catalog := by
  cases s <;> rfl

/-- A call that brings its result into scope does so under whatever name it has. -/
theorem Step.binding?_of_binding? {catalog : Catalog} {c : Call} {old : String} {type : ValueType}
    (h : (Step.call c).binding? catalog = some (old, type)) (new : String) :
    (Step.call { c with outputName := some new }).binding? catalog = some (new, type) := by
  rw [binding?] at h
  split at h
  · rename_i config m _ hresolve
    obtain ⟨found, hfound, heq⟩ := Option.map_eq_some_iff.mp h
    cases heq
    have hresolve' : catalog.resolve { c with outputName := some new } = .method config m :=
      hresolve
    simp only [binding?, hresolve', hfound, Option.map_some]
  · cases h

/-- The first step after a position that binds a name. -/
def nextBinder? (steps : List Step) (index : Nat) (name : String) : Option Step :=
  (steps.drop (index + 1)).find? (·.outputName = some name)

theorem nextBinder?_of_reached {steps : List Step} {i p : Nat} {old : String} {s : Step}
    (h : Reached steps i old p) (hs : steps[p]? = some s) (hold : s.outputName = some old) :
    nextBinder? steps i old = some s := by
  have hdrop : (steps.drop (i + 1))[p - (i + 1)]? = some s := by
    rwa [List.getElem?_drop, Nat.add_sub_cancel' h.1]
  obtain ⟨hlength, hget⟩ := List.getElem?_eq_some_iff.mp hdrop
  rw [nextBinder?, List.find?_eq_some_iff_getElem]
  refine ⟨by simp [hold], p - (i + 1), hlength, hget, ?_⟩
  intro j hj
  have hfree := h.2 (i + 1 + j) (by omega) (by omega)
  rw [← outputNameAt_drop, outputNameAt, List.getElem?_eq_getElem (by omega)] at hfree
  simpa using hfree

namespace Catalog

section NameResult

variable {catalog : Catalog} {steps : List Step} {i p : Nat} {c : Call} {old new : String}
  {type : ValueType}

theorem bindingAt?_nameResult_of_ne (h : p ≠ i) :
    catalog.bindingAt? (nameResult steps i c old new) p = catalog.bindingAt? steps p := by
  by_cases hreached : Reached steps i old p
  · rw [bindingAt?, getElem?_nameResult_of_reached hreached, bindingAt?]
    cases steps[p]? with
    | none => rfl
    | some s => exact s.binding?_renameReferences catalog old new
  · rw [bindingAt?, getElem?_nameResult_of_not_reached h hreached, bindingAt?]

theorem bindingAt?_nameResult_self (hi : i < steps.length)
    (hbinding : (Step.call c).binding? catalog = some (old, type)) :
    catalog.bindingAt? (nameResult steps i c old new) i = some (new, type) := by
  rw [bindingAt?, getElem?_nameResult_self hi]
  exact Step.binding?_of_binding? hbinding new

theorem scopeAt_nameResult_of_le (h : p ≤ i) :
    catalog.scopeAt (nameResult steps i c old new) p = catalog.scopeAt steps p := by
  refine scopeAt_congr fun k hk => ?_
  exact bindingAt?_nameResult_of_ne (by omega)

theorem outputNameAt_of_bindingAt? {name : String}
    (h : catalog.bindingAt? steps p = some (name, type)) : outputNameAt steps p = some name := by
  obtain ⟨s, hs, hbinding⟩ := Option.bind_eq_some_iff.mp h
  rw [outputNameAt, hs]
  exact Step.outputName_of_binding? hbinding

/-- Where a rename reaches, the binding of the old name has moved to the new one. -/
theorem moved_nameResult (hi : steps[i]? = some (.call c))
    (hbinding : (Step.call c).binding? catalog = some (old, type)) (hfresh : FreshAfter steps i new)
    (h : Reached steps i old p) :
    Moved old new (catalog.scopeAt steps p)
      (catalog.scopeAt (nameResult steps i c old new) p) := by
  induction p with
  | zero => exact absurd h.1 (by omega)
  | succ p ih =>
    rw [scopeAt_succ, scopeAt_succ]
    by_cases hp : p = i
    · subst hp
      have hlength : p < steps.length := (List.getElem?_eq_some_iff.mp hi).1
      have hbefore : catalog.bindingAt? steps p = some (old, type) := by
        rw [bindingAt?, hi]
        exact hbinding
      rw [scopeAt_nameResult_of_le (Nat.le_refl p), bindingAt?_nameResult_self hlength hbinding,
        hbefore]
      exact moved_bind old new (catalog.scopeAt steps p) type
    · have hlt : i < p := by have := h.1; omega
      obtain ⟨hreached, hold⟩ := (reached_succ_iff hlt).mp h
      have hmoved := ih hreached
      rw [bindingAt?_nameResult_of_ne hp]
      cases hstep : catalog.bindingAt? steps p with
      | none => exact hmoved
      | some binding =>
        obtain ⟨name, type⟩ := binding
        have hname := outputNameAt_of_bindingAt? hstep
        refine hmoved.bind ?_ ?_ type
        -- The step binds neither name: it would stop the rename, or the name would not be fresh.
        · rintro rfl
          exact hold hname
        · rintro rfl
          exact hfresh.outputNameAt_ne hlt hname

/-- Where a rename does not reach, only the new name is found differently. -/
theorem agreeOff_nameResult (hi : steps[i]? = some (.call c))
    (hbinding : (Step.call c).binding? catalog = some (old, type)) (hfresh : FreshAfter steps i new)
    (hnext : ∀ s ∈ nextBinder? steps i old, (s.binding? catalog).isSome) (hp : i < p)
    (h : ¬Reached steps i old p) :
    AgreeOff new (catalog.scopeAt steps p)
      (catalog.scopeAt (nameResult steps i c old new) p) := by
  induction p with
  | zero => omega
  | succ p ih =>
    rw [scopeAt_succ, scopeAt_succ]
    have hne : p ≠ i := by
      rintro rfl
      exact h ⟨hp, fun k hk hkp => by omega⟩
    have hlt : i < p := by omega
    rw [bindingAt?_nameResult_of_ne hne]
    by_cases hreached : Reached steps i old p
    · -- The step in front is the next binder of the old name, which puts an end to the move.
      have hmoved := moved_nameResult hi hbinding hfresh hreached
      have hold : outputNameAt steps p = some old :=
        Decidable.byContradiction fun hold => h ((reached_succ_iff hlt).mpr ⟨hreached, hold⟩)
      obtain ⟨s, hs, hname⟩ := Option.bind_eq_some_iff.mp hold
      obtain ⟨⟨name, found⟩, hsome⟩ :=
        Option.isSome_iff_exists.mp (hnext s (nextBinder?_of_reached hreached hs hname))
      have hnameEq : name = old := by
        have := (Step.outputName_of_binding? hsome).symm.trans hname
        cases this
        rfl
      have hbindingAt : catalog.bindingAt? steps p = some (old, found) := by
        rw [bindingAt?, hs, ← hnameEq]
        exact hsome
      rw [hbindingAt]
      exact hmoved.agreeOff found
    · have hagree := ih hlt hreached
      cases catalog.bindingAt? steps p with
      | none => exact hagree
      | some binding => exact hagree.bind binding.1 binding.2

/-- The hints about a call are the same after a fresh name was given. -/
theorem callHintsAt_nameResult (hi : steps[i]? = some (.call c))
    (hbinding : (Step.call c).binding? catalog = some (old, type)) (hold : old ≠ "")
    (hnew : new ≠ "") (hfresh : FreshAfter steps i new)
    (hnext : ∀ s ∈ nextBinder? steps i old, (s.binding? catalog).isSome) (p : Nat) :
    catalog.callHintsAt (nameResult steps i c old new) p = catalog.callHintsAt steps p := by
  rcases Nat.lt_trichotomy p i with hp | rfl | hp
  · have hreached : ¬Reached steps i old p := fun h => absurd h.1 (by omega)
    rw [callHintsAt, getElem?_nameResult_of_not_reached (by omega) hreached,
      scopeAt_nameResult_of_le (by omega), callHintsAt]
  · have hlength : p < steps.length := (List.getElem?_eq_some_iff.mp hi).1
    rw [callHintsAt, getElem?_nameResult_self hlength, scopeAt_nameResult_of_le (Nat.le_refl p),
      callHintsAt, hi]
    -- The problems of a call do not depend on the name of its result.
    rfl
  · by_cases hreached : Reached steps i old p
    · refine callHintsAt_congr (getElem?_nameResult_of_reached hreached c new) fun s hs => ?_
      exact Step.callProblems_renameReferences (moved_nameResult hi hbinding hfresh hreached) hold
        hnew (hfresh.avoids hp hs).2
    · have hafter : (nameResult steps i c old new)[p]? = steps[p]?.map fun s => s := by
        rw [getElem?_nameResult_of_not_reached (by omega) hreached, Option.map_id']
      refine callHintsAt_congr hafter fun s hs => ?_
      exact Step.callProblems_congr (agreeOff_nameResult hi hbinding hfresh hnext hp hreached)
        (hfresh.avoids hp hs).2

end NameResult

end Catalog

namespace Session

/-- Giving the result of a call a name that does not occur later keeps the hints about calls, if the
    next step that binds the old name brings it into scope. -/
theorem callHints_edit_setOutputName (s : Session) {i : Nat} {c : Call} {old new : String}
    {type : ValueType} (hi : s.steps[i]? = some (.call c))
    (hbinding : (Step.call c).binding? s.catalog = some (old, type)) (hold : old ≠ "")
    (hnew : new ≠ "") (hne : new ≠ old) (hfresh : FreshAfter s.steps i new)
    (hnext : ∀ next ∈ nextBinder? s.steps i old, (next.binding? s.catalog).isSome) :
    (s.edit i (.setOutputName new)).2.callHints = s.callHints := by
  have hname : c.outputName = some old := Step.outputName_of_binding? hbinding
  rw [callHints_eq_flatMap, callHints_eq_flatMap, catalog_edit,
    steps_edit_setOutputName hi hname hnew hne, length_nameResult]
  have hat : s.catalog.callHintsAt (nameResult s.steps i c old new) =
      s.catalog.callHintsAt s.steps := by
    funext p
    exact Catalog.callHintsAt_nameResult hi hbinding hold hnew hfresh hnext p
  rw [hat]

/-- The second `find` is renamed to what the first one is called. The call after it binds the old
    name again, with another type, and the hints about the last two calls stay. -/
theorem callHints_edit_setOutputName_rebound :
    let row : ValueType := .object "Row"
    let catalog : Catalog := ⟨[⟨"db", "", "", "", [
      ⟨"find", "", [], [⟨"", "", some row⟩]⟩,
      ⟨"count", "", [⟨"of", "", some row⟩], [⟨"", "", some .text⟩]⟩]⟩]⟩
    let find (result : String) : Step := .call ⟨"", "db", "find", some result, []⟩
    let count (result reference : String) : Step :=
      .call ⟨"", "db", "count", some result, [⟨"of", .parameter reference⟩]⟩
    let s : Session := .start catalog ⟨"", "", "", "",
      [find "row", find "user", count "user" "user", count "n" "user", count "m" "other"]⟩
    (find "user").binding? catalog = some ("user", row) ∧ FreshAfter s.steps 1 "row" ∧
      (∀ next ∈ nextBinder? s.steps 1 "user", (next.binding? catalog).isSome) ∧
      s.callHints =
        [⟨3, .typeMismatch "of" row .text⟩, ⟨4, .unresolvedParameter "of" "other"⟩] ∧
      (s.edit 1 (.setOutputName "row")).2.callHints = s.callHints := by
  intro row catalog find count s
  have hbinding : (find "user").binding? catalog = some ("user", row) := by decide
  have hfresh : FreshAfter s.steps 1 "row" := by decide
  have hnext : ∀ next ∈ nextBinder? s.steps 1 "user", (next.binding? catalog).isSome := by decide
  have hhints : s.callHints =
      [⟨3, .typeMismatch "of" row .text⟩, ⟨4, .unresolvedParameter "of" "other"⟩] := by decide
  exact ⟨hbinding, hfresh, hnext, hhints, callHints_edit_setOutputName s (i := 1) rfl hbinding
    (by decide) (by decide) (by decide) hfresh hnext⟩

end Session

end CallFlow
