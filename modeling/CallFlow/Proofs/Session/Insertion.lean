import CallFlow.Proofs.Hint
import CallFlow.Proofs.Scope.Fold

/-!
# Steps that bind nothing

A step that binds nothing leaves no trace in the scopes after it, so it can be put in or taken out
without any effect on the other steps: each of them sees the same names as before, and its problems are
the same ones, one position further on or back. New steps are of this kind, and so is every return and
every call that has no name for its result or no method with a typed output.

The walks over the steps that compute scopes and hints are taken apart where the step stands. What the
first part contributes does not depend on the second one, and the second part goes on from the scope
that the first one has reached.

## Main definitions

- `CallFlow.Hint.later`, `CallFlow.Hint.earlier` — a hint about the next position, or the one before
- `CallFlow.Session.OpenedAt`, `CallFlow.Session.ClosedAt` — what a step without binding brings along,
  and what goes with it

## Main statements

- `CallFlow.Catalog.scopesFrom_append`, `CallFlow.Catalog.hintsFrom_append` — two walks for one
- `CallFlow.Catalog.scopes_insert`, `CallFlow.Catalog.hints_insert` — one more step
- `CallFlow.Session.steps_without_binding_disturb_nothing` — insertion and removal in a session
-/

namespace CallFlow

theorem insertIdx_length_append {α : Type} (front back : List α) (a : α) :
    (front ++ back).insertIdx front.length a = front ++ a :: back := by
  induction front with
  | nil => rfl
  | cons b front ih => simp [ih]

/-- The same problem one position further on. -/
def Hint.later (h : Hint) : Hint := { h with index := h.index + 1 }

/-- The same problem one position further back. -/
def Hint.earlier (h : Hint) : Hint := { h with index := h.index - 1 }

theorem Hint.earlier_later (h : Hint) : h.later.earlier = h := rfl

namespace Catalog

variable {catalog : Catalog} {scope : Scope} {front back : List Step} {step : Step}

/-! ## Two walks for one -/

/-- The scope after some steps, from the given one. -/
def scopeAfter (catalog : Catalog) (scope : Scope) (steps : List Step) : Scope :=
  steps.foldl (fun scope step => scope.extend (step.binding? catalog)) scope

/-- The scope before a position is reached by the steps in front of it. -/
theorem scopeAt_eq_scopeAfter (catalog : Catalog) (steps : List Step) (position : Nat) :
    catalog.scopeAt steps position = catalog.scopeAfter .empty (steps.take position) := by
  rw [scopeAt, List.foldl_filterMap, scopeAfter]
  congr 1
  funext scope step
  cases step.binding? catalog <;> rfl

theorem length_scopesFrom (catalog : Catalog) (scope : Scope) (steps : List Step) :
    (catalog.scopesFrom scope steps).length = steps.length + 1 := by
  induction steps generalizing scope with
  | nil => rfl
  | cons step steps ih => rw [scopesFrom, List.length_cons, ih, List.length_cons]

/-- The scope after the last step of the first part is the one before the first step of the second. -/
theorem scopesFrom_append (catalog : Catalog) (scope : Scope) (front back : List Step) :
    catalog.scopesFrom scope (front ++ back) =
      (catalog.scopesFrom scope front).dropLast ++
        catalog.scopesFrom (catalog.scopeAfter scope front) back := by
  induction front generalizing scope with
  | nil => rfl
  | cons step front ih =>
    have hne : catalog.scopesFrom (scope.extend (step.binding? catalog)) front ≠ [] := by
      rw [← List.length_pos_iff, length_scopesFrom]
      exact Nat.succ_pos _
    rw [List.cons_append, scopesFrom, ih, scopesFrom, List.dropLast_cons_of_ne_nil hne]
    rfl

theorem hintsFrom_append (catalog : Catalog) (scope : Scope) (index : Nat)
    (front back : List Step) :
    catalog.hintsFrom scope index (front ++ back) =
      catalog.hintsFrom scope index front ++
        catalog.hintsFrom (catalog.scopeAfter scope front) (index + front.length) back := by
  induction front generalizing scope index with
  | nil => rfl
  | cons step front ih =>
    have hindex : index + (step :: front).length = index + 1 + front.length := by
      rw [List.length_cons]
      omega
    rw [List.cons_append, hintsFrom, ih, hintsFrom, List.append_assoc, hindex]
    rfl

/-- Hints do not depend on where the steps stand, but for their index. -/
theorem hintsFrom_succ (catalog : Catalog) (scope : Scope) (index : Nat) (steps : List Step) :
    catalog.hintsFrom scope (index + 1) steps =
      (catalog.hintsFrom scope index steps).map Hint.later := by
  induction steps generalizing scope index with
  | nil => rfl
  | cons step steps ih =>
    rw [hintsFrom, hintsFrom, ih, List.map_append, List.map_map]
    rfl

theorem index_of_mem_hintsFrom {index : Nat} {steps : List Step} {h : Hint}
    (hmem : h ∈ catalog.hintsFrom scope index steps) :
    index ≤ h.index ∧ h.index < index + steps.length := by
  induction steps generalizing scope index with
  | nil => cases hmem
  | cons step steps ih =>
    rw [List.length_cons]
    rcases List.mem_append.mp hmem with hhere | hthere
    · obtain ⟨problem, -, rfl⟩ := List.mem_map.mp hhere
      exact ⟨Nat.le_refl index, by dsimp only; omega⟩
    · have hbounds := ih hthere
      omega

/-- The hints about the first part are those of the first part alone. -/
theorem filter_lt_hints_append (catalog : Catalog) (front back : List Step) :
    (catalog.hints (front ++ back)).filter (·.index < front.length) = catalog.hints front := by
  have hfront : (catalog.hints front).filter (·.index < front.length) = catalog.hints front := by
    refine List.filter_eq_self.mpr fun h hmem => ?_
    have hbounds := index_of_mem_hintsFrom hmem
    simp only [decide_eq_true_eq]
    omega
  have hback : (catalog.hintsFrom (catalog.scopeAfter .empty front) (0 + front.length) back).filter
      (·.index < front.length) = [] := by
    refine List.filter_eq_nil_iff.mpr fun h hmem => ?_
    have hbounds := index_of_mem_hintsFrom hmem
    simp only [decide_eq_true_eq]
    omega
  rw [hints] at hfront ⊢
  rw [hintsFrom_append, List.filter_append, hfront, hback, List.append_nil, hints]

/-- The hints about the second part depend on the first part only through the scope it reaches. -/
theorem filter_le_hints_append (catalog : Catalog) (front back : List Step) :
    (catalog.hints (front ++ back)).filter (front.length ≤ ·.index) =
      catalog.hintsFrom (catalog.scopeAfter .empty front) front.length back := by
  have hfront : (catalog.hintsFrom .empty 0 front).filter (front.length ≤ ·.index) = [] := by
    refine List.filter_eq_nil_iff.mpr fun h hmem => ?_
    have hbounds := index_of_mem_hintsFrom hmem
    simp only [decide_eq_true_eq]
    omega
  rw [hints, hintsFrom_append, List.filter_append, hfront, List.nil_append, Nat.zero_add]
  refine List.filter_eq_self.mpr fun h hmem => ?_
  simpa using (index_of_mem_hintsFrom hmem).1

/-! ## One step without binding -/

theorem scopeAfter_concat (hstep : step.binding? catalog = none) :
    catalog.scopeAfter scope (front ++ [step]) = catalog.scopeAfter scope front := by
  rw [scopeAfter, List.foldl_append, List.foldl_cons, hstep]
  rfl

/-- A step that binds nothing doubles the scope in which it stands. -/
theorem scopes_insert (hstep : step.binding? catalog = none) (front back : List Step) :
    catalog.scopes (front ++ step :: back) =
      (catalog.scopes (front ++ back)).insertIdx front.length
        (catalog.scopeAt (front ++ back) front.length) := by
  have hlength : (catalog.scopesFrom .empty front).dropLast.length = front.length := by
    rw [List.length_dropLast, length_scopesFrom, Nat.add_sub_cancel]
  have hinsert := insertIdx_length_append (catalog.scopesFrom .empty front).dropLast
    (catalog.scopesFrom (catalog.scopeAfter .empty front) back) (catalog.scopeAfter .empty front)
  rw [hlength] at hinsert
  rw [scopeAt_eq_scopeAfter, List.take_left, scopes, scopes, scopesFrom_append, scopesFrom_append,
    hinsert, scopesFrom, hstep]
  rfl

/-- A step that binds nothing brings its own problems along, and the hints about the later steps move
    on by one position. -/
theorem hints_insert (hstep : step.binding? catalog = none) (front back : List Step) :
    catalog.hints (front ++ step :: back) =
      (catalog.hints (front ++ back)).filter (·.index < front.length) ++
        ((step.problems catalog (catalog.scopeAt (front ++ back) front.length)).map
            (Hint.mk front.length) ++
          ((catalog.hints (front ++ back)).filter (front.length ≤ ·.index)).map Hint.later) := by
  rw [filter_lt_hints_append, filter_le_hints_append, ← hintsFrom_succ, scopeAt_eq_scopeAfter,
    List.take_left, hints, hintsFrom_append, Nat.zero_add, hintsFrom, hstep]
  rfl

/-- Without a step that binds nothing, the hints about it are gone and those about the later steps
    move back by one position. -/
theorem hints_erase (hstep : step.binding? catalog = none) (front back : List Step) :
    catalog.hints (front ++ back) =
      (catalog.hints (front ++ step :: back)).filter (·.index < front.length) ++
        ((catalog.hints (front ++ step :: back)).filter (front.length < ·.index)).map
          Hint.earlier := by
  -- The later steps come after the first part with the step at its end.
  have hlater : (catalog.hints (front ++ step :: back)).filter (front.length < ·.index) =
      (catalog.hintsFrom (catalog.scopeAfter .empty front) front.length back).map Hint.later := by
    have hafter := catalog.filter_le_hints_append (front ++ [step]) back
    rw [List.append_assoc, List.singleton_append, List.length_append, List.length_singleton,
      scopeAfter_concat hstep, hintsFrom_succ] at hafter
    exact hafter
  rw [hlater, List.map_map, Function.comp_def, filter_lt_hints_append]
  simp only [Hint.earlier_later, List.map_id']
  rw [hints, hintsFrom_append, Nat.zero_add, hints]

end Catalog

/-! ## Sessions -/

/-- The problem of a new step. -/
def StepKind.firstProblem : StepKind → Problem
  | call => .noConfigSelected
  | ret => .emptyParameter ""

theorem StepKind.problems_create (kind : StepKind) (id : String) (catalog : Catalog)
    (scope : Scope) : (kind.create id).problems catalog scope = [kind.firstProblem] := by
  cases kind <;> rfl

theorem StepKind.binding?_create (kind : StepKind) (id : String) (catalog : Catalog) :
    (kind.create id).binding? catalog = none := by
  cases kind <;> rfl

namespace Session

/-- One more step at a position: its scope is there twice, it has one problem of its own, and the hints
    about the steps from there on have moved on by one position. -/
structure OpenedAt (position : Nat) (problem : Problem) (before after : Session) : Prop where
  scopes : ∃ scope, before.scopes[position]? = some scope ∧
    after.scopes = before.scopes.insertIdx position scope
  hints : after.hints = before.hints.filter (·.index < position) ++
    ⟨position, problem⟩ :: (before.hints.filter (position ≤ ·.index)).map Hint.later

/-- One step less at a position: its scope, which was there twice, is there once, the hints about it
    are gone, and those about the steps after it have moved back by one position. -/
structure ClosedAt (position : Nat) (before after : Session) : Prop where
  twice : ∃ scope, before.scopes[position]? = some scope ∧ before.scopes[position + 1]? = some scope
  scopes : after.scopes = before.scopes.eraseIdx position
  hints : after.hints = before.hints.filter (·.index < position) ++
    (before.hints.filter (position < ·.index)).map Hint.earlier

variable {s : Session} {position : Nat} {step : Step}

theorem steps_insert (s : Session) (index : Nat) (kind : StepKind) (id : String) :
    let position := (s.insert index kind id).1
    (s.insert index kind id).2.steps =
      s.steps.take position ++ kind.create id :: s.steps.drop position := by
  intro position
  have hfront : (s.steps.take position).length = position :=
    List.length_take_of_le (Nat.min_le_right index s.steps.length)
  have hinsert := insertIdx_length_append (s.steps.take position) (s.steps.drop position)
    (kind.create id)
  rw [List.take_append_drop, hfront] at hinsert
  exact hinsert

theorem openedAt_insert (s : Session) (index : Nat) (kind : StepKind) (id : String) :
    OpenedAt (s.insert index kind id).1 kind.firstProblem s (s.insert index kind id).2 := by
  have hle : (s.insert index kind id).1 ≤ s.steps.length := Nat.min_le_right index s.steps.length
  have hsteps := s.steps_insert index kind id
  generalize (s.insert index kind id).1 = position at hle hsteps ⊢
  have hbinding := kind.binding?_create id s.catalog
  have hscopes := Catalog.scopes_insert hbinding (s.steps.take position) (s.steps.drop position)
  have hhints := Catalog.hints_insert hbinding (s.steps.take position) (s.steps.drop position)
  rw [← hsteps, List.take_append_drop, List.length_take_of_le hle] at hscopes hhints
  rw [kind.problems_create] at hhints
  exact ⟨⟨s.scopeAt position, Catalog.getElem?_scopes hle, hscopes⟩, hhints⟩

theorem steps_remove (hstep : s.steps[position]? = some step) :
    (s.remove position).2.steps = s.steps.eraseIdx position := by
  rw [remove, hstep]
  rfl

theorem catalog_remove (s : Session) (position : Nat) :
    (s.remove position).2.catalog = s.catalog := by
  rw [remove]
  split <;> rfl

theorem closedAt_remove (hstep : s.steps[position]? = some step)
    (hbinding : step.binding? s.catalog = none) : ClosedAt position s (s.remove position).2 := by
  obtain ⟨hlt, rfl⟩ := List.getElem?_eq_some_iff.mp hstep
  have hsplit : s.steps.take position ++ s.steps[position] :: s.steps.drop (position + 1) =
      s.steps := by
    rw [← List.drop_eq_getElem_cons hlt, List.take_append_drop]
  have hfront : (s.steps.take position).length = position :=
    List.length_take_of_le (Nat.le_of_lt hlt)
  have hsteps : (s.remove position).2.steps =
      s.steps.take position ++ s.steps.drop (position + 1) := by
    rw [steps_remove hstep, List.eraseIdx_eq_take_drop_succ]
  have hscopes := Catalog.scopes_insert hbinding (s.steps.take position)
    (s.steps.drop (position + 1))
  have hhints := Catalog.hints_erase hbinding (s.steps.take position)
    (s.steps.drop (position + 1))
  rw [hsplit, hfront, ← hsteps] at hscopes hhints
  refine ⟨⟨s.scopeAt position, Catalog.getElem?_scopes (Nat.le_of_lt hlt), ?_⟩, ?_, ?_⟩
  · have hnext : s.scopeAt (position + 1) = s.scopeAt position := by
      rw [scopeAt, Catalog.scopeAt_succ, Catalog.bindingAt?, hstep, Option.bind_some, hbinding]
      rfl
    rw [← hnext]
    exact Catalog.getElem?_scopes hlt
  · rw [scopes, scopes, catalog_remove, hscopes, List.eraseIdx_insertIdx_self]
  · rw [hints, catalog_remove]
    exact hhints

theorem remove_insert (s : Session) (index : Nat) (kind : StepKind) (id : String) :
    let inserted := s.insert index kind id
    (inserted.2.remove inserted.1).1 = some (kind.create id) ∧
      (inserted.2.remove inserted.1).2.endpoint = s.endpoint := by
  intro inserted
  have hstep : inserted.2.steps[inserted.1]? = some (kind.create id) :=
    List.getElem?_insertIdx_self.trans (if_pos (Nat.min_le_right index s.steps.length))
  rw [remove, hstep]
  refine ⟨rfl, ?_⟩
  show { s.endpoint with steps := inserted.2.steps.eraseIdx inserted.1 } = s.endpoint
  have hsteps : inserted.2.steps.eraseIdx inserted.1 = s.steps := List.eraseIdx_insertIdx_self _
  rw [hsteps]
  rfl

/-- A new step doubles the scope where it lands and brings one hint along, and taking it out again
    gives the endpoint back. A step that binds nothing can be taken out: one copy of its scope and the
    hints about it go. All other scopes and hints stay, the hints about later steps with them. -/
theorem steps_without_binding_disturb_nothing (s : Session) :
    (∀ (index : Nat) (kind : StepKind) (id : String),
      let position := (s.insert index kind id).1
      let inserted := (s.insert index kind id).2
      position = min index s.steps.length ∧ OpenedAt position kind.firstProblem s inserted ∧
        (inserted.remove position).1 = some (kind.create id) ∧
        (inserted.remove position).2.endpoint = s.endpoint) ∧
      ∀ (position : Nat) (step : Step), s.steps[position]? = some step →
        step.binding? s.catalog = none →
          (s.remove position).1 = some step ∧ ClosedAt position s (s.remove position).2 := by
  refine ⟨fun index kind id => ?_, fun position step hstep hbinding => ?_⟩
  · exact ⟨rfl, s.openedAt_insert index kind id, s.remove_insert index kind id⟩
  · refine ⟨?_, closedAt_remove hstep hbinding⟩
    rw [remove, hstep]

/-- A call of a method that does not exist binds nothing, although its result has a name. It can be
    taken out, and a return can be put in after it: in either case the hints about the later steps
    stay, and the name `row` is still bound by the first call. -/
theorem steps_without_binding_disturb_nothing_mixed :
    let row : ValueType := .object "Row"
    let catalog : Catalog := ⟨[⟨"db", "", "", "", [
      ⟨"find", "", [], [⟨"", "", some row⟩]⟩,
      ⟨"count", "", [⟨"of", "", some row⟩], [⟨"", "", some .text⟩]⟩]⟩]⟩
    let drop : Step := .call ⟨"d", "db", "drop", some "row", []⟩
    let s : Session := .start catalog ⟨"", "", "", "", [
      .call ⟨"f", "db", "find", some "row", []⟩, drop,
      .call ⟨"c", "db", "count", some "n", [⟨"of", .parameter "row"⟩, ⟨"to", .literal ""⟩]⟩,
      .ret ⟨"r", "", .parameter "all"⟩]⟩
    let inserted := (s.insert 2 .ret "new").2
    s.hints = [⟨1, .methodNotFound "db" "drop"⟩, ⟨2, .unknownArgument "to"⟩,
        ⟨3, .unresolvedParameter "" "all"⟩] ∧
      OpenedAt 2 (.emptyParameter "") s inserted ∧
      inserted.hints = [⟨1, .methodNotFound "db" "drop"⟩, ⟨2, .emptyParameter ""⟩,
        ⟨3, .unknownArgument "to"⟩, ⟨4, .unresolvedParameter "" "all"⟩] ∧
      (inserted.remove 2).2.endpoint = s.endpoint ∧
      s.steps[1]? = some drop ∧ drop.binding? catalog = none ∧
      ClosedAt 1 s (s.remove 1).2 ∧
      (s.remove 1).2.hints = [⟨1, .unknownArgument "to"⟩, ⟨2, .unresolvedParameter "" "all"⟩] ∧
      (s.remove 1).2.scopes.map Scope.names = [[], ["row"], ["row", "n"], ["row", "n"]] := by
  intro row catalog drop s inserted
  have hstep : s.steps[1]? = some drop := rfl
  have hbinding : drop.binding? catalog = none := by decide
  obtain ⟨hinsert, hremove⟩ := steps_without_binding_disturb_nothing s
  obtain ⟨-, hopened, -, hrestored⟩ := hinsert 2 .ret "new"
  exact ⟨by decide, hopened, by decide, hrestored, hstep, hbinding, (hremove 1 drop hstep hbinding).2,
    by decide, by decide⟩

end Session

end CallFlow
