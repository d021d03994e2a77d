import CallFlow.Proofs.Session.Frame

/-!
# Edits made twice

Making an edit a second time changes nothing. What an edit makes of a step depends on the scope in
front of the step, which the edit and the rename that may go along leave as it is. So a method that
is selected again is given the same arguments again, and the name that was made up for its result is
still free: the call itself does not stand in the way of its own name.

## Main statements

- `CallFlow.Step.apply_apply` — one step, edited twice in one scope
- `CallFlow.Session.repeated_edit_changes_nothing` — a session, edited twice
-/

namespace CallFlow

/-- The argument that was set, or added, is found again and keeps its value. -/
theorem setArgument_setArgument (input : String) (value : Operand) (arguments : List Argument) :
    setArgument input value (setArgument input value arguments) =
      setArgument input value arguments := by
  induction arguments with
  | nil => simp [setArgument]
  | cons a arguments ih =>
    by_cases ha : a.name = input
    · simp [setArgument, ha]
    · rw [setArgument, if_neg ha, setArgument, if_neg ha, ih]

theorem Call.apply_apply (catalog : Catalog) (scope : Scope) (c : Call) (e : Edit) :
    (c.apply catalog scope e).apply catalog scope e = c.apply catalog scope e := by
  cases e with
  | selectConfig id => rfl
  | selectMethod name =>
    -- The config stays, so the second look finds the same method or again none.
    cases hmethod : catalog.method? c.configId name with
    | none => simp only [apply, hmethod]
    | some m => simp only [apply, hmethod]
  | setOutputName name => rfl
  | setArgument input value =>
    rw [apply, apply, setArgument_setArgument]
  | setReturn value => rfl

theorem Return.apply_apply (r : Return) (e : Edit) : (r.apply e).apply e = r.apply e := by
  cases e <;> rfl

/-- In one scope, an edit leaves a step alone on which it was made already. -/
theorem Step.apply_apply (catalog : Catalog) (scope : Scope) (e : Edit) (s : Step) :
    (s.apply catalog scope e).apply catalog scope e = s.apply catalog scope e := by
  cases s with
  | call c => exact congrArg Step.call (c.apply_apply catalog scope e)
  | ret r => exact congrArg Step.ret (r.apply_apply e)

namespace Session

/-- An edit puts the edited step in its place, if there is a step. Made a second time, it tells of no
    change and leaves the session as it is. -/
theorem repeated_edit_changes_nothing (s : Session) (i : Nat) (e : Edit) :
    let once := (s.edit i e).2
    once.steps[i]? = s.steps[i]?.map (Step.apply s.catalog (s.scopeAt i) e) ∧
      once.edit i e = (false, once) := by
  intro once
  have hat : once.steps[i]? = s.steps[i]?.map (Step.apply s.catalog (s.scopeAt i) e) :=
    s.getElem?_edit_self i e
  refine ⟨hat, ?_⟩
  cases hi : s.steps[i]? with
  | none =>
    have hnone : once.steps[i]? = none := by
      rw [hat, hi]
      rfl
    exact edit_of_getElem?_none hnone e
  | some before =>
    have hedited : once.steps[i]? = some (before.apply s.catalog (s.scopeAt i) e) := by
      rw [hat, hi]
      rfl
    -- The second edit sees the same catalog and the same scope.
    have hcatalog : once.catalog = s.catalog := s.catalog_edit i e
    have hscope : once.scopeAt i = s.scopeAt i := scopeAt_edit_of_le (Nat.le_refl i) s e
    rw [edit_of_getElem? hedited, hcatalog, hscope]
    exact if_pos (before.apply_apply s.catalog (s.scopeAt i) e)

end Session

end CallFlow
