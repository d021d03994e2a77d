import CallFlow.Proofs.Rename.Reach

/-!
# Edits of a session

An edit replaces one step. If the step's result changes its name on the way, a rename goes along,
which reaches later steps only: at the place of the edit there is the edited step. So an edit tells
that it changed something exactly when the endpoint is another one afterwards.

## Main statements

- `CallFlow.getElem?_replaceStep_of_reached`, `CallFlow.getElem?_replaceStep_of_not_reached` — the
  other steps after one was replaced
- `CallFlow.Session.edit_of_getElem?` — an edit of a step that exists, in one equation
- `CallFlow.Session.steps_edit`, `CallFlow.Session.getElem?_edit_self` — the steps after an edit, and
  the one at its place
- `CallFlow.Session.endpoint_edit` — what else an edit leaves as it is
- `CallFlow.Session.edit_changed_iff` — what an edit tells
-/

namespace CallFlow

/-- The steps after one of them gave way to another one, with later references renamed along. -/
def replaceStep (steps : List Step) (index : Nat) (before after : Step) : List Step :=
  match Session.renameNeeded? before after with
  | none => steps.set index after
  | some (old, new) => (renameAfter (steps.set index after) index old new).1

theorem renameNeeded?_eq_none {before after : Step} (h : after.outputName = before.outputName) :
    Session.renameNeeded? before after = none := by
  rw [Session.renameNeeded?, h]
  cases before.outputName <;> simp

/-- A rename goes along exactly when the result of a step had a name and has lost it. -/
theorem renameNeeded?_eq_some_iff {before after : Step} {old new : String} :
    Session.renameNeeded? before after = some (old, new) ↔
      before.outputName = some old ∧ after.outputName ≠ some old ∧
        after.outputName.getD "" = new := by
  rw [Session.renameNeeded?]
  cases before.outputName with
  | none => simp
  | some name =>
    dsimp only
    constructor
    · intro h
      split at h
      · cases h
      · rename_i hne
        cases h
        exact ⟨rfl, hne, rfl⟩
    · rintro ⟨hname, hne, rfl⟩
      cases hname
      exact if_neg hne

/-- A step whose result keeps its name is just replaced. -/
theorem replaceStep_of_outputName_eq {before after : Step}
    (h : after.outputName = before.outputName) (steps : List Step) (i : Nat) :
    replaceStep steps i before after = steps.set i after := by
  rw [replaceStep, renameNeeded?_eq_none h]

theorem replaceStep_self {steps : List Step} {i : Nat} {step : Step} (hi : steps[i]? = some step) :
    replaceStep steps i step step = steps := by
  obtain ⟨hlt, rfl⟩ := List.getElem?_eq_some_iff.mp hi
  rw [replaceStep_of_outputName_eq rfl, List.set_getElem_self]

theorem getElem?_replaceStep_self {steps : List Step} {i : Nat} (hi : i < steps.length)
    (before after : Step) : (replaceStep steps i before after)[i]? = some after := by
  rw [replaceStep]
  split
  · exact List.getElem?_set_self hi
  · rw [getElem?_renameAfter_of_le (Nat.le_refl i), List.getElem?_set_self hi]

@[simp] theorem length_replaceStep (steps : List Step) (i : Nat) (before after : Step) :
    (replaceStep steps i before after).length = steps.length := by
  rw [replaceStep]
  split
  · exact List.length_set
  · rw [length_renameAfter, List.length_set]

/-- The later steps that still mean the replaced one by its old name have their references changed. -/
theorem getElem?_replaceStep_of_reached {steps : List Step} {i p : Nat} {before : Step}
    {old : String} (hold : before.outputName = some old) (h : Reached steps i old p)
    (after : Step) :
    (replaceStep steps i before after)[p]? =
      steps[p]?.map (Step.renameReferences old (after.outputName.getD "")) := by
  have hset : (steps.set i after)[p]? = steps[p]? := List.getElem?_set_ne (Nat.ne_of_lt h.1)
  by_cases hsame : after.outputName = some old
  · -- Without a rename, the references are changed to the name they have.
    have hself : Step.renameReferences old old = id := funext (Step.renameReferences_self old)
    rw [replaceStep_of_outputName_eq (hsame.trans hold.symm), hset, hsame, Option.getD_some, hself,
      Option.map_id_apply]
  · have hneeded := renameNeeded?_eq_some_iff.mpr ⟨hold, hsame, rfl⟩
    simp only [replaceStep, hneeded]
    rw [getElem?_renameAfter_of_reached ((reached_set_iff steps after).mpr h), hset]

/-- All other steps stay as they are. -/
theorem getElem?_replaceStep_of_not_reached {steps : List Step} {i p : Nat} {before : Step}
    (hp : p ≠ i) (h : ∀ old, before.outputName = some old → ¬Reached steps i old p)
    (after : Step) : (replaceStep steps i before after)[p]? = steps[p]? := by
  have hset : (steps.set i after)[p]? = steps[p]? := List.getElem?_set_ne hp.symm
  rw [replaceStep]
  split
  · exact hset
  · rename_i old new hneeded
    have hold : before.outputName = some old := (renameNeeded?_eq_some_iff.mp hneeded).1
    rw [getElem?_renameAfter_of_not_reached (mt (reached_set_iff steps after).mp (h old hold)), hset]

namespace Session

variable {s : Session} {i : Nat} {before : Step}

theorem edit_of_getElem?_none (hi : s.steps[i]? = none) (e : Edit) : s.edit i e = (false, s) := by
  rw [edit, hi]

/-- An edit of a step that exists. -/
theorem edit_of_getElem? (hi : s.steps[i]? = some before) (e : Edit) :
    s.edit i e =
      let after := before.apply s.catalog (s.scopeAt i) e
      if after = before then (false, s)
      else
        (true, { s.withSteps (replaceStep s.steps i before after) with hasChanges := true }) := by
  rw [edit, hi]
  dsimp only
  split
  · rfl
  · rw [replaceStep]
    -- A rename that goes along sets the flag once more.
    cases renameNeeded? before (before.apply s.catalog (s.scopeAt i) e) <;> rfl

/-- The steps after an edit, also after one that changes nothing. -/
theorem steps_edit (hi : s.steps[i]? = some before) (e : Edit) :
    (s.edit i e).2.steps =
      replaceStep s.steps i before (before.apply s.catalog (s.scopeAt i) e) := by
  rw [edit_of_getElem? hi]
  dsimp only
  split
  · rename_i hsame
    rw [hsame, replaceStep_self hi]
  · rfl

/-- At the place of an edit there is the edited step. -/
theorem getElem?_edit_self (s : Session) (i : Nat) (e : Edit) :
    (s.edit i e).2.steps[i]? = s.steps[i]?.map (Step.apply s.catalog (s.scopeAt i) e) := by
  cases hi : s.steps[i]? with
  | none =>
    rw [edit_of_getElem?_none hi, hi]
    rfl
  | some before =>
    have hlt : i < s.steps.length := (List.getElem?_eq_some_iff.mp hi).1
    rw [steps_edit hi, getElem?_replaceStep_self hlt]
    rfl

/-- An edit that tells of a change has changed the step at its position; any other edit leaves the
    session as it is. -/
theorem edit_cases (s : Session) (i : Nat) (e : Edit) :
    s.edit i e = (false, s) ∨
      (s.edit i e).1 = true ∧ (s.edit i e).2.hasChanges = true ∧
        (s.edit i e).2.steps[i]? ≠ s.steps[i]? := by
  cases hi : s.steps[i]? with
  | none => exact .inl (edit_of_getElem?_none hi e)
  | some before =>
    by_cases hsame : before.apply s.catalog (s.scopeAt i) e = before
    · refine .inl ?_
      rw [edit_of_getElem? hi]
      exact if_pos hsame
    · refine .inr ?_
      have hat : (s.edit i e).2.steps[i]? = some (before.apply s.catalog (s.scopeAt i) e) := by
        rw [getElem?_edit_self, hi]
        rfl
      rw [hat]
      rw [edit_of_getElem? hi]
      simp [hsame]

/-- An edit tells of a change exactly when the endpoint is another one afterwards. -/
theorem edit_changed_iff (s : Session) (i : Nat) (e : Edit) :
    (s.edit i e).1 = true ↔ (s.edit i e).2.endpoint ≠ s.endpoint := by
  rcases s.edit_cases i e with hsame | ⟨htrue, -, hat⟩
  · simp [hsame]
  · refine ⟨fun _ hendpoint => hat ?_, fun _ => htrue⟩
    rw [steps, steps, hendpoint]

theorem endpoint_edit (s : Session) (i : Nat) (e : Edit) :
    (s.edit i e).2.endpoint = { s.endpoint with steps := (s.edit i e).2.steps } := by
  cases hi : s.steps[i]? with
  | none =>
    rw [edit_of_getElem?_none hi]
    rfl
  | some before =>
    rw [edit_of_getElem? hi]
    dsimp only
    split <;> rfl

theorem edit_fst_iff {s : Session} {i : Nat} {before : Step} (hi : s.steps[i]? = some before)
    (e : Edit) : (s.edit i e).1 = true ↔ before.apply s.catalog (s.scopeAt i) e ≠ before := by
  rw [edit_of_getElem? hi]
  dsimp only
  split
  · rename_i hsame
    simp [hsame]
  · rename_i hchanged
    simp [hchanged]

end Session

end CallFlow
