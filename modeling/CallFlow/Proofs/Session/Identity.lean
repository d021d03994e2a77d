import Mathlib.Data.List.InsertIdx
import CallFlow.Proofs.Session.Run

/-!
# Steps keep their identity

A step is known by its identifier and its kind. Whatever is done in a session, no step becomes
another one, gets lost or turns up twice: the list of identities changes by insertions, removals and
moves alone, and each of them does to it what it does to the steps. Edits and renames change what
steps say, not which steps there are.

## Main definitions

- `CallFlow.Step.identity` — what a step is known by
- `CallFlow.Action.replay` — what an action does to a list of identities
- `CallFlow.Action.OutOfRange` — an action at a position that does not exist

## Main statements

- `CallFlow.Session.identities_perform`, `CallFlow.Session.endpoint_perform` — one action
- `CallFlow.Session.perform_of_outOfRange` — an action out of range
- `CallFlow.Session.identities_replayed` — every run
-/

namespace CallFlow

/-- What a step is known by: its identifier and its kind. -/
def Step.identity (s : Step) : String × StepKind :=
  (s.id, s.kind)

/-- The identities of the steps, in order. -/
def Endpoint.identities (e : Endpoint) : List (String × StepKind) :=
  e.steps.map Step.identity

namespace Action

/-- What an action does to a list of identities: a new one is put in, one is taken out, or one that
    was taken out is put in elsewhere. Nothing else counts. -/
def replay (entries : List (String × StepKind)) : Action → List (String × StepKind)
  | insert index kind id => entries.insertIdx (min index entries.length) (id, kind)
  | remove index => entries.eraseIdx index
  | move source target =>
    match entries[source]? with
    | none => entries
    | some entry =>
      if target < entries.length then (entries.eraseIdx source).insertIdx target entry else entries
  | _ => entries

/-- Whether an action is at a position that does not exist in a list of the given length. What is
    inserted past the end is put at the end. -/
def OutOfRange (length : Nat) : Action → Prop
  | edit index _ => length ≤ index
  | rename index _ _ => length ≤ index
  | remove index => length ≤ index
  | move source target => length ≤ source ∨ length ≤ target
  | _ => False

end Action

/-! ## Edits and renames -/

theorem Call.id_apply (catalog : Catalog) (scope : Scope) (c : Call) (e : Edit) :
    (c.apply catalog scope e).id = c.id := by
  cases e with
  | selectMethod name =>
    rw [apply]
    split <;> rfl
  | _ => rfl

theorem Return.id_apply (r : Return) (e : Edit) : (r.apply e).id = r.id := by
  cases e <;> rfl

theorem Step.identity_apply (catalog : Catalog) (scope : Scope) (e : Edit) (s : Step) :
    (s.apply catalog scope e).identity = s.identity := by
  cases s with
  | call c => exact congrArg (·, StepKind.call) (c.id_apply catalog scope e)
  | ret r => exact congrArg (·, StepKind.ret) (r.id_apply e)

theorem Step.identity_renameReferences (old new : String) (s : Step) :
    (s.renameReferences old new).identity = s.identity := by
  cases s <;> rfl

theorem identities_renameFrom (old new : String) (position : Nat) (steps : List Step) :
    (renameFrom old new position steps).1.map Step.identity = steps.map Step.identity := by
  induction steps generalizing position with
  | nil => rfl
  | cons s steps ih =>
    rw [renameFrom_cons, List.map_cons, List.map_cons, s.identity_renameReferences]
    split
    · rfl
    · rw [ih]

theorem identities_renameAfter (steps : List Step) (index : Nat) (old new : String) :
    (renameAfter steps index old new).1.map Step.identity = steps.map Step.identity := by
  rw [renameAfter_eq_append, List.map_append, identities_renameFrom, ← List.map_append,
    List.take_append_drop]

theorem identities_set {steps : List Step} {i : Nat} {before after : Step}
    (hi : steps[i]? = some before) (h : after.identity = before.identity) :
    (steps.set i after).map Step.identity = steps.map Step.identity := by
  obtain ⟨hlt, rfl⟩ := List.getElem?_eq_some_iff.mp hi
  rw [List.map_set, h, ← List.map_set, List.set_getElem_self]

theorem identities_replaceStep {steps : List Step} {i : Nat} {before after : Step}
    (hi : steps[i]? = some before) (h : after.identity = before.identity) :
    (replaceStep steps i before after).map Step.identity = steps.map Step.identity := by
  rw [replaceStep]
  split
  · exact identities_set hi h
  · rw [identities_renameAfter, identities_set hi h]

namespace Session

variable (s : Session)

theorem identities_edit (i : Nat) (e : Edit) :
    (s.edit i e).2.endpoint.identities = s.endpoint.identities := by
  cases hi : s.steps[i]? with
  | none => rw [edit_of_getElem?_none hi]
  | some before =>
    show (s.edit i e).2.steps.map Step.identity = s.steps.map Step.identity
    rw [steps_edit hi]
    exact identities_replaceStep hi (before.identity_apply s.catalog (s.scopeAt i) e)

/-! ## One action -/

theorem identities_insert (index : Nat) (kind : StepKind) (id : String) :
    (s.insert index kind id).2.endpoint.identities =
      s.endpoint.identities.insertIdx (min index s.endpoint.identities.length) (id, kind) := by
  have hnew : (kind.create id).identity = (id, kind) := by cases kind <;> rfl
  show (s.steps.insertIdx _ _).map Step.identity = _
  rw [List.map_insertIdx, hnew, Endpoint.identities, List.length_map]
  rfl

theorem identities_remove (index : Nat) :
    (s.remove index).2.endpoint.identities = s.endpoint.identities.eraseIdx index := by
  rw [remove, Endpoint.identities, Endpoint.identities, List.eraseIdx_map]
  cases hstep : s.steps[index]? with
  | none =>
    have hlength : s.endpoint.steps.length ≤ index := List.getElem?_eq_none_iff.mp hstep
    rw [List.eraseIdx_of_length_le hlength]
  | some step => rfl

theorem move_snd_of_length_le {source target : Nat}
    (h : s.steps.length ≤ source ∨ s.steps.length ≤ target) : (s.move source target).2 = s := by
  rw [move]
  rcases h with hsource | htarget
  · rw [List.getElem?_eq_none hsource]
  · split
    · rfl
    · rw [if_pos htarget]

theorem steps_move {source target : Nat} (hsource : source < s.steps.length)
    (htarget : target < s.steps.length) :
    (s.move source target).2.steps = (s.steps.eraseIdx source).insertIdx target s.steps[source] := by
  rw [move, List.getElem?_eq_getElem hsource]
  simp only [if_neg (Nat.not_le_of_lt htarget)]
  split
  · -- Taken out and put in at the same place, the step is where it was.
    rename_i heq
    subst heq
    rw [List.insertIdx_eraseIdx_getElem hsource]
  · rfl

theorem identities_move_of_lt {source target : Nat} (hsource : source < s.steps.length)
    (htarget : target < s.steps.length) :
    (s.move source target).2.endpoint.identities =
      (s.endpoint.identities.eraseIdx source).insertIdx target s.steps[source].identity := by
  show (s.move source target).2.steps.map Step.identity = _
  rw [s.steps_move hsource htarget, List.map_insertIdx, ← List.eraseIdx_map]
  rfl

theorem identities_move (source target : Nat) :
    (s.move source target).2.endpoint.identities =
      (Action.move source target).replay s.endpoint.identities := by
  have hget : s.endpoint.identities[source]? = s.steps[source]?.map Step.identity :=
    List.getElem?_map
  have hlength : s.endpoint.identities.length = s.steps.length := List.length_map _
  rw [Action.replay, hget, hlength]
  by_cases hsource : source < s.steps.length
  · rw [List.getElem?_eq_getElem hsource, Option.map_some]
    by_cases htarget : target < s.steps.length
    · simp only [if_pos htarget]
      exact s.identities_move_of_lt hsource htarget
    · simp only [if_neg htarget]
      rw [s.move_snd_of_length_le (.inr (Nat.le_of_not_lt htarget))]
  · rw [List.getElem?_eq_none (Nat.le_of_not_lt hsource),
      s.move_snd_of_length_le (.inl (Nat.le_of_not_lt hsource))]
    rfl

/-- An action that takes nothing over from outside does to the identities what it stands for. -/
theorem identities_perform {a : Action} (h : a.saved? = none) :
    (s.perform a).endpoint.identities = a.replay s.endpoint.identities := by
  cases a with
  | edit index e => exact s.identities_edit index e
  | rename index old new => exact identities_renameAfter s.steps index old new
  | insert index kind id => exact s.identities_insert index kind id
  | remove index => exact s.identities_remove index
  | move source target => exact s.identities_move source target
  | markSaved saved => cases h

/-- An action that takes nothing over from outside changes the steps only. -/
theorem endpoint_perform {a : Action} (h : a.saved? = none) :
    (s.perform a).endpoint = { s.endpoint with steps := (s.perform a).steps } := by
  cases a with
  | edit index e => exact s.endpoint_edit index e
  | rename index old new => rfl
  | insert index kind id => rfl
  | remove index =>
    rw [perform, remove]
    split <;> rfl
  | move source target =>
    rw [perform, move]
    split
    · rfl
    · split
      · rfl
      · split <;> rfl
  | markSaved saved => cases h

theorem perform_of_outOfRange {a : Action} (h : a.OutOfRange s.steps.length) : s.perform a = s := by
  cases a with
  | edit index e => rw [perform, edit_of_getElem?_none (List.getElem?_eq_none h)]
  | rename index old new =>
    have hnothing : renameAfter s.steps index old new = (s.steps, .none) := by
      have hlength : s.steps.length ≤ index + 1 := Nat.le_succ_of_le h
      rw [renameAfter, List.drop_eq_nil_of_le hlength, List.take_of_length_le hlength]
      simp [renameFrom]
    rw [perform, rename, hnothing]
    simp [withSteps, steps, RenameReport.none]
  | remove index => rw [perform, remove, List.getElem?_eq_none h]
  | move source target => exact s.move_snd_of_length_le h
  | insert index kind id => cases h
  | markSaved saved => cases h

theorem remove_fst (index : Nat) : (s.remove index).1 = s.steps[index]? := by
  rw [remove]
  split <;> simp_all

/-- A step that is moved arrives where it should, and the others keep their order. -/
theorem moved_past_others {source target : Nat} (hsource : source < s.steps.length)
    (htarget : target < s.steps.length) :
    let moved := (s.move source target).2.endpoint.identities
    moved[target]? = s.endpoint.identities[source]? ∧
      moved.eraseIdx target = s.endpoint.identities.eraseIdx source := by
  intro moved
  have hlength : s.endpoint.identities.length = s.steps.length := List.length_map _
  have hget : s.endpoint.identities[source]? = some (s.steps[source].identity) := by
    rw [Endpoint.identities, List.getElem?_map]
    exact congrArg _ (List.getElem?_eq_getElem hsource)
  have hmoved : moved = _ := s.identities_move_of_lt hsource htarget
  have hplace : target ≤ (s.endpoint.identities.eraseIdx source).length := by
    rw [List.length_eraseIdx_of_lt (by omega)]
    omega
  rw [hmoved, List.getElem?_insertIdx_self, if_pos hplace, hget, List.eraseIdx_insertIdx_self]
  exact ⟨rfl, rfl⟩

/-! ## Runs -/

theorem identities_run {actions : List Action} (h : ∀ a ∈ actions, a.saved? = none) :
    (s.run actions).endpoint.identities = actions.foldl Action.replay s.endpoint.identities := by
  induction actions generalizing s with
  | nil => rfl
  | cons a actions ih =>
    rw [run_cons, List.foldl_cons, ih _ fun b hb => h b (List.mem_cons_of_mem a hb),
      s.identities_perform (h a List.mem_cons_self)]

theorem endpoint_run {actions : List Action} (h : ∀ a ∈ actions, a.saved? = none) :
    (s.run actions).endpoint = { s.endpoint with steps := (s.run actions).steps } := by
  induction actions generalizing s with
  | nil => rfl
  | cons a actions ih =>
    rw [run_cons, ih _ fun b hb => h b (List.mem_cons_of_mem a hb),
      s.endpoint_perform (h a List.mem_cons_self)]

/-- After every run of edits, renames, insertions, removals and moves, the identities of the steps are
    those of the opened endpoint with the insertions, removals and moves replayed, and nothing but
    the steps is another one. At every point a removal gives back the step that it takes out, a move
    brings one step to its target past the others in their order, and what is done out of range
    changes nothing. -/
theorem identities_replayed (catalog : Catalog) (opened : Endpoint) {actions : List Action}
    (h : ∀ a ∈ actions, a.saved? = none) :
    let s := (start catalog opened).run actions
    s.endpoint.identities = actions.foldl Action.replay opened.identities ∧
      s.endpoint = { opened with steps := s.steps } ∧
      (∀ index, (s.remove index).1 = s.steps[index]?) ∧
      (∀ source target, source < s.steps.length → target < s.steps.length →
        let moved := (s.move source target).2.endpoint.identities
        moved[target]? = s.endpoint.identities[source]? ∧
          moved.eraseIdx target = s.endpoint.identities.eraseIdx source) ∧
      ∀ a : Action, a.OutOfRange s.steps.length → s.perform a = s := by
  intro s
  exact ⟨identities_run _ h, endpoint_run _ h, s.remove_fst,
    fun _ _ => s.moved_past_others, fun _ => s.perform_of_outOfRange⟩

/-- The return of three steps is moved to the front, past a call that is renamed and then removed. A
    new call is put at the end, and actions past the end do nothing. -/
theorem identities_replayed_mixed :
    let call (id name : String) (arguments : List Argument) : Step :=
      .call ⟨id, "db", "find", some name, arguments⟩
    let opened : Endpoint := ⟨"x", "list", "", "/",
      [call "a" "row" [], call "b" "all" [⟨"of", .parameter "row"⟩], .ret ⟨"c", "", .unset⟩]⟩
    let last := Nat.pow 2 64 - 1
    let actions : List Action := [.edit 0 (.setOutputName "user"), .move 2 0, .remove last,
      .insert last .call "d", .rename 1 "all" "rows", .move 0 4, .remove 1]
    let s := (start .empty opened).run actions
    (∀ a ∈ actions, a.saved? = none) ∧
      s.endpoint.identities = actions.foldl Action.replay opened.identities ∧
      s.endpoint.identities = [("c", .ret), ("b", .call), ("d", .call)] ∧
      s.endpoint = { opened with steps := s.steps } ∧
      (s.remove 1).1 = some (call "b" "all" [⟨"of", .parameter "user"⟩]) ∧
      (s.move 0 2).2.endpoint.identities = [("b", .call), ("d", .call), ("c", .ret)] ∧
      s.perform (.move 0 last) = s := by
  intro call opened last actions s
  have hactions : ∀ a ∈ actions, a.saved? = none := by decide
  obtain ⟨hreplayed, hendpoint, hremove, -, hout⟩ := identities_replayed .empty opened hactions
  have hidentities : s.endpoint.identities = [("c", .ret), ("b", .call), ("d", .call)] := by
    rw [hreplayed]
    decide
  exact ⟨hactions, hreplayed, hidentities, hendpoint, (hremove 1).trans (by decide), by decide,
    hout (.move 0 last) (.inr (by decide))⟩

end Session

end CallFlow
