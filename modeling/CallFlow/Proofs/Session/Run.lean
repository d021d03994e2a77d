import CallFlow.Proofs.Session.Edit

/-!
# Runs of a session

A session goes through actions one after the other. Each of them either leaves the session exactly
as it is or sets the flag for unsaved changes; only marking the endpoint as saved clears the flag,
and then the working copy is what was saved. So while the flag is clear, nothing is lost when the
working copy is dropped.

## Main definitions

- `CallFlow.Action` — what can be done with a session
- `CallFlow.Session.run` — a session after a list of actions
- `CallFlow.lastSaved` — the endpoint that was opened or saved last

## Main statements

- `CallFlow.Session.perform_eq_self_or_hasChanges` — what one action does
- `CallFlow.Session.hasChanges_covers_changes` — what the flag tells after every run
-/

namespace CallFlow

/-- What can be done with a session. A new step is given its identifier along. -/
inductive Action where
  | edit (index : Nat) (e : Edit)
  | rename (index : Nat) (old new : String)
  | insert (index : Nat) (kind : StepKind) (id : String)
  | remove (index : Nat)
  | move (source target : Nat)
  | markSaved (saved : Endpoint)
deriving DecidableEq, Repr

/-- What an action marks as saved. -/
def Action.saved? : Action → Option Endpoint
  | markSaved saved => some saved
  | _ => none

/-- The endpoint that was saved last, or the one that was opened if none was saved. -/
def lastSaved (opened : Endpoint) (actions : List Action) : Endpoint :=
  (actions.filterMap Action.saved?).getLastD opened

theorem lastSaved_cons (opened : Endpoint) (a : Action) (actions : List Action) :
    lastSaved opened (a :: actions) = lastSaved (a.saved?.getD opened) actions := by
  rw [lastSaved, List.filterMap_cons]
  cases h : a.saved? with
  | none => rfl
  | some saved => exact List.getLastD_cons

namespace Session

def perform (s : Session) : Action → Session
  | .edit index e => (s.edit index e).2
  | .rename index old new => (s.rename index old new).2
  | .insert index kind id => (s.insert index kind id).2
  | .remove index => (s.remove index).2
  | .move source target => (s.move source target).2
  | .markSaved saved => s.markSaved saved

/-- The session after some actions. -/
def run (s : Session) (actions : List Action) : Session :=
  actions.foldl perform s

theorem run_cons (s : Session) (a : Action) (actions : List Action) :
    s.run (a :: actions) = (s.perform a).run actions := rfl

/-! ## One action -/

theorem rename_eq_self_or_hasChanges (s : Session) (index : Nat) (old new : String) :
    (s.rename index old new).2 = s ∨ (s.rename index old new).2.hasChanges = true := by
  rw [rename]
  by_cases h : (renameAfter s.steps index old new).2.changed = 0
  · refine .inl ?_
    simp only [renameAfter_eq_self h, h, Nat.lt_irrefl, decide_false, Bool.or_false]
    rfl
  · refine .inr ?_
    simp [Nat.pos_of_ne_zero h]

theorem remove_eq_self_or_hasChanges (s : Session) (index : Nat) :
    (s.remove index).2 = s ∨ (s.remove index).2.hasChanges = true := by
  rw [remove]
  cases s.steps[index]? with
  | none => exact .inl rfl
  | some step => exact .inr rfl

theorem move_eq_self_or_hasChanges (s : Session) (source target : Nat) :
    (s.move source target).2 = s ∨ (s.move source target).2.hasChanges = true := by
  rw [move]
  cases s.steps[source]? with
  | none => exact .inl rfl
  | some step =>
    dsimp only
    split
    · exact .inl rfl
    · split
      · exact .inl rfl
      · exact .inr rfl

/-- An action that marks nothing as saved leaves the session as it is, or sets the flag. -/
theorem perform_eq_self_or_hasChanges {a : Action} (h : a.saved? = none) (s : Session) :
    s.perform a = s ∨ (s.perform a).hasChanges = true := by
  cases a with
  | edit index e =>
    rcases s.edit_cases index e with hsame | ⟨-, hflag, -⟩
    · exact .inl (congrArg Prod.snd hsame)
    · exact .inr hflag
  | rename index old new => exact s.rename_eq_self_or_hasChanges index old new
  | insert index kind id => exact .inr rfl
  | remove index => exact s.remove_eq_self_or_hasChanges index
  | move source target => exact s.move_eq_self_or_hasChanges source target
  | markSaved saved => cases h

/-! ## Runs -/

/-- While the flag is clear, the working copy is the endpoint that was opened or saved last. -/
def FlagCovers (s : Session) (saved : Endpoint) : Prop :=
  s.hasChanges = false → s.endpoint = saved

theorem FlagCovers.perform {s : Session} {saved : Endpoint} (h : s.FlagCovers saved) (a : Action) :
    (s.perform a).FlagCovers (a.saved?.getD saved) := by
  cases ha : a.saved? with
  | some e =>
    cases a with
    | markSaved echo =>
      intro _
      exact Option.some.inj ha
    | _ => cases ha
  | none =>
    intro hclear
    -- With the flag clear, the action did nothing.
    rcases perform_eq_self_or_hasChanges ha s with hsame | hflag
    · rw [hsame] at hclear ⊢
      exact h hclear
    · rw [hflag] at hclear
      cases hclear

theorem FlagCovers.run {s : Session} {saved : Endpoint} (h : s.FlagCovers saved)
    (actions : List Action) : (s.run actions).FlagCovers (lastSaved saved actions) := by
  induction actions generalizing s saved with
  | nil => exact h
  | cons a actions ih =>
    rw [run_cons, lastSaved_cons]
    exact ih (h.perform a)

/-- The flag stays set as long as nothing is marked as saved. -/
theorem hasChanges_run {s : Session} (h : s.hasChanges = true) {actions : List Action}
    (hactions : ∀ a ∈ actions, a.saved? = none) : (s.run actions).hasChanges = true := by
  induction actions generalizing s with
  | nil => exact h
  | cons a actions ih =>
    have hperform : (s.perform a).hasChanges = true := by
      rcases perform_eq_self_or_hasChanges (hactions a List.mem_cons_self) s with hsame | hflag
      · rw [hsame, h]
      · exact hflag
    exact ih hperform fun b hb => hactions b (List.mem_cons_of_mem a hb)

/-- After every run the flag tells of every difference from what was opened or saved last. Once set
    it stays set until something is marked as saved, and an edit tells of a change exactly when the
    endpoint is another one afterwards. -/
theorem hasChanges_covers_changes (catalog : Catalog) (opened : Endpoint)
    (actions : List Action) :
    let s := (start catalog opened).run actions
    (s.hasChanges = false → s.endpoint = lastSaved opened actions) ∧
      (∀ later : List Action, (∀ a ∈ later, a.saved? = none) →
        s.hasChanges = true → (s.run later).hasChanges = true) ∧
      ∀ index e, (s.edit index e).1 = true ↔ (s.edit index e).2.endpoint ≠ s.endpoint := by
  intro s
  have hstart : (start catalog opened).FlagCovers opened := fun _ => rfl
  refine ⟨hstart.run actions, ?_, s.edit_changed_iff⟩
  intro later hlater hflag
  exact hasChanges_run hflag hlater

/-- After a save, a rename that reaches only a return, a move to the same place and actions at places
    that do not exist leave the flag clear. The edit after them changes the working copy. -/
theorem hasChanges_covers_changes_after_save :
    let saved : Endpoint := ⟨"x", "list", "", "/",
      [.call { Call.blank with outputName := some "row" }, .ret ⟨"", "", .parameter "row"⟩]⟩
    let actions : List Action := [.insert 0 .call "a", .markSaved saved, .rename 0 "row" "user",
      .move 1 1, .remove 2, .edit 2 (.setOutputName "user")]
    let s := (start .empty (.create "list" "/")).run actions
    s.hasChanges = false ∧ s.endpoint = saved ∧
      (s.edit 0 (.setOutputName "user")).2.endpoint ≠ s.endpoint := by
  intro saved actions s
  have hclear : s.hasChanges = false := by decide
  obtain ⟨hcovers, -, hedit⟩ := hasChanges_covers_changes .empty (.create "list" "/") actions
  exact ⟨hclear, hcovers hclear, (hedit 0 (.setOutputName "user")).mp (by decide)⟩

end Session

end CallFlow
