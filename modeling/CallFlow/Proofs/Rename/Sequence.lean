import CallFlow.Proofs.Hint
import CallFlow.Proofs.Session.Edit

/-!
# Renames one after the other

Giving the result of a call another name does something to each step that its position alone decides:
the call itself gets the name, the steps that the rename reaches have their references changed, and
all others stay. What a rename reaches depends only on where the old name is bound.

So two renames that keep out of each other's names can be done in either order, however the steps
that they reach overlap: neither of them changes what the other one reaches, and at each position the
two changes commute. And a rename to a name that occurs in no later step can be taken back. The way
back reaches more steps than the way there, but it finds the new name only where the way there has
put it.

## Main definitions

- `CallFlow.namingAt` — what naming a result does to the step at a position

## Main statements

- `CallFlow.Session.getElem?_edit_setOutputName` — the steps after a result was named
- `CallFlow.Session.renames_commute` — two renames in either order
- `CallFlow.Session.rename_undone` — a rename and back
-/

namespace CallFlow

/-! ## One step -/

namespace Operand

variable {a b c d old new : String}

theorem rename_comm (hac : a ≠ c) (hbc : b ≠ c) (hda : d ≠ a) (o : Operand) :
    (o.rename a b).rename c d = (o.rename c d).rename a b := by
  cases o with
  | parameter name =>
    by_cases hname : name = a
    · simp [rename, hname, hac, hbc]
    · by_cases hname' : name = c
      · simp [rename, hname', hac.symm, hda]
      · simp [rename, hname, hname']
  | literal text => rfl
  | unset => rfl

theorem rename_rename_back {o : Operand} (h : o ≠ .parameter new) :
    (o.rename old new).rename new old = o := by
  by_cases ho : o = .parameter old
  · simp [ho, rename]
  · rw [rename_of_ne ho, rename_of_ne h]

end Operand

namespace Step

variable {a b c d old new : String}

/-- The step with its result bound to a name, or to none if the name is empty. A return has no
    result. -/
def withOutputName (name : String) : Step → Step
  | call c => call { c with outputName := if name = "" then none else some name }
  | ret r => ret r

theorem apply_setOutputName (catalog : Catalog) (scope : Scope) (name : String) (s : Step) :
    s.apply catalog scope (.setOutputName name) = s.withOutputName name := by
  cases s <;> rfl

theorem outputName_withOutputName {s : Step} (h : s.outputName = some old) (name : String) :
    (s.withOutputName name).outputName = if name = "" then none else some name := by
  cases s with
  | call c => rfl
  | ret r => cases h

theorem withOutputName_withOutputName_back {s : Step} (h : s.outputName = some old) (hold : old ≠ "")
    (name : String) : (s.withOutputName name).withOutputName old = s := by
  cases s with
  | call c =>
    have hname : c.outputName = some old := h
    rw [withOutputName, withOutputName, if_neg hold, ← hname]
  | ret r => rfl

theorem renameReferences_withOutputName (old new name : String) (s : Step) :
    (s.withOutputName name).renameReferences old new =
      (s.renameReferences old new).withOutputName name := by
  cases s <;> rfl

theorem renameReferences_comm (hac : a ≠ c) (hbc : b ≠ c) (hda : d ≠ a) (s : Step) :
    (s.renameReferences a b).renameReferences c d =
      (s.renameReferences c d).renameReferences a b := by
  cases s with
  | call call =>
    refine congrArg Step.call ?_
    show (call.mapOperands _).mapOperands _ = (call.mapOperands _).mapOperands _
    rw [Call.mapOperands_mapOperands, Call.mapOperands_mapOperands]
    exact Call.mapOperands_congr fun argument _ => argument.value.rename_comm hac hbc hda
  | ret r => rfl

theorem renameReferences_renameReferences_back {s : Step} (h : ¬s.RefersTo new) (old : String) :
    (s.renameReferences old new).renameReferences new old = s := by
  cases s with
  | call call =>
    refine congrArg Step.call ?_
    show (call.mapOperands _).mapOperands _ = call
    rw [Call.mapOperands_mapOperands]
    refine (Call.mapOperands_congr ?_).trans call.mapOperands_self
    intro argument hargument
    exact Operand.rename_rename_back fun hvalue => h ⟨argument, hargument, hvalue⟩
  | ret r => rfl

end Step

/-! ## One position -/

/-- What naming the result of the step at `index`, bound to `old` so far, does to the step at a
    position. -/
def namingAt (steps : List Step) (index : Nat) (old new : String) (position : Nat) : Step → Step :=
  if position = index then Step.withOutputName new
  else if Reached steps index old position then Step.renameReferences old new
  else id

section NamingAt

variable {steps steps' : List Step} {i j p : Nat} {a b c d old new : String}

theorem namingAt_self (steps : List Step) (i : Nat) (old new : String) :
    namingAt steps i old new i = Step.withOutputName new :=
  if_pos rfl

theorem namingAt_of_reached (h : Reached steps i old p) (new : String) :
    namingAt steps i old new p = Step.renameReferences old new := by
  have hne : p ≠ i := Nat.ne_of_gt h.1
  rw [namingAt, if_neg hne, if_pos h]

theorem namingAt_of_not_reached (hne : p ≠ i) (h : ¬Reached steps i old p) (new : String) :
    namingAt steps i old new p = id := by
  rw [namingAt, if_neg hne, if_neg h]

theorem namingAt_congr (h : Reached steps' i old p ↔ Reached steps i old p) (new : String) :
    namingAt steps' i old new p = namingAt steps i old new p := by
  simp only [namingAt, h]

theorem outputName_namingAt_of_ne (hne : p ≠ i) (s : Step) :
    (namingAt steps i old new p s).outputName = s.outputName := by
  by_cases h : Reached steps i old p
  · rw [namingAt_of_reached h, Step.outputName_renameReferences]
  · rw [namingAt_of_not_reached hne h]
    rfl

/-- A call that another naming reaches gets its own name before or after it alike. -/
theorem namingAt_withOutputName (hne : p ≠ i) (s : Step) (name : String) :
    namingAt steps i old new p (s.withOutputName name) =
      (namingAt steps i old new p s).withOutputName name := by
  by_cases h : Reached steps i old p
  · rw [namingAt_of_reached h, Step.renameReferences_withOutputName]
  · rw [namingAt_of_not_reached hne h]
    rfl

/-- At each position, two namings that keep out of each other's names commute. -/
theorem namingAt_comm (hij : i ≠ j) (hac : a ≠ c) (hbc : b ≠ c) (hda : d ≠ a) (p : Nat) (s : Step) :
    namingAt steps j c d p (namingAt steps i a b p s) =
      namingAt steps i a b p (namingAt steps j c d p s) := by
  by_cases hpi : p = i
  · subst hpi
    rw [namingAt_self, namingAt_withOutputName hij]
  · by_cases hpj : p = j
    · subst hpj
      rw [namingAt_self, namingAt_withOutputName hij.symm]
    · by_cases hi : Reached steps i a p
      · by_cases hj : Reached steps j c p
        · rw [namingAt_of_reached hi, namingAt_of_reached hj, Step.renameReferences_comm hac hbc hda]
        · rw [namingAt_of_not_reached hpj hj]
          rfl
      · rw [namingAt_of_not_reached hpi hi]
        rfl

/-- A rename of a name that is bound in no later step reaches all of them. -/
theorem FreshAfter.reached (h : FreshAfter steps i new) (hlt : i < p) : Reached steps i new p :=
  ⟨hlt, fun _ hk _ => h.outputNameAt_ne hk⟩

/-- Where a fresh name was put, taking it back restores the step. -/
theorem namingAt_back (hi : outputNameAt steps i = some old) (hold : old ≠ "")
    (hfresh : FreshAfter steps i new)
    (hreached : ∀ p, Reached steps' i new p ↔ Reached steps i new p) {s : Step}
    (hs : steps[p]? = some s) :
    namingAt steps' i new old p (namingAt steps i old new p s) = s := by
  rw [namingAt_congr (hreached p)]
  rcases Nat.lt_trichotomy p i with hlt | rfl | hgt
  · have hbefore : ∀ name, ¬Reached steps i name p := fun name h => absurd h.1 (by omega)
    rw [namingAt_of_not_reached (by omega) (hbefore old),
      namingAt_of_not_reached (by omega) (hbefore new)]
    rfl
  · have hname : s.outputName = some old := by
      rw [← hi, outputNameAt, hs]
      rfl
    rw [namingAt_self, namingAt_self]
    exact Step.withOutputName_withOutputName_back hname hold new
  · -- The way back reaches every later step, also those that the way there did not reach.
    have havoids : ¬s.RefersTo new := (hfresh.avoids hgt hs).2
    rw [namingAt_of_reached (hfresh.reached hgt)]
    by_cases h : Reached steps i old p
    · rw [namingAt_of_reached h, Step.renameReferences_renameReferences_back havoids]
    · rw [namingAt_of_not_reached (by omega) h]
      exact Step.renameReferences_of_not_refersTo havoids old

end NamingAt

/-! ## Sessions -/

namespace Session

variable {s : Session} {i j : Nat} {a b c d old new : String}

/-- What naming a result does, position by position. -/
theorem getElem?_edit_setOutputName (hi : outputNameAt s.steps i = some old) (new : String)
    (p : Nat) :
    (s.edit i (.setOutputName new)).2.steps[p]? =
      s.steps[p]?.map (namingAt s.steps i old new p) := by
  obtain ⟨before, hbefore, hname⟩ := Option.bind_eq_some_iff.mp hi
  have hlt : i < s.steps.length := lt_length_of_outputNameAt hi
  rw [steps_edit hbefore, Step.apply_setOutputName]
  by_cases hp : p = i
  · subst hp
    rw [getElem?_replaceStep_self hlt, hbefore, namingAt_self]
    rfl
  · by_cases h : Reached s.steps i old p
    · have hnew : (before.withOutputName new).outputName.getD "" = new := by
        rw [Step.outputName_withOutputName hname]
        split
        · rename_i hempty
          exact hempty.symm
        · rfl
      rw [getElem?_replaceStep_of_reached hname h, hnew, namingAt_of_reached h]
    · have hstays : ∀ name, before.outputName = some name → ¬Reached s.steps i name p := by
        intro name hname'
        cases hname.symm.trans hname'
        exact h
      rw [getElem?_replaceStep_of_not_reached hp hstays, namingAt_of_not_reached hp h,
        Option.map_id_apply]

theorem outputNameAt_edit_setOutputName_self (hi : outputNameAt s.steps i = some old)
    (new : String) :
    outputNameAt (s.edit i (.setOutputName new)).2.steps i =
      if new = "" then none else some new := by
  obtain ⟨before, hbefore, hname⟩ := Option.bind_eq_some_iff.mp hi
  rw [outputNameAt, getElem?_edit_setOutputName hi, hbefore, namingAt_self]
  exact Step.outputName_withOutputName hname new

theorem outputNameAt_edit_setOutputName_of_ne (hi : outputNameAt s.steps i = some old)
    (new : String) {p : Nat} (hp : p ≠ i) :
    outputNameAt (s.edit i (.setOutputName new)).2.steps p = outputNameAt s.steps p := by
  rw [outputNameAt, getElem?_edit_setOutputName hi, outputNameAt]
  cases s.steps[p]? with
  | none => rfl
  | some step => exact outputName_namingAt_of_ne hp step

/-- A naming does not change what a rename of a third name reaches. -/
theorem reached_edit_setOutputName (hi : outputNameAt s.steps i = some a) (hac : a ≠ c)
    (hbc : b ≠ c) (p : Nat) :
    Reached (s.edit i (.setOutputName b)).2.steps j c p ↔ Reached s.steps j c p := by
  refine reached_congr (fun k _ => ?_) p
  by_cases hk : k = i
  · rw [hk, outputNameAt_edit_setOutputName_self hi, hi]
    -- Neither the name that is given up nor the one that is taken is the third one.
    by_cases hb : b = ""
    · simp [hb, hac]
    · simp [hb, hac, hbc]
  · rw [outputNameAt_edit_setOutputName_of_ne hi b hk]

/-- Two namings one after the other, both as the steps were at first. -/
theorem getElem?_edit_edit_setOutputName (hij : i ≠ j) (hi : outputNameAt s.steps i = some a)
    (hj : outputNameAt s.steps j = some c) (hac : a ≠ c) (hbc : b ≠ c) (d : String) (p : Nat) :
    ((s.edit i (.setOutputName b)).2.edit j (.setOutputName d)).2.steps[p]? =
      (s.steps[p]?.map (namingAt s.steps i a b p)).map (namingAt s.steps j c d p) := by
  have hj' : outputNameAt (s.edit i (.setOutputName b)).2.steps j = some c := by
    rw [outputNameAt_edit_setOutputName_of_ne hi b hij.symm, hj]
  rw [getElem?_edit_setOutputName hj', getElem?_edit_setOutputName hi,
    namingAt_congr (reached_edit_setOutputName hi hac hbc p)]

theorem endpoint_edit_edit (s : Session) (i j : Nat) (e f : Edit) :
    ((s.edit i e).2.edit j f).2.endpoint =
      { s.endpoint with steps := ((s.edit i e).2.edit j f).2.steps } := by
  rw [endpoint_edit, endpoint_edit]

/-- Results of two calls that are given other names, neither of them the present name of the other
    call, may be named in either order. Either name may be empty, and they may be the same. -/
theorem renames_commute (s : Session) {i j : Nat} {a b c d : String} (hij : i ≠ j)
    (hi : outputNameAt s.steps i = some a) (hj : outputNameAt s.steps j = some c) (hac : a ≠ c)
    (hbc : b ≠ c) (hda : d ≠ a) :
    let both := ((s.edit i (.setOutputName b)).2.edit j (.setOutputName d)).2
    both.endpoint = ((s.edit j (.setOutputName d)).2.edit i (.setOutputName b)).2.endpoint ∧
      outputNameAt both.steps i = (if b = "" then none else some b) ∧
      outputNameAt both.steps j = (if d = "" then none else some d) := by
  intro both
  have hj' : outputNameAt (s.edit i (.setOutputName b)).2.steps j = some c := by
    rw [outputNameAt_edit_setOutputName_of_ne hi b hij.symm, hj]
  have hsteps : both.steps =
      ((s.edit j (.setOutputName d)).2.edit i (.setOutputName b)).2.steps := by
    apply List.ext_getElem?
    intro p
    rw [getElem?_edit_edit_setOutputName hij hi hj hac hbc,
      getElem?_edit_edit_setOutputName hij.symm hj hi hac.symm hda, Option.map_map, Option.map_map]
    congr 1
    funext step
    exact namingAt_comm hij hac hbc hda p step
  refine ⟨?_, ?_, outputNameAt_edit_setOutputName_self hj' d⟩
  · rw [endpoint_edit_edit, endpoint_edit_edit, ← hsteps]
  · rw [outputNameAt_edit_setOutputName_of_ne hj' d hij,
      outputNameAt_edit_setOutputName_self hi]

/-- Two results become `item`, the first one while the second one stands among the steps that use
    it. The first `user` is rebound before the last step, `row` is not. -/
theorem renames_commute_overlapping :
    let call (result : String) (references : List String) : Step :=
      .call { Call.blank with
        outputName := some result, arguments := references.map fun name => ⟨"in", .parameter name⟩ }
    let s : Session := .start .empty ⟨"", "", "", "",
      [call "user" [], call "row" ["user"], call "user" ["user", "row"], call "n" ["user", "row"]]⟩
    let both := ((s.edit 0 (.setOutputName "item")).2.edit 1 (.setOutputName "item")).2
    both.steps =
        [call "item" [], call "item" ["item"], call "user" ["item", "item"],
          call "n" ["user", "item"]] ∧
      both.endpoint =
        ((s.edit 1 (.setOutputName "item")).2.edit 0 (.setOutputName "item")).2.endpoint := by
  intro call s both
  have hi : outputNameAt s.steps 0 = some "user" := rfl
  have hj : outputNameAt s.steps 1 = some "row" := rfl
  have hcommute := renames_commute s (by decide) hi hj (by decide) (b := "item") (d := "item")
    (by decide) (by decide)
  exact ⟨by decide, hcommute.1⟩

/-- A result that is given a name which occurs in no later step can be given its old name again:
    the endpoint is then what it was. -/
theorem rename_undone (s : Session) {i : Nat} {old new : String}
    (hi : outputNameAt s.steps i = some old) (hold : old ≠ "") (hnew : new ≠ "")
    (hfresh : FreshAfter s.steps i new) :
    let renamed := (s.edit i (.setOutputName new)).2
    outputNameAt renamed.steps i = some new ∧
      (renamed.edit i (.setOutputName old)).2.endpoint = s.endpoint := by
  intro renamed
  have hname : outputNameAt renamed.steps i = some new := by
    rw [outputNameAt_edit_setOutputName_self hi, if_neg hnew]
  have hreached : ∀ p, Reached renamed.steps i new p ↔ Reached s.steps i new p := by
    refine reached_congr fun k hk => ?_
    rw [outputNameAt_edit_setOutputName_of_ne hi new (by omega)]
  have hsteps : (renamed.edit i (.setOutputName old)).2.steps = s.steps := by
    apply List.ext_getElem?
    intro p
    rw [getElem?_edit_setOutputName hname, getElem?_edit_setOutputName hi]
    cases hstep : s.steps[p]? with
    | none => rfl
    | some step => exact congrArg some (namingAt_back hi hold hfresh hreached hstep)
  refine ⟨hname, ?_⟩
  rw [endpoint_edit_edit, hsteps]
  rfl

/-- The call after the second `user` refers to that one. It is reached on the way back only, and
    keeps its reference. -/
theorem rename_undone_shadowed :
    let call (result : String) (references : List String) : Step :=
      .call { Call.blank with
        outputName := some result, arguments := references.map fun name => ⟨"in", .parameter name⟩ }
    let s : Session := .start .empty ⟨"", "", "", "",
      [call "total" [], call "user" ["total"], call "user" ["user"], call "n" ["user"]]⟩
    let renamed := (s.edit 1 (.setOutputName "total")).2
    FreshAfter s.steps 1 "total" ∧
      renamed.steps =
        [call "total" [], call "total" ["total"], call "user" ["total"], call "n" ["user"]] ∧
      (renamed.edit 1 (.setOutputName "user")).2.endpoint = s.endpoint := by
  intro call s renamed
  have hi : outputNameAt s.steps 1 = some "user" := rfl
  have hfresh : FreshAfter s.steps 1 "total" := by decide
  exact ⟨hfresh, by decide, (rename_undone s hi (by decide) (by decide) hfresh).2⟩

end Session

end CallFlow
