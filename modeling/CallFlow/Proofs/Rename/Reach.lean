import CallFlow.Session

/-!
# What a rename reaches

A rename after a position reaches the steps after it up to and including the first one that binds
the old name again. The calls it reaches have their references changed, all other steps stay as they
are, and no step changes its place, its kind or the name it binds.

## Main statements

- `CallFlow.getElem?_renameAfter_of_reached`, `CallFlow.getElem?_renameAfter_of_not_reached` — the
  steps after a rename, position by position
- `CallFlow.renameAfter_eq_self` — a rename that reports no change
- `CallFlow.Session.steps_edit_setOutputName` — the steps after the result of a call got another
  name
-/

namespace CallFlow

/-- The name to which the step at a position binds its result. -/
def outputNameAt (steps : List Step) (position : Nat) : Option String :=
  steps[position]?.bind Step.outputName

theorem lt_length_of_outputNameAt {steps : List Step} {position : Nat} {name : String}
    (h : outputNameAt steps position = some name) : position < steps.length := by
  obtain ⟨s, hs, -⟩ := Option.bind_eq_some_iff.mp h
  exact (List.getElem?_eq_some_iff.mp hs).1

/-- Whether a rename of `old` after `index` reaches a position: no step in between binds `old`. -/
def Reached (steps : List Step) (index : Nat) (old : String) (position : Nat) : Prop :=
  index < position ∧ ∀ k, index < k → k < position → outputNameAt steps k ≠ some old

instance (steps : List Step) (index : Nat) (old : String) (position : Nat) :
    Decidable (Reached steps index old position) :=
  decidable_of_iff
    (index < position ∧ ∀ k < position, index < k → outputNameAt steps k ≠ some old)
    (and_congr_right fun _ => forall_congr' fun _ => forall_comm)

/-- What a rename reaches depends only on where the old name is bound after its position. -/
theorem reached_congr {steps steps' : List Step} {index : Nat} {old : String}
    (h : ∀ k, index < k → (outputNameAt steps' k = some old ↔ outputNameAt steps k = some old))
    (position : Nat) : Reached steps' index old position ↔ Reached steps index old position := by
  unfold Reached
  refine and_congr_right fun _ => forall_congr' fun k => ?_
  exact imp_congr_right fun hk => imp_congr_right fun _ => not_congr (h k hk)

/-- A rename goes on past the steps that do not bind the old name. -/
theorem reached_succ_iff {steps : List Step} {index position : Nat} {old : String}
    (hlt : index < position) :
    Reached steps index old (position + 1) ↔
      Reached steps index old position ∧ outputNameAt steps position ≠ some old := by
  constructor
  · intro h
    exact ⟨⟨hlt, fun k hk hkp => h.2 k hk (by omega)⟩, h.2 position hlt (by omega)⟩
  · rintro ⟨h, hne⟩
    refine ⟨by omega, ?_⟩
    intro k hk hkp
    by_cases hkp : k < position
    · exact h.2 k hk hkp
    · rwa [show k = position by omega]

/-- A later position that a rename does not reach has a step before it that binds the old name. -/
theorem exists_of_not_reached {steps : List Step} {index position : Nat} {old : String}
    (hlt : index < position) (h : ¬Reached steps index old position) :
    ∃ k, index < k ∧ k < position ∧ outputNameAt steps k = some old := by
  simpa [Reached, hlt] using h

namespace Step

/-- Whether an argument of the step refers to a name. What a return refers to does not count. -/
def RefersTo (name : String) : Step → Prop
  | call c => ∃ a ∈ c.arguments, a.value = .parameter name
  | ret _ => False

instance (name : String) : (s : Step) → Decidable (s.RefersTo name)
  | call c => inferInstanceAs (Decidable (∃ a ∈ c.arguments, a.value = .parameter name))
  | ret _ => inferInstanceAs (Decidable False)

/-- A step in which a name does not occur: it neither binds the name nor refers to it. -/
def Avoids (name : String) (s : Step) : Prop :=
  s.outputName ≠ some name ∧ ¬s.RefersTo name

instance (name : String) (s : Step) : Decidable (s.Avoids name) :=
  inferInstanceAs (Decidable (_ ∧ _))

/-- The step with the references to `old` changed to `new`. A return keeps what it returns. -/
def renameReferences (old new : String) : Step → Step
  | call c => call (c.renameReferences old new)
  | ret r => ret r

/-- Changing a name to itself changes nothing. -/
theorem renameReferences_self (name : String) (s : Step) : s.renameReferences name name = s := by
  have hoperand : ∀ o : Operand, o.rename name name = o := by
    intro o
    cases o with
    | parameter n =>
      rw [Operand.rename]
      split
      · rename_i h; rw [h]
      · rfl
    | literal text => rfl
    | unset => rfl
  cases s with
  | call c => simp [renameReferences, Call.renameReferences, hoperand]
  | ret r => rfl

@[simp] theorem outputName_renameReferences (old new : String) (s : Step) :
    (s.renameReferences old new).outputName = s.outputName := by
  cases s <;> rfl

end Step

/-- A name that occurs in no step after a position. -/
def FreshAfter (steps : List Step) (index : Nat) (name : String) : Prop :=
  ∀ s ∈ steps.drop (index + 1), s.Avoids name

instance (steps : List Step) (index : Nat) (name : String) :
    Decidable (FreshAfter steps index name) :=
  inferInstanceAs (Decidable (∀ s ∈ _, _))

theorem FreshAfter.avoids {steps : List Step} {index k : Nat} {name : String} {s : Step}
    (h : FreshAfter steps index name) (hk : index < k) (hs : steps[k]? = some s) :
    s.Avoids name := by
  have hdrop : (steps.drop (index + 1))[k - (index + 1)]? = some s := by
    rwa [List.getElem?_drop, Nat.add_sub_cancel' hk]
  exact h s (List.mem_of_getElem? hdrop)

theorem FreshAfter.outputNameAt_ne {steps : List Step} {index k : Nat} {name : String}
    (h : FreshAfter steps index name) (hk : index < k) : outputNameAt steps k ≠ some name := by
  intro hname
  obtain ⟨s, hs, hname⟩ := Option.bind_eq_some_iff.mp hname
  exact (h.avoids hk hs).1 hname

theorem renameFrom_cons (old new : String) (position : Nat) (s : Step) (steps : List Step) :
    (renameFrom old new position (s :: steps)).1 =
      s.renameReferences old new ::
        if s.outputName = some old then steps
        else (renameFrom old new (position + 1) steps).1 := by
  cases s with
  | ret r => rw [renameFrom, Step.outputName, if_neg (by simp)]; rfl
  | call c =>
    rw [renameFrom, Step.outputName]
    split <;> rfl

theorem outputNameAt_cons_succ (s : Step) (steps : List Step) (p : Nat) :
    outputNameAt (s :: steps) (p + 1) = outputNameAt steps p := by
  rw [outputNameAt, List.getElem?_cons_succ, outputNameAt]

/-- Up to the first step that binds the old name, references are changed. -/
theorem getElem?_renameFrom_of_reached {old : String} (new : String) {steps : List Step} {p : Nat}
    (h : ∀ k < p, outputNameAt steps k ≠ some old) (position : Nat) :
    (renameFrom old new position steps).1[p]? = steps[p]?.map (Step.renameReferences old new) := by
  induction steps generalizing p position with
  | nil => rfl
  | cons s steps ih =>
    rw [renameFrom_cons]
    cases p with
    | zero => rfl
    | succ p =>
      have hs : s.outputName ≠ some old := h 0 (by omega)
      rw [if_neg hs, List.getElem?_cons_succ, List.getElem?_cons_succ]
      refine ih ?_ (position + 1)
      intro k hk
      rw [← outputNameAt_cons_succ s]
      exact h (k + 1) (by omega)

/-- After the first step that binds the old name, nothing is changed. -/
theorem getElem?_renameFrom_of_not_reached {old : String} (new : String) {steps : List Step}
    {p k : Nat} (hk : k < p) (h : outputNameAt steps k = some old) (position : Nat) :
    (renameFrom old new position steps).1[p]? = steps[p]? := by
  induction steps generalizing p k position with
  | nil => rfl
  | cons s steps ih =>
    rw [renameFrom_cons]
    obtain ⟨p, rfl⟩ := Nat.exists_eq_succ_of_ne_zero (show p ≠ 0 by omega)
    rw [List.getElem?_cons_succ, List.getElem?_cons_succ]
    -- Either this step binds the old name and the rename stops, or a later one does.
    split
    case isTrue => rfl
    case isFalse hs =>
      cases k with
      | zero => exact absurd h hs
      | succ k =>
        rw [outputNameAt_cons_succ] at h
        exact ih (by omega) h (position + 1)

theorem length_renameFrom (old new : String) (position : Nat) (steps : List Step) :
    (renameFrom old new position steps).1.length = steps.length := by
  induction steps generalizing position with
  | nil => rfl
  | cons s steps ih =>
    rw [renameFrom_cons, List.length_cons, List.length_cons]
    split
    · rfl
    · rw [ih]

theorem renameAfter_eq_append (steps : List Step) (index : Nat) (old new : String) :
    (renameAfter steps index old new).1 = steps.take (index + 1) ++
      (renameFrom old new (index + 1) (steps.drop (index + 1))).1 :=
  rfl

@[simp] theorem length_renameAfter (steps : List Step) (index : Nat) (old new : String) :
    (renameAfter steps index old new).1.length = steps.length := by
  rw [renameAfter_eq_append, List.length_append, length_renameFrom, ← List.length_append,
    List.take_append_drop]

/-- A rename leaves the steps up to its position as they are. -/
theorem getElem?_renameAfter_of_le {index p : Nat} (hp : p ≤ index) (steps : List Step)
    (old new : String) : (renameAfter steps index old new).1[p]? = steps[p]? := by
  by_cases hlength : p < steps.length
  · rw [renameAfter_eq_append, List.getElem?_append_left (by rw [List.length_take]; omega),
      List.getElem?_take_of_lt (by omega)]
  · rw [List.getElem?_eq_none (by rw [length_renameAfter]; omega),
      List.getElem?_eq_none (by omega)]

/-- After its position, a rename is a rename of the remaining steps. -/
theorem getElem?_renameAfter_of_lt {index p : Nat} (hp : index < p) (steps : List Step)
    (old new : String) :
    (renameAfter steps index old new).1[p]? =
      (renameFrom old new (index + 1) (steps.drop (index + 1))).1[p - (index + 1)]? := by
  by_cases hlength : index + 1 ≤ steps.length
  · have htake : (steps.take (index + 1)).length = index + 1 := by
      rw [List.length_take]
      omega
    rw [renameAfter_eq_append, List.getElem?_append_right (by omega), htake]
  · rw [List.getElem?_eq_none (by rw [length_renameAfter]; omega),
      List.getElem?_eq_none (by rw [length_renameFrom, List.length_drop]; omega)]

theorem outputNameAt_drop (steps : List Step) (n k : Nat) :
    outputNameAt (steps.drop n) k = outputNameAt steps (n + k) := by
  rw [outputNameAt, List.getElem?_drop, outputNameAt]

/-- A call that a rename reaches has its references changed. -/
theorem getElem?_renameAfter_of_reached {steps : List Step} {index p : Nat} {old : String}
    (h : Reached steps index old p) (new : String) :
    (renameAfter steps index old new).1[p]? = steps[p]?.map (Step.renameReferences old new) := by
  obtain ⟨hp, hbetween⟩ := h
  have hreached : ∀ k < p - (index + 1), outputNameAt (steps.drop (index + 1)) k ≠ some old := by
    intro k hk
    rw [outputNameAt_drop]
    exact hbetween (index + 1 + k) (by omega) (by omega)
  rw [getElem?_renameAfter_of_lt hp, getElem?_renameFrom_of_reached new hreached,
    List.getElem?_drop, Nat.add_sub_cancel' hp]

/-- A step that a rename does not reach stays as it is. -/
theorem getElem?_renameAfter_of_not_reached {steps : List Step} {index p : Nat} {old : String}
    (h : ¬Reached steps index old p) (new : String) :
    (renameAfter steps index old new).1[p]? = steps[p]? := by
  by_cases hp : p ≤ index
  · exact getElem?_renameAfter_of_le hp steps old new
  · have hlt : index < p := by omega
    obtain ⟨k, hk, hkp, hold⟩ := exists_of_not_reached hlt h
    have hold' : outputNameAt (steps.drop (index + 1)) (k - (index + 1)) = some old := by
      rwa [outputNameAt_drop, Nat.add_sub_cancel' hk]
    rw [getElem?_renameAfter_of_lt hlt, getElem?_renameFrom_of_not_reached new (by omega) hold',
      List.getElem?_drop, Nat.add_sub_cancel' hlt]

/-- A rename of references does not change which names are bound where. -/
theorem outputNameAt_renameAfter (steps : List Step) (index : Nat) (old new : String) (p : Nat) :
    outputNameAt (renameAfter steps index old new).1 p = outputNameAt steps p := by
  by_cases h : Reached steps index old p
  · rw [outputNameAt, getElem?_renameAfter_of_reached h new, outputNameAt]
    cases steps[p]? with
    | none => rfl
    | some s => exact s.outputName_renameReferences old new
  · rw [outputNameAt, getElem?_renameAfter_of_not_reached h new, outputNameAt]

/-! ## Renames that change nothing -/

theorem Operand.rename_of_ne {old : String} {o : Operand} (h : o ≠ .parameter old)
    (new : String) : o.rename old new = o := by
  cases o with
  | parameter name =>
    have hname : name ≠ old := fun heq => h (heq ▸ rfl)
    rw [rename, if_neg hname]
  | literal text => rfl
  | unset => rfl

/-- A step that does not refer to a name does not notice its rename. -/
theorem Step.renameReferences_of_not_refersTo {s : Step} {old : String} (h : ¬s.RefersTo old)
    (new : String) : s.renameReferences old new = s := by
  cases s with
  | call c =>
    have harguments : (c.arguments.map fun a => { a with value := a.value.rename old new }) =
        c.arguments := by
      refine (List.map_congr_left fun a ha => ?_).trans (List.map_id c.arguments)
      simp [Operand.rename_of_ne fun hvalue => h ⟨a, ha, hvalue⟩]
    rw [renameReferences, Call.renameReferences, harguments]
  | ret r => rfl

theorem Call.renameReferences_of_referenceCount {c : Call} {old : String}
    (h : c.referenceCount old = 0) (new : String) : c.renameReferences old new = c := by
  rw [referenceCount, List.countP_eq_zero] at h
  have hrefers : ¬(Step.call c).RefersTo old := by
    rintro ⟨a, ha, hvalue⟩
    exact h a ha (decide_eq_true hvalue)
  exact Step.call.inj (Step.renameReferences_of_not_refersTo hrefers new)

theorem renameFrom_eq_self {old new : String} {position : Nat} {steps : List Step}
    (h : (renameFrom old new position steps).2.changed = 0) :
    (renameFrom old new position steps).1 = steps := by
  induction steps generalizing position with
  | nil => rfl
  | cons s steps ih =>
    cases s with
    | ret r => exact congrArg (List.cons (.ret r)) (ih h)
    | call c =>
      rw [renameFrom] at h ⊢
      split at h
      · rename_i hold
        rw [if_pos hold, c.renameReferences_of_referenceCount h]
      · rename_i hold
        -- The count is that of this call and of the calls after it.
        obtain ⟨hcall, hrest⟩ := Nat.add_eq_zero_iff.mp h
        rw [if_neg hold, c.renameReferences_of_referenceCount hcall]
        exact congrArg (List.cons (.call c)) (ih hrest)

/-- A rename that reports no change has changed nothing. -/
theorem renameAfter_eq_self {steps : List Step} {index : Nat} {old new : String}
    (h : (renameAfter steps index old new).2.changed = 0) :
    (renameAfter steps index old new).1 = steps := by
  rw [renameAfter_eq_append, renameFrom_eq_self h, List.take_append_drop]

/-! ## Naming a result -/

/-- The steps after the result of the call at a position, bound to `old` so far, was bound to
    `new`. -/
def nameResult (steps : List Step) (index : Nat) (c : Call) (old new : String) : List Step :=
  (renameAfter (steps.set index (.call { c with outputName := some new })) index old new).1

section NameResult

variable {steps : List Step} {i p : Nat} {c : Call} {old : String}

@[simp] theorem length_nameResult (steps : List Step) (i : Nat) (c : Call) (old new : String) :
    (nameResult steps i c old new).length = steps.length := by
  rw [nameResult, length_renameAfter, List.length_set]

theorem outputNameAt_set_of_ne (h : p ≠ i) (steps : List Step) (s : Step) :
    outputNameAt (steps.set i s) p = outputNameAt steps p := by
  rw [outputNameAt, List.getElem?_set_ne h.symm, outputNameAt]

theorem outputNameAt_nameResult_self (hi : i < steps.length) (c : Call) (old new : String) :
    outputNameAt (nameResult steps i c old new) i = some new := by
  rw [nameResult, outputNameAt_renameAfter, outputNameAt, List.getElem?_set_self hi]
  rfl

theorem outputNameAt_nameResult_of_ne (h : p ≠ i) (steps : List Step) (c : Call)
    (old new : String) :
    outputNameAt (nameResult steps i c old new) p = outputNameAt steps p := by
  rw [nameResult, outputNameAt_renameAfter, outputNameAt_set_of_ne h]

theorem getElem?_nameResult_self (hi : i < steps.length) (c : Call) (old new : String) :
    (nameResult steps i c old new)[i]? = some (.call { c with outputName := some new }) := by
  rw [nameResult, getElem?_renameAfter_of_le (Nat.le_refl i), List.getElem?_set_self hi]

/-- What a rename reaches does not depend on the step at its position. -/
theorem reached_set_iff (steps : List Step) (s : Step) :
    Reached (steps.set i s) i old p ↔ Reached steps i old p := by
  refine reached_congr (fun k hk => ?_) p
  rw [outputNameAt_set_of_ne (by omega)]

theorem getElem?_nameResult_of_reached (h : Reached steps i old p) (c : Call) (new : String) :
    (nameResult steps i c old new)[p]? = steps[p]?.map (Step.renameReferences old new) := by
  have hne : i ≠ p := Nat.ne_of_lt h.1
  rw [nameResult, getElem?_renameAfter_of_reached ((reached_set_iff steps _).mpr h),
    List.getElem?_set_ne hne]

theorem getElem?_nameResult_of_not_reached (hne : p ≠ i) (h : ¬Reached steps i old p) (c : Call)
    (new : String) : (nameResult steps i c old new)[p]? = steps[p]? := by
  rw [nameResult, getElem?_renameAfter_of_not_reached (mt (reached_set_iff steps _).mp h),
    List.getElem?_set_ne hne.symm]

end NameResult

namespace Session

variable {s : Session} {i : Nat} {c : Call} {old new : String}

theorem catalog_edit (s : Session) (index : Nat) (e : Edit) :
    (s.edit index e).2.catalog = s.catalog := by
  rw [edit]
  split
  · rfl
  · dsimp only
    split
    · rfl
    · split <;> rfl

/-- Giving the result of a call another name renames the later references to it. -/
theorem steps_edit_setOutputName (hi : s.steps[i]? = some (.call c))
    (hold : c.outputName = some old) (hnew : new ≠ "") (hne : new ≠ old) :
    (s.edit i (.setOutputName new)).2.steps = nameResult s.steps i c old new := by
  have hafter : (Step.call c).apply s.catalog (s.scopeAt i) (.setOutputName new) =
      .call { c with outputName := some new } := by
    rw [Step.apply, Call.apply, if_neg hnew]
  have hchanged : Step.call { c with outputName := some new } ≠ .call c := by
    intro h
    have houtput := congrArg Step.outputName h
    simp [Step.outputName, hold, hne] at houtput
  have hrename : renameNeeded? (.call c) (.call { c with outputName := some new }) =
      some (old, new) := by
    simp [renameNeeded?, Step.outputName, hold, hne]
  rw [edit, hi]
  simp only [hafter, if_neg hchanged, hrename]
  rfl

/-- Giving the result of a call the name it has changes nothing. -/
theorem edit_setOutputName_self (hi : s.steps[i]? = some (.call c))
    (hold : c.outputName = some old) (hne : old ≠ "") :
    s.edit i (.setOutputName old) = (false, s) := by
  have hafter : (Step.call c).apply s.catalog (s.scopeAt i) (.setOutputName old) = .call c := by
    rw [Step.apply, Call.apply, if_neg hne, ← hold]
  rw [edit, hi]
  simp only [hafter, if_true]

end Session

end CallFlow
