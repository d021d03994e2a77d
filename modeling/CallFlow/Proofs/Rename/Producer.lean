import Mathlib.Data.List.Forall2
import CallFlow.Proofs.Rename.Reach

/-!
# Producers of references

The producer of a name at a position is the last step before it that binds the name, whatever the
catalog says about the step. Giving the result of a call a fresh name changes how references are
spelt, but every reference keeps its producer: the references to the call itself follow it, and
those to other steps of the same name are not touched.

## Main statements

- `CallFlow.producer?_eq_some_iff` — what a producer is
- `CallFlow.Session.sameUses_edit_setOutputName` — a fresh name keeps all producers
-/

namespace CallFlow

/-- The last step before a position that binds a name. -/
def producer? (steps : List Step) (name : String) : Nat → Option Nat
  | 0 => none
  | position + 1 =>
    if outputNameAt steps position = some name then some position
    else producer? steps name position

/-- The producer is the greatest position below the given one at which the name is bound. -/
theorem producer?_eq_some_iff {steps : List Step} {name : String} {position k : Nat} :
    producer? steps name position = some k ↔
      k < position ∧ outputNameAt steps k = some name ∧
        ∀ m, k < m → m < position → outputNameAt steps m ≠ some name := by
  induction position with
  | zero => simp [producer?]
  | succ position ih =>
    rw [producer?]
    split
    case isTrue hbound =>
      constructor
      · intro h
        cases h
        exact ⟨by omega, hbound, fun m hkm hm => by omega⟩
      · rintro ⟨hk, -, hlast⟩
        by_cases hlt : k < position
        · exact absurd hbound (hlast position hlt (by omega))
        · rw [show position = k by omega]
    case isFalse hfree =>
      rw [ih]
      constructor
      · rintro ⟨hk, hname, hlast⟩
        refine ⟨by omega, hname, ?_⟩
        intro m hkm hm
        by_cases hlt : m < position
        · exact hlast m hkm hlt
        · rwa [show m = position by omega]
      · rintro ⟨hk, hname, hlast⟩
        have hne : k ≠ position := fun hk => hfree (hk ▸ hname)
        exact ⟨by omega, hname, fun m hkm hm => hlast m hkm (by omega)⟩

/-- A producer depends only on where the name is bound. -/
theorem producer?_congr {steps steps' : List Step} {name : String} {position : Nat}
    (h : ∀ k < position, outputNameAt steps' k = some name ↔ outputNameAt steps k = some name) :
    producer? steps' name position = producer? steps name position := by
  induction position with
  | zero => rfl
  | succ position ih =>
    have hrest := ih fun k hk => h k (by omega)
    simp only [producer?, h position (by omega), hrest]

/-- Nothing before a step that binds the name matters for the producer. -/
theorem producer?_congr_above {steps steps' : List Step} {name : String} {k position : Nat}
    (hk : k < position) (hname : outputNameAt steps k = some name)
    (h : ∀ m, k ≤ m → m < position → outputNameAt steps' m = outputNameAt steps m) :
    producer? steps' name position = producer? steps name position := by
  induction position with
  | zero => omega
  | succ position ih =>
    rw [producer?, producer?, h position (by omega) (by omega)]
    by_cases hlt : k < position
    · rw [ih hlt fun m hkm hm => h m hkm (by omega)]
    · rw [← show k = position by omega, if_pos hname, if_pos hname]

/-- Two operands at a position of two lists of steps pass on the same value: what one step produced,
    one literal, or nothing yet. -/
def SameValue (steps steps' : List Step) (position : Nat) : Operand → Operand → Prop
  | .parameter name, .parameter name' =>
    producer? steps' name' position = producer? steps name position
  | .literal text, .literal text' => text' = text
  | .unset, .unset => True
  | _, _ => False

/-- Two arguments of one name pass on the same value. -/
def SameUse (steps steps' : List Step) (position : Nat) (a a' : Argument) : Prop :=
  a'.name = a.name ∧ SameValue steps steps' position a.value a'.value

/-- Two steps at a position of two lists of steps are of one kind and use the same values. A return
    is the same altogether. -/
def SameUses (steps steps' : List Step) (position : Nat) : Step → Step → Prop
  | .call c, .call c' => List.Forall₂ (SameUse steps steps' position) c.arguments c'.arguments
  | .ret r, .ret r' => r' = r
  | _, _ => False

/-- Changing the name `old` to `new` keeps the values that a step uses if it keeps the producers of
    its references. -/
theorem sameUses_renameReferences {steps steps' : List Step} {position : Nat} {old new : String}
    {s : Step} (h : ∀ name, s.RefersTo name →
      producer? steps' (if name = old then new else name) position =
        producer? steps name position) :
    SameUses steps steps' position s (s.renameReferences old new) := by
  cases s with
  | ret r => exact rfl
  | call c =>
    refine List.forall₂_map_right_iff.mpr (List.forall₂_same.mpr ?_)
    intro a ha
    refine ⟨rfl, ?_⟩
    cases hvalue : a.value with
    | parameter name => exact h name ⟨a, ha, hvalue⟩
    | literal text => exact rfl
    | unset => exact trivial

/-- A step that stays as it is uses the same values if its references keep their producers. -/
theorem sameUses_self {steps steps' : List Step} {position : Nat} {s : Step}
    (h : ∀ name, s.RefersTo name →
      producer? steps' name position = producer? steps name position) :
    SameUses steps steps' position s s := by
  have hself : SameUses steps steps' position s (s.renameReferences "" "") := by
    refine sameUses_renameReferences fun name hname => ?_
    rw [← h name hname]
    split
    · rename_i hempty; rw [hempty]
    · rfl
  rwa [s.renameReferences_self] at hself

/-! ## A fresh name -/

section Fresh

variable {steps : List Step} {i p : Nat} {c : Call} {old new name : String}

/-- The producers at positions up to that of the call stay. -/
theorem producer?_nameResult_of_le (hp : p ≤ i) :
    producer? (nameResult steps i c old new) name p = producer? steps name p := by
  refine producer?_congr fun k hk => ?_
  rw [outputNameAt_nameResult_of_ne (by omega)]

/-- The producers of names other than the two stay. -/
theorem producer?_nameResult_of_ne (hi : outputNameAt steps i = some old) (hold : name ≠ old)
    (hnew : name ≠ new) :
    producer? (nameResult steps i c old new) name p = producer? steps name p := by
  refine producer?_congr fun k _ => ?_
  by_cases hk : k = i
  · rw [hk, outputNameAt_nameResult_self (lt_length_of_outputNameAt hi), hi]
    simp [hold.symm, hnew.symm]
  · rw [outputNameAt_nameResult_of_ne hk]

/-- Where a rename reaches, the call is the producer of the old name before and of the new name
    after. -/
theorem producer?_nameResult_of_reached (hi : outputNameAt steps i = some old)
    (h : Reached steps i old p) (hfresh : FreshAfter steps i new) :
    producer? (nameResult steps i c old new) new p = producer? steps old p := by
  have hbefore : producer? steps old p = some i := producer?_eq_some_iff.mpr ⟨h.1, hi, h.2⟩
  rw [hbefore, producer?_eq_some_iff]
  refine ⟨h.1, outputNameAt_nameResult_self (lt_length_of_outputNameAt hi) c old new, ?_⟩
  intro k hk _
  rw [outputNameAt_nameResult_of_ne (by omega)]
  exact hfresh.outputNameAt_ne hk

/-- Where a rename does not reach, the old name has been bound again, and its producer stays. -/
theorem producer?_nameResult_of_not_reached (hp : i < p) (h : ¬Reached steps i old p) :
    producer? (nameResult steps i c old new) old p = producer? steps old p := by
  obtain ⟨k, hk, hkp, hname⟩ := exists_of_not_reached hp h
  refine producer?_congr_above hkp hname ?_
  intro m hm _
  rw [outputNameAt_nameResult_of_ne (by omega)]

/-- A step after the call keeps the values it uses. -/
theorem sameUses_nameResult_of_lt (hi : outputNameAt steps i = some old)
    (hfresh : FreshAfter steps i new) (hp : i < p) {s s' : Step} (hs : steps[p]? = some s)
    (hs' : (nameResult steps i c old new)[p]? = some s') :
    SameUses steps (nameResult steps i c old new) p s s' := by
  have havoids : ¬s.RefersTo new := (hfresh.avoids hp hs).2
  have hne : ∀ {name}, s.RefersTo name → name ≠ new := by
    rintro name hrefers rfl
    exact havoids hrefers
  by_cases h : Reached steps i old p
  -- Within reach the references to the call follow it; out of reach they are to a later step.
  · rw [getElem?_nameResult_of_reached h, hs] at hs'
    cases hs'
    refine sameUses_renameReferences fun name hrefers => ?_
    split
    case isTrue hname =>
      rw [hname]
      exact producer?_nameResult_of_reached hi h hfresh
    case isFalse hname => exact producer?_nameResult_of_ne hi hname (hne hrefers)
  · rw [getElem?_nameResult_of_not_reached (by omega) h, hs] at hs'
    cases hs'
    refine sameUses_self fun name hrefers => ?_
    by_cases hname : name = old
    · rw [hname]
      exact producer?_nameResult_of_not_reached hp h
    · exact producer?_nameResult_of_ne hi hname (hne hrefers)

/-- A step up to the call keeps the values it uses. -/
theorem sameUses_nameResult_of_le (hi : steps[i]? = some (.call c)) (hp : p ≤ i) {s s' : Step}
    (hs : steps[p]? = some s) (hs' : (nameResult steps i c old new)[p]? = some s') :
    SameUses steps (nameResult steps i c old new) p s s' := by
  have hself : SameUses steps (nameResult steps i c old new) p s s :=
    sameUses_self fun name _ => producer?_nameResult_of_le hp
  by_cases hpi : p = i
  · subst hpi
    have hlength : p < steps.length := (List.getElem?_eq_some_iff.mp hi).1
    rw [getElem?_nameResult_self hlength] at hs'
    rw [hi] at hs
    cases hs
    cases hs'
    -- The call itself gets another output name; its arguments stay.
    exact hself
  · have hreached : ¬Reached steps i old p := fun h => absurd h.1 (by omega)
    rw [getElem?_nameResult_of_not_reached hpi hreached, hs] at hs'
    cases hs'
    exact hself

end Fresh

namespace Session

/-- Giving the result of a call a name that does not occur later keeps the values that the steps
    use: at every position the step is of the same kind and its arguments keep their names, their
    literals and the producers of their references. -/
theorem sameUses_edit_setOutputName (s : Session) {i : Nat} {c : Call} {old new : String}
    (hi : s.steps[i]? = some (.call c)) (hold : c.outputName = some old) (hnew : new ≠ "")
    (hfresh : FreshAfter s.steps i new) :
    (s.edit i (.setOutputName new)).2.steps.length = s.steps.length ∧
      ∀ p before after, s.steps[p]? = some before →
        (s.edit i (.setOutputName new)).2.steps[p]? = some after →
          SameUses s.steps (s.edit i (.setOutputName new)).2.steps p before after := by
  by_cases hne : new = old
  · rw [hne, edit_setOutputName_self hi hold (hne ▸ hnew)]
    refine ⟨rfl, ?_⟩
    intro p before after hbefore hafter
    rw [hbefore] at hafter
    cases hafter
    exact sameUses_self fun _ _ => rfl
  · rw [steps_edit_setOutputName hi hold hnew hne]
    refine ⟨length_nameResult s.steps i c old new, ?_⟩
    intro p before after hbefore hafter
    have hname : outputNameAt s.steps i = some old := by rw [outputNameAt, hi]; exact hold
    by_cases hp : p ≤ i
    · exact sameUses_nameResult_of_le hi hp hbefore hafter
    · exact sameUses_nameResult_of_lt hname hfresh (by omega) hbefore hafter

/-- The first `user` becomes `total`, a name that an earlier step has too. The reference of the
    second `user` follows, the reference after it stays. -/
theorem sameUses_edit_setOutputName_shadowed :
    let call (result : String) (references : List String) : Step :=
      .call { Call.blank with
        outputName := some result, arguments := references.map fun name => ⟨"in", .parameter name⟩ }
    let s : Session := .start .empty ⟨"", "", "", "",
      [call "total" [], call "user" ["total"], call "user" ["user"], call "item" ["user"]]⟩
    let after :=
      [call "total" [], call "total" ["total"], call "user" ["total"], call "item" ["user"]]
    (s.edit 1 (.setOutputName "total")).2.steps = after ∧ FreshAfter s.steps 1 "total" ∧
      SameUses s.steps after 2 (call "user" ["user"]) (call "user" ["total"]) ∧
        SameUses s.steps after 3 (call "item" ["user"]) (call "item" ["user"]) := by
  intro call s after
  have hsteps : (s.edit 1 (.setOutputName "total")).2.steps = after := by decide
  have hfresh : FreshAfter s.steps 1 "total" := by decide
  have huses := (sameUses_edit_setOutputName s (i := 1) rfl rfl (by decide) hfresh).2
  rw [hsteps] at huses
  exact ⟨hsteps, hfresh, huses 2 _ _ rfl rfl, huses 3 _ _ rfl rfl⟩

end Session

end CallFlow
