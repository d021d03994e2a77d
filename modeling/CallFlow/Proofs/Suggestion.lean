import Mathlib.Data.List.Nodup
import CallFlow.Proofs.Hint.WellFormed
import CallFlow.Proofs.Session.Edit

/-!
# Suggestions and hints

The names suggested for an input of a call are those that can be put there without a hint about it.
Suggestions look at the scope, the edit changes the first argument of the input's name, and hints
look that argument up again, so the three have to mean the same argument and the same type. They do
as long as no other input has the name: the other arguments of the call have hints of their own,
which name other inputs.

## Main definitions

- `CallFlow.Problem.argument?` — the argument that a problem names

## Main statements

- `CallFlow.Call.mem_problems_naming_iff` — the problems of a call that name an input
- `CallFlow.Session.mem_suggestions_iff_no_hint` — suggested names are those without a hint
-/

namespace CallFlow

namespace Problem

/-- The input or argument that a problem names. -/
def argument? : Problem → Option String
  | missingArgument input => some input
  | unknownArgument argument => some argument
  | emptyParameter argument => some argument
  | unresolvedParameter argument _ => some argument
  | typeMismatch argument _ _ => some argument
  | noConfigSelected => none
  | configNotFound _ => none
  | noMethodSelected => none
  | methodNotFound _ _ => none
  | emptyReturn => none

end Problem

theorem argument?_of_mem_typeProblems {argument : String} {expected : Option ValueType}
    {found : ValueType} {p : Problem} (h : p ∈ typeProblems argument expected found) :
    p.argument? = some argument := by
  cases expected with
  | none => cases h
  | some type =>
    rw [typeProblems] at h
    split at h
    · cases h
    · rw [List.mem_singleton.mp h]
      rfl

theorem Operand.argument?_of_mem_problems {scope : Scope} {argument : String}
    {expected : Option ValueType} {o : Operand} {p : Problem}
    (h : p ∈ o.problems scope argument expected) : p.argument? = some argument := by
  cases o with
  | unset => cases h
  | literal text => exact argument?_of_mem_typeProblems h
  | parameter name =>
    rw [problems] at h
    split at h
    · rw [List.mem_singleton.mp h]
      rfl
    · split at h
      · rw [List.mem_singleton.mp h]
        rfl
      · exact argument?_of_mem_typeProblems h

/-- A name is presented as suggested exactly when it is suggested. -/
theorem Operand.presentation_eq_suggested_iff {expected : Option ValueType} {scope : Scope}
    {name : String} :
    (parameter name).presentation expected scope = .suggested ↔ name ∈ scope.suggest expected := by
  rw [presentation]
  split <;> simp_all

theorem Method.input?_of_mem {m : Method} {input : Pin} (hdistinct : (m.inputs.map Pin.name).Nodup)
    (hinput : input ∈ m.inputs) : m.input? input.name = some input := by
  cases hfound : m.input? input.name with
  | none =>
    have hnone := List.find?_eq_none.mp hfound input hinput
    simp at hnone
  | some found =>
    have hname : found.name = input.name := by simpa using List.find?_some hfound
    rw [List.inj_on_of_nodup_map hdistinct (List.mem_of_find?_eq_some hfound) hinput hname]

theorem Catalog.lookups_of_resolve {catalog : Catalog} {c : Call} {config : Config} {m : Method}
    (h : catalog.resolve c = .method config m) :
    catalog.config? c.configId = some config ∧ config.method? c.methodName = some m := by
  rw [resolve] at h
  split at h
  · cases h
  · rename_i found hconfig
    split at h
    · cases h
    · rename_i method hmethod
      cases h
      exact ⟨hconfig, hmethod⟩

/-! ## Problems that name an input -/

namespace Call

variable {catalog : Catalog} {scope : Scope} {m : Method} {c : Call}

theorem argument?_of_mem_inputProblems {input : Pin} {p : Problem}
    (h : p ∈ c.inputProblems scope input) : p.argument? = some input.name := by
  rw [inputProblems] at h
  split at h
  · rw [List.mem_singleton.mp h]
    rfl
  · rename_i a ha
    have hname : a.name = input.name := by simpa using List.find?_some ha
    rw [Operand.argument?_of_mem_problems h, hname]

theorem argument?_of_mem_unknownProblems {p : Problem} (h : p ∈ c.unknownProblems m) :
    ∃ name ∉ m.inputs.map Pin.name, p.argument? = some name := by
  obtain ⟨a, ha, rfl⟩ := List.mem_map.mp h
  have hunknown := (List.mem_filter.mp ha).2
  exact ⟨a.name, by simpa using hunknown, rfl⟩

/-- Of the problems of a call, those that name an input are those of the argument for it. -/
theorem mem_problems_naming_iff {config : Config} {input : Pin} {p : Problem}
    (hconfigId : c.configId ≠ "") (hmethodName : c.methodName ≠ "")
    (hresolve : catalog.resolve c = .method config m)
    (hdistinct : (m.inputs.map Pin.name).Nodup) (hinput : input ∈ m.inputs) :
    (p ∈ c.problems catalog scope ∧ p.argument? = some input.name) ↔
      p ∈ c.inputProblems scope input := by
  obtain ⟨hconfig, hmethod⟩ := Catalog.lookups_of_resolve hresolve
  rw [problems_of_method hconfigId hconfig hmethodName hmethod, List.mem_append, List.mem_flatMap]
  constructor
  · rintro ⟨⟨other, hother, hp⟩ | hp, hnamed⟩
    · -- Two inputs of one name are the same input.
      rw [argument?_of_mem_inputProblems hp] at hnamed
      rwa [← List.inj_on_of_nodup_map hdistinct hother hinput (Option.some.inj hnamed)]
    · obtain ⟨name, hname, heq⟩ := argument?_of_mem_unknownProblems hp
      rw [hnamed] at heq
      exact absurd (List.mem_map_of_mem hinput) (Option.some.inj heq ▸ hname)
  · intro hp
    exact ⟨.inl ⟨input, hinput, hp⟩, argument?_of_mem_inputProblems hp⟩

end Call

/-! ## Setting an argument -/

/-- The first argument of a name that was set is the one that was set. -/
theorem find?_setArgument_self (input : String) (value : Operand) (arguments : List Argument) :
    (setArgument input value arguments).find? (·.name = input) = some ⟨input, value⟩ := by
  induction arguments with
  | nil => simp [setArgument]
  | cons a arguments ih =>
    rw [setArgument]
    by_cases ha : a.name = input
    · simp [ha]
    · simp [ha, ih]

namespace Session

variable {s : Session} {i : Nat} {c : Call}

theorem steps_edit_setArgument (hi : s.steps[i]? = some (.call c)) (input : String)
    (value : Operand) :
    (s.edit i (.setArgument input value)).2.steps =
      s.steps.set i (.call { c with arguments := setArgument input value c.arguments }) := by
  rw [steps_edit hi]
  refine replaceStep_of_outputName_eq ?_ s.steps i
  rfl

/-- After the argument for an input was set, no hint about the call names the input exactly when
    what was set fits there. -/
theorem no_hint_naming_iff {config : Config} {m : Method} {input : Pin} {value : Operand}
    (hi : s.steps[i]? = some (.call c)) (hconfigId : c.configId ≠ "")
    (hmethodName : c.methodName ≠ "") (hresolve : s.catalog.resolve c = .method config m)
    (hdistinct : (m.inputs.map Pin.name).Nodup) (hinput : input ∈ m.inputs) :
    (∀ h ∈ (s.edit i (.setArgument input.name value)).2.hints,
        h.index = i → h.problem.argument? ≠ some input.name) ↔
      value.Fits (s.scopeAt i) input.type := by
  let after : Call := { c with arguments := setArgument input.name value c.arguments }
  have hargument : after.argument? input.name = some ⟨input.name, value⟩ :=
    find?_setArgument_self input.name value c.arguments
  have hfits : after.inputProblems (s.scopeAt i) input = [] ↔
      value.Fits (s.scopeAt i) input.type := by
    rw [Call.inputProblems_eq_nil_iff, hargument]
    simp
  have hafter : (s.edit i (.setArgument input.name value)).2.steps[i]? = some (.call after) := by
    rw [steps_edit_setArgument hi, List.getElem?_set_self (List.getElem?_eq_some_iff.mp hi).1]
  have hscope : s.catalog.scopeAt (s.edit i (.setArgument input.name value)).2.steps i =
      s.scopeAt i := by
    rw [steps_edit_setArgument hi, Catalog.scopeAt_set_of_le (Nat.le_refl i)]
    rfl
  -- A hint at the position is a problem that the edited call has in the scope there was before.
  have hhints : ∀ p, ⟨i, p⟩ ∈ (s.edit i (.setArgument input.name value)).2.hints ↔
      p ∈ after.problems s.catalog (s.scopeAt i) := by
    intro p
    rw [hints, catalog_edit, Catalog.mem_hints_iff, hafter, hscope]
    simp [Step.problems]
  have hnaming : ∀ p, (p ∈ after.problems s.catalog (s.scopeAt i) ∧
      p.argument? = some input.name) ↔ p ∈ after.inputProblems (s.scopeAt i) input :=
    fun p => Call.mem_problems_naming_iff (c := after) hconfigId hmethodName hresolve hdistinct
      hinput
  rw [← hfits]
  constructor
  · intro hnone
    rw [List.eq_nil_iff_forall_not_mem]
    intro p hp
    obtain ⟨hmem, hnamed⟩ := (hnaming p).mpr hp
    exact hnone ⟨i, p⟩ ((hhints p).mpr hmem) rfl hnamed
  · rintro hnil ⟨index, p⟩ hmem rfl hnamed
    have hp := (hnaming p).mp ⟨(hhints p).mp hmem, hnamed⟩
    rw [hnil] at hp
    cases hp

/-- A name is suggested for an input that expects an object exactly when it can be set there without
    a hint that names the input, and exactly when it is presented as suggested. -/
theorem mem_suggestions_iff_no_hint {config : Config} {m : Method} {input : Pin}
    {cls name : String} (hi : s.steps[i]? = some (.call c)) (hconfigId : c.configId ≠ "")
    (hmethodName : c.methodName ≠ "") (hresolve : s.catalog.resolve c = .method config m)
    (hdistinct : (m.inputs.map Pin.name).Nodup) (hinput : input ∈ m.inputs)
    (htype : input.type = some (.object cls)) (hname : name ≠ "") :
    (name ∈ s.suggestions i input.name ↔
        ∀ h ∈ (s.edit i (.setArgument input.name (.parameter name))).2.hints,
          h.index = i → h.problem.argument? ≠ some input.name) ∧
      (name ∈ s.suggestions i input.name ↔
        (Operand.parameter name).presentation input.type (s.scopeAt i) = .suggested) := by
  have hsuggestions : s.suggestions i input.name = (s.scopeAt i).suggest input.type := by
    simp only [suggestions, hi, hresolve, Method.input?_of_mem hdistinct hinput, Option.bind_some]
  have hfits : (Operand.parameter name).Fits (s.scopeAt i) input.type ↔
      name ∈ s.suggestions i input.name := by
    rw [hsuggestions, htype, Scope.mem_suggest_iff]
    constructor
    · intro h
      cases h with
      | parameter _ hfound hexpected => rw [hfound, hexpected _ rfl]
    · intro hfound
      exact .parameter hname hfound fun type heq => Option.some.inj heq
  constructor
  · rw [← hfits, no_hint_naming_iff hi hconfigId hmethodName hresolve hdistinct hinput]
  · rw [Operand.presentation_eq_suggested_iff, hsuggestions]

/-- A row is bound to `user`, and one was bound to `row` before that name got a text. The call to be
    edited has two arguments for its input and one for none. Only `user` is suggested, and only the
    other name leaves a hint about the input. -/
theorem mem_suggestions_iff_no_hint_rebound :
    let input : Pin := ⟨"of", "", some (.object "Row")⟩
    let count : Method := ⟨"count", "", [input, ⟨"by", "", some .text⟩], [⟨"", "", some .text⟩]⟩
    let config : Config :=
      ⟨"db", "", "", "", [⟨"find", "", [], [⟨"", "", some (.object "Row")⟩]⟩, count]⟩
    let find (result : String) : Step := .call ⟨"", "db", "find", some result, []⟩
    let call : Call := ⟨"", "db", "count", some "row",
      [⟨"of", .literal ""⟩, ⟨"old", .unset⟩, ⟨"of", .parameter "user"⟩]⟩
    let s : Session := .start ⟨[config]⟩ ⟨"", "", "", "",
      [find "row", find "user", .call call, .call call]⟩
    let hintsNaming (name : String) : List Hint :=
      (s.edit 3 (.setArgument "of" (.parameter name))).2.hints.filter fun h =>
        h.index = 3 ∧ h.problem.argument? = some "of"
    s.catalog.resolve call = .method config count ∧ (count.inputs.map Pin.name).Nodup ∧
      s.suggestions 3 "of" = ["user"] ∧ hintsNaming "user" = [] ∧
      hintsNaming "row" = [⟨3, .typeMismatch "of" (.object "Row") .text⟩] ∧
      (Operand.parameter "user").presentation input.type (s.scopeAt 3) = .suggested := by
  intro input count config find call s hintsNaming
  have hresolve : s.catalog.resolve call = .method config count := by decide
  have hdistinct : (count.inputs.map Pin.name).Nodup := by decide
  have hsuggestions : s.suggestions 3 "of" = ["user"] := by decide
  have huser : "user" ∈ s.suggestions 3 "of" := by simp [hsuggestions]
  obtain ⟨hhints, hpresented⟩ := mem_suggestions_iff_no_hint (s := s) (i := 3) (c := call) rfl
    (by decide) (by decide) hresolve hdistinct List.mem_cons_self rfl
    (show "user" ≠ "" by decide)
  have hnone : hintsNaming "user" = [] := by
    refine List.filter_eq_nil_iff.mpr ?_
    intro h hmem hnaming
    obtain ⟨hindex, hnamed⟩ := of_decide_eq_true hnaming
    exact hhints.mp huser h hmem hindex hnamed
  exact ⟨hresolve, hdistinct, hsuggestions, hnone, by decide, hpresented.mp huser⟩

end Session

end CallFlow
