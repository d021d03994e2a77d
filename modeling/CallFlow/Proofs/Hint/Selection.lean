import CallFlow.Proofs.Suggestion

/-!
# Hints about what is selected

What a call has selected is decided twice. The lookup compares texts, so it also finds a config without
an identifier or a method without a name, if the catalog declares one. The hints take an empty
identifier or name for a choice that was not made yet, and look nothing up. For all other calls they
agree: there is a hint about the selection exactly if the lookup finds no method. Such a hint is the only
one about the call, and without it the arguments are looked at.

## Main definitions

- `CallFlow.Problem.isAboutSelection` — problems with what a call has selected

## Main statements

- `CallFlow.Call.problems_cases` — a call has one problem with its selection, or those of its arguments
- `CallFlow.Catalog.selection_hint_iff` — when there is a hint about the selection
- `CallFlow.Catalog.selection_hint_despite_lookup` — a method without an identifier in front of it
-/

namespace CallFlow

namespace Problem

/-- Whether a problem says that no config or no method is selected, or that it is not known. -/
def isAboutSelection : Problem → Bool
  | noConfigSelected => true
  | configNotFound _ => true
  | noMethodSelected => true
  | methodNotFound _ _ => true
  | _ => false

theorem isAboutSelection_of_argument? {p : Problem} {argument : String}
    (h : p.argument? = some argument) : p.isAboutSelection = false := by
  cases p <;> simp [argument?, isAboutSelection] at h ⊢

end Problem

namespace Call

/-- The problems of the arguments are none of the selection. -/
theorem isAboutSelection_of_mem_argumentProblems {scope : Scope} {m : Method} {c : Call} {p : Problem}
    (h : p ∈ m.inputs.flatMap (c.inputProblems scope) ++ c.unknownProblems m) :
    p.isAboutSelection = false := by
  rcases List.mem_append.mp h with hinput | hunknown
  · obtain ⟨input, -, hp⟩ := List.mem_flatMap.mp hinput
    exact Problem.isAboutSelection_of_argument? (argument?_of_mem_inputProblems hp)
  · obtain ⟨name, -, hname⟩ := argument?_of_mem_unknownProblems hunknown
    exact Problem.isAboutSelection_of_argument? hname

/-- Either a call has one problem, which is with its selection, and an identifier or a name is empty or
    the lookup finds no method; or none of these holds and the problems are those of its arguments. -/
theorem problems_cases (catalog : Catalog) (scope : Scope) (c : Call) :
    (∃ p : Problem, p.isAboutSelection = true ∧ c.problems catalog scope = [p] ∧
        (c.configId = "" ∨ c.methodName = "" ∨ ∀ config m, catalog.resolve c ≠ .method config m)) ∨
      ∃ config m, c.configId ≠ "" ∧ c.methodName ≠ "" ∧ catalog.resolve c = .method config m ∧
        c.problems catalog scope =
          m.inputs.flatMap (c.inputProblems scope) ++ c.unknownProblems m := by
  by_cases hconfigId : c.configId = ""
  · exact .inl ⟨.noConfigSelected, rfl, by simp [problems, hconfigId], .inl hconfigId⟩
  cases hconfig : catalog.config? c.configId with
  | none =>
    refine .inl ⟨.configNotFound c.configId, rfl, by simp [problems, hconfigId, hconfig], ?_⟩
    exact .inr (.inr fun config m => by simp [Catalog.resolve, hconfig])
  | some config =>
    by_cases hmethodName : c.methodName = ""
    · refine .inl ⟨.noMethodSelected, rfl, ?_, .inr (.inl hmethodName)⟩
      simp [problems, hconfigId, hconfig, hmethodName]
    cases hmethod : config.method? c.methodName with
    | none =>
      refine .inl ⟨.methodNotFound c.configId c.methodName, rfl, ?_, ?_⟩
      · simp [problems, hconfigId, hconfig, hmethodName, hmethod]
      · exact .inr (.inr fun config m => by simp [Catalog.resolve, hconfig, hmethod])
    | some m =>
      have hresolve : catalog.resolve c = .method config m := by
        simp [Catalog.resolve, hconfig, hmethod]
      exact .inr ⟨config, m, hconfigId, hmethodName, hresolve,
        problems_of_method hconfigId hconfig hmethodName hmethod⟩

end Call

namespace Catalog

variable (catalog : Catalog) {steps : List Step} {k : Nat} {c : Call}

/-- The hints about a call are its problems in the scope in front of it. -/
theorem filter_hints_of_call (hcall : steps[k]? = some (.call c)) :
    (catalog.hints steps).filter (·.index = k) =
      (c.problems catalog (catalog.scopeAt steps k)).map (Hint.mk k) := by
  rw [filter_hints_eq_hintsAt, hintsAt, hcall]
  rfl

theorem mem_hints_of_call_iff (hcall : steps[k]? = some (.call c)) {h : Hint} :
    h ∈ catalog.hints steps ∧ h.index = k ↔
      ∃ p ∈ c.problems catalog (catalog.scopeAt steps k), Hint.mk k p = h := by
  rw [← List.mem_map, ← catalog.filter_hints_of_call hcall, List.mem_filter, decide_eq_true_eq]

/-- There is a hint about the selection of a call exactly if its config or its method has an empty
    identifier or name, or the lookup finds no method. It is the only hint about the call then; otherwise
    the hints are those about the arguments for the method that the lookup finds. -/
theorem selection_hint_iff (steps : List Step) {k : Nat} {c : Call}
    (hcall : steps[k]? = some (.call c)) :
    ((∃ h ∈ catalog.hints steps, h.index = k ∧ h.problem.isAboutSelection = true) ↔
        c.configId = "" ∨ c.methodName = "" ∨ ∀ config m, catalog.resolve c ≠ .method config m) ∧
      (∀ h ∈ catalog.hints steps, h.index = k → h.problem.isAboutSelection = true →
        (catalog.hints steps).filter (·.index = k) = [h]) ∧
      ∀ config m, c.configId ≠ "" → c.methodName ≠ "" → catalog.resolve c = .method config m →
        (catalog.hints steps).filter (·.index = k) =
          (m.inputs.flatMap (c.inputProblems (catalog.scopeAt steps k)) ++ c.unknownProblems m).map
            (Hint.mk k) := by
  rw [catalog.filter_hints_of_call hcall]
  have hmem := fun h => catalog.mem_hints_of_call_iff hcall (h := h)
  rcases c.problems_cases catalog (catalog.scopeAt steps k) with
    ⟨p, hp, hproblems, hopen⟩ | ⟨config, m, hconfigId, hmethodName, hresolve, hproblems⟩
  · simp only [hproblems, List.mem_singleton, exists_eq_left] at hmem
    refine ⟨iff_of_true ?_ hopen, ?_, ?_⟩
    · obtain ⟨hhint, hindex⟩ := (hmem ⟨k, p⟩).mpr rfl
      exact ⟨_, hhint, hindex, hp⟩
    · intro h hhint hindex _
      rw [hproblems, ← (hmem h).mp ⟨hhint, hindex⟩]
      rfl
    · intro config m hconfigId hmethodName hresolve
      rcases hopen with hempty | hempty | hnone
      · exact absurd hempty hconfigId
      · exact absurd hempty hmethodName
      · exact absurd hresolve (hnone config m)
  · -- No hint about the call is about its selection.
    have hnone : ∀ h ∈ catalog.hints steps, h.index = k → h.problem.isAboutSelection = false := by
      intro h hhint hindex
      obtain ⟨p, hp, rfl⟩ := (hmem h).mp ⟨hhint, hindex⟩
      exact Call.isAboutSelection_of_mem_argumentProblems (hproblems ▸ hp)
    refine ⟨iff_of_false ?_ ?_, ?_, ?_⟩
    · rintro ⟨h, hhint, hindex, habout⟩
      simp [hnone h hhint hindex] at habout
    · rintro (hempty | hempty | hfound)
      · exact hconfigId hempty
      · exact hmethodName hempty
      · exact hfound config m hresolve
    · intro h hhint hindex habout
      simp [hnone h hhint hindex] at habout
    · intro config' m' _ _ hresolve'
      cases hresolve.symm.trans hresolve'
      rw [hproblems]

/-- The second call has selected a method that the config does not declare, and it binds the name of the
    first one; the first one has an argument too many. -/
theorem selection_hint_iff_mixed :
    let find : Method := ⟨"find", "", [], [⟨"user", "", some .text⟩]⟩
    let catalog : Catalog := ⟨[⟨"db", "", "", "", [find]⟩]⟩
    let steps : List Step := [.call ⟨"", "db", "find", some "user", [⟨"key", .unset⟩]⟩,
      .call ⟨"", "db", "drop", some "user", [⟨"key", .parameter "user"⟩]⟩]
    steps[1]? = some (.call ⟨"", "db", "drop", some "user", [⟨"key", .parameter "user"⟩]⟩) ∧
      (∃ h ∈ catalog.hints steps, h.index = 1 ∧ h.problem.isAboutSelection = true) ∧
      (catalog.hints steps).filter (·.index = 1) = [⟨1, .methodNotFound "db" "drop"⟩] ∧
      ¬(∃ h ∈ catalog.hints steps, h.index = 0 ∧ h.problem.isAboutSelection = true) ∧
      (catalog.hints steps).filter (·.index = 0) = [⟨0, .unknownArgument "key"⟩] := by
  intro find catalog steps
  obtain ⟨hiff, honly, -⟩ := catalog.selection_hint_iff steps (k := 1) rfl
  obtain ⟨hiff', -, hchecked⟩ := catalog.selection_hint_iff steps (k := 0) rfl
  have hresolve : catalog.resolve ⟨"", "db", "drop", some "user", [⟨"key", .parameter "user"⟩]⟩ =
      .configOnly ⟨"db", "", "", "", [find]⟩ := by decide
  have hresolve' : catalog.resolve ⟨"", "db", "find", some "user", [⟨"key", .unset⟩]⟩ =
      .method ⟨"db", "", "", "", [find]⟩ find := by decide
  refine ⟨rfl, hiff.mpr (.inr (.inr fun config m => by simp [hresolve])),
    honly _ (by decide) rfl rfl, fun h => ?_, hchecked _ find (by decide) (by decide) hresolve'⟩
  rcases hiff'.mp h with hempty | hempty | hnone
  · exact absurd hempty (by decide)
  · exact absurd hempty (by decide)
  · exact hnone _ _ hresolve'

/-- A call without an identifier for its config: the catalog declares such a config, so the lookup finds
    the method and the result is bound, and yet the hint says that no config is selected. -/
theorem selection_hint_despite_lookup :
    let find : Method := ⟨"find", "", [], [⟨"user", "", some (.object "Row")⟩]⟩
    let users : Config := ⟨"", "Users", "", "", [find]⟩
    let c : Call := ⟨"a", "", "find", some "user", []⟩
    Catalog.resolve ⟨[users]⟩ c = .method users find ∧
      (Step.call c).binding? ⟨[users]⟩ = some ("user", .object "Row") ∧
      Catalog.hints ⟨[users]⟩ [.call c] = [⟨0, .noConfigSelected⟩] ∧
      ¬((∃ h ∈ Catalog.hints ⟨[users]⟩ [.call c],
          h.index = 0 ∧ h.problem.isAboutSelection = true) ↔
        ∀ config m, Catalog.resolve ⟨[users]⟩ c ≠ .method config m) := by
  intro find users c
  have hresolve : Catalog.resolve ⟨[users]⟩ c = .method users find := by decide
  refine ⟨hresolve, by decide, by decide, fun h => ?_⟩
  exact h.mp (by decide) users find hresolve

end Catalog

end CallFlow
