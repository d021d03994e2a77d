import CallFlow.Proofs.Hint

/-!
# Steps without problems

A step is well formed when what it says fits the catalog and the scope in front of it. The rules are
stated here without regard to how hints are found: which hint comes first, and when the search for
more ends. A list of steps has no hints exactly when each of its steps is well formed where it
stands.

## Main definitions

- `CallFlow.Operand.Fits` — an operand that can be passed on where a type may be expected
- `CallFlow.Step.WellFormed` — a step that fits the catalog and the scope in front of it

## Main statements

- `CallFlow.Step.problems_eq_nil_iff` — a step without problems is a well-formed one
- `CallFlow.Catalog.hints_eq_nil_iff_wellFormed` — the same of lists of steps
-/

namespace CallFlow

/-- An operand that can be passed on where a type may be expected. What is not set yet fits
    anywhere. -/
inductive Operand.Fits (scope : Scope) (expected : Option ValueType) : Operand → Prop
  | unset : Fits scope expected .unset
  | literal {text : String} (htype : expected = none ∨ expected = some .text) :
      Fits scope expected (.literal text)
  | parameter {name : String} {found : ValueType} (hname : name ≠ "")
      (hfound : scope.get? name = some found)
      (htype : ∀ type, expected = some type → found = type) :
      Fits scope expected (.parameter name)

/-- The arguments of a call are for inputs of the method, and the first one for each input fits. -/
structure Call.Matches (scope : Scope) (m : Method) (c : Call) : Prop where
  declared : ∀ a ∈ c.arguments, ∃ input ∈ m.inputs, input.name = a.name
  given : ∀ input ∈ m.inputs, ∃ a, c.argument? input.name = some a ∧ a.value.Fits scope input.type

/-- A step that fits the catalog and the scope in front of it. A return has to return something. -/
inductive Step.WellFormed (catalog : Catalog) (scope : Scope) : Step → Prop
  | call {c : Call} {config : Config} {m : Method} (hconfigId : c.configId ≠ "")
      (hconfig : catalog.config? c.configId = some config) (hmethodName : c.methodName ≠ "")
      (hmethod : config.method? c.methodName = some m) (hmatches : c.Matches scope m) :
      WellFormed catalog scope (.call c)
  | ret {r : Return} (hset : r.argument.value ≠ .unset)
      (hfits : r.argument.value.Fits scope none) : WellFormed catalog scope (.ret r)

/-! ## Operands -/

theorem typeProblems_eq_nil_iff {argument : String} {expected : Option ValueType}
    {found : ValueType} :
    typeProblems argument expected found = [] ↔ ∀ type, expected = some type → found = type := by
  cases expected with
  | none => simp [typeProblems]
  | some type =>
    by_cases h : type = found
    · simp [typeProblems, h]
    · simp [typeProblems, h, Ne.symm h]

theorem Operand.problems_eq_nil_iff {scope : Scope} {argument : String}
    {expected : Option ValueType} {o : Operand} :
    o.problems scope argument expected = [] ↔ o.Fits scope expected := by
  constructor
  · intro h
    cases o with
    | unset => exact .unset
    | literal text =>
      have htype := typeProblems_eq_nil_iff.mp h
      cases expected with
      | none => exact .literal (.inl rfl)
      | some type => exact .literal (.inr (by rw [← htype type rfl]))
    | parameter name =>
      rw [problems] at h
      split at h
      · cases h
      · rename_i hname
        cases hfound : scope.get? name with
        | none => simp [hfound] at h
        | some found =>
          simp only [hfound] at h
          exact .parameter hname hfound (typeProblems_eq_nil_iff.mp h)
  · intro h
    cases h with
    | unset => rfl
    | literal htype =>
      refine typeProblems_eq_nil_iff.mpr ?_
      rintro type rfl
      simpa [eq_comm] using htype
    | parameter hname hfound htype =>
      rw [problems, if_neg hname, hfound]
      exact typeProblems_eq_nil_iff.mpr htype

/-! ## Steps -/

namespace Call

variable {catalog : Catalog} {scope : Scope} {m : Method} {c : Call}

theorem inputProblems_eq_nil_iff {input : Pin} :
    c.inputProblems scope input = [] ↔
      ∃ a, c.argument? input.name = some a ∧ a.value.Fits scope input.type := by
  rw [inputProblems]
  cases c.argument? input.name with
  | none => simp
  | some a => simp [Operand.problems_eq_nil_iff]

theorem unknownProblems_eq_nil_iff :
    c.unknownProblems m = [] ↔ ∀ a ∈ c.arguments, ∃ input ∈ m.inputs, input.name = a.name := by
  simp [unknownProblems]

/-- The arguments have no problems exactly when they match the method. -/
theorem argumentProblems_eq_nil_iff :
    m.inputs.flatMap (c.inputProblems scope) ++ c.unknownProblems m = [] ↔ c.Matches scope m := by
  rw [List.append_eq_nil_iff, List.flatMap_eq_nil_iff, unknownProblems_eq_nil_iff]
  constructor
  · rintro ⟨hgiven, hdeclared⟩
    exact ⟨hdeclared, fun input hinput => inputProblems_eq_nil_iff.mp (hgiven input hinput)⟩
  · intro h
    exact ⟨fun input hinput => inputProblems_eq_nil_iff.mpr (h.given input hinput), h.declared⟩

/-- Once the method of a call is known, only its arguments are looked at. -/
theorem problems_of_method {config : Config} (hconfigId : c.configId ≠ "")
    (hconfig : catalog.config? c.configId = some config) (hmethodName : c.methodName ≠ "")
    (hmethod : config.method? c.methodName = some m) :
    c.problems catalog scope =
      m.inputs.flatMap (c.inputProblems scope) ++ c.unknownProblems m := by
  simp only [problems, if_neg hconfigId, hconfig, if_neg hmethodName, hmethod]

theorem problems_eq_nil_iff :
    c.problems catalog scope = [] ↔ (Step.call c).WellFormed catalog scope := by
  constructor
  · intro h
    -- Each way to end the search early leaves a problem.
    by_cases hconfigId : c.configId = ""
    · simp [problems, hconfigId] at h
    cases hconfig : catalog.config? c.configId with
    | none => simp [problems, hconfigId, hconfig] at h
    | some config =>
      by_cases hmethodName : c.methodName = ""
      · simp [problems, hconfigId, hconfig, hmethodName] at h
      cases hmethod : config.method? c.methodName with
      | none => simp [problems, hconfigId, hconfig, hmethodName, hmethod] at h
      | some m =>
        rw [problems_of_method hconfigId hconfig hmethodName hmethod] at h
        exact .call hconfigId hconfig hmethodName hmethod (argumentProblems_eq_nil_iff.mp h)
  · intro h
    cases h with
    | call hconfigId hconfig hmethodName hmethod hmatches =>
      rw [problems_of_method hconfigId hconfig hmethodName hmethod]
      exact argumentProblems_eq_nil_iff.mpr hmatches

end Call

theorem Return.problems_eq_nil_iff {catalog : Catalog} {scope : Scope} {r : Return} :
    r.problems scope = [] ↔ (Step.ret r).WellFormed catalog scope := by
  by_cases hset : r.argument.value = .unset
  · constructor
    · intro h
      simp [problems, hset] at h
    · intro h
      cases h with
      | ret hne _ => exact absurd hset hne
  · have hproblems : r.problems scope = r.argument.value.problems scope r.argument.name none := by
      rw [problems]
      split
      · contradiction
      · rfl
    rw [hproblems, Operand.problems_eq_nil_iff]
    constructor
    · exact .ret hset
    · intro h
      cases h with
      | ret _ hfits => exact hfits

/-- A step has no problems exactly when it is well formed. -/
theorem Step.problems_eq_nil_iff {catalog : Catalog} {scope : Scope} {s : Step} :
    s.problems catalog scope = [] ↔ s.WellFormed catalog scope := by
  cases s with
  | call c => exact Call.problems_eq_nil_iff
  | ret r => exact Return.problems_eq_nil_iff

instance (catalog : Catalog) (scope : Scope) (s : Step) : Decidable (s.WellFormed catalog scope) :=
  decidable_of_iff _ Step.problems_eq_nil_iff

-- Of two arguments for one input the first counts, whatever the second is.
example :
    let row : ValueType := .object "Row"
    let catalog : Catalog := ⟨[⟨"db", "", "", "", [⟨"drop", "", [⟨"what", "", some row⟩], []⟩]⟩]⟩
    let drop (arguments : List Argument) : Step := .call ⟨"", "db", "drop", none, arguments⟩
    let scope := Scope.empty.bind "user" row
    (drop [⟨"what", .parameter "user"⟩, ⟨"what", .literal ""⟩]).WellFormed catalog scope ∧
      ¬(drop [⟨"what", .literal ""⟩, ⟨"what", .parameter "user"⟩]).WellFormed catalog scope := by
  decide

/-! ## Lists of steps -/

namespace Catalog

theorem hints_pairwise (catalog : Catalog) (steps : List Step) :
    (catalog.hints steps).Pairwise fun a b => a.index ≤ b.index := by
  rw [hints_eq_flatMap, List.pairwise_flatMap]
  constructor
  · intro position _
    refine List.pairwise_of_forall_mem_list ?_
    intro a ha b hb
    exact Nat.le_of_eq ((mem_hintsAt_iff.mp ha).1.trans (mem_hintsAt_iff.mp hb).1.symm)
  · refine List.pairwise_lt_range.imp ?_
    intro p q hpq a ha b hb
    rw [(mem_hintsAt_iff.mp ha).1, (mem_hintsAt_iff.mp hb).1]
    exact Nat.le_of_lt hpq

/-- A list of steps has no hints exactly when each step is well formed in the scope in front of it.
    In any case hints come in the order of the steps they are about, and are about steps that
    exist. -/
theorem hints_eq_nil_iff_wellFormed (catalog : Catalog) (steps : List Step) :
    (catalog.hints steps = [] ↔
        ∀ (k : Nat) (step : Step), steps[k]? = some step →
          step.WellFormed catalog (catalog.scopeAt steps k)) ∧
      ((catalog.hints steps).Pairwise fun a b => a.index ≤ b.index) ∧
      ∀ h ∈ catalog.hints steps, h.index < steps.length := by
  refine ⟨?_, catalog.hints_pairwise steps, ?_⟩
  · rw [List.eq_nil_iff_forall_not_mem]
    constructor
    · intro hnone k step hstep
      rw [← Step.problems_eq_nil_iff, List.eq_nil_iff_forall_not_mem]
      intro problem hproblem
      exact hnone ⟨k, problem⟩ (mem_hints_iff.mpr ⟨step, hstep, hproblem⟩)
    · intro hwell h hmem
      obtain ⟨step, hstep, hproblem⟩ := mem_hints_iff.mp hmem
      rw [Step.problems_eq_nil_iff.mpr (hwell h.index step hstep)] at hproblem
      cases hproblem
  · intro h hmem
    obtain ⟨step, hstep, -⟩ := mem_hints_iff.mp hmem
    exact (List.getElem?_eq_some_iff.mp hstep).1

end Catalog

end CallFlow
