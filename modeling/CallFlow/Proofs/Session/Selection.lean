import CallFlow.Proofs.FreeName
import CallFlow.Proofs.Session.Frame
import CallFlow.Proofs.Session.NormalForm
import CallFlow.Proofs.Suggestion

/-!
# Selecting a method

When a method is selected for a call, each of its inputs gets a value: the first name that fits where
an object is expected, an empty text where text is, and nothing where nothing in particular is. What
is filled in is what the hints accept, with one exception: an input that expects an object stays open
if no name in scope fits, and there is one hint for each of these.

A name that fits is not empty, for no result is bound to an empty name. Otherwise the first
suggestion could be taken for an open reference.

## Main definitions

- `CallFlow.Pin.IsOpen` — inputs for which there is no name in scope

## Main statements

- `CallFlow.Pin.problems_defaultValue` — the problems of what an input is given
- `CallFlow.Call.problems_of_defaultArguments` — the problems of a call with these arguments
- `CallFlow.Session.selection_leaves_open_inputs` — what selecting a method leaves to do
-/

namespace CallFlow

/-! ## One input -/

namespace Pin

/-- The input expects an object, and nothing in scope is of its type. -/
def IsOpen (scope : Scope) (p : Pin) : Prop :=
  ∃ cls, p.type = some (.object cls) ∧ ∀ name, scope.get? name ≠ some (.object cls)

variable {scope : Scope} {p : Pin} {cls : String}

theorem isOpen_iff_of_object (h : p.type = some (.object cls)) :
    p.IsOpen scope ↔ scope.suggest p.type = [] := by
  rw [h, Scope.suggest_eq_nil_iff]
  constructor
  · rintro ⟨cls', hcls', hnone⟩
    cases h.symm.trans hcls'
    exact hnone
  · intro hnone
    exact ⟨cls, h, hnone⟩

theorem not_isOpen_of_ne (h : ∀ cls, p.type ≠ some (.object cls)) : ¬p.IsOpen scope := by
  rintro ⟨cls, hcls, -⟩
  exact h cls hcls

instance (scope : Scope) (p : Pin) : Decidable (p.IsOpen scope) :=
  match h : p.type with
  | some (.object _) => decidable_of_iff _ (isOpen_iff_of_object h).symm
  | some .text => isFalse (not_isOpen_of_ne (by simp [h]))
  | none => isFalse (not_isOpen_of_ne (by simp [h]))

/-- An input that expects an object and is not open is given the first name that fits. -/
theorem exists_defaultValue_eq (htype : p.type = some (.object cls)) (hopen : ¬p.IsOpen scope) :
    ∃ name, (scope.suggest p.type).head? = some name ∧
      p.defaultValue scope = .parameter name := by
  rw [isOpen_iff_of_object htype] at hopen
  obtain ⟨name, hname⟩ := Option.ne_none_iff_exists'.mp (mt List.head?_eq_none_iff.mp hopen)
  refine ⟨name, hname, ?_⟩
  rw [htype] at hname
  simp [defaultValue, htype, Scope.firstSuggestion?, hname]

/-- What an input is given has no problem unless the input is open. -/
theorem problems_defaultValue (hscope : "" ∉ scope.names) (p : Pin) :
    (p.defaultValue scope).problems scope p.name p.type =
      if p.IsOpen scope then [.emptyParameter p.name] else [] := by
  split
  case isTrue hopen =>
    obtain ⟨cls, htype, hnone⟩ := hopen
    simp [defaultValue, htype, Scope.firstSuggestion?, Scope.suggest_eq_nil_iff.mpr hnone,
      Operand.problems]
  case isFalse hopen =>
    rw [Operand.problems_eq_nil_iff]
    cases htype : p.type with
    | none =>
      simp only [defaultValue, htype]
      exact .unset
    | some type =>
      cases type with
      | text =>
        simp only [defaultValue, htype]
        exact .literal (.inr rfl)
      | object cls =>
        obtain ⟨name, hname, hvalue⟩ := exists_defaultValue_eq htype hopen
        rw [htype] at hname
        have hfound := Scope.mem_suggest_iff.mp (List.mem_of_head? hname)
        -- The name is bound, and the empty one is not.
        have hne : name ≠ "" := by
          rintro rfl
          exact hscope (Scope.mem_names_of_get? hfound)
        rw [hvalue]
        exact .parameter hne hfound fun _ heq => Option.some.inj heq

end Pin

/-! ## All inputs -/

theorem Method.find?_defaultArguments {m : Method} {p : Pin} {scope : Scope}
    (hdistinct : (m.inputs.map Pin.name).Nodup) (hp : p ∈ m.inputs) :
    (m.defaultArguments scope).find? (·.name = p.name) = some ⟨p.name, p.defaultValue scope⟩ := by
  have hinput := m.input?_of_mem hdistinct hp
  rw [defaultArguments, List.find?_map]
  exact congrArg (Option.map _) hinput

theorem flatMap_isOpen (scope : Scope) (inputs : List Pin) :
    (inputs.flatMap fun p => if p.IsOpen scope then [Problem.emptyParameter p.name] else []) =
      (inputs.filter (·.IsOpen scope)).map fun p => .emptyParameter p.name := by
  induction inputs with
  | nil => rfl
  | cons p inputs ih =>
    rw [List.flatMap_cons, ih]
    by_cases h : p.IsOpen scope <;> simp [h]

namespace Call

variable {catalog : Catalog} {scope : Scope} {c : Call} {config : Config} {m : Method}

/-- A call whose arguments were filled in has one problem for each input that is open. -/
theorem problems_of_defaultArguments (hscope : "" ∉ scope.names) (hconfigId : c.configId ≠ "")
    (hconfig : catalog.config? c.configId = some config) (hmethodName : c.methodName ≠ "")
    (hmethod : config.method? c.methodName = some m) (hdistinct : (m.inputs.map Pin.name).Nodup)
    (harguments : c.arguments = m.defaultArguments scope) :
    c.problems catalog scope =
      (m.inputs.filter (·.IsOpen scope)).map fun p => .emptyParameter p.name := by
  have hinputs : ∀ p ∈ m.inputs,
      c.inputProblems scope p = if p.IsOpen scope then [.emptyParameter p.name] else [] := by
    intro p hp
    rw [inputProblems, argument?, harguments, Method.find?_defaultArguments hdistinct hp]
    exact p.problems_defaultValue hscope
  have hunknown : c.unknownProblems m = [] := by
    rw [unknownProblems_eq_nil_iff, harguments]
    intro a ha
    obtain ⟨p, hp, rfl⟩ := List.mem_map.mp ha
    exact ⟨p, hp, rfl⟩
  rw [problems_of_method hconfigId hconfig hmethodName hmethod, hunknown, List.append_nil,
    List.flatMap_congr hinputs, flatMap_isOpen]

theorem apply_selectMethod {name : String} (hconfig : catalog.config? c.configId = some config)
    (hmethod : config.method? name = some m) :
    c.apply catalog scope (.selectMethod name) =
      { c with
        methodName := name
        arguments := m.defaultArguments scope
        outputName := m.autoOutputName? scope } := by
  simp only [apply, Catalog.method?, hconfig, Option.bind_some, hmethod]

end Call

/-! ## Sessions -/

namespace Session

variable {s : Session} {i : Nat} {c : Call} {config : Config} {m : Method} {name : String}

theorem suggestions_of_lookups {p : Pin} (hi : s.steps[i]? = some (.call c))
    (hconfig : s.catalog.config? c.configId = some config)
    (hmethod : config.method? c.methodName = some m) (hdistinct : (m.inputs.map Pin.name).Nodup)
    (hp : p ∈ m.inputs) : s.suggestions i p.name = (s.scopeAt i).suggest p.type := by
  simp only [suggestions, hi, Catalog.resolve, hconfig, hmethod, m.input?_of_mem hdistinct hp,
    Option.bind_some]

/-- After a method was selected, the hints about the call are one for each input that expects an
    object when nothing of its type is in scope, in the order of the inputs. The other inputs that
    expect an object have the first name that is suggested for them, and the name of the result is
    not in scope yet. -/
theorem selection_leaves_open_inputs (hs : s.endpoint.NoEmptyOutput)
    (hi : s.steps[i]? = some (.call c)) (hconfigId : c.configId ≠ "")
    (hconfig : s.catalog.config? c.configId = some config) (hname : name ≠ "")
    (hmethod : config.method? name = some m) (hdistinct : (m.inputs.map Pin.name).Nodup) :
    let after := (s.edit i (.selectMethod name)).2
    after.scopeAt i = s.scopeAt i ∧
      after.hints.filter (·.index = i) =
        (m.inputs.filter (·.IsOpen (s.scopeAt i))).map (fun p => ⟨i, .emptyParameter p.name⟩) ∧
      ∃ call, after.steps[i]? = some (.call call) ∧
        (∀ p ∈ m.inputs, ∀ cls, p.type = some (.object cls) → ¬p.IsOpen (s.scopeAt i) →
          ∃ first, (after.suggestions i p.name).head? = some first ∧
            call.argument? p.name = some ⟨p.name, .parameter first⟩) ∧
        ∀ output, call.outputName = some output → (s.scopeAt i).contains output = false := by
  intro after
  have hscope : after.scopeAt i = s.scopeAt i := scopeAt_edit_of_le (Nat.le_refl i) s _
  have hcatalog : after.catalog = s.catalog := s.catalog_edit i _
  let call : Call :=
    { c with
      methodName := name
      arguments := m.defaultArguments (s.scopeAt i)
      outputName := m.autoOutputName? (s.scopeAt i) }
  have hcall : after.steps[i]? = some (.call call) := by
    rw [getElem?_edit_self, hi, Option.map_some, Step.apply,
      Call.apply_selectMethod hconfig hmethod]
  refine ⟨hscope, ?_, call, hcall, ?_, ?_⟩
  · have hproblems := Call.problems_of_defaultArguments (c := call)
      (not_mem_names_of_noEmptyOutput hs i) hconfigId hconfig hname hmethod hdistinct rfl
    rw [hints, Catalog.filter_hints_eq_hintsAt, Catalog.hintsAt, hcall, ← scopeAt, hscope, hcatalog]
    simp only [Step.problems, hproblems, List.map_map]
    rfl
  · intro p hp cls htype hopen
    obtain ⟨first, hfirst, hvalue⟩ := Pin.exists_defaultValue_eq htype hopen
    refine ⟨first, ?_, ?_⟩
    · rw [suggestions_of_lookups hcall (hcatalog ▸ hconfig) hmethod hdistinct hp, hscope, hfirst]
    · rw [Call.argument?, Method.find?_defaultArguments hdistinct hp, hvalue]
  · intro output houtput
    obtain ⟨p, -, -, hfree⟩ := Method.freeName_of_autoOutputName? houtput
    exact hfree.contains

/-- One input of `store` expects a user, of which there are two in scope, and two expect an order, of
    which there is none: `order` was bound to one and then to a text. The name declared for the
    result is in scope, and so is the one with the number `0`. -/
theorem selection_leaves_open_inputs_mixed :
    let object (cls : String) : Option ValueType := some (.object cls)
    let method (name cls : String) : Method := ⟨name, "", [], [⟨"", "", object cls⟩]⟩
    let store : Method := ⟨"store", "",
      [⟨"what", "", object "Order"⟩, ⟨"note", "", some .text⟩, ⟨"by", "", object "User"⟩,
        ⟨"flags", "", none⟩, ⟨"like", "", object "Order"⟩],
      [⟨"user", "", object "User"⟩]⟩
    let config : Config := ⟨"db", "", "", "",
      [method "find" "User", method "take" "Order", ⟨"name", "", [], [⟨"", "", some .text⟩]⟩, store]⟩
    let call (method output : String) : Step := .call ⟨"", "db", method, some output, []⟩
    let chosen : Call := ⟨"c", "db", "find", some "x", [⟨"by", .literal "x"⟩]⟩
    let s : Session := .start ⟨[config]⟩ ⟨"", "", "", "",
      [call "take" "order", call "find" "user0", call "find" "user", call "name" "order",
        .call chosen]⟩
    let after := (s.edit 4 (.selectMethod "store")).2
    s.endpoint.NoEmptyOutput ∧ config.method? "store" = some store ∧
      (store.inputs.map Pin.name).Nodup ∧
      after.hints.filter (·.index = 4) =
        [⟨4, .emptyParameter "what"⟩, ⟨4, .emptyParameter "like"⟩] ∧
      after.suggestions 4 "by" = ["user0", "user"] ∧
      after.steps[4]? = some (.call ⟨"c", "db", "store", some "user1",
        [⟨"what", .parameter ""⟩, ⟨"note", .literal ""⟩, ⟨"by", .parameter "user0"⟩,
          ⟨"flags", .unset⟩, ⟨"like", .parameter ""⟩]⟩) ∧
      (s.scopeAt 4).contains "user1" = false := by
  intro object method store config call chosen s after
  have hs : s.endpoint.NoEmptyOutput := by decide
  have hmethod : config.method? "store" = some store := by decide
  have hdistinct : (store.inputs.map Pin.name).Nodup := by decide
  have hopen : store.inputs.filter (·.IsOpen (s.scopeAt 4)) =
      [⟨"what", "", object "Order"⟩, ⟨"like", "", object "Order"⟩] := by decide
  have hsuggestions : after.suggestions 4 "by" = ["user0", "user"] := by decide +kernel
  have hsteps : after.steps[4]? = some (.call ⟨"c", "db", "store", some "user1",
      [⟨"what", .parameter ""⟩, ⟨"note", .literal ""⟩, ⟨"by", .parameter "user0"⟩,
        ⟨"flags", .unset⟩, ⟨"like", .parameter ""⟩]⟩) := by decide +kernel
  obtain ⟨-, hhints, edited, hedited, -, houtput⟩ :=
    selection_leaves_open_inputs (s := s) (i := 4) (c := chosen) hs rfl
      (by decide) (by decide) (by decide) hmethod hdistinct
  rw [hopen] at hhints
  obtain rfl := Step.call.inj (Option.some.inj (hsteps.symm.trans hedited))
  exact ⟨hs, hmethod, hdistinct, hhints, hsuggestions, hsteps, houtput "user1" rfl⟩

end Session

end CallFlow
