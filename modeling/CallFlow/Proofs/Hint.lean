import CallFlow.Session
import CallFlow.Proofs.Scope

/-!
# Hints position by position

The hints of a list of steps are the problems that each step has in the scope before it, in the
order of the steps. The problems of a call depend on its config, its method and the problems of its
operands, and not on the name it gives its result.

## Main statements

- `CallFlow.Catalog.hints_eq_flatMap`, `CallFlow.Catalog.mem_hints_iff` — hints, position by position
- `CallFlow.Catalog.filter_hints_congr` — what the hints about some of the positions depend on
- `CallFlow.Catalog.filter_hints_eq_hintsAt` — the hints about one position, out of all hints
- `CallFlow.Session.callHints_eq_flatMap` — hints about calls, position by position
- `CallFlow.Call.problems_mapOperands` — a call whose operands have the same problems has the same
  problems
-/

namespace CallFlow

namespace Catalog

/-- The hints about one position. -/
def hintsAt (catalog : Catalog) (steps : List Step) (position : Nat) : List Hint :=
  match steps[position]? with
  | none => []
  | some step =>
    (step.problems catalog (catalog.scopeAt steps position)).map (Hint.mk position)

/-- The hints from a position on, one position after the other. -/
theorem hintsFrom_eq_flatMap (catalog : Catalog) (front steps : List Step) :
    catalog.hintsFrom (catalog.scopeAt (front ++ steps) front.length) front.length steps =
      (List.range' front.length steps.length).flatMap (catalog.hintsAt (front ++ steps)) := by
  induction steps generalizing front with
  | nil => rfl
  | cons step steps ih =>
    have hstep : (front ++ step :: steps)[front.length]? = some step := by simp
    -- The step moves over to the steps in front.
    have hrest := ih (front ++ [step])
    rw [List.append_assoc, List.singleton_append, List.length_append, List.length_singleton,
      scopeAt_append_cons] at hrest
    rw [hintsFrom, hrest, List.length_cons, List.range'_succ, List.flatMap_cons, hintsAt, hstep]

/-- The hints of a list of steps, one position after the other. -/
theorem hints_eq_flatMap (catalog : Catalog) (steps : List Step) :
    catalog.hints steps = (List.range steps.length).flatMap (catalog.hintsAt steps) := by
  rw [List.range_eq_range']
  exact catalog.hintsFrom_eq_flatMap [] steps

variable {catalog : Catalog} {steps : List Step}

theorem mem_hintsAt_iff {position : Nat} {h : Hint} :
    h ∈ catalog.hintsAt steps position ↔
      h.index = position ∧ ∃ step, steps[position]? = some step ∧
        h.problem ∈ step.problems catalog (catalog.scopeAt steps position) := by
  rw [hintsAt]
  cases hstep : steps[position]? with
  | none => simp
  | some step =>
    constructor
    · intro hmem
      obtain ⟨problem, hproblem, rfl⟩ := List.mem_map.mp hmem
      exact ⟨rfl, step, rfl, hproblem⟩
    · rintro ⟨rfl, found, hfound, hproblem⟩
      cases hfound
      exact List.mem_map_of_mem hproblem

/-- The hints are the problems that the steps have where they stand. -/
theorem mem_hints_iff {h : Hint} :
    h ∈ catalog.hints steps ↔
      ∃ step, steps[h.index]? = some step ∧
        h.problem ∈ step.problems catalog (catalog.scopeAt steps h.index) := by
  rw [hints_eq_flatMap, List.mem_flatMap]
  constructor
  · rintro ⟨position, -, hmem⟩
    obtain ⟨rfl, hat⟩ := mem_hintsAt_iff.mp hmem
    exact hat
  · rintro ⟨step, hstep, hproblem⟩
    have hlt : h.index < steps.length := (List.getElem?_eq_some_iff.mp hstep).1
    exact ⟨h.index, List.mem_range.mpr hlt, mem_hintsAt_iff.mpr ⟨rfl, step, hstep, hproblem⟩⟩

/-- The hints about one position all have its index, so a test of the index keeps all of them or
    none. -/
theorem filter_index_hintsAt (test : Nat → Prop) [DecidablePred test] (position : Nat) :
    (catalog.hintsAt steps position).filter (fun hint => test hint.index) =
      if test position then catalog.hintsAt steps position else [] := by
  split
  case isTrue hp =>
    refine List.filter_eq_self.mpr fun hint hhint => ?_
    rwa [(mem_hintsAt_iff.mp hhint).1, decide_eq_true_eq]
  case isFalse hp =>
    refine List.filter_eq_nil_iff.mpr fun hint hhint => ?_
    rwa [(mem_hintsAt_iff.mp hhint).1, decide_eq_true_eq]

/-- The hints about the positions that pass a test depend only on these positions. -/
theorem filter_hints_congr {steps' : List Step} (test : Nat → Prop) [DecidablePred test]
    (hlength : steps'.length = steps.length)
    (h : ∀ p, test p → catalog.hintsAt steps' p = catalog.hintsAt steps p) :
    (catalog.hints steps').filter (fun hint => test hint.index) =
      (catalog.hints steps).filter (fun hint => test hint.index) := by
  have hat : ∀ p, (catalog.hintsAt steps' p).filter (fun hint => test hint.index) =
      (catalog.hintsAt steps p).filter (fun hint => test hint.index) := by
    intro p
    rw [filter_index_hintsAt, filter_index_hintsAt]
    split
    · rename_i hp
      exact h p hp
    · rfl
  rw [hints_eq_flatMap, hints_eq_flatMap, hlength, List.filter_flatMap, List.filter_flatMap,
    funext hat]

/-- Of all hints, those with the index of a position are the hints about it. -/
theorem filter_hints_eq_hintsAt (catalog : Catalog) (steps : List Step) (i : Nat) :
    (catalog.hints steps).filter (·.index = i) = catalog.hintsAt steps i := by
  have hrange : ∀ n, ((List.range n).flatMap fun p => if p = i then catalog.hintsAt steps p else []) =
      if i < n then catalog.hintsAt steps i else [] := by
    intro n
    induction n with
    | zero => rfl
    | succ n ih =>
      rw [List.range_succ, List.flatMap_append, ih, List.flatMap_singleton]
      rcases Nat.lt_trichotomy i n with hlt | rfl | hgt
      · rw [if_pos hlt, if_neg (by omega), if_pos (by omega), List.append_nil]
      · rw [if_neg (by omega), if_pos rfl, if_pos (by omega), List.nil_append]
      · rw [if_neg (by omega), if_neg (by omega), if_neg (by omega), List.append_nil]
  rw [hints_eq_flatMap, List.filter_flatMap, funext (filter_index_hintsAt (· = i)), hrange]
  split
  · rfl
  · rename_i hlength
    rw [hintsAt, List.getElem?_eq_none (by omega)]

end Catalog

/-- The problems of a step if it is a call. -/
def Step.callProblems (catalog : Catalog) (scope : Scope) : Step → List Problem
  | .call c => c.problems catalog scope
  | .ret _ => []

/-- Whether a hint is about a call. -/
def Hint.isAboutCall (steps : List Step) (h : Hint) : Bool :=
  match steps[h.index]? with
  | some (.call _) => true
  | _ => false

namespace Catalog

/-- The hints about one position if there is a call. -/
def callHintsAt (catalog : Catalog) (steps : List Step) (position : Nat) : List Hint :=
  match steps[position]? with
  | none => []
  | some step =>
    (step.callProblems catalog (catalog.scopeAt steps position)).map (Hint.mk position)

/-- Two lists of steps have the same hints about a position if the steps there have the same
    problems. -/
theorem callHintsAt_congr {catalog : Catalog} {before after : List Step} {position : Nat}
    {f : Step → Step} (hstep : after[position]? = before[position]?.map f)
    (hproblems : ∀ s, before[position]? = some s →
      (f s).callProblems catalog (catalog.scopeAt after position) =
        s.callProblems catalog (catalog.scopeAt before position)) :
    catalog.callHintsAt after position = catalog.callHintsAt before position := by
  rw [callHintsAt, callHintsAt, hstep]
  cases hs : before[position]? with
  | none => rfl
  | some s => exact congrArg (List.map (Hint.mk position)) (hproblems s hs)

theorem filter_hintsAt (catalog : Catalog) (steps : List Step) (position : Nat) :
    (catalog.hintsAt steps position).filter (·.isAboutCall steps) =
      catalog.callHintsAt steps position := by
  rw [hintsAt, callHintsAt]
  cases hstep : steps[position]? with
  | none => rfl
  | some step =>
    cases step with
    | call c =>
      refine List.filter_eq_self.mpr ?_
      intro hint hhint
      obtain ⟨problem, -, rfl⟩ := List.mem_map.mp hhint
      simp [Hint.isAboutCall, hstep]
    | ret r =>
      refine List.filter_eq_nil_iff.mpr ?_
      intro hint hhint
      obtain ⟨problem, -, rfl⟩ := List.mem_map.mp hhint
      simp [Hint.isAboutCall, hstep]

end Catalog

namespace Session

/-- The hints about the calls of the working copy. -/
def callHints (s : Session) : List Hint :=
  s.hints.filter (·.isAboutCall s.steps)

/-- The hints about calls, one position after the other. -/
theorem callHints_eq_flatMap (s : Session) :
    s.callHints = (List.range s.steps.length).flatMap (s.catalog.callHintsAt s.steps) := by
  rw [callHints, hints, Catalog.hints_eq_flatMap, List.filter_flatMap]
  simp only [Catalog.filter_hintsAt]

end Session

namespace Call

variable {catalog : Catalog} {before after : Scope} {c : Call}

/-- The call with its operands changed. -/
def mapOperands (f : Operand → Operand) (c : Call) : Call :=
  { c with arguments := c.arguments.map fun a => { a with value := f a.value } }

theorem mapOperands_self (c : Call) : (c.mapOperands fun o => o) = c := by
  simp [mapOperands]

theorem mapOperands_congr {f g : Operand → Operand} {c : Call}
    (h : ∀ a ∈ c.arguments, f a.value = g a.value) : c.mapOperands f = c.mapOperands g := by
  have harguments : (c.arguments.map fun a => { a with value := f a.value }) =
      c.arguments.map fun a => { a with value := g a.value } := by
    refine List.map_congr_left fun a ha => ?_
    rw [h a ha]
  rw [mapOperands, mapOperands, harguments]

theorem mapOperands_mapOperands (f g : Operand → Operand) (c : Call) :
    (c.mapOperands f).mapOperands g = c.mapOperands fun o => g (f o) := by
  simp only [mapOperands, List.map_map]
  rfl

theorem argument?_mapOperands (f : Operand → Operand) (c : Call) (name : String) :
    (c.mapOperands f).argument? name =
      (c.argument? name).map fun a => { a with value := f a.value } := by
  rw [argument?, mapOperands, List.find?_map]
  rfl

theorem unknownProblems_mapOperands (f : Operand → Operand) (c : Call) (m : Method) :
    (c.mapOperands f).unknownProblems m = c.unknownProblems m := by
  simp only [unknownProblems, mapOperands, List.filter_map, List.map_map]
  rfl

/-- A call whose operands have the same problems has the same problems. -/
theorem problems_mapOperands {f : Operand → Operand}
    (h : ∀ a ∈ c.arguments, ∀ expected,
      (f a.value).problems after a.name expected = a.value.problems before a.name expected) :
    (c.mapOperands f).problems catalog after = c.problems catalog before := by
  have hinput : (c.mapOperands f).inputProblems after = c.inputProblems before := by
    funext input
    rw [inputProblems, inputProblems, argument?_mapOperands]
    cases ha : c.argument? input.name with
    | none => rfl
    | some a => exact h a (List.mem_of_find?_eq_some ha) input.type
  rw [problems, problems]
  simp only [hinput, unknownProblems_mapOperands]
  rfl

end Call

end CallFlow
