import CallFlow.Proofs.Canonical
import CallFlow.Proofs.Rename.Hints

/-!
# Canonical endpoints mean the same

Canonicalizing an endpoint unbinds the results that were bound to an empty name, and so the empty
name disappears from every scope after them. Nothing else does, and no hint comes or goes: a
reference to the empty name counts as open whatever is in scope, and all other names are found as
before.

The two walks over the steps are kept side by side. At each position the scope of the canonical steps
is the scope of the given ones without the empty name.

## Main definitions

- `CallFlow.Scope.without` — a scope without one of its names

## Main statements

- `CallFlow.Step.binding?_canonicalize`, `CallFlow.Step.problems_canonicalize` — one step
- `CallFlow.Endpoint.canonicalize_keeps_meaning` — all steps of an endpoint
-/

namespace CallFlow

/-! ## Scopes without a name -/

namespace Scope

/-- The scope without one of its names. -/
def without (s : Scope) (name : String) : Scope :=
  ⟨s.entries.filter (·.1 ≠ name), (List.filter_sublist.map Prod.fst).nodup s.distinct⟩

theorem eq_of_entries_eq {s t : Scope} (h : s.entries = t.entries) : s = t := by
  cases s
  cases t
  cases h
  rfl

theorem agreeOff_without (s : Scope) (name : String) : AgreeOff name s (s.without name) := by
  intro x hx
  ext type
  rw [get?_eq_some_iff, get?_eq_some_iff, without, List.mem_filter]
  simp [hx]

end Scope

theorem filter_bindEntry (name bound : String) (type : ValueType)
    (es : List (String × ValueType)) :
    (bindEntry bound type es).filter (·.1 ≠ name) =
      if bound = name then es.filter (·.1 ≠ name)
      else bindEntry bound type (es.filter (·.1 ≠ name)) := by
  induction es with
  | nil => by_cases h : bound = name <;> simp [bindEntry, h]
  | cons e es ih =>
    obtain ⟨n, t⟩ := e
    rw [bindEntry]
    by_cases hn : n = bound
    · -- The entry is bound again in its place, which is in the filtered list unless it is dropped.
      subst hn
      by_cases h : n = name <;> simp [bindEntry, h]
    · rw [if_neg hn, List.filter_cons, List.filter_cons, ih]
      by_cases h : bound = name
      · simp [h]
      · by_cases hname : n = name <;> simp [bindEntry, h, hn, hname]

theorem Scope.without_extend (s : Scope) (name : String) (binding : Option (String × ValueType)) :
    (s.extend binding).without name =
      (s.without name).extend (binding.filter (·.1 ≠ name)) := by
  cases binding with
  | none => rfl
  | some b =>
    obtain ⟨bound, type⟩ := b
    refine eq_of_entries_eq ((filter_bindEntry name bound type s.entries).trans ?_)
    by_cases h : bound = name
    · rw [if_pos h, Option.filter_some_neg (by simpa using h)]
      rfl
    · rw [if_neg h, Option.filter_some_pos (by simpa using h)]
      rfl

/-! ## One step -/

/-- A reference that is open is so in every scope, so the empty name is never looked up. -/
theorem Operand.problems_without_empty (scope : Scope) (argument : String)
    (expected : Option ValueType) (o : Operand) :
    o.problems (scope.without "") argument expected = o.problems scope argument expected := by
  by_cases ho : o = .parameter ""
  · subst ho
    rfl
  · exact problems_congr (scope.agreeOff_without "") ho argument expected

/-- The type of a call's result, if the call has selected a method that declares one. -/
def Catalog.resultType? (catalog : Catalog) (c : Call) : Option ValueType :=
  (catalog.resolve c).method?.bind fun m => m.primaryOutput?.bind (·.type)

namespace Step

theorem binding?_call (catalog : Catalog) (c : Call) :
    (call c).binding? catalog =
      c.outputName.bind fun name => (catalog.resultType? c).map fun type => (name, type) := by
  rw [binding?, Catalog.resultType?]
  cases c.outputName with
  | none => rfl
  | some name => cases catalog.resolve c <;> rfl

theorem binding?_canonicalize (catalog : Catalog) (ids : IdSupply) (s : Step) :
    (s.canonicalize ids).1.binding? catalog = (s.binding? catalog).filter (·.1 ≠ "") := by
  obtain ⟨id, hcanonical⟩ := s.canonicalize_eq ids
  rw [hcanonical]
  cases s with
  | ret r => rfl
  | call c =>
    have htype : ∀ name, catalog.resultType? { c with id, outputName := name } =
        catalog.resultType? c := fun _ => rfl
    rw [withId, dropEmptyOutput, binding?_call, binding?_call, htype]
    cases c.outputName with
    | none => rfl
    | some name =>
      by_cases hname : name = "" <;> cases catalog.resultType? c <;>
        simp [hname, Option.filter_some]

theorem problems_canonicalize (catalog : Catalog) (scope : Scope) (ids : IdSupply) (s : Step) :
    (s.canonicalize ids).1.problems catalog (scope.without "") = s.problems catalog scope := by
  obtain ⟨id, hcanonical⟩ := s.canonicalize_eq ids
  rw [hcanonical]
  cases s with
  | call c =>
    -- Neither the identifier nor the name of the result is looked at.
    show c.problems catalog (scope.without "") = c.problems catalog scope
    have hproblems : (c.mapOperands fun o => o).problems catalog (scope.without "") =
        c.problems catalog scope :=
      Call.problems_mapOperands fun a _ expected =>
        a.value.problems_without_empty scope a.name expected
    rwa [c.mapOperands_self] at hproblems
  | ret r =>
    show r.problems (scope.without "") = r.problems scope
    rw [Return.problems, Return.problems]
    cases r.argument.value with
    | unset => rfl
    | _ => exact Operand.problems_without_empty scope _ none _

end Step

/-! ## All steps -/

namespace Catalog

theorem hintsFrom_canonicalizeSteps (catalog : Catalog) (scope : Scope) (index : Nat)
    (ids : IdSupply) (steps : List Step) :
    catalog.hintsFrom (scope.without "") index (canonicalizeSteps ids steps).1 =
      catalog.hintsFrom scope index steps := by
  induction steps generalizing scope index ids with
  | nil => rfl
  | cons s steps ih =>
    rw [canonicalizeSteps_cons, hintsFrom, hintsFrom, s.problems_canonicalize,
      s.binding?_canonicalize, ← Scope.without_extend, ih]

theorem scopesFrom_canonicalizeSteps (catalog : Catalog) (scope : Scope) (ids : IdSupply)
    (steps : List Step) :
    catalog.scopesFrom (scope.without "") (canonicalizeSteps ids steps).1 =
      (catalog.scopesFrom scope steps).map (·.without "") := by
  induction steps generalizing scope ids with
  | nil => rfl
  | cons s steps ih =>
    rw [canonicalizeSteps_cons, scopesFrom, scopesFrom, s.binding?_canonicalize,
      ← Scope.without_extend, ih, List.map_cons]

end Catalog

/-- The canonical form of an endpoint has the same hints in the same order, and at every position the
    scope of the given endpoint without the empty name. -/
theorem Endpoint.canonicalize_keeps_meaning (catalog : Catalog) (ids : IdSupply) (e : Endpoint) :
    catalog.hints (e.canonicalize ids).1.steps = catalog.hints e.steps ∧
      ∀ k : Nat, ((catalog.scopes (e.canonicalize ids).1.steps)[k]?).map Scope.entries =
        ((catalog.scopes e.steps)[k]?).map fun scope : Scope => scope.entries.filter (·.1 ≠ "") := by
  rw [canonicalize_eq]
  refine ⟨catalog.hintsFrom_canonicalizeSteps .empty 0 _ e.steps, ?_⟩
  intro k
  have hscopes := catalog.scopesFrom_canonicalizeSteps .empty
    (ids.skip (if e.id = "" then 1 else 0)) e.steps
  show ((catalog.scopesFrom (Scope.empty.without "") _)[k]?).map Scope.entries = _
  rw [hscopes, List.getElem?_map, Option.map_map]
  rfl

end CallFlow
