import CallFlow.Binding

/-!
# Scopes along the steps

Looking a name up after it was bound gives the type it was bound to, whatever the name meant before,
and other names keep their meaning. The scope before a position is built one step at a time.

## Main statements

- `CallFlow.Scope.get?_bind` — lookups after a name was bound
- `CallFlow.Scope.mem_suggest_iff` — the names that are suggested
- `CallFlow.Catalog.scopeAt_succ` — the scope after a step
- `CallFlow.Catalog.scopeAt_congr` — what the scope before a position depends on
-/

namespace CallFlow

theorem lookup_cons (n : String) (t : ValueType) (es : List (String × ValueType)) (x : String) :
    ((n, t) :: es).lookup x = if x = n then some t else es.lookup x := by
  rw [List.lookup_cons]
  by_cases hx : x = n
  · rw [if_pos hx, hx, beq_self_eq_true]
  · rw [if_neg hx, beq_false_of_ne hx]

theorem lookup_bindEntry (name : String) (type : ValueType) (es : List (String × ValueType))
    (x : String) :
    (bindEntry name type es).lookup x = if x = name then some type else es.lookup x := by
  induction es with
  | nil => exact lookup_cons name type [] x
  | cons e es ih =>
    obtain ⟨n, t⟩ := e
    rw [bindEntry, lookup_cons]
    by_cases hn : n = name
    · rw [if_pos hn, lookup_cons, hn]
      split <;> rfl
    · rw [if_neg hn, lookup_cons, ih]
      -- The entry in front is not that of the bound name, so it stays in front.
      by_cases hx : x = n
      · rw [if_pos hx, if_neg (hx ▸ hn), if_pos hx]
      · rw [if_neg hx, if_neg hx]

namespace Scope

/-- A name that was just bound has its new type; the others keep theirs. -/
theorem get?_bind (s : Scope) (name : String) (type : ValueType) (x : String) :
    (s.bind name type).get? x = if x = name then some type else s.get? x :=
  lookup_bindEntry name type s.entries x

@[simp] theorem get?_bind_self (s : Scope) (name : String) (type : ValueType) :
    (s.bind name type).get? name = some type := by
  rw [get?_bind, if_pos rfl]

theorem get?_bind_of_ne {x name : String} (h : x ≠ name) (s : Scope) (type : ValueType) :
    (s.bind name type).get? x = s.get? x := by
  rw [get?_bind, if_neg h]

/-- A name is found with the type it is listed with: no name is listed twice. -/
theorem get?_eq_some_iff {s : Scope} {name : String} {type : ValueType} :
    s.get? name = some type ↔ (name, type) ∈ s.entries := by
  rw [get?, List.lookup_eq_some_iff]
  constructor
  · rintro ⟨front, back, hsplit, -⟩
    simp [hsplit]
  · intro hmem
    obtain ⟨front, back, hsplit⟩ := List.append_of_mem hmem
    refine ⟨front, back, hsplit, ?_⟩
    intro entry hentry
    have hdistinct := s.distinct
    rw [hsplit, List.map_append, List.nodup_append] at hdistinct
    have hne := hdistinct.2.2 entry.1 (List.mem_map_of_mem hentry) name (by simp)
    simpa using Ne.symm hne

theorem contains_iff {s : Scope} {name : String} : s.contains name = true ↔ name ∈ s.names :=
  List.contains_iff_mem

theorem contains_eq_false_iff {s : Scope} {name : String} :
    s.contains name = false ↔ name ∉ s.names := by
  rw [← contains_iff, Bool.not_eq_true]

/-- A name that is found is in scope. -/
theorem mem_names_of_get? {s : Scope} {name : String} {type : ValueType}
    (h : s.get? name = some type) : name ∈ s.names :=
  List.mem_map_of_mem (get?_eq_some_iff.mp h)

/-- Where an object is expected, the names with its type are suggested. -/
theorem mem_suggest_iff {s : Scope} {name id : String} :
    name ∈ s.suggest (some (.object id)) ↔ s.get? name = some (.object id) := by
  rw [get?_eq_some_iff, suggest, List.mem_map]
  constructor
  · rintro ⟨⟨n, t⟩, hentry, rfl⟩
    obtain ⟨hmem, htype⟩ := List.mem_filter.mp hentry
    rwa [← of_decide_eq_true htype]
  · intro hmem
    exact ⟨(name, .object id), List.mem_filter.mpr ⟨hmem, by simp⟩, rfl⟩

theorem suggest_eq_nil_iff {s : Scope} {id : String} :
    s.suggest (some (.object id)) = [] ↔ ∀ name, s.get? name ≠ some (.object id) := by
  rw [List.eq_nil_iff_forall_not_mem]
  exact forall_congr' fun name => not_congr mem_suggest_iff

end Scope

/-- A step binds the name it has for its result, if it binds any. -/
theorem Step.outputName_of_binding? {catalog : Catalog} {s : Step} {name : String}
    {type : ValueType} (h : s.binding? catalog = some (name, type)) : s.outputName = some name := by
  cases s with
  | ret r => cases h
  | call c =>
    rw [binding?] at h
    split at h
    · rename_i hname _
      obtain ⟨_, _, heq⟩ := Option.map_eq_some_iff.mp h
      cases heq
      exact hname
    · cases h

namespace Catalog

/-- The name and type that the step at a position binds. -/
def bindingAt? (catalog : Catalog) (steps : List Step) (position : Nat) :
    Option (String × ValueType) :=
  steps[position]?.bind (·.binding? catalog)

/-- The scope after a step is the one before it with what the step binds. -/
theorem scopeAt_succ (catalog : Catalog) (steps : List Step) (position : Nat) :
    catalog.scopeAt steps (position + 1) =
      (catalog.scopeAt steps position).extend (catalog.bindingAt? steps position) := by
  rw [scopeAt, List.take_add_one, List.filterMap_append, List.foldl_append, bindingAt?]
  cases steps[position]? with
  | none => rfl
  | some s => cases hs : s.binding? catalog <;> simp [hs, Scope.extend, scopeAt]

/-- The scope before a position depends only on what the steps before it bind. -/
theorem scopeAt_congr {catalog : Catalog} {steps steps' : List Step} {limit : Nat}
    (h : ∀ p < limit, catalog.bindingAt? steps' p = catalog.bindingAt? steps p) :
    catalog.scopeAt steps' limit = catalog.scopeAt steps limit := by
  induction limit with
  | zero => rfl
  | succ limit ih =>
    have hrest := ih fun p hp => h p (by omega)
    rw [scopeAt_succ, scopeAt_succ, hrest, h limit (by omega)]

theorem scopeAt_append_cons (catalog : Catalog) (front : List Step) (step : Step)
    (steps : List Step) :
    catalog.scopeAt (front ++ step :: steps) (front.length + 1) =
      (catalog.scopeAt (front ++ step :: steps) front.length).extend (step.binding? catalog) := by
  have hstep : (front ++ step :: steps)[front.length]? = some step := by simp
  rw [scopeAt_succ, bindingAt?, hstep]
  rfl

/-- The scope before a position does not depend on the steps from there on. -/
theorem scopeAt_set_of_le {i position : Nat} (h : position ≤ i) (catalog : Catalog)
    (steps : List Step) (step : Step) :
    catalog.scopeAt (steps.set i step) position = catalog.scopeAt steps position := by
  rw [scopeAt, List.take_set_of_le h, scopeAt]

end Catalog

end CallFlow
