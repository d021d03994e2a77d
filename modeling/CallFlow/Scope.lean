import CallFlow.ValueType

/-!
# Scopes

A scope lists the names that are bound at some place, each with its type, in the order in which
they were first bound. Binding a name again changes its type and not its place.

## Main definitions

- `CallFlow.Scope` — names with their types, no name twice
- `CallFlow.Scope.get?`, `CallFlow.Scope.bind` — look a name up, bind a name
- `CallFlow.Scope.sameBindings` — equality up to order
- `CallFlow.Scope.suggest` — the names that fit an expected type
-/

namespace CallFlow

/-- Binds a name in a list of names with types: in its place if it is there, else at the end. -/
def bindEntry (name : String) (type : ValueType) :
    List (String × ValueType) → List (String × ValueType)
  | [] => [(name, type)]
  | (n, t) :: es => if n = name then (n, type) :: es else (n, t) :: bindEntry name type es

/-- The names after binding: the same ones in the same order, with a new one at the end. -/
theorem bindEntry_names (name : String) (type : ValueType) (es : List (String × ValueType)) :
    (bindEntry name type es).map Prod.fst =
      if name ∈ es.map Prod.fst then es.map Prod.fst else es.map Prod.fst ++ [name] := by
  induction es with
  | nil => rfl
  | cons e es ih =>
    obtain ⟨n, t⟩ := e
    by_cases hn : n = name
    · simp [bindEntry, hn]
    · have hne : ¬name = n := fun h => hn h.symm
      by_cases hmem : name ∈ es.map Prod.fst
      · simp only [bindEntry, hn, if_false, List.map_cons, ih, hmem, if_true, List.mem_cons,
          or_true]
      · simp only [bindEntry, hn, if_false, List.map_cons, ih, hmem, List.mem_cons, hne, or_false,
          List.cons_append]

theorem bindEntry_nodup {name : String} {type : ValueType} {es : List (String × ValueType)}
    (h : (es.map Prod.fst).Nodup) : ((bindEntry name type es).map Prod.fst).Nodup := by
  rw [bindEntry_names]
  split
  · exact h
  · rename_i hmem
    rw [List.nodup_append]
    refine ⟨h, List.pairwise_singleton _ name, ?_⟩
    intro a ha b hb hab
    rw [List.mem_singleton] at hb
    exact hmem (hb ▸ hab ▸ ha)

/-- Names with their types, in the order in which they were first bound. -/
structure Scope where
  entries : List (String × ValueType)
  distinct : (entries.map Prod.fst).Nodup
deriving DecidableEq

namespace Scope

/-- The scope in which nothing is bound. -/
def empty : Scope := ⟨[], List.nodup_nil⟩

instance : Inhabited Scope := ⟨empty⟩

/-- The names of a scope, in order. -/
def names (s : Scope) : List String := s.entries.map Prod.fst

/-- The number of names. -/
def size (s : Scope) : Nat := s.entries.length

/-- Whether nothing is bound. -/
def isEmpty (s : Scope) : Bool := s.entries.isEmpty

/-- The type to which a name is bound. -/
def get? (s : Scope) (name : String) : Option ValueType := s.entries.lookup name

/-- Whether a name is bound. -/
def contains (s : Scope) (name : String) : Bool := s.names.contains name

/-- Binds a name to a type. -/
def bind (s : Scope) (name : String) (type : ValueType) : Scope :=
  ⟨bindEntry name type s.entries, bindEntry_nodup s.distinct⟩

/-- Adds a binding if there is one. -/
def extend (s : Scope) : Option (String × ValueType) → Scope
  | none => s
  | some (name, type) => s.bind name type

/-- Whether two scopes bind the same names to the same types, in whatever order. -/
def sameBindings (s t : Scope) : Bool :=
  s.size == t.size && s.entries.all fun (name, type) => t.get? name == some type

/-- The names that fit an expected object type, in order. Nothing is suggested where text or no
    type in particular is expected. -/
def suggest (s : Scope) : Option ValueType → List String
  | some (.object id) => (s.entries.filter fun (_, type) => type = .object id).map Prod.fst
  | some .text => []
  | none => []

/-- The first name that fits an expected type. -/
def firstSuggestion? (s : Scope) (expected : Option ValueType) : Option String :=
  (s.suggest expected).head?

end Scope

end CallFlow
