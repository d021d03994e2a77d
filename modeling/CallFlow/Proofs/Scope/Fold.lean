import CallFlow.Proofs.Scope

/-!
# Scopes from the steps before

The scopes along a list of steps are computed in one walk, and the scope before one position from
the steps in front of it. Both give the same: the names in the order in which they are bound for the
first time, each with the type that it is bound to last. Going on by one step only adds a name at
the end, or none.

## Main definitions

- `CallFlow.Catalog.newNameAt?` — the name that a step binds first
- `CallFlow.Catalog.LastBinds` — the step that binds a name last
- `CallFlow.Catalog.IsScopeBefore` — what the scope before a position has to be

## Main statements

- `CallFlow.Catalog.names_scopeAt`, `CallFlow.Catalog.get?_scopeAt_eq_some_iff` — the names of a
  scope and their types
- `CallFlow.Catalog.scopes_eq_map` — the scopes of one walk
- `CallFlow.Catalog.scopes_are_folds` — all of it together
-/

namespace CallFlow

namespace Scope

theorem names_bind (s : Scope) (name : String) (type : ValueType) :
    (s.bind name type).names = if name ∈ s.names then s.names else s.names ++ [name] :=
  bindEntry_names name type s.entries

end Scope

namespace Catalog

/-- The name that the step at a position binds. -/
def boundNameAt? (catalog : Catalog) (steps : List Step) (position : Nat) : Option String :=
  (catalog.bindingAt? steps position).map Prod.fst

/-- The name that the step at a position binds, unless an earlier step binds it too. -/
def newNameAt? (catalog : Catalog) (steps : List Step) (position : Nat) : Option String :=
  (catalog.boundNameAt? steps position).filter fun name =>
    ∀ earlier < position, catalog.boundNameAt? steps earlier ≠ some name

/-- The step at `position` binds a name to a type, and no step after it and before `limit` binds the
    name. -/
structure LastBinds (catalog : Catalog) (steps : List Step) (limit : Nat) (name : String)
    (type : ValueType) (position : Nat) : Prop where
  lt : position < limit
  binds : catalog.bindingAt? steps position = some (name, type)
  last : ∀ later, position < later → later < limit → catalog.boundNameAt? steps later ≠ some name

/-- The names are those that the steps before `limit` bind, in the order in which they are bound for
    the first time, and each has the type that it is bound to last. -/
structure IsScopeBefore (catalog : Catalog) (steps : List Step) (limit : Nat) (s : Scope) :
    Prop where
  nodup : s.names.Nodup
  names : s.names = (List.range limit).filterMap (catalog.newNameAt? steps)
  types : ∀ name type, s.get? name = some type ↔
    ∃ position, catalog.LastBinds steps limit name type position

variable {catalog : Catalog} {steps : List Step}

/-! ## The scope before one position -/

theorem boundNameAt?_of_none {position : Nat} (h : catalog.bindingAt? steps position = none) :
    catalog.boundNameAt? steps position = none := by
  rw [boundNameAt?, h]
  rfl

theorem boundNameAt?_of_some {position : Nat} {name : String} {type : ValueType}
    (h : catalog.bindingAt? steps position = some (name, type)) :
    catalog.boundNameAt? steps position = some name := by
  rw [boundNameAt?, h]
  rfl

theorem mem_names_scopeAt_iff {limit : Nat} {name : String} :
    name ∈ (catalog.scopeAt steps limit).names ↔
      ∃ position < limit, catalog.boundNameAt? steps position = some name := by
  induction limit with
  | zero => simp [scopeAt, Scope.names, Scope.empty]
  | succ limit ih =>
    rw [scopeAt_succ]
    simp only [Nat.lt_succ_iff_lt_or_eq, or_and_right, exists_or, exists_eq_left, ← ih]
    cases h : catalog.bindingAt? steps limit with
    | none => simp [Scope.extend, boundNameAt?_of_none h]
    | some b =>
      obtain ⟨bound, type⟩ := b
      rw [Scope.extend, Scope.names_bind, boundNameAt?_of_some h, Option.some.injEq]
      split
      · rename_i hmem
        refine ⟨Or.inl, ?_⟩
        rintro (hname | rfl)
        · exact hname
        · exact hmem
      · rw [List.mem_append, List.mem_singleton, eq_comm (a := name)]

/-- A name that is bound is a new one unless it is in scope already. -/
theorem newNameAt?_of_some {position : Nat} {name : String} {type : ValueType}
    (h : catalog.bindingAt? steps position = some (name, type)) :
    catalog.newNameAt? steps position =
      if name ∈ (catalog.scopeAt steps position).names then none else some name := by
  have hnew : (∀ earlier < position, catalog.boundNameAt? steps earlier ≠ some name) ↔
      name ∉ (catalog.scopeAt steps position).names := by
    rw [mem_names_scopeAt_iff, not_exists]
    exact forall_congr' fun earlier => not_and.symm
  rw [newNameAt?, boundNameAt?_of_some h, Option.filter_some]
  simp only [hnew, decide_not, Bool.not_eq_true', decide_eq_false_iff_not, ite_not]

/-- The names of a scope are listed in the order in which they are bound for the first time. -/
theorem names_scopeAt (catalog : Catalog) (steps : List Step) (limit : Nat) :
    (catalog.scopeAt steps limit).names =
      (List.range limit).filterMap (catalog.newNameAt? steps) := by
  induction limit with
  | zero => rfl
  | succ limit ih =>
    rw [scopeAt_succ, List.range_succ, List.filterMap_append, ← ih, List.filterMap_cons,
      List.filterMap_nil]
    cases h : catalog.bindingAt? steps limit with
    | none => simp [Scope.extend, newNameAt?, boundNameAt?_of_none h]
    | some b =>
      rw [Scope.extend, Scope.names_bind, newNameAt?_of_some h]
      split
      · exact (List.append_nil _).symm
      · rfl

theorem lastBinds_succ_of_ne {limit position : Nat} {name : String} {type : ValueType}
    (h : catalog.boundNameAt? steps limit ≠ some name) :
    catalog.LastBinds steps (limit + 1) name type position ↔
      catalog.LastBinds steps limit name type position := by
  constructor
  · rintro ⟨hlt, hbinds, hlast⟩
    have hne : position ≠ limit := by
      rintro rfl
      exact h (boundNameAt?_of_some hbinds)
    exact ⟨by omega, hbinds, fun later hlater hlimit => hlast later hlater (by omega)⟩
  · rintro ⟨hlt, hbinds, hlast⟩
    refine ⟨by omega, hbinds, ?_⟩
    intro later hlater hlimit
    by_cases heq : later = limit
    · rwa [heq]
    · exact hlast later hlater (by omega)

theorem lastBinds_succ_of_bound {limit position : Nat} {name : String} {type : ValueType}
    (h : catalog.boundNameAt? steps limit = some name) :
    catalog.LastBinds steps (limit + 1) name type position ↔
      position = limit ∧ catalog.bindingAt? steps limit = some (name, type) := by
  constructor
  · rintro ⟨hlt, hbinds, hlast⟩
    have heq : position = limit :=
      Nat.le_antisymm (by omega) (Nat.le_of_not_lt fun hlt => hlast limit hlt (by omega) h)
    exact ⟨heq, heq ▸ hbinds⟩
  · rintro ⟨rfl, hbinds⟩
    exact ⟨by omega, hbinds, fun later hlater hlimit => by omega⟩

/-- A name has the type that it is bound to last. -/
theorem get?_scopeAt_eq_some_iff {limit : Nat} {name : String} {type : ValueType} :
    (catalog.scopeAt steps limit).get? name = some type ↔
      ∃ position, catalog.LastBinds steps limit name type position := by
  induction limit with
  | zero =>
    refine ⟨fun h => ?_, fun ⟨_, h⟩ => ?_⟩
    · cases h
    · exact absurd h.lt (by omega)
  | succ limit ih =>
    rw [scopeAt_succ]
    -- Only the step just passed can matter, and only if it binds the name.
    by_cases hname : catalog.boundNameAt? steps limit = some name
    · simp only [lastBinds_succ_of_bound hname, exists_eq_left]
      obtain ⟨⟨bound, found⟩, hbinding, rfl⟩ := Option.map_eq_some_iff.mp hname
      rw [hbinding, Scope.extend, Scope.get?_bind_self]
      simp
    · simp only [lastBinds_succ_of_ne hname, ← ih]
      cases hbinding : catalog.bindingAt? steps limit with
      | none => rfl
      | some b =>
        have hne : name ≠ b.1 := by
          rintro rfl
          exact hname (boundNameAt?_of_some hbinding)
        rw [Scope.extend, Scope.get?_bind_of_ne hne]

theorem isScopeBefore_scopeAt (catalog : Catalog) (steps : List Step) (limit : Nat) :
    catalog.IsScopeBefore steps limit (catalog.scopeAt steps limit) where
  nodup := (catalog.scopeAt steps limit).distinct
  names := catalog.names_scopeAt steps limit
  types := fun _ _ => get?_scopeAt_eq_some_iff

/-- Past the last step, nothing more is bound. -/
theorem scopeAt_of_length_lt {limit : Nat} (h : steps.length < limit) :
    catalog.scopeAt steps limit = catalog.scopeAt steps steps.length := by
  rw [scopeAt, scopeAt, List.take_of_length_le (Nat.le_of_lt h), List.take_length]

/-! ## The scopes of one walk -/

theorem scopesFrom_eq_map (catalog : Catalog) (front steps : List Step) :
    catalog.scopesFrom (catalog.scopeAt (front ++ steps) front.length) steps =
      (List.range' front.length (steps.length + 1)).map (catalog.scopeAt (front ++ steps)) := by
  induction steps generalizing front with
  | nil => rfl
  | cons step steps ih =>
    have hrest := ih (front ++ [step])
    rw [List.append_assoc, List.singleton_append, List.length_append, List.length_singleton,
      scopeAt_append_cons] at hrest
    rw [scopesFrom, hrest, List.length_cons, ← List.map_cons, ← List.range'_succ]

theorem scopes_eq_map (catalog : Catalog) (steps : List Step) :
    catalog.scopes steps = (List.range (steps.length + 1)).map (catalog.scopeAt steps) := by
  rw [List.range_eq_range']
  exact catalog.scopesFrom_eq_map [] steps

/-- The scopes depend only on what the steps bind. -/
theorem scopes_congr {steps' : List Step} (hlength : steps'.length = steps.length)
    (h : ∀ p, catalog.bindingAt? steps' p = catalog.bindingAt? steps p) :
    catalog.scopes steps' = catalog.scopes steps := by
  have hat : catalog.scopeAt steps' = catalog.scopeAt steps := by
    funext limit
    exact scopeAt_congr fun p _ => h p
  rw [scopes_eq_map, scopes_eq_map, hlength, hat]

theorem getElem?_scopes {position : Nat} (h : position ≤ steps.length) :
    (catalog.scopes steps)[position]? = some (catalog.scopeAt steps position) := by
  rw [scopes_eq_map, List.getElem?_map, List.getElem?_range (by omega)]
  rfl

theorem getElem?_scopes_eq_some {position : Nat} {s : Scope}
    (h : (catalog.scopes steps)[position]? = some s) : s = catalog.scopeAt steps position := by
  rw [scopes_eq_map, List.getElem?_map] at h
  obtain ⟨p, hp, rfl⟩ := Option.map_eq_some_iff.mp h
  rw [(List.getElem?_eq_some_iff.mp hp).2.symm, List.getElem_range]

/-- One walk gives the scope before each position and after the last step. Past the end the scope
    does not change any more. Each scope lists the names in the order in which they are bound for
    the first time, with the types they are bound to last, and the next one goes on from its
    names. -/
theorem scopes_are_folds (catalog : Catalog) (steps : List Step) :
    (catalog.scopes steps).length = steps.length + 1 ∧
      (∀ k ≤ steps.length, (catalog.scopes steps)[k]? = some (catalog.scopeAt steps k)) ∧
      (∀ k > steps.length, catalog.scopeAt steps k = catalog.scopeAt steps steps.length) ∧
      (∀ k, catalog.IsScopeBefore steps k (catalog.scopeAt steps k)) ∧
      ∀ k s t, (catalog.scopes steps)[k]? = some s → (catalog.scopes steps)[k + 1]? = some t →
        s.names <+: t.names := by
  refine ⟨?_, fun k hk => getElem?_scopes hk, fun k hk => scopeAt_of_length_lt hk,
    catalog.isScopeBefore_scopeAt steps, ?_⟩
  · rw [scopes_eq_map, List.length_map, List.length_range]
  · intro k s t hs ht
    rw [getElem?_scopes_eq_some hs, getElem?_scopes_eq_some ht, names_scopeAt, names_scopeAt,
      List.range_succ, List.filterMap_append]
    exact List.prefix_append _ _

/-- The name `a` is bound to an object and then to text, and a call of a method that does not exist
    binds nothing in between. -/
theorem scopes_are_folds_rebound :
    let method (name : String) (type : ValueType) : Method := ⟨name, "", [], [⟨"", "", some type⟩]⟩
    let catalog : Catalog :=
      ⟨[⟨"db", "", "", "", [method "find" (.object "user"), method "name" .text]⟩]⟩
    let call (method output : String) : Step :=
      .call ⟨"", "db", method, some output, []⟩
    let steps := [call "find" "a", call "name" "b", call "drop" "c", call "name" "a"]
    (catalog.scopes steps)[4]? = some (catalog.scopeAt steps 4) ∧
      catalog.scopeAt steps 7 = catalog.scopeAt steps 4 ∧
      (catalog.scopeAt steps 4).entries = [("a", .text), ("b", .text)] ∧
      (∃ position, catalog.LastBinds steps 4 "a" .text position) ∧
      (catalog.scopeAt steps 1).names <+: (catalog.scopeAt steps 2).names := by
  intro method catalog call steps
  obtain ⟨-, hwalk, hpast, hscope, hnext⟩ := scopes_are_folds catalog steps
  have hentries : (catalog.scopeAt steps 4).entries = [("a", .text), ("b", .text)] := by decide
  refine ⟨hwalk 4 (by decide), hpast 7 (by decide), hentries, ?_, ?_⟩
  · refine ((hscope 4).types "a" .text).mp ?_
    rw [Scope.get?, hentries]
    rfl
  · exact hnext 1 _ _ (hwalk 1 (by decide)) (hwalk 2 (by decide))

end Catalog

end CallFlow
