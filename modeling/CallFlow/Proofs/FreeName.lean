import Mathlib.Data.List.Nodup
import CallFlow.Edit
import CallFlow.Proofs.Scope

/-!
# Free names for results

A method that is selected gets a name for its result: the declared one, or if that is bound already,
the declared one with the least number that makes it free. The search for the number has no limit of
its own. It ends because different numbers make different names, so that a scope with `k` names runs
out after at most `k` of them; and as the declared name is among the `k`, the number is below `k`.

The search strikes off each name that it finds taken. This changes nothing for the names still to
come, again because they differ from those before them.

## Main definitions

- `CallFlow.Scope.LeastSuffix` — the least number that makes a name free
- `CallFlow.Scope.searchSuffix?` — the search through the numbers in turn, up to a limit
- `CallFlow.Scope.FreeName` — the free name that comes first for a declared one

## Main statements

- `CallFlow.firstFreeName_eq` — what the search for a free name finds
- `CallFlow.Scope.LeastSuffix.lt_size` — how far it has to go
- `CallFlow.Method.autoOutputName?_is_least_free` — the name that a result is given
-/

namespace CallFlow

theorem append_toString_injective (stem : String) :
    Function.Injective fun n : Nat => stem ++ toString n := by
  intro m n h
  have htext : toString m = toString n := (String.append_right_inj stem).mp h
  rw [Nat.toString_eq_ofList_toDigits, Nat.toString_eq_ofList_toDigits] at htext
  have hdigits : Nat.toDigits 10 m = Nat.toDigits 10 n := String.ofList_injective htext
  calc
    m = Nat.ofDigitChars 10 (Nat.toDigits 10 m) 0 := Nat.ofDigitChars_ten_toDigits.symm
    _ = Nat.ofDigitChars 10 (Nat.toDigits 10 n) 0 := by rw [hdigits]
    _ = n := Nat.ofDigitChars_ten_toDigits

/-- The search ends at the first number whose name is not taken. -/
theorem firstFreeName_eq (stem : String) (taken : List String) (n : Nat) :
    ∃ m ≥ n, firstFreeName stem taken n = stem ++ toString m ∧ stem ++ toString m ∉ taken ∧
      ∀ k, n ≤ k → k < m → stem ++ toString k ∈ taken := by
  fun_induction firstFreeName stem taken n with
  | case1 taken n h ih =>
    obtain ⟨m, hm, heq, hfree, hbelow⟩ := ih
    -- The name that was struck off is none of those that are looked at later.
    have herase : ∀ k, n < k →
        (stem ++ toString k ∈ taken.erase (stem ++ toString n) ↔ stem ++ toString k ∈ taken) := by
      intro k hk
      refine List.mem_erase_of_ne fun hname => ?_
      exact absurd (append_toString_injective stem hname) (by omega)
    refine ⟨m, by omega, heq, mt (herase m (by omega)).mpr hfree, ?_⟩
    intro k hk hkm
    by_cases hkn : k = n
    · rwa [hkn]
    · exact (herase k (by omega)).mp (hbelow k (by omega) hkm)
  | case2 taken n h => exact ⟨n, Nat.le_refl n, rfl, h, fun k hk hkn => absurd hk (by omega)⟩

/-! ## Scopes -/

namespace Scope

/-- The name with the number is free, and those with smaller numbers are bound. -/
structure LeastSuffix (s : Scope) (stem : String) (n : Nat) : Prop where
  free : s.contains (stem ++ toString n) = false
  least : ∀ k < n, s.contains (stem ++ toString k) = true

/-- The first number that makes a name free, if it is found before the limit. -/
def searchSuffix? (s : Scope) (stem : String) (limit : Nat) : Option Nat :=
  (List.range limit).find? fun n => s.contains (stem ++ toString n) = false

/-- The free name that comes first for a declared one: the declared one itself, else the one with the
    least number. -/
inductive FreeName (s : Scope) (declared : String) : String → Prop
  | declared (hfree : s.contains declared = false) : FreeName s declared declared
  | numbered {n : Nat} (hbound : s.contains declared = true) (hleast : s.LeastSuffix declared n) :
      FreeName s declared (declared ++ toString n)

variable {s : Scope} {stem declared name : String} {n : Nat}

/-- If the stem itself is bound, the number is smaller than the number of names: the stem and the
    names with smaller numbers are all different, and all in scope. -/
theorem LeastSuffix.lt_size (h : s.LeastSuffix stem n) (hstem : s.contains stem = true) :
    n < s.size := by
  let tried := (List.range n).map fun k => stem ++ toString k
  have hdistinct : (stem :: tried).Nodup := by
    refine List.nodup_cons.mpr ⟨?_, List.nodup_range.map (append_toString_injective stem)⟩
    intro hmem
    obtain ⟨k, -, hk⟩ := List.mem_map.mp hmem
    simp at hk
  have hbound : stem :: tried ⊆ s.names := by
    refine List.cons_subset.mpr ⟨contains_iff.mp hstem, ?_⟩
    intro name hname
    obtain ⟨k, hk, rfl⟩ := List.mem_map.mp hname
    exact contains_iff.mp (h.least k (List.mem_range.mp hk))
  calc
    n + 1 = (stem :: tried).length := by simp [tried]
    _ ≤ s.names.length := hdistinct.length_le_of_subset hbound
    _ = s.size := List.length_map Prod.fst

/-- Going through the numbers in turn finds the least one, wherever the limit is above it. -/
theorem LeastSuffix.search (h : s.LeastSuffix stem n) {limit : Nat} (hlimit : n < limit) :
    s.searchSuffix? stem limit = some n := by
  refine List.find?_range_eq_some.mpr ⟨decide_eq_true h.free, List.mem_range.mpr hlimit, ?_⟩
  intro k hk
  rw [h.least k hk]
  rfl

theorem FreeName.contains (h : s.FreeName declared name) : s.contains name = false := by
  cases h with
  | declared hfree => exact hfree
  | numbered _ hleast => exact hleast.free

theorem FreeName.ne_empty (h : s.FreeName declared name) (hdeclared : declared ≠ "") : name ≠ "" := by
  cases h with
  | declared _ => exact hdeclared
  | numbered _ _ => simp [String.append_eq_empty_iff, hdeclared]

end Scope

/-! ## Results -/

namespace Method

variable {scope : Scope} {m : Method} {p : Pin} {name : String}

/-- A result that is declared under a name gets a free one. -/
theorem exists_autoOutputName? (scope : Scope) (hp : m.primaryOutput? = some p)
    (hname : p.name ≠ "") :
    ∃ name, m.autoOutputName? scope = some name ∧ scope.FreeName p.name name := by
  cases hbound : scope.contains p.name with
  | false => exact ⟨p.name, by simp [autoOutputName?, hp, hname, hbound], .declared hbound⟩
  | true =>
    obtain ⟨n, -, heq, hfree, hbelow⟩ := firstFreeName_eq p.name scope.names 0
    refine ⟨p.name ++ toString n, ?_, .numbered hbound ⟨?_, ?_⟩⟩
    · rw [← heq]
      simp [autoOutputName?, hp, hname, hbound]
    · exact Scope.contains_eq_false_iff.mpr hfree
    · intro k hk
      exact Scope.contains_iff.mpr (hbelow k (Nat.zero_le k) hk)

theorem autoOutputName?_eq_none_iff (scope : Scope) :
    m.autoOutputName? scope = none ↔ ∀ p, m.primaryOutput? = some p → p.name = "" := by
  constructor
  · intro h p hp
    by_contra hname
    obtain ⟨name, heq, -⟩ := exists_autoOutputName? scope hp hname
    rw [h] at heq
    cases heq
  · intro h
    cases hp : m.primaryOutput? with
    | none => simp [autoOutputName?, hp]
    | some p => simp [autoOutputName?, hp, h p hp]

theorem freeName_of_autoOutputName? (h : m.autoOutputName? scope = some name) :
    ∃ p, m.primaryOutput? = some p ∧ p.name ≠ "" ∧ scope.FreeName p.name name := by
  have hsome : ¬∀ p, m.primaryOutput? = some p → p.name = "" := by
    rw [← autoOutputName?_eq_none_iff scope, h]
    exact Option.some_ne_none name
  push Not at hsome
  obtain ⟨p, hp, hname⟩ := hsome
  obtain ⟨found, heq, hfree⟩ := exists_autoOutputName? scope hp hname
  rw [h] at heq
  cases heq
  exact ⟨p, hp, hname, hfree⟩

/-- No name is given exactly if there is no output or the first one is declared without a name.
    Otherwise the name is free. It is the declared one if that is free, and else has the least number
    that makes it so; this number is smaller than the number of names in scope, so going through the
    numbers in turn comes to an end before that. -/
theorem autoOutputName?_is_least_free (scope : Scope) (m : Method) :
    (m.autoOutputName? scope = none ↔
        m.outputs = [] ∨ ∃ p, m.outputs.head? = some p ∧ p.name = "") ∧
      ∀ p, m.outputs.head? = some p → p.name ≠ "" →
        ∃ name, m.autoOutputName? scope = some name ∧ scope.contains name = false ∧
          (scope.contains p.name = false → name = p.name) ∧
          (scope.contains p.name = true →
            ∃ n < scope.size, name = p.name ++ toString n ∧ scope.LeastSuffix p.name n ∧
              ∀ limit ≥ scope.size, scope.searchSuffix? p.name limit = some n) := by
  constructor
  · rw [autoOutputName?_eq_none_iff, primaryOutput?]
    cases m.outputs <;> simp
  · intro p hp hname
    obtain ⟨name, heq, hfree⟩ := exists_autoOutputName? scope hp hname
    refine ⟨name, heq, hfree.contains, ?_, ?_⟩
    · intro hdeclared
      cases hfree with
      | declared _ => rfl
      | numbered hbound _ => simp [hdeclared] at hbound
    · intro hbound
      cases hfree with
      | declared hdeclared => simp [hbound] at hdeclared
      | @numbered n _ hleast =>
        have hlt : n < scope.size := hleast.lt_size hbound
        exact ⟨n, hlt, rfl, hleast, fun limit hlimit => hleast.search (by omega)⟩

/-- The numbers `0` and `2` are taken, and `1` only with a zero in front of it. -/
theorem autoOutputName?_is_least_free_gap :
    let scope := ["user2", "user", "user01", "user0"].foldl (fun s name => s.bind name .text) .empty
    let find : Method := ⟨"find", "", [], [⟨"user", "", some .text⟩, ⟨"", "", none⟩]⟩
    scope.contains "user" = true ∧ find.autoOutputName? scope = some "user1" ∧
      scope.LeastSuffix "user" 1 ∧ scope.searchSuffix? "user" scope.size = some 1 ∧
      find.autoOutputName? .empty = some "user" := by
  intro scope find
  have hbound : scope.contains "user" = true := by decide
  have hfound : scope.searchSuffix? "user" scope.size = some 1 := by decide
  obtain ⟨name, heq, -, -, hnumbered⟩ :=
    (autoOutputName?_is_least_free scope find).2 _ rfl (by decide)
  obtain ⟨n, -, rfl, hleast, hsearch⟩ := hnumbered hbound
  obtain rfl : 1 = n := Option.some.inj (hfound.symm.trans (hsearch _ (Nat.le_refl _)))
  obtain ⟨name, hempty, -, hdeclared, -⟩ :=
    (autoOutputName?_is_least_free .empty find).2 _ rfl (by decide)
  rw [hdeclared rfl] at hempty
  exact ⟨hbound, heq, hleast, hfound, hempty⟩

end Method

end CallFlow
