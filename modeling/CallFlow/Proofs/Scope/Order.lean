import Mathlib.Data.List.Perm.Subperm
import CallFlow.Proofs.FreeName

/-!
# Scopes up to order

Two scopes are compared without regard to order, while some of their users go through the names in
order. Scopes that compare equal list the same names with the same types, each of them once, so one
list is a rearrangement of the other. What a name means is then the same in both, and so is whatever
follows from that: which names are free, and how an operand is presented. The suggestions are the same
up to order; the first one need not be.

## Main statements

- `CallFlow.Scope.sameBindings_iff_perm` — scopes compare equal if they are rearrangements
- `CallFlow.Scope.perm_entries_iff` — rearranged scopes are those with the same lookups
- `CallFlow.Method.autoOutputName?_congr` — what a free name depends on
- `CallFlow.Scope.sameBindings_ignores_order` — what does not depend on the order of a scope
-/

namespace CallFlow

namespace Scope

variable {s t : Scope}

/-! ## Comparing scopes -/

theorem nodup_entries (s : Scope) : s.entries.Nodup :=
  s.distinct.of_map Prod.fst

/-- Scopes that compare equal are rearrangements of each other: as many names, all of one among those
    of the other, and no name twice. -/
theorem sameBindings_iff_perm : s.sameBindings t = true ↔ s.entries.Perm t.entries := by
  rw [sameBindings, Bool.and_eq_true, beq_iff_eq, List.all_eq_true]
  constructor
  · rintro ⟨hsize, hall⟩
    have hsubset : s.entries ⊆ t.entries := by
      rintro ⟨name, type⟩ hentry
      exact get?_eq_some_iff.mp (eq_of_beq (hall _ hentry))
    exact (List.subperm_of_subset s.nodup_entries hsubset).perm_of_length_le (Nat.le_of_eq hsize.symm)
  · intro hperm
    refine ⟨hperm.length_eq, ?_⟩
    rintro ⟨name, type⟩ hentry
    exact beq_iff_eq.mpr (get?_eq_some_iff.mpr (hperm.subset hentry))

/-- Scopes are rearrangements of each other exactly if each name means the same in both. -/
theorem perm_entries_iff : s.entries.Perm t.entries ↔ ∀ name, s.get? name = t.get? name := by
  rw [List.perm_ext_iff_of_nodup s.nodup_entries t.nodup_entries]
  constructor
  · intro h name
    ext type
    rw [get?_eq_some_iff, get?_eq_some_iff, h]
  · rintro h ⟨name, type⟩
    rw [← get?_eq_some_iff, ← get?_eq_some_iff, h]

theorem contains_eq_of_perm (h : s.entries.Perm t.entries) (name : String) :
    s.contains name = t.contains name :=
  (h.map Prod.fst).contains_eq

/-! ## Suggestions -/

theorem suggest_perm (h : s.entries.Perm t.entries) (expected : Option ValueType) :
    (s.suggest expected).Perm (t.suggest expected) := by
  cases expected with
  | none => exact .refl []
  | some type =>
    cases type with
    | object id => exact (h.filter _).map Prod.fst
    | text => exact .refl []

theorem nodup_suggest (s : Scope) (expected : Option ValueType) : (s.suggest expected).Nodup := by
  cases expected with
  | none => exact List.nodup_nil
  | some type =>
    cases type with
    | object id => exact s.distinct.sublist (List.filter_sublist.map Prod.fst)
    | text => exact List.nodup_nil

/-! ## Free names -/

variable {stem declared name name' : String} {m n : Nat}

theorem LeastSuffix.unique (hm : s.LeastSuffix stem m) (hn : s.LeastSuffix stem n) : m = n := by
  rcases Nat.lt_trichotomy m n with hlt | heq | hgt
  · exact absurd (hn.least m hlt) (by rw [hm.free]; exact Bool.false_ne_true)
  · exact heq
  · exact absurd (hm.least n hgt) (by rw [hn.free]; exact Bool.false_ne_true)

theorem FreeName.unique (h : s.FreeName declared name) (h' : s.FreeName declared name') :
    name = name' := by
  cases h with
  | declared hfree =>
    cases h' with
    | declared _ => rfl
    | numbered hbound _ => simp [hfree] at hbound
  | numbered hbound hleast =>
    cases h' with
    | declared hfree => simp [hbound] at hfree
    | numbered _ hleast' => rw [hleast.unique hleast']

/-- Which name is free depends on which names are bound. -/
theorem FreeName.congr (h : ∀ name, s.contains name = t.contains name)
    (hfree : s.FreeName declared name) : t.FreeName declared name := by
  cases hfree with
  | declared hfree => exact .declared (by rw [← h, hfree])
  | numbered hbound hleast =>
    refine .numbered (by rw [← h, hbound]) ⟨by rw [← h, hleast.free], ?_⟩
    intro k hk
    rw [← h, hleast.least k hk]

end Scope

/-- The name that a result is given depends on which names are bound, not on their types or order. -/
theorem Method.autoOutputName?_congr {s t : Scope} (h : ∀ name, s.contains name = t.contains name)
    (m : Method) : m.autoOutputName? s = m.autoOutputName? t := by
  cases hs : m.autoOutputName? s with
  | none => exact ((autoOutputName?_eq_none_iff t).mpr ((autoOutputName?_eq_none_iff s).mp hs)).symm
  | some name =>
    obtain ⟨p, hp, hname, hfree⟩ := freeName_of_autoOutputName? hs
    obtain ⟨found, hfound, hfree'⟩ := exists_autoOutputName? t hp hname
    rw [hfound, (hfree.congr h).unique hfree']

theorem Operand.presentation_congr {s t : Scope} (h : s.entries.Perm t.entries)
    (expected : Option ValueType) (o : Operand) :
    o.presentation expected s = o.presentation expected t := by
  cases o with
  | parameter name =>
    rw [presentation, presentation, (Scope.suggest_perm h expected).contains_eq]
  | literal text => rfl
  | unset => rfl

/-- Scopes compare equal exactly if every name means the same in both, however they were built. Such
    scopes give every result the same name, present every operand alike, and have the same suggestions
    up to order, none of them twice. -/
theorem Scope.sameBindings_ignores_order (s t : Scope) :
    (s.sameBindings t = true ↔ ∀ name, s.get? name = t.get? name) ∧
      (s.sameBindings t = true →
        (∀ m : Method, m.autoOutputName? s = m.autoOutputName? t) ∧
        (∀ (o : Operand) (expected : Option ValueType),
          o.presentation expected s = o.presentation expected t) ∧
        ∀ expected : Option ValueType, (s.suggest expected).Perm (t.suggest expected) ∧
          (s.suggest expected).Nodup ∧ (t.suggest expected).Nodup) := by
  refine ⟨sameBindings_iff_perm.trans perm_entries_iff, ?_⟩
  intro hsame
  have hperm := sameBindings_iff_perm.mp hsame
  refine ⟨?_, ?_, ?_⟩
  · exact Method.autoOutputName?_congr (contains_eq_of_perm hperm)
  · exact fun o expected => o.presentation_congr hperm expected
  · intro expected
    exact ⟨suggest_perm hperm expected, s.nodup_suggest expected, t.nodup_suggest expected⟩

/-- The second scope was built in another order, and one of its names had another type at first. The
    suggestions come in another order then, but the next free name is the same. -/
theorem Scope.sameBindings_ignores_order_overwritten :
    let row : ValueType := .object "Row"
    let s := ((empty.bind "user" row).bind "user0" .text).bind "admin" row
    let t := (((empty.bind "admin" .text).bind "user0" .text).bind "user" row).bind "admin" row
    let find : Method := ⟨"find", "", [], [⟨"user", "", some row⟩]⟩
    s.sameBindings t = true ∧ (∀ name, s.get? name = t.get? name) ∧
      (s.suggest (some row)).Perm (t.suggest (some row)) ∧
      s.suggest (some row) = ["user", "admin"] ∧ t.suggest (some row) = ["admin", "user"] ∧
      find.autoOutputName? s = find.autoOutputName? t := by
  intro row s t find
  have hsame : s.sameBindings t = true := by decide
  obtain ⟨hiff, hrest⟩ := sameBindings_ignores_order s t
  obtain ⟨hauto, -, hsuggest⟩ := hrest hsame
  exact ⟨hsame, hiff.mp hsame, (hsuggest (some row)).1, by decide, by decide, hauto find⟩

end CallFlow
