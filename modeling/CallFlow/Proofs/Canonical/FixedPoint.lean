import Mathlib.Data.List.Forall2
import CallFlow.Proofs.Canonical

/-!
# Canonical endpoints are the fixed points

Canonicalizing fills in the identifiers that are missing, in the order in which they stand: first that
of the endpoint, then those of its steps. Each is the next one of the supply, so which one it is follows
from how many are missing in front of it. Everything else that an endpoint says is kept, apart from the
blanks around its address and from names that are empty.

What comes out is canonical, and what is canonical is left alone. So the canonical endpoints are those
that canonicalizing does not change, and doing it twice is doing it once.

## Main definitions

- `CallFlow.FilledFrom` — identifiers of which the missing ones were filled in from a supply
- `CallFlow.Endpoint.ContentKept` — an endpoint that says the same as another one

## Main statements

- `CallFlow.Endpoint.filledFrom_canonicalize`, `CallFlow.Endpoint.contentKept_canonicalize` — what
  canonicalizing fills in, and what it keeps
- `CallFlow.Endpoint.canonicalize_fixes_canonical_only` — the fixed points
-/

namespace CallFlow

/-! ## What is filled in -/

/-- The empty identifiers are filled in from a supply, each with the next one that it has, and the
    others stay. -/
structure FilledFrom (ids : IdSupply) (before after : List String) : Prop where
  length : after.length = before.length
  filled : ∀ k id, before[k]? = some id →
    after[k]? = some (if id = "" then ids.id (ids.drawn + (before.take k).count "") else id)

/-- What is left of the supply after the first identifier serves the rest of them. -/
theorem FilledFrom.cons {ids : IdSupply} {before after : List String} (id : String)
    (h : FilledFrom (ids.skip (if id = "" then 1 else 0)) before after) :
    FilledFrom ids (id :: before) ((if id = "" then ids.id ids.drawn else id) :: after) where
  length := congrArg (· + 1) h.length
  filled := by
    intro k found hfound
    cases k with
    | zero =>
      cases hfound
      simp
    | succ k =>
      have hdrawn : (ids.skip (if id = "" then 1 else 0)).drawn + (before.take k).count "" =
          ids.drawn + ((id :: before).take (k + 1)).count "" := by
        rw [List.take_succ_cons, List.count_cons]
        simp only [IdSupply.skip, beq_iff_eq]
        omega
      rw [List.getElem?_cons_succ, h.filled k found hfound, hdrawn]
      rfl

theorem filledFrom_canonicalizeSteps (ids : IdSupply) (steps : List Step) :
    FilledFrom ids (steps.map Step.id) ((canonicalizeSteps ids steps).1.map Step.id) := by
  induction steps generalizing ids with
  | nil => exact ⟨rfl, fun k id h => by cases h⟩
  | cons s steps ih =>
    have hrest := ih (s.canonicalize ids).2
    rw [s.canonicalize_supply] at hrest
    rw [canonicalizeSteps_cons, List.map_cons, List.map_cons, s.id_canonicalize,
      s.canonicalize_supply]
    exact hrest.cons s.id

namespace Endpoint

/-- The identifiers of an endpoint and of its steps, in order. -/
def identifiers (e : Endpoint) : List String :=
  e.id :: e.steps.map Step.id

/-- An endpoint's own identifier is filled in before those of its steps. -/
theorem filledFrom_canonicalize (ids : IdSupply) (e : Endpoint) :
    FilledFrom ids e.identifiers (e.canonicalize ids).1.identifiers := by
  rw [canonicalize_eq]
  exact (filledFrom_canonicalizeSteps _ e.steps).cons e.id

/-- As many identifiers are drawn as are missing. -/
theorem canonicalize_supply_eq_skip (ids : IdSupply) (e : Endpoint) :
    (e.canonicalize ids).2 = ids.skip (e.identifiers.count "") := by
  have hsteps : (e.steps.map Step.id).count "" = e.steps.countP (·.id = "") := by
    rw [List.count, List.countP_map]
    rfl
  rw [canonicalize_supply, IdSupply.skip_skip, identifiers, List.count_cons, hsteps, Nat.add_comm]
  simp

end Endpoint

/-! ## What is kept -/

/-- A call that says the same as another one. A name for its result counts unless it is empty. -/
structure Call.ContentKept (c c' : Call) : Prop where
  configId : c'.configId = c.configId
  methodName : c'.methodName = c.methodName
  outputName : ∀ name ≠ "", c'.outputName = some name ↔ c.outputName = some name
  arguments : c'.arguments = c.arguments

/-- A step of the same kind that says the same as another one, under whatever identifier. -/
inductive Step.ContentKept : Step → Step → Prop
  | call {c c' : Call} (h : c.ContentKept c') : ContentKept (.call c) (.call c')
  | ret {r r' : Return} (h : r'.argument = r.argument) : ContentKept (.ret r) (.ret r')

/-- An endpoint that says the same as another one, step by step. Blanks around the address do not
    count. -/
structure Endpoint.ContentKept (e e' : Endpoint) : Prop where
  name : e'.name = e.name
  description : e'.description = e.description
  url : Text.IsTrimOf e'.url e.url
  steps : List.Forall₂ Step.ContentKept e.steps e'.steps

/-- Where no name is empty, a result keeps its name, or has none as before. -/
theorem Call.ContentKept.outputName_eq {c c' : Call} (h : c.ContentKept c') (hc : c.NoEmptyOutput)
    (hc' : c'.NoEmptyOutput) : c'.outputName = c.outputName := by
  ext name
  by_cases hname : name = ""
  · subst hname
    exact iff_of_false hc' hc
  · exact h.outputName name hname

/-- Where there is a call, there is one that says the same. -/
theorem Endpoint.ContentKept.call_of_getElem? {e e' : Endpoint} (h : e.ContentKept e') {i : Nat}
    {c : Call} (hc : e.steps[i]? = some (.call c)) :
    ∃ c', e'.steps[i]? = some (.call c') ∧ c.ContentKept c' := by
  have hsteps := h.steps
  generalize e.steps = steps at hsteps hc
  generalize e'.steps = steps' at hsteps
  induction hsteps generalizing i with
  | nil => cases hc
  | @cons s s' steps steps' hs _ ih =>
    cases i with
    | zero =>
      cases hc
      cases hs with
      | call hcall => exact ⟨_, rfl, hcall⟩
    | succ i => exact ih hc

theorem Step.contentKept_canonicalize (ids : IdSupply) (s : Step) :
    s.ContentKept (s.canonicalize ids).1 := by
  obtain ⟨id, hcanonical⟩ := s.canonicalize_eq ids
  rw [hcanonical]
  cases s with
  | ret r => exact .ret rfl
  | call c =>
    refine .call ⟨rfl, rfl, fun name hname => ?_, rfl⟩
    show c.outputName.filter (· ≠ "") = some name ↔ c.outputName = some name
    rw [Option.filter_eq_some_iff]
    simp [hname]

theorem contentKept_canonicalizeSteps (ids : IdSupply) (steps : List Step) :
    List.Forall₂ Step.ContentKept steps (canonicalizeSteps ids steps).1 := by
  induction steps generalizing ids with
  | nil => exact .nil
  | cons s steps ih => exact .cons (s.contentKept_canonicalize ids) (ih _)

namespace Endpoint

theorem contentKept_canonicalize (ids : IdSupply) (e : Endpoint) :
    e.ContentKept (e.canonicalize ids).1 := by
  rw [canonicalize_eq]
  exact ⟨rfl, rfl, Text.isTrimOf_trim e.url, contentKept_canonicalizeSteps _ e.steps⟩

/-! ## Fixed points -/

/-- An endpoint that is its own canonical form is canonical: no identifier was drawn that could be
    empty. -/
theorem canonical_of_canonicalize_eq_self {ids : IdSupply} {e : Endpoint}
    (h : e.canonicalize ids = (e, ids)) : e.Canonical := by
  have hdrawn : ids.drawnUntil (e.canonicalize ids).2 = [] := by
    rw [h, IdSupply.drawnUntil, Nat.sub_self]
    rfl
  have hcanonical : (e.canonicalize ids).1.Canonical :=
    canonicalize_canonical (by simp [hdrawn])
  rwa [h] at hcanonical

/-- Canonicalizing with identifiers none of which is empty gives a canonical endpoint. It draws one
    identifier for each that is missing, in order, and keeps the others and all that the endpoint
    says. The endpoints that it leaves alone are the canonical ones, so nothing changes when it is done
    again. -/
theorem canonicalize_fixes_canonical_only {ids : IdSupply} (hids : ∀ n, ids.id n ≠ "")
    (e : Endpoint) :
    let echo := (e.canonicalize ids).1
    echo.Canonical ∧
      (e.canonicalize ids).2 = ids.skip (e.identifiers.count "") ∧
      FilledFrom ids e.identifiers echo.identifiers ∧
      e.ContentKept echo ∧
      (e.canonicalize ids = (e, ids) ↔ e.Canonical) ∧
      ∀ ids', echo.canonicalize ids' = (echo, ids') := by
  intro echo
  have hecho : echo.Canonical := by
    refine canonicalize_canonical fun id hid => ?_
    obtain ⟨n, -, rfl⟩ := List.mem_map.mp hid
    exact hids n
  exact ⟨hecho, e.canonicalize_supply_eq_skip ids, e.filledFrom_canonicalize ids,
    e.contentKept_canonicalize ids,
    ⟨canonical_of_canonicalize_eq_self, fun h => canonicalize_eq_self h ids⟩,
    canonicalize_eq_self hecho⟩

/-- The endpoint and two of its three steps lack identifiers, an ideographic blank stands in front of
    the address, and the result of a call has an empty name. -/
theorem canonicalize_fixes_canonical_only_awkward :
    let ids : IdSupply := { id := fun n => String.ofList (List.replicate (n + 1) 'x') }
    let find (id : String) (name : Option String) : Step :=
      .call ⟨id, "db", "find", name, [⟨"of", .literal " "⟩]⟩
    let e : Endpoint := ⟨"", "list", "", "\u3000 /a b\n",
      [find "" (some ""), find "c" (some "row"), .ret ⟨"", "", .parameter "row"⟩]⟩
    let echo : Endpoint := ⟨"x", "list", "", "/a b",
      [find "xx" none, find "c" (some "row"), .ret ⟨"xxx", "", .parameter "row"⟩]⟩
    (∀ n, ids.id n ≠ "") ∧ (e.canonicalize ids).1 = echo ∧
      (e.canonicalize ids).2 = ids.skip 3 ∧ FilledFrom ids e.identifiers echo.identifiers ∧
      e.ContentKept echo ∧ ¬e.Canonical ∧ echo.Canonical ∧ echo.canonicalize ids = (echo, ids) := by
  intro ids find e echo
  have hids : ∀ n, ids.id n ≠ "" := by
    intro n hn
    have hlist := congrArg String.toList hn
    simp [ids] at hlist
  have hecho : (e.canonicalize ids).1 = echo := by decide
  obtain ⟨hcanonical, hsupply, hfilled, hkept, hfixed, hagain⟩ :=
    canonicalize_fixes_canonical_only hids e
  rw [hecho] at hcanonical hfilled hkept hagain
  have hnot : ¬e.Canonical := by
    intro he
    have hsame := congrArg Prod.fst (hfixed.mpr he)
    rw [hecho] at hsame
    exact absurd hsame (by decide)
  exact ⟨hids, hecho, hsupply, hfilled, hkept, hnot, hcanonical, hagain ids⟩

end Endpoint

end CallFlow
