import CallFlow.Canonical
import CallFlow.Workspace
import CallFlow.Proofs.Text.Blank

/-!
# Canonical endpoints

An empty name counts as no name, so a document cannot say that a call binds one. Nothing of the kind
is left in the canonical form of an endpoint.

Canonicalizing draws one identifier for each that is missing. If none of those drawn is empty, the
result is canonical. An endpoint that is canonical already stays as it is.

## Main definitions

- `CallFlow.Step.NoEmptyOutput`, `CallFlow.Endpoint.NoEmptyOutput`,
  `CallFlow.Workspace.NoEmptyOutput` — no call binds its result to an empty name
- `CallFlow.IdSupply.drawnUntil` — the identifiers drawn between two states of a supply
- `CallFlow.Endpoint.Canonical` — what canonicalizing aims at

## Main statements

- `CallFlow.Endpoint.canonicalize_noEmptyOutput` — nothing that is canonicalized binds an empty name
- `CallFlow.Endpoint.canonicalize_supply` — how many identifiers are drawn
- `CallFlow.Endpoint.canonicalize_canonical` — what is canonicalized is canonical
- `CallFlow.Endpoint.canonicalize_eq_self` — what is canonical stays
-/

namespace CallFlow

/-- The result of the call is not bound to an empty name. -/
def Call.NoEmptyOutput (c : Call) : Prop :=
  c.outputName ≠ some ""

/-- The result of the step is not bound to an empty name. -/
def Step.NoEmptyOutput (s : Step) : Prop :=
  s.outputName ≠ some ""

/-- No step binds its result to an empty name. -/
def Endpoint.NoEmptyOutput (e : Endpoint) : Prop :=
  ∀ s ∈ e.steps, s.NoEmptyOutput

/-- No step of an endpoint binds its result to an empty name. -/
def Workspace.NoEmptyOutput (w : Workspace) : Prop :=
  ∀ e ∈ w.endpoints, e.NoEmptyOutput

instance (c : Call) : Decidable c.NoEmptyOutput :=
  inferInstanceAs (Decidable (c.outputName ≠ some ""))

instance (s : Step) : Decidable s.NoEmptyOutput :=
  inferInstanceAs (Decidable (s.outputName ≠ some ""))

instance (e : Endpoint) : Decidable e.NoEmptyOutput :=
  inferInstanceAs (Decidable (∀ s ∈ e.steps, s.NoEmptyOutput))

instance (w : Workspace) : Decidable w.NoEmptyOutput :=
  inferInstanceAs (Decidable (∀ e ∈ w.endpoints, e.NoEmptyOutput))

/-- An optional name from which the empty one was struck is not empty. -/
theorem filter_ne_some_empty (name : Option String) : name.filter (· ≠ "") ≠ some "" := by
  intro h
  have hmem := (Option.filter_eq_some_iff.mp h).2
  simp at hmem

namespace Step

theorem dropEmptyOutput_noEmptyOutput (s : Step) : s.dropEmptyOutput.NoEmptyOutput := by
  cases s with
  | call c => exact filter_ne_some_empty c.outputName
  | ret r => simp [NoEmptyOutput, dropEmptyOutput, outputName]

theorem canonicalize_noEmptyOutput (ids : IdSupply) (s : Step) :
    (s.canonicalize ids).1.NoEmptyOutput :=
  dropEmptyOutput_noEmptyOutput _

/-- The canonical form of a step differs in its identifier and in an empty name for its result. -/
theorem canonicalize_eq (ids : IdSupply) (s : Step) :
    ∃ id, (s.canonicalize ids).1 = (s.withId id).dropEmptyOutput := by
  by_cases h : s.id = ""
  · exact ⟨ids.draw.1, by simp [canonicalize, ensureId, h]⟩
  · refine ⟨s.id, ?_⟩
    have hsame : s.withId s.id = s := by cases s <;> rfl
    simp [canonicalize, ensureId, h, hsame]

end Step

theorem canonicalizeSteps_cons (ids : IdSupply) (s : Step) (steps : List Step) :
    (canonicalizeSteps ids (s :: steps)).1 =
      (s.canonicalize ids).1 :: (canonicalizeSteps (s.canonicalize ids).2 steps).1 :=
  rfl

theorem canonicalizeSteps_noEmptyOutput (ids : IdSupply) (steps : List Step) :
    ∀ s ∈ (canonicalizeSteps ids steps).1, s.NoEmptyOutput := by
  induction steps generalizing ids with
  | nil => simp [canonicalizeSteps]
  | cons step steps ih =>
    intro s hs
    rcases List.mem_cons.mp hs with rfl | hs
    · exact step.canonicalize_noEmptyOutput ids
    · exact ih _ s hs

/-- In a canonical endpoint no call binds an empty name. -/
theorem Endpoint.canonicalize_noEmptyOutput (ids : IdSupply) (e : Endpoint) :
    (e.canonicalize ids).1.NoEmptyOutput :=
  canonicalizeSteps_noEmptyOutput _ e.steps

/-! ## Identifiers that are drawn -/

namespace IdSupply

/-- The supply after some more draws. -/
def skip (s : IdSupply) (n : Nat) : IdSupply :=
  { s with drawn := s.drawn + n }

/-- The identifiers drawn from a supply until it has become another one. -/
def drawnUntil (s t : IdSupply) : List String :=
  (List.range' s.drawn (t.drawn - s.drawn)).map s.id

theorem drawnUntil_skip (s : IdSupply) (n : Nat) :
    s.drawnUntil (s.skip n) = (List.range' s.drawn n).map s.id := by
  simp [drawnUntil, skip]

theorem skip_skip (s : IdSupply) (m n : Nat) : (s.skip m).skip n = s.skip (m + n) := by
  simp [skip, Nat.add_assoc]

/-- What is drawn in two goes is what is drawn in the first and then in the second. -/
theorem drawnUntil_skip_skip (s : IdSupply) (m n : Nat) :
    s.drawnUntil ((s.skip m).skip n) =
      s.drawnUntil (s.skip m) ++ (s.skip m).drawnUntil ((s.skip m).skip n) := by
  rw [skip_skip, drawnUntil_skip, drawnUntil_skip, ← skip_skip, drawnUntil_skip,
    ← List.range'_append_1, List.map_append]
  rfl

end IdSupply

namespace Step

/-- Canonicalizing a step draws an identifier if the step has none. -/
theorem canonicalize_supply (ids : IdSupply) (s : Step) :
    (s.canonicalize ids).2 = ids.skip (if s.id = "" then 1 else 0) := by
  by_cases h : s.id = "" <;> simp [canonicalize, ensureId, h, IdSupply.draw, IdSupply.skip]

theorem id_canonicalize (ids : IdSupply) (s : Step) :
    (s.canonicalize ids).1.id = if s.id = "" then ids.id ids.drawn else s.id := by
  have hdrop : ∀ s : Step, s.dropEmptyOutput.id = s.id := by
    intro s
    cases s <;> rfl
  have hwith : ∀ (s : Step) (id : String), (s.withId id).id = id := by
    intro s id
    cases s <;> rfl
  by_cases h : s.id = "" <;> simp [canonicalize, ensureId, h, IdSupply.draw, hdrop, hwith]

theorem id_canonicalize_ne_empty {ids : IdSupply} {s : Step}
    (h : ∀ id ∈ ids.drawnUntil (s.canonicalize ids).2, id ≠ "") : (s.canonicalize ids).1.id ≠ "" := by
  rw [canonicalize_supply, IdSupply.drawnUntil_skip] at h
  rw [id_canonicalize]
  by_cases hid : s.id = ""
  · simpa [hid] using h
  · simp [hid]

end Step

theorem canonicalizeSteps_supply (ids : IdSupply) (steps : List Step) :
    (canonicalizeSteps ids steps).2 = ids.skip (steps.countP (·.id = "")) := by
  induction steps generalizing ids with
  | nil => rfl
  | cons s steps ih =>
    have hcons : (canonicalizeSteps ids (s :: steps)).2 =
        (canonicalizeSteps (s.canonicalize ids).2 steps).2 := rfl
    rw [hcons, ih, s.canonicalize_supply, IdSupply.skip_skip, List.countP_cons, Nat.add_comm]
    simp

theorem id_canonicalizeSteps_ne_empty {ids : IdSupply} {steps : List Step}
    (h : ∀ id ∈ ids.drawnUntil (canonicalizeSteps ids steps).2, id ≠ "") :
    ∀ s ∈ (canonicalizeSteps ids steps).1, s.id ≠ "" := by
  induction steps generalizing ids with
  | nil => simp [canonicalizeSteps]
  | cons step steps ih =>
    have hcons : (canonicalizeSteps ids (step :: steps)).2 =
        (canonicalizeSteps (step.canonicalize ids).2 steps).2 := rfl
    -- The step's own identifier is drawn first, those of the later steps after it.
    rw [hcons, canonicalizeSteps_supply, step.canonicalize_supply, IdSupply.drawnUntil_skip_skip,
      ← step.canonicalize_supply, ← canonicalizeSteps_supply] at h
    intro s hs
    rcases List.mem_cons.mp hs with rfl | hs
    · exact Step.id_canonicalize_ne_empty fun id hid => h id (List.mem_append_left _ hid)
    · exact ih (fun id hid => h id (List.mem_append_right _ hid)) s hs

/-! ## Canonical form -/

namespace Endpoint

/-- The endpoint and its steps have identifiers, no blanks stand around the address, and no call
    binds an empty name. -/
structure Canonical (e : Endpoint) : Prop where
  id_ne_empty : e.id ≠ ""
  url_trimmed : Text.Trimmed e.url
  step_id_ne_empty : ∀ s ∈ e.steps, s.id ≠ ""
  noEmptyOutput : e.NoEmptyOutput

/-- An endpoint's own identifier is drawn before those of its steps. -/
theorem canonicalize_eq (ids : IdSupply) (e : Endpoint) :
    e.canonicalize ids =
      let rest := ids.skip (if e.id = "" then 1 else 0)
      ({ e with
          id := if e.id = "" then ids.id ids.drawn else e.id
          url := Text.trim e.url
          steps := (canonicalizeSteps rest e.steps).1 },
        (canonicalizeSteps rest e.steps).2) := by
  by_cases h : e.id = "" <;> simp [canonicalize, h, IdSupply.draw, IdSupply.skip]

theorem id_canonicalize (ids : IdSupply) (e : Endpoint) :
    (e.canonicalize ids).1.id = if e.id = "" then ids.id ids.drawn else e.id := by
  rw [canonicalize_eq]

/-- One identifier is drawn if the endpoint has none, and one for each step that has none. -/
theorem canonicalize_supply (ids : IdSupply) (e : Endpoint) :
    (e.canonicalize ids).2 =
      (ids.skip (if e.id = "" then 1 else 0)).skip (e.steps.countP (·.id = "")) := by
  rw [canonicalize_eq]
  exact canonicalizeSteps_supply _ e.steps

theorem id_mem_drawnUntil {e : Endpoint} (h : e.id = "") (ids : IdSupply) :
    (e.canonicalize ids).1.id ∈ ids.drawnUntil (e.canonicalize ids).2 := by
  rw [canonicalize_supply, IdSupply.drawnUntil_skip_skip, id_canonicalize, if_pos h, if_pos h]
  exact List.mem_append_left _ (by simp [IdSupply.drawnUntil_skip])

/-- What is canonicalized is canonical, if no identifier drawn for it is empty. -/
theorem canonicalize_canonical {ids : IdSupply} {e : Endpoint}
    (h : ∀ id ∈ ids.drawnUntil (e.canonicalize ids).2, id ≠ "") :
    (e.canonicalize ids).1.Canonical := by
  refine ⟨?_, ?_, ?_, e.canonicalize_noEmptyOutput ids⟩
  · by_cases hid : e.id = ""
    · exact h _ (id_mem_drawnUntil hid ids)
    · rwa [id_canonicalize, if_neg hid]
  · rw [canonicalize_eq]
    exact Text.trimmed_trim e.url
  · rw [canonicalize_supply, IdSupply.drawnUntil_skip_skip, ← canonicalizeSteps_supply] at h
    rw [canonicalize_eq]
    exact id_canonicalizeSteps_ne_empty fun id hid => h id (List.mem_append_right _ hid)

end Endpoint

/-! ## Canonical endpoints stay -/

theorem Step.dropEmptyOutput_eq_self {s : Step} (h : s.NoEmptyOutput) : s.dropEmptyOutput = s := by
  cases s with
  | ret r => rfl
  | call c =>
    have hfilter : c.outputName.filter (· ≠ "") = c.outputName := by
      cases hname : c.outputName with
      | none => rfl
      | some name =>
        have hne : name ≠ "" := by
          rintro rfl
          exact h hname
        exact Option.filter_some_pos (by simpa using hne)
    rw [dropEmptyOutput, hfilter]

theorem Step.canonicalize_eq_self {s : Step} (hid : s.id ≠ "") (h : s.NoEmptyOutput)
    (ids : IdSupply) : s.canonicalize ids = (s, ids) := by
  simp only [canonicalize, ensureId, if_neg hid, dropEmptyOutput_eq_self h]

theorem canonicalizeSteps_eq_self {steps : List Step} (hids : ∀ s ∈ steps, s.id ≠ "")
    (h : ∀ s ∈ steps, s.NoEmptyOutput) (ids : IdSupply) :
    canonicalizeSteps ids steps = (steps, ids) := by
  induction steps with
  | nil => rfl
  | cons s steps ih =>
    obtain ⟨hid, hids⟩ := List.forall_mem_cons.mp hids
    obtain ⟨hs, h⟩ := List.forall_mem_cons.mp h
    rw [canonicalizeSteps, Step.canonicalize_eq_self hid hs]
    dsimp only
    rw [ih hids h]

/-- A canonical endpoint is its own canonical form, and no identifier is drawn for it. -/
theorem Endpoint.canonicalize_eq_self {e : Endpoint} (h : e.Canonical) (ids : IdSupply) :
    e.canonicalize ids = (e, ids) := by
  have hsteps := canonicalizeSteps_eq_self h.step_id_ne_empty h.noEmptyOutput ids
  simp only [canonicalize, if_neg h.id_ne_empty, hsteps, Text.trim_eq_self h.url_trimmed]

end CallFlow
